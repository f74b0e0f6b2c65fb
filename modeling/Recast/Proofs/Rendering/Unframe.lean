import Mathlib.Data.List.Infix
import Recast.Proofs.Rendering.Tops
import Recast.Proofs.Rule.Stages

/-!
# Frames undone

The top of a file is chosen by the body below it, and the body may itself start
like a part of a top. Even so a file can be cut in one place only such that the
text in front is the top that the text behind calls for (`fileTop_unique`): of
two such cuts, the one further up would have all the signs of the other behind
it, and so a top that is at least as long. With the indentation taken back, this
recovers the body up to line feeds in front and blanks at the end
(`unframe_frame`).
-/

namespace Recast

open Pattern

/-! ## Indentation taken back -/

namespace Text

/-- A line without its first `n` characters, if it has a character other than a
blank. -/
def outdentLine (n : Nat) (line : Text) : Text :=
  if (trim line).isEmpty then line else line.drop n

/-- `t` with `n` characters taken from the front of each line that has a
character other than a blank. -/
def outdentBlock (n : Nat) (t : Text) : Text :=
  unlines ((lines t).map (outdentLine n))

theorem trim_blanks_append {b : Text} (hb : ∀ c ∈ b, isBlank c = true)
    (t : Text) : trim (b ++ t) = trim t := by
  rw [trim, trim, List.dropWhile_append_of_pos hb]

/-- A line that is indented is blank exactly if it was so before. -/
theorem outdentLine_indented {pad : Text} (hpad : ∀ c ∈ pad, isBlank c = true)
    (line : Text) :
    outdentLine pad.length (if (trim line).isEmpty then line else pad ++ line) =
      line := by
  unfold outdentLine
  by_cases h : (trim line).isEmpty = true
  · rw [if_pos h, if_pos h]
  · rw [if_neg h, trim_blanks_append hpad, if_neg h, List.drop_left]

theorem outdentBlock_indentBlock {pad : Text}
    (hpad : ∀ c ∈ pad, isBlank c = true) (hbreak : '\n' ∉ pad) (t : Text) :
    outdentBlock pad.length (indentBlock pad t) = t := by
  -- indenting adds no lines
  have hlines : lines (indentBlock pad t) =
      (lines t).map fun line =>
        if (trim line).isEmpty then line else pad ++ line := by
    refine lines_unlines (by simp [lines, fields, fieldsBy_ne_nil]) ?_
    intro l hl
    obtain ⟨line, hline, rfl⟩ := List.mem_map.mp hl
    have hnot := newline_not_mem_of_mem_lines hline
    split
    · exact hnot
    · exact fun h => (List.mem_append.mp h).elim hbreak hnot
  calc outdentBlock pad.length (indentBlock pad t) =
        unlines ((lines t).map fun line => line) := by
        rw [outdentBlock, hlines, List.map_map]
        exact congrArg unlines
          (List.map_congr_left fun line _ => outdentLine_indented hpad line)
    _ = t := by rw [List.map_id', unlines_lines]

end Text

namespace Target

/-! ## The place of the top -/

/-- No text starts with what its own top lacks of the top of its rest. -/
theorem eq_nil_of_fileTop_append {t : Target} {program : Bool} {y w : Text}
    (h : t.fileTop program w = t.fileTop program (y ++ w) ++ y) : y = [] := by
  have hblank : y.getLast?.all isBlank = true := by
    have htop := t.isBlank_getLast?_fileTop program w
    rw [h, List.getLast?_append] at htop
    cases hlast : y.getLast? with
    | none => rfl
    | some c => simpa [hlast] using htop
  -- `y` ends in a blank, so that all signs of `w` are signs of `y ++ w`
  have hsigns : ∀ p ∈ t.topSigns, p.foundIn w = true →
      p.foundIn (y ++ w) = true := by
    intro p hp hw
    rw [foundIn_words (t.within_topSigns p hp)] at hw ⊢
    rw [Text.words_append_of_getLast? hblank, List.any_append, hw, Bool.or_true]
  have hlength := (t.fileTop_sublist program hsigns).length_le
  rw [h, List.length_append] at hlength
  exact List.length_eq_zero_iff.mp (by omega)

/-- A file is cut in one place only into a text and the top that the text calls
for. -/
theorem fileTop_unique {t : Target} {program : Bool} {v w : Text}
    (h : t.fileTop program v ++ v = t.fileTop program w ++ w) : v = w := by
  rcases List.append_eq_append_iff.mp h with ⟨y, htop, rfl⟩ | ⟨y, htop, rfl⟩
  · rw [eq_nil_of_fileTop_append htop, List.nil_append]
  · rw [eq_nil_of_fileTop_append htop, List.nil_append]

/-! ## Reading a file back -/

/-- What stands between the top and the bottom of a file. -/
def laidOutPart (t : Target) (program : Bool) (file : Text) : Option Text :=
  let code := file.take (file.length - (t.fileBottom program).length)
  code.tails.find? fun v => t.fileTop program v ++ v == code

theorem laidOutPart_append (t : Target) (program : Bool) (v : Text) :
    t.laidOutPart program (t.fileTop program v ++ v ++ t.fileBottom program) =
      some v := by
  have hcode : (t.fileTop program v ++ v ++ t.fileBottom program).take
      ((t.fileTop program v ++ v ++ t.fileBottom program).length -
        (t.fileBottom program).length) =
        t.fileTop program v ++ v := by
    rw [List.length_append, Nat.add_sub_cancel, List.take_left]
  rw [laidOutPart, hcode]
  cases hfind : (t.fileTop program v ++ v).tails.find?
      fun w => t.fileTop program w ++ w == t.fileTop program v ++ v with
  | none =>
      have hnot := List.find?_eq_none.mp hfind v
        ((List.mem_tails _ _).mpr (List.suffix_append _ _))
      exact absurd (beq_self_eq_true _) hnot
  | some w =>
      have hcut := List.find?_some hfind
      exact congrArg some (fileTop_unique (beq_iff_eq.mp hcut))

/-- The body without the layout that it has in the file. -/
def unlaid : Target → (program : Bool) → Text → Text
  | go, true, v | javascript, true, v
  | csharp, false, v => Text.outdentBlock Text.indentation.length v
  | csharp, true, v =>
    Text.outdentBlock (Text.indentation ++ Text.indentation).length v
  | php, _, v => v
  | go, false, v | javascript, false, v => v.trimBody

theorem unlaid_laidOut (t : Target) (program : Bool) (body : Text) :
    t.unlaid program (t.laidOut program body) = body.trimBody := by
  have hone := Text.outdentBlock_indentBlock Text.isBlank_indentation
    (by decide) body.trimBody
  have htwo : Text.outdentBlock (Text.indentation ++ Text.indentation).length
      (Text.indentBlock (Text.indentation ++ Text.indentation) body.trimBody) =
        body.trimBody :=
    Text.outdentBlock_indentBlock (List.all_eq_true.mp (by decide))
      (by decide) body.trimBody
  cases t <;> cases program
  · rfl
  · exact hone
  · rfl
  · rfl
  · rfl
  · exact hone
  · exact hone
  · exact htwo

/-- The body of a file, without line feeds in front and blanks at the end. -/
def unframe (t : Target) (program : Bool) (file : Text) : Option Text :=
  (t.laidOutPart program file).map (t.unlaid program)

theorem unframe_frame (t : Target) (ctx : Context) (body : Text) :
    t.unframe ctx.functions.isEmpty (t.frame ctx body) =
      some body.trimBody := by
  have htop := t.fileTop_congr_words ctx.functions.isEmpty
    (t.words_laidOut ctx.functions.isEmpty body)
  rw [unframe, frame_eq, ← htop, laidOutPart_append, Option.map_some,
    unlaid_laidOut]

/-- The rule that puts the frame around the body. -/
def frameRule (t : Target) : Rule :=
  { name := "boilerplate", transform := t.frame }

theorem frameRule_mem (t : Target) : t.frameRule ∈ t.rules := by
  rw [rules_eq_append]
  exact List.mem_append_right _ (List.mem_cons_of_mem _ List.mem_cons_self)

/-- **Nothing is lost in a frame.** From what the rule `boilerplate` leaves the
body can be read back, up to line feeds in front and blanks at the end; so
bodies that it makes the same file of are the same up to these. -/
theorem body_recovered_from_frame (t : Target) (ctx : Context) {r : Rule}
    (hr : r ∈ t.rules) (hname : r.name = "boilerplate".toList) :
    (∀ body, t.unframe ctx.functions.isEmpty (r.apply ctx body) =
      some body.trimBody) ∧
    ∀ body body', r.apply ctx body = r.apply ctx body' →
      body.trimBody = body'.trimBody := by
  obtain rfl : r = t.frameRule := eq_of_name hr t.frameRule_mem hname
  have hread (body : Text) : t.unframe ctx.functions.isEmpty
      (t.frameRule.apply ctx body) = some body.trimBody :=
    t.unframe_frame ctx body
  refine ⟨hread, ?_⟩
  intro body body' hsame
  have hsome := hread body
  rw [hsame, hread body'] at hsome
  exact (Option.some.inj hsome).symm

/-- A body that starts with the line that loads libraries, although it needs
none. -/
def loading : Text := "require __DIR__ . '/vendor/autoload.php';\n\necho 1;"

theorem body_recovered_from_frame_loading :
    php.frameRule ∈ php.rules ∧ php.frameRule.name = "boilerplate".toList ∧
      php.unframe true (php.frameRule.apply .empty loading) =
        some loading.trimBody ∧
      php.frameRule.apply .empty loading =
        php.frameRule.apply .empty ('\n' :: loading) ∧
      loading.trimBody = Text.trimBody ('\n' :: loading) := by
  have hsame : php.frameRule.apply .empty loading =
      php.frameRule.apply .empty ('\n' :: loading) := by decide
  obtain ⟨hread, hinj⟩ :=
    body_recovered_from_frame php .empty php.frameRule_mem rfl
  exact ⟨php.frameRule_mem, rfl, hread loading, hsame, hinj _ _ hsame⟩

end Target

end Recast
