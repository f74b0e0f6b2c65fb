import Recast.Proofs.Analysis.Functions
import Recast.Proofs.Pattern.Choice
import Recast.Proofs.Pattern.Joint

/-!
# Comment lines

The rule for comments works line by line. In a line whose first character after
its indentation is a hash sign it writes two slashes and a space in place of
that sign and of one blank after it (`substitute_comment_line`), and it leaves
every other line alone (`substitute_plain_line`).
-/

namespace Recast

/-! ## Starts of lines -/

namespace Text

theorem lastOr_none (t : Text) : lastOr none t = t.getLast? := by
  rcases List.eq_nil_or_concat t with rfl | ⟨w, c, rfl⟩
  · rfl
  · simp

end Text

namespace Pattern

/-- The pattern begins with the condition that a line starts. -/
def opensLine : Pattern → Bool
  | anchor .lineStart => true
  | seq p _ | group p => p.opensLine
  | _ => false

theorem Reads.lineStart {p : Pattern} {before : Option Char} {u rest : Text}
    {gs : List (Option Text)} (h : p.Reads before u rest gs)
    (hp : p.opensLine = true) : before = none ∨ before = some '\n' := by
  induction h with
  | empty | one | many | left | right => exact Bool.noConfusion hp
  | @anchor a before rest ha =>
      cases a with
      | lineStart => simpa [Anchor.holds] using ha
      | _ => exact Bool.noConfusion hp
  | seq _ _ ih => exact ih hp
  | group _ ih => exact ih hp

/-- A match of such a pattern stands where a line starts. -/
theorem lineStart_of_mem_matchesIn {p : Pattern} (hp : p.opensLine = true)
    {t : Text} {m : Match} (hm : m ∈ p.matchesIn t) :
    ∃ pre rest, t = pre ++ (m.text ++ rest) ∧
      (pre = [] ∨ pre.getLast? = some '\n') ∧
      p.Reads (Text.lastOr none pre) m.text rest m.groups := by
  obtain ⟨pre, rest, ht, hread⟩ := reads_of_mem_matchesIn hm
  refine ⟨pre, rest, ht, ?_, hread⟩
  rcases hread.lineStart hp with hnone | hbreak
  · rw [Text.lastOr_none, List.getLast?_eq_none_iff] at hnone
    exact Or.inl hnone
  · rw [Text.lastOr_none] at hbreak
    exact Or.inr hbreak

/-- Such a pattern is not found inside a line. -/
theorem foundFrom_inside_line {p : Pattern} (hp : p.opensLine = true) {c : Char}
    {t : Text} (ht : '\n' ∉ c :: t) : p.foundFrom (some c) t = false := by
  rw [Bool.eq_false_iff, ne_eq, foundFrom_iff]
  rintro ⟨pre, u, rest, gs, rfl, -, hread⟩
  have hlast : Text.lastOr (some c) pre = (c :: pre).getLast? :=
    Text.lastOr_none (c :: pre)
  rcases hread.lineStart hp with hnone | hbreak
  · rw [hlast] at hnone
    simp at hnone
  · rw [hlast] at hbreak
    rw [← List.cons_append] at ht
    exact ht (List.mem_append_left _ (List.mem_of_getLast? hbreak))

end Pattern

/-! ## One line -/

namespace Text

/-- Whether the first character that does not indent the line is a hash sign. -/
def isComment (l : Text) : Bool := (l.dropWhile isIndent).head? == some '#'

/-- The text without one space or tabulator at its start. -/
def unindent : Text → Text
  | [] => []
  | c :: cs => if isIndent c then cs else c :: cs

theorem dropWhile_indent {w : Text} (hw : ∀ c ∈ w, isIndent c = true) {c : Char}
    (hc : isIndent c = false) (rest : Text) :
    (w ++ c :: rest).dropWhile isIndent = c :: rest := by
  rw [List.dropWhile_append_of_pos hw,
    List.dropWhile_cons_of_neg (by simp [hc])]

theorem isComment_append {w : Text} (hw : ∀ c ∈ w, isIndent c = true) {c : Char}
    (hc : isIndent c = false) (rest : Text) :
    isComment (w ++ c :: rest) = (c == '#') := by
  rw [isComment, dropWhile_indent hw hc]
  rfl

theorem exists_of_isComment {l : Text} (h : l.isComment = true) :
    ∃ w rest : Text, l = w ++ '#' :: rest ∧ ∀ c ∈ w, isIndent c = true := by
  obtain ⟨rest, hrest⟩ := List.head?_eq_some_iff.mp (beq_iff_eq.mp h)
  refine ⟨l.takeWhile isIndent, rest, ?_, fun c hc => List.mem_takeWhile_imp hc⟩
  rw [← hrest, List.takeWhile_append_dropWhile]

theorem mem_of_mem_unindent {c : Char} {t : Text} (h : c ∈ unindent t) :
    c ∈ t := by
  cases t with
  | nil => exact h
  | cons d t =>
      rw [unindent] at h
      split at h
      · exact List.mem_cons_of_mem d h
      · exact h

end Text

namespace Idiom

open Pattern

variable {w rest : Text} (hw : ∀ c ∈ w, isIndent c = true) (hrest : '\n' ∉ rest)
include hw hrest

/-- In a comment line the whole line is taken, with the indentation and the text
after the sign as groups. -/
theorem picks_comment :
    commentPattern.Picks (fun _ _ => True) none (w ++ '#' :: rest) []
      [some w, some rest.unindent] := by
  have hline : ∀ (t : Text) (before : Option Char), (∀ c ∈ t, c ∈ rest) →
      (group (stretch .longest) ++ anchor .lineEnd).Picks
        (fun _ _ => True) before t [] [some t] := by
    intro t before ht
    have hend : (anchor .lineEnd).Picks (fun _ _ => True)
        (Text.lastOr before t) [] [] [] :=
      picks_anchor rfl trivial
    have hinline : ∀ c ∈ t, isInline c = true := by
      intro c hc
      have hne : c ≠ '\n' := fun e => hrest (e ▸ ht c hc)
      simpa [isInline] using hne
    have hpicks := Picks.group_append (picks_run hinline rfl hend.reaches) hend
    rwa [List.append_nil] at hpicks
  have hsign :
      (optional (one isIndent) ++
        (group (stretch .longest) ++ anchor .lineEnd)).Picks
      (fun _ _ => True) (some '#') rest [] [some rest.unindent] := by
    cases rest with
    | nil =>
        exact Picks.skip_append (not_reaches_one rfl) (hline [] _ (by simp))
    | cons c cs =>
        rw [Text.unindent]
        split
        · rename_i hc
          have htail := hline cs (some c) (by simp +contextual)
          exact Picks.optional_append (u := [c])
            (picks_one hc htail.reaches) htail
        · rename_i hc
          exact Picks.skip_append (not_reaches_one (by simpa using hc))
            (hline (c :: cs) _ (by simp))
  simp only [commentPattern, picks_append_assoc]
  apply Picks.anchor_append rfl
  have hhash : (literal "#".toList ++
      (optional (one isIndent) ++
        (group (stretch .longest) ++ anchor .lineEnd))).Picks
      (fun _ _ => True) (Text.lastOr none w) ('#' :: rest) []
        [some rest.unindent] :=
    Picks.literal_append hsign
  exact Picks.group_append (picks_run hw (by simp; decide) hhash.reaches) hhash

end Idiom

namespace Target

open Pattern

/-- A comment line keeps its indentation and its text. -/
theorem substitute_comment_line {w rest : Text}
    (hw : ∀ c ∈ w, isIndent c = true) (hrest : '\n' ∉ rest) :
    Idiom.comment.pattern.substitute replaceComment (w ++ '#' :: rest) =
      w ++ ("// " ++ rest.unindent) := by
  obtain ⟨m, hgroups, hm⟩ :=
    (Idiom.picks_comment hw hrest).substitute_eq (by simp) replaceComment
  exact hm.trans (Analysis.replaceComment_of_groups hgroups)

theorem foundIn_plain_line {l : Text} (hl : '\n' ∉ l)
    (h : l.isComment = false) :
    Idiom.comment.pattern.foundIn l = false := by
  rw [foundIn_eq_false_iff]
  by_contra hne
  obtain ⟨m, hm⟩ := List.exists_mem_of_ne_nil _ hne
  obtain ⟨pre, rest, ht, hstart, hread⟩ := lineStart_of_mem_matchesIn rfl hm
  obtain ⟨indent, gap, text, htext, -, hindent, -, -⟩ :=
    Idiom.shape_comment hread
  -- there is no line start inside a line
  have hpre : pre = [] := by
    rcases hstart with hnil | hlast
    · exact hnil
    · exact absurd (ht ▸ List.mem_append_left _ (List.mem_of_getLast? hlast)) hl
  have hcomment : l.isComment = true := by
    have hl : l = indent ++ '#' :: (gap ++ text ++ rest) := by
      rw [ht, hpre, htext]
      simp
    rw [hl, Text.isComment_append hindent (by decide)]
    rfl
  rw [h] at hcomment
  exact Bool.noConfusion hcomment

/-- A line that is no comment is left alone. -/
theorem substitute_plain_line {l : Text} (hl : '\n' ∉ l)
    (h : l.isComment = false) :
    Idiom.comment.pattern.substitute replaceComment l = l :=
  substituteFrom_eq_self (foundIn_plain_line hl h) replaceComment

/-- The rule for comments works on each line by itself. -/
theorem substitute_comment_eq (source : Text) :
    Idiom.comment.pattern.substitute replaceComment source =
      Text.unlines (source.lines.map
        (Idiom.comment.pattern.substitute replaceComment)) := by
  conv_lhs => rw [← Text.unlines_lines source]
  exact substitute_unlines rfl replaceComment source.lines

/-- What a line becomes: slashes stand behind the indentation of a comment, and
any other line is the same. -/
theorem recommented_line {l : Text} (hl : '\n' ∉ l) :
    (l.isComment = true ∧ ∃ w text, (∀ c ∈ w, isIndent c = true) ∧ '\n' ∉ text ∧
      Idiom.comment.pattern.substitute replaceComment l = w ++ '/' :: text) ∨
    (l.isComment = false ∧
      Idiom.comment.pattern.substitute replaceComment l = l) := by
  cases hcomment : l.isComment with
  | false => exact Or.inr ⟨rfl, substitute_plain_line hl hcomment⟩
  | true =>
      obtain ⟨w, rest, rfl, hw⟩ := Text.exists_of_isComment hcomment
      have hrest : '\n' ∉ rest := fun hmem => hl (by simp [hmem])
      have hunindent : '\n' ∉ rest.unindent :=
        fun hmem => hrest (Text.mem_of_mem_unindent hmem)
      refine Or.inl ⟨rfl, w, '/' :: ' ' :: rest.unindent, hw,
        by simpa using hunindent, ?_⟩
      exact substitute_comment_line hw hrest

/-- The lines after the rule for comments are those before it, one by one. -/
theorem lines_recommented (source : Text) :
    (Idiom.comment.pattern.substitute replaceComment source).lines =
      source.lines.map (Idiom.comment.pattern.substitute replaceComment) := by
  rw [substitute_comment_eq]
  apply Text.lines_unlines
  · rw [ne_eq, List.map_eq_nil_iff]
    exact Text.fieldsBy_ne_nil _ source
  · intro l hl
    obtain ⟨k, hk, rfl⟩ := List.mem_map.mp hl
    have hbreak := Text.newline_not_mem_of_mem_lines hk
    rcases recommented_line hbreak with
      ⟨-, w, text, hw, htext, hsame⟩ | ⟨-, hsame⟩
    · rw [hsame]
      have hmargin : '\n' ∉ w := Text.not_mem_of_forall hw (by decide)
      simp [hmargin, htext]
    · rwa [hsame]

end Target

end Recast
