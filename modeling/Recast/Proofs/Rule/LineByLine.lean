import Recast.Proofs.Rule.CallArguments
import Recast.Proofs.Rule.Comment
import Recast.Proofs.Rule.StatementEnd

/-!
# Rules that work line by line

A pattern that takes no line feed, and whose conditions cannot tell one from the
edge of the text, is replaced in each line as if the line stood alone
(`substitute_unlines`). The patterns of the rules for comments, lengths, calls
that print or append, and reshaped values are of this kind, so these rules may
be read as rules about single lines.
-/

namespace Recast

/-- A line is a comment if it starts with a hash sign behind its indentation. -/
theorem Text.isComment_iff (line : Text) :
    line.isComment = true ↔ ∃ w rest :
      Text, (∀ c ∈ w, isIndent c = true) ∧ line = w ++ '#' :: rest := by
  constructor
  · intro h
    obtain ⟨w, rest, hline, hw⟩ := exists_of_isComment h
    exact ⟨w, rest, hw, hline⟩
  · rintro ⟨w, rest, hw, rfl⟩
    exact isComment_append hw (by decide) rest

namespace Target

/-- The names of the rules that work within a line. -/
def lineRules : List Text :=
  ["comment", "length_builtin", "output_call", "append", "numpy_reshape"]

/-- The rule for comments. -/
def commentRule : Rule :=
  .replacing "comment" Idiom.comment.pattern fun _ => replaceComment

theorem commentRule_mem (t : Target) : commentRule ∈ t.rules :=
  List.mem_cons_self

theorem lengthRule_mem (t : Target) : t.lengthRule ∈ t.rules := by
  simp only [rules, List.mem_append, List.mem_cons, true_or, or_true]

/-- Go has no rule for lengths outside the bound of a loop. -/
theorem length_builtin_not_go {r : Rule} (hr : r ∈ go.rules) :
    r.name ≠ "length_builtin".toList := by
  intro hname
  have hmem : "length_builtin".toList ∈ go.rules.map (·.name) :=
    hname ▸ List.mem_map_of_mem hr
  exact absurd hmem (by decide)

/-- Each of these rules replaces the matches of a pattern that stays within a
line. -/
theorem exists_breakFree {t : Target} {r : Rule} (hr : r ∈ t.rules)
    (hname : r.name ∈ lineRules) :
    ∃ (p : Pattern) (f : Context → Match → Text), p.breakFree = true ∧
      ∀ ctx text, r.transform ctx text = p.substitute (f ctx) text := by
  simp only [lineRules, List.mem_cons, List.not_mem_nil, or_false] at hname
  rcases hname with hname | hname | hname | hname | hname
  · obtain rfl := eq_of_name hr t.commentRule_mem hname
    exact ⟨_, _, rfl, fun _ _ => rfl⟩
  · cases t with
    | go => exact absurd hname (length_builtin_not_go hr)
    | php | javascript | csharp =>
        obtain rfl := eq_of_name hr (lengthRule_mem _) hname
        exact ⟨_, _, rfl, fun _ _ => rfl⟩
  · obtain rfl := eq_of_name hr t.printRule_mem hname
    exact ⟨_, _, rfl, fun _ _ => rfl⟩
  · obtain rfl := eq_of_name hr t.appendRule_mem hname
    exact ⟨_, _, rfl, fun _ _ => rfl⟩
  · obtain rfl := eq_of_name hr t.reshapeRule_mem hname
    exact ⟨_, _, rfl, fun _ _ => rfl⟩

theorem transform_eq_unlines {t : Target} {r : Rule} (hr : r ∈ t.rules)
    (hname : r.name ∈ lineRules) (ctx : Context) (text : Text) :
    r.transform ctx text = Text.unlines (text.lines.map (r.transform ctx)) := by
  obtain ⟨p, f, hfree, htransform⟩ := exists_breakFree hr hname
  have hmap : text.lines.map (r.transform ctx) =
      text.lines.map (p.substitute (f ctx)) :=
    List.map_congr_left fun line _ => htransform ctx line
  calc r.transform ctx text =
        p.substitute (f ctx) (Text.unlines text.lines) := by
        rw [Text.unlines_lines, htransform]
    _ = Text.unlines (text.lines.map (r.transform ctx)) := by
        rw [hmap, Pattern.substitute_unlines hfree]

/-- **Line by line.** What the rules for comments, lengths, calls that print or
append, and reshaped values make of a text, they make of its lines one by one.
In a line of blanks, a hash sign and a rest the rule for comments writes two
slashes and a space for the sign and for one space or tabulator behind it; every
other line it leaves as it is. -/
theorem line_rules_by_lines (t : Target) (ctx : Context) (text : Text) :
    (∀ r ∈ t.rules, r.name ∈ lineRules →
      r.transform ctx text = Text.unlines (text.lines.map (r.transform ctx))) ∧
    (∀ r ∈ t.rules, r.name = "comment".toList →
      (∀ w rest : Text, (∀ c ∈ w, isIndent c = true) → '\n' ∉ rest →
        r.transform ctx (w ++ '#' :: rest) = w ++ ("// " ++ rest.unindent)) ∧
      (∀ line : Text, '\n' ∉ line →
        (¬ ∃ w rest : Text, (∀ c ∈ w, isIndent c = true) ∧
          line = w ++ '#' :: rest) →
        r.transform ctx line = line)) := by
  refine ⟨fun r hr hname => transform_eq_unlines hr hname ctx text,
    fun r hr hname => ?_⟩
  obtain rfl := eq_of_name hr t.commentRule_mem hname
  refine ⟨fun w rest hw hrest => substitute_comment_line hw hrest,
    fun line hline hplain => ?_⟩
  rw [← Text.isComment_iff, Bool.not_eq_true] at hplain
  exact substitute_plain_line hline hplain

/-- A comment that is indented, and a call in the next line. -/
theorem line_rules_by_lines_two :
    commentRule ∈ php.rules ∧ commentRule.name ∈ lineRules ∧
    commentRule.transform .empty "\t#  a\nb # c" =
      Text.unlines [commentRule.transform .empty "\t#  a",
      commentRule.transform .empty "b # c"] ∧
    commentRule.transform .empty "\t#  a" = "\t//  a".toList ∧
    commentRule.transform .empty "b # c" = "b # c".toList := by
  have hname : commentRule.name ∈ lineRules := List.mem_cons_self
  obtain ⟨hlines, hcomment⟩ := line_rules_by_lines php .empty "\t#  a\nb # c"
  obtain ⟨hsign, hplain⟩ := hcomment commentRule php.commentRule_mem rfl
  have hw : ∀ c ∈ "\t".toList, isIndent c = true :=
    List.all_eq_true.mp (by decide)
  refine ⟨php.commentRule_mem, hname,
    hlines commentRule php.commentRule_mem hname, ?_, ?_⟩
  · exact hsign "\t" "  a" hw (by decide)
  · refine hplain "b # c" (by decide) ?_
    rw [← Text.isComment_iff]
    decide

end Target

end Recast
