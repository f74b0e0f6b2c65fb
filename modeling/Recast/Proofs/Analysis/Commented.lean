import Recast.Proofs.Rendering.Frame
import Recast.Proofs.Rule.Comment

/-!
# Definitions in comments

A definition that is commented out gives no signature, since the rule for
comments runs first and leaves no line that starts with it
(`matchesIn_functionDef_commented`). The analysis does not know of comments: it
finds a name behind `def` wherever it stands. A snippet whose definitions are
all commented out is therefore laid out as a program exactly if no comment has
such a name (`program_iff_of_commented`).
-/

namespace Recast

open Pattern

/-! ## No signatures -/

/-- A header starts with its indentation and the word `def`. -/
theorem Idiom.def_of_reads_functionDef {before : Option Char} {u rest : Text}
    {gs : List (Option Text)} (h : functionDefPattern.Reads before u rest gs) :
    ∃ indent tail : Text, u = indent ++ 'd' :: 'e' :: 'f' :: tail ∧
      ∀ c ∈ indent, isIndent c = true := by
  simp only [functionDefPattern, Pattern.indent, reads_append_assoc,
    reads_anchor_append, reads_group_append, reads_literal_append,
    reads_many_iff] at h
  obtain ⟨-, indent, _, _, _, rfl, -, ⟨hindent, -⟩, tail, rfl, -⟩ := h
  exact ⟨indent, tail, rfl, hindent⟩

namespace Text

/-- Every line in which `def` occurs is a comment. -/
def DefsCommented (source : Text) : Prop :=
  ∀ l ∈ source.lines, l.mentions "def" = true → l.isComment = true

end Text

namespace Target

theorem matchesIn_functionDef_commented {source : Text}
    (h : source.DefsCommented) :
    Idiom.functionDef.pattern.matchesIn
      (Idiom.comment.pattern.substitute replaceComment source) = [] := by
  by_contra hne
  obtain ⟨m, hm⟩ := List.exists_mem_of_ne_nil _ hne
  obtain ⟨pre, rest, ht, hstart, hread⟩ := lineStart_of_mem_matchesIn rfl hm
  obtain ⟨indent, tail, htext, hindent⟩ := Idiom.def_of_reads_functionDef hread
  -- the line that the header starts
  have hline := Text.before_mem_lines (x := m.text ++ rest) hstart
  rw [← ht, lines_recommented] at hline
  have hword : Text.before '\n' (m.text ++ rest) =
      indent ++ 'd' :: 'e' :: 'f' :: Text.before '\n' (tail ++ rest) := by
    have hbreak : ∀ c ∈ indent ++ ['d', 'e', 'f'], (c != '\n') = true := by
      have hmargin : '\n' ∉ indent := Text.not_mem_of_forall hindent (by decide)
      intro c hc
      have hne : c ≠ '\n' := by
        rintro rfl
        simp [hmargin] at hc
      simpa using hne
    have hsplit : m.text ++ rest =
        (indent ++ ['d', 'e', 'f']) ++ (tail ++ rest) := by
      rw [htext]
      simp
    rw [hsplit, Text.before, List.takeWhile_append_of_pos hbreak]
    simp [Text.before]
  rw [hword] at hline
  obtain ⟨l, hl, hsame⟩ := List.mem_map.mp hline
  rcases recommented_line (Text.newline_not_mem_of_mem_lines hl) with
    ⟨-, w, text, hw, -, hslash⟩ | ⟨hplain, hself⟩
  · -- a comment starts with slashes
    rw [hslash] at hsame
    have hdrop := congrArg (List.dropWhile isIndent) hsame
    rw [Text.dropWhile_indent hw (by decide),
      Text.dropWhile_indent hindent (by decide)] at hdrop
    exact absurd (List.cons.inj hdrop).1 (by decide)
  · rw [hself] at hsame
    have hdef : l.mentions "def" = true :=
      (Text.mentions_iff _ _).mpr ⟨indent, Text.before '\n' (tail ++ rest),
        by simp [hsame]⟩
    have hcomment := h l hl hdef
    rw [hplain] at hcomment
    exact Bool.noConfusion hcomment

end Target

/-! ## Names behind `def` -/

theorem Analysis.functions_eq_nil_iff {source : Text} :
    functions source = [] ↔ ∀ b name : Text, Idiom.NameAfter b name →
      ¬ ('d' :: 'e' :: 'f' :: (b ++ (name ++ ['('])) <:+: source) := by
  constructor
  · intro hnil b name hafter hinfix
    have hmem := mem_functions_of_infix hafter hinfix
    rw [hnil] at hmem
    simp at hmem
  · intro hnone
    by_contra hne
    obtain ⟨found, hfound⟩ := List.exists_mem_of_ne_nil _ hne
    rw [functions, List.mem_eraseDups] at hfound
    obtain ⟨m, hm, -⟩ := List.mem_map.mp hfound
    obtain ⟨pre, rest, rfl, hread⟩ := reads_of_mem_matchesIn hm
    obtain ⟨b, name, htext, -, hafter⟩ := Idiom.reads_functionName_iff.mp hread
    exact hnone b name hafter ⟨pre, rest, by simp [htext]⟩

namespace Target

/-- **Commented definitions.** Where every `def` stands in a comment, no
signature is written. The file is laid out as a program exactly if no `def` is
followed by a name and a bracket, in whatever comment; in PHP it always is,
since there the two forms are the same. -/
theorem program_iff_of_commented {source : Text} (h : source.DefsCommented)
    (t : Target) :
    Idiom.functionDef.pattern.matchesIn
      (Rule.reaching (analyze source) "function_signature" t.rules source) = [] ∧
    ((t.recast (analyze source) source).output =
      t.programFile (t.body (analyze source) source) ↔
      t = php ∨ ∀ b name : Text, Idiom.NameAfter b name →
        ¬ ('d' :: 'e' :: 'f' :: (b ++ (name ++ ['('])) <:+: source)) := by
  refine ⟨?_, ?_⟩
  · rw [reaching_function_signature]
    exact matchesIn_functionDef_commented h
  · rw [recast_output, frame, ← Analysis.functions_eq_nil_iff]
    show (if (Analysis.functions source).isEmpty then _ else _) = _ ↔ _
    by_cases hnil : Analysis.functions source = []
    · simp [hnil]
    · rw [if_neg (by simpa using hnil), eq_comm, programFile_eq_moduleFile_iff]
      simp [hnil]

/-- A comment that only speaks of definitions. -/
theorem program_iff_of_commented_words :
    Text.DefsCommented "  # no def here\nprint(1)" ∧
    (go.recast (analyze "  # no def here\nprint(1)")
      "  # no def here\nprint(1)").output =
      go.programFile (go.body (analyze "  # no def here\nprint(1)")
        "  # no def here\nprint(1)") := by
  have hcommented : Text.DefsCommented "  # no def here\nprint(1)" := by
    unfold Text.DefsCommented
    decide
  refine ⟨hcommented, (program_iff_of_commented hcommented go).2.mpr
    (Or.inr ?_)⟩
  rw [← Analysis.functions_eq_nil_iff]
  decide +kernel

/-- A definition in a comment takes the main function away from a program of one
line. -/
theorem commented_definition_module :
    Text.DefsCommented "# def f(x):\nprint(1)" ∧
    (go.recast (analyze "# def f(x):\nprint(1)")
      "# def f(x):\nprint(1)").output =
      "package main\n\nimport \"fmt\"\n\n// def f(x):\nfmt.Println(1)".toList ∧
    (go.recast (analyze "# def f(x):\nprint(1)")
      "# def f(x):\nprint(1)").output ≠
      go.programFile (go.body (analyze "# def f(x):\nprint(1)")
        "# def f(x):\nprint(1)") := by
  have hcommented : Text.DefsCommented "# def f(x):\nprint(1)" := by
    unfold Text.DefsCommented
    decide
  refine ⟨hcommented, by decide +kernel, by decide +kernel⟩

end Target

end Recast
