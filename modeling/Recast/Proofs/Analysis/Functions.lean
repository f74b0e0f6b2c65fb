import Recast.Proofs.Idiom.Shape
import Recast.Proofs.Pattern.Division
import Recast.Proofs.Rendering.Frame
import Recast.Proofs.Rule.Stages
import Recast.Proofs.Text.Layout

/-!
# Functions in the analysis and in the rules

The analysis looks for function names anywhere in the source. The rule for
signatures looks for headers at the starts of lines, and in the text that the
rule for comments has left. The two agree for two reasons. A comment takes in
slashes behind its indentation and keeps the rest, so that a stretch without
slashes stood in the source before (`infix_of_recommented`). And no function
name starts inside another (`functionName_not_inside`), so that the scan of the
analysis comes upon each of them (`exists_hit_functionName`).
-/

namespace Recast

open Pattern Target

namespace Analysis

variable {before : Option Char} {t : Text} {ss : List Segment}

/-! ## What rewritten comments leave in place -/

theorem replaceComment_of_groups {m : Match} {indent text : Text}
    (h : m.groups = [some indent, some text]) :
    replaceComment m = indent ++ ("// " ++ text) := by
  simp [replaceComment, Match.group, h]

/-- A stretch at the start that has no slash and does not end in indentation was
there before. -/
theorem prefix_of_recommented (h : Idiom.comment.pattern.Divides before t ss)
    {v tail : Text} (hslash : '/' ∉ v)
    (hlast : ∀ c, v.getLast? = some c → isIndent c = false)
    (hv : ss.flatMap (·.replaced replaceComment) = v ++ tail) : v <+: t := by
  induction h generalizing v with
  | nil =>
      obtain ⟨rfl, -⟩ := List.append_eq_nil_iff.mp hv.symm
      exact List.nil_prefix
  | @gap before c cs ss _ _ ih =>
      cases v with
      | nil => exact List.nil_prefix
      | cons d v =>
          obtain ⟨rfl, hvs⟩ := List.cons.inj hv
          rw [List.prefix_cons_inj]
          refine ih (fun hmem => hslash (List.mem_cons_of_mem _ hmem)) ?_ hvs
          intro e he
          exact hlast e (by rw [List.getLast?_cons, he]; rfl)
  | @hit before m rest ss _ read _ _ =>
      obtain ⟨indent, gap, text, -, hgroups, hindent, -, -⟩ :=
        Idiom.shape_comment read
      -- the stretch ends before the first slash, and there is only indentation
      -- before it
      rw [List.flatMap_cons, Segment.replaced_hit,
        replaceComment_of_groups hgroups, List.append_assoc] at hv
      rcases Text.place_in_append (c := '/') hv with ⟨y, rfl, -⟩ | ⟨y, rfl, -⟩
      · simp at hslash
      · rcases List.eq_nil_or_concat v with rfl | ⟨w, c, rfl⟩
        · exact List.nil_prefix
        · have hc := hindent c (by simp)
          rw [hlast c (by simp)] at hc
          exact Bool.noConfusion hc

/-- A stretch that has no slash and neither starts nor ends in indentation was
there before. -/
theorem infix_of_recommented (h : Idiom.comment.pattern.Divides before t ss)
    {d : Char} {pre v tail : Text} (hd : isIndent d = false)
    (hslash : '/' ∉ d :: v)
    (hlast : ∀ c, (d :: v).getLast? = some c → isIndent c = false)
    (hv : ss.flatMap (·.replaced replaceComment) = pre ++ d :: (v ++ tail)) :
    d :: v <:+: t := by
  induction h generalizing pre with
  | nil => simp at hv
  | @gap before c cs ss hm htail ih =>
      cases pre with
      | nil =>
          exact (prefix_of_recommented (.gap hm htail) hslash hlast hv).isInfix
      | cons e pre =>
          obtain ⟨rfl, hvs⟩ := List.cons.inj hv
          exact List.infix_cons (ih hvs)
  | @hit before m rest ss _ read htail ih =>
      obtain ⟨indent, gap, text, htext, hgroups, hindent, -, -⟩ :=
        Idiom.shape_comment read
      rw [List.flatMap_cons, Segment.replaced_hit,
        replaceComment_of_groups hgroups] at hv
      have hmargin : d ∉ indent ++ ("// " : Text) := by
        intro hmem
        rcases List.mem_append.mp hmem with hmem | hmem
        · rw [hindent d hmem] at hd
          exact Bool.noConfusion hd
        · have hcases : d = '/' ∨ d = ' ' := by simpa using hmem
          rcases hcases with rfl | rfl
          · simp at hslash
          · exact absurd hd (by decide)
      have hsplit : pre ++ d :: (v ++ tail) =
          (indent ++ ("// " : Text)) ++
          (text ++ ss.flatMap (·.replaced replaceComment)) := by
        rw [← hv]
        simp
      obtain ⟨y, -, hy⟩ := Text.place_in_second hsplit hmargin
      rcases Text.place_in_append hy.symm with ⟨z, rfl, hz⟩ | ⟨y', -, hy'⟩
      · -- it starts in the comment, whose text runs up to what follows
        rw [htext]
        rcases List.append_eq_append_iff.mp hz with ⟨z', rfl, -⟩ | ⟨w, rfl, hw⟩
        · exact ⟨indent ++ ("#" ++ (gap ++ y)), z' ++ rest, by simp⟩
        · have hprefix : w <+: rest := by
            refine prefix_of_recommented htail
              (fun hmem => hslash (by simp [hmem])) ?_ hw
            intro c hc
            refine hlast c ?_
            rw [← List.cons_append, List.getLast?_append, hc]
            rfl
          obtain ⟨rest, rfl⟩ := hprefix
          exact ⟨indent ++ ("#" ++ (gap ++ y)), rest, by simp⟩
      · exact (ih hy').trans (List.infix_append_right ..)

/-! ## Function names in the source -/

/-- At one place there is one function name. -/
theorem functionName_unique {b b' name name' tail tail' : Text}
    (h : Idiom.NameAfter b name) (h' : Idiom.NameAfter b' name')
    (heq : b ++ (name ++ '(' :: tail) = b' ++ (name' ++ '(' :: tail')) :
    name = name' := by
  obtain ⟨n, ns, rfl⟩ := List.exists_cons_of_ne_nil h.ne_nil
  obtain ⟨n', ns', rfl⟩ := List.exists_cons_of_ne_nil h'.ne_nil
  have hn : isBlank n = false := isBlank_of_isWord (h.word n (by simp))
  have hn' : isBlank n' = false := isBlank_of_isWord (h'.word n' (by simp))
  obtain ⟨-, hnames⟩ := Text.run_unique h.blank h'.blank hn hn' heq
  exact (Text.run_unique h.word h'.word (by decide) (by decide) hnames).1

/-- No function name starts inside another: not in its blanks, and not in its
word, since there a bracket would have to follow where the blanks are. -/
theorem functionName_not_inside {b b' name name' pre y tail rest : Text}
    (h : Idiom.NameAfter b name) (h' : Idiom.NameAfter b' name')
    (hinside : 'e' :: 'f' :: (b' ++ (name' ++ ['('])) = pre ++ 'd' :: y)
    (hy : 'e' :: 'f' :: (b ++ (name ++ '(' :: tail)) = y ++ rest) : False := by
  have hsplit : pre ++ 'd' :: y = ('e' :: 'f' :: b') ++ (name' ++ ['(']) := by
    simpa using hinside.symm
  have hnot : 'd' ∉ 'e' :: 'f' :: b' := by
    have hblanks : 'd' ∉ b' := Text.not_mem_of_forall h'.blank (by decide)
    simpa using hblanks
  obtain ⟨z, -, hz⟩ := Text.place_in_second hsplit hnot
  rcases Text.place_in_append hz.symm with ⟨n, rfl, rfl⟩ | ⟨z', -, hz'⟩
  · obtain ⟨c, bs, rfl⟩ := List.exists_cons_of_ne_nil h.apart
    have hc : isBlank c = true := h.blank c (by simp)
    have hn : ∀ d ∈ n, isWord d = true := fun d hd => h'.word d (by simp [hd])
    have hef : ∀ d ∈ ['e', 'f'], isWord d = true :=
      List.all_eq_true.mp (by decide)
    have hrest : n ++ '(' :: rest =
        ['e', 'f'] ++ c :: (bs ++ (name ++ '(' :: tail)) := by
      simpa using hy.symm
    obtain ⟨-, hbracket⟩ :=
      Text.run_unique hn hef (by decide) (isWord_of_isBlank hc) hrest
    rw [← (List.cons.inj hbracket).1] at hc
    exact absurd hc (by decide)
  · have hmem : 'd' ∈ ['('] := by simp [hz']
    exact absurd hmem (by decide)

/-- The scan comes upon every function name. -/
theorem exists_hit_functionName
    (h : Idiom.functionName.pattern.Divides before t ss)
    {pre b name tail : Text} (hafter : Idiom.NameAfter b name)
    (ht : t = pre ++ 'd' :: 'e' :: 'f' :: (b ++ (name ++ '(' :: tail))) :
    ∃ m ∈ ss.filterMap Segment.hit?, m.group 0 = name := by
  induction h generalizing pre with
  | nil => simp at ht
  | @gap before c cs ss hm _ ih =>
      cases pre with
      | nil =>
          have hread : Idiom.functionName.pattern.Reads before
              ("def" ++ (b ++ (name ++ "("))) tail
              [some name] :=
            Idiom.reads_functionName_iff.mpr ⟨b, name, rfl, rfl, hafter⟩
          have hsome :
              (Idiom.functionName.pattern.matchAt before (c :: cs)).isSome = true :=
            isSome_matchAt_iff.mpr ⟨_, tail, _, by simpa using ht,
              by simp, hread⟩
          rw [hm] at hsome
          exact Bool.noConfusion hsome
      | cons d pre => exact ih (List.cons.inj ht).2
  | @hit before m rest ss _ read _ ih =>
      obtain ⟨b', name', htext, hgroups, hafter'⟩ :=
        Idiom.reads_functionName_iff.mp read
      rcases Text.place_in_append ht.symm with ⟨y, hm, hy⟩ | ⟨y, -, hy⟩
      · rw [htext] at hm
        cases pre with
        | nil =>
            have hgroup : m.group 0 = name' := by simp [Match.group, hgroups]
            have hsame : b' ++ (name' ++ '(' :: rest) =
                b ++ (name ++ '(' :: tail) := by
              rw [htext] at ht
              simpa using ht
            exact ⟨m, by simp [Segment.hit?],
              hgroup.trans (functionName_unique hafter' hafter hsame)⟩
        | cons e pre =>
            have hinside : 'd' = e ∧
                'e' :: 'f' :: (b' ++ (name' ++ ['('])) = pre ++ 'd' :: y := by
              simpa using hm
            exact (functionName_not_inside hafter hafter' hinside.2 hy).elim
      · obtain ⟨n, hn, hgroup⟩ := ih hy
        exact ⟨n, List.mem_cons_of_mem _ hn, hgroup⟩

theorem mem_functions_of_infix {source b name : Text}
    (hafter : Idiom.NameAfter b name)
    (h : 'd' :: 'e' :: 'f' :: (b ++ (name ++ ['('])) <:+: source) :
    name ∈ functions source := by
  obtain ⟨pre, tail, rfl⟩ := h
  have hplace : pre ++ 'd' :: 'e' :: 'f' :: (b ++ (name ++ ['('])) ++ tail =
      pre ++ 'd' :: 'e' :: 'f' :: (b ++ (name ++ '(' :: tail)) := by
    simp
  rw [functions, List.mem_eraseDups, List.mem_map, matchesIn_eq_filterMap]
  exact exists_hit_functionName (divides_segments _ _) hafter hplace

end Analysis

namespace Target

theorem reaching_function_signature (t : Target) (ctx : Context)
    (source : Text) :
    Rule.reaching ctx "function_signature" t.rules source =
      Idiom.comment.pattern.substitute replaceComment source := by
  cases t <;> rfl

/-- A header after the comments are rewritten has the name of a function of the
source. -/
theorem mem_functions_of_header {source : Text} {m : Match}
    (hm : m ∈ Idiom.functionDef.pattern.matchesIn
      (Idiom.comment.pattern.substitute replaceComment source)) :
    m.group 1 ∈ (analyze source).functions := by
  obtain ⟨pre, rest, htext, hread⟩ := reads_of_mem_matchesIn hm
  obtain ⟨indent, b, name, params, hheader, hgroups, hafter⟩ :=
    Idiom.shape_functionDef hread
  have hgroup : m.group 1 = name := by simp [Match.group, hgroups]
  rw [hgroup]
  apply Analysis.mem_functions_of_infix hafter
  have hslash : '/' ∉ 'd' :: 'e' :: 'f' :: (b ++ (name ++ ['('])) := by
    have hblanks : '/' ∉ b := Text.not_mem_of_forall hafter.blank (by decide)
    have hword : '/' ∉ name := Text.not_mem_of_forall hafter.word (by decide)
    simp [hblanks, hword]
  apply Analysis.infix_of_recommented (divides_segments _ source)
    (by decide) hslash
  · intro c hc
    obtain rfl : '(' = c := by
      simpa [List.getLast?_cons, List.getLast?_append] using hc
    decide
  · show Idiom.comment.pattern.substitute replaceComment source =
      (pre ++ indent) ++
      'd' :: ('e' :: 'f' :: (b ++ (name ++ ['('])) ++ (params ++ "):" ++ rest))
    rw [htext, hheader]
    simp

/-- **Functions.** The signatures that a target writes are of functions that the
analysis has found. A snippet with a signature that is rewritten is therefore
laid out as a module. It is never laid out as the program with the same body,
apart from PHP, which has no main program and one form for both. -/
theorem signature_mem_functions (t : Target) (source : Text) :
    (∀ m ∈ Idiom.functionDef.pattern.matchesIn
        (Rule.reaching (analyze source) "function_signature" t.rules source),
      m.group 1 ∈ (analyze source).functions) ∧
    ("function_signature".toList ∈
      (t.recast (analyze source) source).changedRules →
      (analyze source).functions ≠ [] ∧
        (t.recast (analyze source) source).output =
          t.moduleFile (t.body (analyze source) source) ∧
        ((t.recast (analyze source) source).output =
          t.programFile (t.body (analyze source) source) ↔ t = php)) := by
  have hheaders : ∀ m ∈ Idiom.functionDef.pattern.matchesIn
      (Rule.reaching (analyze source) "function_signature" t.rules source),
      m.group 1 ∈ (analyze source).functions := by
    intro m hm
    rw [reaching_function_signature] at hm
    exact mem_functions_of_header hm
  refine ⟨hheaders, ?_⟩
  intro hchanged
  have hrule : Rule.replacing "function_signature" Idiom.functionDef.pattern
      t.replaceFunction ∈
      t.rules := List.mem_cons_of_mem _ List.mem_cons_self
  have hmatch := (Rule.mem_changedRules_iff t.nodup_rules hrule).mp hchanged
  obtain ⟨m, hm⟩ := List.exists_mem_of_ne_nil _ fun hnil =>
    hmatch (substitute_eq_self hnil _)
  have hne : (analyze source).functions ≠ [] :=
    List.ne_nil_of_mem (hheaders m hm)
  have houtput : (t.recast (analyze source) source).output =
      t.moduleFile (t.body (analyze source) source) := by
    rw [recast_output, frame, if_neg (by simpa using hne)]
  refine ⟨hne, houtput, ?_⟩
  rw [houtput, eq_comm, programFile_eq_moduleFile_iff]

/-- A header below a comment that looks like one. -/
theorem signature_mem_functions_commented :
    let source : Text := "#def g(:\n def f():"
    let trace := go.recast (analyze source) source
    let body := go.body (analyze source) source
    "function_signature".toList ∈ trace.changedRules ∧
      trace.output = go.moduleFile body ∧ trace.output ≠ go.programFile body ∧
      ∃ m ∈ Idiom.functionDef.pattern.matchesIn
          (Rule.reaching (analyze source) "function_signature" go.rules source),
        m.group 1 = "f".toList ∧ m.group 1 ∈ (analyze source).functions := by
  intro source trace body
  have h := signature_mem_functions go source
  have hchanged : "function_signature".toList ∈ trace.changedRules := by
    decide +kernel
  have hmatch : ∃ m ∈ Idiom.functionDef.pattern.matchesIn
      (Rule.reaching (analyze source) "function_signature" go.rules source),
      m.group 1 = "f".toList := by
    decide +kernel
  obtain ⟨-, houtput, hprogram⟩ := h.2 hchanged
  obtain ⟨m, hm, hgroup⟩ := hmatch
  have hmain : trace.output ≠ go.programFile body := fun hsame =>
    absurd (hprogram.mp hsame) (by decide)
  exact ⟨hchanged, houtput, hmain, m, hm, hgroup, h.1 m hm⟩

end Target

end Recast
