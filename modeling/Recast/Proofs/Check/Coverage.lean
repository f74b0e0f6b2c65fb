import Recast.Check.Grammar
import Recast.Proofs.Rendering.Signs
import Recast.Proofs.Rule.Stages

/-!
# What the checks say of an output

The frame writes an import for each sign of use that it finds in the body, and
the checks look for signs and imports in the whole file. The two use different
tests, the frame on the body before it is laid out and the checks on the file,
and still agree: a check for an import that the frame writes never fires on an
output, and what the other checks say of an output they say of its body.
-/

namespace Recast

open Pattern

/-! ## Checks by name -/

namespace Check

theorem missing_eq_false {used : Pattern} {required t : Text}
    (h : used.foundIn t = true → t.mentions required = true) :
    missing used required t = false := by
  rw [missing]
  cases hused : used.foundIn t with
  | false => rfl
  | true => rw [h hused, Bool.not_true, Bool.and_false]

theorem find?_name {cs : List Check} (hnames : (cs.map (·.name)).Nodup)
    {c : Check} (hc : c ∈ cs) : cs.find? (·.name == c.name) = some c := by
  induction cs with
  | nil => simp at hc
  | cons d cs ih =>
      rw [List.map_cons, List.nodup_cons] at hnames
      rcases List.mem_cons.mp hc with rfl | hc
      · simp
      · have hne : d.name ≠ c.name := by
          intro e
          exact hnames.1 (e ▸ List.mem_map_of_mem hc)
        rw [List.find?_cons_of_neg (by simpa using hne)]
        exact ih hnames.2 hc

end Check

namespace Target

/-- Whether the check of the given name fires, if the target has one. -/
def fires? (t : Target) (name text : Text) : Option Bool :=
  (t.checks.find? (·.name == name)).map (·.fires text)

/-- There is a warning for each check that is not known to be silent, at
most. -/
theorem length_warnings_le (t : Target) (text : Text) {silent : List Text}
    (h : ∀ n ∈ silent, t.fires? n text = some false) :
    (t.warnings text).length ≤
      (t.checks.filter fun c => !silent.contains c.name).length := by
  have hnames : (t.checks.map (·.name)).Nodup := by
    cases t <;> decide
  rw [warnings, List.length_map, ← List.countP_eq_length_filter,
    ← List.countP_eq_length_filter]
  -- a check that fires is none of the silent ones, as no two checks share a
  -- name
  refine List.countP_mono_left ?_
  intro c hc hfires
  by_contra hsilent
  have hmem : c.name ∈ silent := by simpa using hsilent
  have hfalse := h c.name hmem
  rw [fires?, Check.find?_name hnames hc, Option.map_some, hfires] at hfalse
  simp at hfalse

/-! ## Signs that come from the body alone -/

/-- A name in one of the libraries. -/
def phpLibrary : Pattern := "\\" ++ ("MathPHP" <|> ("Phpml" : Pattern)) ++ "\\"

theorem mentions_of_phpLibrary {t : Text} (h : phpLibrary.foundIn t = true) :
    (t.mentions "\\MathPHP\\" || t.mentions "\\Phpml\\") = true := by
  obtain ⟨pre, u, rest, gs, ht, -, hread⟩ := foundIn_iff.mp h
  obtain ⟨v, z, _, _, rfl, -, hname, hclose⟩ := reads_seq_iff.mp hread
  obtain ⟨a, w, _, _, rfl, -, hopen, hname⟩ := reads_seq_iff.mp hname
  obtain ⟨rfl, -⟩ := reads_literal_iff.mp hopen
  obtain ⟨rfl, -⟩ := reads_literal_iff.mp hclose
  rw [Bool.or_eq_true, Text.mentions_iff, Text.mentions_iff]
  cases hname with
  | left hmath =>
      obtain ⟨rfl, -⟩ := reads_literal_iff.mp hmath
      exact Or.inl ⟨pre, rest, by rw [ht, List.append_assoc]; rfl⟩
  | right hphpml =>
      obtain ⟨rfl, -⟩ := reads_literal_iff.mp hphpml
      exact Or.inr ⟨pre, rest, by rw [ht, List.append_assoc]; rfl⟩

/-- A push whose target does not follow at once. -/
def phpBarePush : Pattern := "array_push(" ++ anchor (.notNext (· == '$'))

/-- Blanks before the target make no difference, since the pattern need not take
them. -/
theorem foundIn_phpPush (t : Text) :
    Check.phpPush.foundIn t = phpBarePush.foundIn t := by
  rw [Bool.eq_iff_iff, foundIn_iff, foundIn_iff]
  constructor
  · rintro ⟨pre, u, rest, gs, ht, -, hread⟩
    obtain ⟨v, e, gs₁, _, rfl, -, hpush, hnext⟩ := reads_seq_iff.mp hread
    obtain ⟨l, w, gs₂, _, rfl, -, hlit, hblanks⟩ := reads_seq_iff.mp hpush
    obtain ⟨rfl, -, hnext⟩ := reads_anchor_iff.mp hnext
    obtain ⟨hw, -⟩ := reads_many_iff.mp hblanks
    -- where blanks were taken, one of them follows the parenthesis
    have hbare : Anchor.holds (.notNext (· == '$'))
        (Text.lastOr (Text.lastOr none pre) l)
        (w ++ rest) = true := by
      cases w with
      | nil => exact hnext
      | cons c w =>
          have hc : c ≠ '$' := by
            rintro rfl
            exact absurd (hw '$' (by simp)) (by decide)
          simpa [Anchor.holds] using hc
    have hne : l ≠ [] := by
      obtain ⟨rfl, -⟩ := reads_literal_iff.mp hlit
      decide
    refine ⟨pre, l, w ++ rest, gs₂ ++ [], by simpa using ht, hne,
      reads_seq_iff.mpr ?_⟩
    exact ⟨l, [], gs₂, [], by simp, rfl, by simpa using hlit,
      reads_anchor_iff.mpr ⟨rfl, rfl, hbare⟩⟩
  · rintro ⟨pre, u, rest, gs, ht, hne, hread⟩
    obtain ⟨l, e, gs₁, gs₂, rfl, rfl, hlit, hnext⟩ := reads_seq_iff.mp hread
    obtain ⟨rfl, rfl, hholds⟩ := reads_anchor_iff.mp hnext
    refine ⟨pre, l ++ [], rest, gs₁ ++ [], ht, hne, reads_seq_iff.mpr ?_⟩
    refine ⟨l, [], gs₁, [], rfl, rfl, reads_seq_iff.mpr ?_,
      reads_anchor_iff.mpr ⟨rfl, rfl, hholds⟩⟩
    exact ⟨l, [], gs₁, [], by simp, by simp, hlit,
      reads_many_iff.mpr ⟨by simp, rfl⟩⟩

/-- The signs that no frame of a target shows. -/
def bodySigns : Target → List Pattern
  | go => [Usage.qualifier "math"]
  | php => [phpLibrary, phpBarePush]
  | javascript => [Usage.qualifier "matrix", Usage.qualifier "np"]
  | csharp => ["List<", Usage.sequenceMethod, "MLContext"]

/-! What the top of each target shows, for every choice of the signs that it is
written for. -/

theorem goTop_shows (program math mat stat : Bool) :
    (∀ p ∈ go.bodySigns, p.foundIn (goTop program math mat stat) = false) ∧
      (goTop program math mat stat).mentions "\"fmt\"" = true ∧
      (math → (goTop program math mat stat).mentions "\"math\"" = true) := by
  revert program math mat stat
  decide +kernel

theorem phpTop_shows (libraries : Bool) :
    (∀ p ∈ php.bodySigns, p.foundIn (phpTop libraries) = false) ∧
      (phpTop libraries).mentions "<?php" = true ∧
      (libraries →
        (phpTop libraries).mentions "vendor/autoload.php" = true) := by
  revert libraries
  decide

theorem jsTop_shows (program matrix scaler : Bool) :
    (∀ p ∈ javascript.bodySigns, p.foundIn (jsTop program matrix scaler) = false) ∧
      (jsTop program matrix scaler).mentions "ml-matrix" = matrix ∧
      (jsTop program matrix scaler).mentions "MinMaxScaler" = scaler ∧
      (scaler →
        Check.jsScalerImport.foundIn (jsTop program matrix scaler) = true) := by
  revert program matrix scaler
  decide

theorem csTop_shows (program lists linq matrix learning : Bool) :
    ∀ p ∈ csharp.bodySigns,
      p.foundIn (csTop program lists linq matrix learning) = false := by
  revert program lists linq matrix learning
  decide +kernel

theorem foundIn_fileTop_bodySigns (t : Target) (program : Bool) (body : Text) :
    ∀ p ∈ t.bodySigns, p.foundIn (t.fileTop program body) = false := by
  cases t with
  | go => exact (goTop_shows _ _ _ _).1
  | php => exact (phpTop_shows _).1
  | javascript => exact (jsTop_shows _ _ _).1
  | csharp => exact csTop_shows _ _ _ _ _

theorem foundIn_fileBottom_bodySigns (t : Target) (program : Bool) :
    ∀ p ∈ t.bodySigns, p.foundIn (t.fileBottom program) = false := by
  revert program
  cases t <;> decide

theorem within_bodySigns (t : Target) :
    ∀ p ∈ t.bodySigns, p.Within isBlank := by
  cases t with
  | go =>
      exact List.forall_mem_singleton.mpr (Usage.within_qualifier (by decide))
  | php =>
      refine List.forall_mem_cons.mpr ⟨?_, List.forall_mem_singleton.mpr ?_⟩
      · exact ⟨⟨within_literal (by decide), within_literal (by decide),
          within_literal (by decide)⟩,
          within_literal (by decide)⟩
      · refine ⟨within_literal (by decide), Anchor.blind_notNext ?_⟩
        intro c hc
        rw [beq_eq_false_iff_ne]
        rintro rfl
        exact absurd hc (by decide)
  | javascript =>
      refine List.forall_mem_cons.mpr ⟨?_, List.forall_mem_singleton.mpr ?_⟩
      · exact Usage.within_qualifier (by decide)
      · exact Usage.within_qualifier (by decide)
  | csharp =>
      refine List.forall_mem_cons.mpr ⟨?_, List.forall_mem_cons.mpr
        ⟨?_, List.forall_mem_singleton.mpr ?_⟩⟩
      · exact within_literal (by decide)
      · exact Usage.within_sequenceMethod
      · exact within_literal (by decide)

theorem foundIn_frame_bodySigns {t : Target} {p : Pattern}
    (hp : p ∈ t.bodySigns) (ctx : Context) (body : Text) :
    p.foundIn (t.frame ctx body) = p.foundIn body := by
  rw [foundIn_frame (t.within_bodySigns p hp),
    t.foundIn_fileTop_bodySigns _ _ p hp, t.foundIn_fileBottom_bodySigns _ p hp,
    Bool.false_or, Bool.or_false]

/-! ## Files in C# -/

/-- What needs a namespace, and the line that names it. -/
def usingLines : List (Pattern × Text) :=
  [("Console.WriteLine", "using System;"),
   ("List<", "using System.Collections.Generic;"),
   (Usage.sequenceMethod, "using System.Linq;"),
   ("MLContext", "using Microsoft.ML;")]

/-- The file starts with the lines of the namespaces. -/
theorem mem_lines_csharp_frame {ctx : Context} {body l : Text}
    (h : l ∈ (usings body).lines) :
    l ∈ (csharp.frame ctx body).lines := by
  have hprogram : ∃ u v w, csharp.programFile body =
      usings body ++ ('\n' :: u) ++ v ++ w :=
    ⟨_, _, _, rfl⟩
  have hmodule : ∃ u v w, csharp.moduleFile body =
      usings body ++ ('\n' :: u) ++ v ++ w :=
    ⟨_, _, _, rfl⟩
  have hframe : ∃ u v w, csharp.frame ctx body =
      usings body ++ ('\n' :: u) ++ v ++ w := by
    rw [frame]
    split
    · exact hprogram
    · exact hmodule
  obtain ⟨u, v, w, hframe⟩ := hframe
  rw [hframe, List.append_assoc, List.append_assoc, List.cons_append,
    Text.lines_append_newline]
  exact List.mem_append_left _ h

theorem mem_lines_csUsings (lists linq matrix learning : Bool) :
    ("using System;" : Text) ∈ (csUsings lists linq matrix learning).lines ∧
      (lists → ("using System.Collections.Generic;" : Text) ∈
        (csUsings lists linq matrix learning).lines) ∧
      (linq → ("using System.Linq;" : Text) ∈
        (csUsings lists linq matrix learning).lines) ∧
      (learning → ("using Microsoft.ML;" : Text) ∈
        (csUsings lists linq matrix learning).lines) := by
  revert lists linq matrix learning
  decide

/-- Every sign in a file has its line in it. -/
theorem mem_lines_of_foundIn (ctx : Context) (body : Text) :
    ∀ u ∈ usingLines, u.1.foundIn (csharp.frame ctx body) = true →
      u.2 ∈ (csharp.frame ctx body).lines := by
  obtain ⟨hsystem, hlists, hlinq, hlearning⟩ :=
    mem_lines_csUsings (body.mentions "List<")
    (Usage.sequenceMethod.foundIn body) (body.mentions "Matrix<double>")
      (body.mentions "MLContext")
  -- the frame has tested the body for the same sign, though not always by the
  -- same test
  intro u hu hfound
  apply mem_lines_csharp_frame
  rcases List.mem_cons.mp hu with rfl | hu
  · exact hsystem
  rcases List.mem_cons.mp hu with rfl | hu
  · apply hlists
    rw [← foundIn_literal (by decide)]
    rwa [foundIn_frame_bodySigns (.head _)] at hfound
  rcases List.mem_cons.mp hu with rfl | hu
  · apply hlinq
    rwa [foundIn_frame_bodySigns (.tail _ (.head _))] at hfound
  rcases List.mem_cons.mp hu with rfl | hu
  · apply hlearning
    rw [← foundIn_literal (by decide)]
    rwa [foundIn_frame_bodySigns (.tail _ (.tail _ (.head _)))] at hfound
  · simp at hu

theorem mentions_of_mem_lines {l t : Text} (h : l ∈ t.lines) :
    t.mentions l = true :=
  (Text.mentions_iff t l).mpr (Text.infix_of_mem_lines h)

theorem csharp_warnings_frame (ctx : Context) (body : Text) :
    csharp.warnings (csharp.frame ctx body) = [] := by
  have hline := mem_lines_of_foundIn ctx body
  have hfires : ∀ c ∈ csharp.checks,
      c.fires (csharp.frame ctx body) = false := by
    intro c hc
    rcases List.mem_cons.mp hc with rfl | hc
    · refine Check.missing_eq_false fun h => mentions_of_mem_lines ?_
      exact hline _ (.head _) (Usage.foundIn_of_wholeWord h)
    rcases List.mem_cons.mp hc with rfl | hc
    · refine Check.missing_eq_false fun h => mentions_of_mem_lines ?_
      exact hline _ (.tail _ (.head _)) (foundIn_of_anchor_left h)
    rcases List.mem_cons.mp hc with rfl | hc
    · refine Check.missing_eq_false fun h => mentions_of_mem_lines ?_
      exact hline _ (.tail _ (.tail _ (.head _))) h
    rcases List.mem_cons.mp hc with rfl | hc
    · refine Check.missing_eq_false fun h => mentions_of_mem_lines ?_
      exact hline _ (.tail _ (.tail _ (.tail _ (.head _))))
        (Usage.foundIn_of_wholeWord h)
    · simp at hc
  rw [warnings, List.filter_eq_nil_iff.mpr fun c hc => by simp [hfires c hc]]
  rfl

/-- **No warning on C#.** The checks are silent on every output in C#, so that
it is trusted as far as any text can be, and every sign in it, written by a rule
or copied from the source, has its line. -/
theorem csharp_validate_recast_output (ctx : Context) (source : Text) :
    csharp.validate none (csharp.recast ctx source).output = ⟨[], []⟩ ∧
      confidence
        (csharp.validate none (csharp.recast ctx source).output).warnings = 95 ∧
      ∀ u ∈ usingLines, u.1.foundIn (csharp.recast ctx source).output = true →
        u.2 ∈ (csharp.recast ctx source).output.lines := by
  have hsilent :
      csharp.validate none (csharp.recast ctx source).output = ⟨[], []⟩ := by
    rw [recast_output, validate, csharp_warnings_frame]
  refine ⟨hsilent, ?_, ?_⟩
  · rw [hsilent]
    rfl
  · rw [recast_output]
    exact mem_lines_of_foundIn ctx _

/-- Three signs that the source has already and one that a rule writes. -/
theorem csharp_validate_copied_signs :
    (∀ u ∈ usingLines, u.1.foundIn (csharp.recast .empty
        "xs = List<MLContext>().Take(3)\nprint(xs)").output = true) ∧
      ∀ u ∈ usingLines, u.2 ∈ (csharp.recast .empty
        "xs = List<MLContext>().Take(3)\nprint(xs)").output.lines := by
  have hfound : ∀ u ∈ usingLines, u.1.foundIn (csharp.recast .empty
      "xs = List<MLContext>().Take(3)\nprint(xs)").output = true := by
    decide +kernel
  exact ⟨hfound, fun u hu => (csharp_validate_recast_output .empty _).2.2 u hu
    (hfound u hu)⟩

/-! ## Imports in Go -/

theorem go_silent_frame (ctx : Context) (body : Text) :
    ∀ n ∈ [("fmt_import" : Text), "math_import"],
      go.fires? n (go.frame ctx body) = some false := by
  refine List.forall_mem_cons.mpr ⟨?_, List.forall_mem_singleton.mpr ?_⟩
  · refine congrArg some (Check.missing_eq_false fun _ => ?_)
    exact mentions_frame_of_fileTop (goTop_shows _ _ _ _).2.1
  · refine congrArg some (Check.missing_eq_false fun h => ?_)
    rw [foundIn_frame_bodySigns (.head _)] at h
    exact mentions_frame_of_fileTop ((goTop_shows _ _ _ _).2.2 h)

/-! ## Tags, loaders and pushes in PHP -/

theorem php_silent_frame (ctx : Context) (body : Text) :
    ∀ n ∈ [("open_tag" : Text), "autoload"],
      php.fires? n (php.frame ctx body) = some false := by
  refine List.forall_mem_cons.mpr ⟨?_, List.forall_mem_singleton.mpr ?_⟩
  · refine congrArg some (Check.missing_eq_false fun _ => ?_)
    exact mentions_frame_of_fileTop (phpTop_shows _).2.1
  · refine congrArg some
      (Check.missing_eq_false fun (h : phpLibrary.foundIn _ = true) => ?_)
    rw [foundIn_frame_bodySigns (.head _)] at h
    exact mentions_frame_of_fileTop
      ((phpTop_shows _).2.2 (mentions_of_phpLibrary h))

theorem php_push_frame (ctx : Context) (body : Text) :
    php.fires? "push_target" (php.frame ctx body) =
      php.fires? "push_target" body := by
  show some (Check.phpPush.foundIn _) = some (Check.phpPush.foundIn _)
  rw [foundIn_phpPush, foundIn_phpPush,
    foundIn_frame_bodySigns (.tail _ (.head _))]

/-! ## Libraries in JavaScript -/

theorem javascript_scaler_frame (ctx : Context) (body : Text) :
    javascript.fires? "scaler_require" (javascript.frame ctx body) = some false := by
  obtain ⟨-, -, htop, himport⟩ :=
    jsTop_shows ctx.functions.isEmpty (body.mentions "matrix.Matrix")
    (body.mentions "MinMaxScaler")
  have hbottom : ∀ program,
      (javascript.fileBottom program).mentions "MinMaxScaler" = false := by
    decide
  have hfile : (javascript.frame ctx body).mentions "MinMaxScaler" =
      body.mentions "MinMaxScaler" := by
    rw [mentions_frame (by decide) (by decide), fileTop, htop, hbottom,
      Bool.or_self, Bool.or_false]
  show some (_ && _) = some false
  rw [hfile]
  cases hbody : body.mentions "MinMaxScaler" with
  | false => rfl
  | true =>
      have hfound :
          Check.jsScalerImport.foundIn (javascript.frame ctx body) = true :=
        foundIn_frame_of_fileTop (by decide) (himport hbody)
      rw [hfound]
      rfl

theorem javascript_matrix_frame (ctx : Context) (body : Text) :
    javascript.fires? "matrix_require" (javascript.frame ctx body) =
      some ((Usage.qualifier "matrix").foundIn body &&
        !body.mentions "matrix.Matrix" &&
        !body.mentions "ml-matrix") := by
  obtain ⟨-, htop, -, -⟩ :=
    jsTop_shows ctx.functions.isEmpty (body.mentions "matrix.Matrix")
    (body.mentions "MinMaxScaler")
  have hbottom : ∀ program,
      (javascript.fileBottom program).mentions "ml-matrix" = false := by
    decide
  show some (Check.missing _ _ _) = _
  rw [Check.missing, foundIn_frame_bodySigns (.head _),
    mentions_frame (by decide) (by decide), fileTop, htop, hbottom,
    Bool.or_false, Bool.not_or, Bool.and_assoc]

theorem javascript_numpy_frame (ctx : Context) (body : Text) :
    javascript.fires? "numpy_leftover" (javascript.frame ctx body) =
      some ((Usage.qualifier "np").foundIn body) := by
  show some (Pattern.foundIn _ _) = _
  rw [foundIn_frame_bodySigns (.tail _ (.head _))]

/-! ## What is left to fire -/

theorem length_warnings_go_frame (ctx : Context) (body : Text) :
    (go.warnings (go.frame ctx body)).length ≤ 4 :=
  (go.length_warnings_le _ (go_silent_frame ctx body)).trans (by decide)

theorem length_warnings_php_frame (ctx : Context) (body : Text) :
    (php.warnings (php.frame ctx body)).length ≤ 1 :=
  (php.length_warnings_le _ (php_silent_frame ctx body)).trans (by decide)

theorem length_warnings_javascript_frame (ctx : Context) (body : Text) :
    (javascript.warnings (javascript.frame ctx body)).length ≤ 2 := by
  have hsilent : ∀ n ∈ [("scaler_require" : Text)],
      javascript.fires? n (javascript.frame ctx body) = some false := by
    intro n hn
    rw [List.mem_singleton.mp hn]
    exact javascript_scaler_frame ctx body
  exact (javascript.length_warnings_le _ hsilent).trans (by decide)

/-- **Checks on an output.** In Go no import is missing. In PHP the tag and the
loader are there, and a push is reported exactly if it is in the body. In
JavaScript the scaler is loaded, and the other two checks are decided by the
body. What may still fire bounds the confidence from below. -/
theorem checks_on_recast_output (ctx : Context) (source : Text) :
    (go.fires? "fmt_import" (go.recast ctx source).output = some false ∧
      go.fires? "math_import" (go.recast ctx source).output = some false ∧
      55 ≤ confidence
        (go.validate none (go.recast ctx source).output).warnings) ∧
    (php.fires? "open_tag" (php.recast ctx source).output = some false ∧
      php.fires? "autoload" (php.recast ctx source).output = some false ∧
      php.fires? "push_target" (php.recast ctx source).output =
        php.fires? "push_target" (php.body ctx source) ∧
      (php.fires? "push_target" (php.body ctx source)).isSome ∧
      (php.validate none (php.recast ctx source).output).warnings.length ≤ 1 ∧
      85 ≤ confidence
        (php.validate none (php.recast ctx source).output).warnings) ∧
    (javascript.fires? "scaler_require" (javascript.recast ctx source).output =
      some false ∧
      javascript.fires? "matrix_require" (javascript.recast ctx source).output =
        some ((Usage.qualifier "matrix").foundIn (javascript.body ctx source) &&
          !(javascript.body ctx source).mentions "matrix.Matrix" &&
          !(javascript.body ctx source).mentions "ml-matrix") ∧
      javascript.fires? "numpy_leftover" (javascript.recast ctx source).output =
        some ((Usage.qualifier "np").foundIn (javascript.body ctx source)) ∧
      75 ≤ confidence (javascript.validate none
        (javascript.recast ctx source).output).warnings) := by
  simp only [recast_output, validate, confidence]
  have hgo := length_warnings_go_frame ctx (go.body ctx source)
  have hphp := length_warnings_php_frame ctx (php.body ctx source)
  have hjs := length_warnings_javascript_frame ctx (javascript.body ctx source)
  refine ⟨⟨?_, ?_, by omega⟩, ⟨?_, ?_, ?_, rfl, hphp, by omega⟩, ?_, ?_,
    ?_, by omega⟩
  · exact go_silent_frame ctx _ _ (by simp)
  · exact go_silent_frame ctx _ _ (by simp)
  · exact php_silent_frame ctx _ _ (by simp)
  · exact php_silent_frame ctx _ _ (by simp)
  · exact php_push_frame ctx _
  · exact javascript_scaler_frame ctx _
  · exact javascript_matrix_frame ctx _
  · exact javascript_numpy_frame ctx _

end Target

end Recast
