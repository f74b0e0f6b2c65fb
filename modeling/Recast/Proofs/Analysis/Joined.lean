import Recast.Analysis
import Recast.Proofs.Idiom.Shape
import Recast.Proofs.Pattern.Joint
import Recast.Proofs.Table.Update

/-!
# The analysis of joined snippets

Assignments and function names may have line feeds in their blanks, so they are
the idioms that could bridge the joint of two snippets. An assignment does so
only where the first snippet ends in `=` or the second starts with it, a
function name only where the first ends in `def`. Otherwise the context of the
whole is put together from the contexts of the parts (`analyze_join`).
-/

namespace Recast

open Pattern

namespace Analysis

variable {s₁ s₂ : Text}

/-! ## What does not bridge the joint -/

theorem not_bridges_assignment (hend : ¬ ("=" : Text) <:+ s₁.trimEnd)
    (hstart : ¬ ("=" : Text) <+: s₂.dropWhile isBlank) :
    ¬ Idiom.assignment.pattern.Bridges s₁ s₂ := by
  rintro ⟨pre, w, x, rest, before, gs, rfl, rfl, hread⟩
  obtain ⟨name, b, b', value, htext, hname, hb, hb', hvalue⟩ :=
    Idiom.shape_assignment hread
  have hnameFree : '\n' ∉ name := Text.not_mem_of_forall hname (by decide)
  obtain ⟨y, rfl, hy⟩ := Text.place_in_second htext hnameFree
  rcases Text.place_in_append hy.symm with ⟨z, rfl, rfl⟩ | ⟨z, rfl, hz⟩
  · -- in the blanks before the sign: the second snippet starts with it
    apply hstart
    have hblank : ∀ c ∈ z, isBlank c = true := fun c hc => hb c (by simp [hc])
    rw [List.append_assoc, List.dropWhile_append_of_pos hblank]
    exact ⟨_, rfl⟩
  · obtain ⟨z', rfl, hz'⟩ := Text.place_in_second hz.symm (by decide)
    rcases Text.place_in_append hz'.symm with ⟨z'', rfl, -⟩ | ⟨z'', rfl, hz''⟩
    · -- in the blanks after the sign: the first snippet ends in it
      apply hend
      have hblank : ∀ c ∈ z', isBlank c = true :=
        fun c hc => hb' c (by simp [hc])
      rw [← List.append_assoc, ← List.append_assoc]
      exact Text.suffix_trimEnd (c := '=') (by decide) (by decide) hblank _
    · exact Text.not_mem_of_forall hvalue (by decide)
        (by simp [hz''] : '\n' ∈ value)

theorem not_bridges_functionName (hend : ¬ ("def" : Text) <:+ s₁.trimEnd)
    (s₂ : Text) :
    ¬ Idiom.functionName.pattern.Bridges s₁ s₂ := by
  rintro ⟨pre, w, x, rest, before, gs, rfl, rfl, hread⟩
  obtain ⟨b, name, htext, -, hafter⟩ := Idiom.reads_functionName_iff.mp hread
  obtain ⟨y, rfl, hy⟩ := Text.place_in_second htext (by decide)
  rcases Text.place_in_append hy.symm with ⟨z, rfl, -⟩ | ⟨z, rfl, hz⟩
  · apply hend
    have hblank : ∀ c ∈ y, isBlank c = true :=
      fun c hc => hafter.blank c (by simp [hc])
    exact Text.suffix_trimEnd (c := 'f') (by decide) (by decide) hblank pre
  · -- neither the name nor the bracket after it has a line feed
    obtain ⟨z', rfl, hz'⟩ := Text.place_in_second hz.symm
      (Text.not_mem_of_forall hafter.word (by decide))
    have hmem : '\n' ∈ ("(" : Text) := by simp [hz']
    exact absurd hmem (by decide)

/-! ## The parts of the context -/

theorem assignments_join (hend : ¬ ("=" : Text) <:+ s₁.trimEnd)
    (hstart : ¬ ("=" : Text) <+: s₂.dropWhile isBlank) :
    assignments (s₁ ++ '\n' :: s₂) = assignments s₁ ++ assignments s₂ := by
  have hjoin := matchesIn_join (blind_of_breakBlind (by decide))
    (not_bridges_assignment hend hstart)
  rw [assignments, hjoin, List.map_append]
  rfl

theorem functions_join (hend : ¬ ("def" : Text) <:+ s₁.trimEnd) :
    functions (s₁ ++ '\n' :: s₂) =
      functions s₁ ++ (functions s₂).filter (· ∉ functions s₁) := by
  have hjoin := matchesIn_join (blind_of_breakBlind (by decide))
    (not_bridges_functionName hend s₂)
  rw [functions, hjoin, List.map_append, eraseDups_append_eq_filter]
  rfl

/-- What has no line feed is mentioned in one of the parts or not at all. -/
theorem mentions_join {s : Text} (hs : s ≠ [])
    (hbreak : s.any (· == '\n') = false) :
    (s₁ ++ '\n' :: s₂).mentions s = (s₁.mentions s || s₂.mentions s) :=
  mentions_append_sep hs hbreak (by decide) s₁ s₂

theorem uses_eq_mentions (s : Text) :
    (analyze s).uses Library.numpy = s.mentions Library.arrayCall ∧
      (analyze s).uses Library.sklearn = s.mentions Library.scalerClass := by
  show (libraries s).contains _ = _ ∧ (libraries s).contains _ = _
  unfold libraries
  cases s.mentions Library.arrayCall <;> cases s.mentions
    Library.scalerClass <;> decide

theorem libraries_join :
    libraries (s₁ ++ '\n' :: s₂) =
      [Library.numpy, Library.sklearn].filter fun l => (analyze s₁).uses l ||
      (analyze s₂).uses l := by
  obtain ⟨hnumpy₁, hsklearn₁⟩ := uses_eq_mentions s₁
  obtain ⟨hnumpy₂, hsklearn₂⟩ := uses_eq_mentions s₂
  simp only [List.filter_cons, List.filter_nil, hnumpy₁, hnumpy₂,
    hsklearn₁, hsklearn₂]
  rw [libraries, mentions_join (by decide) (by decide),
    mentions_join (by decide) (by decide)]
  cases s₁.mentions Library.arrayCall || s₂.mentions Library.arrayCall <;>
    cases s₁.mentions Library.scalerClass ||
      s₂.mentions Library.scalerClass <;> rfl

theorem hints_join :
    Table.ofList (hints (s₁ ++ '\n' :: s₂)) =
      (Table.ofList (hints s₁)).update (.ofList (hints s₂)) := by
  rw [← Table.ofList_append, hints, hints, hints,
    mentions_join (by decide) (by decide)]
  cases s₁.mentions Library.arrayBuilder <;> cases s₂.mentions
    Library.arrayBuilder <;> decide

theorem arithmetic_of_infix {s t : Text} (hs : s <:+: t)
    (h : (analyze s).arithmetic = true) :
    (analyze t).arithmetic = true :=
  foundIn_of_infix (by decide) hs h

end Analysis

/-- The context of two snippets on successive lines: later assignments win but
leave each name where it first came, the functions of the second follow those of
the first that it does not repeat, and libraries, hints and arithmetic add
up. -/
theorem analyze_join {s₁ s₂ : Text} (hassign : ¬ ("=" : Text) <:+ s₁.trimEnd)
    (hdef : ¬ ("def" : Text) <:+ s₁.trimEnd)
    (hstart : ¬ ("=" : Text) <+: s₂.dropWhile isBlank) :
    (analyze (s₁ ++ '\n' :: s₂)).bindings =
      (analyze s₁).bindings.update (analyze s₂).bindings ∧
    (analyze (s₁ ++ '\n' :: s₂)).functions =
      (analyze s₁).functions ++
      (analyze s₂).functions.filter (· ∉ (analyze s₁).functions) ∧
    (analyze (s₁ ++ '\n' :: s₂)).libraries =
      ([Library.numpy, Library.sklearn].filter fun l =>
        (analyze s₁).uses l || (analyze s₂).uses l) ∧
    (analyze (s₁ ++ '\n' :: s₂)).hints =
      (analyze s₁).hints.update (analyze s₂).hints ∧
    ((analyze s₁).arithmetic = true ∨ (analyze s₂).arithmetic = true →
      (analyze (s₁ ++ '\n' :: s₂)).arithmetic = true) := by
  refine ⟨?_, Analysis.functions_join hdef, Analysis.libraries_join,
    Analysis.hints_join, ?_⟩
  · show Table.ofList (Analysis.assignments (s₁ ++ '\n' :: s₂)) = _
    rw [Analysis.assignments_join hassign hstart, Table.ofList_append]
    rfl
  · rintro (h | h)
    · exact Analysis.arithmetic_of_infix (List.infix_append_left ..) h
    · exact Analysis.arithmetic_of_infix ⟨s₁ ++ ['\n'], [], by simp⟩ h

/-- A name that is assigned again after a function that is defined again; each
snippet uses a library, the first has the hint and the second the arithmetic. -/
theorem analyze_join_again :
    let s₁ : Text := "x = np.array(1)\ny = 2\ndef f():"
    let s₂ : Text := "  def g():\n def f():\n  x = []\nMinMaxScaler(y - 1)"
    (¬ ("=" : Text) <:+ s₁.trimEnd ∧ ¬ ("def" : Text) <:+ s₁.trimEnd ∧
      ¬ ("=" : Text) <+: s₂.dropWhile isBlank) ∧
    (analyze (s₁ ++ '\n' :: s₂)).bindings.entries =
      [("x".toList, .list), ("y".toList, .int)] ∧
    (analyze (s₁ ++ '\n' :: s₂)).functions = ["f".toList, "g".toList] ∧
    (analyze s₁).libraries = [Library.numpy] ∧
    (analyze s₂).libraries = [Library.sklearn] ∧
    (analyze (s₁ ++ '\n' :: s₂)).libraries = [Library.numpy, Library.sklearn] ∧
    (analyze s₂).hints.entries = [] ∧
    (analyze (s₁ ++ '\n' :: s₂)).hints.entries =
      [(Library.arrayBuilder, .array)] ∧
    (analyze s₁).arithmetic = false ∧
    (analyze (s₁ ++ '\n' :: s₂)).arithmetic = true := by
  intro s₁ s₂
  have hassign : ¬ ("=" : Text) <:+ s₁.trimEnd := by decide
  have hdef : ¬ ("def" : Text) <:+ s₁.trimEnd := by decide
  have hstart : ¬ ("=" : Text) <+: s₂.dropWhile isBlank := by decide
  obtain ⟨hbindings, hfunctions, hlibraries, hhints, harithmetic⟩ :=
    analyze_join hassign hdef hstart
  have hfirst : (analyze s₁).libraries = [Library.numpy] := by decide
  have hsecond : (analyze s₂).libraries = [Library.sklearn] := by decide
  have hplus : (analyze s₂).arithmetic = true := by decide +kernel
  rw [hbindings, hfunctions, hlibraries, hhints]
  refine ⟨⟨hassign, hdef, hstart⟩, ?_, ?_, hfirst, hsecond, ?_, ?_, ?_, ?_,
    harithmetic (Or.inr hplus)⟩
  · decide +kernel
  · decide +kernel
  · decide
  · decide
  · decide
  · decide +kernel

end Recast
