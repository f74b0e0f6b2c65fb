import Recast.Proofs.Block.Deficit
import Recast.Proofs.Pattern.Joint
import Recast.Proofs.Rendering.Signs
import Recast.Proofs.Rule.Stages

/-!
# Line feeds at the end of a snippet

No idiom that is looked for ends in a line feed, so line feeds at the end of a
snippet are carried through the rules unread. A run on the longer snippet stays
the other run with line feeds at its end, or becomes equal to it where a rule
trims (`runRespects_body`). The frame trims them too, but for the bodies that
stand in a file as they are (`frame_append_breaks`).
-/

namespace Recast

open Pattern

/-- The second text is the first with line feeds at its end. -/
def Text.BreaksAdded (t u : Text) : Prop := ∃ k, u = t ++ List.replicate k '\n'

theorem Text.BreaksAdded.refl (t : Text) : t.BreaksAdded t := ⟨0, by simp⟩

/-! ## Idioms -/

theorem Idiom.endsBefore_break (i : Idiom) :
    i.pattern.endsBefore '\n' = true := by
  cases i <;> rfl

theorem Text.BreaksAdded.substitute {t u : Text} (h : t.BreaksAdded u)
    {i : Idiom} (hi : i.pattern.breakBlind = true) (f : Match → Text) :
    (i.pattern.substitute f t).BreaksAdded (i.pattern.substitute f u) := by
  obtain ⟨k, rfl⟩ := h
  exact ⟨k,
    substitute_append_breaks (blind_of_breakBlind hi) i.endsBefore_break f t k⟩

/-! ## The analysis -/

namespace Analysis

variable (s : Text) (k : Nat)

theorem assignments_append_breaks :
    assignments (s ++ List.replicate k '\n') = assignments s := by
  have hmatches := matchesIn_append_breaks
    (blind_of_breakBlind (p := Idiom.assignment.pattern) rfl)
    (Idiom.endsBefore_break _) s k
  rw [assignments, hmatches, ← assignments]

theorem functions_append_breaks :
    functions (s ++ List.replicate k '\n') = functions s := by
  have hmatches := matchesIn_append_breaks
    (blind_of_breakBlind (p := Idiom.functionName.pattern) rfl)
    (Idiom.endsBefore_break _) s k
  rw [functions, hmatches, ← functions]

theorem libraries_append_breaks :
    libraries (s ++ List.replicate k '\n') = libraries s := by
  rw [libraries, mentions_append_breaks (by decide) (by decide),
    mentions_append_breaks (by decide) (by decide), ← libraries]

theorem hints_append_breaks : hints (s ++ List.replicate k '\n') = hints s := by
  rw [hints, mentions_append_breaks (by decide) (by decide), ← hints]

theorem analyze_append_breaks :
    analyze (s ++ List.replicate k '\n') = analyze s := by
  have hfound := foundIn_append_breaks
    (blind_of_breakBlind (p := Idiom.basicOperation.pattern) rfl)
    (Idiom.endsBefore_break _) s k
  rw [analyze, assignments_append_breaks, functions_append_breaks,
    libraries_append_breaks, hints_append_breaks, hfound, ← analyze]

end Analysis

/-! ## One rule -/

namespace Rule

variable {i : Idiom} (hi : i.pattern.breakBlind = true) (name : Text)
    (f : Context → Match → Text)
include hi

theorem respects_replacing :
    (replacing name i.pattern f).Respects Text.BreaksAdded :=
  fun ctx _ _ h => h.substitute hi (f ctx)

/-- A library shows by a marker without line feeds, so the gate is the same for
both texts. -/
theorem respects_gated {library marker : Text} (hne : marker ≠ [])
    (hbreak : marker.any (· == '\n') = false) :
    ((replacing name i.pattern f).gated (libraryGate library marker)).Respects
      Text.BreaksAdded := by
  refine respects_of_transform ?_ fun ctx _ _ h => h.substitute hi (f ctx)
  rintro ctx t _ ⟨k, rfl⟩
  show libraryGate library marker ctx _ = libraryGate library marker ctx t
  rw [libraryGate, mentions_append_breaks hne hbreak, ← libraryGate]

end Rule

namespace Target

open Text (BreaksAdded)

theorem respects_lengthRule (t : Target) :
    t.lengthRule.Respects BreaksAdded := by
  cases t with
  | go => exact Rule.respects_replacing (i := .rangeLenMinus) rfl _ _
  | _ => exact Rule.respects_replacing (i := .lenCall) rfl _ _

theorem respects_windowRule (t : Target) :
    Rule.Respects BreaksAdded
      { name := "window_constant", gate := needsWindow,
        transform := fun _ => t.declareWindow } := by
  apply Rule.respects_of_transform
  · rintro ctx u _ ⟨k, rfl⟩
    show needsWindow ctx _ = needsWindow ctx u
    rw [needsWindow, mentions_append_breaks (by decide) (by decide),
      ← needsWindow]
  · rintro ctx u _ ⟨k, rfl⟩
    exact ⟨k, (List.append_assoc _ u _).symm⟩

theorem lacksReturn_append_breaks (u : Text) (k : Nat) :
    lacksReturn (u ++ List.replicate k '\n') = lacksReturn u := by
  show (Text.mentions _ "func " && !Text.mentions _ "return") = _
  rw [mentions_append_breaks (by decide) (by decide),
    mentions_append_breaks (by decide) (by decide)]
  rfl

/-- A return is added where the trailing line feeds were. -/
theorem addReturn_append_breaks (u : Text) (k : Nat) :
    addReturn (u ++ List.replicate k '\n') = addReturn u := by
  show Text.trimEnd _ ++ _ = _
  rw [Text.trimEnd_append_breaks]
  rfl

theorem runRespects_returnRules (t : Target) :
    Rule.RunRespects BreaksAdded t.returnRules := by
  cases t with
  | go =>
      refine .cons (Rule.respects_of_transform ?_ ?_) .nil
      · rintro _ u _ ⟨k, rfl⟩
        exact lacksReturn_append_breaks u k
      · rintro _ u _ ⟨k, rfl⟩
        show BreaksAdded (addReturn u) (addReturn _)
        rw [addReturn_append_breaks]
        exact .refl _
  | _ => exact .nil

theorem breaksAdded_repair {u v : Text} (h : BreaksAdded u v) :
    BreaksAdded (Block.repair u) (Block.repair v) := by
  obtain ⟨k, rfl⟩ := h
  have hdeficit : Block.deficit (u ++ List.replicate k '\n') =
      Block.deficit u :=
    Block.deficit_congr_words
      (Text.words_append_blanks (Text.isBlank_of_mem_breaks k) u)
  unfold Block.repair
  rw [hdeficit, Text.trimEnd_append_breaks]
  split
  · exact ⟨k, rfl⟩
  · exact .refl _

/-! ## The run up to the frame -/

theorem runRespects_body (t : Target) :
    Rule.RunRespects BreaksAdded (Rule.upTo "boilerplate" t.rules) := by
  rw [upTo_boilerplate, upTo_block_repair]
  refine .append (.append ?_ t.runRespects_returnRules) ?_
  · refine .cons (Rule.respects_replacing (i := .comment) rfl _ _) ?_
    refine .cons (Rule.respects_replacing (i := .functionDef) rfl _ _) ?_
    refine .cons (Rule.respects_replacing (i := .dualEmptyInit) rfl _ _) ?_
    refine .cons t.respects_lengthRule ?_
    refine .cons (Rule.respects_replacing (i := .countingLoop) rfl _ _) ?_
    refine .cons (Rule.respects_replacing (i := .printCall) rfl _ _) ?_
    refine .cons (Rule.respects_replacing (i := .appendCall) rfl _ _) ?_
    refine .cons (Rule.respects_replacing (i := .slice) rfl _ _) ?_
    refine .cons
      (Rule.respects_gated (i := .reshape) rfl _ _ (by decide) (by decide)) ?_
    refine .cons (Rule.respects_gated (i := .scalerFitTransform) rfl _ _
      (by decide) (by decide)) ?_
    refine .cons (Rule.respects_gated (i := .scalerConstructor) rfl _ _
      (by decide) (by decide)) ?_
    refine .cons (Rule.respects_replacing (i := .arrayPairReturn) rfl _ _) ?_
    refine .cons (Rule.respects_replacing (i := .plainPairReturn) rfl _ _) ?_
    exact .cons t.respects_windowRule .nil
  · exact .cons (fun _ _ _ h => breaksAdded_repair h) .nil

/-! ## The frame -/

/-- Whether the body stands in the file as it is. -/
def keepsBody : Target → (program : Bool) → Bool
  | go, false | javascript, false => true
  | _, _ => false

theorem laidOut_append_breaks (t : Target) (program : Bool) (body : Text)
    (k : Nat) :
    t.laidOut program (body ++ List.replicate k '\n') =
      if t.keepsBody program then t.laidOut program body ++
        List.replicate k '\n'
      else t.laidOut program body := by
  have htrim := Text.trimBody_append_breaks body k
  cases t <;> cases program
  · rfl
  · exact congrArg (Text.indentBlock _) htrim
  · exact htrim
  · exact htrim
  · rfl
  · exact congrArg (Text.indentBlock _) htrim
  · exact congrArg (Text.indentBlock _) htrim
  · exact congrArg (Text.indentBlock _) htrim

theorem frame_append_breaks (t : Target) (ctx : Context) (body : Text)
    (k : Nat) :
    t.frame ctx (body ++ List.replicate k '\n') =
      if t.keepsBody ctx.functions.isEmpty then t.frame ctx body ++
        List.replicate k '\n'
      else t.frame ctx body := by
  have hwords : (body ++ List.replicate k '\n').words = body.words :=
    Text.words_append_blanks (Text.isBlank_of_mem_breaks k) body
  rw [frame_eq, frame_eq, fileTop_congr_words t _ hwords, laidOut_append_breaks]
  cases hkeeps : t.keepsBody ctx.functions.isEmpty with
  | false => rfl
  | true =>
      have hbottom : t.fileBottom ctx.functions.isEmpty = [] := by
        revert hkeeps
        cases t <;> cases ctx.functions.isEmpty <;> decide
      rw [hbottom]
      simp

/-- **Trailing line feeds.** They tell the analysis nothing, and they change the
output at most by line feeds at its end, which is so only for Go and JavaScript,
and there only for a snippet with functions. -/
theorem recast_append_breaks (s : Text) (k : Nat) :
    analyze (s ++ List.replicate k '\n') = analyze s ∧
    (∀ t : Target, t = php ∨ t = csharp ∨ (analyze s).functions = [] →
      (t.recast (analyze (s ++ List.replicate k '\n'))
        (s ++ List.replicate k '\n')).output =
        (t.recast (analyze s) s).output) ∧
    (∀ t : Target,
      Text.dropEndWhile (· == '\n')
        (t.recast (analyze (s ++ List.replicate k '\n'))
          (s ++ List.replicate k '\n')).output =
      Text.dropEndWhile (· == '\n') (t.recast (analyze s) s).output) := by
  have hanalyze := Analysis.analyze_append_breaks s k
  have hbody : ∀ t : Target,
      BreaksAdded (t.body (analyze s) s)
        (t.body (analyze s) (s ++ List.replicate k '\n')) :=
    fun t => t.runRespects_body (analyze s) _ _ ⟨k, rfl⟩
  refine ⟨hanalyze, ?_, ?_⟩
  · intro t ht
    obtain ⟨j, hj⟩ := hbody t
    have hkeeps : t.keepsBody (analyze s).functions.isEmpty = false := by
      rcases ht with rfl | rfl | hnone
      · rfl
      · rfl
      · rw [hnone]
        cases t <;> rfl
    rw [hanalyze, recast_output, recast_output, hj, frame_append_breaks, hkeeps]
    rfl
  · intro t
    obtain ⟨j, hj⟩ := hbody t
    rw [hanalyze, recast_output, recast_output, hj, frame_append_breaks]
    split
    · apply Text.dropEndWhile_append
      intro c hc
      rw [List.eq_of_mem_replicate hc]
      rfl
    · rfl

/-- A program with two line feeds after it. -/
theorem recast_append_breaks_program :
    (analyze "print(x)").functions = [] ∧
      (go.recast (analyze "print(x)\n\n") "print(x)\n\n").output =
        (go.recast (analyze "print(x)") "print(x)").output := by
  have hnone : (analyze "print(x)").functions = [] := by decide +kernel
  have hbreaks : ("print(x)\n\n" : Text) =
      ("print(x)" : Text) ++ List.replicate 2 '\n' := by decide
  rw [hbreaks]
  exact ⟨hnone, (recast_append_breaks "print(x)" 2).2.1 go
    (Or.inr (Or.inr hnone))⟩

end Target

end Recast
