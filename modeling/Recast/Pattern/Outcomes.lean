import Recast.Pattern.Basic

/-!
# All ways of matching

The ways in which a pattern matches at a place, as a list in the order in which
they are tried. The matcher stops at the first way that its continuation
accepts, and `run_eq_findSome?` says that it finds exactly the first such way of
the list.
-/

namespace Recast

namespace Pattern

variable {β : Type}

/-- The places where a run may end, in the order of preference. -/
def manyEnds (preference : Preference) (ok : Char → Bool) (passed : Nat)
    (before : Option Char) :
    Text → List Cursor
  | [] => [⟨passed, before, []⟩]
  | c :: cs =>
    if ok c then
      match preference with
      | .longest => manyEnds preference ok (passed + 1) (some c) cs ++
        [⟨passed, before, c :: cs⟩]
      | .shortest => ⟨passed, before, c :: cs⟩ ::
        manyEnds preference ok (passed + 1) (some c) cs
    else [⟨passed, before, c :: cs⟩]

/-- The places where a pattern may end, with the extents of its groups, in the
order in which they are tried. -/
def outcomes : Pattern → Cursor → List (Cursor × List (Option Span))
  | empty, here => [(here, [])]
  | one ok, here =>
    match here.rest with
    | [] => []
    | c :: cs => if ok c then [(⟨here.passed + 1, some c, cs⟩, [])] else []
  | many preference ok, here =>
    (manyEnds preference ok here.passed here.before here.rest).map (·, [])
  | anchor a, here => if a.holds here.before here.rest then [(here, [])] else []
  | seq p q, here =>
    (p.outcomes here).flatMap fun o => (q.outcomes o.1).map fun r =>
      (r.1, o.2 ++ r.2)
  | either p q, here =>
    (p.outcomes here).map
      (fun o => (o.1, o.2 ++ List.replicate q.groupCount none)) ++
      (q.outcomes here).map
        (fun o => (o.1, List.replicate p.groupCount none ++ o.2))
  | group p, here =>
    (p.outcomes here).map fun o => (o.1, some ⟨here.passed, o.1.passed⟩ :: o.2)

theorem findSome?_flatMap {α γ : Type} (f : γ → Option β) (g : α → List γ)
    (as : List α) :
    (as.flatMap g).findSome? f = as.findSome? fun a => (g a).findSome? f := by
  induction as with
  | nil => rfl
  | cons a as ih =>
    rw [List.flatMap_cons, List.findSome?_append, ih, List.findSome?_cons]
    cases (g a).findSome? f <;> rfl

theorem runMany_eq_findSome? (preference : Preference) (ok : Char → Bool)
    (k : Cursor → Option β) (passed : Nat) (before : Option Char) (t : Text) :
    runMany preference ok k passed before t =
      (manyEnds preference ok passed before t).findSome? k := by
  induction t generalizing passed before with
  | nil => simp [runMany, manyEnds]
  | cons c cs ih =>
    by_cases h : ok c
    · cases preference with
      | longest => simp [runMany, manyEnds, h, ih, List.findSome?_append]
      | shortest =>
        simp only [runMany, manyEnds, h, ih, if_true]
        rw [List.findSome?_cons]
        cases k ⟨passed, before, c :: cs⟩ <;> rfl
    · simp [runMany, manyEnds, h]

/-- The matcher finds the first way of matching that the continuation
accepts. -/
theorem run_eq_findSome? (p : Pattern) (here : Cursor)
    (k : Cursor → List (Option Span) → Option β) :
    p.run here k = (p.outcomes here).findSome? fun o => k o.1 o.2 := by
  induction p generalizing here k with
  | empty => simp [run, outcomes]
  | one ok =>
    simp only [run, outcomes]
    cases here.rest with
    | nil => rfl
    | cons c cs => cases h : ok c <;> simp [h]
  | many preference ok =>
    simp [run, outcomes, runMany_eq_findSome?, List.findSome?_map,
      Function.comp_def]
  | anchor a =>
    simp only [run, outcomes]
    split <;> simp
  | seq p q ihp ihq =>
    simp only [run, outcomes, ihp, ihq, findSome?_flatMap, List.findSome?_map,
      Function.comp_def]
  | either p q ihp ihq =>
    simp [run, outcomes, ihp, ihq, List.findSome?_append, List.findSome?_map,
      Function.comp_def]
  | group p ih =>
      simp [run, outcomes, ih, List.findSome?_map, Function.comp_def]

end Pattern

end Recast
