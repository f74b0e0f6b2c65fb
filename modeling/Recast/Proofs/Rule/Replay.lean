import Recast.Proofs.Rule.Stages

/-!
# Running again what the record marks

The record of a run says of each rule whether it changed the text. The rules
that it marks are enough to run again: a rule that is left out changed nothing,
so that each of the others is given the very text that it was given before.
-/

namespace Recast

namespace Rule

/-- The rules that a record with one step for each rule marks as changing the
text. -/
def marked (rs : List Rule) (trace : Trace) : List Rule :=
  ((rs.zip trace.steps).filter (·.2.changed)).map Prod.fst

/-! ## One step -/

theorem apply_of_not_changed {r : Rule} {ctx : Context} {t : Text}
    (h : (r.step ctx t).changed = false) :
    r.apply ctx t = t := by
  by_contra hne
  rw [(changed_step_iff r ctx t).mpr hne] at h
  exact absurd h (by decide)

theorem fired_of_changed {s : Step} (h : s.changed = true) :
    s.fired = true := by
  have heffect : s.effect = .changed := by simpa [Step.changed] using h
  simp [Step.fired, heffect]

/-- The first rule is marked where it changed the text; the others are marked by
the rest of the run. -/
theorem marked_cons (ctx : Context) (r : Rule) (rs : List Rule) (t : Text) :
    marked (r :: rs) (run ctx (r :: rs) t) =
      if (r.step ctx t).changed then r :: marked rs (run ctx rs (r.apply ctx t))
      else marked rs (run ctx rs (r.apply ctx t)) := by
  simp only [marked, run, List.zip_cons_cons, List.filter_cons]
  split <;> rfl

/-! ## The whole run -/

theorem map_rule_steps (ctx : Context) (rs : List Rule) (t : Text) :
    (run ctx rs t).steps.map (·.rule) = rs.map (·.name) := by
  induction rs generalizing t with
  | nil => rfl
  | cons r rs ih => simp [run, step, ih]

/-- Run again, the marked rules do what they did. -/
theorem run_marked (ctx : Context) (rs : List Rule) (t : Text) :
    run ctx (marked rs (run ctx rs t)) t =
      ⟨(run ctx rs t).output, (run ctx rs t).steps.filter (·.changed)⟩ := by
  induction rs generalizing t with
  | nil => rfl
  | cons r rs ih =>
      rw [marked_cons]
      cases hchanged : (r.step ctx t).changed with
      | true =>
          rw [if_pos rfl, run, ih]
          simp [run, hchanged]
      | false =>
          -- the rest of the run starts from the same text with the rule as
          -- without it
          have hsame := ih (r.apply ctx t)
          rw [apply_of_not_changed hchanged] at hsame
          rw [if_neg (by decide), apply_of_not_changed hchanged, hsame]
          simp [run, hchanged, apply_of_not_changed hchanged]

theorem marked_eq_nil {ctx : Context} {rs : List Rule} {t : Text}
    (h : (run ctx rs t).changedRules = []) :
    marked rs (run ctx rs t) = [] := by
  have hsteps : (run ctx rs t).steps.filter (·.changed) = [] := by
    simpa [Trace.changedRules] using h
  rw [marked, List.map_eq_nil_iff, List.filter_eq_nil_iff]
  intro e he
  exact List.filter_eq_nil_iff.mp hsteps e.2 (List.of_mem_zip he).2

/-- The record explains the output: the marked rules alone lead to the same
text, each of them fires and changes the text again, and where none is marked
the text is the one that was given. -/
theorem run_explained_by_record (ctx : Context) (rs : List Rule) (t : Text) :
    (run ctx rs t).steps.map (·.rule) = rs.map (·.name) ∧
      (run ctx (marked rs (run ctx rs t)) t).output = (run ctx rs t).output ∧
      (run ctx (marked rs (run ctx rs t)) t).steps =
        (run ctx rs t).steps.filter (·.changed) ∧
      (∀ s ∈ (run ctx (marked rs (run ctx rs t)) t).steps, s.fired = true ∧
        s.changed = true) ∧
      ((run ctx rs t).changedRules = [] → (run ctx rs t).output = t) := by
  have hagain := run_marked ctx rs t
  refine ⟨map_rule_steps ctx rs t, by rw [hagain], by rw [hagain], ?_, ?_⟩
  · intro s hs
    rw [hagain] at hs
    have hchanged : s.changed = true := (List.mem_filter.mp hs).2
    exact ⟨fired_of_changed hchanged, hchanged⟩
  · intro hnone
    rw [marked_eq_nil hnone] at hagain
    exact (congrArg Trace.output hagain).symm

/-- The second of three rules finds nothing to replace after the first; in
another text none of them does. -/
theorem run_explained_by_record_chain :
    let rules := [literal "first" "a" "b", literal "second" "a" "c",
      literal "third" "b" "d"]
    (marked rules (run .empty rules "a")).map (·.name) =
      (["first", "third"] : List Text) ∧
      (run .empty (marked rules (run .empty rules "a")) "a").output =
        (run .empty rules "a").output ∧
      (run .empty rules "x").changedRules = [] ∧
      (run .empty rules "x").output = ("x" : Text) :=
  ⟨by decide, (run_explained_by_record _ _ _).2.1, by decide,
    (run_explained_by_record .empty _ "x").2.2.2.2 (by decide)⟩

end Rule

end Recast
