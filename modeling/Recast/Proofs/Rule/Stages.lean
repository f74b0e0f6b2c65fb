import Mathlib.Data.List.Nodup
import Recast.Pipeline

/-!
# Stages of a run

Between two rules of a run stands a text. A fact about the last text is carried
from stage to stage: `Leads` says what one rule makes of a fact, and `RunLeads`
what a row of rules makes of it. `Respects` and `RunRespects` say the same of a
relation between the texts of two runs. For a target the stages that matter are
the draft, which is what its rules leave before blocks are closed, and the body,
which is what the frame is put around.
-/

namespace Recast

namespace Rule

/-- The rules before the first one called `name`. -/
def upTo (name : Text) (rs : List Rule) : List Rule :=
  rs.takeWhile (·.name != name)

/-- The text that the first rule called `name` is given when the rules run on
`t`. -/
def reaching (ctx : Context) (name : Text) (rs : List Rule) (t : Text) : Text :=
  (run ctx (upTo name rs) t).output

theorem run_append_output (ctx : Context) (rs rs' : List Rule) (t : Text) :
    (run ctx (rs ++ rs') t).output =
      (run ctx rs' (run ctx rs t).output).output := by
  simp only [run_output, List.foldl_append]

/-! ## The record of one rule -/

theorem changed_step_iff (r : Rule) (ctx : Context) (t : Text) :
    (r.step ctx t).changed = true ↔ r.apply ctx t ≠ t := by
  rw [Step.changed, step, effect, apply]
  by_cases hgate : r.gate ctx t = true
  · by_cases hsame : r.transform ctx t = t <;> simp [hgate, hsame]
  · simp [hgate]

theorem changedRules_cons (ctx : Context) (r : Rule) (rs : List Rule)
    (t : Text) :
    (run ctx (r :: rs) t).changedRules =
      Text.onlyIf (r.step ctx t).changed r.name ++
      (run ctx rs (r.apply ctx t)).changedRules := by
  rw [Trace.changedRules, run, List.filter_cons, Text.onlyIf]
  split <;> rfl

theorem changedRules_subset (ctx : Context) (rs : List Rule) (t : Text) :
    (run ctx rs t).changedRules ⊆ rs.map (·.name) := by
  induction rs generalizing t with
  | nil => simp [run, Trace.changedRules]
  | cons r rs ih =>
      rw [changedRules_cons, List.map_cons]
      intro n hn
      rcases List.mem_append.mp hn with hn | hn
      · rw [Text.onlyIf] at hn
        split at hn
        · exact List.mem_cons.mpr (Or.inl (List.mem_singleton.mp hn))
        · simp at hn
      · exact List.mem_cons_of_mem _ (ih _ hn)

/-- A rule is recorded as changing the text exactly if it changes what it is
given. -/
theorem mem_changedRules_iff {ctx : Context} {r : Rule} {rs : List Rule}
    {t : Text} (hnodup : (rs.map (·.name)).Nodup) (hr : r ∈ rs) :
    r.name ∈ (run ctx rs t).changedRules ↔
      r.apply ctx (reaching ctx r.name rs t) ≠ reaching ctx r.name rs t := by
  induction rs generalizing t with
  | nil => simp at hr
  | cons q rs ih =>
      rw [List.map_cons, List.nodup_cons] at hnodup
      rw [changedRules_cons, List.mem_append, Text.onlyIf]
      rcases List.mem_cons.mp hr with rfl | hr
      · -- no later rule has its name
        have hlater : r.name ∉ (run ctx rs (r.apply ctx t)).changedRules :=
          fun h => hnodup.1 (changedRules_subset ctx rs _ h)
        have hreach : reaching ctx r.name (r :: rs) t = t := by
          simp [reaching, upTo, run]
        rw [hreach, ← changed_step_iff]
        cases (r.step ctx t).changed <;> simp [hlater]
      · have hne : q.name ≠ r.name :=
          fun h => hnodup.1 (h ▸ List.mem_map_of_mem hr)
        have hreach : reaching ctx r.name (q :: rs) t =
            reaching ctx r.name rs (q.apply ctx t) := by
          simp [reaching, upTo, run, hne]
        rw [hreach, ← ih hnodup.2 hr]
        cases (q.step ctx t).changed <;> simp [hne.symm]

/-! ## Facts carried along -/

/-- The rule takes every text in `P` to a text in `Q`. -/
def Leads (P Q : Text → Prop) (r : Rule) : Prop :=
  ∀ ctx t, P t → Q (r.apply ctx t)

/-- A rule with a gate leads where its transformation does, if a text that it
leaves alone is there already. -/
theorem leads_of_transform {P Q : Text → Prop} {r : Rule}
    (hskip : ∀ t, P t → Q t) (h : ∀ ctx t, P t → Q (r.transform ctx t)) :
    r.Leads P Q := by
  intro ctx t ht
  rw [apply]
  split
  · exact h ctx t ht
  · exact hskip t ht

/-- The rules one after the other take every text in `P` to a text in `Q`. -/
def RunLeads (P : Text → Prop) (rs : List Rule) (Q : Text → Prop) : Prop :=
  ∀ ctx t, P t → Q (run ctx rs t).output

theorem RunLeads.nil {P : Text → Prop} : RunLeads P [] P := fun _ _ ht => ht

/-- A run leads on from where its first rule leads. -/
theorem RunLeads.cons {P Q R : Text → Prop} {r : Rule} {rs : List Rule}
    (h : r.Leads P Q) (hrest : RunLeads Q rs R) : RunLeads P (r :: rs) R := by
  intro ctx t ht
  rw [run]
  exact hrest ctx _ (h ctx t ht)

theorem RunLeads.append {P Q R : Text → Prop} {rs rs' : List Rule}
    (h : RunLeads P rs Q) (hrest : RunLeads Q rs' R) :
    RunLeads P (rs ++ rs') R := by
  intro ctx t ht
  rw [run_append_output]
  exact hrest ctx _ (h ctx t ht)

/-! ## Two runs side by side -/

/-- The rule takes related texts to related texts. -/
def Respects (R : Text → Text → Prop) (r : Rule) : Prop :=
  ∀ ctx t u, R t u → R (r.apply ctx t) (r.apply ctx u)

theorem respects_of_transform {R : Text → Text → Prop} {r : Rule}
    (hgate : ∀ ctx t u, R t u → r.gate ctx u = r.gate ctx t)
    (h : ∀ ctx t u, R t u → R (r.transform ctx t) (r.transform ctx u)) :
    r.Respects R := by
  intro ctx t u htu
  rw [apply, apply, hgate ctx t u htu]
  split
  · exact h ctx t u htu
  · exact htu

/-- The rules one after the other take related texts to related texts. -/
def RunRespects (R : Text → Text → Prop) (rs : List Rule) : Prop :=
  ∀ ctx t u, R t u → R (run ctx rs t).output (run ctx rs u).output

theorem RunRespects.nil {R : Text → Text → Prop} : RunRespects R [] :=
  fun _ _ _ htu => htu

theorem RunRespects.cons {R : Text → Text → Prop} {r : Rule} {rs : List Rule}
    (h : r.Respects R) (hrest : RunRespects R rs) :
    RunRespects R (r :: rs) := by
  intro ctx t u htu
  rw [run, run]
  exact hrest ctx _ _ (h ctx t u htu)

theorem RunRespects.append {R : Text → Text → Prop} {rs rs' : List Rule}
    (h : RunRespects R rs) (hrest : RunRespects R rs') :
    RunRespects R (rs ++ rs') := by
  intro ctx t u htu
  rw [run_append_output, run_append_output]
  exact hrest ctx _ _ (h ctx t u htu)

end Rule

namespace Target

theorem nodup_rules (t : Target) : (t.rules.map (·.name)).Nodup := by
  cases t <;> decide

/-- A rule of a target is known by its name. -/
theorem eq_of_name {t : Target} {r r' : Rule} (hr : r ∈ t.rules)
    (hr' : r' ∈ t.rules) (h : r.name = r'.name) :
    r = r' :=
  List.inj_on_of_nodup_map t.nodup_rules hr hr' h

/-- What the rules of a target leave before open blocks are closed. -/
def draft (t : Target) (ctx : Context) (source : Text) : Text :=
  Rule.reaching ctx "block_repair" t.rules source

/-- What the frame of a target is put around. -/
def body (t : Target) (ctx : Context) (source : Text) : Text :=
  Rule.reaching ctx "boilerplate" t.rules source

/-- The last two rules close the open blocks and put the frame around. -/
theorem rules_eq_append (t : Target) :
    t.rules = Rule.upTo "block_repair" t.rules ++
      [{ name := "block_repair", transform := fun _ => Block.repair },
       { name := "boilerplate", transform := t.frame }] := by
  cases t <;> rfl

theorem upTo_boilerplate (t : Target) :
    Rule.upTo "boilerplate" t.rules =
      Rule.upTo "block_repair" t.rules ++
        [{ name := "block_repair", transform := fun _ => Block.repair }] := by
  cases t <;> rfl

theorem upTo_block_repair (t : Target) :
    Rule.upTo "block_repair" t.rules = t.rules.take 14 ++ t.returnRules := by
  cases t <;> rfl

/-- The body is the draft with its open blocks closed. -/
theorem body_eq (t : Target) (ctx : Context) (source : Text) :
    t.body ctx source = Block.repair (t.draft ctx source) := by
  rw [body, Rule.reaching, upTo_boilerplate, Rule.run_append_output]
  rfl

/-- The output is the body in its frame. -/
theorem recast_output (t : Target) (ctx : Context) (source : Text) :
    (t.recast ctx source).output = t.frame ctx (t.body ctx source) := by
  rw [recast, rules_eq_append, Rule.run_append_output, body_eq]
  rfl

end Target

end Recast
