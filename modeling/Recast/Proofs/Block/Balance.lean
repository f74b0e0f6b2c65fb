import Mathlib.Data.List.Basic
import Recast.Proofs.Rendering.Statement

/-!
# Balanced output

A source without closing braces gets all of them from the target. Up to the rule
for scalers the text stays paired over the openers of the target, so that what a
rule captures, repeats or drops has no brace that closes nothing. The rule for
scalers may break pairs but closes no more blocks than it opens, and the rules
after it keep the deficit. The draft then has no closing brace too many, and
closing its open blocks balances it.
-/

namespace Recast

namespace Rule

open Block

variable {os : List Text} {name : Text} {p : Pattern}
    {f : Context → Match → Text}

/-! ## Rules that replace matches -/

theorem leads_not_mem {c : Char}
    (hf : ∀ ctx m, (∀ i, c ∉ m.group i) → c ∉ f ctx m) :
    (replacing name p f).Leads (c ∉ ·) (c ∉ ·) := by
  refine leads_of_transform (fun _ ht => ht) ?_
  intro ctx t ht hmem
  refine (p.divides_segments t).forall_mem_replaced
    (P := (· ≠ c)) ?_ ?_ c hmem rfl
  · intro m before rest hread hm d hd e
    have hgroups : ∀ i, c ∉ m.group i :=
      hread.not_mem_group fun hc => hm c hc rfl
    exact hf ctx m hgroups (e ▸ hd)
  · intro d hd e
    exact ht (e ▸ hd)

theorem leads_paired {gate : Context → Text → Bool} (hp : p.spares os = true)
    (hf : ∀ ctx m, (∀ i, Paired os (m.group i)) → Paired os (f ctx m)) :
    ((replacing name p f).gated gate).Leads (Paired os) (Paired os) := by
  refine leads_of_transform (fun _ ht => ht) ?_
  intro ctx t ht
  exact (p.divides_segments t).paired_replaced hp (hf ctx) ht

/-- Where the replacements are not paired, at least the deficit is none below
zero. -/
theorem leads_deficit_nonneg {gate : Context → Text → Bool}
    (hos : ∀ o ∈ os, 1 ≤ deficit o) (hp : p.spares os = true)
    (hf : ∀ ctx m, (∀ i, Paired os (m.group i)) → 0 ≤ deficit (f ctx m)) :
    ((replacing name p f).gated gate).Leads (Paired os) (0 ≤ deficit ·) := by
  refine leads_of_transform (fun _ ht => ht.deficit_nonneg hos) ?_
  intro ctx t ht
  have hreplaced := (p.divides_segments t).deficit_replaced_nonneg hos hp
    (hf ctx) paired_nil ht
  rw [List.nil_append] at hreplaced
  exact hreplaced

theorem leads_same_deficit (hopen : p.shows opening = true)
    (hclose : p.shows closing = true)
    (hf : ∀ ctx m, m.groups.length = p.groupCount →
      deficit (f ctx m) = deficit (m.groups.flatMap (·.getD []))) :
    (replacing name p f).Leads (0 ≤ deficit ·) (0 ≤ deficit ·) := by
  refine leads_of_transform (fun _ ht => ht) ?_
  intro ctx t ht
  have hkeep : deficit (p.substitute (f ctx) t) = deficit t := by
    refine (p.divides_segments t).deficit_replaced ?_
    intro m before rest hread
    rw [hf ctx m hread.length_groups, hread.deficit_groups hopen hclose]
  exact hkeep ▸ ht

end Rule

namespace Target

open Block

/-! ## The openers survive the patterns -/

theorem spares_openers (t : Target) :
    ∀ i ∈ [Idiom.functionDef, .dualEmptyInit, .rangeLenMinus, .lenCall,
      .countingLoop, .printCall,
      .appendCall, .slice, .reshape, .scalerFitTransform, .scalerConstructor],
      i.pattern.spares t.openers = true := by
  cases t <;> decide +kernel

/-! ## Replacements from paired groups -/

section Replacements

variable {t : Target} {m : Match} (hm : ∀ i, Paired t.openers (m.group i))
include hm

theorem paired_names (i : Nat) :
    ∀ n ∈ Parameter.names (m.group i), Paired t.openers n := by
  intro n hn
  obtain ⟨item, hitem, rfl⟩ := List.mem_map.mp (List.mem_filter.mp hn).1
  have hstar : ∀ c, (c == '*') = true → Breaks t.openers c := by
    intro c hc
    rw [beq_iff_eq.mp hc]
    cases t <;> unfold Breaks <;> decide
  have hfield : Paired t.openers item :=
    (hm i).of_mem_fields (breaks_comma t) hitem
  exact (hfield.before.before.trim (breaks_blank t)).dropWhile hstar

theorem paired_replaceFunction (ctx : Context) :
    Paired t.openers (t.replaceFunction ctx m) := by
  refine (hm 0).append (paired_functionHeader t (hm 1) (hm 0) ?_)
  intro p hp
  obtain ⟨n, hn, rfl⟩ := List.mem_map.mp hp
  exact ⟨paired_names hm 2 n hn, _, rfl⟩

theorem paired_replaceDualInit : Paired t.openers (t.replaceDualInit m) := by
  obtain ⟨hfirst, hsecond⟩ := paired_dualInit t (hm 1) (hm 2)
  have hfeed : Paired t.openers "\n" := paired_plain (by decide)
  exact ((((hm 0).append hfirst).append hfeed).append (hm 0)).append hsecond

theorem paired_replaceRangeBound : Paired t.openers (replaceRangeBound m) := by
  have hleft : Paired t.openers "range(int(math.Max(0, float64(len(" :=
    paired_plain (by simp [closing])
  have hminus : Paired t.openers ") - " := paired_plain (by decide)
  have hright : Paired t.openers "))))" := paired_plain (by decide)
  exact (((hleft.append (hm 0)).append hminus).append (hm 1)).append hright

theorem paired_replaceSlice : Paired t.openers (t.replaceSlice m) :=
  paired_slice t (hm 0) ((hm 1).trim (breaks_blank t))
    ((hm 2).trim (breaks_blank t))

/-- The parts of a shape are pieces of a paired text or defaults. -/
theorem paired_replaceReshape : Paired t.openers (t.replaceReshape m) := by
  have hvalues : Paired t.openers (m.group 0).trim :=
    (hm 0).trim (breaks_blank t)
  have hpart : ∀ i : Nat, Paired t.openers
      ((((m.group 1).fields ',').map Text.trim)[i]?.getD []) := by
    intro i
    cases hi : (((m.group 1).fields ',').map Text.trim)[i]? with
    | none => exact paired_nil
    | some part =>
        obtain ⟨field, hfield, rfl⟩ := List.mem_map.mp (List.mem_of_getElem? hi)
        exact ((hm 1).of_mem_fields (breaks_comma t) hfield).trim
          (breaks_blank t)
  have hrows := paired_orElse (hpart 0) (paired_plain (u := "-1") (by decide))
  have hcols := paired_orElse (hpart 1) (paired_plain (u := "1") (by decide))
  rw [replaceReshape]
  refine paired_reshape t hvalues ?_ hcols
  split
  · exact paired_length t hvalues
  · exact hrows

theorem paired_replaceFitTransform :
    Paired t.openers (t.replaceFitTransform m) := by
  have hfeed : Paired t.openers ['\n'] := paired_plain (by decide)
  have hlines :=
    paired_fitTransform t (hm 1) (hm 2) ((hm 3).trim (breaks_blank t))
  refine paired_join hfeed (List.forall_mem_map.mpr ?_)
  intro l hl
  exact (hm 0).append (hlines l hl)

theorem deficit_replaceScaler_nonneg : 0 ≤ deficit (t.replaceScaler m) := by
  have hrange : Paired t.openers (Text.orElse (m.group 2) "0, 1") :=
    paired_orElse (hm 2) (paired_plain (by decide))
  have hlow :
      Paired t.openers ((Text.orElse (m.group 2) "0, 1").before ',').trim :=
    hrange.before.trim (breaks_blank t)
  have hhigh : Paired t.openers
      (Text.orElse ((Text.orElse (m.group 2) "0, 1").after ',').trim "1") :=
    paired_orElse ((hrange.after_sep (breaks_comma t)).trim (breaks_blank t))
      (paired_plain (by decide))
  have hos := one_le_deficit_of_mem_openers t
  have h0 := (hm 0).deficit_nonneg hos
  have h1 := (hm 1).deficit_nonneg hos
  have h2 := hlow.deficit_nonneg hos
  have h3 := hhigh.deficit_nonneg hos
  rw [replaceScaler, deficit_append, deficit_scaler]
  omega

end Replacements

/-! ## Texts with the deficit of what they replace -/

theorem deficit_replaceArrayPair (t : Target) {m : Match}
    (h : m.groups.length = 2) :
    deficit (t.replaceArrayPair m) =
      deficit (m.groups.flatMap (·.getD [])) := by
  obtain ⟨a, b, hab⟩ := List.length_eq_two.mp h
  rw [replaceArrayPair, deficit_pairReturn]
  simp [Match.group, hab]

theorem deficit_replacePlainPair (t : Target) {m : Match}
    (h : m.groups.length = 3) :
    deficit (t.replacePlainPair m) =
      deficit (m.groups.flatMap (·.getD [])) := by
  obtain ⟨a, b, c, habc⟩ := List.length_eq_three.mp h
  rw [replacePlainPair, deficit_append, deficit_pairReturn]
  simp [Match.group, habc]

theorem deficit_declareWindow (t : Target) (u : Text) :
    deficit (t.declareWindow u) = deficit u := by
  have hconstant : deficit (t.constant windowName windowLength) = 0 := by
    cases t <;> decide
  have hfeeds : deficit "\n\n" = 0 := by decide
  rw [declareWindow, deficit_append, deficit_append, hconstant, hfeeds]
  omega

theorem deficit_addReturn (u : Text) : deficit (addReturn u) = deficit u := by
  have hreturn :
      deficit "\n    return nil, nil, fmt.Errorf(\"function not implemented\")" = 0 :=
    deficit_plain (by simp [opening]) (by simp [closing])
  show deficit (u.trimEnd ++ _) = deficit u
  rw [deficit_append, deficit_trimEnd, hreturn, Int.add_zero]

/-! ## From the source to the draft -/

theorem leads_comment (t : Target) :
    (Rule.replacing "comment" Idiom.comment.pattern fun _ =>
      replaceComment).Leads (closing ∉ ·) (Paired t.openers) := by
  intro ctx u hu
  refine pairedAfter_of_not_mem (Rule.leads_not_mem ?_ ctx u hu)
  intro ctx m hm hmem
  have hslashes : closing ∉ ("// " : Text) := by decide
  rcases List.mem_append.mp hmem with hmem | hmem
  · rcases List.mem_append.mp hmem with hmem | hmem
    · exact hm 0 hmem
    · exact hslashes hmem
  · exact hm 1 hmem

theorem leads_lengthRule (t : Target) :
    t.lengthRule.Leads (Paired t.openers) (Paired t.openers) := by
  have hrange := t.spares_openers .rangeLenMinus (by decide)
  have hlen := t.spares_openers .lenCall (by decide)
  cases t with
  | go =>
      exact Rule.leads_paired hrange fun _ _ hm => paired_replaceRangeBound hm
  | _ => exact Rule.leads_paired hlen fun _ _ hm => paired_length _ (hm 0)

theorem runLeads_returnRules (t : Target) :
    Rule.RunLeads (0 ≤ deficit ·) t.returnRules (0 ≤ deficit ·) := by
  cases t with
  | go =>
      refine .cons (Rule.leads_of_transform (fun _ hu => hu) ?_) .nil
      intro _ u hu
      exact (deficit_addReturn u).symm ▸ hu
  | _ => exact .nil

/-- The draft of a source without closing braces closes no more blocks than it
opens. -/
theorem runLeads_draft (t : Target) :
    Rule.RunLeads (closing ∉ ·) (Rule.upTo "block_repair" t.rules)
      (0 ≤ deficit ·) := by
  have hspares := t.spares_openers
  rw [upTo_block_repair]
  refine .append ?_ t.runLeads_returnRules
  refine .cons t.leads_comment ?_
  -- from here on the text is paired
  refine .cons (Rule.leads_paired (hspares .functionDef (by decide)) ?_) ?_
  · exact fun ctx _ hm => paired_replaceFunction hm ctx
  refine .cons (Rule.leads_paired (hspares .dualEmptyInit (by decide)) ?_) ?_
  · exact fun _ _ hm => paired_replaceDualInit hm
  refine .cons t.leads_lengthRule ?_
  refine .cons (Rule.leads_paired (hspares .countingLoop (by decide)) ?_) ?_
  · exact fun _ _ hm => paired_loop t (hm 0) ((hm 1).trim (breaks_blank t))
  refine .cons (Rule.leads_paired (hspares .printCall (by decide)) ?_) ?_
  · exact fun _ _ hm => paired_print t (hm 0)
  refine .cons (Rule.leads_paired (hspares .appendCall (by decide)) ?_) ?_
  · exact fun _ _ hm => paired_append t (hm 0) (hm 1)
  refine .cons (Rule.leads_paired (hspares .slice (by decide)) ?_) ?_
  · exact fun _ _ hm => paired_replaceSlice hm
  refine .cons (Rule.leads_paired (hspares .reshape (by decide)) ?_) ?_
  · exact fun _ _ hm => paired_replaceReshape hm
  refine .cons
    (Rule.leads_paired (hspares .scalerFitTransform (by decide)) ?_) ?_
  · exact fun _ _ hm => paired_replaceFitTransform hm
  -- a scaler may stand between an opener and its brace, so only the deficit is
  -- left to keep
  refine .cons (Rule.leads_deficit_nonneg t.one_le_deficit_of_mem_openers
    (hspares .scalerConstructor (by decide)) ?_) ?_
  · exact fun _ _ hm => deficit_replaceScaler_nonneg hm
  refine .cons (Rule.leads_same_deficit (by decide) (by decide) ?_) ?_
  · exact fun _ _ h => t.deficit_replaceArrayPair h
  refine .cons (Rule.leads_same_deficit (by decide) (by decide) ?_) ?_
  · exact fun _ _ h => t.deficit_replacePlainPair h
  refine .cons (Rule.leads_of_transform (fun _ hu => hu) ?_) .nil
  intro _ u hu
  exact (t.deficit_declareWindow u).symm ▸ hu

/-- **Balance.** A source without closing braces leads to a draft with no
closing brace too many. The body has the opening braces of the draft and as many
closing ones, the frame adds `k` pairs, and the output has as many closing
braces as opening ones. -/
theorem balanced_recast_output (t : Target) (ctx : Context) (source : Text)
    (h : closing ∉ source) :
    (t.draft ctx source).count closing ≤ (t.draft ctx source).count opening ∧
      (t.body ctx source).count opening = (t.draft ctx source).count opening ∧
      (t.body ctx source).count closing = (t.draft ctx source).count closing +
        ((t.draft ctx source).count opening -
          (t.draft ctx source).count closing) ∧
      (∃ k, (t.recast ctx source).output.count opening =
        (t.body ctx source).count opening + k ∧
        (t.recast ctx source).output.count closing =
          (t.body ctx source).count closing + k) ∧
      (t.recast ctx source).output.count opening =
        (t.recast ctx source).output.count closing := by
  have hdeficit : 0 ≤ deficit (t.draft ctx source) :=
    t.runLeads_draft ctx source h
  have hdraft : (t.draft ctx source).count closing ≤
      (t.draft ctx source).count opening := by
    rw [deficit] at hdeficit
    omega
  have hopen : (t.body ctx source).count opening =
      (t.draft ctx source).count opening := by
    rw [body_eq, count_opening_repair]
  have hclose : (t.body ctx source).count closing =
      (t.draft ctx source).count closing +
      ((t.draft ctx source).count opening -
        (t.draft ctx source).count closing) := by
    rw [body_eq, count_closing_repair, deficit]
    omega
  obtain ⟨k, hk⟩ := t.count_frame ctx (t.body ctx source)
  rw [← recast_output] at hk
  exact ⟨hdraft, hopen, hclose, ⟨k, hk⟩, by omega⟩

/-- A function with a typed parameter, a scaler and a brace that the source
leaves open. -/
theorem balanced_recast_output_scaler :
    closing ∉ ("def f(data):\n    s = MinMaxScaler()\n    g(\x7b" : Text) ∧
      (javascript.recast { functions := ["f"], libraries := [Library.sklearn] }
        "def f(data):\n    s = MinMaxScaler()\n    g(\x7b").output.count opening =
      (javascript.recast { functions := ["f"], libraries := [Library.sklearn] }
        "def f(data):\n    s = MinMaxScaler()\n    g(\x7b").output.count
          closing := by
  have hplain : closing ∉
      ("def f(data):\n    s = MinMaxScaler()\n    g(\x7b" : Text) := by
    simp [closing]
  exact ⟨hplain, (balanced_recast_output javascript _ _ hplain).2.2.2.2⟩

end Target

end Recast
