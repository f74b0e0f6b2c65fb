import Mathlib.Data.List.ModifyLast
import Recast.Proofs.Block.Deficit
import Recast.Proofs.Pattern.Separator
import Recast.Proofs.Rendering.GoHeader
import Recast.Proofs.Rule.Stages

/-!
# Returns that are added

A function of Go has to end with a return, and the rule `default_return` adds
one where it is missing. It looks at the text as a whole: it acts if no function
has a return, and then the last one gets it (`completed`). So each function has
a return in the end if there is only one, or if each had one before
(`all_return_after_default_return`).
-/

namespace Recast

open Pattern

namespace GoSignature

/-! ## Where a return stands -/

/-- Somewhere in the function stands a return. -/
def returns (u : GoSignature × Text) : Bool := (segment u).mentions "return"

/-- A word that `f` does not occur in stands in one of the functions, and not
across two. -/
theorem mentions_laidOut {s : Text} (hs : s ≠ [])
    (hf : s.any (· == 'f') = false) (us : List (GoSignature × Text)) :
    (laidOut us).mentions s = us.any fun u => (segment u).mentions s := by
  have hnil : Text.mentions [] s = false := List.isEmpty_eq_false_iff.mpr hs
  induction us with
  | nil => exact hnil
  | cons u us ih =>
      show (segment u ++ laidOut us).mentions s =
        ((segment u).mentions s || us.any fun u => (segment u).mentions s)
      rw [← ih]
      cases hrest : laidOut us with
      | nil => rw [List.append_nil, hnil, Bool.or_false]
      | cons c v =>
          obtain rfl : c = 'f' :=
            head?_laidOut us c (by rw [hrest, List.head?_cons]; rfl)
          have hnext : Text.mentions ('f' :: v) s =
              (Text.mentions [] s || Text.mentions v s) :=
            mentions_append_sep hs hf (c := 'f') rfl [] v
          rw [mentions_append_sep hs hf rfl, hnext, hnil, Bool.false_or]

theorem mentions_func {us : List (GoSignature × Text)} (hne : us ≠ []) :
    (laidOut us).mentions "func " = true := by
  obtain ⟨u, us, rfl⟩ := List.exists_cons_of_ne_nil hne
  have hopen : "func ".toList = "func".toList ++ " ".toList := by decide
  refine (Text.mentions_iff _ _).mpr (List.IsPrefix.isInfix ?_)
  rw [laidOut_cons, header_eq, hopen]
  simp only [List.append_assoc]
  rw [← List.append_assoc, ← List.append_assoc]
  exact List.prefix_append _ _

/-! ## What the rule does -/

/-- The line that is added. -/
def defaultReturn : Text :=
  "\n    return nil, nil, fmt.Errorf(\"function not implemented\")"

/-- The functions with a return added to the last one, if there is none in
any. -/
def completed (us : List (GoSignature × Text)) : List (GoSignature × Text) :=
  if us.any returns then us else us.modifyLast fun u =>
    (u.1, u.2.trimEnd ++ defaultReturn)

theorem addReturn_laidOut (us : List (GoSignature × Text))
    (u : GoSignature × Text) :
    Target.addReturn (laidOut (us ++ [u])) =
      laidOut (us ++ [(u.1, u.2.trimEnd ++ defaultReturn)]) := by
  obtain ⟨front, hbrace⟩ := u.1.exists_header_eq
  have hlast (b : Text) : laidOut (us ++ [(u.1, b)]) =
      (laidOut us ++ front) ++ Block.opening :: b := by
    simp [laidOut, segment, hbrace]
  show (laidOut (us ++ [(u.1, u.2)])).trimEnd ++ defaultReturn = _
  rw [hlast, hlast, Text.trimEnd_append_cons Block.isBlank_opening]
  simp

theorem headless_completed {us : List (GoSignature × Text)}
    (hus : ∀ u ∈ us, Headless u.2) :
    ∀ u ∈ completed us, Headless u.2 := by
  rw [completed]
  split
  · exact hus
  · rcases List.eq_nil_or_concat' us with rfl | ⟨us, v, rfl⟩
    · exact hus
    · rw [List.modifyLast_concat]
      intro u hu
      rcases List.mem_append.mp hu with hu | hu
      · exact hus u (List.mem_append_left _ hu)
      · obtain rfl := List.mem_singleton.mp hu
        obtain ⟨b, hb, -⟩ := Text.exists_trimEnd_append v.2
        have hv := hus v (by simp)
        exact (hv.of_infix ⟨[], b, hb.symm⟩).append (by decide)

theorem returns_add (s : GoSignature) (b : Text) :
    returns (s, b ++ defaultReturn) = true := by
  have hadded : defaultReturn = "\n    ".toList ++ ("return".toList ++
      " nil, nil, fmt.Errorf(\"function not implemented\")".toList) := by decide
  refine (Text.mentions_iff _ _).mpr
    ⟨s.header ++ (b ++ "\n    "),
      " nil, nil, fmt.Errorf(\"function not implemented\")", ?_⟩
  rw [segment, hadded]
  simp only [List.append_assoc]

/-- One function has a return in the end, and several have one each only if they
had it before. -/
theorem forall_completed_returns_iff {us : List (GoSignature × Text)}
    (hne : us ≠ []) :
    (∀ u ∈ completed us, returns u = true) ↔
      us.length = 1 ∨ ∀ u ∈ us, returns u = true := by
  obtain ⟨vs, v, rfl⟩ := (List.eq_nil_or_concat' us).resolve_left hne
  rw [completed]
  split
  · next hany =>
      refine ⟨Or.inr, ?_⟩
      rintro (hone | hall)
      · obtain rfl : vs = [] := by simpa using hone
        simpa using hany
      · exact hall
  · next hany =>
      rw [List.modifyLast_concat]
      cases vs with
      | nil => simp [returns_add]
      | cons w vs =>
          have hw : returns w ≠ true :=
            fun hw => hany (List.any_eq_true.mpr ⟨w, by simp, hw⟩)
          simp [hw]

/-- The rule that adds a return. -/
def returnRule : Rule :=
  { name := "default_return", gate := fun _ => Target.lacksReturn,
    transform := fun _ => Target.addReturn }

theorem returnRule_mem : returnRule ∈ Target.go.rules := by
  have hmem : returnRule ∈ Target.go.returnRules := List.mem_singleton.mpr rfl
  simp [Target.rules, hmem]

theorem apply_returnRule (ctx : Context) {us : List (GoSignature × Text)}
    (hne : us ≠ []) :
    returnRule.apply ctx (laidOut us) = laidOut (completed us) := by
  have hgate : returnRule.gate ctx (laidOut us) = !us.any returns := by
    show ((laidOut us).mentions "func " && !(laidOut us).mentions "return") =
      !us.any returns
    rw [mentions_func hne, mentions_laidOut (by decide) (by decide),
      Bool.true_and]
    rfl
  obtain ⟨vs, v, rfl⟩ := (List.eq_nil_or_concat' us).resolve_left hne
  rw [Rule.apply, hgate, completed]
  cases hany : (vs ++ [v]).any returns with
  | true => rfl
  | false =>
      rw [List.modifyLast_concat]
      exact addReturn_laidOut vs v

/-- **Added returns.** Take functions of Go one after the other, each a header
with text in which no other header occurs. After the rule `default_return` the
text is such a row of functions again, and however it is read as one, each
function has a return in it exactly if there is only one function or if each had
a return before. -/
theorem all_return_after_default_return (ctx : Context) {r : Rule}
    (hr : r ∈ Target.go.rules) (hname : r.name = "default_return".toList)
    {us : List (GoSignature × Text)} (hne : us ≠ [])
    (hus : ∀ u ∈ us, Headless u.2) :
    (∃ us', (∀ u ∈ us', Headless u.2) ∧
      r.apply ctx (laidOut us) = laidOut us') ∧
    ∀ us', (∀ u ∈ us', Headless u.2) → r.apply ctx (laidOut us) = laidOut us' →
      ((∀ u ∈ us', (segment u).mentions "return" = true) ↔
        us.length = 1 ∨ ∀ u ∈ us, (segment u).mentions "return" = true) := by
  obtain rfl : r = returnRule := Target.eq_of_name hr returnRule_mem hname
  rw [apply_returnRule ctx hne]
  refine ⟨⟨completed us, headless_completed hus, rfl⟩, ?_⟩
  intro us' hus' hlaidOut
  -- however the functions are read off, they are the same texts
  have hsegments := map_segment_unique (headless_completed hus) hus' hlaidOut
  have hforall (vs : List (GoSignature × Text)) :
      (∀ u ∈ vs, returns u = true) ↔
        ∀ t ∈ vs.map segment, t.mentions "return" = true :=
    (List.forall_mem_map (P := fun t => Text.mentions t "return" = true)).symm
  calc (∀ u ∈ us', returns u = true)
      ↔ ∀ t ∈ us'.map segment, t.mentions "return" = true := hforall us'
    _ ↔ ∀ t ∈ (completed us).map segment, t.mentions "return" = true := by
      rw [hsegments]
    _ ↔ ∀ u ∈ completed us, returns u = true := (hforall _).symm
    _ ↔ us.length = 1 ∨ ∀ u ∈ us, returns u = true :=
      forall_completed_returns_iff hne

/-- A function that is not the last, without a return, in front of one with a
return. -/
def early : List (GoSignature × Text) :=
  [(flush "f" [("a", .array)] (by decide) (by decide),
    "\n    fmt.Println(a)\n\n"),
   (flush "g" [("b", .array)] (by decide) (by decide),
     "\n    return b, b, nil // Success")]

theorem headless_early : ∀ u ∈ early, Headless u.2 := by
  intro u hu
  have hbraces : ∀ u ∈ early, Block.opening ∉ u.2 := by decide
  exact headless_of_opening_not_mem (hbraces u hu)

theorem all_return_after_default_return_one :
    returnRule ∈ Target.go.rules ∧ ∃ us', (∀ u ∈ us', Headless u.2) ∧
      returnRule.apply .empty (laidOut (early.take 1)) = laidOut us' ∧
      ∀ u ∈ us', (segment u).mentions "return" = true := by
  have hheadless : ∀ u ∈ early.take 1, Headless u.2 :=
    fun u hu => headless_early u (List.mem_of_mem_take hu)
  obtain ⟨⟨us', hus', h⟩, hreturns⟩ :=
    all_return_after_default_return .empty returnRule_mem rfl
      (by decide) hheadless
  exact ⟨returnRule_mem, us', hus', h, (hreturns us' hus' h).mpr (Or.inl rfl)⟩

/-- A return in the second function keeps the rule from adding one to the
first. -/
theorem early_return_missed :
    (∀ u ∈ early, Headless u.2) ∧ returnRule ∈ Target.go.rules ∧
      returnRule.apply .empty (laidOut early) = laidOut early ∧
      ∃ u ∈ early, (segment u).mentions "return" = false := by
  refine ⟨headless_early, returnRule_mem, ?_, ?_⟩
  · have hany : early.any returns = true := by decide
    rw [apply_returnRule .empty (by decide), completed, if_pos hany]
  · exact ⟨_, List.mem_cons_self, by decide⟩

end GoSignature

end Recast
