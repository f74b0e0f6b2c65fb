import Recast.Proofs.Pattern.Division

/-!
# The reading that is taken

At one place a pattern may have many readings, and the matcher takes the first
that is tried. `Picks` says which one this is among those that let the rest of
the pattern match; what the rest asks for is a condition on the place that is
reached. A reading is picked piece by piece: a run of a class picks its longest
extent or its shortest for which the condition holds, and a row of patterns
picks in its first part for the sake of the others (`Picks.append`). What a
whole pattern picks is the match (`Picks.matchAt_eq`).
-/

namespace Recast

namespace Pattern

/-! ## Definitions -/

/-- Some reading at the start of `t` leads to a place where `k` holds. -/
def Reaches (p : Pattern) (k : Option Char → Text → Prop) (before : Option Char)
    (t : Text) : Prop :=
  ∃ u rest gs, t = u ++ rest ∧ p.Reads before u rest gs ∧
    k (Text.lastOr before u) rest

/-- Of the readings that lead to a place where `k` holds, the one of `u` with
the groups `gs` is tried first. -/
def Picks (p : Pattern) (k : Option Char → Text → Prop) (before : Option Char)
    (u rest : Text) (gs : List (Option Text)) : Prop :=
  k (Text.lastOr before u) rest ∧
  ∀ passed, ∃ spans earlier later,
    p.outcomes ⟨passed, before, u ++ rest⟩ =
      earlier ++
        (⟨passed + u.length, Text.lastOr before u, rest⟩, spans) :: later ∧
    (∀ o ∈ earlier, ¬ k o.1.before o.1.rest) ∧
    ∀ pre post : Text, pre.length = passed →
      spans.map (·.map (·.of (pre ++ (u ++ post)))) = gs

variable {p q r : Pattern} {k : Option Char → Text → Prop}
    {before : Option Char} {u v rest : Text}
  {gs hs : List (Option Text)}

/-! ## What is picked -/

theorem reaches_of_mem_outcomes {here : Cursor}
    {o : Cursor × List (Option Span)} (h : o ∈ p.outcomes here)
    (hk : k o.1.before o.1.rest) : p.Reaches k here.before here.rest := by
  obtain ⟨u, hrest, -, hbefore, hread⟩ := reads_of_mem_outcomes h
  have hpre : (List.replicate here.passed ' ').length = here.passed :=
    List.length_replicate
  exact ⟨u, o.1.rest, _, hrest, hread _ [] hpre, hbefore ▸ hk⟩

theorem Picks.reaches (h : p.Picks k before u rest gs) :
    p.Reaches k before (u ++ rest) := by
  obtain ⟨hk, hfirst⟩ := h
  obtain ⟨spans, earlier, later, heq, -, -⟩ := hfirst 0
  have hmem : (⟨0 + u.length, Text.lastOr before u, rest⟩, spans) ∈
      p.outcomes ⟨0, before, u ++ rest⟩ := by
    rw [heq]
    exact List.mem_append_right _ List.mem_cons_self
  exact reaches_of_mem_outcomes hmem hk

/-- What a row reaches, its first part reaches for the sake of the second. -/
theorem Reaches.of_append {t : Text} (h : (p ++ q).Reaches k before t) :
    p.Reaches (q.Reaches k) before t := by
  obtain ⟨u, rest, gs, rfl, hread, hk⟩ := h
  obtain ⟨v, w, gs, hs, rfl, rfl, hv, hw⟩ := reads_seq_iff.mp hread
  rw [Text.lastOr_append] at hk
  exact ⟨v, w ++ rest, gs, List.append_assoc .., hv, w, rest, hs, rfl, hw, hk⟩

theorem Reaches.literal_prefix {s t : Text}
    (h : (literal s).Reaches k before t) : s <+: t := by
  obtain ⟨u, rest, gs, rfl, hread, -⟩ := h
  obtain ⟨rfl, -⟩ := reads_literal_iff.mp hread
  exact List.prefix_append _ _

/-- What is picked without further conditions is the match, if it takes a
character. -/
theorem Picks.matchAt_eq (h : p.Picks (fun _ _ => True) before u rest gs)
    (hu : u ≠ []) :
    ∃ m, p.matchAt before (u ++ rest) = some m ∧ m.text = u ∧
      m.groups = gs := by
  obtain ⟨-, hfirst⟩ := h
  obtain ⟨spans, earlier, later, heq, hearlier, hspans⟩ := hfirst 0
  have hnil : earlier = [] := by
    cases earlier with
    | nil => rfl
    | cons o earlier => exact absurd trivial (hearlier o List.mem_cons_self)
  have hlength : u.length ≠ 0 := fun h => hu (List.length_eq_zero_iff.mp h)
  refine ⟨⟨u, spans⟩, ?_, rfl, ?_⟩
  · rw [matchAt, run_eq_findSome?, heq, hnil, List.nil_append,
      List.findSome?_cons]
    simp [hlength]
  · have hgroups := hspans [] [] rfl
    rw [List.nil_append, List.append_nil] at hgroups
    exact hgroups

/-- What is picked at a place is the piece that the scan takes there. -/
theorem Picks.divides_append (h : p.Picks (fun _ _ => True) before u rest gs)
    (hu : u ≠ []) {ss : List Segment}
    (tail : p.Divides (Text.lastOr before u) rest ss) :
    ∃ m, m.text = u ∧ m.groups = gs ∧
      p.Divides before (u ++ rest) (.hit m :: ss) := by
  obtain ⟨m, hm, rfl, hgroups⟩ := h.matchAt_eq hu
  obtain ⟨rest', ht, -, hread⟩ := matchAt_reads hm
  obtain rfl := List.append_cancel_left ht
  exact ⟨m, rfl, hgroups, .hit hm hread tail⟩

theorem Picks.substituteFrom_append
    (h : p.Picks (fun _ _ => True) before u rest gs) (hu : u ≠ [])
    (f : Match → Text) : ∃ m, m.groups = gs ∧
      p.substituteFrom f before (u ++ rest) =
        f m ++ p.substituteFrom f (Text.lastOr before u) rest := by
  obtain ⟨m, -, hgroups, hdivides⟩ :=
    h.divides_append hu (p.divides_segmentsFrom _ rest)
  exact ⟨m, hgroups, hdivides.substituteFrom_eq⟩

/-- A text that is picked whole is replaced whole. -/
theorem Picks.substitute_eq (h : p.Picks (fun _ _ => True) none u [] gs)
    (hu : u ≠ []) (f : Match → Text) :
    ∃ m, m.groups = gs ∧ p.substitute f u = f m := by
  obtain ⟨m, hgroups, hm⟩ := h.substituteFrom_append hu f
  rw [List.append_nil] at hm
  exact ⟨m, hgroups, hm.trans (List.append_nil _)⟩

/-! ## Single pieces -/

theorem not_reaches_one {ok : Char → Bool} {t : Text}
    (h : t.head?.any ok = false) :
    ¬ (one ok).Reaches k before t := by
  rintro ⟨u, rest, gs, rfl, hread, -⟩
  obtain ⟨c, hc, rfl, -⟩ := reads_one_iff.mp hread
  simp [hc] at h

theorem picks_empty (hk : k before rest) : empty.Picks k before [] rest [] :=
  ⟨hk, fun _ => ⟨[], [], [], rfl, by simp, fun _ _ _ => rfl⟩⟩

theorem picks_one {ok : Char → Bool} {c : Char} (hc : ok c = true)
    (hk : k (some c) rest) :
    (one ok).Picks k before [c] rest [] :=
  ⟨hk, fun _ => ⟨[], [], [], by simp [outcomes, hc], by simp, fun _ _ _ => rfl⟩⟩

theorem picks_anchor {a : Anchor} (ha : a.holds before rest = true)
    (hk : k before rest) :
    (anchor a).Picks k before [] rest [] :=
  ⟨hk, fun _ => ⟨[], [], [], by simp [outcomes, ha], by simp, fun _ _ _ => rfl⟩⟩

/-! ## Runs -/

/-- The ends of a run from a place on: the ones further on come first, and the
place itself is the last. -/
theorem manyEnds_longest_eq (ok : Char → Bool) (passed : Nat)
    (before : Option Char) (t : Text) :
    ∃ longer, manyEnds .longest ok passed before t =
      longer ++ [⟨passed, before, t⟩] ∧
      ∀ o ∈ longer, ∃ v rest, v ≠ [] ∧ t = v ++ rest ∧ (∀ c ∈ v, ok c = true) ∧
        o = ⟨passed + v.length, Text.lastOr before v, rest⟩ := by
  cases t with
  | nil => exact ⟨[], rfl, by simp⟩
  | cons c cs =>
      by_cases hc : ok c = true
      · refine ⟨manyEnds .longest ok (passed + 1) (some c) cs,
          by simp [manyEnds, hc], ?_⟩
        intro o ho
        obtain ⟨v, rest, rfl, hv, rfl⟩ := mem_manyEnds_iff.mp ho
        refine ⟨c :: v, rest, by simp, rfl, by simpa [hc] using hv, ?_⟩
        simp only [List.length_cons, Text.lastOr_cons, Nat.add_assoc,
          Nat.add_comm 1]
      · exact ⟨[], by simp [manyEnds, hc], by simp⟩

theorem manyEnds_longest_append {ok : Char → Bool} (hu : ∀ c ∈ u, ok c = true)
    (passed : Nat) (before : Option Char) (t : Text) :
    ∃ shorter, manyEnds .longest ok passed before (u ++ t) =
      manyEnds .longest ok (passed + u.length) (Text.lastOr before u) t ++
      shorter := by
  induction u generalizing passed before with
  | nil => exact ⟨[], by simp⟩
  | cons c u ih =>
      obtain ⟨hc, hu⟩ := List.forall_mem_cons.mp hu
      obtain ⟨shorter, h⟩ := ih hu (passed + 1) (some c)
      refine ⟨shorter ++ [⟨passed, before, c :: (u ++ t)⟩], ?_⟩
      rw [List.cons_append, manyEnds, if_pos hc, h, List.length_cons,
        Text.lastOr_cons, List.append_assoc, Nat.add_assoc, Nat.add_comm 1]

/-- A run that prefers its longest extent picks one that cannot be extended to
another that will do. -/
theorem picks_longest {ok : Char → Bool} (hu : ∀ c ∈ u, ok c = true)
    (hk : k (Text.lastOr before u) rest)
    (hlonger : ∀ v t, v ≠ [] → rest = v ++ t → (∀ c ∈ v, ok c = true) →
      ¬ k (Text.lastOr before (u ++ v)) t) :
    (many .longest ok).Picks k before u rest [] := by
  refine ⟨hk, fun passed => ?_⟩
  obtain ⟨shorter, happend⟩ := manyEnds_longest_append hu passed before rest
  obtain ⟨longer, hends, hmem⟩ := manyEnds_longest_eq ok (passed + u.length)
    (Text.lastOr before u) rest
  refine ⟨[], longer.map (·, []), shorter.map (·, []), ?_, ?_, fun _ _ _ => rfl⟩
  · simp [outcomes, happend, hends]
  · intro o ho
    obtain ⟨e, he, rfl⟩ := List.mem_map.mp ho
    obtain ⟨v, t, hne, hrest, hv, rfl⟩ := hmem e he
    rw [← Text.lastOr_append]
    exact hlonger v t hne hrest hv

theorem manyEnds_shortest_append {ok : Char → Bool} (hu : ∀ c ∈ u, ok c = true)
    (passed : Nat) (before : Option Char) (t : Text) :
    ∃ shorter later, manyEnds .shortest ok passed before (u ++ t) =
        shorter ++ ⟨passed + u.length, Text.lastOr before u, t⟩ :: later ∧
      ∀ o ∈ shorter, ∃ v w, w ≠ [] ∧ u = v ++ w ∧
        o = ⟨passed + v.length, Text.lastOr before v, w ++ t⟩ := by
  induction u generalizing passed before with
  | nil =>
      cases t with
      | nil => exact ⟨[], [], rfl, by simp⟩
      | cons c cs =>
          by_cases hc : ok c = true
          · exact ⟨[], manyEnds .shortest ok (passed + 1) (some c) cs,
              by simp [manyEnds, hc], by simp⟩
          · exact ⟨[], [], by simp [manyEnds, hc], by simp⟩
  | cons c u ih =>
      obtain ⟨hc, hu⟩ := List.forall_mem_cons.mp hu
      obtain ⟨shorter, later, heq, hmem⟩ := ih hu (passed + 1) (some c)
      refine ⟨⟨passed, before, c :: (u ++ t)⟩ :: shorter, later, ?_, ?_⟩
      · rw [List.cons_append, manyEnds, if_pos hc, heq, List.length_cons,
          Text.lastOr_cons, Nat.add_assoc, Nat.add_comm 1]
        rfl
      · intro o ho
        rcases List.mem_cons.mp ho with rfl | ho
        · exact ⟨[], c :: u, by simp, rfl, rfl⟩
        · obtain ⟨v, w, hw, rfl, rfl⟩ := hmem o ho
          refine ⟨c :: v, w, hw, rfl, ?_⟩
          simp only [List.length_cons, Text.lastOr_cons, Nat.add_assoc,
            Nat.add_comm 1]

/-- A run that prefers its shortest extent picks one that has no shorter one
that will do. -/
theorem picks_shortest {ok : Char → Bool} (hu : ∀ c ∈ u, ok c = true)
    (hk : k (Text.lastOr before u) rest)
    (hshorter : ∀ v w, w ≠ [] → u = v ++ w →
      ¬ k (Text.lastOr before v) (w ++ rest)) :
    (many .shortest ok).Picks k before u rest [] := by
  refine ⟨hk, fun passed => ?_⟩
  obtain ⟨shorter, later, hends, hmem⟩ :=
    manyEnds_shortest_append hu passed before rest
  refine ⟨[], shorter.map (·, []), later.map (·, []), ?_, ?_, fun _ _ _ => rfl⟩
  · simp [outcomes, hends]
  · intro o ho
    obtain ⟨e, he, rfl⟩ := List.mem_map.mp ho
    obtain ⟨v, w, hne, hu, rfl⟩ := hmem e he
    exact hshorter v w hne hu

/-! ## Composed patterns -/

/-- A row picks in its first part what lets the second match, and goes on from
there. -/
theorem Picks.append (hp : p.Picks (q.Reaches k) before u (v ++ rest) gs)
    (hq : q.Picks k (Text.lastOr before u) v rest hs) :
    (p ++ q).Picks k before (u ++ v) rest (gs ++ hs) := by
  refine ⟨by simpa using hq.1, fun passed => ?_⟩
  obtain ⟨spans, earlier, later, heq, hearlier, hspans⟩ := hp.2 passed
  obtain ⟨spans', earlier', later', heq', hearlier', hspans'⟩ :=
    hq.2 (passed + u.length)
  -- the ways that come first lead nowhere: those of `p` before `u`, and after
  -- `u` those of `q` before `v`
  refine ⟨spans ++ spans',
    earlier.flatMap (fun o => (q.outcomes o.1).map fun r =>
      (r.1, o.2 ++ r.2)) ++ earlier'.map (fun r => (r.1, spans ++ r.2)),
    later'.map (fun r => (r.1, spans ++ r.2)) ++
    later.flatMap (fun o => (q.outcomes o.1).map fun r => (r.1, o.2 ++ r.2)),
    ?_, ?_, ?_⟩
  · show (p.outcomes _).flatMap (fun o => (q.outcomes o.1).map fun r =>
      (r.1, o.2 ++ r.2)) = _
    rw [List.append_assoc u, heq, List.flatMap_append, List.flatMap_cons, heq']
    simp [Nat.add_assoc]
  · intro o ho
    rcases List.mem_append.mp ho with ho | ho
    · obtain ⟨e, he, ho⟩ := List.mem_flatMap.mp ho
      obtain ⟨r, hr, rfl⟩ := List.mem_map.mp ho
      exact fun hk => hearlier e he (reaches_of_mem_outcomes hr hk)
    · obtain ⟨r, hr, rfl⟩ := List.mem_map.mp ho
      exact hearlier' r hr
  · intro pre post hpre
    have hleft := hspans pre (v ++ post) hpre
    have hright := hspans' (pre ++ u) post (by simp [hpre])
    rw [List.map_append]
    congr 1
    · rw [← hleft]
      simp
    · rw [← hright]
      simp

theorem Picks.group (h : p.Picks k before u rest gs) :
    (group p).Picks k before u rest (some u :: gs) := by
  refine ⟨h.1, fun passed => ?_⟩
  obtain ⟨spans, earlier, later, heq, hearlier, hspans⟩ := h.2 passed
  let mark := fun o : Cursor × List (Option Span) =>
    (o.1, some ⟨passed, o.1.passed⟩ :: o.2)
  refine ⟨some ⟨passed, passed + u.length⟩ :: spans, earlier.map mark,
    later.map mark, ?_, ?_, ?_⟩
  · simp [outcomes, heq, mark]
  · intro o ho
    obtain ⟨e, he, rfl⟩ := List.mem_map.mp ho
    exact hearlier e he
  · intro pre post hpre
    rw [List.map_cons, hspans pre post hpre, ← hpre]
    simp [Span.of_middle]

theorem Picks.left (h : p.Picks k before u rest gs) :
    (either p q).Picks k before u rest
      (gs ++ List.replicate q.groupCount none) := by
  refine ⟨h.1, fun passed => ?_⟩
  obtain ⟨spans, earlier, later, heq, hearlier, hspans⟩ := h.2 passed
  let pad := fun o : Cursor × List (Option Span) =>
    (o.1, o.2 ++ List.replicate q.groupCount none)
  refine ⟨spans ++ List.replicate q.groupCount none, earlier.map pad,
    later.map pad ++ (q.outcomes ⟨passed, before, u ++ rest⟩).map (fun o =>
      (o.1, List.replicate p.groupCount none ++ o.2)),
    ?_, ?_, ?_⟩
  · simp [outcomes, heq, pad]
  · intro o ho
    obtain ⟨e, he, rfl⟩ := List.mem_map.mp ho
    exact hearlier e he
  · intro pre post hpre
    simp [hspans pre post hpre]

/-- An alternative picks its right side where nothing on the left will do. -/
theorem Picks.right (hp : ¬ p.Reaches k before (u ++ rest))
    (h : q.Picks k before u rest gs) :
    (either p q).Picks k before u rest
      (List.replicate p.groupCount none ++ gs) := by
  refine ⟨h.1, fun passed => ?_⟩
  obtain ⟨spans, earlier, later, heq, hearlier, hspans⟩ := h.2 passed
  let pad := fun o : Cursor × List (Option Span) =>
    (o.1, List.replicate p.groupCount none ++ o.2)
  refine ⟨List.replicate p.groupCount none ++ spans,
    (p.outcomes ⟨passed, before, u ++ rest⟩).map (fun o =>
      (o.1, o.2 ++ List.replicate q.groupCount none)) ++ earlier.map pad,
    later.map pad, ?_, ?_, ?_⟩
  · simp [outcomes, heq, pad]
  · intro o ho
    rcases List.mem_append.mp ho with ho | ho
    · obtain ⟨e, he, rfl⟩ := List.mem_map.mp ho
      exact fun hk => hp (reaches_of_mem_outcomes he hk)
    · obtain ⟨e, he, rfl⟩ := List.mem_map.mp ho
      exact hearlier e he
  · intro pre post hpre
    simp [hspans pre post hpre]

theorem picks_optional (h : p.Picks k before u rest gs) :
    (optional p).Picks k before u rest gs := by
  simpa [groupCount, optional] using Picks.left (q := empty) h

theorem picks_optional_none (hp : ¬ p.Reaches k before rest)
    (hk : k before rest) :
    (optional p).Picks k before [] rest (List.replicate p.groupCount none) := by
  simpa [optional] using Picks.right (u := []) hp (picks_empty hk)

/-! ## Rows

As for readings, these lemmas build what a row picks from left to right, after
`picks_append_assoc`. -/

section Rows

theorem outcomes_append_assoc (p q r : Pattern) (here : Cursor) :
    (p ++ q ++ r).outcomes here = (p ++ (q ++ r)).outcomes here := by
  show (seq (seq p q) r).outcomes here = (seq p (seq q r)).outcomes here
  simp only [outcomes, List.flatMap_assoc, List.flatMap_map, List.map_flatMap,
    List.map_map, Function.comp_def, List.append_assoc]

theorem picks_append_assoc :
    (p ++ q ++ r).Picks k before u rest gs ↔
      (p ++ (q ++ r)).Picks k before u rest gs := by
  simp only [Picks, outcomes_append_assoc]

theorem picks_literal {s : Text} (hk : k (Text.lastOr before s) rest) :
    (literal s).Picks k before s rest [] := by
  induction s generalizing before with
  | nil => exact picks_empty hk
  | cons c s ih =>
      have htail := ih hk
      exact Picks.append (u := [c]) (picks_one (by simp) htail.reaches) htail

theorem Picks.anchor_append {a : Anchor}
    (ha : a.holds before (v ++ rest) = true) (hq : q.Picks k before v rest hs) :
    (anchor a ++ q).Picks k before v rest hs :=
  Picks.append (u := []) (picks_anchor ha hq.reaches) hq

theorem Picks.literal_append {s : Text}
    (hq : q.Picks k (Text.lastOr before s) v rest hs) :
    (literal s ++ q).Picks k before (s ++ v) rest hs :=
  Picks.append (picks_literal hq.reaches) hq

theorem Picks.group_append (hp : p.Picks (q.Reaches k) before u (v ++ rest) gs)
    (hq : q.Picks k (Text.lastOr before u) v rest hs) :
    (Pattern.group p ++ q).Picks k before (u ++ v) rest
      (some u :: (gs ++ hs)) :=
  Picks.append (Picks.group hp) hq

theorem Picks.optional_append
    (hp : p.Picks (q.Reaches k) before u (v ++ rest) gs)
    (hq : q.Picks k (Text.lastOr before u) v rest hs) :
    (optional p ++ q).Picks k before (u ++ v) rest (gs ++ hs) :=
  Picks.append (picks_optional hp) hq

theorem Picks.skip_append (hp : ¬ p.Reaches (q.Reaches k) before (v ++ rest))
    (hq : q.Picks k before v rest hs) :
    (optional p ++ q).Picks k before v rest
      (List.replicate p.groupCount none ++ hs) :=
  Picks.append (u := []) (picks_optional_none hp hq.reaches) hq

variable {ok : Char → Bool}

/-- A run that goes up to a character outside its class is picked whole. -/
theorem picks_run (hu : ∀ c ∈ u, ok c = true)
    (hstop : rest.head?.any ok = false) (hk : k (Text.lastOr before u) rest) :
    (many .longest ok).Picks k before u rest [] := by
  apply picks_longest hu hk
  rintro (_ | ⟨c, v⟩) t hne rfl hv
  · exact absurd rfl hne
  · have hc : ok c = false := by simpa using hstop
    rw [hv c List.mem_cons_self] at hc
    exact Bool.noConfusion hc

theorem picks_run1 (hne : u ≠ []) (hu : ∀ c ∈ u, ok c = true)
    (hstop : rest.head?.any ok = false) (hk : k (Text.lastOr before u) rest) :
    (many1 ok).Picks k before u rest [] := by
  obtain ⟨c, w, rfl⟩ := List.exists_cons_of_ne_nil hne
  obtain ⟨hc, hw⟩ := List.forall_mem_cons.mp hu
  have htail : (many .longest ok).Picks k (some c) w rest [] :=
    picks_run hw hstop hk
  exact Picks.append (u := [c]) (picks_one hc htail.reaches) htail

theorem Picks.run_append (hu : ∀ c ∈ u, ok c = true)
    (hstop : (v ++ rest).head?.any ok = false)
    (hq : q.Picks k (Text.lastOr before u) v rest hs) :
    (many .longest ok ++ q).Picks k before (u ++ v) rest hs :=
  Picks.append (picks_run hu hstop hq.reaches) hq

theorem Picks.run1_append (hne : u ≠ []) (hu : ∀ c ∈ u, ok c = true)
    (hstop : (v ++ rest).head?.any ok = false)
    (hq : q.Picks k (Text.lastOr before u) v rest hs) :
    (many1 ok ++ q).Picks k before (u ++ v) rest hs :=
  Picks.append (picks_run1 hne hu hstop hq.reaches) hq

theorem Picks.group_run_append (hu : ∀ c ∈ u, ok c = true)
    (hstop : (v ++ rest).head?.any ok = false)
    (hq : q.Picks k (Text.lastOr before u) v rest hs) :
    (Pattern.group (many .longest ok) ++ q).Picks k before (u ++ v) rest
      (some u :: hs) :=
  Picks.group_append (picks_run hu hstop hq.reaches) hq

theorem Picks.group_run1_append (hne : u ≠ []) (hu : ∀ c ∈ u, ok c = true)
    (hstop : (v ++ rest).head?.any ok = false)
    (hq : q.Picks k (Text.lastOr before u) v rest hs) :
    (Pattern.group (many1 ok) ++ q).Picks k before (u ++ v) rest
      (some u :: hs) :=
  Picks.group_append (picks_run1 hne hu hstop hq.reaches) hq

/-- A run that prefers its shortest extent ends at the first place from where
the rest of the row matches. -/
theorem Picks.group_shortest_append (hu : ∀ c ∈ u, ok c = true)
    (hfirst : ∀ x w, w ≠ [] → u = x ++ w →
      ¬ q.Reaches k (Text.lastOr before x) (w ++ (v ++ rest)))
    (hq : q.Picks k (Text.lastOr before u) v rest hs) :
    (Pattern.group (many .shortest ok) ++ q).Picks k before (u ++ v) rest
      (some u :: hs) :=
  Picks.group_append (picks_shortest hu hq.reaches hfirst) hq

end Rows

end Pattern

end Recast
