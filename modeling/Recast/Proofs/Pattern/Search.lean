import Recast.Proofs.Pattern.Joint

/-!
# Searching a text again and again

A search tries the places of a text one after the other and stops at the first
where the pattern matches, even if the match is empty. Searching again from
where the last match ended may never come to an end: after an empty match it
starts from the same place. A pattern that takes at least one character whenever
it matches (`solid`) leaves no empty match, so that nothing is lost by asking
for one character as `matchAt` does (`firstAt_eq_matchAt`).
-/

namespace Recast

namespace Span

/-- The span counted from a place `n` characters earlier. -/
def shift (n : Nat) (s : Span) : Span := ⟨n + s.start, n + s.stop⟩

/-- `s` starts and stops inside `outer`. -/
def Inside (s outer : Span) : Prop :=
  outer.start ≤ s.start ∧ s.start ≤ s.stop ∧ s.stop ≤ outer.stop

theorem Inside.mono {s a b : Span} (h : s.Inside a) (hstart : b.start ≤ a.start)
    (hstop : a.stop ≤ b.stop) :
    s.Inside b :=
  ⟨Nat.le_trans hstart h.1, h.2.1, Nat.le_trans h.2.2 hstop⟩

theorem Inside.shift {s a : Span} (h : s.Inside a) (n : Nat) :
    (s.shift n).Inside (a.shift n) :=
  ⟨Nat.add_le_add_left h.1 n, Nat.add_le_add_left h.2.1 n,
    Nat.add_le_add_left h.2.2 n⟩

/-- A span of a stretch covers the same text where the stretch stands. -/
theorem of_shift {s : Span} {t u rest : Text} {n : Nat}
    (ht : t.drop n = u ++ rest) (hs : s.Inside ⟨0, u.length⟩) :
    (s.shift n).of t = s.of u := by
  obtain ⟨-, hle, hstop⟩ := hs
  dsimp only at hstop
  have hdrop : t.drop (n + s.start) = u.drop s.start ++ rest := by
    rw [← List.drop_drop, ht,
      List.drop_append_of_le_length (Nat.le_trans hle hstop)]
  have hlength : n + s.stop - (n + s.start) ≤ (u.drop s.start).length := by
    rw [List.length_drop]
    omega
  simp only [of, shift, hdrop]
  rw [List.take_append_of_le_length hlength, Nat.add_sub_add_left]

end Span

namespace Pattern

/-! ## Definitions -/

/-- The match that is tried first at place `n` of `t`, empty or not. -/
def firstAt (p : Pattern) (t : Text) (n : Nat) : Option Match :=
  p.run ⟨0, Text.lastOr none (t.take n), t.drop n⟩ fun fin spans =>
    some ⟨(t.drop n).take fin.passed, spans⟩

/-- The first match at place `n` or later, with its place. -/
def search (p : Pattern) (t : Text) (n : Nat) : Option (Nat × Match) :=
  (List.range' n (t.length + 1 - n)).findSome? fun i =>
    (p.firstAt t i).map (i, ·)

/-- The stretch that a match covers. -/
def extent (o : Nat × Match) : Span := ⟨o.1, o.1 + o.2.text.length⟩

/-- What at most `k` searches find, the first from place `n` and each other from
the end of the last match. -/
def searches (p : Pattern) (t : Text) : (k n : Nat) → List (Nat × Match)
  | 0, _ => []
  | k + 1, n =>
    match p.search t n with
    | none => []
    | some o => o :: p.searches t k (extent o).stop

/-- Some reading starts at place `n` of `t`. -/
def StartsAt (p : Pattern) (t : Text) (n : Nat) : Prop :=
  ∃ u rest gs, t.drop n = u ++ rest ∧
    p.Reads (Text.lastOr none (t.take n)) u rest gs

/-! ## One place -/

theorem passed_le_of_mem_outcomes {p : Pattern} {here : Cursor}
    {o : Cursor × List (Option Span)} (h : o ∈ p.outcomes here) :
    here.passed ≤ o.1.passed := by
  obtain ⟨u, -, hpassed, -, -⟩ := reads_of_mem_outcomes h
  rw [hpassed]
  exact Nat.le_add_right _ _

/-- A group that took part lies between the places where the pattern starts and
ends. -/
theorem inside_of_mem_outcomes {p : Pattern} {here : Cursor}
    {o : Cursor × List (Option Span)} (h : o ∈ p.outcomes here) {s : Span}
    (hs : some s ∈ o.2) : s.Inside ⟨here.passed, o.1.passed⟩ := by
  induction p generalizing here o with
  | empty =>
      obtain rfl := List.mem_singleton.mp h
      exact absurd hs List.not_mem_nil
  | one ok =>
      simp only [outcomes] at h
      split at h
      · exact absurd h List.not_mem_nil
      · split at h
        · obtain rfl := List.mem_singleton.mp h
          exact absurd hs List.not_mem_nil
        · exact absurd h List.not_mem_nil
  | many preference ok =>
      obtain ⟨e, -, rfl⟩ := List.mem_map.mp h
      exact absurd hs List.not_mem_nil
  | anchor a =>
      simp only [outcomes] at h
      split at h
      · obtain rfl := List.mem_singleton.mp h
        exact absurd hs List.not_mem_nil
      · exact absurd h List.not_mem_nil
  | seq p q ihp ihq =>
      obtain ⟨o₁, h₁, hr⟩ := List.mem_flatMap.mp h
      obtain ⟨o₂, h₂, rfl⟩ := List.mem_map.mp hr
      have hp := passed_le_of_mem_outcomes h₁
      have hq := passed_le_of_mem_outcomes h₂
      rcases List.mem_append.mp hs with hs | hs
      · exact (ihp h₁ hs).mono (Nat.le_refl _) hq
      · exact (ihq h₂ hs).mono hp (Nat.le_refl _)
  | either p q ihp ihq =>
      -- the side that was not taken has only groups that took no part
      rcases List.mem_append.mp h with h | h
      · obtain ⟨o₁, h₁, rfl⟩ := List.mem_map.mp h
        rcases List.mem_append.mp hs with hs | hs
        · exact ihp (o := o₁) h₁ hs
        · exact absurd (List.eq_of_mem_replicate hs) (Option.some_ne_none s)
      · obtain ⟨o₁, h₁, rfl⟩ := List.mem_map.mp h
        rcases List.mem_append.mp hs with hs | hs
        · exact absurd (List.eq_of_mem_replicate hs) (Option.some_ne_none s)
        · exact ihq (o := o₁) h₁ hs
  | group p ih =>
      obtain ⟨o₁, h₁, rfl⟩ := List.mem_map.mp h
      rcases List.mem_cons.mp hs with hs | hs
      · obtain rfl := Option.some.inj hs
        exact ⟨Nat.le_refl _, passed_le_of_mem_outcomes h₁, Nat.le_refl _⟩
      · exact ih (o := o₁) h₁ hs

variable {p : Pattern} {t : Text} {n : Nat} {m : Match}

/-- The match that is tried first is the first way of matching. -/
theorem firstAt_eq_head? (p : Pattern) (t : Text) (n : Nat) :
    p.firstAt t n =
      (p.outcomes ⟨0, Text.lastOr none (t.take n), t.drop n⟩).head?.map
        fun o => ⟨(t.drop n).take o.1.passed, o.2⟩ := by
  rw [firstAt, run_eq_findSome?]
  cases p.outcomes ⟨0, Text.lastOr none (t.take n), t.drop n⟩ <;> rfl

theorem firstAt_eq_none_iff : p.firstAt t n = none ↔ ¬ p.StartsAt t n := by
  rw [firstAt_eq_head?, Option.map_eq_none_iff, List.head?_eq_none_iff,
    List.eq_nil_iff_forall_not_mem]
  constructor
  · rintro hnone ⟨u, rest, gs, ht, hread⟩
    obtain ⟨spans, hmem⟩ := mem_outcomes_of_reads hread 0
    rw [ht] at hnone
    exact hnone _ hmem
  · rintro hnot o ho
    obtain ⟨u, ht, -, -, hread⟩ := reads_of_mem_outcomes ho
    exact hnot ⟨u, _, _, ht, hread [] [] rfl⟩

/-- What is matched first stands at its place, with its groups inside. -/
theorem reads_of_firstAt (h : p.firstAt t n = some m) :
    (∃ rest, t.drop n = m.text ++ rest ∧
      p.Reads (Text.lastOr none (t.take n)) m.text rest m.groups) ∧
      ∀ s, some s ∈ m.spans → s.Inside ⟨0, m.text.length⟩ := by
  rw [firstAt_eq_head?] at h
  obtain ⟨o, ho, rfl⟩ := Option.map_eq_some_iff.mp h
  have hmem := List.mem_of_head? ho
  obtain ⟨hpassed, ht, hread⟩ := reads_take_of_mem_outcomes hmem
  refine ⟨⟨o.1.rest, ht, hread⟩, fun s hs => ?_⟩
  rw [← hpassed]
  exact inside_of_mem_outcomes hmem hs

/-- A pattern that takes at least one character is not held back by being asked
for one. -/
theorem firstAt_eq_matchAt (hp : p.solid = true) (t : Text) (n : Nat) :
    p.firstAt t n = p.matchAt (Text.lastOr none (t.take n)) (t.drop n) := by
  rw [firstAt, matchAt, run_eq_findSome?, run_eq_findSome?]
  cases hways : p.outcomes ⟨0, Text.lastOr none (t.take n), t.drop n⟩ with
  | nil => rfl
  | cons o os =>
      obtain ⟨hpassed, -, hread⟩ :=
        reads_take_of_mem_outcomes (hways ▸ List.mem_cons_self)
      have hne : o.1.passed ≠ 0 := fun hzero =>
        hread.ne_nil hp (List.length_eq_zero_iff.mp (hpassed.symm.trans hzero))
      rw [List.findSome?_cons, List.findSome?_cons, if_neg hne]

/-! ## One search -/

theorem search_eq_none
    (hnone : ∀ i, n ≤ i → i ≤ t.length → p.firstAt t i = none) :
    p.search t n = none := by
  rw [search, List.findSome?_eq_none_iff]
  intro i hi
  obtain ⟨hle, hlt⟩ := List.mem_range'_1.mp hi
  rw [hnone i hle (by omega), Option.map_none]

theorem search_eq_some {i : Nat} (hn : n ≤ i) (hi : i ≤ t.length)
    (hnone : ∀ j, n ≤ j → j < i → p.firstAt t j = none)
    (h : p.firstAt t i = some m) :
    p.search t n = some (i, m) := by
  -- the places that are tried, cut at `i`
  have hplaces : List.range' n (t.length + 1 - n) =
      List.range' n (i - n) ++ i :: List.range' (i + 1) (t.length - i) := by
    have hcount : t.length + 1 - n = (i - n) + (t.length - i + 1) := by omega
    rw [hcount, ← List.range'_append_1, Nat.add_sub_cancel' hn,
      List.range'_succ]
  rw [search, List.findSome?_eq_some_iff]
  refine ⟨_, i, _, hplaces, by rw [h, Option.map_some], fun j hj => ?_⟩
  obtain ⟨hle, hlt⟩ := List.mem_range'_1.mp hj
  rw [hnone j hle (by omega), Option.map_none]

/-- After an empty match the next search starts from the same place, and the
scan does not come to an end. -/
example : (blanks.searches "ab" 3 0).map extent = [⟨0, 0⟩, ⟨0, 0⟩, ⟨0, 0⟩] := by
    decide

end Pattern

end Recast
