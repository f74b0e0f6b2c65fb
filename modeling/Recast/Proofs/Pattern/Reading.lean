import Recast.Pattern.Outcomes
import Recast.Pattern.Scan

/-!
# Readings of a pattern

A reading says that a pattern can take a stretch of text between the character
before it and the text after it, and what its groups then hold. Readings know
nothing of preference or of places in the text. The matcher is sound for them
(`matchAt_reads`), and it finds a match wherever there is a reading that takes
at least one character (`isSome_matchAt_iff`, `foundIn_iff`).
-/

namespace Recast

namespace Text

/-- The character before the place that is reached after `t`. -/
def lastOr (before : Option Char) : Text → Option Char
  | [] => before
  | c :: cs => lastOr (some c) cs

@[simp] theorem lastOr_nil (before : Option Char) : lastOr before [] = before :=
  rfl

@[simp] theorem lastOr_cons (before : Option Char) (c : Char) (cs : Text) :
    lastOr before (c :: cs) = lastOr (some c) cs := rfl

@[simp] theorem lastOr_append (before : Option Char) (u v : Text) :
    lastOr before (u ++ v) = lastOr (lastOr before u) v := by
  induction u generalizing before with
  | nil => rfl
  | cons c cs ih => exact ih (some c)

end Text

theorem Span.of_middle (pre u post : Text) :
    (Span.mk pre.length (pre.length + u.length)).of (pre ++ (u ++ post)) = u := by
  simp [Span.of]

namespace Pattern

/-- `p.Reads before u rest gs`: between `before` and `rest`, the pattern can
take `u` with the groups `gs`. -/
inductive Reads : Pattern → Option Char → Text → Text →
    List (Option Text) → Prop where
  | empty {before rest} : Reads empty before [] rest []
  | one {ok c before rest} (h : ok c = true) : Reads (one ok) before [c] rest []
  | many {preference ok u before rest} (h : ∀ c ∈ u, ok c = true) :
      Reads (many preference ok) before u rest []
  | anchor {a before rest} (h : a.holds before rest = true) :
    Reads (anchor a) before [] rest []
  | seq {p q before u v rest gs hs} (hp : Reads p before u (v ++ rest) gs)
      (hq : Reads q (Text.lastOr before u) v rest hs) :
      Reads (seq p q) before (u ++ v) rest (gs ++ hs)
  | left {p q before u rest gs} (hp : Reads p before u rest gs) :
      Reads (either p q) before u rest (gs ++ List.replicate q.groupCount none)
  | right {p q before u rest gs} (hq : Reads q before u rest gs) :
      Reads (either p q) before u rest (List.replicate p.groupCount none ++ gs)
  | group {p before u rest gs} (hp : Reads p before u rest gs) :
      Reads (group p) before u rest (some u :: gs)

/-! ## The matcher and readings -/

/-- The ends of a run are the places after a stretch of its characters. -/
theorem mem_manyEnds_iff {preference : Preference} {ok : Char → Bool}
    {passed : Nat} {before : Option Char} {t : Text} {o : Cursor} :
    o ∈ manyEnds preference ok passed before t ↔
      ∃ u rest, t = u ++ rest ∧ (∀ c ∈ u, ok c = true) ∧
        o = ⟨passed + u.length, Text.lastOr before u, rest⟩ := by
  induction t generalizing passed before with
  | nil =>
      simp only [manyEnds, List.mem_singleton]
      constructor
      · rintro rfl
        exact ⟨[], [], rfl, by simp, rfl⟩
      · rintro ⟨u, rest, h, -, rfl⟩
        obtain ⟨rfl, rfl⟩ := List.append_eq_nil_iff.mp h.symm
        rfl
  | cons c cs ih =>
      -- an end lies here, or, if the class has `c`, after `c`
      have step : o ∈ manyEnds preference ok passed before (c :: cs) ↔
          o = ⟨passed, before, c :: cs⟩ ∨
            (ok c = true ∧
              o ∈ manyEnds preference ok (passed + 1) (some c) cs) := by
        by_cases h : ok c
        · cases preference with
          | longest => simp [manyEnds, h, or_comm]
          | shortest => simp [manyEnds, h]
        · simp [manyEnds, h]
      rw [step, ih]
      constructor
      · rintro (rfl | ⟨hc, u, rest, rfl, hu, rfl⟩)
        · exact ⟨[], c :: cs, rfl, by simp, rfl⟩
        · refine ⟨c :: u, rest, rfl, by simpa [hc] using hu, ?_⟩
          simp only [List.length_cons, Text.lastOr_cons, Nat.add_assoc,
            Nat.add_comm 1]
      · rintro ⟨u, rest, h, hu, rfl⟩
        cases u with
        | nil => exact Or.inl (by rw [h]; rfl)
        | cons d u =>
            obtain ⟨rfl, rfl⟩ := List.cons.inj h
            refine Or.inr ⟨hu c (by simp), u, rest, rfl,
              fun d hd => hu d (by simp [hd]), ?_⟩
            simp only [List.length_cons, Text.lastOr_cons, Nat.add_assoc,
              Nat.add_comm 1]

/-- Every way of matching is a reading. The extents of the groups are read off a
text in which the match stands at its place. -/
theorem reads_of_mem_outcomes {p : Pattern} {here : Cursor}
    {o : Cursor × List (Option Span)} (h : o ∈ p.outcomes here) :
    ∃ u, here.rest = u ++ o.1.rest ∧ o.1.passed = here.passed + u.length ∧
      o.1.before = Text.lastOr here.before u ∧
      ∀ pre post : Text, pre.length = here.passed →
        p.Reads here.before u o.1.rest
          (o.2.map (·.map (·.of (pre ++ (u ++ post))))) := by
  induction p generalizing here o with
  | empty =>
      obtain rfl := List.mem_singleton.mp h
      exact ⟨[], rfl, rfl, rfl, fun _ _ _ => .empty⟩
  | one ok =>
      simp only [outcomes] at h
      split at h
      · simp at h
      · rename_i c cs hrest
        split at h
        · rename_i hc
          obtain rfl := List.mem_singleton.mp h
          exact ⟨[c], hrest, rfl, rfl, fun _ _ _ => .one hc⟩
        · simp at h
  | many preference ok =>
      obtain ⟨e, he, rfl⟩ := List.mem_map.mp h
      obtain ⟨u, rest, hrest, hu, rfl⟩ := mem_manyEnds_iff.mp he
      exact ⟨u, hrest, rfl, rfl, fun _ _ _ => .many hu⟩
  | anchor a =>
      simp only [outcomes] at h
      split at h
      · rename_i ha
        obtain rfl := List.mem_singleton.mp h
        exact ⟨[], rfl, rfl, rfl, fun _ _ _ => .anchor ha⟩
      · simp at h
  | seq p q ihp ihq =>
      obtain ⟨o₁, h₁, hr⟩ := List.mem_flatMap.mp h
      obtain ⟨o₂, h₂, rfl⟩ := List.mem_map.mp hr
      obtain ⟨u, hu, hup, hub, hreadp⟩ := ihp h₁
      obtain ⟨v, hv, hvp, hvb, hreadq⟩ := ihq h₂
      refine ⟨u ++ v, by simp [hu, hv], by simp [hup, hvp, Nat.add_assoc],
        by simp [hub, hvb], ?_⟩
      intro pre post hpre
      have hp := hreadp pre (v ++ post) hpre
      have hq := hreadq (pre ++ u) post (by simp [hpre, hup])
      rw [hub] at hq
      rw [hv] at hp
      simpa [List.append_assoc] using Reads.seq hp hq
  | either p q ihp ihq =>
      rcases List.mem_append.mp h with h | h
      · obtain ⟨o₁, h₁, rfl⟩ := List.mem_map.mp h
        obtain ⟨u, hu, hup, hub, hread⟩ := ihp h₁
        refine ⟨u, hu, hup, hub, fun pre post hpre => ?_⟩
        simpa using Reads.left (q := q) (hread pre post hpre)
      · obtain ⟨o₁, h₁, rfl⟩ := List.mem_map.mp h
        obtain ⟨u, hu, hup, hub, hread⟩ := ihq h₁
        refine ⟨u, hu, hup, hub, fun pre post hpre => ?_⟩
        simpa using Reads.right (p := p) (hread pre post hpre)
  | group p ih =>
      obtain ⟨o₁, h₁, rfl⟩ := List.mem_map.mp h
      obtain ⟨u, hu, hup, hub, hread⟩ := ih h₁
      refine ⟨u, hu, hup, hub, fun pre post hpre => ?_⟩
      have hspan :
          (Span.mk here.passed o₁.1.passed).of (pre ++ (u ++ post)) = u := by
        rw [hup, ← hpre]
        exact Span.of_middle pre u post
      simpa [hspan] using Reads.group (hread pre post hpre)

/-- Every reading is among the ways of matching. -/
theorem mem_outcomes_of_reads {p : Pattern} {before : Option Char}
    {u rest : Text} {gs : List (Option Text)} (h : p.Reads before u rest gs)
    (passed : Nat) :
    ∃ spans, (⟨passed + u.length, Text.lastOr before u, rest⟩, spans) ∈
      p.outcomes ⟨passed, before, u ++ rest⟩ := by
  induction h generalizing passed with
  | empty => exact ⟨[], by simp [outcomes]⟩
  | one h => exact ⟨[], by simp [outcomes, h]⟩
  | many h =>
      refine ⟨[],
        List.mem_map.mpr ⟨_, mem_manyEnds_iff.mpr ⟨_, _, rfl, h, rfl⟩, rfl⟩⟩
  | anchor h => exact ⟨[], by simp [outcomes, h]⟩
  | @seq p q before u v rest gs hs hp hq ihp ihq =>
      obtain ⟨s₁, h₁⟩ := ihp passed
      obtain ⟨s₂, h₂⟩ := ihq (passed + u.length)
      refine ⟨s₁ ++ s₂, List.mem_flatMap.mpr ⟨_, by simpa using h₁, ?_⟩⟩
      refine List.mem_map.mpr ⟨_, h₂, ?_⟩
      simp [Nat.add_assoc]
  | left hp ih =>
      obtain ⟨s, h⟩ := ih passed
      exact ⟨_, List.mem_append_left _ (List.mem_map.mpr ⟨_, h, rfl⟩)⟩
  | right hq ih =>
      obtain ⟨s, h⟩ := ih passed
      exact ⟨_, List.mem_append_right _ (List.mem_map.mpr ⟨_, h, rfl⟩)⟩
  | group hp ih =>
      obtain ⟨s, h⟩ := ih passed
      exact ⟨_, List.mem_map.mpr ⟨_, h, rfl⟩⟩

/-- A way of matching at the start of a text is a reading of the stretch that it
takes, with the groups that its extents hold there. -/
theorem reads_take_of_mem_outcomes {p : Pattern} {before : Option Char}
    {t : Text} {o : Cursor × List (Option Span)}
    (h : o ∈ p.outcomes ⟨0, before, t⟩) :
    o.1.passed = (t.take o.1.passed).length ∧
    t = t.take o.1.passed ++ o.1.rest ∧
      p.Reads before (t.take o.1.passed) o.1.rest
        (Match.mk (t.take o.1.passed) o.2).groups := by
  obtain ⟨u, hu, hpassed, -, hread⟩ := reads_of_mem_outcomes h
  simp only [Nat.zero_add] at hu hpassed
  have htext : t.take o.1.passed = u := by rw [hu, hpassed]; simp
  have hgroups := hread [] [] rfl
  simp only [List.nil_append, List.append_nil] at hgroups
  rw [htext]
  exact ⟨hpassed, hu, hgroups⟩

/-- What the matcher finds is a reading of a stretch at the start of the
text. -/
theorem matchAt_reads {p : Pattern} {before : Option Char} {t : Text}
    {m : Match} (h : p.matchAt before t = some m) :
    ∃ rest, t = m.text ++ rest ∧ m.text ≠ [] ∧
      p.Reads before m.text rest m.groups := by
  rw [matchAt, run_eq_findSome?] at h
  obtain ⟨o, ho, hm⟩ := List.exists_of_findSome?_eq_some h
  obtain ⟨hpassed, ht, hread⟩ := reads_take_of_mem_outcomes ho
  split at hm
  · simp at hm
  · rename_i hne
    cases hm
    refine ⟨o.1.rest, ht, fun hnil => ?_, hread⟩
    exact hne (hpassed.trans (List.length_eq_zero_iff.mpr hnil))

/-- The matcher finds a match at a place exactly where a reading takes at least
one character. -/
theorem isSome_matchAt_iff {p : Pattern} {before : Option Char} {t : Text} :
    (p.matchAt before t).isSome = true ↔
      ∃ u rest gs, t = u ++ rest ∧ u ≠ [] ∧ p.Reads before u rest gs := by
  constructor
  · intro h
    obtain ⟨m, hm⟩ := Option.isSome_iff_exists.mp h
    obtain ⟨rest, ht, hne, hread⟩ := matchAt_reads hm
    exact ⟨m.text, rest, m.groups, ht, hne, hread⟩
  · rintro ⟨u, rest, gs, rfl, hne, hread⟩
    obtain ⟨spans, hmem⟩ := mem_outcomes_of_reads hread 0
    rw [matchAt, run_eq_findSome?, List.findSome?_isSome_iff]
    refine ⟨_, hmem, ?_⟩
    have : u.length ≠ 0 := fun h => hne (List.length_eq_zero_iff.mp h)
    simp [this]

/-- A pattern is found in a text exactly where one of its readings stands in
it. -/
theorem foundFrom_iff {p : Pattern} {before : Option Char} {t : Text} :
    p.foundFrom before t = true ↔
      ∃ pre u rest gs, t = pre ++ (u ++ rest) ∧ u ≠ [] ∧
        p.Reads (Text.lastOr before pre) u rest gs := by
  induction t generalizing before with
  | nil =>
      simp only [foundFrom, Bool.false_eq_true, false_iff]
      rintro ⟨pre, u, rest, gs, h, hne, -⟩
      simp [hne] at h
  | cons c cs ih =>
      rw [foundFrom, Bool.or_eq_true, isSome_matchAt_iff, ih]
      constructor
      · rintro (⟨u, rest, gs, h, hne, hread⟩ | ⟨pre, u, rest, gs, rfl,
          hne, hread⟩)
        · exact ⟨[], u, rest, gs, h, hne, hread⟩
        · exact ⟨c :: pre, u, rest, gs, rfl, hne, hread⟩
      · rintro ⟨pre, u, rest, gs, h, hne, hread⟩
        cases pre with
        | nil => exact Or.inl ⟨u, rest, gs, h, hne, hread⟩
        | cons d pre =>
            obtain ⟨rfl, rfl⟩ := List.cons.inj h
            exact Or.inr ⟨pre, u, rest, gs, rfl, hne, hread⟩

theorem foundIn_iff {p : Pattern} {t : Text} :
    p.foundIn t = true ↔
      ∃ pre u rest gs, t = pre ++ (u ++ rest) ∧ u ≠ [] ∧
        p.Reads (Text.lastOr none pre) u rest gs := foundFrom_iff

/-! ## What readings hold -/

/-- A group holds part of what the pattern takes. -/
theorem Reads.infix_of_mem {p : Pattern} {before : Option Char} {u rest : Text}
    {gs : List (Option Text)} (h : p.Reads before u rest gs) {w : Text}
    (hw : some w ∈ gs) :
    w <:+: u := by
  induction h with
  | empty | one | many | anchor => simp at hw
  | seq hp hq ihp ihq =>
      rcases List.mem_append.mp hw with hw | hw
      · exact (ihp hw).trans (List.infix_append_left ..)
      · exact (ihq hw).trans (List.infix_append_right ..)
  | left hp ih =>
      rcases List.mem_append.mp hw with hw | hw
      · exact ih hw
      · simp [List.mem_replicate] at hw
  | right hq ih =>
      rcases List.mem_append.mp hw with hw | hw
      · simp [List.mem_replicate] at hw
      · exact ih hw
  | group hp ih =>
      rcases List.mem_cons.mp hw with hw | hw
      · cases hw
        exact List.infix_rfl
      · exact ih hw

/-- A reading has as many groups as its pattern. -/
theorem Reads.length_groups {p : Pattern} {before : Option Char} {u rest : Text}
    {gs : List (Option Text)} (h : p.Reads before u rest gs) :
    gs.length = p.groupCount := by
  induction h with
  | empty | one | many | anchor => rfl
  | seq hp hq ihp ihq => simp [groupCount, ihp, ihq]
  | left hp ih => simp [groupCount, ih]
  | right hq ih => simp [groupCount, ih]
  | group hp ih => simp [groupCount, ih]

/-- A literal takes itself. -/
theorem reads_literal_iff {s : Text} {before : Option Char} {u rest : Text}
    {gs : List (Option Text)} :
    (literal s).Reads before u rest gs ↔ u = s ∧ gs = [] := by
  induction s generalizing before u gs with
  | nil =>
      constructor
      · intro h
        cases h
        exact ⟨rfl, rfl⟩
      · rintro ⟨rfl, rfl⟩
        exact .empty
  | cons c s ih =>
      constructor
      · intro h
        cases h with
        | seq hp hq =>
            cases hp with
            | one hc =>
                obtain ⟨rfl, rfl⟩ := ih.mp hq
                exact ⟨by simpa using hc, rfl⟩
      · rintro ⟨rfl, rfl⟩
        have hc : (one (· == c)).Reads before [c] (s ++ rest) [] :=
          .one (by simp)
        exact hc.seq (ih.mpr ⟨rfl, rfl⟩)

theorem reads_seq_iff {p q : Pattern} {before : Option Char} {u rest : Text}
    {gs : List (Option Text)} :
    (p ++ q).Reads before u rest gs ↔
      ∃ v w gs₁ gs₂, u = v ++ w ∧ gs = gs₁ ++ gs₂ ∧
        p.Reads before v (w ++ rest) gs₁ ∧
        q.Reads (Text.lastOr before v) w rest gs₂ := by
  constructor
  · intro h
    cases h with
    | seq hp hq => exact ⟨_, _, _, _, rfl, rfl, hp, hq⟩
  · rintro ⟨v, w, gs₁, gs₂, rfl, rfl, hp, hq⟩
    exact .seq hp hq

theorem reads_anchor_iff {a : Anchor} {before : Option Char} {u rest : Text}
    {gs : List (Option Text)} :
    (anchor a).Reads before u rest gs ↔
      u = [] ∧ gs = [] ∧ a.holds before rest = true := by
  constructor
  · intro h
    cases h with
    | anchor h => exact ⟨rfl, rfl, h⟩
  · rintro ⟨rfl, rfl, h⟩
    exact .anchor h

theorem reads_many_iff {preference : Preference} {ok : Char → Bool}
    {before : Option Char} {u rest : Text} {gs : List (Option Text)} :
    (many preference ok).Reads before u rest gs ↔
      (∀ c ∈ u, ok c = true) ∧ gs = [] := by
  constructor
  · intro h
    cases h with
    | many h => exact ⟨h, rfl⟩
  · rintro ⟨h, rfl⟩
    exact .many h

theorem reads_one_iff {ok : Char → Bool} {before : Option Char} {u rest : Text}
    {gs : List (Option Text)} :
    (one ok).Reads before u rest gs ↔ ∃ c, ok c = true ∧ u = [c] ∧ gs = [] := by
  constructor
  · intro h
    cases h with
    | one h => exact ⟨_, h, rfl, rfl⟩
  · rintro ⟨c, h, rfl, rfl⟩
    exact .one h

theorem reads_group_iff {p : Pattern} {before : Option Char} {u rest : Text}
    {gs : List (Option Text)} :
    (group p).Reads before u rest gs ↔
      ∃ gs', gs = some u :: gs' ∧ p.Reads before u rest gs' := by
  constructor
  · intro h
    cases h with
    | group h => exact ⟨_, rfl, h⟩
  · rintro ⟨gs', rfl, h⟩
    exact .group h

theorem reads_many1_iff {ok : Char → Bool} {before : Option Char}
    {u rest : Text} {gs : List (Option Text)} :
    (many1 ok).Reads before u rest gs ↔
      u ≠ [] ∧ (∀ c ∈ u, ok c = true) ∧ gs = [] := by
  constructor
  · intro h
    obtain ⟨v, w, gs₁, gs₂, rfl, rfl, hone, hmany⟩ := reads_seq_iff.mp h
    obtain ⟨c, hc, rfl, rfl⟩ := reads_one_iff.mp hone
    obtain ⟨hw, rfl⟩ := reads_many_iff.mp hmany
    exact ⟨by simp, List.forall_mem_cons.mpr ⟨hc, hw⟩, rfl⟩
  · rintro ⟨hne, hu, rfl⟩
    obtain ⟨c, w, rfl⟩ := List.exists_cons_of_ne_nil hne
    obtain ⟨hc, hw⟩ := List.forall_mem_cons.mp hu
    exact .seq (u := [c]) (.one hc) (.many hw)

theorem reads_optional_iff {p : Pattern} {before : Option Char} {u rest : Text}
    {gs : List (Option Text)} :
    (optional p).Reads before u rest gs ↔
      p.Reads before u rest gs ∨ u = [] ∧
      gs = List.replicate p.groupCount none := by
  constructor
  · intro h
    cases h with
    | left h => exact Or.inl (by simpa [groupCount] using h)
    | right h =>
        cases h with
        | empty => exact Or.inr ⟨rfl, by simp⟩
  · rintro (h | ⟨rfl, rfl⟩)
    · simpa [groupCount, optional] using Reads.left (q := empty) h
    · simpa [optional] using Reads.right (p := p) Reads.empty

/-! ## Rows

A pattern in a row of patterns is read off the front of what the row takes. With
`reads_append_assoc` these lemmas open a row from left to right. -/

section Rows

variable {p q r : Pattern} {before : Option Char} {u rest : Text}
    {gs : List (Option Text)}

theorem reads_append_assoc :
    (p ++ q ++ r).Reads before u rest gs ↔
      (p ++ (q ++ r)).Reads before u rest gs := by
  constructor
  · intro h
    obtain ⟨_, w, _, _, rfl, rfl, hpq, hr⟩ := reads_seq_iff.mp h
    obtain ⟨x, y, _, _, rfl, rfl, hp, hq⟩ := reads_seq_iff.mp hpq
    rw [List.append_assoc, List.append_assoc]
    rw [Text.lastOr_append] at hr
    exact .seq (by rwa [List.append_assoc]) (.seq hq hr)
  · intro h
    obtain ⟨x, _, _, _, rfl, rfl, hp, hqr⟩ := reads_seq_iff.mp h
    obtain ⟨y, w, _, _, rfl, rfl, hq, hr⟩ := reads_seq_iff.mp hqr
    rw [← List.append_assoc, ← List.append_assoc]
    rw [← Text.lastOr_append] at hr
    exact .seq (.seq (by rwa [← List.append_assoc]) hq) hr

theorem reads_anchor_append {a : Anchor} :
    (anchor a ++ q).Reads before u rest gs ↔
      a.holds before (u ++ rest) = true ∧ q.Reads before u rest gs := by
  constructor
  · intro h
    obtain ⟨_, w, _, _, rfl, rfl, hfirst, hq⟩ := reads_seq_iff.mp h
    obtain ⟨rfl, rfl, ha⟩ := reads_anchor_iff.mp hfirst
    exact ⟨ha, hq⟩
  · rintro ⟨ha, hq⟩
    exact .seq (.anchor ha) hq

theorem reads_literal_append {s : Text} :
    (literal s ++ q).Reads before u rest gs ↔
      ∃ w, u = s ++ w ∧ q.Reads (Text.lastOr before s) w rest gs := by
  constructor
  · intro h
    obtain ⟨_, w, _, _, rfl, rfl, hfirst, hq⟩ := reads_seq_iff.mp h
    obtain ⟨rfl, rfl⟩ := reads_literal_iff.mp hfirst
    exact ⟨w, rfl, hq⟩
  · rintro ⟨w, rfl, hq⟩
    exact .seq (reads_literal_iff.mpr ⟨rfl, rfl⟩) hq

theorem reads_many_append {preference : Preference} {ok : Char → Bool} :
    (many preference ok ++ q).Reads before u rest gs ↔
      ∃ v w, u = v ++ w ∧ (∀ c ∈ v, ok c = true) ∧
        q.Reads (Text.lastOr before v) w rest gs := by
  constructor
  · intro h
    obtain ⟨v, w, _, _, rfl, rfl, hfirst, hq⟩ := reads_seq_iff.mp h
    obtain ⟨hv, rfl⟩ := reads_many_iff.mp hfirst
    exact ⟨v, w, rfl, hv, hq⟩
  · rintro ⟨v, w, rfl, hv, hq⟩
    exact .seq (.many hv) hq

theorem reads_many1_append {ok : Char → Bool} :
    (many1 ok ++ q).Reads before u rest gs ↔
      ∃ v w, u = v ++ w ∧ v ≠ [] ∧ (∀ c ∈ v, ok c = true) ∧
        q.Reads (Text.lastOr before v) w rest gs := by
  constructor
  · intro h
    obtain ⟨v, w, _, _, rfl, rfl, hfirst, hq⟩ := reads_seq_iff.mp h
    obtain ⟨hne, hv, rfl⟩ := reads_many1_iff.mp hfirst
    exact ⟨v, w, rfl, hne, hv, hq⟩
  · rintro ⟨v, w, rfl, hne, hv, hq⟩
    exact .seq (reads_many1_iff.mpr ⟨hne, hv, rfl⟩) hq

theorem reads_group_append :
    (group p ++ q).Reads before u rest gs ↔
      ∃ v w gs₁ gs₂, u = v ++ w ∧ gs = some v :: (gs₁ ++ gs₂) ∧
        p.Reads before v (w ++ rest) gs₁ ∧
        q.Reads (Text.lastOr before v) w rest gs₂ := by
  constructor
  · intro h
    obtain ⟨v, w, _, gs₂, rfl, rfl, hfirst, hq⟩ := reads_seq_iff.mp h
    obtain ⟨gs₁, rfl, hp⟩ := reads_group_iff.mp hfirst
    exact ⟨v, w, gs₁, gs₂, rfl, rfl, hp, hq⟩
  · rintro ⟨v, w, gs₁, gs₂, rfl, rfl, hp, hq⟩
    exact .seq (.group hp) hq

end Rows

/-! ## Readings in other surroundings -/

theorem foundIn_of_anchor_left {a : Anchor} {p : Pattern} {t : Text}
    (h : (anchor a ++ p).foundIn t = true) : p.foundIn t = true := by
  obtain ⟨pre, u, rest, gs, ht, hne, hread⟩ := foundIn_iff.mp h
  obtain ⟨v, w, gs₁, gs₂, rfl, -, ha, hp⟩ := reads_seq_iff.mp hread
  obtain ⟨rfl, -, -⟩ := reads_anchor_iff.mp ha
  exact foundIn_iff.mpr ⟨pre, w, rest, gs₂, ht, hne, hp⟩

theorem foundIn_of_anchor_right {a : Anchor} {p : Pattern} {t : Text}
    (h : (p ++ anchor a).foundIn t = true) : p.foundIn t = true := by
  obtain ⟨pre, u, rest, gs, ht, hne, hread⟩ := foundIn_iff.mp h
  obtain ⟨v, w, gs₁, gs₂, rfl, -, hp, ha⟩ := reads_seq_iff.mp hread
  obtain ⟨rfl, -, -⟩ := reads_anchor_iff.mp ha
  rw [List.append_nil] at ht hne
  exact foundIn_iff.mpr ⟨pre, v, rest, gs₁, ht, hne, hp⟩

/-- The pattern has no anchors. -/
def unanchored : Pattern → Bool
  | empty | one _ | many _ _ => true
  | anchor _ => false
  | seq p q | either p q => p.unanchored && q.unanchored
  | group p => p.unanchored

/-- Without anchors it does not matter where a stretch stands. -/
theorem Reads.elsewhere {p : Pattern} {before : Option Char} {u rest : Text}
    {gs : List (Option Text)} (h : p.Reads before u rest gs)
    (hp : p.unanchored = true) (before' : Option Char) (rest' : Text) :
    p.Reads before' u rest' gs := by
  induction h generalizing before' rest' with
  | empty => exact .empty
  | one h => exact .one h
  | many h => exact .many h
  | anchor => exact Bool.noConfusion hp
  | seq _ _ ihp ihq =>
      rw [unanchored, Bool.and_eq_true] at hp
      exact .seq (ihp hp.1 _ _) (ihq hp.2 _ _)
  | left _ ih =>
      rw [unanchored, Bool.and_eq_true] at hp
      exact .left (ih hp.1 _ _)
  | right _ ih =>
      rw [unanchored, Bool.and_eq_true] at hp
      exact .right (ih hp.2 _ _)
  | group _ ih => exact .group (ih hp _ _)

theorem foundFrom_eq_foundIn {p : Pattern} (hp : p.unanchored = true)
    (before : Option Char) (t : Text) :
    p.foundFrom before t = p.foundIn t := by
  rw [Bool.eq_iff_iff, foundFrom_iff, foundIn_iff]
  constructor
  all_goals
    rintro ⟨pre, u, rest, gs, ht, hne, hread⟩
    exact ⟨pre, u, rest, gs, ht, hne, hread.elsewhere hp _ _⟩

theorem foundIn_of_infix {p : Pattern} (hp : p.unanchored = true) {u t : Text}
    (hu : u <:+: t) (h : p.foundIn u = true) : p.foundIn t = true := by
  obtain ⟨front, back, rfl⟩ := hu
  obtain ⟨pre, w, rest, gs, rfl, hne, hread⟩ := foundIn_iff.mp h
  exact foundIn_iff.mpr ⟨front ++ pre, w, rest ++ back, gs, by simp, hne,
    hread.elsewhere hp _ _⟩

end Pattern

end Recast
