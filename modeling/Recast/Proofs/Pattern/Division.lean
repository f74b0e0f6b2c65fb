import Recast.Proofs.Pattern.Reading

/-!
# The division of a text by a scan

A scan passes over a text once and leaves it as a row of single characters and
matches. `Divides` states this as a relation, so that facts about a replacement
are proved by induction over the pieces: what holds of every character that is
kept and of every match that is replaced holds of the whole.
-/

namespace Recast

@[simp] theorem Segment.replaced_gap (f : Match → Text) (c : Char) :
    (Segment.gap c).replaced f = [c] := rfl

@[simp] theorem Segment.replaced_hit (f : Match → Text) (m : Match) :
    (Segment.hit m).replaced f = f m := rfl

/-- The match of a piece that is one. -/
def Segment.hit? : Segment → Option Match
  | gap _ => none
  | hit m => some m

namespace Pattern

/-- The pieces into which a scan divides a text that follows `before`. -/
inductive Divides (p : Pattern) : Option Char → Text → List Segment → Prop where
  | nil {before} : Divides p before [] []
  | gap {before c cs ss} (h : p.matchAt before (c :: cs) = none)
    (tail : Divides p (some c) cs ss) :
      Divides p before (c :: cs) (.gap c :: ss)
  | hit {before m rest ss} (h : p.matchAt before (m.text ++ rest) = some m)
      (read : p.Reads before m.text rest m.groups)
      (tail : Divides p (Text.lastOr before m.text) rest ss) :
      Divides p before (m.text ++ rest) (.hit m :: ss)

/-- Passing over `u` leaves the scan where it would start after `u`. -/
theorem segmentsFrom_append (p : Pattern) (before : Option Char)
    (u rest : Text) :
    p.segmentsFrom before u.length (u ++ rest) =
      p.segmentsFrom (Text.lastOr before u) 0 rest := by
  induction u generalizing before with
  | nil => rfl
  | cons c u ih =>
      rw [List.cons_append, List.length_cons, segmentsFrom]
      exact ih (some c)

theorem divides_segmentsFrom (p : Pattern) (before : Option Char) (t : Text) :
    p.Divides before t (p.segmentsFrom before 0 t) := by
  -- a match takes at least one character, so what is left is shorter
  induction h : t.length using Nat.strongRecOn generalizing before t with
  | ind n ih =>
      cases t with
      | nil => exact .nil
      | cons c cs =>
          subst h
          rw [segmentsFrom]
          cases hm : p.matchAt before (c :: cs) with
          | none => exact .gap hm (ih _ (by simp) (some c) cs rfl)
          | some m =>
              obtain ⟨rest, ht, hne, hread⟩ := matchAt_reads hm
              obtain ⟨d, u, hu⟩ := List.exists_cons_of_ne_nil hne
              have hc : c = d ∧ cs = u ++ rest := by
                rw [hu] at ht
                exact List.cons.inj ht
              obtain ⟨rfl, rfl⟩ := hc
              have hrest : p.Divides (Text.lastOr before m.text) rest
                  (p.segmentsFrom (Text.lastOr before m.text) 0 rest) :=
                ih _ (by simp only [List.length_cons, List.length_append]; omega)
                  _ rest rfl
              have hskip : p.segmentsFrom (some c) (m.text.length - 1)
                  (u ++ rest) =
                  p.segmentsFrom (Text.lastOr before m.text) 0 rest := by
                rw [hu]
                exact segmentsFrom_append p (some c) u rest
              simp only [hskip]
              rw [ht] at hm ⊢
              exact .hit hm hread hrest

theorem divides_segments (p : Pattern) (t : Text) :
    p.Divides none t (p.segments t) :=
  divides_segmentsFrom p none t

/-- A text is divided in one way only. -/
theorem Divides.eq_segmentsFrom {p : Pattern} {before : Option Char} {t : Text}
    {ss : List Segment} (h : p.Divides before t ss) :
    ss = p.segmentsFrom before 0 t := by
  induction h with
  | nil => rfl
  | gap h tail ih => rw [segmentsFrom, h, ← ih]
  | @hit before m rest ss h read tail ih =>
      obtain ⟨-, -, hne, -⟩ := matchAt_reads h
      obtain ⟨c, u, hu⟩ := List.exists_cons_of_ne_nil hne
      have hskip :
          p.segmentsFrom (some c) (m.text.length - 1) (u ++ rest) = ss := by
        rw [ih, hu]
        exact segmentsFrom_append p (some c) u rest
      rw [hu, List.cons_append] at h ⊢
      simp only [segmentsFrom, h, hskip]

/-- Where no reading starts in `t`, the scan passes over it character by
character. -/
theorem Divides.gaps_append {p : Pattern} {before : Option Char} {t rest : Text}
    {ss : List Segment}
    (hnone : ∀ pre c post, t = pre ++ c :: post →
      p.matchAt (Text.lastOr before pre) (c :: (post ++ rest)) = none)
    (tail : p.Divides (Text.lastOr before t) rest ss) :
    p.Divides before (t ++ rest) (t.map .gap ++ ss) := by
  induction t generalizing before with
  | nil => exact tail
  | cons c t ih =>
      refine .gap (hnone [] c t rfl) (ih ?_ tail)
      intro pre d post ht
      exact hnone (c :: pre) d post (by rw [ht]; rfl)

/-! ## The matches among the pieces -/

theorem map_snd_located (start : Nat) (ss : List Segment) :
    (located start ss).map Prod.snd = ss.filterMap Segment.hit? := by
  induction ss generalizing start with
  | nil => rfl
  | cons s ss ih =>
      cases s with
      | gap c => exact ih (start + 1)
      | hit m => exact congrArg (m :: ·) (ih (start + m.text.length))

theorem matchesIn_eq_filterMap (p : Pattern) (t : Text) :
    p.matchesIn t = (p.segments t).filterMap Segment.hit? :=
  map_snd_located 0 _

theorem Divides.matchesIn_eq {p : Pattern} {t : Text} {ss : List Segment}
    (h : p.Divides none t ss) :
    p.matchesIn t = ss.filterMap Segment.hit? := by
  rw [matchesIn_eq_filterMap, segments, ← h.eq_segmentsFrom]

/-- A match that the scan comes upon is a reading at its place. -/
theorem Divides.reads_of_mem {p : Pattern} {before : Option Char} {t : Text}
    {ss : List Segment} (h : p.Divides before t ss) {m : Match}
    (hm : m ∈ ss.filterMap Segment.hit?) :
    ∃ pre rest, t = pre ++ (m.text ++ rest) ∧
      p.Reads (Text.lastOr before pre) m.text rest m.groups := by
  induction h with
  | nil => simp at hm
  | @gap before c cs ss _ tail ih =>
      obtain ⟨pre, rest, rfl, hread⟩ := ih hm
      exact ⟨c :: pre, rest, rfl, hread⟩
  | @hit before n rest ss _ read tail ih =>
      rcases List.mem_cons.mp hm with rfl | hm
      · exact ⟨[], rest, rfl, read⟩
      · obtain ⟨pre, rest, rfl, hread⟩ := ih hm
        exact ⟨n.text ++ pre, rest, by simp, by simpa using hread⟩

theorem reads_of_mem_matchesIn {p : Pattern} {t : Text} {m : Match}
    (hm : m ∈ p.matchesIn t) :
    ∃ pre rest, t = pre ++ (m.text ++ rest) ∧
      p.Reads (Text.lastOr none pre) m.text rest m.groups :=
  (p.divides_segments t).reads_of_mem (matchesIn_eq_filterMap p t ▸ hm)

/-- A pattern is found in a text exactly if the scan comes upon a match. -/
theorem Divides.foundFrom_eq {p : Pattern} {before : Option Char} {t : Text}
    {ss : List Segment} (h : p.Divides before t ss) :
    p.foundFrom before t = !(ss.filterMap Segment.hit?).isEmpty := by
  induction h with
  | nil => rfl
  | gap h tail ih =>
      rw [foundFrom, h]
      exact ih
  | @hit before m rest ss h read tail ih =>
      obtain ⟨-, -, hne, -⟩ := matchAt_reads h
      obtain ⟨c, u, hu⟩ := List.exists_cons_of_ne_nil hne
      rw [hu, List.cons_append] at h ⊢
      simp [foundFrom, h, Segment.hit?]

theorem foundIn_eq_matchesIn (p : Pattern) (t : Text) :
    p.foundIn t = !(p.matchesIn t).isEmpty := by
  rw [matchesIn_eq_filterMap]
  exact (p.divides_segments t).foundFrom_eq

theorem foundIn_eq_false_iff {p : Pattern} {t : Text} :
    p.foundIn t = false ↔ p.matchesIn t = [] := by
  rw [foundIn_eq_matchesIn, Bool.not_eq_false', List.isEmpty_iff]

/-- Where nothing matches, nothing is replaced. -/
theorem Divides.replaced_eq_self {p : Pattern} {f : Match → Text}
    {before : Option Char} {t : Text} {ss : List Segment}
    (h : p.Divides before t ss) (hnone : ss.filterMap Segment.hit? = []) :
    ss.flatMap (·.replaced f) = t := by
  induction h with
  | nil => rfl
  | gap h tail ih => exact congrArg (_ :: ·) (ih hnone)
  | hit => simp [Segment.hit?] at hnone

theorem substitute_eq_self {p : Pattern} {t : Text} (h : p.matchesIn t = [])
    (f : Match → Text) :
    p.substitute f t = t :=
  (p.divides_segments t).replaced_eq_self (matchesIn_eq_filterMap p t ▸ h)

/-! ## Replacing from a place on -/

/-- The text after `before` with every match replaced. -/
def substituteFrom (p : Pattern) (f : Match → Text) (before : Option Char)
    (t : Text) : Text :=
  (p.segmentsFrom before 0 t).flatMap (·.replaced f)

theorem Divides.substituteFrom_eq {p : Pattern} {f : Match → Text}
    {before : Option Char} {t : Text} {ss : List Segment}
    (h : p.Divides before t ss) :
    p.substituteFrom f before t = ss.flatMap (·.replaced f) := by
  rw [substituteFrom, ← h.eq_segmentsFrom]

theorem substituteFrom_eq_self {p : Pattern} {before : Option Char} {t : Text}
    (h : p.foundFrom before t = false) (f : Match → Text) :
    p.substituteFrom f before t = t := by
  have hdivides := p.divides_segmentsFrom before t
  rw [hdivides.foundFrom_eq, Bool.not_eq_false', List.isEmpty_iff] at h
  exact hdivides.replaced_eq_self h

/-! ## What a replacement keeps -/

/-- A replacement by texts of characters in `P` leaves a text of characters in
`P`. -/
theorem Divides.forall_mem_replaced {p : Pattern} {f : Match → Text}
    {P : Char → Prop}
    (hf : ∀ m before rest, p.Reads before m.text rest m.groups →
      (∀ c ∈ m.text, P c) → ∀ c ∈ f m, P c)
    {before : Option Char} {t : Text} {ss : List Segment}
    (h : p.Divides before t ss) (ht : ∀ c ∈ t, P c) :
    ∀ c ∈ ss.flatMap (·.replaced f), P c := by
  induction h with
  | nil => simp
  | gap h tail ih =>
      intro d hd
      rcases List.mem_cons.mp hd with rfl | hd
      · exact ht d (by simp)
      · exact ih (fun e he => ht e (by simp [he])) d hd
  | @hit before m rest ss h read tail ih =>
      intro d hd
      rcases List.mem_append.mp hd with hd | hd
      · exact hf m before rest read (fun e he => ht e (by simp [he])) d hd
      · exact ih (fun e he => ht e (by simp [he])) d hd

/-! ## What the groups have of a match -/

theorem Reads.not_mem_group {p : Pattern} {before : Option Char} {m : Match}
    {rest : Text} (h : p.Reads before m.text rest m.groups) {c : Char}
    (hc : c ∉ m.text) (i : Nat) :
    c ∉ m.group i := by
  rw [Match.group]
  cases hi : m.groups[i]?.join with
  | none => simp
  | some w =>
      intro hmem
      have hw : some w ∈ m.groups :=
        List.mem_of_getElem? (Option.join_eq_some_iff.mp hi)
      exact hc ((h.infix_of_mem hw).subset hmem)

/-- Every `c` that the pattern takes stands in exactly one group. -/
def shows (c : Char) : Pattern → Bool
  | empty | anchor _ => true
  | one ok | many _ ok => !ok c
  | seq p q | either p q => p.shows c && q.shows c
  | group p => p.groupCount == 0

theorem Reads.count_groups {p : Pattern} {before : Option Char} {u rest : Text}
    {gs : List (Option Text)} (h : p.Reads before u rest gs) {c : Char}
    (hc : p.shows c = true) :
    (gs.flatMap (·.getD [])).count c = u.count c := by
  induction h with
  | empty | anchor => rfl
  | @one ok d before rest h =>
      have hne : d ≠ c := by
        rintro rfl
        simp [shows, h] at hc
      simp [hne]
  | @many preference ok u before rest h =>
      have hnot : c ∉ u := by
        intro hmem
        simp [shows, h c hmem] at hc
      rw [List.count_eq_zero.mpr hnot]
      rfl
  | seq hp hq ihp ihq =>
      rw [shows, Bool.and_eq_true] at hc
      rw [List.flatMap_append, List.count_append, List.count_append,
        ihp hc.1, ihq hc.2]
  | left hp ih =>
      rw [shows, Bool.and_eq_true] at hc
      rw [List.flatMap_append, List.count_append, ih hc.1]
      simp [List.flatMap_replicate]
  | right hq ih =>
      rw [shows, Bool.and_eq_true] at hc
      rw [List.flatMap_append, List.count_append, ih hc.2]
      simp [List.flatMap_replicate]
  | @group p before u rest gs hp ih =>
      have hnil : gs = [] := by
        rw [shows, beq_iff_eq] at hc
        exact List.length_eq_zero_iff.mp (hp.length_groups.trans hc)
      rw [hnil]
      simp

end Pattern

end Recast
