import Recast.Idiom
import Recast.Proofs.Pattern.Search
import Recast.Proofs.Pattern.Thinning
import Recast.Rule.Basic

/-!
# The partition of a text by its matches

The matches of a scan stand in the text one after the other, each with its
groups inside it, and nothing matches between them. `Partitions` states this by
places in the text, for the part from one place on, so that it is built and
taken apart match by match. It leaves no choice: what it allows is what
searching again and again finds (`Partitions.searches_eq`), and after as many
searches as the text has characters there is nothing left to find. A replacement
keeps what stands between the matches (`substitute_eq_patchedFrom`).
-/

namespace Recast

namespace Pattern

/-! ## Definitions -/

/-- A match at its place in a text. -/
structure Stands (p : Pattern) (t : Text) (o : Nat × Match) : Prop where
  /-- The pattern tries no other match first. -/
  first : p.firstAt t o.1 = some o.2
  nonempty : (extent o).start < (extent o).stop
  bounded : (extent o).stop ≤ t.length
  covers : (extent o).of t = o.2.text
  /-- Every group is accounted for. -/
  groupCount : o.2.spans.length = p.groupCount
  /-- A group that took part lies inside the match and holds what stands
  there. -/
  groups : ∀ s, some s ∈ o.2.spans → (s.shift o.1).Inside (extent o) ∧
  (s.shift o.1).of t = s.of o.2.text

/-- The matches `os` divide the part of `t` from place `n` on. -/
structure Partitions (p : Pattern) (t : Text) (n : Nat)
    (os : List (Nat × Match)) : Prop where
  stands : ∀ o ∈ os, p.Stands t o
  after : ∀ o ∈ os, n ≤ (extent o).start
  /-- Each match starts later than those before it, and not before they end. -/
  ordered : os.Pairwise fun a b => (extent a).start < (extent b).start ∧
  (extent a).stop ≤ (extent b).start
  /-- Nothing starts at a place, the end of the text among them, that no match
  covers. -/
  gaps : ∀ i, n ≤ i → i ≤ t.length →
  (∀ o ∈ os, i < (extent o).start ∨ (extent o).stop ≤ i) → ¬ p.StartsAt t i

/-- `t` from place `n` on, with the matches `os` replaced and all between them
as it stands. -/
def patchedFrom (f : Match → Text) (t : Text) : Nat → List (Nat × Match) → Text
  | n, [] => t.drop n
  | n, o :: os => (Span.mk n (extent o).start).of t ++
    (f o.2 ++ patchedFrom f t (extent o).stop os)

variable {p : Pattern} {t : Text} {n : Nat} {m : Match} {o : Nat × Match}
    {os os' : List (Nat × Match)}

/-! ## Match by match -/

theorem stands_of_firstAt (h : p.firstAt t n = some m) (hne : m.text ≠ []) :
    p.Stands t (n, m) := by
  obtain ⟨⟨rest, ht, hread⟩, hinside⟩ := reads_of_firstAt h
  have hpos : 0 < m.text.length := List.length_pos_iff.mpr hne
  have hlength : t.length - n = m.text.length + rest.length := by
    rw [← List.length_drop, ht, List.length_append]
  refine ⟨h, Nat.lt_add_of_pos_right hpos, ?_, ?_, ?_, ?_⟩
  · change n + m.text.length ≤ t.length
    omega
  · change (t.drop n).take (n + m.text.length - n) = m.text
    rw [ht, Nat.add_sub_cancel_left, List.take_left]
  · rw [← hread.length_groups, Match.groups, List.length_map]
  · intro s hs
    exact ⟨(hinside s hs).shift n, Span.of_shift ht (hinside s hs)⟩

namespace Partitions

theorem nil (h : ¬ p.StartsAt t t.length) : p.Partitions t t.length [] where
  stands := by simp
  after := by simp
  ordered := .nil
  gaps i hle hi _ := by rwa [Nat.le_antisymm hi hle]

/-- A place where nothing starts is passed over. -/
theorem gap (h : ¬ p.StartsAt t n) (tail : p.Partitions t (n + 1) os) :
    p.Partitions t n os where
  stands := tail.stands
  after o ho := Nat.le_of_succ_le (tail.after o ho)
  ordered := tail.ordered
  gaps i hle hi hfree := by
    rcases Nat.eq_or_lt_of_le hle with rfl | hlt
    · exact h
    · exact tail.gaps i hlt hi hfree

/-- A match is followed by the matches from its end on. -/
theorem hit (h : p.Stands t (n, m))
    (tail : p.Partitions t (n + m.text.length) os) :
    p.Partitions t n ((n, m) :: os) where
  stands := List.forall_mem_cons.mpr ⟨h, tail.stands⟩
  after := List.forall_mem_cons.mpr
    ⟨Nat.le_refl n, fun o ho => Nat.le_trans (Nat.le_add_right n _)
      (tail.after o ho)⟩
  ordered := List.pairwise_cons.mpr
    ⟨fun o ho => ⟨Nat.lt_of_lt_of_le h.nonempty (tail.after o ho),
      tail.after o ho⟩, tail.ordered⟩
  gaps i hle hi hfree := by
    obtain ⟨hhead, hfree⟩ := List.forall_mem_cons.mp hfree
    -- the place is not before the match, so it is after it
    exact tail.gaps i (hhead.resolve_left (Nat.not_lt.mpr hle)) hi hfree

theorem tail (h : p.Partitions t n (o :: os)) :
    p.Partitions t (extent o).stop os where
  stands := (List.forall_mem_cons.mp h.stands).2
  after a ha := ((List.pairwise_cons.mp h.ordered).1 a ha).2
  ordered := (List.pairwise_cons.mp h.ordered).2
  gaps i hle hi hfree := by
    have hstands := h.stands o List.mem_cons_self
    have hn : n ≤ i :=
      Nat.le_trans (h.after o List.mem_cons_self)
        (Nat.le_trans (Nat.le_of_lt hstands.nonempty) hle)
    exact h.gaps i hn hi (List.forall_mem_cons.mpr ⟨Or.inr hle, hfree⟩)

/-! ## Searching again and again -/

/-- The first match is what a search finds. -/
theorem search_eq_head? (h : p.Partitions t n os) :
    p.search t n = os.head? := by
  cases os with
  | nil =>
      exact search_eq_none fun i hle hi =>
        firstAt_eq_none_iff.mpr (h.gaps i hle hi (by simp))
  | cons o os =>
      have hstands := h.stands o List.mem_cons_self
      have hstart : (extent o).start ≤ t.length :=
        Nat.le_trans (Nat.le_of_lt hstands.nonempty) hstands.bounded
      refine search_eq_some (h.after o List.mem_cons_self) hstart
        (fun j hle hlt => ?_) hstands.first
      -- a place before the first match is before all of them
      have hfree : ∀ a ∈ o :: os, j < (extent a).start ∨ (extent a).stop ≤ j :=
        List.forall_mem_cons.mpr
          ⟨Or.inl hlt, fun a ha => Or.inl
            (Nat.lt_trans hlt ((List.pairwise_cons.mp h.ordered).1 a ha).1)⟩
      exact firstAt_eq_none_iff.mpr
        (h.gaps j hle (Nat.le_trans (Nat.le_of_lt hlt) hstart) hfree)

/-- With as many searches as there are matches, or more, a scan finds the
matches and stops. -/
theorem searches_eq (h : p.Partitions t n os) {k : Nat} (hk : os.length ≤ k) :
    p.searches t k n = os := by
  induction os generalizing n k with
  | nil =>
      cases k with
      | zero => rfl
      | succ k => simp only [searches, h.search_eq_head?, List.head?_nil]
  | cons o os ih =>
      cases k with
      | zero => exact absurd hk (Nat.not_succ_le_zero _)
      | succ k =>
          simp only [searches, h.search_eq_head?, List.head?_cons]
          rw [ih h.tail (Nat.le_of_succ_le_succ hk)]

/-- A text has room for at most one match at each character. -/
theorem length_le (h : p.Partitions t n os) (hn : n ≤ t.length) :
    n + os.length ≤ t.length := by
  induction os generalizing n with
  | nil => exact hn
  | cons o os ih =>
      have hstands := h.stands o List.mem_cons_self
      have hrest := ih h.tail hstands.bounded
      have hstart := h.after o List.mem_cons_self
      have hpos := hstands.nonempty
      rw [List.length_cons]
      omega

theorem unique (h : p.Partitions t n os) (h' : p.Partitions t n os') :
    os = os' := by
  have hos := h.searches_eq (Nat.le_add_right os.length os'.length)
  have hos' := h'.searches_eq (Nat.le_add_left os'.length os.length)
  exact hos.symm.trans hos'

end Partitions

/-! ## The matches of a scan -/

theorem not_startsAt_length (hp : p.solid = true) (t : Text) :
    ¬ p.StartsAt t t.length := by
  rintro ⟨u, rest, gs, ht, hread⟩
  rw [List.drop_length] at ht
  exact hread.ne_nil hp (List.append_eq_nil_iff.mp ht.symm).1

theorem firstAt_append (hp : p.solid = true) (pre rest : Text) :
    p.firstAt (pre ++ rest) pre.length =
      p.matchAt (Text.lastOr none pre) rest := by
  rw [firstAt_eq_matchAt hp, List.take_left, List.drop_left]

theorem Divides.partitions (hp : p.solid = true) {before : Option Char}
    {rest : Text} {ss : List Segment} (h : p.Divides before rest ss)
    (pre : Text) (hbefore : before = Text.lastOr none pre) :
    p.Partitions (pre ++ rest) pre.length (located pre.length ss) := by
  induction h generalizing pre with
  | nil =>
      rw [List.append_nil]
      exact .nil (not_startsAt_length hp pre)
  | @gap before c cs ss hnone tail ih =>
      have htail := ih (pre ++ [c]) (by simp)
      rw [List.append_assoc, List.length_append] at htail
      refine .gap (firstAt_eq_none_iff.mp ?_) htail
      rw [firstAt_append hp, ← hbefore, hnone]
  | @hit before m rest ss hmatch read tail ih =>
      have htail := ih (pre ++ m.text) (by rw [Text.lastOr_append, hbefore])
      rw [List.append_assoc, List.length_append] at htail
      refine .hit (stands_of_firstAt ?_ (read.ne_nil hp)) htail
      rw [firstAt_append hp, ← hbefore, hmatch]

theorem partitions_occurrences (hp : p.solid = true) (t : Text) :
    p.Partitions t 0 (p.occurrences t) :=
  (p.divides_segments t).partitions hp [] rfl

/-! ## What a replacement keeps -/

variable {f : Match → Text}

/-- A character before the first match stays. -/
theorem patchedFrom_gap {c : Char} {cs : Text} (ht : t.drop n = c :: cs)
    (h : ∀ o ∈ os, n + 1 ≤ o.1) :
    patchedFrom f t n os = c :: patchedFrom f t (n + 1) os := by
  have htail : t.drop (n + 1) = cs := by
    rw [← List.drop_drop, ht, List.drop_one, List.tail_cons]
  cases os with
  | nil => rw [patchedFrom, patchedFrom, ht, htail]
  | cons o os =>
      have hstart : o.1 - n = o.1 - (n + 1) + 1 := by
        have := h o List.mem_cons_self
        omega
      simp only [patchedFrom, Span.of, extent, ht, htail, hstart]
      rw [List.take_succ_cons, List.cons_append]

theorem Divides.patchedFrom_eq {before : Option Char} {rest : Text}
    {ss : List Segment} (h : p.Divides before rest ss) (f : Match → Text)
    (pre : Text) :
    patchedFrom f (pre ++ rest) pre.length (located pre.length ss) =
      ss.flatMap (·.replaced f) := by
  induction h generalizing pre with
  | nil =>
      rw [located, patchedFrom, List.append_nil, List.drop_length]
      rfl
  | @gap before c cs ss _ tail ih =>
      have htail := ih (pre ++ [c])
      rw [List.append_assoc, List.length_append] at htail
      rw [located, patchedFrom_gap List.drop_left fun o => le_of_mem_located,
        List.flatMap_cons, Segment.replaced_gap, ← htail]
      rfl
  | @hit before m rest ss _ read tail ih =>
      have htail := ih (pre ++ m.text)
      rw [List.append_assoc, List.length_append] at htail
      have hnone : (Span.mk pre.length pre.length).of
          (pre ++ (m.text ++ rest)) = [] := by
        rw [Span.of, Nat.sub_self, List.take_zero]
      simp only [located, patchedFrom, extent, hnone, htail]
      rfl

/-- A replacement changes the matches where they stand and nothing else. -/
theorem substitute_eq_patchedFrom (p : Pattern) (f : Match → Text) (t : Text) :
    p.substitute f t = patchedFrom f t 0 (p.occurrences t) :=
  ((p.divides_segments t).patchedFrom_eq f []).symm

end Pattern

namespace Idiom

open Pattern

/-- Every idiom has at least one character. -/
theorem solid_pattern (i : Idiom) : i.pattern.solid = true := by cases i <;> rfl

/-- The matches of an idiom partition every text, and no other list of matches
does. They are what searching again and again finds, however many searches are
made beyond the length of the text. A rule changes the text only where they
stand, and a rule that puts each match back changes nothing. -/
theorem occurrences_partition_text (i : Idiom) (t : Text) :
    (∀ os, i.pattern.Partitions t 0 os ↔ os = i.pattern.occurrences t) ∧
      (∀ more, i.pattern.searches t (t.length + more) 0 =
        i.pattern.occurrences t) ∧
      (∀ name f ctx, (Rule.replacing name i.pattern f).apply ctx t =
        patchedFrom (f ctx) t 0 (i.pattern.occurrences t)) ∧
      ∀ name gate ctx,
        ((Rule.replacing name i.pattern fun _ m => m.text).gated gate).apply
          ctx t = t := by
  have hpartition := partitions_occurrences i.solid_pattern t
  have hlength : (i.pattern.occurrences t).length ≤ t.length := by
    simpa using hpartition.length_le (Nat.zero_le _)
  refine ⟨fun os => ⟨fun h => h.unique hpartition, ?_⟩, fun more => ?_,
    fun name f ctx => ?_, fun name gate ctx => ?_⟩
  · rintro rfl
    exact hpartition
  · exact hpartition.searches_eq (Nat.le_trans hlength (Nat.le_add_right _ _))
  · exact substitute_eq_patchedFrom i.pattern (f ctx) t
  · have hsame : i.pattern.substitute (fun m => m.text) t = t :=
      substitute_eq_of_matches fun _ _ => rfl
    rw [Rule.apply]
    split
    · exact hsame
    · rfl

example : (slicePattern.occurrences "a[0:1] + b[2:n ]").map extent =
    [⟨0, 6⟩, ⟨9, 16⟩] := by decide

end Idiom

end Recast
