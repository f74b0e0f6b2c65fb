import Recast.Proofs.Pattern.Division
import Recast.Proofs.Pattern.Separator

/-!
# Scanning joined texts

Two texts are joined by a line feed. A pattern whose conditions cannot tell a
line feed from the edge of the text is found in each of them as if it stood
alone, unless one of its readings bridges the joint. The scan then divides the
whole as it divides the parts (`segments_join`), so that matches and
replacements of the whole are those of the parts. A pattern that takes no line
feed bridges no joint, so that it is replaced line by line
(`substitute_unlines`), and no joint in front of line feeds alone is bridged by
a pattern whose readings never end in one (`substitute_append_breaks`).
-/

namespace Recast

namespace Pattern

variable {p : Pattern}

/-! ## The joint -/

/-- Some reading that starts in `u`, or at the line feed after it, takes the
line feed and what it wants of `v`. -/
def Bridges (p : Pattern) (u v : Text) : Prop :=
  ∃ pre w x rest before gs, u = pre ++ w ∧ v = x ++ rest ∧
    p.Reads before (w ++ '\n' :: x) rest gs

theorem Bridges.append_left {u v : Text} (h : p.Bridges u v) (t : Text) :
    p.Bridges (t ++ u) v := by
  obtain ⟨pre, w, x, rest, before, gs, rfl, rfl, hread⟩ := h
  exact ⟨t ++ pre, w, x, rest, before, gs, by simp, rfl, hread⟩

theorem matchAt_join (hp : p.Blind (· == '\n')) {u v : Text}
    (h : ¬ p.Bridges u v) (before : Option Char) :
    p.matchAt before (u ++ '\n' :: v) = p.matchAt before u := by
  apply matchAt_append_of_stop hp (by simp)
  intro x rest gs hv hread
  exact h ⟨[], u, x, rest, before, gs, rfl, hv, hread⟩

/-- What the scan makes of two texts, it makes of their join. -/
theorem Divides.join (hp : p.Blind (· == '\n')) {v : Text} {ss' : List Segment}
    (hv : p.Divides (some '\n') v ss') {before : Option Char} {u : Text}
    {ss : List Segment} (hu : p.Divides before u ss) (h : ¬ p.Bridges u v) :
    p.Divides before (u ++ '\n' :: v) (ss ++ .gap '\n' :: ss') := by
  induction hu with
  | @nil before =>
      have hnone : p.matchAt before ('\n' :: v) = none := by
        have hjoin := matchAt_join hp h before
        cases hm : p.matchAt before [] with
        | none => rwa [hm] at hjoin
        | some m =>
            obtain ⟨rest, ht, hne, -⟩ := matchAt_reads hm
            exact absurd (List.append_eq_nil_iff.mp ht.symm).1 hne
      exact .gap hnone hv
  | @gap before c cs ss hm tail ih =>
      have hjoin := matchAt_join hp h before
      rw [hm] at hjoin
      exact .gap hjoin (ih fun hb => h (hb.append_left [c]))
  | @hit before m rest ss hm read tail ih =>
      have hjoin := matchAt_join hp h before
      rw [hm, List.append_assoc] at hjoin
      obtain ⟨rest', ht, -, hread⟩ := matchAt_reads hjoin
      obtain rfl := List.append_cancel_left ht
      rw [List.append_assoc]
      exact .hit hjoin hread (ih fun hb => h (hb.append_left m.text))

theorem segmentsFrom_after_break (hp : p.Blind (· == '\n')) (t : Text) :
    p.segmentsFrom (some '\n') 0 t = p.segments t := by
  cases t with
  | nil => rfl
  | cons c t =>
      rw [segments, segmentsFrom, segmentsFrom, matchAt_after_sep hp (by simp)]

/-- The pieces of joined texts are the pieces of each, with the line feed
between them. -/
theorem segments_join (hp : p.Blind (· == '\n')) {u v : Text}
    (h : ¬ p.Bridges u v) :
    p.segments (u ++ '\n' :: v) =
      p.segments u ++ .gap '\n' :: p.segments v := by
  have hv := p.divides_segmentsFrom (some '\n') v
  rw [segmentsFrom_after_break hp] at hv
  exact (Divides.join hp hv (p.divides_segments u) h).eq_segmentsFrom.symm

theorem matchesIn_join (hp : p.Blind (· == '\n')) {u v : Text}
    (h : ¬ p.Bridges u v) :
    p.matchesIn (u ++ '\n' :: v) = p.matchesIn u ++ p.matchesIn v := by
  simp only [matchesIn_eq_filterMap, segments_join hp h, List.filterMap_append]
  rfl

theorem substitute_join (hp : p.Blind (· == '\n')) {u v : Text}
    (h : ¬ p.Bridges u v) (f : Match → Text) :
    p.substitute f (u ++ '\n' :: v) =
      p.substitute f u ++ '\n' :: p.substitute f v := by
  rw [substitute, segments_join hp h, List.flatMap_append]
  rfl

end Pattern

/-! ## Conditions that are blind to line feeds -/

/-- The condition cannot tell a line feed from the edge of the text. -/
def Anchor.breakBlind : Anchor → Bool
  | textStart | textEnd => false
  | lineStart | lineEnd | wordEdge => true
  | notNext ok => !ok '\n'

theorem Anchor.blind_of_breakBlind {a : Anchor} (h : a.breakBlind = true) :
    a.Blind (· == '\n') := by
  cases a with
  | textStart | textEnd => exact Bool.noConfusion h
  | lineStart =>
      intro c hc
      rw [beq_iff_eq.mp hc]
      exact ⟨fun _ => rfl, fun _ _ _ => rfl⟩
  | lineEnd =>
      intro c hc
      rw [beq_iff_eq.mp hc]
      refine ⟨fun _ => rfl, fun before rest tail => ?_⟩
      cases rest <;> rfl
  | wordEdge =>
      apply Anchor.blind_wordEdge
      intro c hc
      rw [beq_iff_eq.mp hc]
      decide
  | notNext ok =>
      apply Anchor.blind_notNext
      intro c hc
      rw [beq_iff_eq.mp hc]
      simpa [breakBlind] using h

namespace Pattern

def breakBlind : Pattern → Bool
  | empty | one _ | many _ _ => true
  | anchor a => a.breakBlind
  | seq p q | either p q => p.breakBlind && q.breakBlind
  | group p => p.breakBlind

theorem blind_of_breakBlind {p : Pattern} (h : p.breakBlind = true) :
    p.Blind (· == '\n') := by
  induction p with
  | empty | one | many => trivial
  | anchor a => exact Anchor.blind_of_breakBlind h
  | seq p q ihp ihq | either p q ihp ihq =>
      rw [breakBlind, Bool.and_eq_true] at h
      exact ⟨ihp h.1, ihq h.2⟩
  | group p ih => exact ih h

/-! ## The last character of a reading -/

/-- The pattern takes at least one character. -/
def solid : Pattern → Bool
  | empty | many _ _ | anchor _ => false
  | one _ => true
  | seq p q => p.solid || q.solid
  | either p q => p.solid && q.solid
  | group p => p.solid

theorem Reads.ne_nil {p : Pattern} {before : Option Char} {u rest : Text}
    {gs : List (Option Text)} (h : p.Reads before u rest gs)
    (hp : p.solid = true) : u ≠ [] := by
  induction h with
  | empty | many | anchor => exact Bool.noConfusion hp
  | one => simp
  | seq _ _ ihp ihq =>
      rw [solid, Bool.or_eq_true] at hp
      rcases hp with hp | hp
      · exact List.append_ne_nil_of_left_ne_nil (ihp hp) _
      · exact List.append_ne_nil_of_right_ne_nil _ (ihq hp)
  | left _ ih =>
      rw [solid, Bool.and_eq_true] at hp
      exact ih hp.1
  | right _ ih =>
      rw [solid, Bool.and_eq_true] at hp
      exact ih hp.2
  | group _ ih => exact ih hp

/-- No reading of the pattern ends in `c`. -/
def endsBefore (c : Char) : Pattern → Bool
  | empty | anchor _ => true
  | one ok | many _ ok => !ok c
  | seq p q => q.endsBefore c && (q.solid || p.endsBefore c)
  | either p q => p.endsBefore c && q.endsBefore c
  | group p => p.endsBefore c

theorem Reads.getLast?_ne {p : Pattern} {before : Option Char} {u rest : Text}
    {gs : List (Option Text)} (h : p.Reads before u rest gs) {c : Char}
    (hp : p.endsBefore c = true) : u.getLast? ≠ some c := by
  induction h with
  | empty | anchor => simp
  | one hc =>
      rintro hlast
      obtain rfl : _ = c := by simpa using hlast
      simp [endsBefore, hc] at hp
  | many hu =>
      intro hlast
      have hc := hu c (List.mem_of_getLast? hlast)
      simp [endsBefore, hc] at hp
  | @seq p q before u v rest gs hs hu hv ihp ihq =>
      rw [endsBefore, Bool.and_eq_true, Bool.or_eq_true] at hp
      cases v with
      | nil =>
          -- the second part takes nothing, so it is not solid
          rcases hp.2 with hsolid | hp
          · exact absurd rfl (hv.ne_nil hsolid)
          · simpa using ihp hp
      | cons d v =>
          rw [List.getLast?_append_of_ne_nil _ (by simp)]
          exact ihq hp.1
  | left _ ih =>
      rw [endsBefore, Bool.and_eq_true] at hp
      exact ih hp.1
  | right _ ih =>
      rw [endsBefore, Bool.and_eq_true] at hp
      exact ih hp.2
  | group _ ih => exact ih hp

/-! ## Line by line -/

/-- The pattern takes no line feed and cannot tell one from the edge of the
text. -/
def breakFree : Pattern → Bool
  | empty => true
  | one ok | many _ ok => !ok '\n'
  | anchor a => a.breakBlind
  | seq p q | either p q => p.breakFree && q.breakFree
  | group p => p.breakFree

theorem within_of_breakFree {p : Pattern} (h : p.breakFree = true) :
    p.Within (· == '\n') := by
  induction p with
  | empty => trivial
  | one ok | many _ ok =>
      intro c hc
      rw [beq_iff_eq.mp hc]
      simpa [breakFree] using h
  | anchor a => exact Anchor.blind_of_breakBlind h
  | seq p q ihp ihq | either p q ihp ihq =>
      rw [breakFree, Bool.and_eq_true] at h
      exact ⟨ihp h.1, ihq h.2⟩
  | group p ih => exact ih h

theorem not_bridges_of_breakFree {p : Pattern} (h : p.breakFree = true)
    (u v : Text) :
    ¬ p.Bridges u v := by
  rintro ⟨pre, w, x, rest, before, gs, -, -, hread⟩
  have hbreak := hread.not_sep (within_of_breakFree h) '\n' (by simp)
  exact absurd hbreak (by decide)

/-- A pattern within lines is replaced in each line by itself. -/
theorem substitute_unlines {p : Pattern} (h : p.breakFree = true)
    (f : Match → Text) (ls : List Text) :
    p.substitute f (Text.unlines ls) =
      Text.unlines (ls.map (p.substitute f)) := by
  induction ls with
  | nil => rfl
  | cons l ls ih =>
      cases ls with
      | nil => simp [Text.unlines_singleton]
      | cons k ls =>
          rw [Text.unlines_cons_cons,
            substitute_join (within_of_breakFree h).blind
              (not_bridges_of_breakFree h _ _),
            ih]
          exact (Text.unlines_cons_cons _ _ _).symm

/-! ## Line feeds at the end -/

theorem not_bridges_breaks {p : Pattern} (hp : p.endsBefore '\n' = true)
    (u : Text) (k : Nat) :
    ¬ p.Bridges u (List.replicate k '\n') := by
  rintro ⟨pre, w, x, rest, before, gs, -, hx, hread⟩
  apply hread.getLast?_ne hp
  -- what the reading takes beyond the joint are line feeds too
  have hall : ∀ c ∈ '\n' :: x, c = '\n' := by
    intro c hc
    rcases List.mem_cons.mp hc with rfl | hc
    · rfl
    · exact List.eq_of_mem_replicate (hx ▸ List.mem_append_left rest hc)
  rw [List.getLast?_append_of_ne_nil _ (by simp),
    List.getLast?_eq_getLast_of_ne_nil (by simp)]
  exact congrArg some (hall _ (List.getLast_mem _))

variable {p : Pattern} (hblind : p.Blind (· == '\n'))
    (hend : p.endsBefore '\n' = true)
include hblind hend

theorem substitute_append_breaks (f : Match → Text) (t : Text) (k : Nat) :
    p.substitute f (t ++ List.replicate k '\n') =
      p.substitute f t ++ List.replicate k '\n' := by
  induction k generalizing t with
  | zero => simp
  | succ k ih =>
      have hbreaks : p.substitute f (List.replicate k '\n') =
          List.replicate k '\n' := ih []
      rw [List.replicate_succ,
        substitute_join hblind (not_bridges_breaks hend t k), hbreaks]

theorem matchesIn_append_breaks (t : Text) (k : Nat) :
    p.matchesIn (t ++ List.replicate k '\n') = p.matchesIn t := by
  induction k generalizing t with
  | zero => simp
  | succ k ih =>
      have hbreaks : p.matchesIn (List.replicate k '\n') = [] := ih []
      rw [List.replicate_succ,
        matchesIn_join hblind (not_bridges_breaks hend t k), hbreaks,
        List.append_nil]

theorem foundIn_append_breaks (t : Text) (k : Nat) :
    p.foundIn (t ++ List.replicate k '\n') = p.foundIn t := by
  rw [foundIn_eq_matchesIn, foundIn_eq_matchesIn,
    matchesIn_append_breaks hblind hend]

omit hblind hend in
theorem mentions_append_breaks {s : Text} (hs : s ≠ [])
    (hbreak : s.any (· == '\n') = false) (t : Text) (k : Nat) :
    (t ++ List.replicate k '\n').mentions s = t.mentions s := by
  induction k generalizing t with
  | zero => simp
  | succ k ih =>
      have hbreaks : Text.mentions (List.replicate k '\n') s = false := by
        refine (ih []).trans ?_
        rw [Text.mentions, List.isEmpty_eq_false_iff]
        exact hs
      rw [List.replicate_succ, mentions_append_sep hs hbreak (by decide),
        hbreaks, Bool.or_false]

end Pattern

end Recast
