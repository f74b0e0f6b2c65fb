import Recast.Proofs.Pattern.Division
import Recast.Proofs.Text.Layout

/-!
# Replacements that only leave characters out

Some replacements write nothing of their own: a text becomes the same text
without some of its characters. `Thins` says of which places, and it says it
exactly. It goes through texts put together, so that a replacement which thins
every match thins the text (`thins_substitute`), at the places where its matches
are thinned.
-/

namespace Recast

namespace Text

/-- The characters that are marked as kept. -/
def keep (kept : List Bool) (t : Text) : Text :=
  (kept.zip t).filterMap fun p => if p.1 then some p.2 else none

/-- `out` is `t` without the characters at the places `gone`, and with all
others. -/
def Thins (gone : Nat → Prop) (t out : Text) : Prop :=
  ∃ kept : List Bool, kept.length = t.length ∧ out = t.keep kept ∧
    ∀ i, kept[i]? = some false ↔ gone i

theorem keep_append {kept : List Bool} {t : Text} (h : kept.length = t.length)
    (kept' : List Bool) (t' : Text) :
    keep (kept ++ kept') (t ++ t') = keep kept t ++ keep kept' t' := by
  rw [keep, List.zip_append h, List.filterMap_append]
  rfl

theorem keep_replicate (b : Bool) (t : Text) :
    keep (List.replicate t.length b) t = if b then t else [] := by
  induction t with
  | nil => cases b <;> rfl
  | cons c t ih =>
      rw [List.length_cons, List.replicate_succ, ← List.singleton_append,
        ← List.singleton_append (l := t), keep_append rfl, ih]
      cases b <;> rfl

theorem thins_none (t : Text) : Thins (fun _ => False) t t := by
  refine ⟨List.replicate t.length true, List.length_replicate,
    (keep_replicate true t).symm, fun i => ?_⟩
  simp [List.getElem?_replicate]

theorem thins_all (t : Text) : Thins (· < t.length) t [] := by
  refine ⟨List.replicate t.length false, List.length_replicate,
    (keep_replicate false t).symm, fun i => ?_⟩
  simp [List.getElem?_replicate]

namespace Thins

variable {gone gone' : Nat → Prop} {t t' out out' : Text}

theorem lt_length (h : Thins gone t out) {i : Nat} (hi : gone i) :
    i < t.length := by
  obtain ⟨kept, hlength, -, hgone⟩ := h
  have hsome := (hgone i).mpr hi
  rw [← hlength]
  exact (List.getElem?_eq_some_iff.mp hsome).1

theorem congr (h : Thins gone t out) (hiff : ∀ i, gone i ↔ gone' i) :
    Thins gone' t out := by
  obtain ⟨kept, hlength, hout, hgone⟩ := h
  exact ⟨kept, hlength, hout, fun i => (hgone i).trans (hiff i)⟩

theorem append (h : Thins gone t out) (h' : Thins gone' t' out') :
    Thins (fun i => gone i ∨ ∃ j, i = t.length + j ∧ gone' j) (t ++ t')
      (out ++ out') := by
  have hlt : ∀ {i}, gone i → i < t.length := h.lt_length
  obtain ⟨kept, hlength, rfl, hgone⟩ := h
  obtain ⟨kept', hlength', rfl, hgone'⟩ := h'
  refine ⟨kept ++ kept', by simp [hlength, hlength'],
    (keep_append hlength kept' t').symm, fun i => ?_⟩
  rcases Nat.lt_or_ge i t.length with hi | hi
  · rw [List.getElem?_append_left (hlength ▸ hi), hgone]
    refine ⟨Or.inl, fun hor => hor.resolve_right ?_⟩
    rintro ⟨j, rfl, -⟩
    omega
  · rw [List.getElem?_append_right (hlength ▸ hi), hlength, hgone']
    constructor
    · exact fun hj => Or.inr ⟨i - t.length, by omega, hj⟩
    · rintro (hi' | ⟨j, rfl, hj⟩)
      · exact absurd (hlt hi') (by omega)
      · rwa [Nat.add_sub_cancel_left]

/-- Only the places of the second text are thinned. -/
theorem append_left (a : Text) (h : Thins gone t out) :
    Thins (fun i => ∃ j, i = a.length + j ∧ gone j) (a ++ t) (a ++ out) :=
  ((thins_none a).append h).congr fun i => by simp

end Thins

end Text

namespace Pattern

open Text

theorem le_of_mem_located {start : Nat} {ss : List Segment} {o : Nat × Match}
    (h : o ∈ located start ss) :
    start ≤ o.1 := by
  induction ss generalizing start with
  | nil => exact absurd h List.not_mem_nil
  | cons s ss ih =>
      cases s with
      | gap c => exact Nat.le_of_succ_le (ih h)
      | hit m =>
          rcases List.mem_cons.mp h with rfl | h
          · exact Nat.le_refl _
          · exact Nat.le_trans (Nat.le_add_right _ _) (ih h)

variable {p : Pattern} {f : Match → Text} {loose : Text → Nat → Prop}

theorem Divides.thins_replaced
    (hhit : ∀ {m before rest}, p.Reads before m.text rest m.groups →
      Thins (loose m.text) m.text (f m))
    {before : Option Char} {t : Text} {ss : List Segment}
    (h : p.Divides before t ss) (start : Nat) :
    Thins (fun i => ∃ o ∈ located start ss, ∃ j, start + i = o.1 + j ∧
      loose o.2.text j) t
      (ss.flatMap (·.replaced f)) := by
  induction h generalizing start with
  | nil => exact (thins_none []).congr fun i => by simp [located]
  | @gap before c cs ss _ tail ih =>
      refine ((ih (start + 1)).append_left [c]).congr fun i => ?_
      constructor
      · rintro ⟨i, rfl, o, ho, j, hj, hloose⟩
        exact ⟨o, ho, j, by simp only [List.length_singleton]; omega, hloose⟩
      · rintro ⟨o, ho, j, hj, hloose⟩
        have hle : start + 1 ≤ o.1 := le_of_mem_located ho
        exact ⟨i - 1, by simp only [List.length_singleton]; omega, o, ho, j,
          by omega, hloose⟩
  | @hit before m rest ss _ read tail ih =>
      have hmatch := hhit read
      refine (hmatch.append (ih (start + m.text.length))).congr fun i => ?_
      constructor
      · rintro (hloose | ⟨i, rfl, o, ho, j, hj, hloose⟩)
        · exact ⟨(start, m), List.mem_cons_self, i, rfl, hloose⟩
        · exact ⟨o, List.mem_cons_of_mem _ ho, j, by omega, hloose⟩
      · rintro ⟨o, ho, j, hj, hloose⟩
        rcases List.mem_cons.mp ho with rfl | ho
        · obtain rfl : i = j := Nat.add_left_cancel hj
          exact Or.inl hloose
        · have hle := le_of_mem_located ho
          exact Or.inr ⟨i - m.text.length, by omega, o, ho, j, by omega, hloose⟩

/-- A replacement that thins every match thins the text, each match at its
place. -/
theorem thins_substitute
    (hhit : ∀ {m before rest}, p.Reads before m.text rest m.groups →
      Thins (loose m.text) m.text (f m))
    (t : Text) :
    Thins (fun i => ∃ o ∈ p.occurrences t, ∃ j, i = o.1 + j ∧ loose o.2.text j)
      t (p.substitute f t) :=
  ((p.divides_segments t).thins_replaced hhit 0).congr fun i => by
    rw [Nat.zero_add]; rfl

/-- Characters that every match has in common with its replacement stay in their
order. -/
theorem Divides.filter_replaced {ok : Char → Bool}
    (hhit : ∀ {m before rest}, p.Reads before m.text rest m.groups →
      (f m).filter ok = m.text.filter ok)
    {before : Option Char} {t : Text} {ss : List Segment}
    (h : p.Divides before t ss) :
    (ss.flatMap (·.replaced f)).filter ok = t.filter ok := by
  induction h with
  | nil => rfl
  | @gap before c cs ss _ tail ih =>
      rw [List.flatMap_cons, Segment.replaced_gap,
        ← List.singleton_append (l := cs), List.filter_append,
        List.filter_append, ih]
  | hit _ read tail ih =>
      rw [List.flatMap_cons, Segment.replaced_hit, List.filter_append,
        List.filter_append, hhit read, ih]

/-- Where every match stands for itself, nothing changes. -/
theorem Divides.replaced_eq_of_hits {before : Option Char} {t : Text}
    {ss : List Segment} (h : p.Divides before t ss)
    (hhit : ∀ m ∈ ss.filterMap Segment.hit?, f m = m.text) :
    ss.flatMap (·.replaced f) = t := by
  induction h with
  | nil => rfl
  | gap _ tail ih => exact congrArg (_ :: ·) (ih hhit)
  | @hit before m rest ss _ read tail ih =>
      rw [List.flatMap_cons, Segment.replaced_hit, hhit m List.mem_cons_self,
        ih fun n hn => hhit n (List.mem_cons_of_mem m hn)]

theorem substitute_eq_of_matches {t : Text}
    (h : ∀ m ∈ p.matchesIn t, f m = m.text) : p.substitute f t = t :=
  (p.divides_segments t).replaced_eq_of_hits (matchesIn_eq_filterMap p t ▸ h)

end Pattern

end Recast
