import Mathlib.Data.List.Nodup
import Recast.Table

/-!
# Tables filled from pairs

A table that takes in pairs one after the other is known by its keys, each where
it first came (`keys_insertAll`), and by their values, each the last that came
(`get?_insertAll`). A table is determined by these two (`ext_get?`), so that
taking in two rows of pairs is bringing the table of the first up to date with
the table of the second (`ofList_append`).
-/

namespace Recast

/-! ## Repetitions left out -/

section Repetitions

variable {α : Type} [BEq α] [LawfulBEq α]

theorem eraseDups_of_nodup {l : List α} (h : l.Nodup) : l.eraseDups = l := by
  induction l with
  | nil => rfl
  | cons a l ih =>
      rw [List.nodup_cons] at h
      have hall : l.filter (fun b => !b == a) = l := by
        rw [List.filter_eq_self]
        intro b hb
        have hne : b ≠ a := fun e => h.1 (e ▸ hb)
        simpa using hne
      rw [List.eraseDups_cons, hall, ih h.2]

theorem eraseDups_filter (p : α → Bool) (l : List α) :
    (l.filter p).eraseDups = l.eraseDups.filter p := by
  -- the tail is filtered before its repetitions are left out, so the induction
  -- is on the length
  induction h : l.length using Nat.strongRecOn generalizing l with
  | ind n ih =>
      cases l with
      | nil => rfl
      | cons a l =>
          subst h
          have htail := ih (l.filter fun b => !b == a).length
            (Nat.lt_succ_of_le (List.length_filter_le _ l)) _ rfl
          rw [List.eraseDups_cons]
          by_cases ha : p a = true
          · rw [List.filter_cons_of_pos ha, List.filter_cons_of_pos ha,
              List.eraseDups_cons, ← htail, List.filter_filter,
              List.filter_filter]
            simp only [Bool.and_comm]
          · rw [List.filter_cons_of_neg ha, List.filter_cons_of_neg ha, ← htail,
              List.filter_filter]
            congr 1
            apply List.filter_congr
            intro b _
            by_cases hb : b = a <;> simp [hb, ha]

/-- Of two rows the second adds what the first does not have. -/
theorem eraseDups_append_eq_filter (l m : List α) :
    (l ++ m).eraseDups =
      l.eraseDups ++ m.eraseDups.filter (· ∉ l.eraseDups) := by
  rw [List.eraseDups_append, List.removeAll, eraseDups_filter]
  congr 1
  apply List.filter_congr
  intro a _
  simp [List.mem_eraseDups]

end Repetitions

namespace Table

variable {κ α : Type} [DecidableEq κ]

/-- The table after the pairs, taken in from left to right. -/
def insertAll (t : Table κ α) (es : List (κ × α)) : Table κ α :=
  es.foldl (fun t e => t.insert e.1 e.2) t

/-- The table with the entries of another: known keys keep their place and get
the new value, new ones follow. -/
def update (s t : Table κ α) : Table κ α := s.insertAll t.entries

@[simp] theorem insertAll_nil (t : Table κ α) : t.insertAll [] = t := rfl

@[simp] theorem insertAll_cons (t : Table κ α) (e : κ × α) (es : List (κ × α)) :
    t.insertAll (e :: es) = (t.insert e.1 e.2).insertAll es := rfl

/-! ## Keys -/

section Keys

variable [BEq κ] [LawfulBEq κ]

/-- Keys stand in the order in which they first came. -/
theorem keys_insertAll (t : Table κ α) (es : List (κ × α)) :
    (t.insertAll es).keys =
      t.keys ++ ((es.map Prod.fst).filter (· ∉ t.keys)).eraseDups := by
  induction es generalizing t with
  | nil => simp
  | cons e es ih =>
      rw [insertAll_cons, ih, keys_insert]
      by_cases h : e.1 ∈ t.keys
      · simp [h]
      · have hrest : ((es.map Prod.fst).filter (· ∉ t.keys ++ [e.1])) =
            ((es.map Prod.fst).filter (· ∉ t.keys)).filter
              (fun k => !k == e.1) := by
          rw [List.filter_filter]
          apply List.filter_congr
          intro k _
          by_cases hk : k = e.1 <;> simp [hk]
        rw [if_neg h, List.map_cons, List.filter_cons_of_pos (by simpa using h),
          List.eraseDups_cons, hrest, List.append_assoc]
        rfl

theorem keys_ofList (es : List (κ × α)) :
    (ofList es).keys = (es.map Prod.fst).eraseDups := by
  have hall : (es.map Prod.fst).filter (· ∉ (empty : Table κ α).keys) =
      es.map Prod.fst :=
    List.filter_eq_self.mpr fun k _ => by simp [keys, empty]
  have h := keys_insertAll (empty : Table κ α) es
  rw [hall] at h
  exact h

end Keys

/-! ## Values -/

theorem lookup_cons_eq_ite (j : κ) (e : κ × α) (es : List (κ × α)) :
    (e :: es).lookup j = if j = e.1 then some e.2 else es.lookup j := by
  by_cases h : j = e.1
  · rw [h, if_pos rfl, List.lookup_cons_self]
  · rw [List.lookup_cons, beq_false_of_ne h, if_neg h]

theorem lookup_insertEntry (k j : κ) (a : α) (es : List (κ × α)) :
    (insertEntry k a es).lookup j = if j = k then some a else es.lookup j := by
  induction es with
  | nil => rw [insertEntry, lookup_cons_eq_ite]
  | cons e es ih =>
      rw [insertEntry]
      split
      · rename_i he
        rw [lookup_cons_eq_ite, lookup_cons_eq_ite, he]
        by_cases h : j = k <;> simp [h]
      · rename_i he
        rw [lookup_cons_eq_ite, lookup_cons_eq_ite, ih]
        by_cases h : j = k
        · have hne : ¬ k = e.1 := fun hk => he hk.symm
          simp [h, hne]
        · simp [h]

theorem get?_insert (t : Table κ α) (k j : κ) (a : α) :
    (t.insert k a).get? j = if j = k then some a else t.get? j :=
  lookup_insertEntry k j a t.entries

/-- The value of a key is the last that came, or else the one that it had. -/
theorem get?_insertAll (t : Table κ α) (es : List (κ × α)) (k : κ) :
    (t.insertAll es).get? k = (es.reverse.lookup k).or (t.get? k) := by
  induction es generalizing t with
  | nil => rfl
  | cons e es ih =>
      rw [insertAll_cons, ih, get?_insert, List.reverse_cons,
        List.lookup_append, Option.or_assoc]
      rw [lookup_cons_eq_ite]
      by_cases h : k = e.1 <;> simp [h]

/-- Where all pairs for a key agree on its value, it has this value. -/
theorem get?_ofList {es : List (κ × α)} {k : κ} {a : α} (hk : (k, a) ∈ es)
    (h : ∀ e ∈ es, e.1 = k → e.2 = a) : (ofList es).get? k = some a := by
  have hvalue : ∀ fs : List (κ × α), (k, a) ∈ fs →
      (∀ e ∈ fs, e.1 = k → e.2 = a) →
      fs.lookup k = some a := by
    intro fs hmem hsame
    induction fs with
    | nil => simp at hmem
    | cons e fs ih =>
        rw [lookup_cons_eq_ite]
        by_cases he : k = e.1
        · rw [if_pos he, hsame e (by simp) he.symm]
        · rw [if_neg he]
          refine ih ?_ fun f hf => hsame f (List.mem_cons_of_mem e hf)
          rcases List.mem_cons.mp hmem with rfl | hmem
          · exact absurd rfl he
          · exact hmem
  have hlast := get?_insertAll (empty : Table κ α) es k
  rw [hvalue es.reverse (by simpa using hk) (by simpa using h)] at hlast
  exact hlast

/-! ## A table is its keys and their values -/

omit [DecidableEq κ] in
theorem lookup_of_mem [BEq κ] [LawfulBEq κ] {es : List (κ × α)}
    (hnodup : (es.map Prod.fst).Nodup) {e : κ × α} (he : e ∈ es) :
    es.lookup e.1 = some e.2 := by
  induction es with
  | nil => simp at he
  | cons f es ih =>
      rw [List.map_cons, List.nodup_cons] at hnodup
      rcases List.mem_cons.mp he with rfl | he
      · exact List.lookup_cons_self
      · have hne : e.1 ≠ f.1 := fun h => hnodup.1 (h ▸ List.mem_map_of_mem he)
        rw [List.lookup_cons, beq_false_of_ne hne]
        exact ih hnodup.2 he

theorem map_some_entries (t : Table κ α) :
    t.entries.map some = t.keys.map fun k => (t.get? k).map (Prod.mk k) := by
  rw [keys, List.map_map]
  apply List.map_congr_left
  intro e he
  simp [get?, lookup_of_mem t.nodup he]

theorem ext_get? {s t : Table κ α} (hkeys : s.keys = t.keys)
    (hget : ∀ k, s.get? k = t.get? k) :
    s = t := by
  apply ext
  apply List.map_injective_iff.mpr (fun _ _ => Option.some.inj)
  rw [map_some_entries, map_some_entries, hkeys]
  simp only [hget]

theorem mem_of_get? {t : Table κ α} {k : κ} {a : α} (h : t.get? k = some a) :
    (k, a) ∈ t.entries := by
  obtain ⟨fs, gs, hsplit, -⟩ := List.lookup_eq_some_iff.mp h
  rw [hsplit]
  simp

/-- A table holds only pairs that it was given. -/
theorem mem_of_mem_ofList {es : List (κ × α)} {e : κ × α}
    (he : e ∈ (ofList es).entries) : e ∈ es := by
  have hvalue : (ofList es).get? e.1 = some e.2 :=
    lookup_of_mem (ofList es).nodup he
  have hlast : es.reverse.lookup e.1 = some e.2 :=
    ((get?_insertAll empty es e.1).trans Option.or_none).symm.trans hvalue
  obtain ⟨fs, gs, hsplit, -⟩ := List.lookup_eq_some_iff.mp hlast
  rw [← List.mem_reverse, hsplit]
  simp

/-! ## Bringing a table up to date -/

theorem keys_update (s t : Table κ α) :
    (s.update t).keys = s.keys ++ t.keys.filter (· ∉ s.keys) := by
  rw [update, keys_insertAll, eraseDups_filter]
  exact congrArg (s.keys ++ List.filter _ ·) (eraseDups_of_nodup t.nodup)

theorem get?_update (s t : Table κ α) (k : κ) :
    (s.update t).get? k = (t.get? k).or (s.get? k) := by
  have hnodup : (t.entries.reverse.map Prod.fst).Nodup := by
    rw [List.map_reverse]
    exact List.nodup_reverse.mpr t.nodup
  have hreverse : t.entries.reverse.lookup k = t.get? k := by
    cases h : t.get? k with
    | none =>
        rw [get?, List.lookup_eq_none_iff] at h
        rw [List.lookup_eq_none_iff]
        exact fun e he => h e (List.mem_reverse.mp he)
    | some a =>
        obtain ⟨fs, gs, hsplit, -⟩ := List.lookup_eq_some_iff.mp h
        have hmem : (k, a) ∈ t.entries.reverse := by simp [hsplit]
        exact lookup_of_mem hnodup hmem
  rw [update, get?_insertAll, hreverse]

/-- The entries of a table make the table again. -/
theorem ofList_entries (t : Table κ α) : ofList t.entries = t := by
  have hupdate : ofList t.entries = (empty : Table κ α).update t := rfl
  rw [hupdate]
  apply ext_get?
  · rw [keys_update]
    exact List.filter_eq_self.mpr fun k _ => by simp [keys, empty]
  · intro k
    rw [get?_update]
    exact Option.or_none

/-- A table that is brought up to date with the table of some pairs has taken in
the pairs. -/
theorem update_ofList (s : Table κ α) (es : List (κ × α)) :
    s.update (ofList es) = s.insertAll es := by
  apply ext_get?
  · rw [keys_update, keys_ofList, keys_insertAll, eraseDups_filter]
  · intro k
    have hvalue : (ofList es).get? k = es.reverse.lookup k :=
      (get?_insertAll empty es k).trans Option.or_none
    rw [get?_update, get?_insertAll, hvalue]

theorem ofList_append (es fs : List (κ × α)) :
    ofList (es ++ fs) = (ofList es).update (ofList fs) := by
  rw [update_ofList]
  exact List.foldl_append

end Table

end Recast
