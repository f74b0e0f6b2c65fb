/-!
# Tables in order of insertion

A table holds at most one entry for each key and keeps its entries in the order
in which their keys first came. Giving a key a new value leaves the entry where
it is.
-/

namespace Recast

/-- Entries with distinct keys. -/
structure Table (κ α : Type) where
  entries : List (κ × α)
  nodup : (entries.map Prod.fst).Nodup
deriving DecidableEq

namespace Table

variable {κ α β : Type}

@[ext]
theorem ext {s t : Table κ α} (h : s.entries = t.entries) : s = t := by
  cases s
  cases t
  cases h
  rfl

/-- The table without entries. -/
def empty : Table κ α := ⟨[], List.nodup_nil⟩

/-- The keys in order. -/
def keys (t : Table κ α) : List κ := t.entries.map Prod.fst

section Insert

variable [DecidableEq κ]

/-- The value of a key. -/
def get? (t : Table κ α) (k : κ) : Option α := t.entries.lookup k

/-- Whether a key has a value. -/
def contains (t : Table κ α) (k : κ) : Bool := decide (k ∈ t.keys)

/-- Entries with the value of `k` replaced, or with a new last entry. -/
def insertEntry (k : κ) (a : α) : List (κ × α) → List (κ × α)
  | [] => [(k, a)]
  | e :: es => if e.1 = k then (k, a) :: es else e :: insertEntry k a es

theorem keys_insertEntry (k : κ) (a : α) (es : List (κ × α)) :
    (insertEntry k a es).map Prod.fst =
      if k ∈ es.map Prod.fst then es.map Prod.fst
      else es.map Prod.fst ++ [k] := by
  induction es with
  | nil => simp [insertEntry]
  | cons e es ih =>
    by_cases h : e.1 = k
    · simp [insertEntry, h]
    · by_cases hk : k ∈ es.map Prod.fst
      · rw [insertEntry, if_neg h, List.map_cons, ih, if_pos hk, List.map_cons,
          if_pos (List.mem_cons_of_mem _ hk)]
      · have hnone : k ∉ e.1 :: es.map Prod.fst := by
          simp only [List.mem_cons, not_or]
          exact ⟨fun e => h e.symm, hk⟩
        rw [insertEntry, if_neg h, List.map_cons, ih, if_neg hk, List.map_cons,
          if_neg hnone]
        rfl

theorem nodup_insertEntry (k : κ) (a : α) {es : List (κ × α)}
    (h : (es.map Prod.fst).Nodup) :
    ((insertEntry k a es).map Prod.fst).Nodup := by
  rw [keys_insertEntry]
  split
  · exact h
  · rename_i hk
    refine List.nodup_append.2 ⟨h, by simp, fun x hx y hy => ?_⟩
    rw [List.mem_singleton.1 hy]
    exact fun e => hk (e ▸ hx)

/-- The table in which `k` has the value `a`. -/
def insert (t : Table κ α) (k : κ) (a : α) : Table κ α :=
  ⟨insertEntry k a t.entries, nodup_insertEntry k a t.nodup⟩

/-- The table of the pairs: a key stands where it first comes and has the value
that comes last. -/
def ofList (es : List (κ × α)) : Table κ α :=
  es.foldl (fun t e => t.insert e.1 e.2) empty

/-- The keys after an insertion: a known key keeps its place, a new one is
last. -/
theorem keys_insert (t : Table κ α) (k : κ) (a : α) :
    (t.insert k a).keys = if k ∈ t.keys then t.keys else t.keys ++ [k] :=
  keys_insertEntry k a t.entries

end Insert

/-- The table with each value mapped. -/
def map (f : κ → α → β) (t : Table κ α) : Table κ β :=
  ⟨t.entries.map fun e => (e.1, f e.1 e.2), by
    have h : (t.entries.map fun e => (e.1, f e.1 e.2)).map Prod.fst =
        t.entries.map Prod.fst := by
      simp [Function.comp_def]
    exact h ▸ t.nodup⟩

end Table

end Recast
