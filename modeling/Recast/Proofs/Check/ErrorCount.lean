import Recast.Check.Grammar

/-!
# Every error is counted

The count of errors leaves out a node that is not flagged, with all that it
holds, and so it reads other marks than those that it counts. It never exceeds
the number of faulty nodes in the tree (`errorCount_le`), and it reaches that
number exactly if the marks are consistent: a node is flagged if there is a
fault in it, at the node itself or at any depth below (`errorCount_eq_iff`).
-/

namespace Recast

namespace SyntaxTree

/-! ## Nodes of a tree -/

/-- The node is an error or stands for something missing. -/
def faulty : SyntaxTree → Bool
  | node error missing _ _ => error || missing

/-- The marks of the node say that it is worth looking into. -/
def flagged : SyntaxTree → Bool
  | node _ missing hasError _ => hasError || missing

mutual

/-- The tree and all trees below it, each before those that it holds. -/
def subtrees : SyntaxTree → List SyntaxTree
  | node error missing hasError children =>
    node error missing hasError children :: subtreesOfRow children

/-- The trees of a row and all trees below them. -/
def subtreesOfRow : List SyntaxTree → List SyntaxTree
  | [] => []
  | t :: ts => subtrees t ++ subtreesOfRow ts

end

/-- The number of faulty nodes in the tree. -/
def faultCount (t : SyntaxTree) : Nat := t.subtrees.countP faulty

/-- Some node of the tree is faulty. -/
def holdsFault (t : SyntaxTree) : Bool := t.subtrees.any faulty

/-- Each node of the tree that holds a fault is flagged. -/
def Consistent (t : SyntaxTree) : Prop :=
  ∀ s ∈ t.subtrees, s.holdsFault = true → s.flagged = true

/-- The trees of the row are consistent. -/
def ConsistentRow (ts : List SyntaxTree) : Prop :=
  ∀ s ∈ subtreesOfRow ts, s.holdsFault = true → s.flagged = true

instance (t : SyntaxTree) : Decidable t.Consistent :=
  inferInstanceAs (Decidable (∀ s ∈ t.subtrees, _ → _))

theorem faultCount_eq_zero_iff (t : SyntaxTree) :
    t.faultCount = 0 ↔ t.holdsFault = false := by
  simp [faultCount, holdsFault, List.countP_eq_zero]

mutual

theorem mem_subtrees_trans {u s : SyntaxTree} (hu : u ∈ s.subtrees) :
    ∀ {t : SyntaxTree}, s ∈ t.subtrees → u ∈ t.subtrees
  | node error missing hasError children, hs => by
      rw [subtrees, List.mem_cons] at hs
      rcases hs with rfl | hs
      · exact hu
      · rw [subtrees]
        exact List.mem_cons_of_mem _ (mem_subtreesOfRow_trans hu hs)

theorem mem_subtreesOfRow_trans {u s : SyntaxTree} (hu : u ∈ s.subtrees) :
    ∀ {ts : List SyntaxTree}, s ∈ subtreesOfRow ts → u ∈ subtreesOfRow ts
  | t :: ts, hs => by
      rw [subtreesOfRow, List.mem_append] at hs ⊢
      rcases hs with hs | hs
      · exact Or.inl (mem_subtrees_trans hu hs)
      · exact Or.inr (mem_subtreesOfRow_trans hu hs)

end

/-- A fault in a part of a tree is a fault in the tree. -/
theorem holdsFault_of_mem {s t : SyntaxTree} (hs : s ∈ t.subtrees)
    (h : s.holdsFault = true) :
    t.holdsFault = true := by
  obtain ⟨u, hu, hfaulty⟩ := List.any_eq_true.mp h
  exact List.any_eq_true.mpr ⟨u, mem_subtrees_trans hu hs, hfaulty⟩

/-- A tree without faults is consistent whatever its flags. -/
theorem consistent_of_not_holdsFault {t : SyntaxTree}
    (h : t.holdsFault = false) : t.Consistent := by
  intro s hs hfault
  rw [holdsFault_of_mem hs hfault] at h
  exact Bool.noConfusion h

/-! ## The counts, node by node -/

section Node

variable (error missing hasError : Bool) (children : List SyntaxTree)

theorem errorCount_of_flagged
    (h : (node error missing hasError children).flagged = true) :
    (node error missing hasError children).errorCount =
      (if (node error missing hasError children).faulty then 1 else 0) +
      errorCounts children := by
  rw [errorCount]
  exact if_pos h

theorem errorCount_of_not_flagged
    (h : (node error missing hasError children).flagged = false) :
    (node error missing hasError children).errorCount = 0 := by
  rw [errorCount]
  exact if_neg (Bool.eq_false_iff.mp h)

theorem faultCount_node :
    (node error missing hasError children).faultCount =
      (if (node error missing hasError children).faulty then 1 else 0) +
        (subtreesOfRow children).countP faulty := by
  rw [faultCount, subtrees, List.countP_cons, Nat.add_comm]

theorem consistent_node_iff :
    (node error missing hasError children).Consistent ↔
      ((node error missing hasError children).holdsFault = true →
        (node error missing hasError children).flagged = true) ∧
        ConsistentRow children := by
  unfold Consistent ConsistentRow
  rw [subtrees]
  exact List.forall_mem_cons

end Node

theorem countP_subtreesOfRow_cons (t : SyntaxTree) (ts : List SyntaxTree) :
    (subtreesOfRow (t :: ts)).countP faulty =
      t.faultCount + (subtreesOfRow ts).countP faulty := by
  rw [subtreesOfRow, List.countP_append]
  rfl

theorem consistentRow_cons_iff (t : SyntaxTree) (ts : List SyntaxTree) :
    ConsistentRow (t :: ts) ↔ t.Consistent ∧ ConsistentRow ts := by
  unfold Consistent ConsistentRow
  rw [subtreesOfRow]
  exact List.forall_mem_append

/-! ## The two counts compared -/

mutual

/-- Nothing is counted that is not there. -/
theorem errorCount_le : ∀ t : SyntaxTree, t.errorCount ≤ t.faultCount
  | node error missing hasError children => by
      have hbelow := errorCounts_le children
      rw [faultCount_node]
      cases hflagged : (node error missing hasError children).flagged with
      | true =>
          rw [errorCount_of_flagged _ _ _ _ hflagged]
          omega
      | false =>
          rw [errorCount_of_not_flagged _ _ _ _ hflagged]
          exact Nat.zero_le _

theorem errorCounts_le :
    ∀ ts : List SyntaxTree, errorCounts ts ≤ (subtreesOfRow ts).countP faulty
  | [] => Nat.le_refl 0
  | t :: ts => by
      have hfirst := errorCount_le t
      have hrest := errorCounts_le ts
      rw [errorCounts, countP_subtreesOfRow_cons]
      omega

end

mutual

/-- Nothing is left out exactly if the marks are consistent. -/
theorem errorCount_eq_iff :
    ∀ t : SyntaxTree, t.errorCount = t.faultCount ↔ t.Consistent
  | node error missing hasError children => by
      have hbelow := errorCounts_eq_iff children
      cases hflagged : (node error missing hasError children).flagged with
      | true =>
          rw [errorCount_of_flagged _ _ _ _ hflagged, faultCount_node,
            consistent_node_iff, ← hbelow, Nat.add_left_cancel_iff]
          exact ⟨fun h => ⟨fun _ => hflagged, h⟩, fun h => h.2⟩
      | false =>
          -- all of the tree is left out, so that there must be no fault in it
          rw [errorCount_of_not_flagged _ _ _ _ hflagged, eq_comm,
            faultCount_eq_zero_iff]
          refine ⟨consistent_of_not_holdsFault,
            fun h => Bool.eq_false_iff.mpr fun hfault => ?_⟩
          have hmarked := ((consistent_node_iff ..).mp h).1 hfault
          rw [hflagged] at hmarked
          exact Bool.noConfusion hmarked

theorem errorCounts_eq_iff :
    ∀ ts : List SyntaxTree, errorCounts ts = (subtreesOfRow ts).countP faulty ↔
      ConsistentRow ts
  | [] => by simp [errorCounts, subtreesOfRow, ConsistentRow]
  | t :: ts => by
      have hfirst := errorCount_le t
      have hrest := errorCounts_le ts
      rw [errorCounts, countP_subtreesOfRow_cons, consistentRow_cons_iff,
        ← errorCount_eq_iff t, ← errorCounts_eq_iff ts]
      -- a sum of two counts is full only if both are
      omega

end

/-- **Errors that are counted.** In a tree whose marks are consistent the count
of errors is the number of faulty nodes, and only in such a tree; in a tree with
any marks it is no more than that. -/
theorem errorCount_exact_iff_consistent (t : SyntaxTree) :
    (t.errorCount = t.subtrees.countP faulty ↔
      ∀ s ∈ t.subtrees, (∃ u ∈ s.subtrees, u.faulty = true) →
        s.flagged = true) ∧
    t.errorCount ≤ t.subtrees.countP faulty := by
  refine ⟨?_, errorCount_le t⟩
  have hfault (s : SyntaxTree) : (∃ u ∈ s.subtrees, u.faulty = true) ↔
      s.holdsFault = true :=
    List.any_eq_true.symm
  simp only [hfault]
  exact errorCount_eq_iff t

-- what is missing needs no other mark, but what stands above it does
example :
    (node false false true [node false false true
      [node false true false []]]).Consistent := by decide
example :
    ¬ (node false false true [node false false false
      [node false true false []]]).Consistent := by decide

end SyntaxTree

end Recast
