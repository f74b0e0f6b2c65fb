import Recast.Proofs.Text.Layout

/-!
# Nested brackets

A text is nested if each of its round brackets is closed, and none is closed
before it is opened. `depth` counts how many are open at the end: in a nested
text it is nowhere negative, and zero at the end (`nestedFrom_iff`). So no part
at the end of a nested text opens more than it closes, and before a bracket that
closes stands one that opens.
-/

namespace Recast

namespace Text

/-! ## Depth -/

/-- How many round brackets are opened beyond those that are closed. -/
def depth (t : Text) : Int := t.count '(' - t.count ')'

@[simp] theorem depth_nil : depth [] = 0 := rfl

@[simp] theorem depth_append (s t : Text) :
    depth (s ++ t) = depth s + depth t := by
  simp only [depth, List.count_append]
  omega

theorem depth_cons (c : Char) (t : Text) :
    depth (c :: t) = depth [c] + depth t := depth_append [c] t

theorem depth_singleton {c : Char} (hopen : c ≠ '(') (hclose : c ≠ ')') :
    depth [c] = 0 := by
  simp [depth, hopen, hclose]

theorem open_mem_of_depth_pos {t : Text} (h : 0 < depth t) : '(' ∈ t := by
  apply List.count_pos_iff.mp
  rw [depth] at h
  omega

theorem close_mem_of_depth_neg {t : Text} (h : depth t < 0) : ')' ∈ t := by
  apply List.count_pos_iff.mp
  rw [depth] at h
  omega

/-! ## Nested texts -/

/-- The brackets are closed in order if `n` of them are open before the text. -/
def nestedFrom (n : Nat) : Text → Bool
  | [] => n == 0
  | c :: t =>
    if c = '(' then nestedFrom (n + 1) t
    else if c = ')' then n != 0 && nestedFrom (n - 1) t
    else nestedFrom n t

/-- The brackets are closed in order. -/
def Nested (t : Text) : Prop := nestedFrom 0 t = true

instance (t : Text) : Decidable (Nested t) :=
  inferInstanceAs (Decidable (_ = true))

theorem nestedFrom_iff {n : Nat} {t : Text} :
    nestedFrom n t = true ↔
      n + depth t = 0 ∧ ∀ a b, t = a ++ b → 0 ≤ n + depth a := by
  induction t generalizing n with
  | nil =>
      rw [nestedFrom, beq_iff_eq, depth_nil]
      refine ⟨fun h => ⟨by omega, ?_⟩, fun h => by omega⟩
      intro a b hab
      rw [(List.append_eq_nil_iff.mp hab.symm).1, depth_nil]
      omega
  | cons c t ih =>
      have hfronts : (∀ a b, c :: t = a ++ b → 0 ≤ n + depth a) ↔
          ∀ a b, t = a ++ b → 0 ≤ n + depth [c] + depth a := by
        constructor
        · intro h a b hab
          have hac := h (c :: a) b (by rw [hab]; rfl)
          rw [depth_cons] at hac
          omega
        · rintro h (_ | ⟨d, a⟩) b hab
          · simp
          · obtain ⟨rfl, htail⟩ := List.cons.inj hab
            have hac := h a b htail
            rw [depth_cons]
            omega
      rw [hfronts, depth_cons, nestedFrom]
      by_cases hopen : c = '('
      · have hdepth : depth [c] = 1 := by rw [hopen]; decide
        rw [if_pos hopen, ih, hdepth]
        simp only [Int.natCast_add, Int.natCast_one, Int.add_assoc]
      · by_cases hclose : c = ')'
        · have hdepth : depth [c] = -1 := by rw [hclose]; decide
          rw [if_neg hopen, if_pos hclose, hdepth]
          cases n with
          | zero =>
              refine ⟨fun h => by simp at h, fun h => ?_⟩
              have hneg := h.2 [] t rfl
              simp at hneg
          | succ n =>
              have hshift (x : Int) : ((n + 1 : Nat) : Int) + -1 + x =
                  n + x := by omega
              rw [Nat.add_sub_cancel, show (n + 1 != 0) = true from rfl,
                Bool.true_and, ih]
              simp only [hshift, ← Int.add_assoc]
        · rw [if_neg hopen, if_neg hclose, ih, depth_singleton hopen hclose]
          simp only [Int.add_zero, Int.zero_add]

variable {a b t : Text}

theorem Nested.depth_eq (h : Nested t) : depth t = 0 := by
  simpa using (nestedFrom_iff.mp h).1

theorem Nested.depth_left (h : Nested (a ++ b)) : 0 ≤ depth a := by
  simpa using (nestedFrom_iff.mp h).2 a b rfl

theorem Nested.depth_right (h : Nested (a ++ b)) : depth b ≤ 0 := by
  have hall := h.depth_eq
  have hleft := h.depth_left
  rw [depth_append] at hall
  omega

theorem Nested.append (ha : Nested a) (hb : Nested b) : Nested (a ++ b) := by
  refine nestedFrom_iff.mpr
    ⟨by rw [depth_append, ha.depth_eq, hb.depth_eq]; rfl, ?_⟩
  intro x y hxy
  rcases List.append_eq_append_iff.mp hxy with ⟨z, rfl, rfl⟩ | ⟨z, rfl, rfl⟩
  · have hz := hb.depth_left
    rw [depth_append, ha.depth_eq]
    omega
  · have hx := ha.depth_left
    omega

/-- Before a bracket that closes, more are open than none. -/
theorem Nested.depth_before_close (h : Nested (a ++ ')' :: b)) :
    0 < depth a := by
  have hclosed : Nested ((a ++ [')']) ++ b) := by simpa using h
  have hdepth := hclosed.depth_left
  have hclose : depth [')'] = -1 := by decide
  rw [depth_append, hclose] at hdepth
  omega

end Text

end Recast
