import Recast.Rendering.Statement

/-!
# The length of a slice

In PHP and C# a slice is given by its start and its length, and the length is
written as the end, a minus sign and the start as it stands. Read from left to
right, the minus sign reaches the first operand of the start only
(`value_difference`). The length is therefore right exactly where the other
operands of the start come to nothing (`slice_length_value`), as they do in a
start of one operand.
-/

namespace Recast

/-! ## Sums and differences -/

namespace Arith

/-- What a sum is written with. -/
inductive Token where
  /-- An identifier or a literal. -/
  | operand (word : Text)
  | plus
  | minus
  | other (c : Char)
deriving DecidableEq, Repr

/-- The tokens after one more character of the first word. -/
def Token.spell (c : Char) : List Token → List Token
  | .operand word :: ts => .operand (c :: word) :: ts
  | ts => .operand [c] :: ts

/-- The tokens of a text. Blanks only divide words. -/
def tokens : Text → List Token
  | [] => []
  | c :: cs =>
    if isWord c then
      if cs.head?.any isWord then Token.spell c (tokens cs)
      else .operand [c] :: tokens cs
    else if isBlank c then tokens cs
    else if c = '+' then .plus :: tokens cs
    else if c = '-' then .minus :: tokens cs
    else .other c :: tokens cs

/-- The value of a sum of which `total` has been read, from left to right. An
operand may have a minus sign of its own. -/
def valueFrom (ρ : Text → Int) (total : Int) : List Token → Option Int
  | [] => some total
  | .plus :: .operand word :: ts => valueFrom ρ (total + ρ word) ts
  | .plus :: .minus :: .operand word :: ts => valueFrom ρ (total + -ρ word) ts
  | .minus :: .operand word :: ts => valueFrom ρ (total - ρ word) ts
  | .minus :: .minus :: .operand word :: ts => valueFrom ρ (total - -ρ word) ts
  | _ => none

/-- The value of the first operand of a sum, and the tokens after it. -/
def lead (ρ : Text → Int) : List Token → Option (Int × List Token)
  | .operand word :: ts => some (ρ word, ts)
  | .minus :: .operand word :: ts => some (-ρ word, ts)
  | _ => none

/-- The value of a text as a sum, where `ρ` gives the values of its operands. -/
def value (ρ : Text → Int) (t : Text) : Option Int :=
  (lead ρ (tokens t)).bind fun l => valueFrom ρ l.1 l.2

/-- The value of the first operand alone. -/
def leadValue (ρ : Text → Int) (t : Text) : Option Int :=
  (lead ρ (tokens t)).map Prod.fst

/-- The values that are listed, and zero for any other operand. -/
def valuation (listed : List (Text × Int)) (word : Text) : Int :=
  (listed.lookup word).getD 0

example : tokens "n - i+10" =
    [.operand "n".toList, .minus, .operand "i".toList, .plus,
      .operand "10".toList] := by
  decide

variable {ρ : Text → Int}

/-! ## Tokens of a difference -/

theorem tokens_ne_nil {t : Text} (h : t.head?.any isWord = true) :
    tokens t ≠ [] := by
  cases t with
  | nil => simp at h
  | cons c cs =>
      have hc : isWord c = true := by simpa using h
      rw [tokens, if_pos hc]
      split
      · unfold Token.spell
        split <;> simp
      · simp

/-- A character that is in no word ends the word before it. -/
theorem tokens_append_cons {c : Char} (hc : isWord c = false) (u v : Text) :
    tokens (u ++ c :: v) = tokens u ++ tokens (c :: v) := by
  induction u with
  | nil => rfl
  | cons d u ih =>
      have hhead : (u ++ c :: v).head?.any isWord = u.head?.any isWord := by
        cases u with
        | nil => simp [hc]
        | cons e u => rfl
      rw [List.cons_append, tokens, tokens, hhead, ih]
      by_cases hd : isWord d = true
      · rw [if_pos hd, if_pos hd]
        by_cases hnext : u.head?.any isWord = true
        · rw [if_pos hnext, if_pos hnext]
          obtain ⟨x, xs, hx⟩ := List.exists_cons_of_ne_nil (tokens_ne_nil hnext)
          rw [hx]
          cases x <;> rfl
        · rw [if_neg hnext, if_neg hnext]
          rfl
      · rw [if_neg hd, if_neg hd]
        split
        · rfl
        · split
          · rfl
          · split <;> rfl

theorem tokens_difference (u v : Text) :
    tokens (u ++ " - " ++ v) = tokens u ++ .minus :: tokens v := by
  have hspaces : u ++ " - " ++ v = u ++ ' ' :: '-' :: ' ' :: v := by simp
  have hsign : tokens (' ' :: '-' :: ' ' :: v) = .minus :: tokens v := by rfl
  rw [hspaces, tokens_append_cons (by decide), hsign]

/-! ## Values -/

/-- Where a sum has been read to its end, reading goes on from its value. -/
theorem valueFrom_append {total b : Int} {ts : List Token}
    (h : valueFrom ρ total ts = some b) (us : List Token) :
    valueFrom ρ total (ts ++ us) = valueFrom ρ b us := by
  fun_induction valueFrom ρ total ts with
  | case1 total => rw [Option.some.inj h]; rfl
  | case2 total word ts ih | case3 total word ts ih | case4 total word ts ih
  | case5 total word ts ih =>
      exact ih h
  | case6 => simp at h

/-- What has been read is added to the value of the rest. -/
theorem valueFrom_add {total a : Int} {ts : List Token}
    (h : valueFrom ρ total ts = some a) (d : Int) :
    valueFrom ρ (total + d) ts = some (a + d) := by
  fun_induction valueFrom ρ total ts with
  | case1 total => rw [← Option.some.inj h]; rfl
  | case2 total word ts ih | case3 total word ts ih | case4 total word ts ih
  | case5 total word ts ih =>
      rw [valueFrom, ← ih h]
      congr 1
      omega
  | case6 => simp at h

theorem lead_cases {ts : List Token} {l : Int × List Token}
    (h : lead ρ ts = some l) :
    (∃ word us, ts = .operand word :: us ∧ l = (ρ word, us)) ∨
      ∃ word us, ts = .minus :: .operand word :: us ∧ l = (-ρ word, us) := by
  unfold lead at h
  split at h
  · exact Or.inl ⟨_, _, rfl, (Option.some.inj h).symm⟩
  · exact Or.inr ⟨_, _, rfl, (Option.some.inj h).symm⟩
  · cases h

theorem lead_append {ts us : List Token} {f : Int}
    (h : lead ρ ts = some (f, us)) (vs : List Token) :
    lead ρ (ts ++ vs) = some (f, us ++ vs) := by
  obtain ⟨word, ws, rfl, hl⟩ | ⟨word, ws, rfl, hl⟩ := lead_cases h <;>
    · obtain ⟨rfl, rfl⟩ := Prod.mk.inj hl
      rfl

/-- A minus sign before a sum reaches its first operand. -/
theorem valueFrom_minus {ts us : List Token} {f : Int}
    (h : lead ρ ts = some (f, us)) (total : Int) :
    valueFrom ρ total (.minus :: ts) = valueFrom ρ (total - f) us := by
  obtain ⟨word, ws, rfl, hl⟩ | ⟨word, ws, rfl, hl⟩ := lead_cases h <;>
    · obtain ⟨rfl, rfl⟩ := Prod.mk.inj hl
      rfl

/-- The value of two sums with a minus sign between them: the first operand of
the second is subtracted, and its other operands are added as they are. -/
theorem value_difference {start stop : Text} {a b : Int}
    (hstart : value ρ start = some a) (hstop : value ρ stop = some b) :
    ∃ f, leadValue ρ start = some f ∧
      value ρ (stop ++ " - " ++ start) = some (b - a + 2 * (a - f)) := by
  obtain ⟨⟨f, us⟩, hlead, ha⟩ := Option.bind_eq_some_iff.mp hstart
  obtain ⟨⟨g, vs⟩, hlead', hb⟩ := Option.bind_eq_some_iff.mp hstop
  refine ⟨f, by rw [leadValue, hlead]; rfl, ?_⟩
  calc value ρ (stop ++ " - " ++ start)
      = valueFrom ρ g (vs ++ .minus :: tokens start) := by
        rw [value, tokens_difference, lead_append hlead']
        rfl
    _ = valueFrom ρ (b - f) us := by
      rw [valueFrom_append hb, valueFrom_minus hlead]
    _ = valueFrom ρ (f + (b - 2 * f)) us := by congr 1; omega
    _ = some (a + (b - 2 * f)) := valueFrom_add ha _
    _ = some (b - a + 2 * (a - f)) := by congr 1; omega

theorem ne_nil_of_value {t : Text} {a : Int} (h : value ρ t = some a) :
    t ≠ [] := by
  rintro rfl
  simp [value, tokens, lead] at h

end Arith

namespace Target

open Arith

/-- **Slice lengths.** Where a slice has a start and an end, PHP and C# give its
length as one expression. It has the value of the end less the value of the
start exactly if the start has the value of its first operand. -/
theorem slice_length_value (name : Text) {start stop : Text}
    (hzero : start ≠ "0".toList) {ρ : Text → Int} {a b : Int}
    (hstart : value ρ start = some a) (hstop : value ρ stop = some b) :
    php.slice name start stop =
      "array_slice($" ++ name ++ ", " ++ start ++ ", (" ++
      (stop ++ " - " ++ start) ++ "))" ∧
    csharp.slice name start stop =
      name ++ ".Skip(" ++ start ++ ").Take(" ++ (stop ++ " - " ++ start) ++
      ").ToArray()" ∧
    ∃ f, leadValue ρ start = some f ∧
      value ρ (stop ++ " - " ++ start) = some (b - a + 2 * (a - f)) ∧
      (value ρ (stop ++ " - " ++ start) = some (b - a) ↔ f = a) := by
  have hstart_ne := ne_nil_of_value hstart
  have hstop_ne : stop.isEmpty = false :=
    List.isEmpty_eq_false_iff.mpr (ne_nil_of_value hstop)
  have hgiven : Text.orElse start "0" = start := by
    rw [Text.orElse, if_neg (by simpa using hstart_ne)]
  obtain ⟨f, hlead, hvalue⟩ := value_difference hstart hstop
  refine ⟨?_, ?_, f, hlead, hvalue, ?_⟩
  · rw [slice, hgiven, if_neg (by simp [hstop_ne]), if_neg hzero]
    simp
  · rw [slice, hgiven, if_neg (by simp [hstop_ne]), if_neg hzero]
    simp
  · rw [hvalue, Option.some.injEq]
    omega

/-- A start of one operand and an end of two. -/
theorem slice_length_value_single :
    "i".toList ≠ "0".toList ∧
    value (valuation [("1", 1), ("i", 3), ("n", 10)]) "i" = some 3 ∧
    value (valuation [("1", 1), ("i", 3), ("n", 10)]) "n + 1" = some 11 ∧
    value (valuation [("1", 1), ("i", 3), ("n", 10)]) ("n + 1" ++ " - " ++
      "i") = some (11 - 3) := by
  have hzero : "i".toList ≠ "0".toList := by decide
  have hstart : value (valuation [("1", 1), ("i", 3), ("n", 10)]) "i" =
      some 3 := by decide
  have hstop : value (valuation [("1", 1), ("i", 3), ("n", 10)]) "n + 1" =
      some 11 := by decide
  have hthree : leadValue (valuation [("1", 1), ("i", 3), ("n", 10)]) "i" =
      some 3 := by decide
  obtain ⟨-, -, f, hlead, -, hiff⟩ := slice_length_value "xs" hzero hstart hstop
  exact ⟨hzero, hstart, hstop,
    hiff.mpr (Option.some.inj (hlead.symm.trans hthree))⟩

/-- With a start of two operands the four elements from the fourth to the eighth
are counted as six. -/
theorem slice_length_compound :
    php.slice "xs" "i + 1" "n" = "array_slice($xs, i + 1, (n - i + 1))".toList ∧
    csharp.slice "xs" "i + 1" "n" =
      "xs.Skip(i + 1).Take(n - i + 1).ToArray()".toList ∧
    value (valuation [("1", 1), ("i", 3), ("n", 8)]) "i + 1" = some 4 ∧
    value (valuation [("1", 1), ("i", 3), ("n", 8)]) "n" = some 8 ∧
    value (valuation [("1", 1), ("i", 3), ("n", 8)]) "n - i + 1" = some 6 ∧
    value (valuation [("1", 1), ("i", 3), ("n", 8)]) "n - i + 1" ≠
      some (8 - 4) := by
  refine ⟨by decide, by decide, by decide, by decide, by decide, by decide⟩

end Target

end Recast
