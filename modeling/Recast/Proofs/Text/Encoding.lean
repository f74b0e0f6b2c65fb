import Recast.Text.Utf8

/-!
# Texts as UTF-8

The first byte of a character has its highest bits, and each byte after it six
more. A character under way awaits the bytes of a number if it has the bits
above them (`Pending.Awaits`). A byte leaves it awaiting one less
(`awaits_push`), and the last byte gives the character (`decodeFrom_tail`). So a
text is read back from its bytes (`decode_encode`), and, unless it has carriage
returns, from a file that holds them.
-/

namespace Recast

namespace Utf8

/-- The bytes of a text. -/
def encode (t : Text) : List UInt8 := t.flatMap String.utf8EncodeChar

/-- A number without its last groups of six bits. -/
def leading : Nat → Nat → Nat
  | 0, v => v
  | n + 1, v => leading n v / 0x40

/-- The bytes of the last groups of six bits. -/
def tail : Nat → Nat → List UInt8
  | 0, _ => []
  | n + 1, v => UInt8.ofNat (leading n v % 0x40 + 0x80) :: tail n v

/-- The bytes still owed, the first of which may come next, make the number of
what has been read. -/
structure Pending.Awaits (p : Pending) (n v : Nat) : Prop where
  owed : p.owed = n + 1
  bits : p.bits = leading (n + 1) v
  low : p.low ≤ leading n v % 0x40 + 0x80
  high : leading n v % 0x40 + 0x80 ≤ p.high

variable {p : Pending} {n v : Nat}

theorem toNat_group (g : Nat) :
    (UInt8.ofNat (g % 0x40 + 0x80)).toNat = g % 0x40 + 0x80 :=
  UInt8.toNat_ofNat_of_lt' (show _ < 0x100 by omega)

theorem bits_push (h : p.Awaits n v) :
    (p.push (leading n v % 0x40 + 0x80)).bits = leading n v := by
  show p.bits * 0x40 + (leading n v % 0x40 + 0x80) % 0x40 = leading n v
  rw [h.bits, leading]
  omega

theorem awaits_push (h : p.Awaits (n + 1) v) :
    (p.push (leading (n + 1) v % 0x40 + 0x80)).Awaits n v where
  owed := by
    show p.owed - 1 = n + 1
    rw [h.owed]
    rfl
  bits := bits_push h
  low := by
    show 0x80 ≤ _
    omega
  high := by
    show _ ≤ 0xbf
    omega

/-- The bytes that a character awaits complete it. -/
theorem decodeFrom_tail (h : p.Awaits n v) (position : Nat)
    (bytes : List UInt8) :
    ∃ next, decodeFrom position (some p) (tail (n + 1) v ++ bytes) =
      (decodeFrom next none bytes).map (Char.ofNat v :: ·) := by
  induction n generalizing p position with
  | zero =>
      refine ⟨position + 1, ?_⟩
      have hbits : (p.push (leading 0 v % 0x40 + 0x80)).bits = v := bits_push h
      rw [tail, tail, List.singleton_append, decodeFrom, toNat_group]
      simp only [h.low, h.high, h.owed, hbits, and_self, if_true]
  | succ n ih =>
      obtain ⟨next, hnext⟩ := ih (awaits_push h) (position + 1)
      refine ⟨next, ?_⟩
      have howed : p.owed ≠ 1 := by
        rw [h.owed]
        omega
      rw [tail, List.cons_append, decodeFrom, toNat_group]
      simp only [h.low, h.high, howed, and_self, if_true, if_false]
      exact hnext

/-- A character of several bytes, the first of which says what follows. -/
theorem decodeFrom_lead {position b : Nat} (hb : 0x80 ≤ b ∧ b < 0x100)
    (hlead : lead? position b = some p) (h : p.Awaits n v)
    (bytes : List UInt8) :
    ∃ next, decodeFrom position none
      (UInt8.ofNat b :: tail (n + 1) v ++ bytes) =
      (decodeFrom next none bytes).map (Char.ofNat v :: ·) := by
  obtain ⟨next, hnext⟩ := decodeFrom_tail h (position + 1) bytes
  refine ⟨next, ?_⟩
  rw [List.cons_append, decodeFrom, UInt8.toNat_ofNat_of_lt' hb.2]
  simp only [hlead, Nat.not_lt.mpr hb.1, if_false]
  exact hnext

/-! ## First bytes

The ranges of the second byte leave out what needs fewer bytes, the surrogates,
and what is beyond every character.
-/

theorem lead?_two (position : Nat) (hlow : 0x7f < v) (hhigh : v ≤ 0x7ff) :
    ∃ p, lead? position (v / 0x40 % 0x20 + 0xc0) = some p ∧ p.Awaits 0 v := by
  generalize hb : v / 0x40 % 0x20 + 0xc0 = b
  rw [lead?, if_neg (by omega : ¬b < 0xc2), if_pos (by omega : b < 0xe0)]
  refine ⟨_, rfl, rfl, ?_, ?_, ?_⟩ <;> simp only [leading] <;> omega

theorem lead?_three (position : Nat) (hlow : 0x7ff < v) (hhigh : v ≤ 0xffff)
    (hvalid : v < 0xd800 ∨ 0xdfff < v) :
    ∃ p, lead? position (v / 0x1000 % 0x10 + 0xe0) = some p ∧ p.Awaits 1 v := by
  generalize hb : v / 0x1000 % 0x10 + 0xe0 = b
  rw [lead?, if_neg (by omega : ¬b < 0xc2), if_neg (by omega : ¬b < 0xe0)]
  -- a range that comes up for the number has the byte that is next
  repeat' split
  all_goals first | omega | refine ⟨_, rfl, rfl, ?_, ?_, ?_⟩ <;>
    simp only [leading] <;> omega

theorem lead?_four (position : Nat) (hlow : 0xffff < v) (hhigh : v < 0x110000) :
    ∃ p, lead? position (v / 0x40000 % 0x08 + 0xf0) = some p ∧
      p.Awaits 2 v := by
  generalize hb : v / 0x40000 % 0x08 + 0xf0 = b
  rw [lead?, if_neg (by omega : ¬b < 0xc2), if_neg (by omega : ¬b < 0xe0),
    if_neg (by omega : b ≠ 0xe0), if_neg (by omega : b ≠ 0xed),
    if_neg (by omega : ¬b < 0xf0)]
  repeat' split
  all_goals first | omega | refine ⟨_, rfl, rfl, ?_, ?_, ?_⟩ <;>
    simp only [leading] <;> omega

/-! ## Characters and texts -/

theorem utf8EncodeChar_eq (c : Char) :
    String.utf8EncodeChar c =
      if c.toNat ≤ 0x7f then [UInt8.ofNat c.toNat]
      else if c.toNat ≤ 0x7ff then
        UInt8.ofNat (c.toNat / 0x40 % 0x20 + 0xc0) :: tail 1 c.toNat
      else if c.toNat ≤ 0xffff then
        UInt8.ofNat (c.toNat / 0x1000 % 0x10 + 0xe0) :: tail 2 c.toNat
      else UInt8.ofNat (c.toNat / 0x40000 % 0x08 + 0xf0) :: tail 3 c.toNat := by
  simp only [tail, leading, Nat.div_div_eq_div_mul, Nat.reduceMul]
  rfl

theorem decodeFrom_encodeChar (position : Nat) (c : Char) (bytes : List UInt8) :
    ∃ next, decodeFrom position none (String.utf8EncodeChar c ++ bytes) =
      (decodeFrom next none bytes).map (c :: ·) := by
  have hvalid : c.toNat < 0xd800 ∨ 0xdfff < c.toNat ∧ c.toNat < 0x110000 :=
    c.valid
  have hchar : Char.ofNat c.toNat = c := Char.ofNat_toNat c
  have hform := utf8EncodeChar_eq c
  generalize c.toNat = v at hvalid hchar hform
  subst hchar
  rw [hform]
  split
  · refine ⟨position + 1, ?_⟩
    rw [List.singleton_append, decodeFrom,
      UInt8.toNat_ofNat_of_lt' (show v < 0x100 by omega)]
    simp only [(by omega : v < 0x80), if_true]
  split
  · obtain ⟨p, hlead, hp⟩ := lead?_two position (by omega : 0x7f < v) (by omega)
    exact decodeFrom_lead (by omega) hlead hp bytes
  split
  · obtain ⟨p, hlead, hp⟩ :=
      lead?_three position (by omega : 0x7ff < v) (by omega) (by omega)
    exact decodeFrom_lead (by omega) hlead hp bytes
  · obtain ⟨p, hlead, hp⟩ :=
      lead?_four position (by omega : 0xffff < v) (by omega)
    exact decodeFrom_lead (by omega) hlead hp bytes

theorem decodeFrom_encode (position : Nat) (t : Text) :
    decodeFrom position none (encode t) = .ok t := by
  induction t generalizing position with
  | nil => rfl
  | cons c t ih =>
      obtain ⟨next, hnext⟩ := decodeFrom_encodeChar position c (encode t)
      calc decodeFrom position none (encode (c :: t))
        _ = (decodeFrom next none (encode t)).map (c :: ·) := hnext
        _ = .ok (c :: t) := by rw [ih next]; rfl

/-- A text is read back from its bytes. -/
theorem decode_encode (t : Text) : decode (encode t) = .ok t :=
  decodeFrom_encode 0 t

end Utf8

/-- A text without carriage returns has its line breaks as they are to be. -/
theorem Text.unifyBreaks_of_not_mem {t : Text} (h : '\r' ∉ t) :
    t.unifyBreaks = t := by
  induction t with
  | nil => rfl
  | cons c t ih =>
      have hc : c ≠ '\r' := fun heq => h (heq ▸ List.mem_cons_self)
      have ht : Text.unifyBreaks t = t :=
        ih fun hmem => h (List.mem_cons_of_mem c hmem)
      rw [unifyBreaks, ht]
      · exact fun _ heq => absurd heq hc
      · exact hc

end Recast
