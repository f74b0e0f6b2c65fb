import Recast.Text.Basic

/-!
# Reading UTF-8

A first byte says how many bytes follow and which range the next one lies in;
later ones are of one range. Reading stops at the first byte that cannot stand
where it stands, and says which bytes are at fault.
-/

namespace Recast

namespace Utf8

/-- Why bytes are not a text. -/
inductive Cause where
  /-- No character starts with the byte. -/
  | start
  /-- The byte after these does not continue them. -/
  | continuation
  /-- The bytes end within a character. -/
  | truncated
deriving DecidableEq, Repr

/-- The bytes at fault: the first of them, its position, and how many they
are. -/
structure Fault where
  byte : Nat
  position : Nat
  count : Nat
  cause : Cause
deriving DecidableEq, Repr

/-- The wording of the cause. -/
def Cause.reason : Cause → Text
  | start => "invalid start byte"
  | continuation => "invalid continuation byte"
  | truncated => "unexpected end of data"

/-- The wording of the fault. -/
def Fault.message (f : Fault) : Text :=
  "'utf-8' codec can't decode " ++
    (if f.count = 1 then
      "byte 0x" ++ Text.hex 2 f.byte ++ " in position " ++ Text.ofNat f.position
      else "bytes in position " ++ Text.ofNat f.position ++ "-" ++
        Text.ofNat (f.position + f.count - 1)) ++
    ": " ++ f.cause.reason

/-- A character that is not complete: its first byte and the position of it, the
bytes read and still owed, the range of the next byte, and the bits so far. -/
structure Pending where
  byte : Nat
  position : Nat
  count : Nat
  owed : Nat
  low : Nat
  high : Nat
  bits : Nat

/-- The character that a byte above `7f` starts. -/
def lead? (position b : Nat) : Option Pending :=
  if b < 0xc2 then none
  else if b < 0xe0 then some ⟨b, position, 1, 1, 0x80, 0xbf, b % 0x20⟩
  else if b = 0xe0 then some ⟨b, position, 1, 2, 0xa0, 0xbf, b % 0x10⟩
  else if b = 0xed then some ⟨b, position, 1, 2, 0x80, 0x9f, b % 0x10⟩
  else if b < 0xf0 then some ⟨b, position, 1, 2, 0x80, 0xbf, b % 0x10⟩
  else if b = 0xf0 then some ⟨b, position, 1, 3, 0x90, 0xbf, b % 0x08⟩
  else if b < 0xf4 then some ⟨b, position, 1, 3, 0x80, 0xbf, b % 0x08⟩
  else if b = 0xf4 then some ⟨b, position, 1, 3, 0x80, 0x8f, b % 0x08⟩
  else none

/-- The fault of a character that stays incomplete. -/
def Pending.fault (p : Pending) (cause : Cause) : Fault :=
  ⟨p.byte, p.position, p.count, cause⟩

/-- The character after one more byte. -/
def Pending.push (p : Pending) (b : Nat) : Pending :=
  { p with count := p.count + 1, owed := p.owed - 1, low := 0x80, high := 0xbf,
           bits := p.bits * 0x40 + b % 0x40 }

/-- Reads bytes from a position on, with a character that may be under way. -/
def decodeFrom (position : Nat) (pending : Option Pending) :
    List UInt8 → Except Fault Text
  | [] =>
    match pending with
    | none => .ok []
    | some p => .error (p.fault .truncated)
  | byte :: bytes =>
    let b := byte.toNat
    match pending with
    | none =>
      if b < 0x80 then
        (decodeFrom (position + 1) none bytes).map (Char.ofNat b :: ·)
      else
        match lead? position b with
        | none => .error ⟨b, position, 1, .start⟩
        | some p => decodeFrom (position + 1) (some p) bytes
    | some p =>
      if p.low ≤ b ∧ b ≤ p.high then
        if p.owed = 1 then
          (decodeFrom (position + 1) none bytes).map
            (Char.ofNat (p.push b).bits :: ·)
        else decodeFrom (position + 1) (some (p.push b)) bytes
      else .error (p.fault .continuation)

/-- The text that bytes stand for. -/
def decode (bytes : List UInt8) : Except Fault Text := decodeFrom 0 none bytes

example : decode [0x61, 0xe2, 0x82, 0xac] = .ok ['a', '€'] := rfl
example : decode [0x61, 0xe2, 0x82] = .error ⟨0xe2, 1, 2, .truncated⟩ := rfl
example : decode [0xed, 0xa0, 0x80] = .error ⟨0xed, 0, 1, .continuation⟩ := rfl

end Utf8

/-- The text with every line break a line feed: a carriage return, alone or
before a line feed, is one break. -/
def Text.unifyBreaks : Text → Text
  | [] => []
  | '\r' :: '\n' :: cs => '\n' :: unifyBreaks cs
  | '\r' :: cs => '\n' :: unifyBreaks cs
  | c :: cs => c :: unifyBreaks cs

end Recast
