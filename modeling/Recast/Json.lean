import Recast.Text.Basic

/-!
# JSON documents

Documents of texts, natural numbers, truth values, lists and records, written
with one element on a line and in ASCII only.
-/

namespace Recast

inductive Json where
  | text (t : Text)
  | number (n : Nat)
  | bool (b : Bool)
  | list (js : List Json)
  | record (fields : List (Text × Json))

namespace Json

/-- A code unit of sixteen bits by number. -/
def escapeUnit (n : Nat) : Text := "\\u" ++ Text.hex 4 n

/-- One character of a text: as itself where it is printable ASCII, else by a
letter or by number. Beyond sixteen bits it is a pair of surrogates. -/
def escape (c : Char) : Text :=
  if c = '"' then "\\\""
  else if c = '\\' then "\\\\"
  else if c = '\n' then "\\n"
  else if c = '\r' then "\\r"
  else if c = '\t' then "\\t"
  else if c = '\x08' then "\\b"
  else if c = '\x0c' then "\\f"
  else if 0x20 ≤ c.toNat ∧ c.toNat < 0x7f then [c]
  else if c.toNat < 0x10000 then escapeUnit c.toNat
  else
    let n := c.toNat - 0x10000
    escapeUnit (0xd800 + n / 0x400) ++ escapeUnit (0xdc00 + n % 0x400)

/-- A text between double quotes. -/
def quote (t : Text) : Text := "\"" ++ t.flatMap escape ++ "\""

/-- A line break and the indentation of a level. -/
def newline (level : Nat) : Text := '\n' :: List.replicate (2 * level) ' '

mutual

/-- A document whose inner lines are indented beyond a level. -/
def write (level : Nat) : Json → Text
  | text t => quote t
  | number n => Text.ofNat n
  | bool b => if b then "true" else "false"
  | list [] => "[]"
  | list (j :: js) =>
    "[" ++ newline (level + 1) ++ write (level + 1) j ++
    writeItems (level + 1) js ++ newline level ++ "]"
  | record [] => "\x7b\x7d"
  | record ((k, j) :: fs) =>
    "\x7b" ++ newline (level + 1) ++ quote k ++ ": " ++ write (level + 1) j ++
    writeFields (level + 1) fs ++ newline level ++ "\x7d"

/-- The further elements of a list. -/
def writeItems (level : Nat) : List Json → Text
  | [] => []
  | j :: js => "," ++ newline level ++ write level j ++ writeItems level js

/-- The further fields of a record. -/
def writeFields (level : Nat) : List (Text × Json) → Text
  | [] => []
  | (k, j) :: fs => "," ++ newline level ++ quote k ++ ": " ++ write level j ++
    writeFields level fs

end

/-- A document as text. -/
def render (j : Json) : Text := write 0 j

/-- A list of texts. -/
def texts (ts : List Text) : Json := list (ts.map text)

end Json

end Recast
