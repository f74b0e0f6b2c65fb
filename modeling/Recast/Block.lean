import Recast.Text.Basic

/-!
# Blocks

Blocks stand between braces. Counting is by characters, wherever in the text
they stand.
-/

namespace Recast

namespace Block

/-- The character that opens a block. -/
def opening : Char := '\x7b'

/-- The character that closes a block. -/
def closing : Char := '\x7d'

/-- How many more blocks are opened than closed. -/
def deficit (t : Text) : Int :=
  (t.count opening : Int) - (t.count closing : Int)

/-- `n` lines that close a block each. -/
def closers (n : Nat) : Text := (List.replicate n ['\n', closing]).flatten

/-- The text with every open block closed at its end. -/
def repair (t : Text) : Text :=
  if deficit t ≤ 0 then t else t.trimEnd ++ closers (deficit t).toNat

end Block

end Recast
