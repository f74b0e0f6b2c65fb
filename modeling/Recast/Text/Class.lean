import Recast.Text.LetterTable
import Recast.Text.DigitTable
import Recast.Text.HiddenTable

/-!
# Character classes

The classes that patterns and text operations speak of: word characters, decimal
digits, blanks and characters that are shown as themselves. Below `80` each
class is given outright, above it by a table of ranges.
-/

namespace Recast

/-- Whether `n` lies in one of the ranges, which are in increasing order. -/
def inRanges : List (Nat × Nat) → Nat → Bool
  | [], _ => false
  | (lo, hi) :: rs, n => decide (lo ≤ n) && (decide (n ≤ hi) || inRanges rs n)

/-- Letters, numbers and the underscore. -/
def isWord (c : Char) : Bool :=
  if c.toNat < 0x80 then c.isAlphanum || c == '_'
  else inRanges letterRanges c.toNat

/-- Decimal digits of any script. -/
def isDigit (c : Char) : Bool :=
  if c.toNat < 0x80 then c.isDigit else inRanges digitRanges c.toNat

/-- The blanks above `7f`: next line, the fixed-width spaces, and the line and
paragraph separators. -/
def blankRanges : List (Nat × Nat) :=
  [(0x85, 0x85), (0xa0, 0xa0), (0x1680, 0x1680), (0x2000, 0x200a),
   (0x2028, 0x2029), (0x202f, 0x202f), (0x205f, 0x205f), (0x3000, 0x3000)]

/-- Spaces, tabulators, line breaks of every kind and the four information
separators. -/
def isBlank (c : Char) : Bool :=
  inRanges ((0x09, 0x0d) :: (0x1c, 0x20) :: blankRanges) c.toNat

/-- The blanks that indent a line. -/
def isIndent (c : Char) : Bool := c == ' ' || c == '\t'

/-- Every character but the line feed. -/
def isInline (c : Char) : Bool := c != '\n'

/-- Characters that a quoted name shows as themselves. -/
def isShown (c : Char) : Bool :=
  if c.toNat < 0x80 then decide (0x20 ≤ c.toNat) && decide (c.toNat < 0x7f)
  else !inRanges hiddenRanges c.toNat

example : isWord '²' = true ∧ isDigit '²' = false := by decide
example : isWord '٣' = true ∧ isDigit '٣' = true := by decide
example : isBlank '\x1f' = true ∧ isBlank '​' = false := by decide
example : isShown '­' = false ∧ isShown 'é' = true := by decide

end Recast
