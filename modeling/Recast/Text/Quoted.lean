import Recast.Text.Basic

/-!
# Quoted names

A name shown between quotes, such that what it is can be read off: marks and
breaks are escaped, and characters without a visible form are given by number.
-/

namespace Recast

namespace Text

/-- The quote around a name: single, unless the name holds a single quote and no
double one. -/
def quoteOf (t : Text) : Char :=
  if t.contains '\x27' && !t.contains '"' then '"' else '\x27'

/-- One character between quotes. -/
def quotedChar (quote c : Char) : Text :=
  if c = quote || c = '\\' then ['\\', c]
  else if c = '\n' then "\\n"
  else if c = '\r' then "\\r"
  else if c = '\t' then "\\t"
  else if isShown c then [c]
  else if c.toNat < 0x100 then "\\x" ++ hex 2 c.toNat
  else if c.toNat < 0x10000 then "\\u" ++ hex 4 c.toNat
  else "\\U" ++ hex 8 c.toNat

/-- A name between quotes. -/
def quoted (t : Text) : Text :=
  quoteOf t :: t.flatMap (quotedChar (quoteOf t)) ++ [quoteOf t]

example : quoted "it's" = ("\"it's\"" : Text) := by decide
example : quoted "a\x01'\"" = ("'a\\x01\\'\"'" : Text) := by decide

end Text

end Recast
