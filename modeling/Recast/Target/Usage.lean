import Recast.Pattern.Scan

/-!
# Signs of use

Patterns by which a text in a target shows that it needs an import.
-/

namespace Recast

namespace Usage

open Pattern

/-- A name of a package, followed by the point of a selection. -/
def qualifier (package : Text) : Pattern :=
  anchor .wordEdge ++ literal package ++ "."

/-- A whole word. -/
def wholeWord (p : Pattern) : Pattern :=
  anchor .wordEdge ++ p ++ anchor .wordEdge

/-- A call of a method that works on any sequence. -/
def sequenceMethod : Pattern :=
  "." ++ ("Skip" <|> "Take" <|> "ToArray" <|> ("Count" : Pattern)) ++ "("

end Usage

end Recast
