import Recast.Context.Basic
import Recast.Idiom
import Recast.Library

/-!
# Analysis of a snippet

A shallow reading of a snippet by its idioms. The kind of an expression is a
guess by the first sign that fits, and a library counts as used where its name
shows.
-/

namespace Recast

namespace Analysis

/-- The kind of an expression: the first sign that fits decides. -/
def inferKind (expression : Text) : Kind :=
  let bare := expression.trim
  if expression.mentions "[]" then .list
  else if expression.mentions Library.arrayBuilder then .array
  else if Idiom.intLiteral.pattern.opens bare then .int
  else if Idiom.floatLiteral.pattern.opens bare then .float
  else if expression.contains '"' || expression.contains '\x27' then .string
  else if Idiom.boolLiteral.pattern.foundIn expression then .bool
  else .unknown

/-- The assigned names with the kinds of what is assigned, in order. -/
def assignments (source : Text) : List (Text × Kind) :=
  (Idiom.assignment.pattern.matchesIn source).map fun m =>
    (m.group 0, inferKind (m.group 1))

/-- The names of the defined functions, in order and each once. -/
def functions (source : Text) : List Text :=
  ((Idiom.functionName.pattern.matchesIn source).map (·.group 0)).eraseDups

/-- The libraries whose names show in the source. -/
def libraries (source : Text) : List Text :=
  Text.onlyIf (source.mentions Library.arrayCall) Library.numpy ++
    Text.onlyIf (source.mentions Library.scalerClass) Library.sklearn

/-- The idioms in the source that hint at a kind. -/
def hints (source : Text) : List (Text × Kind) :=
  if source.mentions Library.arrayBuilder then [(Library.arrayBuilder, .array)]
  else []

end Analysis

/-- What the source of a snippet tells. -/
def analyze (source : Text) : Context where
  bindings := .ofList (Analysis.assignments source)
  functions := Analysis.functions source
  libraries := Analysis.libraries source
  hints := .ofList (Analysis.hints source)
  arithmetic := Idiom.basicOperation.pattern.foundIn source

end Recast
