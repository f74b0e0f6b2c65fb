import Recast.Context.Basic
import Recast.Target.Lexicon

/-!
# Parameters of a function

The names in a parameter list, and the kinds that they suggest.
-/

namespace Recast

namespace Parameter

/-- The name in one item of a parameter list: without default, annotation,
blanks and leading stars. -/
def nameOf (item : Text) : Text :=
  (((item.before '=').before ':').trim).dropWhile (· == '*')

/-- The names of a parameter list, in order; an item without a name is left
out. -/
def names (list : Text) : List Text :=
  ((list.fields ',').map nameOf).filter (· ≠ [])

/-- The kind of a parameter: by a hint in its name, else by what is known of a
variable of that name. -/
def kind (ctx : Context) (name : Text) : Kind :=
  if name.mentions "price" || name.mentions "data" then .array
  else if name.mentions "index" || name.mentions "size" then .int
  else ctx.kindOf name

/-- The names of a parameter list, each with its type in a target. -/
def typed (t : Target) (ctx : Context) (list : Text) : List (Text × Text) :=
  (names list).map fun name => (name, t.typeName (kind ctx name))

end Parameter

end Recast
