import Recast.Kind
import Recast.Table

/-!
# Contexts

What is known about a snippet: its variables and their kinds, the functions that
it defines, the libraries that it uses, the idioms that hint at a kind, and
whether it computes with arithmetic signs.
-/

namespace Recast

structure Context where
  bindings : Table Text Kind := .empty
  functions : List Text := []
  libraries : List Text := []
  hints : Table Text Kind := .empty
  arithmetic : Bool := false
deriving DecidableEq

namespace Context

/-- The parts of a context, in the order in which they are written. -/
inductive Field where
  | bindings
  | functions
  | libraries
  | hints
  | arithmetic
deriving DecidableEq, Repr

/-- The word by which a part is written. -/
def Field.name : Field → Text
  | bindings => "variables"
  | functions => "functions"
  | libraries => "detected_libraries"
  | hints => "data_structure_hints"
  | arithmetic => "has_basic_operations"

/-- The context in which nothing is known. -/
def empty : Context := {}

/-- The kind of a name; a name that is no variable is of unknown kind. -/
def kindOf (ctx : Context) (name : Text) : Kind :=
  (ctx.bindings.get? name).getD .unknown

/-- Whether the snippet uses a library. -/
def uses (ctx : Context) (library : Text) : Bool :=
  ctx.libraries.contains library

end Context

end Recast
