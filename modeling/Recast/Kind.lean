import Recast.Text.Basic

/-!
# Kinds of value

The kind of value that a name stands for, as far as the analysis can tell.
-/

namespace Recast

inductive Kind where
  | int
  | float
  | string
  | list
  | array
  | bool
  | unknown
deriving DecidableEq, Repr

namespace Kind

def all : List Kind := [int, float, string, list, array, bool, unknown]

/-- The word by which a kind is written. -/
def name : Kind → Text
  | int => "int"
  | float => "float"
  | string => "string"
  | list => "list"
  | array => "array"
  | bool => "bool"
  | unknown => "unknown"

/-- The kind that a word stands for. -/
def ofName? (t : Text) : Option Kind := all.find? (·.name == t)

theorem ofName?_name (k : Kind) :
    ofName? k.name = some k := by cases k <;> decide

theorem name_injective {k l : Kind} (h : k.name = l.name) : k = l := by
  have := ofName?_name k
  rw [h, ofName?_name] at this
  exact (Option.some.inj this).symm

end Kind

end Recast
