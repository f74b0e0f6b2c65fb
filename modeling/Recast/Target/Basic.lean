import Recast.Text.Basic

/-!
# Targets

The languages in which a snippet can be recast.
-/

namespace Recast

inductive Target where
  | go
  | php
  | javascript
  | csharp
deriving DecidableEq, Repr

namespace Target

/-- Every target, in the order in which results are listed. -/
def all : List Target := [go, php, javascript, csharp]

/-- The word by which a target is asked for. -/
def name : Target → Text
  | go => "go"
  | php => "php"
  | javascript => "javascript"
  | csharp => "csharp"

/-- The target that a word asks for. -/
def ofName? (t : Text) : Option Target := all.find? (·.name == t)

theorem ofName?_name (t : Target) :
    ofName? t.name = some t := by cases t <;> decide

/-- A word that asks for no target. -/
structure Unsupported where
  name : Text
deriving DecidableEq, Repr

/-- The wording of the error. -/
def Unsupported.message (e : Unsupported) : Text :=
  "Unsupported target: " ++ e.name

/-- The target that a word asks for, or the error that there is none. -/
def ofName (t : Text) : Except Unsupported Target :=
  match ofName? t with
  | some target => .ok target
  | none => .error ⟨t⟩

end Target

end Recast
