import Recast.Context.Basic

/-!
# Contexts from outside

A context that someone wrote down may hold anything in any place. A draft is
such a context, and checking it gives the context or every fault in it, part by
part and element by element.
-/

namespace Recast

/-- A value as it was written down. -/
inductive Datum where
  | null
  | bool (b : Bool)
  | number (n : Int)
  | text (t : Text)
  | list (ds : List Datum)
  | record
deriving Inhabited

namespace Context

/-- A context as it was written down. -/
structure Draft where
  bindings : List (Text × Datum) := []
  functions : Datum := .list []
  libraries : Datum := .list []
  hints : List (Text × Datum) := []
  arithmetic : Datum := .bool false

namespace Draft

/-- Why a value cannot stand where it stands. -/
inductive Cause where
  /-- It is not the word of a kind. -/
  | kind
  /-- It is not a text. -/
  | text
  /-- It is not a list. -/
  | list
  /-- It is a word or number that says neither yes nor no. -/
  | truthWord
  /-- It is of a sort that cannot say yes or no. -/
  | truthSort
deriving DecidableEq, Repr

/-- A value that cannot stand where it stands: the part, and the key or index
within it. -/
structure Fault where
  field : Field
  place : Option Text
  cause : Cause
deriving DecidableEq, Repr

/-- Where the fault is, as a dotted path. -/
def Fault.location (f : Fault) : Text :=
  match f.place with
  | none => f.field.name
  | some place => f.field.name ++ "." ++ place

/-- The kind that a value is the word of. -/
def kind? : Datum → Option Kind
  | .text t => Kind.ofName? t
  | _ => none

/-- The text that a value is. -/
def text? : Datum → Option Text
  | .text t => some t
  | _ => none

/-- The words that say no. -/
def noWords : List Text := ["0", "off", "f", "false", "n", "no"]

/-- The words that say yes. -/
def yesWords : List Text := ["1", "on", "t", "true", "y", "yes"]

/-- The table of the pairs, if every value is the word of a kind. -/
def checkKinds (field : Field) (pairs : List (Text × Datum)) :
    Except (List Fault) (Table Text Kind) :=
  let table := Table.ofList pairs
  let faults := table.entries.filterMap fun e =>
    if (kind? e.2).isSome then none else some ⟨field, some e.1, .kind⟩
  if faults.isEmpty then .ok (table.map fun _ d => (kind? d).getD .unknown)
  else .error faults

/-- The faults of the elements of a list of texts, the first of which has the
index `i`. -/
def textFaults (field : Field) (i : Nat) : List Datum → List Fault
  | [] => []
  | d :: ds =>
    if (text? d).isSome then textFaults field (i + 1) ds
    else ⟨field, some (Text.ofNat i), .text⟩ :: textFaults field (i + 1) ds

/-- The list, if it is one and every element is a text. -/
def checkTexts (field : Field) : Datum → Except (List Fault) (List Text)
  | .list ds =>
    let faults := textFaults field 0 ds
    if faults.isEmpty then .ok (ds.filterMap text?) else .error faults
  | _ => .error [⟨field, none, .list⟩]

/-- Yes or no: a truth value, one or zero, or a word for either in any case. -/
def checkTruth (field : Field) : Datum → Except (List Fault) Bool
  | .bool b => .ok b
  | .number n =>
    if n = 0 then .ok false else if n = 1 then .ok true
    else .error [⟨field, none, .truthWord⟩]
  | .text t =>
    let word := t.map Char.toLower
    if word ∈ noWords then .ok false
    else if word ∈ yesWords then .ok true
    else .error [⟨field, none, .truthWord⟩]
  | _ => .error [⟨field, none, .truthSort⟩]

/-- The faults of a part. -/
def faultsOf {α : Type} : Except (List Fault) α → List Fault
  | .ok _ => []
  | .error fs => fs

/-- The context that a draft describes, or all of its faults. -/
def check (d : Draft) : Except (List Fault) Context :=
  let bindings := checkKinds .bindings d.bindings
  let functions := checkTexts .functions d.functions
  let libraries := checkTexts .libraries d.libraries
  let hints := checkKinds .hints d.hints
  let arithmetic := checkTruth .arithmetic d.arithmetic
  match bindings, functions, libraries, hints, arithmetic with
  | .ok bindings, .ok functions, .ok libraries, .ok hints, .ok arithmetic =>
    .ok { bindings, functions, libraries, hints, arithmetic }
  | _, _, _, _, _ =>
    .error (faultsOf bindings ++ faultsOf functions ++ faultsOf libraries ++
      faultsOf hints ++ faultsOf arithmetic)

end Draft

end Context

end Recast
