import Recast.Context.Basic
import Recast.Target.Lexicon

/-!
# Reports

A context laid out for reading, with what stands in for each library in each
target.
-/

namespace Recast

structure Report where
  bindings : List (Text × Kind)
  functions : List Text
  libraries : List Text
  hints : List (Text × Kind)
  arithmetic : Bool
  /-- For each library, what stands in for it in each target. -/
  counterparts : Table Text (Table Text Text)
deriving DecidableEq

namespace Report

/-- What stands in for a library in each of the targets. -/
def counterpartsOf (targets : List Text) (library : Text) : Table Text Text :=
  .ofList (targets.map fun t => (t, Lexicon.counterpart library t))

/-- The report of a context for the targets with the given names. -/
def ofContext (ctx : Context) (targets : List Text) : Report where
  bindings := ctx.bindings.entries
  functions := ctx.functions
  libraries := ctx.libraries
  hints := ctx.hints.entries
  arithmetic := ctx.arithmetic
  counterparts :=
    .ofList (ctx.libraries.map fun l => (l, counterpartsOf targets l))

/-- The line of a variable. -/
def variableLine (v : Text × Kind) : Text := "  " ++ v.1 ++ ": " ++ v.2.name

/-- The line of the functions. -/
def functionLine (functions : List Text) : Text :=
  "Functions: " ++ Text.orElse (Text.join ", " functions) "-"

/-- The line of a library. -/
def libraryLine (r : Report) (library : Text) : Text :=
  let known := (r.counterparts.get? library).getD .empty
  "  " ++ library ++ " (" ++
  Text.join ", " (known.entries.map fun e => e.1 ++ "=" ++ e.2) ++ ")"

/-- The line of a hint. -/
def hintLine (h : Text × Kind) : Text := "Hint: " ++ h.1 ++ " -> " ++ h.2.name

/-- The line about arithmetic. -/
def arithmeticLine (b : Bool) : Text :=
  if b then "Basic operations: yes" else "Basic operations: no"

/-- The lines of a report. -/
def lines (r : Report) : List Text :=
  "Variables:" ::
    (r.bindings.map variableLine ++
      functionLine r.functions :: "Detected libraries:" ::
        (r.libraries.map r.libraryLine ++ r.hints.map hintLine ++
          [arithmeticLine r.arithmetic]))

/-- A report as text. -/
def text (r : Report) : Text := Text.unlines r.lines

end Report

end Recast
