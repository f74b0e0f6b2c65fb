import Recast.Check.Basic

/-!
# The grammar check

Beyond the checks, a text can be parsed by a grammar of its target. The parser
is given from outside; what is looked at are the marks in its tree.
-/

namespace Recast

/-- A tree of a parser that goes on after errors. A node is marked where it is
an error itself, where it stands for something missing, and where there is an
error in it. -/
inductive SyntaxTree where
  | node (error missing hasError : Bool) (children : List SyntaxTree)
deriving Inhabited

namespace SyntaxTree

mutual

/-- The number of errors and missing nodes; a node that is marked with neither
an error in it nor as missing is passed over with all that it holds. -/
def errorCount : SyntaxTree → Nat
  | node error missing hasError children =>
    if hasError || missing then
      (if error || missing then 1 else 0) + errorCounts children else 0

/-- The number of errors and missing nodes in a row of trees. -/
def errorCounts : List SyntaxTree → Nat
  | [] => 0
  | t :: ts => errorCount t + errorCounts ts

end

end SyntaxTree

/-- A parser gives a tree for every text of every target. -/
abbrev GrammarParser := Target → Text → SyntaxTree

/-- The record of one call of a parser: the grammar and the number of bytes it
was given. -/
structure ParseCall where
  grammar : Target
  bytes : Nat
deriving DecidableEq, Repr

/-- What checking a text brought to light. -/
structure Verdict where
  warnings : List Text
  parsed : List ParseCall
deriving DecidableEq, Repr

namespace Target

/-- The warning about a tree, if it has errors. -/
def treeWarnings (t : Target) (tree : SyntaxTree) : List Text :=
  if tree.errorCount = 0 then []
  else [t.name ++ " grammar reports " ++ Text.ofNat tree.errorCount ++
    " syntax error(s)"]

/-- Runs the checks and, if there is a parser, the grammar check. The parser is
given the encoding of the text, which every text has, so this does not fail. -/
def validate (t : Target) (parser : Option GrammarParser) (text : Text) :
    Verdict :=
  match parser with
  | none => ⟨t.warnings text, []⟩
  | some parse =>
    ⟨t.warnings text ++ t.treeWarnings (parse t text), [⟨t, text.utf8Size⟩]⟩

end Target

/-- How far a text with these warnings can be trusted, in percent: 95, less ten
for each warning. -/
def confidence (warnings : List Text) : Nat := 95 - 10 * warnings.length

end Recast
