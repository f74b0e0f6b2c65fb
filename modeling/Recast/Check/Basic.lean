import Recast.Target.Basic
import Recast.Target.Usage

/-!
# Checks

Each target has a list of independent checks for common omissions. A check looks
at the text alone; that none fires does not mean that the text compiles.
-/

namespace Recast

/-- One check: it fires on a text with a fault, and its message says which. -/
structure Check where
  name : Text
  fires : Text → Bool
  message : Text

namespace Check

open Pattern

/-- Fires where a pattern shows a use and the text that the use requires is
missing. -/
def missing (used : Pattern) (required : Text) (t : Text) : Bool :=
  used.foundIn t && !t.mentions required

/-! ## Go -/

/-- A declared function: its name, its parameters and its results as written. -/
structure GoFunction where
  name : Text
  params : Text
  results : Text
deriving DecidableEq, Repr

/-- The header of a function, up to the brace that opens its body. -/
def goHeader : Pattern :=
  "func" ++ blanks1 ++ group word ++ "(" ++ group (many .longest (· != ')')) ++
  ")" ++ blanks ++ group (many .longest fun c => c != '\x7b' && c != '\n') ++ "\x7b"

/-- The functions that a text declares, apart from `main`. -/
def goFunctions (t : Text) : List GoFunction :=
  (goHeader.matchesIn t).filterMap fun m =>
    if m.group 0 = ("main" : Text) then none
    else some ⟨m.group 0, m.group 1, (m.group 2).trim⟩

/-- An index expression with a colon. -/
def goSlice : Pattern :=
  one isWord ++ "[" ++
  many .longest (fun c => c != '[' && c != ']' && c != '\n') ++ ":" ++
    many .longest (fun c => c != '[' && c != ']' && c != '\n') ++ "]"

/-- Some parameter is a single word. -/
def goUntyped (t : Text) : Bool :=
  (goFunctions t).any fun f =>
    (f.params.fields ',').any fun p =>
      !p.trim.isEmpty && decide (p.words.length < 2)

def goChecks : List Check :=
  [⟨"typed_params", goUntyped, "Go function parameters need types"⟩,
   ⟨"return_type", fun t => (goFunctions t).any (·.results.isEmpty),
    "Go function must declare its return type"⟩,
   ⟨"fmt_import", missing (Usage.qualifier "fmt") "\"fmt\"",
    "Missing import \"fmt\""⟩,
   ⟨"math_import", missing (Usage.qualifier "math") "\"math\"",
    "Missing import \"math\""⟩,
   ⟨"error_result", fun t => !(goFunctions t).isEmpty && !t.mentions "error",
    "Consider returning an error value (idiomatic Go error handling)"⟩,
   ⟨"slice_bounds", fun t => goSlice.foundIn t && !t.mentions "len(",
    "Check bounds on slice operations"⟩]

/-! ## PHP -/

/-- A push onto something that is not marked as a variable. -/
def phpPush : Pattern := "array_push(" ++ blanks ++ anchor (.notNext (· == '$'))

def phpChecks : List Check :=
  [⟨"open_tag",
    missing (Usage.wholeWord ("function" <|> ("echo" : Pattern))) "<?php",
    "Missing PHP opening tag <?php"⟩,
   ⟨"autoload",
    missing ("\\" ++ ("MathPHP" <|> ("Phpml" : Pattern)) ++ "\\")
      "vendor/autoload.php",
    "Composer library referenced without vendor/autoload.php"⟩,
   ⟨"push_target", phpPush.foundIn, "array_push target must be a $variable"⟩]

/-! ## JavaScript -/

/-- The line that loads the scaler. -/
def jsScalerImport : Pattern :=
  "MinMaxScaler" ++ blanks ++ "\x7d" ++ blanks ++ "=" ++ blanks ++ "require("

def jsChecks : List Check :=
  [⟨"matrix_require", missing (Usage.qualifier "matrix") "ml-matrix",
    "Missing require(\"ml-matrix\")"⟩,
   ⟨"scaler_require",
    fun t => t.mentions "MinMaxScaler" && !jsScalerImport.foundIn t,
    "MinMaxScaler used without a require"⟩,
   ⟨"numpy_leftover", (Usage.qualifier "np").foundIn,
    "Untranslated numpy call left in output"⟩]

/-! ## C# -/

def csChecks : List Check :=
  [⟨"using_system",
    missing (Usage.wholeWord "Console.WriteLine") "using System;",
    "Missing using System;"⟩,
   ⟨"using_generic",
    missing (anchor .wordEdge ++ "List<") "using System.Collections.Generic;",
    "Missing using System.Collections.Generic;"⟩,
   ⟨"using_linq", missing Usage.sequenceMethod "using System.Linq;",
    "Missing using System.Linq;"⟩,
   ⟨"using_mlnet", missing (Usage.wholeWord "MLContext") "using Microsoft.ML;",
    "Missing using Microsoft.ML;"⟩]

end Check

namespace Target

/-- The checks of a target, in the order in which they report. -/
def checks : Target → List Check
  | go => Check.goChecks
  | php => Check.phpChecks
  | javascript => Check.jsChecks
  | csharp => Check.csChecks

/-- The messages of the checks that fire. -/
def warnings (t : Target) (text : Text) : List Text :=
  (t.checks.filter (·.fires text)).map (·.message)

end Target

end Recast
