import Recast.Analysis
import Recast.Block
import Recast.Parameter
import Recast.Rendering.Frame
import Recast.Rendering.Statement
import Recast.Rule.Basic

/-!
# The rules of each target

A snippet is recast in a target by a fixed list of rules. The order matters:
comments go first, so that nothing in them is read as code later; the loop is
written after the lengths inside its bound; and open blocks are counted after
every rule that opens one.
-/

namespace Recast

namespace Target

/-! ## How each idiom is replaced -/

/-- A comment of any target starts with two slashes. -/
def replaceComment (m : Match) : Text := m.group 0 ++ "// " ++ m.group 1

def replaceFunction (t : Target) (ctx : Context) (m : Match) : Text :=
  m.group 0 ++
  t.functionHeader (m.group 1) (Parameter.typed t ctx (m.group 2)) (m.group 0)

def replaceDualInit (t : Target) (m : Match) : Text :=
  let decls := t.dualInit (m.group 1) (m.group 2)
  m.group 0 ++ decls.1 ++ "\n" ++ m.group 0 ++ decls.2

/-- The bound of a loop over a list less a window, kept from being negative. -/
def replaceRangeBound (m : Match) : Text :=
  "range(int(math.Max(0, float64(len(" ++ m.group 0 ++ ") - " ++
  m.group 1 ++ "))))"

def replaceLength (t : Target) (m : Match) : Text := t.length (m.group 0)

def replaceLoop (t : Target) (m : Match) : Text :=
  t.loop (m.group 0) (m.group 1).trim

def replacePrint (t : Target) (m : Match) : Text := t.print (m.group 0)

def replaceAppend (t : Target) (m : Match) : Text :=
  t.append (m.group 0) (m.group 1)

def replaceSlice (t : Target) (m : Match) : Text :=
  t.slice (m.group 0) (m.group 1).trim (m.group 2).trim

/-- A shape has rows and columns: rows that are left out or `-1` are as many as
there are values, columns that are left out are one, and anything further is
dropped. -/
def replaceReshape (t : Target) (m : Match) : Text :=
  let values := (m.group 0).trim
  let shape := ((m.group 1).fields ',').map Text.trim
  let rows := Text.orElse (shape[0]?.getD []) "-1"
  let cols := Text.orElse (shape[1]?.getD []) "1"
  t.reshape values (if rows = "-1" then t.length values else rows) cols

def replaceFitTransform (t : Target) (m : Match) : Text :=
  Text.unlines ((t.fitTransform (m.group 1) (m.group 2) (m.group 3).trim).map
    (m.group 0 ++ ·))

/-- A scaler without a range has the range from zero to one. -/
def replaceScaler (t : Target) (m : Match) : Text :=
  let range := Text.orElse (m.group 2) "0, 1"
  m.group 0 ++ t.scaler (m.group 1) (range.before ',').trim
    (Text.orElse (range.after ',').trim "1")

def replaceArrayPair (t : Target) (m : Match) : Text :=
  t.pairReturn (m.group 0) (m.group 1)

def replacePlainPair (t : Target) (m : Match) : Text :=
  m.group 0 ++ t.pairReturn (m.group 1) (m.group 2)

/-! ## Rules over the whole text -/

/-- The name of the constant that gives the length of a window. -/
def windowName : Text := "LOOKBACK"

/-- The length of a window that the source does not set. -/
def windowLength : Int := 10

/-- Open where the window is named and the source does not set it. -/
def needsWindow (ctx : Context) (t : Text) : Bool :=
  t.mentions windowName && !ctx.bindings.contains windowName

/-- The text below a declaration of the window. -/
def declareWindow (target : Target) (t : Text) : Text :=
  target.constant windowName windowLength ++ "\n\n" ++ t

/-- Open where a Go function is defined and nothing is returned. -/
def lacksReturn (t : Text) : Bool := t.mentions "func " && !t.mentions "return"

/-- The text with a return of an error at its end. -/
def addReturn (t : Text) : Text :=
  t.trimEnd ++ "\n    return nil, nil, fmt.Errorf(\"function not implemented\")"

/-- The text as a file: a program where the snippet has no functions. -/
def frame (target : Target) (ctx : Context) (t : Text) : Text :=
  if ctx.functions.isEmpty then target.programFile t else target.moduleFile t

/-! ## The list -/

/-- The rule for lengths, which Go has only inside the bound of a loop. -/
def lengthRule : Target → Rule
  | go => .replacing "range_bounds_guard" Idiom.rangeLenMinus.pattern fun _ =>
    replaceRangeBound
  | t => .replacing "length_builtin" Idiom.lenCall.pattern fun _ =>
    t.replaceLength

/-- The rule that closes a Go function without a return. -/
def returnRules : Target → List Rule
  | go =>
    [{ name := "default_return", gate := fun _ => lacksReturn,
       transform := fun _ => addReturn }]
  | _ => []

/-- The rules of a target, in the order in which they run. -/
def rules (t : Target) : List Rule :=
  [.replacing "comment" Idiom.comment.pattern fun _ => replaceComment,
   .replacing "function_signature" Idiom.functionDef.pattern t.replaceFunction,
   .replacing "dual_empty_init" Idiom.dualEmptyInit.pattern fun _ =>
     t.replaceDualInit,
   t.lengthRule,
   .replacing "counting_loop" Idiom.countingLoop.pattern fun _ => t.replaceLoop,
   .replacing "output_call" Idiom.printCall.pattern fun _ => t.replacePrint,
   .replacing "append" Idiom.appendCall.pattern fun _ => t.replaceAppend,
   .replacing "slice" Idiom.slice.pattern fun _ => t.replaceSlice,
   (Rule.replacing "numpy_reshape" Idiom.reshape.pattern fun _ =>
     t.replaceReshape).gated
    (Rule.libraryGate Library.numpy Library.arrayBuilder),
   (Rule.replacing "scaler_fit_transform" Idiom.scalerFitTransform.pattern fun _ =>
     t.replaceFitTransform).gated
    (Rule.libraryGate Library.sklearn Library.fitTransform),
   (Rule.replacing "scaler_constructor" Idiom.scalerConstructor.pattern fun _ =>
     t.replaceScaler).gated
    (Rule.libraryGate Library.sklearn Library.scalerClass),
   .replacing "numpy_pair_return" Idiom.arrayPairReturn.pattern fun _ =>
     t.replaceArrayPair,
   .replacing "pair_return" Idiom.plainPairReturn.pattern fun _ =>
     t.replacePlainPair,
   { name := "window_constant", gate := needsWindow,
     transform := fun _ => t.declareWindow }] ++
  t.returnRules ++
  [{ name := "block_repair", transform := fun _ => Block.repair },
   { name := "boilerplate", transform := t.frame }]

/-- A snippet recast in a target, with what each rule did. -/
def recast (t : Target) (ctx : Context) (source : Text) : Trace :=
  Rule.run ctx t.rules source

end Target

end Recast
