import Recast.Cli.Usage
import Recast.Json
import Recast.Request
import Recast.Text.Utf8

/-!
# What the program prints

Everything from the arguments and the bytes of the file to the text on standard
output and standard error.
-/

namespace Recast

namespace Cli

/-! ## The source -/

/-- Why a file could not be read: the number and the wording of the system. -/
structure ReadError where
  code : Nat
  reason : Text
deriving DecidableEq, Repr

namespace ReadError

def missing : ReadError := ⟨2, "No such file or directory"⟩

def notDirectory : ReadError := ⟨20, "Not a directory"⟩

def directory : ReadError := ⟨21, "Is a directory"⟩

/-- The wording of the error for a file. -/
def message (e : ReadError) (file : Text) : Text :=
  "[Errno " ++ Text.ofNat e.code ++ "] " ++ e.reason ++ ": " ++ file.quoted

end ReadError

/-- The snippet that is used where no file is named. -/
def demo : Text :=
  "def prepare_data(prices):\n" ++
    "    # Normalise a price series\n" ++
    "    scaler = MinMaxScaler(feature_range=(0, 1))\n" ++
    "    scaled = scaler.fit_transform(np.array(prices).reshape(-1, 1))\n" ++
    "\n" ++
    "    x, y = [], []\n" ++
    "    LOOKBACK = 10\n" ++
    "\n" ++
    "    for i in range(len(scaled) - LOOKBACK):\n" ++
    "        x.append(scaled[i:i+LOOKBACK])\n" ++
    "        y.append(scaled[i+LOOKBACK])\n" ++
    "\n" ++
    "    return np.array(x), np.array(y)\n"

/-- The file that is to be read; an empty name is none. -/
def Options.input? (o : Options) : Option Text := o.file.filter (· ≠ [])

/-- Why the program gives up without an exit code of its own. -/
inductive Failure where
  /-- The name of the file holds a null character, which no file has in its
  name. -/
  | nullInName
  /-- The file is not a text. -/
  | undecodable (f : Utf8.Fault)
  /-- The place at an index of the list of targets holds none. -/
  | emptyPlace (index : Nat)
deriving DecidableEq, Repr

/-- The wording of a failure. -/
def Failure.message : Failure → Text
  | nullInName => "embedded null byte"
  | undecodable f => f.message
  | emptyPlace index => "sequence item " ++ Text.ofNat index ++
    ": expected str instance, list found"

/-- The targets in a list whose first place has an index, unless a place holds
none. -/
def targetsFrom (index : Nat) :
    List (Option Target) → Except Failure (List Target)
  | [] => .ok []
  | none :: _ => .error (.emptyPlace index)
  | some t :: ts => (targetsFrom (index + 1) ts).map (t :: ·)

/-- The targets that are asked for; all of them where no option asks for one. -/
def Options.asked (o : Options) : Except Failure (List Target) :=
  if o.targets.isEmpty then .ok Target.all else targetsFrom 0 o.targets

/-! ## The result as a document -/

def kindsJson (es : List (Text × Kind)) : Json :=
  .list (es.map fun e => Json.texts [e.1, e.2.name])

def reportJson (r : Report) : Json :=
  .record
    [(Context.Field.bindings.name, kindsJson r.bindings),
     (Context.Field.functions.name, Json.texts r.functions),
     (Context.Field.libraries.name, Json.texts r.libraries),
     (Context.Field.hints.name, kindsJson r.hints),
     (Context.Field.arithmetic.name, .bool r.arithmetic),
     ("library_equivalents", .record (r.counterparts.entries.map fun l =>
        (l.1, .record (l.2.entries.map fun e => (e.1, .text e.2)))))]

def resultJson (r : Result) : Json :=
  .record
    [("translations", .record (r.texts.entries.map fun e => (e.1, .text e.2))),
     ("warnings",
       .record (r.warnings.entries.map fun e => (e.1, Json.texts e.2))),
     ("report", reportJson r.report),
     ("confidence", .record (r.confidences.map fun e => (e.1, .number e.2)))]

/-! ## The result for reading -/

/-- The lines of the report. -/
def reportSection (r : Report) : Text :=
  "═══ Analysis ═══\n" ++ r.text ++ "\n\n"

/-- The line above the text of a target. -/
def targetTitle (r : Rendition) : Text :=
  "═══ " ++ r.target.name.map Char.toUpper ++ " (" ++
  Text.ofNat (confidence r.verdict.warnings) ++
    "% confidence) ═══\n"

/-- The line of a warning. -/
def warningLine (w : Text) : Text := "  ! " ++ w ++ "\n"

/-- The line on the rules that changed the text in a run. -/
def rulesLine (trace : Trace) : Text :=
  "  rules: " ++ Text.orElse (Text.join ", " trace.changedRules) "-" ++ "\n"

/-- The lines of one target. The rules are those of a run that is made once
more, on an analysis of its own. -/
def targetSection (trace : Bool) (source : Text) (r : Rendition) : Text :=
  targetTitle r ++ r.verdict.warnings.flatMap warningLine ++
  r.trace.output ++ "\n" ++
  (if trace then rulesLine (r.target.recast (analyze source) source) else []) ++
    "\n"

/-- The renditions, each target once. -/
def distinct (rs : List Rendition) : List Rendition :=
  (Table.ofList (rs.map fun r => (r.target, r))).entries.map Prod.snd

/-- What is said before the demonstration. -/
def demoBanner : Text :=
  "No file provided. Using built-in demo:\n\n" ++ demo ++ "\n"

/-! ## The log -/

def logRead (file source : Text) : Text :=
  "polyglot.cli: Read " ++ Text.ofNat source.length ++ " chars from " ++
  file ++ "\n"

def logRequest (grammarCheck : Bool) (targets : List Target) (source : Text) :
    Text :=
  "polyglot.api: Translating " ++ Text.ofNat source.length ++ " chars to " ++
    Text.join ", " (targets.map Target.name) ++ " (grammar_check=" ++
    (if grammarCheck then "True" else "False") ++ ")\n"

def logRendition (r : Rendition) : Text :=
  "polyglot.api: " ++ r.target.name ++ ": " ++
  Text.ofNat r.verdict.warnings.length ++ " warning(s)\n"

/-! ## The program -/

/-- How the program ends. -/
inductive Ending where
  | exit (code : Nat)
  | failure (f : Failure)
deriving DecidableEq, Repr

/-- All that the program does. -/
structure Output where
  stdout : Text := []
  stderr : Text := []
  ending : Ending := .exit 0
deriving DecidableEq, Repr

/-- The request for a source in targets. -/
def requestFor (o : Options) (parse : GrammarParser) (targets : List Target)
    (source : Text) :
    Request where
  source := source
  targets := targets.map Target.name
  parser := if o.grammarCheck then some parse else none

/-- The renditions of a source in targets. -/
def renditionsFor (o : Options) (parse : GrammarParser) (targets : List Target)
    (source : Text) :
    List Rendition :=
  targets.map (Rendition.make (requestFor o parse targets source).parser
    (analyze source) source)

/-- What is printed for a source. -/
def present (o : Options) (report : Report) (source : Text)
    (rs : List Rendition) : Text :=
  if o.json then (resultJson (Result.ofRenditions report rs)).render ++ "\n"
  else
    (if o.report then reportSection report else []) ++
      (distinct rs).flatMap (targetSection o.trace source)

/-- Serves a source, after what was printed and logged about where it comes
from. -/
def serve (o : Options) (parse : GrammarParser) (banner log source : Text) :
    Output :=
  match o.asked with
  | .error f =>
    { stdout := banner, stderr := if o.verbose then log else [],
      ending := .failure f }
  | .ok targets =>
    let rs := renditionsFor o parse targets source
    { stdout := banner ++
        present o (requestFor o parse targets source).report source rs
      stderr :=
        if o.verbose then log ++ logRequest o.grammarCheck targets source ++
          rs.flatMap logRendition
        else [] }

/-- Serves options, given what reading a file of a name gives. -/
def execute (o : Options) (parse : GrammarParser)
    (readFile : Text → Except ReadError (List UInt8)) : Output :=
  match o.input? with
  | none => serve o parse (if o.json then [] else demoBanner) [] demo
  | some file =>
    if file.contains '\x00' then { ending := .failure .nullInName }
    else
      match readFile file with
      | .error e =>
        { stderr := "Cannot read " ++ file ++ ": " ++ e.message file ++ "\n",
          ending := .exit 1 }
      | .ok bytes =>
        match Utf8.decode bytes with
        | .error f => { ending := .failure (.undecodable f) }
        | .ok t => serve o parse [] (logRead file t.unifyBreaks) t.unifyBreaks

/-- The whole program, given its arguments and what reading a file of a name
gives. -/
def run (arguments : List Text) (parse : GrammarParser)
    (readFile : Text → Except ReadError (List UInt8)) : Output :=
  match read arguments with
  | .help => { stdout := help }
  | .misuse m => { stderr := complaint m, ending := .exit 2 }
  | .options o => execute o parse readFile

end Cli

end Recast
