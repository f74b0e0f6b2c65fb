import Recast.Target.Basic
import Recast.Text.Quoted
import Recast.Pattern.Basic

/-!
# Command-line arguments

Arguments are read in two passes. The first one says of every argument whether
it is an option or a value; the second one acts on them from left to right. A
long option may be cut short as long as it is told from the others, a short one
may carry its value or further short ones, after an equals sign or without one,
and after `--` everything is a value. The first value is the file; whatever
finds no place is left over, and left-over arguments are an error.
-/

namespace Recast

namespace Cli

/-- The options. -/
inductive Flag where
  | help
  | target
  | report
  | trace
  | json
  | grammarCheck
  | verbose
deriving DecidableEq, Repr

/-- What the arguments ask for. A target option that carries `--` has that taken
for the end of its values, and stands in the list without a target. -/
structure Options where
  file : Option Text := none
  targets : List (Option Target) := []
  report : Bool := false
  trace : Bool := false
  json : Bool := false
  grammarCheck : Bool := false
  verbose : Bool := false
deriving DecidableEq, Repr

/-- What is wrong with the arguments. -/
inductive Misuse where
  /-- A cut option that fits several. -/
  | ambiguous (argument : Text) (candidates : List Text)
  /-- A value for an option that takes none. -/
  | ignoredValue (flag : Flag) (value : Text)
  /-- An option without the value that it takes. -/
  | missingValue (flag : Flag)
  /-- A target that there is not. -/
  | invalidTarget (value : Text)
  | leftOver (arguments : List Text)
deriving DecidableEq, Repr

/-- What becomes of the arguments. -/
inductive Reading where
  | help
  | misuse (m : Misuse)
  | options (o : Options)
deriving DecidableEq, Repr

/-! ## Names -/

/-- Every name of an option, in the order in which candidates are listed. -/
def names : List (Text × Flag) :=
  [("-h", .help), ("--help", .help), ("--target", .target), ("-t", .target),
   ("--report", .report), ("--trace", .trace), ("--json", .json),
   ("--grammar-check", .grammarCheck), ("--verbose", .verbose), ("-v", .verbose)]

/-- The option of a name. -/
def flag? (name : Text) : Option Flag := names.lookup name

namespace Flag

/-- Whether the option takes a value. -/
def takesValue (f : Flag) : Bool := f == target

/-- All names of the option. -/
def label (f : Flag) : Text :=
  Text.join "/" ((names.filter (·.2 == f)).map Prod.fst)

end Flag

/-- The wording of a misuse. -/
def Misuse.message : Misuse → Text
  | ambiguous argument candidates =>
    "ambiguous option: " ++ argument ++ " could match " ++
    Text.join ", " candidates
  | ignoredValue flag value =>
    "argument " ++ flag.label ++ ": ignored explicit argument " ++ value.quoted
  | missingValue flag => "argument " ++ flag.label ++ ": expected one argument"
  | invalidTarget value =>
    "argument " ++ Flag.target.label ++ ": invalid choice: " ++ value.quoted ++
    " (choose from " ++
      Text.join ", " (Target.all.map (·.name.quoted)) ++ ")"
  | leftOver arguments => "unrecognized arguments: " ++ Text.join " " arguments

/-! ## The first pass -/

/-- An argument by its role. -/
inductive Token where
  | value (t : Text)
  /-- The argument that ends the options. -/
  | separator
  /-- An option, with what stands in the same argument: after an equals sign, or
  right after the letter. -/
  | option (name : Text) (flag : Flag) (attached : Option Text)
  /-- An option that there is not. -/
  | unknown (t : Text)
deriving DecidableEq, Repr

open Pattern in
/-- A number below zero, which is not taken for an option. -/
def negativeNumber : Pattern :=
  anchor .textStart ++ "-" ++ many1 isDigit ++ anchor .textEnd <|>
    anchor .textStart ++ "-" ++ many .longest isDigit ++ "." ++ many1 isDigit ++
    anchor .textEnd

/-- What stands after the first equals sign, if there is one. -/
def valueAfterEquals (t : Text) : Option Text :=
  if t.contains '=' then some (t.after '=') else none

/-- The options that a cut or filled argument may stand for. -/
def candidates (t : Text) : List Token :=
  if t.take 2 = "--" then
    (names.filter fun e => (t.before '=').isPrefixOf e.1).map fun e =>
      .option e.1 e.2 (valueAfterEquals t)
  else
    (names.filter fun e => e.1 == t.take 2).map fun e =>
      .option e.1 e.2 (some (t.drop 2))

/-- The name of a candidate. -/
def Token.name : Token → Text
  | option name _ _ => name
  | value t | unknown t => t
  | separator => "--"

/-- The role of an argument that starts with a dash, has more to it, and is no
name. -/
def classifyDashed (t : Text) : Except Misuse Token :=
  match flag? (t.before '='), valueAfterEquals t with
  | some f, some v => .ok (.option (t.before '=') f (some v))
  | _, _ =>
    match candidates t with
    | [c] => .ok c
    | [] =>
      .ok (if negativeNumber.opens t || t.contains ' ' then .value t
        else .unknown t)
    | cs => .error (.ambiguous t (cs.map Token.name))

/-- The role of an argument. -/
def classify (t : Text) : Except Misuse Token :=
  if t.head? ≠ some '-' then .ok (.value t)
  else
    match flag? t with
    | some f => .ok (.option t f none)
    | none => if t = "-" then .ok (.value t) else classifyDashed t

/-- The roles of all arguments. -/
def classifyAll : List Text → Except Misuse (List Token)
  | [] => .ok []
  | t :: ts =>
    if t = "--" then .ok (.separator :: ts.map .value)
    else
      match classify t, classifyAll ts with
      | .ok c, .ok cs => .ok (c :: cs)
      | .error e, _ => .error e
      | _, .error e => .error e

/-! ## The second pass -/

/-- The options in one argument: those that take no value, then perhaps one with
a value or one that waits for the next argument. -/
structure Cluster where
  flags : List Flag
  valued : Option Text := none
  waiting : Bool := false

/-- What a short option without a value carries: further letters, each of which
is an option, up to one that takes the rest for its value. -/
def clusterLetters (flag : Flag) : Text → Except Misuse Cluster
  | [] => .error (.ignoredValue flag [])
  | c :: cs =>
    match flag? ['-', c], cs with
    | none, _ => .error (.ignoredValue flag (c :: cs))
    | some f, [] =>
      if f.takesValue then .ok { flags := [flag], waiting := true }
      else .ok { flags := [flag, f] }
    | some f, d :: ds =>
      if f.takesValue then .ok { flags := [flag], valued := some (d :: ds) }
      else (clusterLetters f (d :: ds)).map fun k =>
        { k with flags := flag :: k.flags }

/-- The options in one argument. -/
def cluster (name : Text) (flag : Flag) : Option Text → Except Misuse Cluster
  | none =>
    if flag.takesValue then .ok { flags := [], waiting := true }
    else .ok { flags := [flag] }
  | some v =>
    if flag.takesValue then .ok { flags := [], valued := some v }
    else if name.take 2 = "--" then .error (.ignoredValue flag v)
    else clusterLetters flag v

/-- What has been read so far: the options, whether the last argument was the
file, and what is left over. -/
structure Progress where
  options : Options := {}
  atFile : Bool := false
  leftOver : List Text := []

/-- The options with one more set; `none` where help is asked for. -/
def set (o : Options) : Flag → Option Options
  | .help => none
  | .target => some o
  | .report => some { o with report := true }
  | .trace => some { o with trace := true }
  | .json => some { o with json := true }
  | .grammarCheck => some { o with grammarCheck := true }
  | .verbose => some { o with verbose := true }

/-- The options with several more set; `none` where help is asked for. -/
def setAll (o : Options) : List Flag → Option Options
  | [] => some o
  | f :: fs => (set o f).bind (setAll · fs)

/-- The options with one more target; `--` leaves its place empty. -/
def addTarget (o : Options) (value : Text) : Except Misuse Options :=
  match Target.ofName? value with
  | some t => .ok { o with targets := o.targets ++ [some t] }
  | none =>
    if value = "--" then .ok { o with targets := o.targets ++ [none] }
    else .error (.invalidTarget value)

/-- Acts on the options of one argument, the last of which may have a value.
Asking for help or for a target that there is not ends the reading. -/
def act (p : Progress) (k : Cluster) (value : Option Text) :
    Except Reading Progress :=
  match setAll p.options k.flags, value with
  | none, _ => .error .help
  | some o, none => .ok ⟨o, false, p.leftOver⟩
  | some o, some v =>
    match addTarget o v with
    | .error e => .error (.misuse e)
    | .ok o => .ok ⟨o, false, p.leftOver⟩

/-- A value finds its place as the file, if that is not taken. -/
def placeValue (p : Progress) (v : Text) : Progress :=
  if p.options.file.isNone then
    { p with options := { p.options with file := some v }, atFile := true }
  else { p with atFile := false, leftOver := p.leftOver ++ [v] }

/-- The separator finds its place next to the file, before or after it. -/
def placeSeparator (p : Progress) : Progress :=
  if p.options.file.isNone || p.atFile then { p with atFile := false }
  else { p with leftOver := p.leftOver ++ [['-', '-']] }

/-- Acts on arguments from left to right. -/
def consume (p : Progress) : List Token → Reading
  | [] =>
    if p.leftOver.isEmpty then .options p.options
    else .misuse (.leftOver p.leftOver)
  | .value v :: ts => consume (placeValue p v) ts
  | .separator :: ts => consume (placeSeparator p) ts
  | .unknown t :: ts =>
    consume { p with atFile := false, leftOver := p.leftOver ++ [t] } ts
  | .option name flag attached :: ts =>
    match cluster name flag attached with
    | .error e => .misuse e
    | .ok k =>
      if k.waiting then
        match ts with
        | .value v :: ts =>
          match act p k (some v) with
          | .error r => r
          | .ok p => consume p ts
        | _ => .misuse (.missingValue .target)
      else
        match act p k k.valued with
        | .error r => r
        | .ok p => consume p ts

/-- What the arguments ask for. -/
def read (arguments : List Text) : Reading :=
  match classifyAll arguments with
  | .error e => .misuse e
  | .ok ts => consume {} ts

end Cli

end Recast
