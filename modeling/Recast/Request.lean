import Recast.Check.Grammar
import Recast.Pipeline
import Recast.Report

/-!
# Requests

A request asks for one snippet in several targets. The snippet is analysed once;
each target then has its own text and its own warnings, whatever else is asked
for.
-/

namespace Recast

/-- A snippet and the targets asked for, by name; a name may be repeated. -/
structure Request where
  source : Text
  targets : List Text
  parser : Option GrammarParser

/-- A snippet recast in one target and checked. -/
structure Rendition where
  target : Target
  trace : Trace
  verdict : Verdict

/-- The texts and warnings by target, and the report of the analysis. -/
structure Result where
  texts : Table Text Text
  warnings : Table Text (List Text)
  report : Report

namespace Rendition

/-- A snippet with a known context recast in a target and checked. -/
def make (parser : Option GrammarParser) (ctx : Context) (source : Text)
    (t : Target) : Rendition :=
  let trace := t.recast ctx source
  ⟨t, trace, t.validate parser trace.output⟩

end Rendition

namespace Target

/-- The targets that words ask for, or the error about the first word that asks
for none. -/
def ofNames : List Text → Except Unsupported (List Target)
  | [] => .ok []
  | n :: ns =>
    match ofName n with
    | .error e => .error e
    | .ok t =>
      match ofNames ns with
      | .error e => .error e
      | .ok ts => .ok (t :: ts)

end Target

namespace Result

/-- A target that there is no text for. -/
structure Missing where
  target : Text
deriving DecidableEq, Repr

/-- The wording of the error. -/
def Missing.message (e : Missing) : Text :=
  "No translation for target: " ++ e.target

/-- The confidence in the text of a target. -/
def confidence (r : Result) (target : Text) : Except Missing Nat :=
  if r.texts.contains target then
    .ok (Recast.confidence ((r.warnings.get? target).getD []))
  else .error ⟨target⟩

/-- The confidence in every text. -/
def confidences (r : Result) : List (Text × Nat) :=
  r.texts.keys.map fun t => (t, Recast.confidence ((r.warnings.get? t).getD []))

/-- The result of renditions, by target. -/
def ofRenditions (report : Report) (rs : List Rendition) : Result where
  texts := .ofList (rs.map fun r => (r.target.name, r.trace.output))
  warnings := .ofList (rs.map fun r => (r.target.name, r.verdict.warnings))
  report := report

end Result

namespace Request

/-- The renditions asked for, one for each name, repeated where the name is. -/
def renditions (q : Request) : Except Target.Unsupported (List Rendition) :=
  let ctx := analyze q.source
  (Target.ofNames q.targets).map fun ts =>
    ts.map (Rendition.make q.parser ctx q.source)

/-- The report of the snippet for the targets asked for. -/
def report (q : Request) : Report := .ofContext (analyze q.source) q.targets

/-- The result of a request, or the error about the first target that is not
supported. -/
def result (q : Request) : Except Target.Unsupported Result :=
  q.renditions.map (Result.ofRenditions q.report)

/-- The calls of the parser, in order. -/
def parsed (rs : List Rendition) : List ParseCall :=
  rs.flatMap (·.verdict.parsed)

end Request

end Recast
