import Recast.Context.Basic
import Recast.Pattern.Scan

/-!
# Rules

A rule is one step over a text: where its gate is open, it transforms the text.
Rules run one after the other, each on what the previous one left, and every run
keeps a record of what each rule did.
-/

namespace Recast

/-- One step over a text. -/
structure Rule where
  name : Text
  gate : Context → Text → Bool := fun _ _ => true
  transform : Context → Text → Text

/-- What a rule did. -/
inductive Effect where
  /-- The gate was closed. -/
  | skipped
  /-- The transformed text is the same. -/
  | unchanged
  | changed
deriving DecidableEq, Repr

/-- The record of one rule. -/
structure Step where
  rule : Text
  effect : Effect
deriving DecidableEq, Repr

/-- The record of a run: the text at the end, and what each rule did. -/
structure Trace where
  output : Text
  steps : List Step
deriving DecidableEq, Repr

namespace Step

/-- Whether the gate was open. -/
def fired (s : Step) : Bool := s.effect != .skipped

/-- Whether the text is another one. -/
def changed (s : Step) : Bool := s.effect == .changed

/-- The record as one line. -/
def line (s : Step) : Text :=
  s.rule ++
    match s.effect with
    | .skipped => ": skipped"
    | .unchanged => ": no match"
    | .changed => ": rewrote"

end Step

namespace Trace

/-- The names of the rules that changed the text. -/
def changedRules (t : Trace) : List Text :=
  (t.steps.filter (·.changed)).map (·.rule)

end Trace

namespace Rule

/-- The text after one rule. -/
def apply (r : Rule) (ctx : Context) (t : Text) : Text :=
  if r.gate ctx t then r.transform ctx t else t

/-- What one rule does. -/
def effect (r : Rule) (ctx : Context) (t : Text) : Effect :=
  if r.gate ctx t then if r.transform ctx t = t then .unchanged else .changed
  else .skipped

/-- The record of one rule. -/
def step (r : Rule) (ctx : Context) (t : Text) : Step :=
  ⟨r.name, r.effect ctx t⟩

/-- Runs rules from left to right. -/
def run (ctx : Context) : List Rule → Text → Trace
  | [], t => ⟨t, []⟩
  | r :: rs, t =>
    let rest := run ctx rs (r.apply ctx t)
    ⟨rest.output, r.step ctx t :: rest.steps⟩

/-- Each step of a run with the text after it. -/
def trail (ctx : Context) : List Rule → Text → List (Step × Text)
  | [], _ => []
  | r :: rs, t => (r.step ctx t, r.apply ctx t) :: trail ctx rs (r.apply ctx t)

/-! ## Kinds of rule -/

/-- Open where a library is used and a marker of it is left in the text. -/
def libraryGate (library marker : Text) (ctx : Context) (t : Text) : Bool :=
  ctx.uses library && t.mentions marker

/-- Replaces every match of a pattern. -/
def replacing (name : Text) (p : Pattern) (f : Context → Match → Text) :
    Rule where
  name := name
  transform ctx t := p.substitute (f ctx) t

/-- The rule with another gate. -/
def gated (r : Rule) (gate : Context → Text → Bool) : Rule :=
  { r with gate := gate }

/-- `new` before every character and at the end. -/
def interleave (new : Text) (t : Text) : Text :=
  t.flatMap (fun c => new ++ [c]) ++ new

/-- Replaces every occurrence of one text by another, from left to right. The
empty text occurs at every place. -/
def literal (name old new : Text) : Rule where
  name := name
  transform _ t := if old.isEmpty then interleave new t
    else (Pattern.literal old).substitute (fun _ => new) t

/-- Replaces every match by its groups between angle brackets, with a tilde for
one that took no part. -/
def showingGroups (name : Text) (p : Pattern) : Rule :=
  replacing name p fun _ m =>
    "<" ++ Text.join "|" (m.groups.map (·.getD "~")) ++ ">"

/-! ## First facts -/

theorem run_output (ctx : Context) (rs : List Rule) (t : Text) :
    (run ctx rs t).output = rs.foldl (fun t r => r.apply ctx t) t := by
  induction rs generalizing t with
  | nil => rfl
  | cons r rs ih => simp [run, ih]

end Rule

end Recast
