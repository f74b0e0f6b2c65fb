import Recast.Context.Draft
import Recast.Request

/-!
# Sessions

A session holds a context and a text and works on them command by command. A
command that is refused leaves both as they are.
-/

namespace Recast

structure Session where
  context : Context := .empty
  buffer : Text := []

namespace Session

inductive Command where
  /-- Take the context from a source. -/
  | analyze (source : Text)
  /-- Take the context from a draft. -/
  | adopt (draft : Context.Draft)
  | load (text : Text)
  /-- Recast a source, or else the buffer. -/
  | recast (target : Text) (source : Option Text)
  /-- Apply one rule of a target to the buffer. -/
  | applyRule (target rule : Text)
  | validate (target : Text)
  | kindOf (name : Text)
  | uses (library : Text)
  | report
  /-- Set a part of the context: it cannot be set. -/
  | assignField (name : Text)
  /-- Set one variable of the context: it cannot be set. -/
  | assignVariable (name : Text)

/-- What a command answers. -/
inductive Reply where
  | context (ctx : Context)
  | size (n : Nat)
  | text (t : Text)
  | step (buffer : Text) (step : Step)
  | warnings (ws : List Text)
  | kind (k : Kind)
  | truth (b : Bool)

/-- Why a command is refused. -/
inductive Refusal where
  | unsupported (e : Target.Unsupported)
  | noRule (name : Text)
  | faults (fs : List Context.Draft.Fault)
  | fixedField (name : Text)
  | fixedVariables

/-- The wording of a refusal. -/
def Refusal.message : Refusal → Text
  | unsupported e => e.message
  | noRule name => "No such rule: " ++ name
  | faults fs => Text.join ", " (fs.map (·.location))
  | fixedField name => name
  | fixedVariables => Context.Field.bindings.name

/-- The rule of a target by its name. -/
def ruleOf (target rule : Text) : Except Refusal Rule :=
  match Target.ofName target with
  | .error e => .error (.unsupported e)
  | .ok t =>
    match t.rules.find? (·.name == rule) with
    | none => .error (.noRule rule)
    | some r => .ok r

/-- The session after a command, and the answer. -/
def perform (s : Session) : Command → Except Refusal (Session × Reply)
  | .analyze source =>
    let ctx := Recast.analyze source
    .ok ({ s with context := ctx }, .context ctx)
  | .adopt draft =>
    match draft.check with
    | .error fs => .error (.faults fs)
    | .ok ctx => .ok ({ s with context := ctx }, .context ctx)
  | .load text => .ok ({ s with buffer := text }, .size text.length)
  | .recast target source =>
    match Target.ofName target with
    | .error e => .error (.unsupported e)
    | .ok t =>
      let output := (t.recast s.context (source.getD s.buffer)).output
      .ok ({ s with buffer := output }, .text output)
  | .applyRule target rule =>
    match ruleOf target rule with
    | .error e => .error e
    | .ok r =>
      let buffer := r.apply s.context s.buffer
      .ok ({ s with buffer := buffer },
        .step buffer (r.step s.context s.buffer))
  | .validate target =>
    match Target.ofName target with
    | .error e => .error (.unsupported e)
    | .ok t => .ok (s, .warnings (t.warnings s.buffer))
  | .kindOf name => .ok (s, .kind (s.context.kindOf name))
  | .uses library => .ok (s, .truth (s.context.uses library))
  | .report => .ok
    (s, .text (Report.ofContext s.context (Target.all.map Target.name)).text)
  | .assignField name => .error (.fixedField name)
  | .assignVariable _ => .error .fixedVariables

/-- Runs commands one after the other; a refused command changes nothing. -/
def run (s : Session) : List Command → List (Except Refusal Reply)
  | [] => []
  | c :: cs =>
    match s.perform c with
    | .error e => .error e :: run s cs
    | .ok (s', reply) => .ok reply :: run s' cs

end Session

end Recast
