import Recast.Cli.Output
import Recast.Proofs.Table.Update

/-!
# Results out of documents

A result is written as a document of records and lists. Here it is taken out of
the document again, field by field; a document of another form gives none. In a
record a key has the value that comes last, at the place where the key comes
first, as in a table.
-/

namespace Recast

namespace Json

variable {α β : Type}

/-! ## Parts of a document -/

def asText? : Json → Option Text
  | text t => some t
  | _ => none

def asNumber? : Json → Option Nat
  | number n => some n
  | _ => none

def asBool? : Json → Option Bool
  | bool b => some b
  | _ => none

/-- The elements of a list, each taken by `f`. -/
def asList? (f : Json → Option α) : Json → Option (List α)
  | list js => js.mapM f
  | _ => none

/-- A field, its value taken by `f`. -/
def takeField? (f : Json → Option α) (e : Text × Json) : Option (Text × α) :=
  (f e.2).map (e.1, ·)

/-- The fields of a record, the value of each taken by `f`. -/
def asTable? (f : Json → Option α) : Json → Option (Table Text α)
  | record fs => (fs.mapM (takeField? f)).map .ofList
  | _ => none

/-- The field of a name, taken by `f`. -/
def field? (name : Text) (f : Json → Option α) : Json → Option α
  | record fs => ((Table.ofList fs).get? name).bind f
  | _ => none

/-- A name and its kind. -/
def asKinded? : Json → Option (Text × Kind)
  | list [text name, text kind] => (Kind.ofName? kind).map (name, ·)
  | _ => none

/-! ## What is written is taken back -/

theorem mapM_map {f : β → Option α} {g : α → β} {as : List α}
    (h : ∀ a ∈ as, f (g a) = some a) :
    (as.map g).mapM f = some as := by
  induction as with
  | nil => rfl
  | cons a as ih =>
      obtain ⟨ha, has⟩ := List.forall_mem_cons.mp h
      rw [List.map_cons, List.mapM_cons, ha, ih has]
      rfl

theorem asList?_list_map {f : Json → Option α} {g : α → Json}
    (h : ∀ a, f (g a) = some a) (as : List α) :
    asList? f (list (as.map g)) = some as :=
  mapM_map fun a _ => h a

theorem asTable?_record_map {f : Json → Option α} {g : α → Json}
    (h : ∀ a, f (g a) = some a) (t : Table Text α) :
    asTable? f (record (t.entries.map fun e => (e.1, g e.2))) = some t := by
  have hfields : (t.entries.map fun e => (e.1, g e.2)).mapM (takeField? f) =
      some t.entries :=
    mapM_map fun e _ => by rw [takeField?, h]; rfl
  rw [asTable?, hfields, Option.map_some, Table.ofList_entries]

theorem asText?_text (t : Text) : asText? (text t) = some t := rfl

theorem asNumber?_number (n : Nat) : asNumber? (number n) = some n := rfl

theorem asList?_texts (ts : List Text) : asList? asText? (texts ts) = some ts :=
  asList?_list_map asText?_text ts

theorem asList?_kindsJson (es : List (Text × Kind)) :
    asList? asKinded? (Cli.kindsJson es) = some es := by
  refine asList?_list_map (fun e => ?_) es
  show (Kind.ofName? e.2.name).map (e.1, ·) = some e
  rw [Kind.ofName?_name]
  rfl

end Json

namespace Cli

open Json

/-! ## Reports and results -/

def reportOf? (j : Json) : Option Report := do
  let bindings ← j.field? Context.Field.bindings.name (asList? asKinded?)
  let functions ← j.field? Context.Field.functions.name (asList? asText?)
  let libraries ← j.field? Context.Field.libraries.name (asList? asText?)
  let hints ← j.field? Context.Field.hints.name (asList? asKinded?)
  let arithmetic ← j.field? Context.Field.arithmetic.name asBool?
  let counterparts ← j.field? "library_equivalents"
    (asTable? (asTable? asText?))
  return { bindings, functions, libraries, hints, arithmetic, counterparts }

def resultOf? (j : Json) : Option Result := do
  let texts ← j.field? "translations" (asTable? asText?)
  let warnings ← j.field? "warnings" (asTable? (asList? asText?))
  let report ← j.field? "report" reportOf?
  return { texts, warnings, report }

/-- The confidence in each text. -/
def confidencesOf? (j : Json) : Option (Table Text Nat) :=
  j.field? "confidence" (asTable? asNumber?)

theorem reportOf?_reportJson (r : Report) :
    reportOf? (reportJson r) = some r := by
  have hbindings : (reportJson r).field? Context.Field.bindings.name
      (asList? asKinded?) = some r.bindings :=
    asList?_kindsJson r.bindings
  have hfunctions : (reportJson r).field? Context.Field.functions.name
      (asList? asText?) = some r.functions :=
    asList?_texts r.functions
  have hlibraries : (reportJson r).field? Context.Field.libraries.name
      (asList? asText?) = some r.libraries :=
    asList?_texts r.libraries
  have hhints : (reportJson r).field? Context.Field.hints.name
      (asList? asKinded?) = some r.hints :=
    asList?_kindsJson r.hints
  have harithmetic : (reportJson r).field? Context.Field.arithmetic.name
      asBool? = some r.arithmetic := rfl
  have hcounterparts : (reportJson r).field? "library_equivalents"
      (asTable? (asTable? asText?)) =
      some r.counterparts :=
    asTable?_record_map (asTable?_record_map asText?_text) r.counterparts
  simp only [reportOf?, hbindings, hfunctions, hlibraries, hhints, harithmetic,
    hcounterparts]
  rfl

theorem resultOf?_resultJson (r : Result) :
    resultOf? (resultJson r) = some r := by
  have htexts : (resultJson r).field? "translations" (asTable? asText?) =
      some r.texts :=
    asTable?_record_map asText?_text r.texts
  have hwarnings : (resultJson r).field? "warnings"
      (asTable? (asList? asText?)) = some r.warnings :=
    asTable?_record_map asList?_texts r.warnings
  have hreport : (resultJson r).field? "report" reportOf? = some r.report :=
    reportOf?_reportJson r.report
  simp only [resultOf?, htexts, hwarnings, hreport]
  rfl

theorem confidencesOf?_resultJson (r : Result) :
    (confidencesOf? (resultJson r)).map Table.entries = some r.confidences := by
  have hkeys : r.confidences.map Prod.fst = r.texts.keys := by
    simp [Result.confidences, Function.comp_def]
  have hnodup : (r.confidences.map Prod.fst).Nodup := hkeys ▸ r.texts.nodup
  have htaken : confidencesOf? (resultJson r) = some ⟨r.confidences, hnodup⟩ :=
    asTable?_record_map asNumber?_number ⟨r.confidences, hnodup⟩
  rw [htaken, Option.map_some]

end Cli

end Recast
