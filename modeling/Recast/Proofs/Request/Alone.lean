import Recast.Cli.Output
import Recast.Proofs.Table.Update

/-!
# Each target for itself

A request analyses its snippet once, serves its targets one after the other and
files what it gets by name. A target asked for alone is served on an analysis of
its own. Both ways give it the same text and the same warnings, whatever else is
asked for and however often (`result_eq_alone`).
-/

namespace Recast

namespace Target

/-! ## Names -/

theorem name_injective {s t : Target} (h : s.name = t.name) : s = t := by
  have hs := ofName?_name s
  rw [h, ofName?_name] at hs
  exact (Option.some.inj hs).symm

/-- The words that ask for a target. -/
def supported : List Text := all.map name

theorem name_mem_supported (t : Target) : t.name ∈ supported := by
  cases t <;> decide

theorem ofName_name (t : Target) : ofName t.name = .ok t := by
  rw [ofName, ofName?_name]

theorem ofName_of_not_mem {n : Text} (h : n ∉ supported) :
    ofName n = .error ⟨n⟩ := by
  have hnone : ofName? n = none := by
    apply List.find?_eq_none.mpr
    intro t _ hname
    exact h (beq_iff_eq.mp hname ▸ t.name_mem_supported)
  rw [ofName, hnone]

theorem exists_map_name {names : List Text} (h : ∀ n ∈ names, n ∈ supported) :
    ∃ ts : List Target, names = ts.map name := by
  induction names with
  | nil => exact ⟨[], rfl⟩
  | cons n names ih =>
      obtain ⟨ts, rfl⟩ := ih fun m hm => h m (List.mem_cons_of_mem n hm)
      obtain ⟨t, -, rfl⟩ := List.mem_map.mp (h n List.mem_cons_self)
      exact ⟨t :: ts, rfl⟩

theorem ofNames_map_name (ts : List Target) :
    ofNames (ts.map name) = .ok ts := by
  induction ts with
  | nil => rfl
  | cons t ts ih =>
      rw [List.map_cons, ofNames, ofName_name, ih]

/-- The error is about the first word that asks for no target. -/
theorem ofNames_append_of_not_mem (ts : List Target) {n : Text}
    (h : n ∉ supported) (names : List Text) :
    ofNames (ts.map name ++ n :: names) = .error ⟨n⟩ := by
  induction ts with
  | nil => rw [List.map_nil, List.nil_append, ofNames, ofName_of_not_mem h]
  | cons t ts ih =>
      rw [List.map_cons, List.cons_append, ofNames, ofName_name, ih]

end Target

namespace Request

open Target

/-! ## A target asked for alone -/

/-- The run for one word, on an analysis of its own. -/
def traceAlone (source name : Text) : Except Unsupported Trace :=
  (ofName name).map fun t => t.recast (analyze source) source

/-- The warnings about a text in the target that one word asks for. -/
def warningsAlone (parser : Option GrammarParser) (text name : Text) :
    Except Unsupported (List Text) :=
  (ofName name).map fun t => (t.validate parser text).warnings

theorem traceAlone_name (source : Text) (t : Target) :
    traceAlone source t.name = .ok (t.recast (analyze source) source) := by
  rw [traceAlone, ofName_name]
  rfl

theorem warningsAlone_name (parser : Option GrammarParser) (text : Text)
    (t : Target) :
    warningsAlone parser text t.name =
      .ok (t.validate parser text).warnings := by
  rw [warningsAlone, ofName_name]
  rfl

/-- The result has for a word the output of the run that the word gets alone,
the warnings about this output and the confidence in them. -/
def GetsAlone (source : Text) (parser : Option GrammarParser) (r : Result)
    (n : Text) : Prop :=
  ∃ trace warnings, traceAlone source n = .ok trace ∧
    warningsAlone parser trace.output n = .ok warnings ∧
    r.texts.get? n = some trace.output ∧ r.warnings.get? n = some warnings ∧
    r.confidences.lookup n = some (confidence warnings)

theorem GetsAlone.same {source : Text} {parser : Option GrammarParser}
    {r r' : Result} {n : Text} (h : GetsAlone source parser r n)
    (h' : GetsAlone source parser r' n) :
    r.texts.get? n = r'.texts.get? n ∧ r.warnings.get? n = r'.warnings.get? n ∧
      r.confidences.lookup n = r'.confidences.lookup n := by
  obtain ⟨trace, warnings, htrace, hwarnings, htext, hlist, hscore⟩ := h
  obtain ⟨trace', warnings', htrace', hwarnings', htext', hlist', hscore'⟩ := h'
  obtain rfl := Except.ok.inj (htrace.symm.trans htrace')
  obtain rfl := Except.ok.inj (hwarnings.symm.trans hwarnings')
  exact ⟨htext.trans htext'.symm, hlist.trans hlist'.symm,
    hscore.trans hscore'.symm⟩

/-! ## Targets in a row -/

section Row

variable (source : Text) (parser : Option GrammarParser)

/-- What a row of targets gets. -/
def served (ts : List Target) : Result :=
  .ofRenditions (Request.mk source (ts.map name) parser).report
    (ts.map (Rendition.make parser (analyze source) source))

theorem result_map_name (ts : List Target) :
    (Request.mk source (ts.map name) parser).result =
      .ok (served source parser ts) := by
  rw [result, renditions, ofNames_map_name]
  rfl

/-- A table of what each target of a row gets has the names in the order in
which they first come. -/
theorem keys_filed {α : Type} (f : Target → α) (ts : List Target) :
    (Table.ofList (ts.map fun t => (t.name, f t))).keys =
      (ts.map name).eraseDups := by
  rw [Table.keys_ofList, List.map_map]
  rfl

/-- A target that is repeated gets the same each time, so that the last is as
good as the first. It may be filed under any key that tells targets apart. -/
theorem get?_filed {κ α : Type} [DecidableEq κ] {key : Target → κ}
    (hkey : ∀ {s t : Target}, key s = key t → s = t) (f : Target → α)
    {ts : List Target} {t : Target} (h : t ∈ ts) :
    (Table.ofList (ts.map fun t => (key t, f t))).get? (key t) =
      some (f t) := by
  apply Table.get?_ofList
  · exact List.mem_map.mpr ⟨t, h, rfl⟩
  · intro e he hsame
    obtain ⟨s, -, rfl⟩ := List.mem_map.mp he
    rw [hkey hsame]

theorem texts_served (ts : List Target) :
    (served source parser ts).texts =
      .ofList (ts.map fun t =>
        (t.name, (t.recast (analyze source) source).output)) := by
  simp only [served, Result.ofRenditions, List.map_map]
  rfl

theorem warnings_served (ts : List Target) :
    (served source parser ts).warnings =
      .ofList (ts.map fun t =>
        (t.name, (t.validate parser
          (t.recast (analyze source) source).output).warnings)) := by
  simp only [served, Result.ofRenditions, List.map_map]
  rfl

theorem map_fst_confidences (r : Result) :
    r.confidences.map Prod.fst = r.texts.keys := by
  simp [Result.confidences, Function.comp_def]

/-- The confidence in a text is that in its warnings. -/
theorem lookup_confidences {r : Result} {n : Text} {ws : List Text}
    (hn : n ∈ r.texts.keys) (hws : r.warnings.get? n = some ws) :
    r.confidences.lookup n = some (confidence ws) := by
  have hnodup : (r.confidences.map Prod.fst).Nodup := by
    rw [map_fst_confidences]
    exact r.texts.nodup
  have hmem : (n, confidence ws) ∈ r.confidences := by
    refine List.mem_map.mpr ⟨n, hn, ?_⟩
    rw [hws]
    rfl
  exact Table.lookup_of_mem hnodup hmem

theorem getsAlone_served {ts : List Target} {t : Target} (ht : t ∈ ts) :
    GetsAlone source parser (served source parser ts) t.name := by
  have hkey : t.name ∈ (served source parser ts).texts.keys := by
    rw [texts_served, keys_filed]
    exact List.mem_eraseDups.mpr (List.mem_map_of_mem ht)
  have hwarnings : (served source parser ts).warnings.get? t.name =
      some (t.validate parser
        (t.recast (analyze source) source).output).warnings := by
    rw [warnings_served, get?_filed name_injective _ ht]
  refine ⟨_, _, traceAlone_name source t, warningsAlone_name parser _ t, ?_,
    hwarnings, ?_⟩
  · rw [texts_served, get?_filed name_injective _ ht]
  · exact lookup_confidences hkey hwarnings

/-- Each target that is asked for has a section of its own. -/
theorem make_mem_distinct {o : Cli.Options} {parse : GrammarParser}
    {ts : List Target} {t : Target} (ht : t ∈ ts) :
    Rendition.make (Cli.requestFor o parse ts source).parser
      (analyze source) source t ∈
      Cli.distinct (Cli.renditionsFor o parse ts source) := by
  rw [Cli.distinct, Cli.renditionsFor, List.map_map]
  exact List.mem_map.mpr ⟨(t, _), Table.mem_of_get? (get?_filed id _ ht), rfl⟩

theorem result_of_find? {names : List Text} {n : Text}
    (h : names.find? (· ∉ supported) = some n) :
    (Request.mk source names parser).result = .error ⟨n⟩ := by
  obtain ⟨hn, pre, post, rfl, hpre⟩ := List.find?_eq_some_iff_append.mp h
  have hserved : ∀ m ∈ pre, m ∈ supported := fun m hm => by
    simpa using hpre m hm
  obtain ⟨ts, rfl⟩ := exists_map_name hserved
  rw [result, renditions, ofNames_append_of_not_mem ts (by simpa using hn)]
  rfl

theorem eq_served_of_result {names : List Text} {r : Result}
    (h : (Request.mk source names parser).result = .ok r) :
    ∃ ts : List Target, names = ts.map name ∧ r = served source parser ts := by
  cases hfirst : names.find? (· ∉ supported) with
  | some n =>
      rw [result_of_find? source parser hfirst] at h
      cases h
  | none =>
      have hall : ∀ n ∈ names, n ∈ supported := by
        intro n hn
        simpa using List.find?_eq_none.mp hfirst n hn
      obtain ⟨ts, rfl⟩ := exists_map_name hall
      rw [result_map_name] at h
      exact ⟨ts, rfl, (Except.ok.inj h).symm⟩

end Row

/-- **Targets are independent.** Where every word asks for a target, the request
succeeds, files what it has under the words, each where it first comes, and each
word has what it gets alone. Where some word asks for no target, the error names
the first. So a word has the same in every list that serves it. For each target
that is asked for, the command line prints one section, and the rules in it,
found by a run of their own, are those of the run that gave the text above
them. -/
theorem result_eq_alone (source : Text) (names : List Text)
    (parser : Option GrammarParser) :
    ((∀ n ∈ names, n ∈ supported) →
      ∃ r, (Request.mk source names parser).result = .ok r ∧
        r.texts.keys = names.eraseDups ∧ r.warnings.keys = names.eraseDups ∧
        r.confidences.map Prod.fst = names.eraseDups ∧
        ∀ n ∈ names, GetsAlone source parser r n) ∧
    (∀ n, names.find? (· ∉ supported) = some n →
      (Request.mk source names parser).result = .error ⟨n⟩ ∧
        Unsupported.message ⟨n⟩ = "Unsupported target: " ++ n) ∧
    (∀ names' r r', (Request.mk source names parser).result = .ok r →
      (Request.mk source names' parser).result = .ok r' →
      ∀ n ∈ names, n ∈ names' →
        r.texts.get? n = r'.texts.get? n ∧
        r.warnings.get? n = r'.warnings.get? n ∧
          r.confidences.lookup n = r'.confidences.lookup n) ∧
    ∀ o parse ts, ∀ t ∈ ts,
      ∃ r ∈ Cli.distinct (Cli.renditionsFor o parse ts source),
        r.target = t ∧ traceAlone source t.name = .ok r.trace ∧
        Cli.targetSection true source r =
          Cli.targetTitle r ++ r.verdict.warnings.flatMap Cli.warningLine ++
            r.trace.output ++ "\n" ++ Cli.rulesLine r.trace ++ "\n" := by
  refine ⟨?_, ?_, ?_, ?_⟩
  · intro hall
    obtain ⟨ts, rfl⟩ := exists_map_name hall
    refine ⟨served source parser ts, result_map_name source parser ts,
      ?_, ?_, ?_, ?_⟩
    · rw [texts_served, keys_filed]
    · rw [warnings_served, keys_filed]
    · rw [map_fst_confidences, texts_served, keys_filed]
    · intro n hn
      obtain ⟨t, ht, rfl⟩ := List.mem_map.mp hn
      exact getsAlone_served source parser ht
  · intro n hfirst
    exact ⟨result_of_find? source parser hfirst, rfl⟩
  · intro names' r r' hr hr' n hn hn'
    obtain ⟨ts, rfl, rfl⟩ := eq_served_of_result source parser hr
    obtain ⟨ts', rfl, rfl⟩ := eq_served_of_result source parser hr'
    obtain ⟨t, ht, rfl⟩ := List.mem_map.mp hn
    obtain ⟨t', ht', hname⟩ := List.mem_map.mp hn'
    obtain rfl := name_injective hname
    exact (getsAlone_served source parser ht).same
      (getsAlone_served source parser ht')
  · intro o parse ts t ht
    exact ⟨_, make_mem_distinct source ht, rfl, traceAlone_name source t, rfl⟩

end Request

end Recast
