import Recast.Proofs.Cli.ResultDocument
import Recast.Proofs.Json.Reader
import Recast.Proofs.Request.Alone
import Recast.Proofs.Text.Encoding

/-!
# The document that is printed

A run that is asked for a document prints nothing else, with a file or without
one (`execute_of_supplies`): what is printed is the result of the request for
the targets selected, written out (`serve_json`). The document is in ASCII, is
read back as it was written, and has the whole result in it.
-/

namespace Recast

namespace Cli

variable {o : Options} {readFile : Text → Except ReadError (List UInt8)}
    {source : Text} {ts : List Target}

/-! ## The source -/

/-- The source of a run: the demonstration where no file is named, else the text
in the file. -/
def Options.Supplies (o : Options)
    (readFile : Text → Except ReadError (List UInt8)) (source : Text) : Prop :=
  match o.input? with
  | none => source = demo
  | some file =>
    '\x00' ∉ file ∧
      ∃ bytes t, readFile file = .ok bytes ∧ Utf8.decode bytes = .ok t ∧
        source = t.unifyBreaks

/-- Every text without carriage returns is the source of a run. -/
theorem supplies_encode {file : Text} (hfile : o.input? = some file)
    (hname : '\x00' ∉ file) (hread : readFile file = .ok (Utf8.encode source))
    (hbreaks : '\r' ∉ source) : o.Supplies readFile source := by
  rw [Options.Supplies, hfile]
  exact ⟨hname, _, source, hread, Utf8.decode_encode source,
    (Text.unifyBreaks_of_not_mem hbreaks).symm⟩

/-- Nothing is printed before the document. -/
theorem execute_of_supplies (parse : GrammarParser) (hjson : o.json = true)
    (h : o.Supplies readFile source) :
    ∃ log, execute o parse readFile = serve o parse [] log source := by
  rw [execute]
  rw [Options.Supplies] at h
  cases hinput : o.input? with
  | none =>
      rw [hinput] at h
      subst h
      exact ⟨[], by rw [if_pos hjson]⟩
  | some file =>
      rw [hinput] at h
      obtain ⟨hname, bytes, t, hread, hdecode, rfl⟩ := h
      have hname : file.contains '\x00' = false := by simpa using hname
      exact ⟨logRead file t.unifyBreaks,
        by simp only [hname, hread, hdecode, Bool.false_eq_true, if_false]⟩

/-! ## The targets -/

/-- The targets of a selection; an empty one stands for all of them. -/
def selected (ts : List Target) : List Target :=
  if ts.isEmpty then Target.all else ts

theorem targetsFrom_map_some (index : Nat) (ts : List Target) :
    targetsFrom index (ts.map some) = .ok ts := by
  induction ts generalizing index with
  | nil => rfl
  | cons t ts ih =>
      rw [List.map_cons, targetsFrom, ih (index + 1)]
      rfl

theorem asked_of_targets (h : o.targets = ts.map some) :
    o.asked = .ok (selected ts) := by
  rw [Options.asked, h, targetsFrom_map_some, selected, List.isEmpty_map]
  split <;> rfl

/-! ## The document -/

theorem serve_json (parse : GrammarParser) (banner log source : Text)
    (hjson : o.json = true) (hcheck : o.grammarCheck = false)
    (htargets : o.targets = ts.map some) :
    (serve o parse banner log source).stdout =
        banner ++
        ((resultJson (Request.served source none (selected ts))).render ++ "\n") ∧
      (serve o parse banner log source).ending = .exit 0 := by
  have hrequest : requestFor o parse (selected ts) source =
      ⟨source, (selected ts).map Target.name, none⟩ := by
    simp only [requestFor, hcheck, Bool.false_eq_true, if_false]
  have hresult :
      Result.ofRenditions (requestFor o parse (selected ts) source).report
      (renditionsFor o parse (selected ts) source) =
        Request.served source none (selected ts) := by
    rw [renditionsFor, hrequest]
    rfl
  simp only [serve, asked_of_targets htargets, present, hjson, if_true,
    hresult, and_self]

/-- What is printed is one document in ASCII, and it has the whole result in it,
each text as it is and all in order. -/
theorem json_output_lossless {arguments : List Text} (parse : GrammarParser)
    (hread : read arguments = .options o) (hjson : o.json = true)
    (hcheck : o.grammarCheck = false) (htargets : o.targets = ts.map some)
    (hsource : o.Supplies readFile source) :
    ∃ r, (Request.mk source ((selected ts).map Target.name) none).result = .ok r ∧
      (run arguments parse readFile).ending = .exit 0 ∧
      Json.Ascii (run arguments parse readFile).stdout ∧
      Json.read? (run arguments parse readFile).stdout = some (resultJson r) ∧
      resultOf? (resultJson r) = some r ∧
      (confidencesOf? (resultJson r)).map Table.entries =
        some r.confidences := by
  obtain ⟨log, hserve⟩ := execute_of_supplies parse hjson hsource
  have hrun : run arguments parse readFile = serve o parse [] log source := by
    rw [run, hread]
    exact hserve
  obtain ⟨hstdout, hending⟩ :=
    serve_json parse [] log source hjson hcheck htargets
  rw [hrun, hstdout, hending, List.nil_append]
  exact ⟨_, Request.result_map_name source none (selected ts), rfl,
    (Json.ascii_write 0 _).append (Json.ascii_of_all rfl), Json.read?_render _,
    resultOf?_resultJson _, confidencesOf?_resultJson _⟩

/-- A source with a quote, a backslash, a control character and a character
beyond sixteen bits, in two targets. -/
theorem json_output_lossless_escapes :
    let source : Text := "tag = \"\\\x01😀\"\n"
    let arguments : List Text := ["--json", "-t", "php", "-tgo", "f.py"]
    let out := run arguments (fun _ _ => .node false false false []) fun _ =>
      .ok (Utf8.encode source)
    read arguments =
      .options { file := some ("f.py" : Text), targets := [some .php, some .go],
                 json := true } ∧
      ∃ r, (Request.mk source ["php", "go"] none).result = .ok r ∧
        out.ending = .exit 0 ∧ Json.Ascii out.stdout ∧
        Json.read? out.stdout = some (resultJson r) ∧
        resultOf? (resultJson r) = some r ∧
        (confidencesOf? (resultJson r)).map Table.entries =
          some r.confidences := by
  intro source arguments out
  have hread : read arguments =
      .options { file := some ("f.py" : Text), targets := [some .php, some .go],
                 json := true } := by decide
  have hsource :
      Options.Supplies { file := some ("f.py" : Text),
                         targets := [some .php, some .go], json := true }
      (fun _ => .ok (Utf8.encode source)) source :=
    supplies_encode rfl (by decide) rfl (by decide)
  exact ⟨hread, json_output_lossless _ hread rfl rfl
    (rfl : _ = [Target.php, .go].map some) hsource⟩

end Cli

end Recast
