import Recast.Analysis
import Recast.Proofs.Idiom.Shape
import Recast.Proofs.Pattern.Division
import Recast.Proofs.Table.Update
import Recast.Report

/-!
# Reports that can be read back

A report is a text of lines, and two of its parts have lines that start alike.
It tells the context all the same, as long as the names in it are legible: no
name runs into the signs that follow it, and none breaks a line. The analysis of
a snippet finds only such names (`legible_analyze`), since its patterns take
words, and so two snippets with the same printed report have the same context.
-/

namespace Recast

open Idiom

/-! ## Lists cut in parts -/

/-- Parts without the first character of the separator can be read off the text
that they make. -/
theorem Text.join_injective {c : Char} {s : Text} {ps qs : List Text}
    (hps : ∀ p ∈ ps, c ∉ p) (hqs : ∀ q ∈ qs, c ∉ q) (hp : ps ≠ [])
    (hq : qs ≠ []) (h : join (c :: s) ps = join (c :: s) qs) : ps = qs := by
  have hstep : ∀ p q : Text, ∀ ps : List Text,
      join (c :: s) (p :: q :: ps) =
        p ++ c :: (s ++ join (c :: s) (q :: ps)) := by
    intro p q ps
    simp [join_cons]
  have hone : ∀ p : Text, join (c :: s) [p] = p := by
    intro p
    simp [join_cons]
  induction ps generalizing qs with
  | nil => exact absurd rfl hp
  | cons p ps ih =>
      obtain ⟨q, qs, rfl⟩ := List.exists_cons_of_ne_nil hq
      obtain ⟨hpc, hps⟩ := List.forall_mem_cons.mp hps
      obtain ⟨hqc, hqs⟩ := List.forall_mem_cons.mp hqs
      cases ps with
      | nil =>
          cases qs with
          | nil => rw [hone, hone] at h; rw [h]
          | cons q' qs =>
              rw [hone, hstep] at h
              exact absurd (h ▸ by simp) hpc
      | cons p' ps =>
          cases qs with
          | nil =>
              rw [hone, hstep] at h
              exact absurd (h ▸ by simp) hqc
          | cons q' qs =>
              rw [hstep, hstep] at h
              obtain ⟨hsame, htail⟩ := cut_unique hpc hqc h
              have hrest : p' :: ps = q' :: qs :=
                ih hps hqs (by simp) (by simp) (List.append_cancel_left htail)
              rw [hsame, hrest]

/-- Rows are known from what is written for their members, where this tells the
members apart. -/
theorem map_inj_on {α β : Type} {f g : α → β} {P : α → Prop}
    (hfg : ∀ a b, P a → P b → f a = g b → a = b) {xs ys : List α}
    (hxs : ∀ x ∈ xs, P x) (hys : ∀ y ∈ ys, P y) (h : xs.map f = ys.map g) :
    xs = ys := by
  induction xs generalizing ys with
  | nil => exact (List.map_eq_nil_iff.mp h.symm).symm
  | cons x xs ih =>
      cases ys with
      | nil => simp at h
      | cons y ys =>
          obtain ⟨hx, hxs⟩ := List.forall_mem_cons.mp hxs
          obtain ⟨hy, hys⟩ := List.forall_mem_cons.mp hys
          obtain ⟨hhead, htail⟩ := List.cons.inj h
          rw [hfg x y hx hy hhead, ih hxs hys htail]

theorem Text.eq_of_mem_onlyIf {b : Bool} {t u : Text} (h : u ∈ onlyIf b t) :
    u = t := by
  rw [onlyIf] at h
  split at h
  · exact List.mem_singleton.mp h
  · exact absurd h List.not_mem_nil

/-! ## Legible contexts -/

/-- The names of a context are told from the signs around them: variables,
functions and libraries are words, and a hint has no space and no line feed in
it. -/
structure Context.Legible (ctx : Context) : Prop where
  bindings : ∀ e ∈ ctx.bindings.entries, IsName e.1
  functions : ∀ f ∈ ctx.functions, IsName f
  libraries : ∀ l ∈ ctx.libraries, IsName l
  hints : ∀ e ∈ ctx.hints.entries, ' ' ∉ e.1 ∧ '\n' ∉ e.1

theorem isName_of_assignment {before : Option Char} {m : Match} {rest : Text}
    (h : assignmentPattern.Reads before m.text rest m.groups) :
    IsName (m.group 0) := by
  simp only [assignmentPattern, Pattern.word, Pattern.blanks,
    Pattern.reads_append_assoc, Pattern.reads_anchor_append,
    Pattern.reads_literal_append, Pattern.reads_many_append,
    Pattern.reads_group_append, Pattern.reads_many1_iff] at h
  obtain ⟨-, name, _, _, _, -, hgroups, ⟨hne, hword, -⟩, -⟩ := h
  have hname : m.group 0 = name := by simp [Match.group, hgroups]
  rw [hname]
  exact ⟨hne, hword⟩

theorem isName_of_functionName {before : Option Char} {m : Match} {rest : Text}
    (h : functionNamePattern.Reads before m.text rest m.groups) :
    IsName (m.group 0) := by
  obtain ⟨b, name, -, hgroups, hafter⟩ := reads_functionName_iff.mp h
  have hname : m.group 0 = name := by simp [Match.group, hgroups]
  rw [hname]
  exact ⟨hafter.ne_nil, hafter.word⟩

/-- The analysis finds legible names only: its patterns take words, and its
libraries and hints are fixed. -/
theorem legible_analyze (source : Text) : (analyze source).Legible where
  bindings := by
    intro e he
    obtain ⟨m, hm, rfl⟩ := List.mem_map.mp (Table.mem_of_mem_ofList he)
    obtain ⟨pre, rest, -, hread⟩ := Pattern.reads_of_mem_matchesIn hm
    exact isName_of_assignment hread
  functions := by
    intro f hf
    obtain ⟨m, hm, rfl⟩ := List.mem_map.mp (List.mem_eraseDups.mp hf)
    obtain ⟨pre, rest, -, hread⟩ := Pattern.reads_of_mem_matchesIn hm
    exact isName_of_functionName hread
  libraries := by
    intro l hl
    rcases List.mem_append.mp hl with hl | hl
    · rw [Text.eq_of_mem_onlyIf hl]
      exact ⟨by decide, List.all_eq_true.mp (by decide)⟩
    · rw [Text.eq_of_mem_onlyIf hl]
      exact ⟨by decide, List.all_eq_true.mp (by decide)⟩
  hints := by
    intro e he
    have hmem := Table.mem_of_mem_ofList he
    rw [Analysis.hints] at hmem
    split at hmem
    · rw [List.mem_singleton.mp hmem]
      decide
    · simp at hmem

namespace Report

/-! ## Single lines -/

theorem variableLine_inj {v w : Text × Kind} (hv : IsName v.1) (hw : IsName w.1)
    (h : variableLine v = variableLine w) : v = w := by
  unfold variableLine at h
  simp only [List.append_assoc] at h
  have hline := List.append_cancel_left h
  obtain ⟨hname, hkind⟩ :=
    Text.cut_unique (hv.not_mem (by decide)) (hw.not_mem (by decide)) hline
  exact Prod.ext hname (Kind.name_injective (List.cons.inj hkind).2)

theorem hintLine_inj {v w : Text × Kind} (hv : ' ' ∉ v.1) (hw : ' ' ∉ w.1)
    (h : hintLine v = hintLine w) : v = w := by
  unfold hintLine at h
  simp only [List.append_assoc] at h
  have hline := List.append_cancel_left h
  have hname : v.1 = w.1 := (Text.cut_unique hv hw hline).1
  rw [hname] at hline
  exact Prod.ext hname (Kind.name_injective
    (List.append_cancel_left (List.append_cancel_left hline)))

theorem libraryLine_inj {r s : Report} {l k : Text} (hl : IsName l)
    (hk : IsName k) (h : r.libraryLine l = s.libraryLine k) : l = k := by
  unfold libraryLine at h
  simp only [List.append_assoc] at h
  have hline := List.append_cancel_left h
  exact (Text.cut_unique (hl.not_mem (by decide))
    (hk.not_mem (by decide)) hline).1

/-- No row of names is written like the sign for no names. -/
theorem functionLine_inj {fs gs : List Text} (hfs : ∀ f ∈ fs, IsName f)
    (hgs : ∀ g ∈ gs, IsName g) (h : functionLine fs = functionLine gs) :
    fs = gs := by
  have hsign : ∀ {fs : List Text}, fs ≠ [] → (∀ f ∈ fs, IsName f) →
      Text.orElse (Text.join ", " fs) "-" = Text.join ", " fs ∧
      Text.join ", " fs ≠ "-" := by
    intro fs hne hfs
    obtain ⟨f, fs, rfl⟩ := List.exists_cons_of_ne_nil hne
    obtain ⟨c, f', rfl⟩ := List.exists_cons_of_ne_nil (hfs f (by simp)).ne_nil
    rw [Text.join_cons]
    refine ⟨rfl, fun hminus => ?_⟩
    have hc : c = '-' := (List.cons.inj hminus).1
    exact (hfs _ List.mem_cons_self).not_mem (c := '-') (by decide)
      (by simp [hc])
  have hlist := List.append_cancel_left h
  have hcomma : ∀ {fs : List Text}, (∀ f ∈ fs, IsName f) → ∀ f ∈ fs, ',' ∉ f :=
    fun hfs f hf =>
    (hfs f hf).not_mem (by decide)
  by_cases hf : fs = []
  · by_cases hg : gs = []
    · rw [hf, hg]
    · rw [(hsign hg hgs).1, hf] at hlist
      exact absurd hlist.symm (hsign hg hgs).2
  · rw [(hsign hf hfs).1] at hlist
    by_cases hg : gs = []
    · rw [hg] at hlist
      exact absurd hlist (hsign hf hfs).2
    · rw [(hsign hg hgs).1] at hlist
      exact Text.join_injective (hcomma hfs) (hcomma hgs) hf hg hlist

theorem arithmeticLine_inj {a b : Bool}
    (h : arithmeticLine a = arithmeticLine b) : a = b := by
  cases a <;> cases b <;> first | rfl | exact absurd h (by decide)

/-! ## Lines are not broken -/

/-- What a report says of a library is what stands in for it in its targets. -/
theorem counterpart_of_mem {ctx : Context} {targets : List Text} {l : Text}
    {e : Text × Text}
    (he : e ∈
      (((ofContext ctx targets).counterparts.get? l).getD .empty).entries) :
    ∃ t ∈ targets, e = (t, Lexicon.counterpart l t) := by
  cases hget : (ofContext ctx targets).counterparts.get? l with
  | none =>
      rw [hget] at he
      exact absurd he (by simp [Table.empty])
  | some known =>
      rw [hget] at he
      have hmem : (l, known) ∈ ctx.libraries.map fun k =>
          (k, counterpartsOf targets k) :=
        Table.mem_of_mem_ofList (Table.mem_of_get? hget)
      obtain ⟨k, -, hk⟩ := List.mem_map.mp hmem
      obtain ⟨rfl, rfl⟩ := Prod.mk.inj hk
      obtain ⟨t, ht, rfl⟩ := List.mem_map.mp (Table.mem_of_mem_ofList he)
      exact ⟨t, ht, rfl⟩

theorem newline_not_mem_counterpart (library : Text) (t : Target) :
    '\n' ∉ t.name ∧ '\n' ∉ Lexicon.counterpart library t.name := by
  refine ⟨by cases t <;> decide, ?_⟩
  unfold Lexicon.counterpart
  rw [Target.ofName?_name]
  dsimp only
  split
  · cases t <;> decide
  · split
    · cases t <;> decide
    · decide

theorem newline_not_mem_join {ps : List Text} (h : ∀ p ∈ ps, '\n' ∉ p) :
    '\n' ∉ Text.join ", " ps := by
  intro hmem
  refine Text.forall_mem_join (P := (· ≠ '\n')) (by simp) ?_ '\n' hmem rfl
  rintro p hp c hc rfl
  exact h p hp hc

theorem newline_not_mem_libraryLine (ctx : Context) (targets : List Target)
    {l : Text} (hl : IsName l) :
    '\n' ∉ (ofContext ctx (targets.map Target.name)).libraryLine l := by
  have hlist : '\n' ∉ Text.join ", "
      ((((ofContext ctx (targets.map Target.name)).counterparts.get? l).getD
        .empty).entries.map fun e => e.1 ++ "=" ++ e.2) := by
    refine newline_not_mem_join fun part hpart => ?_
    obtain ⟨e, he, rfl⟩ := List.mem_map.mp hpart
    obtain ⟨_, ht, rfl⟩ := counterpart_of_mem he
    obtain ⟨t, -, rfl⟩ := List.mem_map.mp ht
    have hfree := newline_not_mem_counterpart l t
    simp [hfree.1, hfree.2]
  unfold libraryLine
  simp only [List.mem_append, not_or]
  exact ⟨⟨⟨⟨by decide, hl.not_mem (by decide)⟩, by decide⟩, hlist⟩, by decide⟩

theorem newline_not_mem_functionLine {fs : List Text}
    (hfs : ∀ f ∈ fs, IsName f) : '\n' ∉ functionLine fs := by
  have hlist : '\n' ∉ Text.join ", " fs := newline_not_mem_join fun f hf =>
    (hfs f hf).not_mem (by decide)
  unfold functionLine Text.orElse
  rw [List.mem_append, not_or]
  refine ⟨by decide, ?_⟩
  split
  · decide
  · exact hlist

theorem newline_not_mem_kind (k : Kind) : '\n' ∉ k.name := by cases k <;> decide

theorem newline_not_mem_lines {ctx : Context} (h : ctx.Legible)
    (targets : List Target) :
    ∀ l ∈ (ofContext ctx (targets.map Target.name)).lines, '\n' ∉ l := by
  intro line hline
  simp only [lines, List.mem_cons, List.mem_append, List.mem_map,
    List.not_mem_nil, or_false] at hline
  rcases hline with rfl | ⟨v, hv, rfl⟩ | rfl | rfl |
    (⟨l, hl, rfl⟩ | ⟨e, he, rfl⟩) | rfl
  · decide
  · unfold variableLine
    simp only [List.mem_append, not_or]
    exact ⟨⟨⟨by decide, (h.bindings v hv).not_mem (by decide)⟩, by decide⟩,
      newline_not_mem_kind v.2⟩
  · exact newline_not_mem_functionLine h.functions
  · decide
  · exact newline_not_mem_libraryLine ctx targets (h.libraries l hl)
  · unfold hintLine
    simp only [List.mem_append, not_or]
    exact ⟨⟨⟨by decide, (h.hints e he).2⟩, by decide⟩, newline_not_mem_kind e.2⟩
  · cases h : (ofContext ctx (targets.map Target.name)).arithmetic <;> decide

/-! ## The whole report -/

/-- Whether a line starts with a character. -/
def startsWith (c : Char) (line : Text) : Bool := line.head? == some c

/-- Two rows that a test tells apart are known from the row that they make. -/
theorem parts_unique {α : Type} {test : α → Bool} {xs ys xs' ys' : List α}
    (hxs : ∀ x ∈ xs, test x = true) (hys : ∀ y ∈ ys, test y = false)
    (hxs' : ∀ x ∈ xs', test x = true) (hys' : ∀ y ∈ ys', test y = false)
    (h : xs ++ ys = xs' ++ ys') : xs = xs' ∧ ys = ys' := by
  have hkept : ∀ {xs ys : List α}, (∀ x ∈ xs, test x = true) →
      (∀ y ∈ ys, test y = false) →
      (xs ++ ys).filter test = xs := by
    intro xs ys hxs hys
    have hnone : ys.filter test = [] :=
      List.filter_eq_nil_iff.mpr fun y hy => by simp [hys y hy]
    rw [List.filter_append, List.filter_eq_self.mpr hxs, hnone, List.append_nil]
  have hfirst : xs = xs' := by rw [← hkept hxs hys, h, hkept hxs' hys']
  rw [hfirst] at h
  exact ⟨hfirst, List.append_cancel_left h⟩

theorem startsWith_space_variable (v : Text × Kind) :
    startsWith ' ' (variableLine v) = true := rfl

theorem startsWith_space_library (r : Report) (l : Text) :
    startsWith ' ' (r.libraryLine l) = true := rfl

theorem startsWith_space_hint (e : Text × Kind) :
    startsWith ' ' (hintLine e) = false := rfl

theorem startsWith_space_function (fs : List Text) :
    startsWith ' ' (functionLine fs) = false := rfl

/-- The lines of a legible report tell the context, part by part. -/
theorem context_of_lines {ctx ctx' : Context} (h : ctx.Legible)
    (h' : ctx'.Legible) {targets targets' : List Text}
    (hlines : (ofContext ctx targets).lines = (ofContext ctx' targets').lines) :
    ctx = ctx' := by
  -- the variables reach up to the functions
  have hvariables : ∀ vs : List (Text × Kind),
      ∀ line ∈ vs.map variableLine, startsWith ' ' line = true := by
    intro vs line hline
    obtain ⟨v, -, rfl⟩ := List.mem_map.mp hline
    exact startsWith_space_variable v
  obtain ⟨hbindings, hrest⟩ := Text.run_unique (hvariables _) (hvariables _)
    (startsWith_space_function _)
    (startsWith_space_function _) (List.cons.inj hlines).2
  obtain ⟨hfunctions, hrest⟩ := List.cons.inj hrest
  obtain ⟨-, hrest⟩ := List.cons.inj hrest
  -- the last line is about arithmetic; of the lines before it, those on
  -- libraries start with a space
  obtain ⟨hrest, harithmetic⟩ := List.append_inj' hrest rfl
  have hlibraries : ∀ (r : Report) (ls : List Text),
      ∀ line ∈ ls.map r.libraryLine, startsWith ' ' line = true := by
    intro r ls line hline
    obtain ⟨l, -, rfl⟩ := List.mem_map.mp hline
    exact startsWith_space_library r l
  have hhints : ∀ es : List (Text × Kind),
      ∀ line ∈ es.map hintLine, startsWith ' ' line = false := by
    intro es line hline
    obtain ⟨e, -, rfl⟩ := List.mem_map.mp hline
    exact startsWith_space_hint e
  obtain ⟨hlibs, hhints⟩ :=
    parts_unique (hlibraries _ _) (hhints _) (hlibraries _ _) (hhints _) hrest
  cases ctx with
  | mk bindings functions libraries hints arithmetic =>
      cases ctx' with
      | mk bindings' functions' libraries' hints' arithmetic' =>
          congr
          · exact Table.ext (map_inj_on (fun _ _ => variableLine_inj) h.bindings
              h'.bindings hbindings)
          · exact functionLine_inj h.functions h'.functions hfunctions
          · exact map_inj_on (fun _ _ => libraryLine_inj) h.libraries
              h'.libraries hlibs
          · exact Table.ext (map_inj_on
              (fun _ _ hv hw => hintLine_inj hv.1 hw.1) h.hints h'.hints hhints)
          · exact arithmeticLine_inj (List.cons.inj harithmetic).1

/-- Two snippets with the same printed report have the same context. -/
theorem analyze_eq_of_text_eq {s₁ s₂ : Text} {targets₁ targets₂ : List Target}
    (h : (ofContext (analyze s₁) (targets₁.map Target.name)).text =
      (ofContext (analyze s₂) (targets₂.map Target.name)).text) :
    analyze s₁ = analyze s₂ := by
  have hne : ∀ r : Report, r.lines ≠ [] := fun r => List.cons_ne_nil _ _
  have hlines := congrArg Text.lines h
  unfold text at hlines
  rw [Text.lines_unlines (hne _)
    (newline_not_mem_lines (legible_analyze s₁) targets₁),
    Text.lines_unlines (hne _)
      (newline_not_mem_lines (legible_analyze s₂) targets₂)] at hlines
  exact context_of_lines (legible_analyze s₁) (legible_analyze s₂) hlines

set_option maxRecDepth 4000 in
/-- A library, a hint and a variable that is set twice, in two snippets with
other values and other layout. -/
theorem analyze_eq_of_text_eq_reset :
    let s₁ : Text := "a = np.array(b)\na = 1"
    let s₂ : Text := "# np.array\na=7"
    let report (s : Text) := ofContext (analyze s) (Target.all.map Target.name)
    s₁ ≠ s₂ ∧ (report s₁).text = (report s₂).text ∧
    analyze s₁ = analyze s₂ := by
  intro s₁ s₂ report
  have htext : (report s₁).text = (report s₂).text := by decide
  exact ⟨by decide, htext, analyze_eq_of_text_eq htext⟩

end Report

end Recast
