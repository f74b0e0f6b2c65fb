import Recast.Proofs.Rendering.Tops
import Recast.Proofs.Rule.Stages

/-!
# The window is declared before it is used

Where the window is named and the source does not set it, the rule
`window_constant` puts a declaration in front. The rules after it add lines at
the end, trim, indent and put a frame around. None of them names the window or
touches the declaration, so that in the output the first name of the window is
the one in its declaration, and all others stand behind it
(`window_declared_first`).
-/

namespace Recast

open Pattern

namespace Text

/-! ## Occurrences -/

/-- A text without the separator occurs in front of it or behind it. -/
theorem occurrence_cases {s u v a b : Text} {c : Char} (hne : s ≠ [])
    (hc : c ∉ s) (h : u ++ (s ++ v) = a ++ c :: b) :
    (∃ y, a = u ++ (s ++ y)) ∨ ∃ y, u = a ++ c :: y ∧ b = y ++ (s ++ v) := by
  rcases List.append_eq_append_iff.mp h with ⟨z, rfl, hz⟩ | ⟨z, rfl, hz⟩
  · -- the separator stands behind the start of the occurrence
    obtain ⟨y, rfl, -⟩ := place_in_second hz.symm hc
    exact Or.inl ⟨y, rfl⟩
  · cases z with
    | nil =>
        obtain ⟨d, s, rfl⟩ := List.exists_cons_of_ne_nil hne
        obtain ⟨rfl, -⟩ := List.cons.inj hz
        exact absurd List.mem_cons_self hc
    | cons d z =>
        obtain ⟨rfl, rfl⟩ := List.cons.inj hz
        exact Or.inr ⟨z, rfl, rfl⟩

/-- A copy of `decl` in `t` has `name` in it, and `name` occurs elsewhere in `t`
only behind that copy. -/
def FirstWithin (name decl t : Text) : Prop :=
  ∃ a b x y, t = a ++ (decl ++ b) ∧ decl = x ++ (name ++ y) ∧
    ∀ u v, t = u ++ (name ++ v) → u = a ++ x ∨ ∃ w, u = a ++ (decl ++ w)

theorem mentions_eq_false_of_not_mem {needle t : Text} {c : Char}
    (hc : c ∈ needle) (h : c ∉ t) :
    t.mentions needle = false :=
  mentions_eq_false_iff.mpr fun hoccurs => h (hoccurs.subset hc)

/-! ## Fronts that stay -/

/-- A line that ends in a character other than a blank. -/
structure SolidLine (d : Text) : Prop where
  inline : '\n' ∉ d
  ends : ∃ e c, d = e ++ [c] ∧ isBlank c = false

namespace SolidLine

variable {d t : Text}

theorem prefix_trimEnd (hd : SolidLine d) (h : d <+: t) : d <+: trimEnd t := by
  obtain ⟨e, c, rfl, hc⟩ := hd.ends
  obtain ⟨b, rfl⟩ := h
  rw [List.append_assoc, List.singleton_append, trimEnd_append_cons hc]
  exact ⟨trimEnd b, by simp⟩

theorem prefix_trimBody (hd : SolidLine d) (h : d <+: t) :
    d <+: trimBody t := by
  have hfront : t.dropWhile (· == '\n') = t := by
    obtain ⟨b, rfl⟩ := h
    cases d with
    | nil =>
        obtain ⟨e, c, hnil, -⟩ := hd.ends
        simp at hnil
    | cons c d =>
        have hc : c ≠ '\n' := fun e => hd.inline (e ▸ List.mem_cons_self)
        exact List.dropWhile_cons_of_neg (by simpa using hc)
  rw [trimBody, hfront]
  exact hd.prefix_trimEnd h

/-- A line that starts with a solid line is not blank. -/
theorem trim_append_ne_nil (hd : SolidLine d) (b : Text) :
    trim (d ++ b) ≠ [] := by
  obtain ⟨e, c, rfl, hc⟩ := hd.ends
  intro hnil
  have hword : c ∈ (words (e ++ [c] ++ b)).flatten := by
    rw [flatten_words, List.mem_filter]
    exact ⟨by simp, by simp [hc]⟩
  have htrim : words (trim (e ++ [c] ++ b)) = words (e ++ [c] ++ b) := by
    rw [trim, words_trimEnd, words_dropWhile fun _ h => h]
  rw [← htrim, hnil] at hword
  simp at hword

theorem prefix_indentBlock (hd : SolidLine d) (h : d <+: t) (pad : Text) :
    pad ++ d <+: indentBlock pad t := by
  obtain ⟨b, rfl⟩ := h
  obtain ⟨l, ls, hlines⟩ :=
    List.exists_cons_of_ne_nil (fieldsBy_ne_nil (· == '\n') (d ++ b))
  have hfirst : l = d ++ before '\n' b := by
    have hhead := head?_lines (d ++ b)
    rw [lines, fields, hlines, List.head?_cons, Option.some.injEq] at hhead
    rw [hhead, before, before,
      List.takeWhile_append_of_pos (forall_bne_of_not_mem hd.inline)]
  have hsolid : ¬ (trim l).isEmpty = true := by
    rw [hfirst, List.isEmpty_iff]
    exact hd.trim_append_ne_nil _
  rw [indentBlock, lines, fields, hlines, List.map_cons, if_neg hsolid, unlines,
    join_cons, hfirst]
  simp only [List.append_assoc]
  rw [← List.append_assoc]
  exact List.prefix_append _ _

end SolidLine

end Text

namespace Target

open Text (SolidLine)

/-- However a body is laid out, only blanks come before a line at its front. -/
theorem prefix_laidOut {d body : Text} (hd : SolidLine d) (h : d <+: body)
    (t : Target) (program : Bool) :
    ∃ pad : Text, (∀ c ∈ pad, isBlank c = true) ∧
      pad ++ d <+: t.laidOut program body := by
  have htrim := hd.prefix_trimBody h
  have hone : ∃ pad : Text, (∀ c ∈ pad, isBlank c = true) ∧
      pad ++ d <+: Text.indentBlock Text.indentation body.trimBody :=
    ⟨_, Text.isBlank_indentation, hd.prefix_indentBlock htrim _⟩
  cases t <;> cases program
  · exact ⟨[], by simp, h⟩
  · exact hone
  · exact ⟨[], by simp, htrim⟩
  · exact ⟨[], by simp, htrim⟩
  · exact ⟨[], by simp, h⟩
  · exact hone
  · exact hone
  · exact ⟨_, List.all_eq_true.mp (by decide), hd.prefix_indentBlock htrim _⟩

/-! ## The declaration -/

/-- The line that declares the window. -/
def windowLine (t : Target) : Text := t.constant windowName windowLength

theorem solid_windowLine (t : Target) : SolidLine t.windowLine := by
  refine ⟨by cases t <;> decide, t.windowLine.dropLast,
    (t.windowLine.getLast?).getD ' ', ?_, ?_⟩
  · cases t <;> decide
  · cases t <;> decide

/-- The name of the window stands between two blanks of the line; there is no
`K` before it and no `L` after it. -/
theorem windowLine_eq (t : Target) :
    ∃ x y : Text, t.windowLine = x ++ ' ' :: (windowName ++ ' ' :: y) ∧
      'K' ∉ x ∧ 'L' ∉ y := by
  cases t with
  | go => exact ⟨"const", "= 10 // Sequence length for time series", by decide⟩
  | php => exact ⟨"const", "= 10;", by decide⟩
  | javascript => exact ⟨"const", "= 10;", by decide⟩
  | csharp => exact ⟨"const int", "= 10;", by decide⟩

theorem windowName_eq_cons : ∃ r, windowName = 'L' :: r :=
  ⟨"OOKBACK", by decide⟩

theorem windowName_ne_nil : windowName ≠ [] := by decide

theorem isBlank_windowName : windowName.any isBlank = false := by decide

theorem K_mem_windowName : 'K' ∈ windowName := by decide

/-- Where the line comes after a text without the letter `K`, it has the first
name of the window in it. -/
theorem firstWithin_windowLine (t : Target) {a b : Text} (ha : 'K' ∉ a) :
    Text.FirstWithin windowName t.windowLine (a ++ (t.windowLine ++ b)) := by
  obtain ⟨x, y, hline, hx, hy⟩ := t.windowLine_eq
  have hspace : ' ' ∉ windowName := by decide
  refine ⟨a, b, x ++ [' '], ' ' :: y, rfl, by simp [hline], ?_⟩
  intro u v hu
  rw [hline] at hu
  have hfirst : u ++ (windowName ++ v) =
      (a ++ x) ++ ' ' :: (windowName ++ ' ' :: (y ++ b)) := by simp [← hu]
  rcases Text.occurrence_cases windowName_ne_nil hspace hfirst with
    ⟨z, hz⟩ | ⟨z, rfl, hrest⟩
  · -- in front of the name there is no room for another one
    have hmem : 'K' ∈ a ++ x := by simp [hz, K_mem_windowName]
    exact absurd hmem (by simp [ha, hx])
  · rcases Text.occurrence_cases windowName_ne_nil hspace hrest.symm with
      ⟨w, hw⟩ | ⟨w, rfl, htail⟩
    · obtain rfl : z = [] := by
        have hlength := congrArg List.length hw
        rw [List.length_append, List.length_append] at hlength
        exact List.length_eq_zero_iff.mp (by omega)
      exact Or.inl (by simp)
    · -- behind the name, the line has no letter that another could start with
      obtain ⟨r, hname⟩ := windowName_eq_cons
      rw [hname, List.cons_append] at htail
      obtain ⟨w', rfl, -⟩ := Text.place_in_second htail.symm hy
      exact Or.inr ⟨w', by simp [hline]⟩

/-! ## From the declaration to the body -/

/-- The text names the window exactly if `b` is true, and then the declaration
is at its front. -/
structure Declares (t : Target) (b : Bool) (u : Text) : Prop where
  named : u.mentions windowName = b
  front : b = true → t.windowLine <+: u

/-- The rule that declares the window. -/
def windowRule (t : Target) : Rule :=
  { name := "window_constant", gate := needsWindow,
    transform := fun _ => t.declareWindow }

/-- The rules up to the frame, with the one that declares the window apart. -/
theorem upTo_boilerplate_eq_window (t : Target) :
    Rule.upTo "boilerplate" t.rules =
      Rule.upTo "window_constant" t.rules ++ (t.windowRule ::
        (t.returnRules ++
          [{ name := "block_repair",
             transform := fun _ => Block.repair }])) := by
  cases t <;> rfl

theorem windowRule_mem (t : Target) : t.windowRule ∈ t.rules := by
  have hmem : t.windowRule ∈ Rule.upTo "boilerplate" t.rules := by
    rw [upTo_boilerplate_eq_window]
    exact List.mem_append_right _ List.mem_cons_self
  exact (List.takeWhile_prefix _).subset hmem

theorem apply_windowRule (t : Target) (ctx : Context) (u : Text) :
    t.windowRule.apply ctx u =
      if u.mentions windowName && !ctx.bindings.contains windowName then
        t.windowLine ++ ("\n\n".toList ++ u)
      else u := by
  rw [← List.append_assoc]
  rfl

theorem declares_windowRule {ctx : Context}
    (hctx : ctx.bindings.contains windowName = false) (t : Target) (u : Text) :
    t.Declares (u.mentions windowName) (t.windowRule.apply ctx u) := by
  rw [apply_windowRule, hctx]
  cases hu : u.mentions windowName with
  | false => exact ⟨hu, fun h => Bool.noConfusion h⟩
  | true =>
      have hfront : t.windowLine <+: t.windowLine ++ ("\n\n".toList ++ u) :=
        List.prefix_append _ _
      refine ⟨?_, fun _ => hfront⟩
      obtain ⟨x, y, hline, -, -⟩ := t.windowLine_eq
      have hname : windowName <:+: t.windowLine :=
        ⟨x ++ [' '], ' ' :: y, by simp [hline]⟩
      exact (Text.mentions_iff _ _).mpr (hname.trans hfront.isInfix)

/-- Lines that do not name the window may be added at the end. -/
theorem Declares.trimEnd_append {t : Target} {b : Bool} {u s : Text}
    (h : t.Declares b u) (hbreak : s.head? = some '\n') (hs : 'K' ∉ s) :
    t.Declares b (u.trimEnd ++ s) := by
  obtain ⟨s, rfl⟩ := List.head?_eq_some_iff.mp hbreak
  rw [List.mem_cons, not_or] at hs
  constructor
  · have hnone : Text.mentions s windowName = false :=
      Text.mentions_eq_false_of_not_mem K_mem_windowName hs.2
    rw [mentions_append_sep windowName_ne_nil isBlank_windowName
      Text.isBlank_newline,
      hnone, Bool.or_false,
      mentions_congr_words windowName_ne_nil isBlank_windowName
        (Text.words_trimEnd u),
      h.named]
  · intro hb
    exact (t.solid_windowLine.prefix_trimEnd (h.front hb)).trans
      (List.prefix_append _ _)

theorem leads_declares_repair (t : Target) (b : Bool) :
    Rule.Leads (t.Declares b) (t.Declares b)
      { name := "block_repair", transform := fun _ => Block.repair } := by
  intro ctx u hu
  show t.Declares b (Block.repair u)
  unfold Block.repair
  split
  · exact hu
  · next hdeficit =>
      obtain ⟨n, hn⟩ : ∃ n, (Block.deficit u).toNat = n + 1 :=
        Nat.exists_eq_succ_of_ne_zero (by omega)
      rw [hn, Block.closers]
      refine hu.trimEnd_append rfl ?_
      simp [Block.closing]

theorem runLeads_declares_returnRules (t : Target) (b : Bool) :
    Rule.RunLeads (t.Declares b) t.returnRules (t.Declares b) := by
  cases t with
  | go =>
      refine .cons
        (Rule.leads_of_transform (fun _ h => h) fun _ u hu => ?_) .nil
      exact hu.trimEnd_append rfl (by decide)
  | _ => exact .nil

theorem declares_body {ctx : Context}
    (hctx : ctx.bindings.contains windowName = false) (t : Target)
    (source : Text) :
    t.Declares
      ((Rule.reaching ctx "window_constant" t.rules source).mentions windowName)
      (t.body ctx source) := by
  have hrest := (t.runLeads_declares_returnRules
      ((Rule.reaching ctx "window_constant" t.rules source).mentions
        windowName)).append
    (.cons (t.leads_declares_repair _) .nil)
  show t.Declares _
    (Rule.run ctx (Rule.upTo "boilerplate" t.rules) source).output
  rw [upTo_boilerplate_eq_window, Rule.run_append_output, Rule.run]
  exact hrest ctx _ (t.declares_windowRule hctx _)

/-! ## The output -/

theorem K_not_mem_fileTop (t : Target) (program : Bool) (body : Text) :
    'K' ∉ t.fileTop program body := by
  have hfull : 'K' ∉ t.fullTop program := by
    cases t <;> cases program <;> decide
  exact fun h => hfull ((t.fileTop_sublist_fullTop program body).subset h)

theorem K_not_mem_fileBottom (t : Target) (program : Bool) :
    'K' ∉ t.fileBottom program := by
  cases t <;> cases program <;> decide

theorem mentions_windowName_frame (t : Target) (ctx : Context) (body : Text) :
    (t.frame ctx body).mentions windowName = body.mentions windowName := by
  rw [mentions_frame windowName_ne_nil isBlank_windowName,
    Text.mentions_eq_false_of_not_mem K_mem_windowName
      (t.K_not_mem_fileTop _ _),
    Text.mentions_eq_false_of_not_mem K_mem_windowName
      (t.K_not_mem_fileBottom _),
    Bool.false_or, Bool.or_false]

theorem firstWithin_frame {t : Target} {body : Text} (h : t.windowLine <+: body)
    (ctx : Context) :
    Text.FirstWithin windowName t.windowLine (t.frame ctx body) := by
  obtain ⟨pad, hpad, rest, hrest⟩ :=
    prefix_laidOut t.solid_windowLine h t ctx.functions.isEmpty
  have hfront : 'K' ∉ t.fileTop ctx.functions.isEmpty body ++ pad := by
    rw [List.mem_append, not_or]
    exact ⟨t.K_not_mem_fileTop _ _, Text.not_mem_of_forall hpad (by decide)⟩
  have hframe : t.frame ctx body =
      (t.fileTop ctx.functions.isEmpty body ++ pad) ++
      (t.windowLine ++ (rest ++ t.fileBottom ctx.functions.isEmpty)) := by
    rw [frame_eq, ← hrest]
    simp only [List.append_assoc]
  rw [hframe]
  exact t.firstWithin_windowLine hfront

/-- **The window is declared first.** Where the source does not set the window,
the output names it exactly if the text that reaches the rule `window_constant`
does. Then the first name stands in the declaration, and all others behind it.
Where the source sets the window, the rule leaves every text as it is. -/
theorem window_declared_first (t : Target) (ctx : Context) (source : Text) :
    (ctx.bindings.contains windowName = false →
      ((t.recast ctx source).output.mentions windowName = true ↔
        (Rule.reaching ctx "window_constant" t.rules source).mentions
          windowName = true) ∧
      ((t.recast ctx source).output.mentions windowName = true →
        Text.FirstWithin windowName (t.constant windowName windowLength)
          (t.recast ctx source).output)) ∧
    (ctx.bindings.contains windowName = true →
      ∀ r ∈ t.rules, r.name = "window_constant".toList →
        ∀ u, r.apply ctx u = u) := by
  refine ⟨fun hctx => ?_, fun hctx r hr hname u => ?_⟩
  · have hbody := t.declares_body hctx source
    rw [recast_output, mentions_windowName_frame, hbody.named]
    exact ⟨Iff.rfl, fun hnamed => firstWithin_frame (hbody.front hnamed) ctx⟩
  · obtain rfl : r = t.windowRule := eq_of_name hr t.windowRule_mem hname
    rw [apply_windowRule, hctx, Bool.not_true, Bool.and_false]
    rfl

/-- A snippet that names the window without setting it, and a context in which
it is set. -/
theorem window_declared_first_csharp :
    Context.empty.bindings.contains windowName = false ∧
      (csharp.recast .empty "print(LOOKBACK)").output.mentions windowName = true ∧
      Text.FirstWithin windowName (csharp.constant windowName windowLength)
        (csharp.recast .empty "print(LOOKBACK)").output ∧
      ({ bindings := Table.empty.insert windowName .int } :
        Context).bindings.contains windowName = true ∧
      csharp.windowRule ∈ csharp.rules ∧
      csharp.windowRule.apply { bindings := Table.empty.insert windowName .int }
        "print(LOOKBACK)" =
        "print(LOOKBACK)".toList := by
  have hunset : Context.empty.bindings.contains windowName = false := by decide
  have hset :
      ({ bindings := Table.empty.insert windowName .int } :
        Context).bindings.contains windowName = true := by
    decide
  have hreach :
      (Rule.reaching .empty "window_constant" csharp.rules
        "print(LOOKBACK)").mentions windowName = true := by
    decide +kernel
  obtain ⟨hiff, hfirst⟩ :=
    (window_declared_first csharp .empty "print(LOOKBACK)").1 hunset
  have hnamed := hiff.mpr hreach
  refine ⟨hunset, hnamed, hfirst hnamed, hset, csharp.windowRule_mem, ?_⟩
  exact (window_declared_first csharp _ []).2 hset _ csharp.windowRule_mem rfl _

end Target

end Recast
