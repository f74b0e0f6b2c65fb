import Recast.Pipeline
import Recast.Proofs.Table.Update

/-!
# What the rules read of a context

The rules look at five things in a context: whether there are functions, whether
either library is used, whether the window is set, and the kinds of names that
do not themselves suggest one. `Context.Alike` says that two contexts agree on
these. A rule then does the same in both (`sameIn_rules`), and so does a run,
record included.
-/

namespace Recast

/-! ## Tables in another order -/

namespace Table

variable {κ α : Type} [DecidableEq κ] {s t : Table κ α}

theorem get?_of_perm (h : s.entries.Perm t.entries) (k : κ) :
    s.get? k = t.get? k := by
  cases hk : t.get? k with
  | none =>
      rw [get?, List.lookup_eq_none_iff] at hk ⊢
      exact fun e he => hk e (h.mem_iff.mp he)
  | some a =>
      obtain ⟨es, fs, hsplit, -⟩ := List.lookup_eq_some_iff.mp hk
      have hmem : (k, a) ∈ s.entries := h.mem_iff.mpr (by simp [hsplit])
      exact lookup_of_mem s.nodup hmem

omit [DecidableEq κ] in
theorem mem_keys_of_perm (h : s.entries.Perm t.entries) (k : κ) :
    k ∈ s.keys ↔ k ∈ t.keys :=
  (h.map Prod.fst).mem_iff

end Table

/-! ## Contexts that look alike -/

/-- The kind as the types of a target tell it: what is unknown passes for an
array. -/
def Kind.shown : Kind → Kind
  | unknown => array
  | k => k

theorem Target.typeName_shown (t : Target) (k : Kind) :
    t.typeName k.shown = t.typeName k := by
  cases t <;> cases k <;> rfl

/-- The name of a parameter suggests a kind by itself. -/
def Parameter.Telling (name : Text) : Prop :=
  (name.mentions "price" || name.mentions "data") = true ∨
    (name.mentions "index" || name.mentions "size") = true

namespace Context

/-- Two contexts agree on what the rules read. -/
structure Alike (c₁ c₂ : Context) : Prop where
  functions : c₁.functions = [] ↔ c₂.functions = []
  numpy : Library.numpy ∈ c₁.libraries ↔ Library.numpy ∈ c₂.libraries
  sklearn : Library.sklearn ∈ c₁.libraries ↔ Library.sklearn ∈ c₂.libraries
  window : Target.windowName ∈ c₁.bindings.keys ↔
    Target.windowName ∈ c₂.bindings.keys
  kinds : ∀ name, ¬ Parameter.Telling name →
  (c₁.kindOf name).shown = (c₂.kindOf name).shown

variable {c₁ c₂ : Context}

/-- The order of variables and libraries does not show, nor do the names of
functions. -/
theorem alike_of_perm (hbindings : c₁.bindings.entries.Perm c₂.bindings.entries)
    (hfunctions : c₁.functions = [] ↔ c₂.functions = [])
    (hlibraries : ∀ library, library ∈ c₁.libraries ↔ library ∈ c₂.libraries) :
    c₁.Alike c₂ where
  functions := hfunctions
  numpy := hlibraries _
  sklearn := hlibraries _
  window := Table.mem_keys_of_perm hbindings _
  kinds name _ := by rw [kindOf, kindOf, Table.get?_of_perm hbindings]

theorem uses_congr {library : Text}
    (h : library ∈ c₁.libraries ↔ library ∈ c₂.libraries) :
    c₁.uses library = c₂.uses library := by
  rw [uses, uses, Bool.eq_iff_iff, List.contains_iff_mem, List.contains_iff_mem]
  exact h

end Context

/-! ## Parameters -/

namespace Parameter

variable {c₁ c₂ : Context}

/-- A name that suggests a kind has it in every context. -/
theorem kind_of_telling {name : Text} (h : Telling name) :
    kind c₁ name = kind c₂ name := by
  unfold kind
  by_cases harray : (name.mentions "price" || name.mentions "data") = true
  · rw [if_pos harray, if_pos harray]
  · have hint := h.resolve_left harray
    rw [if_neg harray, if_neg harray, if_pos hint, if_pos hint]

theorem kind_of_not_telling {name : Text} (h : ¬ Telling name) (ctx : Context) :
    kind ctx name = ctx.kindOf name := by
  obtain ⟨harray, hint⟩ := not_or.mp h
  unfold kind
  rw [if_neg harray, if_neg hint]

/-- A parameter has the same type in contexts that look alike. -/
theorem typed_congr (h : c₁.Alike c₂) (t : Target) (list : Text) :
    typed t c₁ list = typed t c₂ list := by
  rw [typed, typed]
  apply List.map_congr_left
  intro name _
  by_cases htelling : Telling name
  · rw [kind_of_telling htelling]
  · rw [kind_of_not_telling htelling, kind_of_not_telling htelling,
      ← t.typeName_shown, h.kinds name htelling, t.typeName_shown]

end Parameter

/-! ## Rules -/

namespace Rule

/-- The rule does the same in both contexts. -/
def SameIn (c₁ c₂ : Context) (r : Rule) : Prop :=
  ∀ t, r.gate c₁ t = r.gate c₂ t ∧ r.transform c₁ t = r.transform c₂ t

variable {c₁ c₂ : Context}

/-- Rules that do the same one by one leave the same text and the same
record. -/
theorem run_eq_of_sameIn {rs : List Rule} (h : ∀ r ∈ rs, r.SameIn c₁ c₂)
    (t : Text) :
    run c₁ rs t = run c₂ rs t := by
  induction rs generalizing t with
  | nil => rfl
  | cons r rs ih =>
      obtain ⟨hr, hrs⟩ := List.forall_mem_cons.mp h
      obtain ⟨hgate, htransform⟩ := hr t
      have happly : r.apply c₁ t = r.apply c₂ t := by
        rw [apply, apply, hgate, htransform]
      have hstep : r.step c₁ t = r.step c₂ t := by
        rw [step, step, effect, effect, hgate, htransform]
      rw [run, run, happly, hstep, ih hrs]

theorem sameIn_replacing (name : Text) (p : Pattern) (f : Match → Text) :
    (replacing name p fun _ => f).SameIn c₁ c₂ :=
  fun _ => ⟨rfl, rfl⟩

theorem sameIn_gated {library : Text}
    (h : library ∈ c₁.libraries ↔ library ∈ c₂.libraries) (marker name : Text)
    (p : Pattern) (f : Match → Text) :
    ((replacing name p fun _ => f).gated (libraryGate library marker)).SameIn c₁
      c₂ :=
  fun t => ⟨congrArg (· && t.mentions marker) (Context.uses_congr h), rfl⟩

end Rule

namespace Target

variable {c₁ c₂ : Context}

theorem sameIn_function_signature (h : c₁.Alike c₂) (t : Target) :
    (Rule.replacing "function_signature" Idiom.functionDef.pattern
      t.replaceFunction).SameIn
      c₁ c₂ := by
  intro text
  refine ⟨rfl, ?_⟩
  have hreplace : t.replaceFunction c₁ = t.replaceFunction c₂ := by
    funext m
    rw [replaceFunction, replaceFunction, Parameter.typed_congr h]
  exact congrArg (Pattern.substitute _ · text) hreplace

theorem needsWindow_congr (h : c₁.Alike c₂) (text : Text) :
    needsWindow c₁ text = needsWindow c₂ text := by
  have hcontains : c₁.bindings.contains windowName =
      c₂.bindings.contains windowName :=
    decide_eq_decide.mpr h.window
  rw [needsWindow, needsWindow, hcontains]

theorem frame_congr (h : c₁.Alike c₂) (t : Target) (body : Text) :
    t.frame c₁ body = t.frame c₂ body := by
  have hempty : c₁.functions.isEmpty = c₂.functions.isEmpty := by
    rw [Bool.eq_iff_iff, List.isEmpty_iff, List.isEmpty_iff]
    exact h.functions
  rw [frame, frame, hempty]

/-- No rule of a target tells apart contexts that look alike. -/
theorem sameIn_rules (h : c₁.Alike c₂) (t : Target) :
    ∀ r ∈ t.rules, r.SameIn c₁ c₂ := by
  have hlength : t.lengthRule.SameIn c₁ c₂ := by
    cases t <;> exact fun _ => ⟨rfl, rfl⟩
  have hreturn : ∀ r ∈ t.returnRules, r.SameIn c₁ c₂ := by
    cases t with
    | go => exact List.forall_mem_singleton.mpr fun _ => ⟨rfl, rfl⟩
    | _ => exact List.forall_mem_nil _
  intro r hr
  simp only [rules, List.mem_append, List.mem_cons, List.not_mem_nil,
    or_false] at hr
  rcases hr with
    ((rfl | rfl | rfl | rfl | rfl | rfl | rfl | rfl | rfl | rfl | rfl | rfl |
      rfl | rfl) | hr) | rfl | rfl
  · exact Rule.sameIn_replacing _ _ _
  · exact sameIn_function_signature h t
  · exact Rule.sameIn_replacing _ _ _
  · exact hlength
  · exact Rule.sameIn_replacing _ _ _
  · exact Rule.sameIn_replacing _ _ _
  · exact Rule.sameIn_replacing _ _ _
  · exact Rule.sameIn_replacing _ _ _
  · exact Rule.sameIn_gated h.numpy _ _ _ _
  · exact Rule.sameIn_gated h.sklearn _ _ _ _
  · exact Rule.sameIn_gated h.sklearn _ _ _ _
  · exact Rule.sameIn_replacing _ _ _
  · exact Rule.sameIn_replacing _ _ _
  · exact fun text => ⟨needsWindow_congr h text, rfl⟩
  · exact hreturn r hr
  · exact fun _ => ⟨rfl, rfl⟩
  · exact fun text => ⟨rfl, frame_congr h t text⟩

/-- **What a run reads.** Contexts that look alike give the same trace, output
and record, for every target and source. So the names of the functions, the
hints, the arithmetic and the order of variables and libraries are of no
account. -/
theorem recast_eq_of_alike (c₁ c₂ : Context) (t : Target) (source : Text) :
    (c₁.Alike c₂ → t.recast c₁ source = t.recast c₂ source) ∧
    (c₁.bindings.entries.Perm c₂.bindings.entries →
      (c₁.functions = [] ↔ c₂.functions = []) →
      (∀ library, library ∈ c₁.libraries ↔ library ∈ c₂.libraries) →
      t.recast c₁ source = t.recast c₂ source) := by
  have hrun : c₁.Alike c₂ → t.recast c₁ source = t.recast c₂ source :=
    fun h => Rule.run_eq_of_sameIn (sameIn_rules h t) source
  refine ⟨hrun, ?_⟩
  intro hbindings hfunctions hlibraries
  exact hrun (Context.alike_of_perm hbindings hfunctions hlibraries)

/-- An array that is not known of, another kind for a name that suggests one,
and other functions. -/
theorem recast_eq_of_alike_unknown :
    Context.Alike
      { bindings := ⟨[("x", .array), ("data", .int)], by decide⟩,
        functions := ["f"], arithmetic := true }
      { bindings := ⟨[("data", .string)], by decide⟩,
        functions := ["g", "h"] } ∧
    csharp.recast
        { bindings := ⟨[("x", .array), ("data", .int)], by decide⟩,
          functions := ["f"], arithmetic := true }
        "def f(x, data):" =
      csharp.recast { bindings := ⟨[("data", .string)], by decide⟩,
                      functions := ["g", "h"] }
        "def f(x, data):" := by
  have h : Context.Alike
      { bindings := ⟨[("x", .array), ("data", .int)], by decide⟩,
        functions := ["f"], arithmetic := true }
      { bindings := ⟨[("data", .string)], by decide⟩,
        functions := ["g", "h"] } := by
    refine ⟨by simp, by simp, by simp, by decide, ?_⟩
    intro name htelling
    have hdata : name ≠ "data".toList := by
      rintro rfl
      exact htelling (Or.inl (by decide))
    simp only [Context.kindOf, Table.get?, Table.lookup_cons_eq_ite,
      if_neg hdata]
    by_cases hx : name = "x".toList
    · rw [if_pos hx]
      rfl
    · rw [if_neg hx]
  exact ⟨h, (recast_eq_of_alike _ _ csharp "def f(x, data):").1 h⟩

end Target

end Recast
