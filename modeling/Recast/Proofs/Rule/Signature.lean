import Recast.Proofs.Pattern.Choice
import Recast.Proofs.Rule.Comment
import Recast.Proofs.Rule.Stages
import Recast.Proofs.Text.Layout

/-!
# Signatures

A header `def name(parameters):` is cut at the first closing bracket with a
colon behind it, and its parameters at the commas. Of each item only the name is
kept, which ends at the first equals sign or colon: an annotation may contain
equals signs and a default colons (`names_listText`). The rule for signatures
writes the names with their types in the place of the header and keeps the
indentation and what follows on the line (`signature_of_header`).
-/

namespace Recast

open Pattern

/-! ## Parameter lists as they are written -/

namespace Parameter

/-- The characters of a name: all but blanks and the signs that divide an
item. -/
def isNameChar (c : Char) : Bool :=
  !isBlank c && c != ',' && c != '=' && c != ':' && c != '*'

/-- The characters of an annotation or a default. -/
def isPlain (c : Char) : Bool := c != ',' && isInline c

/-- A parameter as it is written: blanks, stars, a name, blanks, and perhaps an
annotation and a default. -/
structure Written where
  pad : Text
  stars : Nat
  name : Text
  gap : Text
  annotation : Option Text
  default : Option Text
  gap_pad : ∀ c ∈ pad, isGap c = true
  name_ne_nil : name ≠ []
  name_name : ∀ c ∈ name, isNameChar c = true
  gap_gap : ∀ c ∈ gap, isGap c = true
  plain_annotation : ∀ a ∈ annotation, ∀ c ∈ a, isPlain c = true
  plain_default : ∀ d ∈ default, ∀ c ∈ d, isPlain c = true

/-- An item of a parameter list. -/
inductive Item where
  /-- A star by itself, between blanks. -/
  | bare (pad gap : Text) (gap_pad : ∀ c ∈ pad, isGap c = true)
    (gap_gap : ∀ c ∈ gap, isGap c = true)
  | named (p : Written)

/-- A value behind its sign, where there is one. -/
def mark (sign : Char) : Option Text → Text
  | none => []
  | some value => sign :: value

namespace Written

variable (p : Written)

/-- The annotation and the default. -/
def suffix : Text := mark ':' p.annotation ++ mark '=' p.default

def text : Text :=
  p.pad ++ (List.replicate p.stars '*' ++ p.name ++ p.gap) ++ p.suffix

end Written

namespace Item

def text : Item → Text
  | bare pad gap _ _ => pad ++ '*' :: gap
  | named p => p.text

/-- The name of an item that has one. -/
def name? : Item → Option Text
  | bare .. => none
  | named p => some p.name

end Item

/-- The items with commas between them. -/
def listText (items : List Item) : Text := Text.join [','] (items.map Item.text)

theorem gap_nil : ∀ c ∈ ([] : Text), isGap c = true := List.forall_mem_nil _

theorem gap_blank : ∀ c ∈ ([' '] : Text), isGap c = true :=
  List.forall_mem_singleton.mpr (by decide)

/-- `prices, *, size: int = len(x), **kw`. -/
def mixed : List Item :=
  [.named {
    pad := [], stars := 0, name := "prices", gap := [], annotation := none,
    default := none
    gap_pad := gap_nil
    name_ne_nil := by decide
    name_name := List.all_eq_true.mp (by decide)
    gap_gap := gap_nil
    plain_annotation := by simp
    plain_default := by simp },
   .bare [' '] [] gap_blank gap_nil,
   .named {
    pad := [' '], stars := 0, name := "size", gap := [], annotation :=
      some " int ", default := some " len(x)"
    gap_pad := gap_blank
    name_ne_nil := by decide
    name_name := List.all_eq_true.mp (by decide)
    gap_gap := gap_nil
    plain_annotation := by simp [isPlain, isInline]
    plain_default := by simp [isPlain, isInline] },
   .named {
    pad := [' '], stars := 2, name := "kw", gap := [], annotation := none,
    default := none
    gap_pad := gap_blank
    name_ne_nil := by decide
    name_name := List.all_eq_true.mp (by decide)
    gap_gap := gap_nil
    plain_annotation := by simp
    plain_default := by simp }]

/-! ## Names of a list -/

/-- The name ends where an annotation or a default begins. -/
theorem before_signs {x s : Text} (hx : ∀ c ∈ x, c ≠ '=' ∧ c ≠ ':')
    (hs : ∀ c ∈ s.head?, c = '=' ∨ c = ':') :
    ((x ++ s).before '=').before ':' = x := by
  have hkeep :
      ∀ c ∈ x, (decide ((c != ':') = true ∧ (c != '=') = true)) = true := by
    intro c hc
    simp [hx c hc]
  have hstop :
      s.takeWhile (fun c => decide ((c != ':') = true ∧ (c != '=') = true)) =
      [] := by
    cases s with
    | nil => rfl
    | cons c s =>
        rw [List.takeWhile_cons_of_neg]
        rcases hs c (by simp) with rfl | rfl <;> decide
  rw [Text.before, Text.before, List.takeWhile_takeWhile,
    List.takeWhile_append_of_pos hkeep, hstop, List.append_nil]

theorem ne_signs_of_isBlank {c : Char} (h : isBlank c = true) :
    c ≠ '=' ∧ c ≠ ':' := by
  constructor <;> rintro rfl <;> exact absurd h (by decide)

theorem isNameChar_iff {c : Char} :
    isNameChar c = true ↔
      isBlank c = false ∧ c ≠ ',' ∧ c ≠ '=' ∧ c ≠ ':' ∧ c ≠ '*' := by
  simp [isNameChar, and_assoc]

theorem isPlain_of_isGap {c : Char} (h : isGap c = true) :
    isPlain c = true := by
  have hcomma : c ≠ ',' := by
    rintro rfl
    exact absurd h (by decide)
  simp [isPlain, hcomma, isInline_of_isGap h]

theorem plain_mark {sign : Char} (hsign : isPlain sign = true)
    {value : Option Text} (hvalue : ∀ v ∈ value, ∀ c ∈ v, isPlain c = true) :
    ∀ c ∈ mark sign value, isPlain c = true := by
  cases value with
  | none => simp [mark]
  | some v => exact List.forall_mem_cons.mpr ⟨hsign, hvalue v rfl⟩

namespace Written

variable (p : Written)

theorem ne_signs_core :
    ∀ c ∈ p.pad ++ (List.replicate p.stars '*' ++ p.name ++ p.gap),
      c ≠ '=' ∧ c ≠ ':' := by
  intro c hc
  simp only [List.mem_append] at hc
  rcases hc with hc | (hc | hc) | hc
  · exact ne_signs_of_isBlank (isBlank_of_isGap (p.gap_pad c hc))
  · rw [List.eq_of_mem_replicate hc]
    decide
  · obtain ⟨-, -, hequals, hcolon, -⟩ := isNameChar_iff.mp (p.name_name c hc)
    exact ⟨hequals, hcolon⟩
  · exact ne_signs_of_isBlank (isBlank_of_isGap (p.gap_gap c hc))

theorem head?_suffix : ∀ c ∈ p.suffix.head?, c = '=' ∨ c = ':' := by
  intro c hc
  rw [suffix] at hc
  cases ha : p.annotation with
  | some a =>
      rw [ha] at hc
      exact Or.inr (Option.some.inj hc).symm
  | none =>
      rw [ha] at hc
      cases hd : p.default with
      | some d =>
          rw [hd] at hc
          exact Or.inl (Option.some.inj hc).symm
      | none =>
          rw [hd] at hc
          exact absurd hc (by simp [mark])

/-- Trimming leaves the name with its stars. -/
theorem trim_core :
    (p.pad ++ (List.replicate p.stars '*' ++ p.name ++ p.gap)).trim =
      List.replicate p.stars '*' ++ p.name := by
  have hblank : ∀ c ∈ List.replicate p.stars '*' ++ p.name,
      isBlank c = false := by
    intro c hc
    rcases List.mem_append.mp hc with hc | hc
    · rw [List.eq_of_mem_replicate hc]
      decide
    · exact (isNameChar_iff.mp (p.name_name c hc)).1
  have hends : ∀ o : Option Char,
      (∀ c ∈ o, c ∈ List.replicate p.stars '*' ++ p.name) →
      o.any isBlank = false := by
    intro o ho
    cases o with
    | none => rfl
    | some c => exact hblank c (ho c rfl)
  apply Text.trim_between (fun c hc => isBlank_of_isGap (p.gap_pad c hc))
    (fun c hc => isBlank_of_isGap (p.gap_gap c hc)) (by simp [p.name_ne_nil])
  · exact hends _ fun c hc => List.mem_of_mem_head? hc
  · exact hends _ fun c hc => List.mem_of_getLast? hc

theorem nameOf_text : nameOf p.text = p.name := by
  have hstars : ∀ c ∈ List.replicate p.stars '*', (c == '*') = true := by
    intro c hc
    rw [List.eq_of_mem_replicate hc]
    rfl
  rw [nameOf, text, before_signs p.ne_signs_core p.head?_suffix, trim_core,
    List.dropWhile_append_of_pos hstars]
  obtain ⟨c, name, hname⟩ := List.exists_cons_of_ne_nil p.name_ne_nil
  obtain ⟨-, -, -, -, hstar⟩ :=
    isNameChar_iff.mp (p.name_name c (by simp [hname]))
  rw [hname, List.dropWhile_cons_of_neg (by simpa using hstar)]

theorem plain_text : ∀ c ∈ p.text, isPlain c = true := by
  intro c hc
  simp only [text, suffix, List.mem_append] at hc
  rcases hc with (hc | (hc | hc) | hc) | hc | hc
  · exact isPlain_of_isGap (p.gap_pad c hc)
  · rw [List.eq_of_mem_replicate hc]
    decide
  · obtain ⟨hblank, hcomma, -⟩ := isNameChar_iff.mp (p.name_name c hc)
    have hbreak : c ≠ '\n' := by
      rintro rfl
      exact absurd hblank (by decide)
    simp [isPlain, isInline, hcomma, hbreak]
  · exact isPlain_of_isGap (p.gap_gap c hc)
  · exact plain_mark (by decide) p.plain_annotation c hc
  · exact plain_mark (by decide) p.plain_default c hc

end Written

namespace Item

theorem plain_text (i : Item) : ∀ c ∈ i.text, isPlain c = true := by
  cases i with
  | bare pad gap hpad hgap =>
      intro c hc
      simp only [text, List.mem_append, List.mem_cons] at hc
      rcases hc with hc | rfl | hc
      · exact isPlain_of_isGap (hpad c hc)
      · decide
      · exact isPlain_of_isGap (hgap c hc)
  | named p => exact p.plain_text

/-- A star by itself leaves no name. -/
theorem nameOf_text (i : Item) : nameOf i.text = i.name?.getD [] := by
  cases i with
  | named p => exact p.nameOf_text
  | bare pad gap hpad hgap =>
      have hblank {t : Text} (ht : ∀ c ∈ t, isGap c = true) :
          ∀ c ∈ t, isBlank c = true :=
        fun c hc => isBlank_of_isGap (ht c hc)
      have hsigns : ∀ c ∈ pad ++ '*' :: gap, c ≠ '=' ∧ c ≠ ':' := by
        intro c hc
        rcases List.mem_append.mp hc with hc | hc
        · exact ne_signs_of_isBlank (hblank hpad c hc)
        · rcases List.mem_cons.mp hc with rfl | hc
          · decide
          · exact ne_signs_of_isBlank (hblank hgap c hc)
      have hbefore := before_signs (s := []) hsigns (by simp)
      rw [List.append_nil] at hbefore
      have htrim : (pad ++ '*' :: gap).trim = ['*'] :=
        Text.trim_between (u := ['*']) (hblank hpad) (hblank hgap) (by simp)
          (by decide) (by decide)
      rw [nameOf, text, hbefore, htrim]
      rfl

theorem name?_ne_nil {i : Item} {name : Text} (h : i.name? = some name) :
    name ≠ [] := by
  cases i with
  | bare => simp [name?] at h
  | named p =>
      rw [← Option.some.inj h]
      exact p.name_ne_nil

end Item

theorem inline_listText (items : List Item) :
    ∀ c ∈ listText items, isInline c = true := by
  refine Text.forall_mem_join (P := (isInline · = true)) (by simp [isInline]) ?_
  intro part hpart c hc
  obtain ⟨i, -, rfl⟩ := List.mem_map.mp hpart
  exact (Bool.and_eq_true_iff.mp (i.plain_text c hc)).2

theorem filter_names (items : List Item) :
    (items.map fun i => nameOf i.text).filter (· ≠ []) =
      items.filterMap Item.name? := by
  induction items with
  | nil => rfl
  | cons i items ih =>
      rw [List.map_cons, Item.nameOf_text, List.filterMap_cons]
      cases hname : i.name? with
      | none => exact ih
      | some name =>
          have hne := Item.name?_ne_nil hname
          rw [Option.getD_some, List.filter_cons_of_pos (by simpa using hne),
            ih]

/-- The names of a list are those of its items. -/
theorem names_listText (items : List Item) :
    names (listText items) = items.filterMap Item.name? := by
  cases items with
  | nil => rfl
  | cons i is =>
      have hcomma : ∀ part ∈ (i :: is).map Item.text, ',' ∉ part := by
        intro part hpart
        obtain ⟨j, -, rfl⟩ := List.mem_map.mp hpart
        exact Text.not_mem_of_forall j.plain_text (by decide)
      rw [names, listText, Text.fields_join (by simp) hcomma, List.map_map]
      exact filter_names (i :: is)

end Parameter

/-! ## What the pattern takes -/

namespace Idiom

/-- A header is taken up to the first closing bracket with a colon behind it. -/
theorem picks_functionDef {indent name params : Text}
    (hindent : ∀ c ∈ indent, isIndent c = true) (hne : name ≠ [])
    (hword : ∀ c ∈ name, isWord c = true)
    (hparams : ∀ c ∈ params, isInline c = true)
    (hclose : ¬ [')', ':'] <:+: params) (rest : Text) :
    functionDefPattern.Picks (fun _ _ => True) none
      (indent ++ ("def" ++ (" " ++ (name ++ ("(" ++ (params ++ "):")))))) rest
      [some indent, some name, some params] := by
  obtain ⟨c, cs, hcons⟩ := List.exists_cons_of_ne_nil hne
  have hc : isBlank c = false := isBlank_of_isWord (hword c (by simp [hcons]))
  simp only [functionDefPattern, picks_append_assoc]
  apply Picks.anchor_append rfl
  apply Picks.group_run_append hindent rfl
  apply Picks.literal_append
  apply Picks.run1_append (by simp) (List.all_eq_true.mp (by decide))
    (by simpa [hcons] using hc)
  apply Picks.group_run1_append hne hword rfl
  apply Picks.literal_append
  refine Picks.group_shortest_append hparams ?_ (picks_literal trivial)
  -- a shorter list would end at a bracket with a colon inside the list
  rintro v (_ | ⟨c, w⟩) hw hsplit hreaches
  · exact hw rfl
  · have hprefix : [')', ':'] <+: c :: w ++ ("):" ++ rest) :=
      hreaches.literal_prefix
    obtain ⟨rfl, hcolon⟩ := List.cons_prefix_cons.mp hprefix
    cases w with
    | nil => exact absurd (List.cons_prefix_cons.mp hcolon).1 (by decide)
    | cons d w =>
        obtain ⟨rfl, -⟩ := List.cons_prefix_cons.mp hcolon
        exact hclose ⟨v, w, by rw [hsplit]; simp⟩

end Idiom

/-! ## What the rule writes -/

namespace Target

/-- The rule for signatures. -/
def signatureRule (t : Target) : Rule :=
  .replacing "function_signature" Idiom.functionDef.pattern t.replaceFunction

theorem signatureRule_mem (t : Target) : t.signatureRule ∈ t.rules :=
  List.mem_cons_of_mem _ List.mem_cons_self

theorem replaceFunction_of_groups (t : Target) (ctx : Context) {m : Match}
    {indent name params : Text}
    (h : m.groups = [some indent, some name, some params]) :
    t.replaceFunction ctx m = indent ++ t.functionHeader name
      (Parameter.typed t ctx params) indent := by
  have hgroups : m.group 0 = indent ∧ m.group 1 = name ∧
      m.group 2 = params := by
    simp [Match.group, h]
  rw [replaceFunction, hgroups.1, hgroups.2.1, hgroups.2.2]

/-- **Signatures.** The rule for signatures rewrites a line with a header: in
the place of `def`, the name and the list it writes the header of the target,
with the names of the list in order, each with the type of the kind that it
suggests. Indentation and what follows on the line stay. -/
theorem signature_of_header {t : Target} {ctx : Context} {r : Rule}
    (hr : r ∈ t.rules) (hname : r.name = "function_signature".toList)
    {indent name tail : Text} (hindent : ∀ c ∈ indent, isIndent c = true)
    (hne : name ≠ []) (hword : ∀ c ∈ name, isWord c = true)
    (items : List Parameter.Item)
    (hclose : (Parameter.listText items).mentions "):" = false)
    (htail : '\n' ∉ tail) :
    r.apply ctx
      (indent ++
        ("def " ++
          (name ++ ("(" ++ (Parameter.listText items ++ ("):" ++ tail)))))) =
      indent ++ t.functionHeader name
        ((items.filterMap Parameter.Item.name?).map fun p =>
          (p, t.typeName (Parameter.kind ctx p))) indent ++
      tail := by
  obtain rfl := eq_of_name hr t.signatureRule_mem hname
  have hinside : ¬ [')', ':'] <:+: Parameter.listText items :=
    Text.mentions_eq_false_iff.mp hclose
  have hpicks := Idiom.picks_functionDef hindent hne hword
    (Parameter.inline_listText items) hinside tail
  obtain ⟨m, hgroups, hm⟩ :=
    hpicks.substituteFrom_append (by simp) (t.replaceFunction ctx)
  -- behind the colon the line goes on, and no other header starts in it
  have hlast :
      Text.lastOr none
      (indent ++
        ("def" ++
          (" " ++ (name ++ ("(" ++ (Parameter.listText items ++ "):")))))) =
      some ':' := by
    simp
  have htext :
      indent ++
      ("def " ++
        (name ++ ("(" ++ (Parameter.listText items ++ ("):" ++ tail))))) =
      indent ++
      ("def" ++
        (" " ++ (name ++ ("(" ++ (Parameter.listText items ++ "):"))))) ++ tail := by
    simp
  rw [hlast,
    substituteFrom_eq_self (foundFrom_inside_line rfl (by simpa using htail)),
    t.replaceFunction_of_groups ctx hgroups, Parameter.typed,
    Parameter.names_listText] at hm
  rw [htext]
  exact hm

/-- A header with a bare star, an annotation, a call as default and a tail. -/
theorem signature_of_header_mixed :
    Parameter.listText Parameter.mixed =
      "prices, *, size: int = len(x), **kw".toList ∧
    go.signatureRule ∈ go.rules ∧
    go.signatureRule.apply {}
      ("\tdef f(" ++ (Parameter.listText Parameter.mixed ++ "):  # ready")) =
      "\tfunc f(prices []float64, size int, kw []float64) (x, y [][]float64, err error) \x7b  # ready".toList := by
  refine ⟨by decide, go.signatureRule_mem, ?_⟩
  have hindent : ∀ c ∈ "\t".toList, isIndent c = true :=
    List.all_eq_true.mp (by decide)
  have hword : ∀ c ∈ "f".toList, isWord c = true :=
    List.all_eq_true.mp (by decide)
  have htail : '\n' ∉ "  # ready".toList := by decide
  exact (signature_of_header go.signatureRule_mem rfl hindent
    (by decide) hword Parameter.mixed (by decide)
    htail).trans (by decide)

end Target

end Recast
