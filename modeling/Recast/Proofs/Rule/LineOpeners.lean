import Recast.Proofs.Pattern.Exhaustion
import Recast.Proofs.Rule.Signature

/-!
# Signatures and pairs of empty lists are written once

The rules for signatures and for pairs of empty lists look for their idioms
where a line starts, and what they write has line starts of its own. None of
these can be read as the idiom again, nor does a line above it go on into it
(`exhausts_functionDef`, `exhausts_dualEmptyInit`). The tool is the first
character behind runs of given classes (`firstPast`): what a reading asks for
there is never what a replacement has.
-/

namespace Recast

open Pattern

namespace Text

/-! ## Behind runs of characters -/

/-- The first character behind a run of the first class, a run of the second
class and so on; a run may be empty. -/
def firstPast : List (Char → Bool) → Text → Option Char
  | [], t => t.head?
  | ok :: oks, t => firstPast oks (t.dropWhile ok)

theorem firstPast_nil (oks : List (Char → Bool)) : firstPast oks [] = none := by
  induction oks with
  | nil => rfl
  | cons ok oks ih => exact ih

theorem firstPast_of_pos {ok : Char → Bool} {run : Text}
    (hrun : ∀ d ∈ run, ok d = true) (oks : List (Char → Bool)) (t : Text) :
    firstPast (ok :: oks) (run ++ t) = firstPast (ok :: oks) t :=
  congrArg (firstPast oks) (List.dropWhile_append_of_pos hrun)

theorem firstPast_run {ok : Char → Bool} {run t : Text}
    (hrun : ∀ d ∈ run, ok d = true) (ht : t.head?.any ok = false)
    (oks : List (Char → Bool)) :
    firstPast (ok :: oks) (run ++ t) = firstPast oks t := by
  rw [firstPast_of_pos hrun]
  cases t with
  | nil => rfl
  | cons c t =>
      exact congrArg (firstPast oks)
        (List.dropWhile_cons_of_neg (by simpa using ht))

/-- Where it is found, it does not depend on what follows. -/
theorem firstPast_append {oks : List (Char → Bool)} {t : Text} {c : Char}
    (h : firstPast oks t = some c) (y : Text) :
    firstPast oks (t ++ y) = some c := by
  induction oks generalizing t with
  | nil =>
      obtain ⟨t, rfl⟩ := List.head?_eq_some_iff.mp h
      rfl
  | cons ok oks ih =>
      unfold firstPast at h ⊢
      rw [List.dropWhile_append]
      split
      · next hempty =>
          rw [List.isEmpty_iff.mp hempty, firstPast_nil] at h
          exact absurd h (by simp)
      · exact ih h

/-- A line feed in two texts put together stands in the second, or what follows
it is the end of the first and the second. -/
theorem break_cases {a t x : Text} (h : '\n' :: x <:+ a ++ t) :
    '\n' :: x <:+ t ∨ '\n' ∈ a ∧ ∃ a', x = a' ++ t ∧ ∀ c ∈ a', c ∈ a := by
  obtain ⟨w, hw⟩ := h
  rcases place_in_append hw with ⟨a', rfl, rfl⟩ | ⟨v, -, rfl⟩
  · exact Or.inr ⟨by simp, a', rfl, by simp +contextual⟩
  · exact Or.inl ⟨v, rfl⟩

theorem break_behind {a t x : Text} (h : '\n' :: x <:+ a ++ t) (ha : '\n' ∉ a) :
    '\n' :: x <:+ t :=
  (break_cases h).resolve_right fun hmem => ha hmem.1

theorem lines_of_inline {t : Text} (h : ∀ c ∈ t, isInline c = true) :
    lines t = [t] :=
  fieldsBy_eq_singleton fun c hc => by simpa [isInline] using h c hc

end Text

namespace Idiom

open Text

variable {before : Option Char} {u rest : Text} {gs : List (Option Text)}

/-! ## What a reading asks for -/

theorem firstPast_functionDef (h : functionDefPattern.Reads before u rest gs) :
    firstPast [isIndent] (u ++ rest) = some 'd' := by
  obtain ⟨indent, b, name, params, rfl, -, -, hindent, -⟩ :=
    header_of_functionDef h
  rw [List.append_assoc]
  exact firstPast_run hindent rfl []

theorem IsName.head? {name : Text} (h : IsName name) {ok : Char → Bool}
    (hok : ∀ c, isWord c = true → ok c = false) (t : Text) :
    (name ++ t).head?.any ok = false := by
  obtain ⟨c, cs, rfl⟩ := List.exists_cons_of_ne_nil h.ne_nil
  exact hok c (h.word c List.mem_cons_self)

theorem head?_blanks {b t : Text} (hb : ∀ c ∈ b, isBlank c = true)
    (ht : t.head?.any isWord = false) :
    (b ++ t).head?.any isWord = false := by
  cases b with
  | nil => exact ht
  | cons c b => exact isWord_of_isBlank (hb c List.mem_cons_self)

/-- Behind a line feed in a header stands the name with its bracket. -/
theorem firstPast_functionDef_after_break {w x : Text}
    (h : functionDefPattern.Reads before (w ++ '\n' :: x) rest gs) :
    firstPast [isBlank, isWord] (x ++ rest) = some '(' := by
  obtain ⟨indent, b, name, params, htext, -, hafter, hindent, hparams⟩ :=
    header_of_functionDef h
  have hname : IsName name := ⟨hafter.ne_nil, hafter.word⟩
  have hbreak : '\n' :: x <:+ indent ++ ("def".toList ++
      (b ++ (name ++ ("(".toList ++ (params ++ "):".toList))))) :=
    ⟨w, htext⟩
  have hblanks := break_behind
    (break_behind hbreak (not_mem_of_forall hindent (by decide))) (by decide)
  rcases break_cases hblanks with hlater | ⟨-, b', rfl, hb'⟩
  · -- neither the name nor the list has a line feed
    have hlist :=
      break_behind (break_behind hlater
        (not_mem_of_forall hname.word (by decide))) (by decide)
    have hend := break_behind hlist (not_mem_of_forall hparams (by decide))
    exact absurd (hend.subset List.mem_cons_self) (by decide)
  · have hblank : ∀ c ∈ b', isBlank c = true :=
      fun c hc => hafter.blank c (hb' c hc)
    rw [List.append_assoc, List.append_assoc,
      firstPast_run hblank (hname.head? (fun _ => isBlank_of_isWord) _)]
    exact firstPast_run hname.word rfl []

theorem firstPast_dualEmptyInit
    (h : dualEmptyInitPattern.Reads before u rest gs) :
    firstPast [isIndent, isWord, isBlank] (u ++ rest) = some ',' := by
  obtain ⟨indent, first, second, b₁, b₂, b₃, b₄, b₅, b₆, rfl, -, hindent,
    hfirst, -, hblanks⟩ := shape_dualEmptyInit h
  have hb₁ : ∀ c ∈ b₁, isBlank c = true := hblanks b₁ List.mem_cons_self
  simp only [List.append_assoc]
  rw [firstPast_run hindent (hfirst.head? (fun _ => isIndent_of_isWord) _),
    firstPast_run hfirst.word (head?_blanks hb₁ rfl), firstPast_run hb₁ rfl]
  rfl

/-- The signs that can follow a line feed within a pair of empty lists. -/
def pairSigns : List Char := [',', '=', '[']

/-- Behind a line feed in a pair of empty lists stands one of its signs, or the
second name with the sign of equality. -/
theorem firstPast_dualEmptyInit_after_break {w x : Text}
    (h : dualEmptyInitPattern.Reads before (w ++ '\n' :: x) rest gs) :
    (∃ c ∈ pairSigns, firstPast [isBlank] (x ++ rest) = some c) ∨
      firstPast [isBlank, isWord, isBlank] (x ++ rest) = some '=' := by
  obtain ⟨indent, first, second, b₁, b₂, b₃, b₄, b₅, b₆, htext, -, hindent,
    hfirst, hsecond, hblanks⟩ :=
    shape_dualEmptyInit h
  simp only [List.forall_mem_cons, List.not_mem_nil, false_imp_iff,
    implies_true, and_true] at hblanks
  obtain ⟨h₁, h₂, h₃, h₄, h₅, h₆⟩ := hblanks
  -- a line feed among blanks that stand before a sign
  have hsign : ∀ {b b' t : Text} {c : Char}, (∀ c ∈ b, isBlank c = true) →
      (∀ c ∈ b', c ∈ b) →
      t.head? = some c → isBlank c = false →
      firstPast [isBlank] (b' ++ t ++ rest) = some c := by
    intro b b' t c hb hb' ht hc
    obtain ⟨t, rfl⟩ := List.head?_eq_some_iff.mp ht
    rw [List.append_assoc,
      firstPast_run (t := c :: t ++ rest) (fun d hd => hb d (hb' d hd)) hc]
    rfl
  have hbreak := break_behind
    (break_behind ⟨w, htext⟩ (not_mem_of_forall hindent (by decide)))
    (not_mem_of_forall hfirst.word (by decide))
  rcases break_cases hbreak with hbreak | ⟨-, b', rfl, hb'⟩
  · rcases break_cases (break_behind hbreak (by decide)) with
      hbreak | ⟨-, b', rfl, hb'⟩
    · have hbreak :=
        break_behind hbreak (not_mem_of_forall hsecond.word (by decide))
      rcases break_cases hbreak with hbreak | ⟨-, b', rfl, hb'⟩
      · rcases break_cases (break_behind hbreak (by decide)) with
          hbreak | ⟨-, b', rfl, hb'⟩
        · rcases break_cases (break_behind hbreak (by decide)) with
            hbreak | ⟨-, b', rfl, hb'⟩
          · rcases break_cases (break_behind hbreak (by decide)) with
              hbreak | ⟨-, b', rfl, hb'⟩
            · exact absurd (hbreak.subset List.mem_cons_self) (by decide)
            · exact Or.inl ⟨'[', by decide, hsign h₆ hb' rfl (by decide)⟩
          · exact Or.inl ⟨',', by decide, hsign h₅ hb' rfl (by decide)⟩
        · exact Or.inl ⟨'[', by decide, hsign h₄ hb' rfl (by decide)⟩
      · exact Or.inl ⟨'=', by decide, hsign h₃ hb' rfl (by decide)⟩
    · refine Or.inr ?_
      have hblank : ∀ c ∈ b', isBlank c = true := fun c hc => h₂ c (hb' c hc)
      simp only [List.append_assoc]
      rw [firstPast_run hblank (hsecond.head? (fun _ => isBlank_of_isWord) _),
        firstPast_run hsecond.word (head?_blanks h₃ rfl), firstPast_run h₃ rfl]
      rfl
  · exact Or.inl ⟨',', by decide, hsign h₁ hb' rfl (by decide)⟩

end Idiom

/-! ## Signatures -/

namespace Parameter

theorem inline_typed {list : Text} (h : ∀ c ∈ list, isInline c = true)
    (t : Target) (ctx : Context) :
    ∀ p ∈ typed t ctx list, (∀ c ∈ p.1, isInline c = true) ∧
      ∀ c ∈ p.2, isInline c = true := by
  intro p hp
  obtain ⟨n, hn, rfl⟩ := List.mem_map.mp hp
  obtain ⟨item, hitem, rfl⟩ := List.mem_map.mp (List.mem_filter.mp hn).1
  refine ⟨fun c hc => h c (Text.mem_of_mem_fieldsBy hitem ?_), ?_⟩
  · -- a name is part of its item
    have htrim := Text.mem_of_mem_trim ((List.dropWhile_suffix _).subset hc)
    exact (List.takeWhile_prefix _).subset
      ((List.takeWhile_prefix _).subset htrim)
  · have hbreak : '\n' ∉ t.typeName (kind ctx (nameOf item)) := by
      cases t <;> cases kind ctx (nameOf item) <;> decide
    exact Text.forall_bne_of_not_mem hbreak

end Parameter

namespace Target

/-- The word that a header starts with. -/
def keyword : Target → Text
  | go => "func"
  | php | javascript => "function"
  | csharp => "public"

/-- Whether documentation stands above a header. -/
def documents (t : Target) (params : List (Text × Text)) : Bool :=
  t == javascript && !params.isEmpty

/-- A header is one line that starts with the keyword and ends in the brace,
with documentation above it or not. -/
theorem exists_functionHeader_eq (t : Target) {name : Text}
    {params : List (Text × Text)} (hname : ∀ c ∈ name, isInline c = true)
    (hparams : ∀ p ∈ params, (∀ c ∈ p.1, isInline c = true) ∧
      ∀ c ∈ p.2, isInline c = true)
    (indent : Text) :
    ∃ z : Text, (∀ c ∈ z, isInline c = true) ∧
      t.functionHeader name params indent =
      (if t.documents params then paramDoc params indent else []) ++
      (t.keyword ++ ' ' :: (z ++ ['\x7b'])) := by
  have hline : ∀ (front close : Text) (g : Text × Text → Text),
      (front ++ close).all isInline = true →
      (∀ p ∈ params, ∀ c ∈ g p, isInline c = true) →
      ∀ c ∈ front ++ (name ++
        ("(" ++ (Text.join ", " (params.map g) ++ close))),
        isInline c = true := by
    intro front close g hends hg
    have hjoin : ∀ c ∈ Text.join ", " (params.map g), isInline c = true := by
      refine Text.forall_mem_join (List.all_eq_true.mp (by decide))
        fun part hpart => ?_
      obtain ⟨p, hp, rfl⟩ := List.mem_map.mp hpart
      exact hg p hp
    have hopen : ∀ c ∈ "(".toList, isInline c = true :=
      List.all_eq_true.mp (by decide)
    have hboth := List.all_eq_true.mp hends
    simp only [List.forall_mem_append] at hboth ⊢
    exact ⟨hboth.1, hname, hopen, hjoin, hboth.2⟩
  have hpair : ∀ (sep : Text), sep.all isInline = true → ∀ p ∈ params,
      (∀ c ∈ p.1 ++ sep ++ p.2, isInline c = true) ∧
      ∀ c ∈ p.2 ++ sep ++ p.1, isInline c = true := by
    intro sep hsep p hp
    simp only [List.forall_mem_append]
    exact ⟨⟨⟨(hparams p hp).1, List.all_eq_true.mp hsep⟩, (hparams p hp).2⟩,
      ⟨⟨(hparams p hp).2, List.all_eq_true.mp hsep⟩, (hparams p hp).1⟩⟩
  cases t with
  | go =>
      refine ⟨_, hline "" ") (x, y [][]float64, err error) " _ (by decide)
        fun p hp => (hpair " " (by decide) p hp).1, ?_⟩
      unfold functionHeader
      simp only [List.append_assoc]
      rfl
  | php =>
      refine ⟨_, hline "" ") " _ (by decide) fun p hp =>
        (hpair " $" (by decide) p hp).2, ?_⟩
      unfold functionHeader
      simp only [List.append_assoc]
      rfl
  | javascript =>
      refine ⟨_, hline "" ") " Prod.fst (by decide) fun p hp =>
        (hparams p hp).1, ?_⟩
      unfold functionHeader documents
      simp only [List.append_assoc]
      cases params with
      | nil => rfl
      | cons p params => rfl
  | csharp =>
      refine ⟨_, hline "static (double[][] x, double[] y) " ") " _ (by decide)
        fun p hp => (hpair " " (by decide) p hp).2, ?_⟩
      unfold functionHeader
      simp only [List.append_assoc]
      rfl

/-- A line of documentation. -/
def paramLine (indent : Text) (p : Text × Text) : Text :=
  indent ++ (" * @param \x7b" ++ (p.2 ++ ("\x7d " ++ p.1)))

/-- The lines of documentation and of the header below it, each behind its
indentation. -/
theorem lines_paramDoc {indent header : Text} {params : List (Text × Text)}
    (hindent : ∀ c ∈ indent, isInline c = true)
    (hparams : ∀ p ∈ params, (∀ c ∈ p.1, isInline c = true) ∧
      ∀ c ∈ p.2, isInline c = true)
    (hne : params ≠ []) (hheader : ∀ c ∈ header, isInline c = true) :
    Text.lines (indent ++ (paramDoc params indent ++ header)) =
      (indent ++ "/**") :: params.map (paramLine indent) ++
      [indent ++ " */", indent ++ header] := by
  have hdoc : ∀ l ∈ params.map (paramLine indent), '\n' ∉ l := by
    intro l hl
    obtain ⟨p, hp, rfl⟩ := List.mem_map.mp hl
    apply Text.not_mem_of_forall _ (show isInline '\n' = false by decide)
    unfold paramLine
    simp only [List.forall_mem_append]
    exact ⟨hindent, List.all_eq_true.mp (by decide), (hparams p hp).2,
      List.all_eq_true.mp (by decide), (hparams p hp).1⟩
  have hwith : ∀ {s : Text}, (∀ c ∈ s, isInline c = true) →
      Text.lines (indent ++ s) = [indent ++ s] := fun hs =>
    Text.lines_of_inline (List.forall_mem_append.mpr ⟨hindent, hs⟩)
  have htext : indent ++ (paramDoc params indent ++ header) =
      (indent ++ "/**") ++
      '\n' :: (Text.unlines (params.map (paramLine indent)) ++
        '\n' :: ((indent ++ " */") ++ '\n' :: (indent ++ header))) := by
    unfold paramDoc
    simp only [List.append_assoc]
    rfl
  rw [htext, Text.lines_append_newline, Text.lines_append_newline,
    Text.lines_append_newline, Text.lines_unlines (by simpa using hne) hdoc,
    hwith hheader, hwith (List.all_eq_true.mp (by decide)),
    hwith (List.all_eq_true.mp (by decide))]
  simp

section Signature

variable {m : Match} {before : Option Char} {rest : Text}

theorem exists_replaceFunction_eq (t : Target) (ctx : Context)
    (h : Idiom.functionDefPattern.Reads before m.text rest m.groups) :
    ∃ (indent z : Text) (params : List (Text × Text)),
      (∀ c ∈ indent, isIndent c = true) ∧
      (∀ c ∈ z, isInline c = true) ∧
      (∀ p ∈ params, (∀ c ∈ p.1, isInline c = true) ∧
        ∀ c ∈ p.2, isInline c = true) ∧
      t.replaceFunction ctx m =
        indent ++
        ((if t.documents params then paramDoc params indent else []) ++
          (t.keyword ++ ' ' :: (z ++ ['\x7b']))) := by
  obtain ⟨indent, b, name, params, -, hgroups, hafter, hindent, hinline⟩ :=
    Idiom.header_of_functionDef h
  have hparams := Parameter.inline_typed hinline t ctx
  have hname : ∀ c ∈ name, isInline c = true :=
    fun c hc => isInline_of_isWord (hafter.word c hc)
  obtain ⟨z, hz, hheader⟩ := t.exists_functionHeader_eq hname hparams indent
  refine ⟨indent, z, Parameter.typed t ctx params, hindent, hz, hparams, ?_⟩
  rw [t.replaceFunction_of_groups ctx hgroups, hheader]

theorem getLast?_replaceFunction (t : Target) (ctx : Context)
    (h : Idiom.functionDefPattern.Reads before m.text rest m.groups) :
    (t.replaceFunction ctx m).getLast? = some '\x7b' := by
  obtain ⟨indent, z, params, -, -, -, htext⟩ :=
    t.exists_replaceFunction_eq ctx h
  rw [htext, ← List.cons_append, ← List.append_assoc, ← List.append_assoc,
    ← List.append_assoc]
  exact List.getLast?_concat

/-- A line of a signature starts like no definition. -/
theorem firstPast_replaceFunction_line (t : Target) (ctx : Context)
    (h : Idiom.functionDefPattern.Reads before m.text rest m.groups) :
    ∀ l ∈ (t.replaceFunction ctx m).lines,
      ∃ c, Text.firstPast [isIndent] l = some c ∧ c ≠ 'd' := by
  obtain ⟨indent, z, params, hindent, hz, hparams, htext⟩ :=
    t.exists_replaceFunction_eq ctx h
  have hindent' : ∀ c ∈ indent, isInline c = true := fun c hc =>
    isInline_of_isIndent (hindent c hc)
  have hheader : ∀ c ∈ t.keyword ++ ' ' :: (z ++ ['\x7b']),
      isInline c = true := by
    simp only [List.forall_mem_append, List.forall_mem_cons]
    exact ⟨by cases t <;> exact List.all_eq_true.mp (by decide), by decide, hz,
      by decide, by simp⟩
  have hline : ∃ c, Text.firstPast [isIndent] (indent ++
      (t.keyword ++ ' ' :: (z ++ ['\x7b']))) = some c ∧ c ≠ 'd' := by
    rw [Text.firstPast_of_pos hindent]
    cases t <;> exact ⟨_, rfl, by decide⟩
  rw [htext]
  cases hdoc : t.documents params with
  | false =>
      rw [if_neg (by simp), List.nil_append,
        Text.lines_of_inline (List.forall_mem_append.mpr ⟨hindent', hheader⟩),
        List.forall_mem_singleton]
      exact hline
  | true =>
      have hne : params ≠ [] := by
        rintro rfl
        cases t <;> exact Bool.noConfusion hdoc
      rw [if_pos rfl, lines_paramDoc hindent' hparams hne hheader]
      simp only [List.cons_append, List.forall_mem_cons, List.forall_mem_append,
        List.forall_mem_map]
      refine ⟨⟨'/', ?_, by decide⟩, fun p _ => ⟨'*', ?_, by decide⟩,
        ⟨'*', ?_, by decide⟩, hline, by simp⟩
      · rw [Text.firstPast_of_pos hindent]
        rfl
      · rw [paramLine, Text.firstPast_of_pos hindent]
        rfl
      · rw [Text.firstPast_of_pos hindent]
        rfl

/-- A signature does not go on like a definition whose first word stands on the
line above. -/
theorem firstPast_replaceFunction (t : Target) (ctx : Context)
    (h : Idiom.functionDefPattern.Reads before m.text rest m.groups) :
    ∃ c, Text.firstPast [isBlank, isWord] (t.replaceFunction ctx m) = some c ∧
      c ≠ '(' := by
  obtain ⟨indent, z, params, hindent, -, -, htext⟩ :=
    t.exists_replaceFunction_eq ctx h
  rw [htext, Text.firstPast_of_pos fun c hc =>
    isBlank_of_isIndent (hindent c hc)]
  cases hdoc : t.documents params with
  | false => cases t <;> exact ⟨' ', rfl, by decide⟩
  | true => exact ⟨'/', rfl, by decide⟩

theorem exhausts_functionDef (t : Target) (ctx : Context) :
    Idiom.functionDef.pattern.Exhausts (t.replaceFunction ctx) := by
  refine exhausts_of_opensLine rfl ?_
    (fun h => ⟨_, t.getLast?_replaceFunction ctx h, by decide⟩) ?_ ?_
  · intro before u rest gs h hu rest'
    simp only [Idiom.pattern, Idiom.functionDefPattern,
      reads_append_assoc] at h ⊢
    exact h.ahead_of_front (by simp) rfl hu rest'
  · intro m before rest h l hl y before' u rest' gs hu hread
    obtain ⟨c, hc, hne⟩ := t.firstPast_replaceFunction_line ctx h l hl
    have hd := Idiom.firstPast_functionDef hread
    rw [← hu, Text.firstPast_append hc] at hd
    exact hne (Option.some.inj hd)
  · intro m before rest h w x y before' rest' gs hx hread
    obtain ⟨c, hc, hne⟩ := t.firstPast_replaceFunction ctx h
    have hopen := Idiom.firstPast_functionDef_after_break hread
    rw [← hx, Text.firstPast_append hc] at hopen
    exact hne (Option.some.inj hopen)

end Signature

/-! ## Pairs of empty lists -/

section Pair

open Idiom (IsName pairSigns)
open Text

/-- A declaration: one line that has no sign of a pair at its start or behind
its first word. -/
structure Declared (d : Text) : Prop where
  inline : ∀ c ∈ d, isInline c = true
  start : ∃ c, d.head? = some c ∧ isBlank c = false ∧ c ∉ pairSigns
  next : ∃ c, firstPast [isWord, isBlank] d = some c ∧ c ∉ pairSigns

theorem not_mem_pairSigns_of_isWord {c : Char} (h : isWord c = true) :
    c ∉ pairSigns := by
  simp only [pairSigns, List.mem_cons, List.not_mem_nil, or_false, not_or]
  refine ⟨?_, ?_, ?_⟩ <;> rintro rfl <;> exact absurd h (by decide)

theorem declared_of_name {name tail : Text} (hname : IsName name)
    (hinline : ∀ c ∈ tail, isInline c = true)
    (hedge : tail.head?.any isWord = false)
    (hnext : ∃ c, firstPast [isBlank] tail = some c ∧ c ∉ pairSigns) :
    Declared (name ++ tail) := by
  refine ⟨List.forall_mem_append.mpr
    ⟨fun c hc => isInline_of_isWord (hname.word c hc), hinline⟩, ?_, ?_⟩
  · obtain ⟨c, cs, rfl⟩ := List.exists_cons_of_ne_nil hname.ne_nil
    have hc := hname.word c List.mem_cons_self
    exact ⟨c, rfl, isBlank_of_isWord hc, not_mem_pairSigns_of_isWord hc⟩
  · rw [firstPast_run hname.word hedge]
    exact hnext

/-- A keyword, a name and the rest of the line. -/
theorem declared_of_keyword {word name tail : Text} (hword : IsName word)
    (hname : IsName name) (hinline : ∀ c ∈ tail, isInline c = true) :
    Declared (word ++ (" " ++ (name ++ tail))) := by
  refine declared_of_name hword ?_ rfl ?_
  · have hspace : ∀ c ∈ " ".toList, isInline c = true :=
      List.all_eq_true.mp (by decide)
    simp only [List.forall_mem_append]
    exact ⟨hspace, fun c hc => isInline_of_isWord (hname.word c hc), hinline⟩
  · have hspace : ∀ c ∈ " ".toList, isBlank c = true :=
      List.all_eq_true.mp (by decide)
    obtain ⟨c, cs, rfl⟩ := List.exists_cons_of_ne_nil hname.ne_nil
    have hc := hname.word c List.mem_cons_self
    exact ⟨c, firstPast_run (t := c :: (cs ++ tail)) hspace
      (isBlank_of_isWord hc) [], not_mem_pairSigns_of_isWord hc⟩

theorem declared_dualInit (t : Target) {first second : Text}
    (hfirst : IsName first) (hsecond : IsName second) :
    Declared (t.dualInit first second).1 ∧
    Declared (t.dualInit first second).2 := by
  unfold dualInit
  cases t with
  | go =>
      exact ⟨declared_of_name hfirst (List.all_eq_true.mp (by decide)) rfl
        ⟨':', rfl, by decide⟩,
        declared_of_name hsecond (List.all_eq_true.mp (by decide)) rfl
          ⟨':', rfl, by decide⟩⟩
  | php =>
      have hmarked : ∀ {name : Text}, IsName name →
          Declared ("$" ++ name ++ " = [];") := by
        intro name hname
        have hmark : ∀ c ∈ "$".toList, isInline c = true :=
          List.all_eq_true.mp (by decide)
        have hend : ∀ c ∈ " = [];".toList, isInline c = true :=
          List.all_eq_true.mp (by decide)
        refine ⟨?_, ⟨'$', rfl, by decide, by decide⟩, ⟨'$', rfl, by decide⟩⟩
        simp only [List.forall_mem_append]
        exact ⟨⟨hmark, fun c hc => isInline_of_isWord (hname.word c hc)⟩, hend⟩
      exact ⟨hmarked hfirst, hmarked hsecond⟩
  | javascript =>
      have hlet : IsName "let".toList :=
        ⟨by decide, List.all_eq_true.mp (by decide)⟩
      have hend : ∀ c ∈ " = [];".toList, isInline c = true :=
        List.all_eq_true.mp (by decide)
      exact ⟨declared_of_keyword hlet hfirst hend,
        declared_of_keyword hlet hsecond hend⟩
  | csharp =>
      have hvar : IsName "var".toList :=
        ⟨by decide, List.all_eq_true.mp (by decide)⟩
      exact ⟨declared_of_keyword hvar hfirst (List.all_eq_true.mp (by decide)),
        declared_of_keyword hvar hsecond (List.all_eq_true.mp (by decide))⟩

variable {m : Match} {before : Option Char} {rest : Text}

theorem exists_replaceDualInit_eq (t : Target)
    (h : Idiom.dualEmptyInitPattern.Reads before m.text rest m.groups) :
    ∃ indent d d' : Text, (∀ c ∈ indent, isIndent c = true) ∧ Declared d ∧
      Declared d' ∧
      t.replaceDualInit m = (indent ++ d) ++ '\n' :: (indent ++ d') := by
  obtain ⟨indent, first, second, _, _, _, _, _, _, -, hgroups, hindent,
    hfirst, hsecond, -⟩ :=
    Idiom.shape_dualEmptyInit h
  obtain ⟨hd, hd'⟩ := t.declared_dualInit hfirst hsecond
  have hgroup : m.group 0 = indent ∧ m.group 1 = first ∧
      m.group 2 = second := by
    simp [Match.group, hgroups]
  refine ⟨indent, _, _, hindent, hd, hd', ?_⟩
  rw [replaceDualInit, hgroup.1, hgroup.2.1, hgroup.2.2]
  simp only [List.append_assoc]
  rfl

/-- A declaration behind blanks has its own start there. -/
theorem Declared.firstPast_start {b d : Text} (h : Declared d)
    (hb : ∀ c ∈ b, isBlank c = true) :
    ∃ c, firstPast [isBlank] (b ++ d) = some c ∧ c ∉ pairSigns := by
  obtain ⟨c, hc, hblank, hsign⟩ := h.start
  refine ⟨c, ?_, hsign⟩
  rw [firstPast_run hb (by simpa [hc] using hblank)]
  exact hc

theorem Declared.firstPast_next {ok : Char → Bool} {b d : Text} (h : Declared d)
    (hb : ∀ c ∈ b, ok c = true) (hok : ∀ c, ok c = true → isBlank c = true) :
    ∃ c, firstPast [ok, isWord, isBlank] (b ++ d) = some c ∧ c ∉ pairSigns := by
  obtain ⟨e, he, hblank, -⟩ := h.start
  obtain ⟨c, hc, hsign⟩ := h.next
  have hedge : d.head?.any ok = false := by
    rw [he, Option.any_some, Bool.eq_false_iff]
    exact fun htrue => absurd (hok e htrue) (by simp [hblank])
  exact ⟨c, (firstPast_run hb hedge _).trans hc, hsign⟩

theorem exhausts_dualEmptyInit (t : Target) :
    Idiom.dualEmptyInit.pattern.Exhausts t.replaceDualInit := by
  refine exhausts_of_opensLine rfl ?_ ?_ ?_ ?_
  · intro before u rest gs h hu rest'
    simp only [Idiom.pattern, Idiom.dualEmptyInitPattern,
      reads_append_assoc] at h ⊢
    exact h.ahead_of_front (by simp) rfl hu rest'
  · intro m before rest h
    obtain ⟨indent, d, d', -, -, hd', htext⟩ := t.exists_replaceDualInit_eq h
    have hne : d' ≠ [] := by
      rintro rfl
      obtain ⟨c, hc, -⟩ := hd'.start
      exact absurd hc (by simp)
    refine ⟨d'.getLast hne, ?_,
      by simpa [isInline] using hd'.inline _ (List.getLast_mem hne)⟩
    rw [htext, ← List.cons_append, ← List.append_assoc,
      List.getLast?_append_of_ne_nil _ hne]
    exact List.getLast?_eq_some_getLast hne
  · intro m before rest h l hl y before' u rest' gs hu hread
    obtain ⟨indent, d, d', hindent, hd, hd', htext⟩ :=
      t.exists_replaceDualInit_eq h
    have hline : ∀ {d : Text}, Declared d →
        Text.lines (indent ++ d) = [indent ++ d] := fun hd =>
      lines_of_inline (List.forall_mem_append.mpr
        ⟨fun c hc => isInline_of_isIndent (hindent c hc), hd.inline⟩)
    rw [htext, lines_append_newline, hline hd, hline hd'] at hl
    have hcomma := Idiom.firstPast_dualEmptyInit hread
    have hnext : ∃ c, firstPast [isIndent, isWord, isBlank] l = some c ∧
        c ∉ pairSigns := by
      rcases List.mem_append.mp hl with hl | hl
      · exact List.mem_singleton.mp hl ▸ hd.firstPast_next hindent fun _ =>
          isBlank_of_isIndent
      · exact List.mem_singleton.mp hl ▸ hd'.firstPast_next hindent fun _ =>
          isBlank_of_isIndent
    obtain ⟨c, hc, hsign⟩ := hnext
    rw [← hu, firstPast_append hc] at hcomma
    exact hsign (Option.some.inj hcomma ▸ by decide)
  · intro m before rest h w x y before' rest' gs hx hread
    obtain ⟨indent, d, d', hindent, hd, -, htext⟩ :=
      t.exists_replaceDualInit_eq h
    have hblank : ∀ c ∈ indent, isBlank c = true :=
      fun c hc => isBlank_of_isIndent (hindent c hc)
    rw [htext, List.append_assoc] at hx
    rcases Idiom.firstPast_dualEmptyInit_after_break hread with
      ⟨sign, hmem, hsign⟩ | hequal
    · obtain ⟨c, hc, hne⟩ := hd.firstPast_start hblank
      rw [← hx, firstPast_append hc] at hsign
      exact hne (Option.some.inj hsign ▸ hmem)
    · obtain ⟨c, hc, hne⟩ := hd.firstPast_next hblank fun _ hblank => hblank
      rw [← hx, firstPast_append hc] at hequal
      exact hne (Option.some.inj hequal ▸ by decide)

end Pair

end Target

end Recast
