import Recast.Proofs.Analysis.Functions
import Recast.Proofs.Pattern.Choice
import Recast.Proofs.Pattern.Joint

/-!
# The range of a scaler

The rule for scalers looks for the range right behind the opening bracket, and
takes the arguments for some text without one where it is not there. Of a line
that builds a scaler from keyword arguments it keeps the range where nothing
stands before it, and otherwise writes the range from zero to one
(`scaler_range_kept_iff`).
-/

namespace Recast

open Pattern

/-! ## Calls with keywords -/

/-- A keyword argument as it is written: blanks, a name, blanks, the equals sign
and a value. -/
structure Keyword where
  pad : Text
  name : Text
  gap : Text
  value : Text
  gap_pad : ∀ c ∈ pad, isGap c = true
  name_ne_nil : name ≠ []
  word_name : ∀ c ∈ name, isWord c = true
  gap_gap : ∀ c ∈ gap, isGap c = true
  inline_value : ∀ c ∈ value, isInline c = true

namespace Keyword

def text (a : Keyword) : Text := a.pad ++ (a.name ++ (a.gap ++ '=' :: a.value))

/-- `copy=True` after some blanks. -/
def copy (pad : Text) (hpad : ∀ c ∈ pad, isGap c = true) : Keyword where
  pad := pad
  name := "copy"
  gap := []
  value := "True"
  gap_pad := hpad
  name_ne_nil := by decide
  word_name := List.all_eq_true.mp (by decide)
  gap_gap := by simp
  inline_value := List.all_eq_true.mp (by decide)

end Keyword

/-- The characters that a bound of a range is made of. -/
def isBound (c : Char) : Bool := c != ',' && c != '(' && c != ')' && c != '\n'

/-- A line that builds a scaler from keyword arguments, one of which is its
range. -/
structure ScalerLine where
  indent : Text
  name : Text
  /-- The arguments before the range. -/
  earlier : List Keyword
  pad : Text
  gap : Text
  lead : Text
  low : Text
  high : Text
  tail : Text
  /-- The arguments after the range. -/
  later : List Keyword
  indent_indent : ∀ c ∈ indent, isIndent c = true
  name_ne_nil : name ≠ []
  word_name : ∀ c ∈ name, isWord c = true
  others : ∀ a ∈ earlier ++ later, a.name ≠ "feature_range".toList
  gap_pad : ∀ c ∈ pad, isGap c = true
  gap_gap : ∀ c ∈ gap, isGap c = true
  gap_lead : ∀ c ∈ lead, isGap c = true
  gap_tail : ∀ c ∈ tail, isGap c = true
  bound_low : ∀ c ∈ low, isBound c = true
  bound_high : ∀ c ∈ high, isBound c = true
  trim_low : low.trim ≠ []
  trim_high : high.trim ≠ []

theorem isInline_of_isBound {c : Char} (h : isBound c = true) :
    isInline c = true :=
  (Bool.and_eq_true_iff.mp h).2

theorem Keyword.inline_text (a : Keyword) :
    ∀ c ∈ a.text, isInline c = true := by
  intro c hc
  simp only [text, List.mem_append, List.mem_cons] at hc
  rcases hc with hc | hc | hc | rfl | hc
  · exact isInline_of_isGap (a.gap_pad c hc)
  · exact isInline_of_isWord (a.word_name c hc)
  · exact isInline_of_isGap (a.gap_gap c hc)
  · decide
  · exact a.inline_value c hc

namespace Text

/-- A word that blanks and the equals sign follow ends there. -/
theorem exists_word_stop {gap : Text} (hgap : ∀ c ∈ gap, isBlank c = true)
    (x : Text) :
    ∃ c y, gap ++ '=' :: x = c :: y ∧ isWord c = false := by
  cases gap with
  | nil => exact ⟨'=', x, rfl, by decide⟩
  | cons c gap =>
      exact ⟨c, gap ++ '=' :: x, rfl,
        isWord_of_isBlank (hgap c List.mem_cons_self)⟩

end Text

namespace ScalerLine

variable (s : ScalerLine)

/-- The range between its brackets. -/
def bounds : Text := s.low ++ ',' :: s.high

/-- The range as an argument. -/
def range : Text :=
  s.pad ++ ("feature_range" ++
    (s.gap ++ ("=" ++ (s.lead ++ ("(" ++ (s.bounds ++ (")" ++ s.tail)))))))

/-- The arguments with commas between them. -/
def args : Text :=
  Text.join ","
    (s.earlier.map Keyword.text ++ s.range :: s.later.map Keyword.text)

/-- The whole line. -/
def line : Text :=
  s.indent ++
  (s.name ++ (" " ++ ("=" ++ (" " ++ ("MinMaxScaler(" ++ (s.args ++ ")"))))))

/-- Nothing stands between the opening bracket and the range. -/
def Leading : Prop := s.earlier = [] ∧ s.pad = []

/-- A scaler from minus one to one with another argument, where the range comes
first or last. -/
def signed (first : Bool) : ScalerLine where
  indent := []
  name := "s"
  earlier := if first then [] else [.copy [] (by simp)]
  pad := if first then [] else " "
  gap := []
  lead := []
  low := "-1"
  high := " 1"
  tail := []
  later := if first then [.copy " " (List.all_eq_true.mp (by decide))] else []
  indent_indent := by simp
  name_ne_nil := by decide
  word_name := List.all_eq_true.mp (by decide)
  others := by cases first <;> simp [Keyword.copy]
  gap_pad := by cases first <;> exact List.all_eq_true.mp (by decide)
  gap_gap := by simp
  gap_lead := by simp
  gap_tail := by simp
  bound_low := List.all_eq_true.mp (by decide)
  bound_high := List.all_eq_true.mp (by decide)
  trim_low := by decide
  trim_high := by decide

/-! ## The text of the arguments -/

theorem inline_bounds : ∀ c ∈ s.bounds, isInline c = true ∧ c ≠ ')' := by
  have hbound : ∀ c, isBound c = true → isInline c = true ∧ c ≠ ')' := by
    intro c hc
    refine ⟨isInline_of_isBound hc, ?_⟩
    rintro rfl
    exact absurd hc (by decide)
  intro c hc
  rcases List.mem_append.mp hc with hc | hc
  · exact hbound c (s.bound_low c hc)
  · rcases List.mem_cons.mp hc with rfl | hc
    · decide
    · exact hbound c (s.bound_high c hc)

theorem inline_range : ∀ c ∈ s.range, isInline c = true := by
  intro c hc
  simp only [range, List.mem_append] at hc
  rcases hc with hc | hc | hc | hc | hc | hc | hc | hc | hc
  · exact isInline_of_isGap (s.gap_pad c hc)
  · exact List.all_eq_true.mp (by decide) c hc
  · exact isInline_of_isGap (s.gap_gap c hc)
  · exact List.all_eq_true.mp (by decide) c hc
  · exact isInline_of_isGap (s.gap_lead c hc)
  · exact List.all_eq_true.mp (by decide) c hc
  · exact (s.inline_bounds c hc).1
  · exact List.all_eq_true.mp (by decide) c hc
  · exact isInline_of_isGap (s.gap_tail c hc)

/-- The arguments start with the range or with another argument. -/
theorem args_cases :
    (s.earlier = [] ∧ ∃ more, s.args = s.range ++ more) ∨
    ∃ a more, a ∈ s.earlier ∧ s.args = a.text ++ more := by
  cases hearlier : s.earlier with
  | nil =>
      have hargs := Text.join_cons ",".toList s.range (s.later.map Keyword.text)
      refine Or.inl ⟨rfl, _, Eq.trans ?_ hargs⟩
      rw [args, hearlier, List.map_nil, List.nil_append]
  | cons a as =>
      have hargs := Text.join_cons ",".toList a.text
        (as.map Keyword.text ++ s.range :: s.later.map Keyword.text)
      refine Or.inr ⟨a, _, List.mem_cons_self, Eq.trans ?_ hargs⟩
      rw [args, hearlier, List.map_cons, List.cons_append]

theorem inline_args : ∀ c ∈ s.args, isInline c = true := by
  apply Text.forall_mem_join (List.all_eq_true.mp (by decide))
  intro part hpart
  simp only [List.mem_append, List.mem_cons, List.mem_map] at hpart
  rcases hpart with ⟨a, -, rfl⟩ | rfl | ⟨a, -, rfl⟩
  · exact a.inline_text
  · exact s.inline_range
  · exact a.inline_text

theorem line_ne_nil : s.line ≠ [] := by
  simp [line, s.name_ne_nil]

theorem comma_low : ∀ c ∈ s.low, (c != ',') = true := by
  intro c hc
  have hbound := s.bound_low c hc
  simp only [isBound, Bool.and_eq_true] at hbound
  exact hbound.1.1.1

/-- Where the range does not stand right behind the bracket, the arguments do
not start like it. -/
theorem args_ne_range (h : ¬ s.Leading) {g rest : Text}
    (hg : ∀ c ∈ g, isBlank c = true) (tail : Text) :
    s.args ++ tail ≠ "feature_range" ++ (g ++ ("=" ++ rest)) := by
  have hblank : ∀ {c : Char} {x y : Text}, isGap c = true →
      c :: x ≠ "feature_range" ++ y := by
    rintro c x y hc heq
    obtain rfl : c = 'f' := (List.cons.inj heq).1
    exact absurd hc (by decide)
  intro heq
  rcases s.args_cases with ⟨hnil, more, hargs⟩ | ⟨a, more, ha, hargs⟩
  · obtain ⟨c, pad, hpad⟩ := List.exists_cons_of_ne_nil fun hpad =>
      h ⟨hnil, hpad⟩
    rw [hargs, range, hpad] at heq
    exact hblank (s.gap_pad c (by simp [hpad])) heq
  · rw [hargs, Keyword.text] at heq
    cases hpad : a.pad with
    | cons c pad =>
        rw [hpad] at heq
        exact hblank (a.gap_pad c (by simp [hpad])) heq
    | nil =>
        obtain ⟨c, x, hx, hc⟩ :=
          Text.exists_word_stop (fun c hc => isBlank_of_isGap (a.gap_gap c hc))
            (a.value ++ (more ++ tail))
        obtain ⟨d, y, hy, hd⟩ := Text.exists_word_stop hg rest
        have hwords : a.name ++ c :: x = "feature_range".toList ++ d :: y := by
          rw [← hx, ← hy]
          simpa [hpad] using heq
        have hname :=
          (Text.run_unique a.word_name (List.all_eq_true.mp (by decide)) hc
            hd hwords).1
        exact s.others a (List.mem_append_left _ ha) hname

end ScalerLine

/-! ## What the pattern takes -/

namespace Idiom

/-- The range with its brackets, at the start of the arguments. -/
def rangePattern : Pattern :=
  "feature_range" ++ blanks ++ "=" ++ blanks ++ "(" ++
  group (stretch .shortest) ++ ")"

/-- The rest of the arguments and of the line. -/
def closingPattern : Pattern :=
  stretch .longest ++ (")" ++ (indent ++ anchor .lineEnd))

/-- All up to the closing bracket goes to the run before it. -/
theorem picks_closing {x : Text} (hx : ∀ c ∈ x, isInline c = true)
    (before : Option Char) :
    closingPattern.Picks (fun _ _ => True) before (x ++ ")") [] [] := by
  have hend (before : Option Char) : (indent ++ anchor .lineEnd).Picks
      (fun _ _ => True) before [] [] [] :=
    Picks.run_append (u := []) (by simp) rfl (picks_anchor rfl trivial)
  have hclose (before : Option Char) :
      (literal ")".toList ++ (indent ++ anchor .lineEnd)).Picks
      (fun _ _ => True) before ")".toList [] [] :=
    Picks.literal_append (v := []) (hend _)
  refine Picks.append (picks_longest hx (hclose _).reaches ?_) (hclose _)
  -- behind the last bracket there is no other
  intro v t hv hrest _ hreaches
  have hlength := congrArg List.length hrest
  have hprefix := hreaches.of_append.literal_prefix.length_le
  have hpos := List.length_pos_iff.mpr hv
  simp only [List.length_append, List.length_nil] at hlength hprefix
  omega

theorem picks_range {gap lead bounds : Text}
    (hgap : ∀ c ∈ gap, isBlank c = true) (hlead : ∀ c ∈ lead, isBlank c = true)
    (hbounds : ∀ c ∈ bounds, isInline c = true ∧ c ≠ ')')
    {k : Option Char → Text → Prop} {rest : Text} (hk : k (some ')') rest)
    (before : Option Char) :
    rangePattern.Picks k before
      ("feature_range" ++ (gap ++ ("=" ++ (lead ++ ("(" ++ (bounds ++ ")"))))))
        rest [some bounds] := by
  have hclose (before : Option Char) :
      (literal ")".toList).Picks k before ")".toList rest [] := picks_literal hk
  have hbracket (before : Option Char) :
      (group (stretch .shortest) ++ literal ")".toList).Picks k before
      (bounds ++ ")") rest [some bounds] := by
    refine Picks.group_append (picks_shortest (fun c hc => (hbounds c hc).1)
      (hclose _).reaches ?_) (hclose _)
    -- no bracket closes inside the bounds
    intro v w hw hsplit hreaches
    obtain ⟨c, w, rfl⟩ := List.exists_cons_of_ne_nil hw
    have hc : ')' = c := (List.cons_prefix_cons.mp hreaches.literal_prefix).1
    exact (hbounds c (by simp [hsplit])).2 hc.symm
  simp only [rangePattern, picks_append_assoc]
  apply Picks.literal_append
  apply Picks.run_append hgap rfl
  apply Picks.literal_append
  apply Picks.run_append hlead rfl
  apply Picks.literal_append
  exact hbracket _

variable (s : ScalerLine)

/-- Up to the arguments there is one way to take a line. -/
theorem picks_line {gs : List (Option Text)}
    (h : (optional rangePattern ++ closingPattern).Picks (fun _ _ => True)
      (some '(') (s.args ++ ")") [] gs) :
    scalerConstructorPattern.Picks (fun _ _ => True) none s.line []
      (some s.indent :: some s.name :: gs) := by
  have hspace : ∀ c ∈ " ".toList, isBlank c = true :=
    List.all_eq_true.mp (by decide)
  have hcall (before : Option Char) :
      (blanks ++ (literal "=".toList ++ (blanks ++
      (literal "MinMaxScaler(".toList ++
        (optional rangePattern ++ closingPattern))))).Picks
      (fun _ _ => True) before
        (" " ++ ("=" ++ (" " ++ ("MinMaxScaler(" ++ (s.args ++ ")"))))) [] gs :=
    Picks.run_append hspace rfl (Picks.literal_append
      (Picks.run_append hspace rfl (Picks.literal_append h)))
  have hname (before : Option Char) := Picks.group_append
    (picks_run1 s.name_ne_nil s.word_name rfl
      (hcall (Text.lastOr before s.name)).reaches) (hcall _)
  simp only [scalerConstructorPattern, picks_append_assoc]
  apply Picks.anchor_append rfl
  refine Picks.group_append
    (picks_run s.indent_indent ?_ (hname _).reaches) (hname _)
  -- the name starts with a character of a word
  obtain ⟨c, name, hcons⟩ := List.exists_cons_of_ne_nil s.name_ne_nil
  have hc : isIndent c = false :=
    isIndent_of_isWord (s.word_name c (by simp [hcons]))
  simpa [hcons] using hc

theorem picks_of_leading (h : s.Leading) :
    scalerConstructorPattern.Picks (fun _ _ => True) none s.line []
      [some s.indent, some s.name, some s.bounds] := by
  apply picks_line
  obtain ⟨hearlier, hpad⟩ := h
  obtain ⟨-, more, hargs⟩ | ⟨a, -, ha, -⟩ := s.args_cases
  · have hmore : ∀ c ∈ s.tail ++ more, isInline c = true := by
      intro c hc
      apply s.inline_args c
      rw [hargs, ScalerLine.range]
      rcases List.mem_append.mp hc with hc | hc <;> simp [hc]
    have hrange := picks_range (fun c hc => isBlank_of_isGap (s.gap_gap c hc))
      (fun c hc => isBlank_of_isGap (s.gap_lead c hc)) s.inline_bounds
      (picks_closing hmore (some ')')).reaches (some '(')
    have hrow := Picks.optional_append hrange (picks_closing hmore _)
    have htext : s.args ++ ")" = "feature_range" ++ (s.gap ++
        ("=" ++ (s.lead ++ ("(" ++ (s.bounds ++ ")"))))) ++
        (s.tail ++ more ++ ")") := by
      rw [hargs, ScalerLine.range, hpad]
      simp
    rwa [← htext] at hrow
  · simp [hearlier] at ha

theorem picks_of_not_leading (h : ¬ s.Leading) :
    scalerConstructorPattern.Picks (fun _ _ => True) none s.line []
      [some s.indent, some s.name, none] := by
  apply picks_line
  refine Picks.skip_append (p := rangePattern) ?_
    (picks_closing s.inline_args _)
  rintro ⟨u, rest, gs, heq, hread, -⟩
  simp only [rangePattern, blanks, reads_append_assoc, reads_literal_append,
    reads_many_append] at hread
  obtain ⟨_, rfl, gap, _, rfl, hgap, w, rfl, -⟩ := hread
  apply s.args_ne_range h hgap ")".toList
  simpa using heq

/-! ## Line feeds in a match -/

/-- The place between `w` and `x` is among blanks. A word or an equals sign
stands before them, and after them an equals sign or a bracket, perhaps with a
word in front. -/
def AmongBlanks (w x : Text) : Prop :=
  (∃ y c g, w = y ++ c :: g ∧ (isWord c = true ∨ c = '=') ∧
    ∀ d ∈ g, isBlank d = true) ∧
  ∃ g a c z, x = g ++ (a ++ c :: z) ∧ (∀ d ∈ g, isBlank d = true) ∧
    (∀ d ∈ a, isWord d = true) ∧
    (c = '=' ∨ c = '(')

theorem AmongBlanks.append {w x : Text} (h : AmongBlanks w x) (y z : Text) :
    AmongBlanks (y ++ w) (x ++ z) := by
  obtain ⟨⟨v, c, g, rfl, hc, hg⟩, g', a, d, r, rfl, hg', ha, hd⟩ := h
  exact ⟨⟨y ++ v, c, g, by simp, hc, hg⟩, g', a, d, r ++ z, by simp,
    hg', ha, hd⟩

/-- Where a line feed stands in an assignment whose value begins with a word and
a bracket. -/
theorem break_in_assignment {name b b' a value w x : Text} (hne : name ≠ [])
    (hname : ∀ c ∈ name, isWord c = true) (hb : ∀ c ∈ b, isBlank c = true)
    (hb' : ∀ c ∈ b', isBlank c = true) (ha : ∀ c ∈ a, isWord c = true)
    (h : w ++ '\n' :: x = name ++ (b ++ ("=" ++ (b' ++ (a ++ '(' :: value))))) :
    AmongBlanks w x ∨
      ∃ y, w = name ++ (b ++ ("=" ++ (b' ++ (a ++ '(' :: y)))) ∧
        value = y ++ '\n' :: x := by
  have hword {t : Text} (ht : ∀ c ∈ t, isWord c = true) : '\n' ∉ t :=
    Text.not_mem_of_forall ht (by decide)
  obtain ⟨y, rfl, hy⟩ := Text.place_in_second h (hword hname)
  rcases Text.place_in_append hy.symm with ⟨z, rfl, rfl⟩ | ⟨z, rfl, hz⟩
  · left
    obtain ⟨front, c, rfl⟩ := List.eq_nil_or_concat name |>.resolve_left hne
    refine ⟨⟨front, c, y, by simp, Or.inl (hname c (by simp)),
      fun d hd => hb d (by simp [hd])⟩, ?_⟩
    exact ⟨z, [], '=', _, rfl, fun d hd => hb d (by simp [hd]),
      by simp, Or.inl rfl⟩
  · obtain ⟨v, rfl, hv⟩ := Text.place_in_second hz.symm (by decide)
    rcases Text.place_in_append hv.symm with ⟨r, rfl, rfl⟩ | ⟨r, rfl, hr⟩
    · left
      refine ⟨⟨name ++ b, '=', v, by simp, Or.inr rfl,
        fun d hd => hb' d (by simp [hd])⟩, ?_⟩
      exact ⟨r, a, '(', value, rfl, fun d hd => hb' d (by simp [hd]),
        ha, Or.inr rfl⟩
    · right
      obtain ⟨q, rfl, hq⟩ := Text.place_in_second hr.symm (hword ha)
      obtain ⟨y, rfl, hvalue⟩ :=
        Text.place_in_second (a := ['(']) hq.symm (by decide)
      exact ⟨y, rfl, hvalue⟩

theorem break_in_scalerConstructor {before : Option Char} {w x rest : Text}
    {gs : List (Option Text)}
    (h : scalerConstructorPattern.Reads before (w ++ '\n' :: x) rest gs) :
    AmongBlanks w x := by
  obtain ⟨indent, name, b, b', range, value, htext, hindent, hne, hname, hb,
    hb', hrange, hvalue⟩ :=
    shape_scalerConstructor h
  obtain ⟨y, rfl, hy⟩ := Text.place_in_second htext hindent
  have hcall : "MinMaxScaler(".toList = "MinMaxScaler".toList ++ ['('] := by
    decide
  have hclass : ∀ c ∈ "MinMaxScaler".toList, isWord c = true :=
    List.all_eq_true.mp (by decide)
  rw [hcall, List.append_assoc] at hy
  rcases break_in_assignment hne hname hb hb' hclass hy.symm with
    hblanks | ⟨z, rfl, hz⟩
  · simpa using hblanks.append indent []
  · rcases Text.place_in_append (a := range) hz.symm with
      ⟨r, rfl, rfl⟩ | ⟨r, -, rfl⟩
    · rcases hrange with hnil | ⟨g, g', bounds, hrange, hg, hg', hbounds⟩
      · simp at hnil
      · have hkey : ∀ c ∈ "feature_range".toList, isWord c = true :=
          List.all_eq_true.mp (by decide)
        rcases break_in_assignment (a := []) (by decide) hkey hg hg'
          (by simp) hrange with hblanks | ⟨v, -, rfl⟩
        · simpa using hblanks.append (indent ++
            (name ++ (b ++ ("=" ++ (b' ++ "MinMaxScaler("))))) value
        · simp at hbounds
    · simp at hvalue

/-- No match comes from above into a line that builds a scaler. -/
theorem not_bridges_line (u post : Text) :
    ¬ scalerConstructorPattern.Bridges u (s.line ++ post) := by
  rintro ⟨pre, w, x, rest, before, gs, -, hx, hread⟩
  obtain ⟨-, g, a, c, z, rfl, hg, ha, hc⟩ := break_in_scalerConstructor hread
  have hsign : isBlank c = false ∧ isWord c = false := by
    rcases hc with rfl | rfl <;> decide
  have hother : (g ++ (a ++ c :: (z ++ rest))).dropWhile isBlank =
      a ++ c :: (z ++ rest) := by
    apply Text.dropWhile_blanks hg
    cases a with
    | nil => exact hsign.1
    | cons d a => exact isBlank_of_isWord (ha d List.mem_cons_self)
  have hline :
      (s.indent ++
        (s.name ++ ' ' :: ("= MinMaxScaler(" ++
          (s.args ++ (")" ++ post))))).dropWhile isBlank =
      s.name ++ ' ' :: ("= MinMaxScaler(" ++ (s.args ++ (")" ++ post))) := by
    apply Text.dropWhile_blanks fun c hc =>
      isBlank_of_isIndent (s.indent_indent c hc)
    obtain ⟨d, name, hname⟩ := List.exists_cons_of_ne_nil s.name_ne_nil
    rw [hname]
    exact isBlank_of_isWord (s.word_name d (by simp [hname]))
  have hsame : s.indent ++
      (s.name ++ ' ' :: ("= MinMaxScaler(" ++ (s.args ++ (")" ++ post)))) =
      g ++ (a ++ c :: (z ++ rest)) := by
    simpa [ScalerLine.line] using hx
  rw [hsame, hother] at hline
  -- the word in front of the sign would be the name
  have hspace := (Text.run_unique ha s.word_name hsign.2 (by decide) hline).2
  obtain rfl : c = ' ' := (List.cons.inj hspace).1
  exact absurd hsign.1 (by decide)

/-- No match goes on from such a line to those below. -/
theorem not_bridges_after_line (v : Text) :
    ¬ scalerConstructorPattern.Bridges s.line v := by
  rintro ⟨pre, w, x, rest, before, gs, hpre, -, hread⟩
  obtain ⟨⟨y, c, g, rfl, hc, hg⟩, -⟩ := break_in_scalerConstructor hread
  have hlast : (pre ++ (y ++ c :: g)).getLast? = some ')' := by
    have hline : s.line =
        s.indent ++ (s.name ++ (" = MinMaxScaler(" ++ s.args)) ++ [')'] := by
      simp [ScalerLine.line]
    rw [← hpre, hline, List.getLast?_concat]
  have hmem : ')' ∈ c :: g := by
    rw [← List.append_assoc,
      List.getLast?_append_of_ne_nil _ (by simp)] at hlast
    exact List.mem_of_getLast? hlast
  rcases List.mem_cons.mp hmem with rfl | hmem
  · exact absurd hc (by decide)
  · exact absurd (hg ')' hmem) (by decide)

/-- Among other lines, a line that builds a scaler is replaced as it is by
itself. -/
theorem substitute_line_among (f : Match → Text) {pre post : Text}
    (hpre : pre = [] ∨ pre.getLast? = some '\n')
    (hpost : post = [] ∨ post.head? = some '\n') :
    scalerConstructorPattern.substitute f (pre ++ (s.line ++ post)) =
      scalerConstructorPattern.substitute f pre ++
        (scalerConstructorPattern.substitute f s.line ++
          scalerConstructorPattern.substitute f post) := by
  have hblind : scalerConstructorPattern.Blind (· == '\n') :=
    blind_of_breakBlind (by decide)
  have hbelow : scalerConstructorPattern.substitute f (s.line ++ post) =
      scalerConstructorPattern.substitute f s.line ++
      scalerConstructorPattern.substitute f post := by
    rcases hpost with rfl | hhead
    · rw [List.append_nil]
      exact (List.append_nil _).symm
    · obtain ⟨v, rfl⟩ := List.head?_eq_some_iff.mp hhead
      have hnil : ¬ scalerConstructorPattern.Bridges [] v := fun h =>
        not_bridges_after_line s v (by simpa using h.append_left s.line)
      have hfirst : scalerConstructorPattern.substitute f ('\n' :: v) =
          '\n' :: scalerConstructorPattern.substitute f v :=
            substitute_join hblind hnil f
      rw [substitute_join hblind (not_bridges_after_line s v), hfirst]
  rcases hpre with rfl | hlast
  · exact hbelow
  · obtain ⟨u, rfl⟩ := List.getLast?_eq_some_iff.mp hlast
    have hlastBreak : scalerConstructorPattern.substitute f (u ++ ['\n']) =
        scalerConstructorPattern.substitute f u ++ ['\n'] :=
      substitute_append_breaks hblind (by decide) f u 1
    rw [hlastBreak, List.append_assoc, List.append_assoc]
    exact (substitute_join hblind (not_bridges_line s u post) f).trans
      (by rw [hbelow]; rfl)

end Idiom

/-! ## What the rule writes -/

namespace Target

open Text

theorem replaceScaler_of_range (t : Target) (s : ScalerLine) {m : Match}
    (hm : m.groups = [some s.indent, some s.name, some s.bounds]) :
    t.replaceScaler m = s.indent ++ t.scaler s.name s.low.trim s.high.trim := by
  have hgroups : m.group 0 = s.indent ∧ m.group 1 = s.name ∧
      m.group 2 = s.bounds := by
    simp [Match.group, hm]
  have hbounds : orElse s.bounds "0, 1" = s.bounds := by
    simp [orElse, ScalerLine.bounds]
  have hlow : s.bounds.before ',' = s.low := by
    rw [ScalerLine.bounds, before, List.takeWhile_append_of_pos s.comma_low,
      List.takeWhile_cons_of_neg (by simp), List.append_nil]
  have hhigh : s.bounds.after ',' = s.high := by
    rw [ScalerLine.bounds, after, List.dropWhile_append_of_pos s.comma_low,
      List.dropWhile_cons_of_neg (by simp)]
    rfl
  have hone : orElse s.high.trim "1" = s.high.trim := by
    simp [orElse, s.trim_high]
  rw [replaceScaler, hgroups.1, hgroups.2.1, hgroups.2.2, hbounds, hlow,
    hhigh, hone]

theorem replaceScaler_of_none (t : Target) (s : ScalerLine) {m : Match}
    (hm : m.groups = [some s.indent, some s.name, none]) :
    t.replaceScaler m = s.indent ++ t.scaler s.name "0" "1" := by
  have hgroups : m.group 0 = s.indent ∧ m.group 1 = s.name ∧
      m.group 2 = [] := by
    simp [Match.group, hm]
  rw [replaceScaler, hgroups.1, hgroups.2.1, hgroups.2.2]
  rfl

/-- Every target writes the bounds with a comma between them. -/
theorem exists_scaler_eq (t : Target) (name : Text) :
    ∃ front back : Text, ∀ low high, t.scaler name low high =
      front ++ (low ++ (", " ++ (high ++ back))) := by
  cases t with
  | go =>
      refine ⟨"// " ++ name ++ ": MinMaxScaler over [",
        "] has no direct gonum equivalent".toList, fun low high => ?_⟩
      delta scaler
      simp only [List.append_assoc]
  | php =>
      refine ⟨"// $" ++ name ++ ": MinMaxScaler over [",
        "] is approximated by \\Phpml\\Preprocessing\\Normalizer".toList,
        fun low high => ?_⟩
      delta scaler
      simp only [List.append_assoc]
  | javascript =>
      refine ⟨"const " ++ name ++ " = new MinMaxScaler(\x7b featureRange: [",
        "] \x7d);".toList, fun low high => ?_⟩
      delta scaler
      simp only [List.append_assoc]
  | csharp =>
      refine ⟨"// " ++ name ++ ": MinMaxScaler over [",
        "] maps to mlContext.Transforms.NormalizeMinMax".toList,
        fun low high => ?_⟩
      delta scaler
      simp only [List.append_assoc]

/-- Ranges without other commas that are written alike are the same. -/
theorem scaler_injective (t : Target) (name : Text) {low high low' high' : Text}
    (hlow : ∀ c ∈ low, (c != ',') = true)
    (hlow' : ∀ c ∈ low', (c != ',') = true)
    (h : t.scaler name low high = t.scaler name low' high') :
    low = low' ∧ high = high' := by
  obtain ⟨front, back, heq⟩ := t.exists_scaler_eq name
  rw [heq, heq] at h
  have hpair : low ++ ',' :: ' ' :: (high ++ back) =
      low' ++ ',' :: ' ' :: (high' ++ back) :=
    List.append_cancel_left h
  obtain ⟨hsame, hrest⟩ := Text.run_unique hlow hlow' (by simp) (by simp) hpair
  exact ⟨hsame,
    List.append_cancel_right (List.cons.inj (List.cons.inj hrest).2).2⟩

/-- The rule for lines that build a scaler. -/
def scalerRule (t : Target) : Rule :=
  (Rule.replacing "scaler_constructor" Idiom.scalerConstructor.pattern fun _ =>
    t.replaceScaler).gated
    (Rule.libraryGate Library.sklearn Library.scalerClass)

theorem scalerRule_mem (t : Target) : t.scalerRule ∈ t.rules := by
  simp only [scalerRule, rules, List.mem_append, List.mem_cons,
    true_or, or_true]

theorem eq_scalerRule {t : Target} {r : Rule} (hr : r ∈ t.rules)
    (hname : r.name = "scaler_constructor".toList) :
    r = t.scalerRule :=
  eq_of_name hr t.scalerRule_mem hname

theorem substitute_of_leading (t : Target) {s : ScalerLine} (h : s.Leading) :
    Idiom.scalerConstructor.pattern.substitute t.replaceScaler s.line =
      s.indent ++ t.scaler s.name s.low.trim s.high.trim := by
  obtain ⟨m, hgroups, hm⟩ :=
    (Idiom.picks_of_leading s h).substitute_eq s.line_ne_nil t.replaceScaler
  exact hm.trans (t.replaceScaler_of_range s hgroups)

theorem substitute_of_not_leading (t : Target) {s : ScalerLine}
    (h : ¬ s.Leading) :
    Idiom.scalerConstructor.pattern.substitute t.replaceScaler s.line =
      s.indent ++ t.scaler s.name "0" "1" := by
  obtain ⟨m, hgroups, hm⟩ :=
    (Idiom.picks_of_not_leading s h).substitute_eq s.line_ne_nil t.replaceScaler
  exact hm.trans (t.replaceScaler_of_none s hgroups)

/-- Such a line opens the gate, and is rewritten apart from what stands around
it. -/
theorem apply_scaler_line {t : Target} {ctx : Context}
    (huses : ctx.uses Library.sklearn = true) (s : ScalerLine) {pre post : Text}
    (hpre : pre = [] ∨ pre.getLast? = some '\n')
    (hpost : post = [] ∨ post.head? = some '\n') :
    (t.scalerRule.apply ctx (pre ++ (s.line ++ post)) =
      t.scalerRule.transform ctx pre ++
        (Idiom.scalerConstructor.pattern.substitute t.replaceScaler s.line ++
          t.scalerRule.transform ctx post)) := by
  have hmentions :
      (pre ++ (s.line ++ post)).mentions Library.scalerClass = true := by
    have hcall : "MinMaxScaler(".toList =
        Library.scalerClass ++ "(".toList := by decide
    rw [Text.mentions_iff, ScalerLine.line, hcall]
    refine ⟨pre ++ (s.indent ++ (s.name ++ (" " ++ ("=" ++ " ")))),
      "(" ++ (s.args ++ (")" ++ post)), ?_⟩
    simp only [List.append_assoc]
  have hgate : Rule.libraryGate Library.sklearn Library.scalerClass ctx
      (pre ++ (s.line ++ post)) = true := by
    rw [Rule.libraryGate, huses, hmentions, Bool.and_self]
  rw [Rule.apply]
  refine (if_pos hgate).trans ?_
  exact Idiom.substitute_line_among s t.replaceScaler hpre hpost

/-- **The range of a scaler.** Where the library is in use, the rule for scalers
rewrites a line that builds one from keyword arguments wherever the line stands.
It keeps the range exactly if nothing stands between the bracket and the range,
or the range is that from zero to one, which it writes in all other cases. -/
theorem scaler_range_kept_iff {t : Target} {ctx : Context}
    (huses : ctx.uses Library.sklearn = true) {r : Rule} (hr : r ∈ t.rules)
    (hname : r.name = "scaler_constructor".toList) (s : ScalerLine)
    {pre post : Text} (hpre : pre = [] ∨ pre.getLast? = some '\n')
    (hpost : post = [] ∨ post.head? = some '\n') :
    (r.apply ctx (pre ++ (s.line ++ post)) =
        r.transform ctx pre ++
        (s.indent ++ t.scaler s.name s.low.trim s.high.trim ++
          r.transform ctx post) ↔
      s.Leading ∨ (s.low.trim = "0".toList ∧ s.high.trim = "1".toList)) ∧
    (¬ s.Leading →
      r.apply ctx (pre ++ (s.line ++ post)) =
        r.transform ctx pre ++
        (s.indent ++ t.scaler s.name "0" "1" ++ r.transform ctx post)) := by
  obtain rfl := eq_scalerRule hr hname
  have happly := apply_scaler_line (t := t) huses s hpre hpost
  by_cases h : s.Leading
  · rw [substitute_of_leading t h] at happly
    exact ⟨⟨fun _ => Or.inl h, fun _ => happly⟩, fun hnot => absurd h hnot⟩
  · rw [substitute_of_not_leading t h] at happly
    refine ⟨⟨fun heq => Or.inr ?_, ?_⟩, fun _ => happly⟩
    · rw [happly] at heq
      have hscaler := List.append_cancel_left
        (List.append_cancel_right (List.append_cancel_left heq))
      obtain ⟨hlow, hhigh⟩ :=
        t.scaler_injective s.name (List.all_eq_true.mp (by decide))
        (fun c hc => s.comma_low c (Text.mem_of_mem_trim hc)) hscaler
      exact ⟨hlow.symm, hhigh.symm⟩
    · rintro (hleading | ⟨hlow, hhigh⟩)
      · exact absurd hleading h
      · rw [hlow, hhigh]
        exact happly

/-- The range is kept in front of another argument, in a snippet of three
lines. -/
theorem scaler_range_kept_first :
    (ScalerLine.signed true).line =
      "s = MinMaxScaler(feature_range=(-1, 1), copy=True)".toList ∧
    javascript.scalerRule ∈ javascript.rules ∧
    javascript.scalerRule.apply { libraries := [Library.sklearn] }
        ("x = 1\n" ++ ((ScalerLine.signed true).line ++ "\ny = 2")) =
      "x = 1\nconst s = new MinMaxScaler(\x7b featureRange: [-1, 1] \x7d);\ny = 2".toList := by
  refine ⟨by decide, javascript.scalerRule_mem, ?_⟩
  have huses : Context.uses { libraries := [Library.sklearn] } Library.sklearn =
    true := by decide
  have hpre : "x = 1\n".toList = [] ∨ "x = 1\n".toList.getLast? = some '\n' :=
    Or.inr (by decide)
  have hpost : "\ny = 2".toList = [] ∨ "\ny = 2".toList.head? = some '\n' :=
    Or.inr (by decide)
  have hkept := (scaler_range_kept_iff huses javascript.scalerRule_mem rfl
    (ScalerLine.signed true) hpre hpost).1
  rw [hkept.mpr (Or.inl ⟨rfl, rfl⟩)]
  decide +kernel

/-- Behind another argument the range is lost. -/
theorem scaler_range_lost :
    (ScalerLine.signed false).line =
      "s = MinMaxScaler(copy=True, feature_range=(-1, 1))".toList ∧
    (javascript.recast (analyze (ScalerLine.signed false).line)
      (ScalerLine.signed false).line).output =
      "const \x7b MinMaxScaler \x7d = require(\"ml-js/ml\");\n\nfunction main() \x7b\n" ++
        "    const s = new MinMaxScaler(\x7b featureRange: [0, 1] \x7d);\n\x7d\n\nmain();" := by
  refine ⟨by decide, by decide +kernel⟩

end Target

end Recast
