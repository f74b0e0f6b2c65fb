import Recast.Proofs.Idiom.Shape
import Recast.Proofs.Pattern.Thinning
import Recast.Proofs.Rule.Stages

/-!
# Blanks in a slice

Go has slices as the source has them, and its rule for slices only takes blanks
out of them: those at either end of what stands before the first colon and at
either end of what stands behind it. `slice_rule_thins` says which characters
are left out, place by place, and that nothing is left to do afterwards.

For the last part it is enough that every slice of the new text has its blanks
trimmed (`tight_replaced`). The brackets of such a slice come from one
replacement, or they were there before; but then the name in front of them was
there too, and the scan would have come upon it.
-/

namespace Recast

open Pattern

namespace Text

/-! ## Blanks at the ends -/

/-- The place lies in a run of blanks that reaches one end of the text. -/
def AtEdge (t : Text) (i : Nat) : Prop :=
  ∃ x run y : Text, t = x ++ (run ++ y) ∧ (∀ c ∈ run, isBlank c = true) ∧
    x.length ≤ i ∧ i < x.length + run.length ∧
    (x = [] ∨ y = [])

/-- A run at an end does not reach beyond a character that is no blank. -/
theorem AtEdge.outside {l u r : Text} {i : Nat} (h : AtEdge (l ++ (u ++ r)) i)
    (hhead : u.head?.any isBlank = false)
    (hlast : u.getLast?.any isBlank = false) :
    i < l.length ∨ l.length + u.length ≤ i := by
  obtain ⟨x, run, y, htext, hrun, hle, hlt, hends⟩ := h
  rcases hends with rfl | rfl
  · cases u with
    | nil => exact Nat.lt_or_ge i l.length
    | cons c u =>
        rw [List.nil_append, List.cons_append] at htext
        rcases place_in_append htext with ⟨z, rfl, -⟩ | ⟨z, rfl, -⟩
        · exact absurd (hrun c (by simp)) (by simpa using hhead)
        · simp only [List.length_nil, List.length_append] at hlt ⊢
          omega
  · rcases List.eq_nil_or_concat u with rfl | ⟨u, c, rfl⟩
    · exact Nat.lt_or_ge i l.length
    · have hplace : (l ++ u) ++ c :: r = x ++ run := by simpa using htext
      rcases place_in_append hplace with ⟨z, rfl, -⟩ | ⟨z, -, rfl⟩
      · simp only [List.length_append, List.length_cons,
          List.length_concat] at hle ⊢
        omega
      · exact absurd (hrun c (by simp)) (by simpa using hlast)

theorem thins_trim (t : Text) : Thins (AtEdge t) t t.trim := by
  obtain ⟨l, r, ht, hl, hr, hhead, hlast⟩ := exists_trim_parts t
  generalize t.trim = u at ht hhead hlast ⊢
  subst ht
  have hout : Thins (fun i => i < l.length ∨ ∃ j, i = l.length + j ∧
      ∃ k, j = u.length + k ∧ k < r.length)
      (l ++ (u ++ r)) ([] ++ (u ++ [])) :=
        (thins_all l).append ((thins_all r).append_left u)
  rw [List.nil_append, List.append_nil] at hout
  refine hout.congr fun i => ?_
  constructor
  · rintro (hi | ⟨j, rfl, k, rfl, hk⟩)
    · exact ⟨[], l, u ++ r, rfl, hl, Nat.zero_le i,
        by simpa using hi, Or.inl rfl⟩
    · exact ⟨l ++ u, r, [], by simp, hr, by simp, by simp; omega, Or.inr rfl⟩
  · intro h
    refine (h.outside hhead hlast).imp id fun hge =>
      ⟨i - l.length, by omega, i - l.length - u.length, by omega, ?_⟩
    obtain ⟨x, run, y, htext, -, -, hlt, -⟩ := h
    have hlength := congrArg List.length htext
    simp only [List.length_append] at hlength
    omega

end Text

open Text

/-! ## Slices -/

theorem unbracketed_of_forall {ok : Char → Bool} {t : Text}
    (h : ∀ c ∈ t, ok c = true) (hopen : ok '[' = false)
    (hclose : ok ']' = false) : ∀ c ∈ t, (c != '[' && c != ']') = true := by
  intro c hc
  rw [Bool.and_eq_true, bne_iff_ne, bne_iff_ne]
  exact ⟨fun he => not_mem_of_forall h hopen (he ▸ hc),
    fun he => not_mem_of_forall h hclose (he ▸ hc)⟩

/-- What may stand in the brackets of a slice, before the first colon and behind
it. -/
structure Bounds (start stop : Text) : Prop where
  start_free : ∀ c ∈ start, (c != '[' && c != ']' && c != ':') = true
  stop_free : ∀ c ∈ stop, (c != '[' && c != ']') = true

/-- The bounds in their brackets. -/
def bracketed (start stop : Text) : Text :=
  '[' :: (start ++ ':' :: (stop ++ [']']))

/-- `name[start:stop]`, with the blanks that it is written with. -/
structure Slice where
  name : Text
  start : Text
  stop : Text
  isName : Idiom.IsName name
  bounds : Bounds start stop

namespace Bounds

variable {start stop start' stop' rest rest' : Text}

theorem trim (h : Bounds start stop) : Bounds start.trim stop.trim :=
  ⟨fun c hc => h.start_free c (mem_of_mem_trim hc),
    fun c hc => h.stop_free c (mem_of_mem_trim hc)⟩

theorem unbracketed (h : Bounds start stop) :
    ∀ c ∈ start ++ ':' :: stop, (c != '[' && c != ']') = true := by
  simp only [List.forall_mem_append, List.forall_mem_cons]
  exact ⟨fun c hc => (Bool.and_eq_true_iff.mp (h.start_free c hc)).1, by decide,
    h.stop_free⟩

theorem colon_not_mem (h : Bounds start stop) : ':' ∉ start :=
  not_mem_of_forall h.start_free (by decide)

/-- Brackets with the bounds of a slice have them in one way only. -/
theorem unique (h : Bounds start stop) (h' : Bounds start' stop')
    (heq : bracketed start stop ++ rest = bracketed start' stop' ++ rest') :
    start = start' ∧ stop = stop' := by
  simp only [bracketed, List.cons_append, List.append_assoc, List.cons.injEq,
    true_and, List.nil_append] at heq
  obtain ⟨hstart, htail⟩ := run_unique h.start_free h'.start_free (by decide)
    (by decide) heq
  obtain ⟨hstop, -⟩ := run_unique h.stop_free h'.stop_free (by decide)
    (by decide) (List.cons.inj htail).2
  exact ⟨hstart, hstop⟩

end Bounds

namespace Slice

/-- The slice as it is written. -/
def text (s : Slice) : Text := s.name ++ bracketed s.start s.stop

/-- The slice without blanks at the ends of its bounds. -/
def trimmed (s : Slice) : Slice :=
  ⟨s.name, s.start.trim, s.stop.trim, s.isName, s.bounds.trim⟩

theorem lastOr_text (s : Slice) (before : Option Char) :
    lastOr before s.text = some ']' := by
  have htext : s.text = (s.name ++ '[' :: (s.start ++ ':' :: s.stop)) ++
      [']'] := by simp [text, bracketed]
  rw [htext, lastOr_append]
  rfl

/-- The bracket behind the name is the only one that opens. -/
theorem eq_name_of_open (s : Slice) {pre z : Text}
    (h : s.text = pre ++ '[' :: z) : s.name = pre := by
  rcases place_in_append h.symm with ⟨y, hname, -⟩ | ⟨y, rfl, hy⟩
  · exact absurd (hname ▸ by simp) (s.isName.not_mem (c := '[') (by decide))
  · cases y with
    | nil => rw [List.append_nil]
    | cons d y =>
        have hinner : (s.start ++ ':' :: s.stop) ++ [']'] = y ++ '[' :: z := by
          simpa using (List.cons.inj hy).2
        have hopen : '[' ∈ (s.start ++ ':' :: s.stop) ++ [']'] := by
          simp [hinner]
        rcases List.mem_append.mp hopen with hmem | hmem
        · exact absurd hmem (not_mem_of_forall s.bounds.unbracketed (by decide))
        · exact absurd hmem (by decide)

/-- A slice can be read where its name starts. -/
theorem reads {before : Option Char} (s : Slice) (h : before.any isWord = false)
    (rest : Text) :
    Idiom.slicePattern.Reads before s.text rest [some s.name, some s.start,
      some s.stop] := by
  refine Idiom.reads_slice_iff.mpr ⟨s.name, s.start, s.stop, [], rfl, rfl,
    s.isName, s.bounds.start_free,
    s.bounds.stop_free, by simp, ?_⟩
  obtain ⟨c, cs, hname⟩ := List.exists_cons_of_ne_nil s.isName.ne_nil
  have hc : isWord c = true := s.isName.word c (by simp [hname])
  simp [Anchor.holds, text, hname, h, hc]

/-- What is read is a slice, and Go writes it trimmed. -/
theorem of_reads {before : Option Char} {m : Match} {rest : Text}
    (h : Idiom.slicePattern.Reads before m.text rest m.groups) :
    ∃ s : Slice, m.text = s.text ∧
      Target.go.replaceSlice m = s.trimmed.text := by
  obtain ⟨name, start, stop, b, htext, hgroups, hname, hstart, hstop, hb, -⟩ :=
    Idiom.reads_slice_iff.mp h
  have hblank := unbracketed_of_forall hb (by decide) (by decide)
  refine ⟨⟨name, start, stop ++ b, hname, hstart,
    List.forall_mem_append.mpr ⟨hstop, hblank⟩⟩, ?_, ?_⟩
  · rw [htext, text, bracketed]
    simp
  · have hgroup : m.group 0 = name ∧ m.group 1 = start ∧ m.group 2 = stop := by
      simp [Match.group, hgroups]
    unfold Target.replaceSlice Target.slice
    rw [hgroup.1, hgroup.2.1, hgroup.2.2]
    show _ = name ++ bracketed start.trim (stop ++ b).trim
    rw [trim_append_blanks hb, bracketed]
    simp

/-! ## The characters that are left out -/

/-- What stands between `x` and `y` touches a bracket or the first colon. -/
inductive Touches : (x y : Text) → Prop where
  | openBracket (y : Text) : Touches [] y
  | closeBracket (x : Text) : Touches x []
  | behindColon {x : Text} (first : ':' ∉ x) (y : Text) : Touches (x ++ [':']) y
  | beforeColon {x : Text} (first : ':' ∉ x) (y : Text) : Touches x (':' :: y)

/-- The place lies between the brackets, in a run of blanks that touches one of
them or the first colon. -/
def Loose (slice : Text) (i : Nat) : Prop :=
  ∃ name x run y : Text, slice = name ++ '[' :: (x ++ (run ++ (y ++ [']']))) ∧
    (∀ c ∈ name, isWord c = true) ∧
    (∀ c ∈ run, isBlank c = true) ∧ name.length + 1 + x.length ≤ i ∧
    i < name.length + 1 + x.length + run.length ∧
    Touches x y

/-- A run of blanks that touches a bracket or the first colon reaches an end of
one of the bounds. -/
theorem Touches.atEdge {x run y start stop : Text} (h : Touches x y)
    (hrun : ∀ c ∈ run, isBlank c = true) (hcolon : ':' ∉ start)
    (htext : start ++ ':' :: stop = x ++ (run ++ y)) {i : Nat}
    (hle : x.length ≤ i) (hlt : i < x.length + run.length) :
    AtEdge start i ∨ ∃ j, i = start.length + (1 + j) ∧ AtEdge stop j := by
  have hfree : ':' ∉ run := not_mem_of_forall hrun (by decide)
  cases h with
  | openBracket =>
      rw [List.nil_append] at htext
      rcases place_in_append htext with ⟨z, rfl, -⟩ | ⟨z, rfl, -⟩
      · exact absurd (by simp) hfree
      · exact Or.inl ⟨[], run, z, rfl, hrun, hle, hlt, Or.inl rfl⟩
  | closeBracket =>
      rw [List.append_nil] at htext
      rcases place_in_append htext with ⟨z, rfl, rfl⟩ | ⟨z, -, rfl⟩
      · simp only [List.length_append, List.length_cons] at hle hlt
        exact Or.inr ⟨i - start.length - 1, by omega, z, run, [], by simp, hrun,
          by omega, by omega, Or.inr rfl⟩
      · exact absurd (by simp) hfree
  | behindColon hx =>
      rw [List.append_assoc, List.singleton_append] at htext
      obtain ⟨rfl, rfl⟩ := cut_unique hcolon hx htext
      simp only [List.length_append, List.length_singleton] at hle hlt
      exact Or.inr ⟨i - start.length - 1, by omega, [], run, y, rfl, hrun,
        Nat.zero_le _, by simp; omega, Or.inl rfl⟩
  | beforeColon hx =>
      rw [← List.append_assoc] at htext
      have hboth : ':' ∉ x ++ run := by simp [hx, hfree]
      obtain ⟨rfl, -⟩ := cut_unique hcolon hboth htext
      exact Or.inl ⟨x, run, [], by simp, hrun, hle, hlt, Or.inr rfl⟩

theorem exists_touches {start stop : Text} (hcolon : ':' ∉ start) {i : Nat}
    (h : AtEdge start i ∨ ∃ j, i = start.length + (1 + j) ∧ AtEdge stop j) :
    ∃ x run y : Text, start ++ ':' :: stop = x ++ (run ++ y) ∧
      (∀ c ∈ run, isBlank c = true) ∧ x.length ≤ i ∧
      i < x.length + run.length ∧ Touches x y := by
  rcases h with ⟨x, run, y, rfl, hrun, hle, hlt, rfl | rfl⟩ |
    ⟨j, rfl, x, run, y, rfl, hrun, hle, hlt, rfl | rfl⟩
  · exact ⟨[], run, y ++ ':' :: stop, by simp, hrun, hle, hlt, .openBracket _⟩
  · have hx : ':' ∉ x := fun hmem => hcolon (List.mem_append_left _ hmem)
    exact ⟨x, run, ':' :: stop, by simp, hrun, hle, hlt, .beforeColon hx stop⟩
  · refine ⟨start ++ [':'], run, y, by simp, hrun, ?_, ?_,
      .behindColon hcolon y⟩
    all_goals simp only [List.length_append, List.length_singleton,
      List.length_nil] at hlt ⊢; omega
  · refine ⟨start ++ ':' :: x, run, [], by simp, hrun, ?_, ?_, .closeBracket _⟩
    all_goals simp only [List.length_append,
      List.length_cons] at hle hlt ⊢; omega

/-- The loose blanks of a slice stand at the ends of its bounds. -/
theorem loose_text_iff (s : Slice) (i : Nat) :
    Loose s.text i ↔ ∃ j, i = s.name.length + 1 + j ∧
      (AtEdge s.start j ∨ ∃ k, j = s.start.length + (1 + k) ∧
        AtEdge s.stop k) := by
  constructor
  · rintro ⟨name, x, run, y, htext, hword, hrun, hle, hlt, htouches⟩
    obtain ⟨hname, htail⟩ := run_unique s.isName.word hword (by decide)
      (by decide) htext
    have hinner : (s.start ++ ':' :: s.stop) ++ [']'] =
        (x ++ (run ++ y)) ++ [']'] := by
      simpa using (List.cons.inj htail).2
    rw [← hname] at hle hlt
    refine ⟨i - s.name.length - 1, by omega, ?_⟩
    exact htouches.atEdge hrun s.bounds.colon_not_mem
      (List.append_cancel_right hinner) (by omega) (by omega)
  · rintro ⟨j, rfl, hj⟩
    obtain ⟨x, run, y, htext, hrun, hle, hlt, htouches⟩ :=
      exists_touches s.bounds.colon_not_mem hj
    refine ⟨s.name, x, run, y, ?_, s.isName.word, hrun, by omega,
      by omega, htouches⟩
    have hinner := congrArg (· ++ [']']) htext
    simp only [List.append_assoc, List.cons_append] at hinner
    rw [text, bracketed, hinner]

theorem thins_text (s : Slice) :
    Thins (Loose s.text) s.text s.trimmed.text := by
  have hstop : Thins (AtEdge s.stop) (s.stop ++ [']']) (s.stop.trim ++ [']']) :=
    ((thins_trim s.stop).append (thins_none [']'])).congr fun i => by simp
  have hbounds :=
    ((thins_trim s.start).append (hstop.append_left [':'])).append_left
    (s.name ++ ['['])
  have htext : ∀ start stop : Text, (s.name ++ ['[']) ++
      (start ++ ([':'] ++ (stop ++ [']']))) =
      s.name ++ bracketed start stop := by
    intro start stop
    simp [bracketed]
  rw [htext, htext] at hbounds
  refine hbounds.congr fun i => ?_
  rw [loose_text_iff, List.length_append, List.length_singleton]
  refine exists_congr fun j => and_congr_right fun _ => or_congr_right ?_
  constructor
  · rintro ⟨_, rfl, k, rfl, hk⟩
    exact ⟨k, rfl, hk⟩
  · rintro ⟨k, rfl, hk⟩
    exact ⟨1 + k, rfl, k, rfl, hk⟩

theorem filter_text (s : Slice) :
    s.trimmed.text.filter (!isBlank ·) = s.text.filter (!isBlank ·) := by
  simp only [text, trimmed, bracketed, List.filter_append, List.filter_cons,
    filter_trim]

section Replaced

variable {before : Option Char} {m : Match} {rest : Text}
    (h : Idiom.slicePattern.Reads before m.text rest m.groups)
include h

theorem thins_replaceSlice :
    Thins (Loose m.text) m.text (Target.go.replaceSlice m) := by
  obtain ⟨s, htext, hs⟩ := of_reads h
  rw [hs, htext]
  exact s.thins_text

theorem filter_replaceSlice :
    (Target.go.replaceSlice m).filter (!isBlank ·) =
      m.text.filter (!isBlank ·) := by
  obtain ⟨s, htext, hs⟩ := of_reads h
  rw [hs, htext, s.filter_text]

end Replaced

end Slice

/-! ## Nothing is left to trim -/

section Tight

variable {before : Option Char} {t : Text} {ss : List Segment}

/-- Behind `before`, every slice of the text has its blanks trimmed. -/
def Tight (before : Option Char) (t : Text) : Prop :=
  ∀ pre start stop rest : Text, Bounds start stop →
    (lastOr before pre).any isWord = true →
    t = pre ++ (bracketed start stop ++ rest) → start.trim = start ∧
    stop.trim = stop

/-- Where the scan has come into a word, it is not the name of a slice. -/
def Passed (before : Option Char) (t : Text) : Prop :=
  before.any isWord = true → ∀ w start stop rest :
    Text, (∀ c ∈ w, isWord c = true) → Bounds start stop →
    t ≠ w ++ (bracketed start stop ++ rest)

theorem Passed.gap {c : Char} {cs : Text} (h : Passed before (c :: cs))
    (hnone : Idiom.slicePattern.matchAt before (c :: cs) = none) :
    Passed (some c) cs := by
  intro hc w start stop rest hw hbounds hcs
  have hname : ∀ d ∈ c :: w, isWord d = true :=
    List.forall_mem_cons.mpr ⟨by simpa using hc, hw⟩
  cases hbefore : before.any isWord with
  | true => exact h hbefore _ _ _ _ hname hbounds (by rw [hcs]; rfl)
  | false =>
      -- the name starts here
      have hread := Slice.reads ⟨c :: w, start, stop, ⟨by simp, hname⟩, hbounds⟩
        hbefore rest
      have htext : c :: cs = ((c :: w) ++ bracketed start stop) ++ rest := by
        rw [hcs, List.append_assoc]; rfl
      have hsome :
          (Idiom.slicePattern.matchAt before (c :: cs)).isSome = true :=
        isSome_matchAt_iff.mpr ⟨_, rest, _, htext, by simp, hread⟩
      rw [hnone] at hsome
      exact Bool.noConfusion hsome

/-- What stands before the first bracket of the new text, if it closes, was
there before. -/
theorem exists_before_close (h : Idiom.slicePattern.Divides before t ss)
    {z rest : Text} (hz : ∀ c ∈ z, (c != '[' && c != ']') = true)
    (hout : ss.flatMap (·.replaced Target.go.replaceSlice) = z ++ ']' :: rest) :
    ∃ rest', t = z ++ ']' :: rest' := by
  induction h generalizing z with
  | nil => simp at hout
  | @gap before c cs ss _ tail ih =>
      cases z with
      | nil =>
          obtain rfl : c = ']' := (List.cons.inj hout).1
          exact ⟨cs, rfl⟩
      | cons d z =>
          obtain ⟨rfl, htail⟩ := List.cons.inj hout
          obtain ⟨rest', rfl⟩ := ih (List.forall_mem_cons.mp hz).2 htail
          exact ⟨rest', rfl⟩
  | @hit before m rest ss _ read tail ih =>
      obtain ⟨s, -, hs⟩ := Slice.of_reads read
      have hname := unbracketed_of_forall s.isName.word (by decide) (by decide)
      rw [List.flatMap_cons, Segment.replaced_hit, hs, Slice.text,
        List.append_assoc] at hout
      obtain ⟨-, hbracket⟩ := run_unique hname hz (by decide) (by decide) hout
      exact absurd (List.cons.inj hbracket).1 (by decide)

/-- The new text has no slice with blanks to trim. -/
theorem tight_replaced (h : Idiom.slicePattern.Divides before t ss)
    (hpassed : Passed before t) :
    Tight before (ss.flatMap (·.replaced Target.go.replaceSlice)) := by
  induction h with
  | nil =>
      intro pre start stop rest _ _ hout
      simp [bracketed] at hout
  | @gap before c cs ss hnone tail ih =>
      intro pre start stop rest hbounds hword hout
      cases pre with
      | cons d pre =>
          obtain ⟨rfl, htail⟩ := List.cons.inj hout
          exact ih (hpassed.gap hnone) _ _ _ _ hbounds hword htail
      | nil =>
          -- the brackets were there before, behind a name
          obtain ⟨rfl, htail⟩ := List.cons.inj hout
          have hinner : (start ++ ':' :: (stop ++ [']'])) ++ rest =
              (start ++ ':' :: stop) ++ ']' :: rest := by simp
          obtain ⟨rest', rfl⟩ := exists_before_close tail hbounds.unbracketed
            (htail.trans hinner)
          have hsame : '[' :: ((start ++ ':' :: stop) ++ ']' :: rest') =
              [] ++ (bracketed start stop ++ rest') := by
            simp [bracketed]
          exact absurd hsame (hpassed hword _ _ _ _ (by simp) hbounds)
  | @hit before m rest ss _ read tail ih =>
      intro pre start stop rest' hbounds hword hout
      obtain ⟨s, htext, hs⟩ := Slice.of_reads read
      rw [htext, s.lastOr_text] at ih
      rw [List.flatMap_cons, Segment.replaced_hit, hs] at hout
      rcases place_in_append hout.symm with ⟨z, hz, -⟩ | ⟨y, rfl, hy⟩
      · -- the brackets are those of the replacement
        obtain rfl := s.trimmed.eq_name_of_open hz
        rw [Slice.text, List.append_assoc] at hout
        obtain ⟨rfl, rfl⟩ :=
          s.bounds.trim.unique hbounds (List.append_cancel_left hout)
        exact ⟨trim_trim s.start, trim_trim s.stop⟩
      · rw [lastOr_append, s.trimmed.lastOr_text] at hword
        exact ih (fun hnone => absurd hnone (by decide))
          _ _ _ _ hbounds hword hy

theorem Slice.lastOr_name (s : Slice) (before : Option Char) :
    (lastOr before s.name).any isWord = true := by
  obtain ⟨front, c, hname⟩ :=
    (List.eq_nil_or_concat s.name).resolve_left s.isName.ne_nil
  rw [List.concat_eq_append] at hname
  rw [hname, lastOr_append]
  exact s.isName.word c (by simp [hname])

/-- Slices without blanks to trim stay as they are. -/
theorem Tight.substitute_eq (h : Tight none t) :
    Idiom.slicePattern.substitute Target.go.replaceSlice t = t := by
  apply substitute_eq_of_matches
  intro m hm
  obtain ⟨pre, rest, ht, hread⟩ := reads_of_mem_matchesIn hm
  obtain ⟨s, htext, hs⟩ := Slice.of_reads hread
  have hplace : t = (pre ++ s.name) ++ (bracketed s.start s.stop ++ rest) := by
    rw [ht, htext, Slice.text]
    simp
  obtain ⟨hstart, hstop⟩ :=
    h _ _ _ _ s.bounds (by rw [lastOr_append]; exact s.lastOr_name _) hplace
  rw [hs, htext]
  show s.name ++ bracketed s.start.trim s.stop.trim =
    s.name ++ bracketed s.start s.stop
  rw [hstart, hstop]

end Tight

/-! ## The rule -/

namespace Target

/-- The rule for slices. -/
def sliceRule (t : Target) : Rule :=
  .replacing "slice" Idiom.slice.pattern fun _ => t.replaceSlice

theorem sliceRule_mem (t : Target) : t.sliceRule ∈ t.rules := by
  simp only [rules, sliceRule, List.mem_append, List.mem_cons, true_or, or_true]

/-- The place is a loose one of a slice that the scan comes upon. -/
def LooseIn (text : Text) (i : Nat) : Prop :=
  ∃ o ∈ Idiom.slice.pattern.occurrences text, ∃ j, i = o.1 + j ∧
    Slice.Loose o.2.text j

/-- **Slices in Go.** The rule for slices leaves out the blanks of each slice
that stand, between its brackets, in a run of blanks which touches one of them
or the first colon, and it leaves out nothing else. So both texts are the same
but for their blanks, and the rule changes nothing when it runs again. -/
theorem slice_rule_thins (ctx : Context) (text : Text) :
    ∀ r ∈ go.rules, r.name = "slice".toList →
      Thins (LooseIn text) text (r.apply ctx text) ∧
      (r.apply ctx text).filter (!isBlank ·) = text.filter (!isBlank ·) ∧
      r.apply ctx (r.apply ctx text) = r.apply ctx text := by
  intro r hr hname
  obtain rfl := eq_of_name hr go.sliceRule_mem hname
  have hdivides := Idiom.slicePattern.divides_segments text
  refine ⟨thins_substitute Slice.thins_replaceSlice text,
    hdivides.filter_replaced Slice.filter_replaceSlice, ?_⟩
  -- nothing stands before the text, so the scan has not come into a word
  have hpassed : Passed none text := fun hword => absurd hword (by decide)
  exact (tight_replaced hdivides hpassed).substitute_eq

/-- A slice within brackets, and one over two lines whose step keeps its
blanks. -/
theorem slice_rule_thins_step :
    go.sliceRule ∈ go.rules ∧
    go.sliceRule.apply .empty "m[ xs[ i :] ] + ys[a\n: b : c ]" =
      "m[ xs[i:] ] + ys[a:b : c]".toList ∧
    Thins (LooseIn "m[ xs[ i :] ] + ys[a\n: b : c ]")
      "m[ xs[ i :] ] + ys[a\n: b : c ]" "m[ xs[i:] ] + ys[a:b : c]" ∧
    go.sliceRule.apply .empty "m[ xs[i:] ] + ys[a:b : c]" =
      "m[ xs[i:] ] + ys[a:b : c]".toList := by
  have hout : go.sliceRule.apply .empty "m[ xs[ i :] ] + ys[a\n: b : c ]" =
      "m[ xs[i:] ] + ys[a:b : c]".toList := by
    decide +kernel
  obtain ⟨hthins, -, hagain⟩ :=
    slice_rule_thins .empty "m[ xs[ i :] ] + ys[a\n: b : c ]" go.sliceRule
      go.sliceRule_mem rfl
  rw [hout] at hthins hagain
  exact ⟨go.sliceRule_mem, hout, hthins, hagain⟩

end Target

end Recast
