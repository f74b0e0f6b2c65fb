import Mathlib.Data.List.Basic
import Recast.Proofs.Pattern.Reading
import Recast.Proofs.Text.Layout

/-!
# Patterns within separators

A pattern whose conditions cannot tell a separator from the edge of the text
matches at a place as if the text began after the last separator
(`matchAt_after_sep`), and as if it ended at the next one, unless some reading
runs past it (`matchAt_append_of_stop`). If it takes no separator either, it
matches inside one field of a text or not at all. Whether it is found then
depends on the fields alone, and, where the separators are the blanks, on the
words alone (`foundIn_words`).
-/

namespace Recast

/-- The condition cannot tell a separator from the edge of the text. -/
def Anchor.Blind (sep : Char → Bool) (a : Anchor) : Prop :=
  ∀ c, sep c = true →
    (∀ rest, a.holds (some c) rest = a.holds none rest) ∧
    (∀ before rest tail, a.holds before (rest ++ c :: tail) =
      a.holds before rest)

theorem Anchor.blind_wordEdge {sep : Char → Bool}
    (h : ∀ c, sep c = true → isWord c = false) :
    Anchor.wordEdge.Blind sep := by
  intro c hc
  refine ⟨fun rest => by simp [Anchor.holds, h c hc],
    fun before rest tail => ?_⟩
  cases rest with
  | nil => simp [Anchor.holds, h c hc]
  | cons d rest => rfl

theorem Anchor.blind_notNext {sep ok : Char → Bool}
    (h : ∀ c, sep c = true → ok c = false) :
    (Anchor.notNext ok).Blind sep := by
  intro c hc
  refine ⟨fun rest => rfl, fun before rest tail => ?_⟩
  cases rest with
  | nil => simp [Anchor.holds, h c hc]
  | cons d rest => rfl

namespace Cursor

/-- The place in front of a longer text. -/
def extend (tail : Text) (o : Cursor) : Cursor :=
  { o with rest := o.rest ++ tail }

/-- The place with a separator before it forgotten. -/
def forget (sep : Char → Bool) (o : Cursor) : Cursor :=
  { o with before := o.before.filter fun c => !sep c }

/-- The text after the place is at least as long as `tail`. -/
def clears (tail : Text) (o : Cursor) : Bool :=
  decide (tail.length ≤ o.rest.length)

theorem clears_extend (tail : Text) (o : Cursor) :
    (o.extend tail).clears tail = true := by
  simp [clears, extend]

end Cursor

namespace Pattern

/-- The conditions of the pattern cannot tell a separator from the edge of the
text. -/
def Blind (sep : Char → Bool) : Pattern → Prop
  | empty | one _ | many _ _ => True
  | anchor a => a.Blind sep
  | seq p q | either p q => p.Blind sep ∧ q.Blind sep
  | group p => p.Blind sep

/-- The pattern takes no separator and cannot tell one from the edge of the
text. -/
def Within (sep : Char → Bool) : Pattern → Prop
  | empty => True
  | one ok | many _ ok => ∀ c, sep c = true → ok c = false
  | anchor a => a.Blind sep
  | seq p q | either p q => p.Within sep ∧ q.Within sep
  | group p => p.Within sep

theorem within_literal {sep : Char → Bool} {s : Text} (h : s.any sep = false) :
    (literal s).Within sep := by
  induction s with
  | nil => trivial
  | cons c s ih =>
      rw [List.any_cons, Bool.or_eq_false_iff] at h
      refine ⟨?_, ih h.2⟩
      intro d hd
      have hne : d ≠ c := by
        rintro rfl
        rw [h.1] at hd
        exact Bool.noConfusion hd
      simpa using hne

theorem Within.blind {sep : Char → Bool} {p : Pattern} (h : p.Within sep) :
    p.Blind sep := by
  induction p with
  | empty | one | many => trivial
  | anchor => exact h
  | seq _ _ ihp ihq | either _ _ ihp ihq => exact ⟨ihp h.1, ihq h.2⟩
  | group _ ih => exact ih h

theorem Reads.not_sep {p : Pattern} {sep : Char → Bool} {before : Option Char}
    {u rest : Text} {gs : List (Option Text)} (h : p.Reads before u rest gs)
    (hp : p.Within sep) :
    ∀ c ∈ u, sep c = false := by
  have hclass : ∀ {ok : Char → Bool}, (∀ c, sep c = true → ok c = false) →
      ∀ c, ok c = true → sep c = false := by
    intro ok hsep c hc
    cases hs : sep c with
    | false => rfl
    | true => rw [hsep c hs] at hc; exact Bool.noConfusion hc
  induction h with
  | empty | anchor => simp
  | one hc => simpa using hclass hp _ hc
  | many hu => exact fun c hc => hclass hp c (hu c hc)
  | seq _ _ ihp ihq =>
      intro c hc
      rcases List.mem_append.mp hc with hc | hc
      · exact ihp hp.1 c hc
      · exact ihq hp.2 c hc
  | left _ ih => exact ih hp.1
  | right _ ih => exact ih hp.2
  | group _ ih => exact ih hp

/-! ## In front of a separator -/

theorem filter_flatMap_of_filter {α γ : Type} {f : α → List γ} {keep : α → Bool}
    {want : γ → Bool} {as : List α}
    (h : ∀ a ∈ as, keep a = false → (f a).filter want = []) :
    (as.flatMap f).filter want = (as.filter keep).flatMap fun a =>
      (f a).filter want := by
  induction as with
  | nil => rfl
  | cons a as ih =>
      have htail := ih fun b hb => h b (List.mem_cons_of_mem a hb)
      rw [List.flatMap_cons, List.filter_append, htail, List.filter_cons]
      cases ha : keep a with
      | true => rfl
      | false => rw [h a List.mem_cons_self ha]; rfl

theorem filter_clears_manyEnds (preference : Preference) (ok : Char → Bool)
    (c : Char) (v : Text) (passed : Nat) (before : Option Char) (u : Text) :
    (manyEnds preference ok passed before (u ++ c :: v)).filter
      (·.clears (c :: v)) =
      (manyEnds preference ok passed before u).map
        (Cursor.extend (c :: v)) := by
  induction u generalizing passed before with
  | nil =>
      have hhere : Cursor.clears (c :: v) ⟨passed, before, c :: v⟩ = true := by
        simp [Cursor.clears]
      have hbeyond : (manyEnds preference ok (passed + 1) (some c) v).filter
          (·.clears (c :: v)) = [] := by
        rw [List.filter_eq_nil_iff]
        intro o ho
        obtain ⟨w, rest, rfl, -, rfl⟩ := mem_manyEnds_iff.mp ho
        simp only [Cursor.clears, List.length_cons, List.length_append,
          decide_eq_true_eq]
        omega
      by_cases hok : ok c = true
      · cases preference with
        | longest => simp [manyEnds, hok, hbeyond, hhere, Cursor.extend]
        | shortest => simp [manyEnds, hok, hbeyond, hhere, Cursor.extend]
      · simp [manyEnds, hok, hhere, Cursor.extend]
  | cons d u ih =>
      have hhere :
          Cursor.clears (c :: v) ⟨passed, before, d :: (u ++ c :: v)⟩ = true :=
        Cursor.clears_extend (c :: v) ⟨passed, before, d :: u⟩
      by_cases hok : ok d = true
      · cases preference with
        | longest => simp [manyEnds, hok, ih, hhere, Cursor.extend]
        | shortest => simp [manyEnds, hok, ih, hhere, Cursor.extend]
      · simp [manyEnds, hok, hhere, Cursor.extend]

/-- The ways of matching that end in front of a separator are the ways of
matching if the text ends there. -/
theorem filter_clears_outcomes {p : Pattern} {sep : Char → Bool}
    (hp : p.Blind sep) {c : Char} (hc : sep c = true) (v : Text)
    (here : Cursor) :
    (p.outcomes (here.extend (c :: v))).filter (·.1.clears (c :: v)) =
      (p.outcomes here).map fun o => (o.1.extend (c :: v), o.2) := by
  induction p generalizing here with
  | empty => simp [outcomes, Cursor.clears_extend]
  | one ok =>
      obtain ⟨passed, before, rest⟩ := here
      cases rest with
      | nil =>
          simp only [outcomes, Cursor.extend, List.nil_append]
          split
          · simp [Cursor.clears]
          · rfl
      | cons d rest =>
          simp only [outcomes, Cursor.extend, List.cons_append]
          split
          · exact List.filter_cons_of_pos (Cursor.clears_extend (c :: v)
              ⟨passed + 1, some d, rest⟩)
          · rfl
  | many preference ok =>
      have h := filter_clears_manyEnds preference ok c v here.passed
        here.before here.rest
      simp only [outcomes, Cursor.extend, List.filter_map,
        Function.comp_def] at h ⊢
      rw [h, List.map_map, List.map_map]
      rfl
  | anchor a =>
      have hold := (hp c hc).2 here.before here.rest v
      simp only [outcomes, Cursor.extend, hold]
      split
      · exact List.filter_cons_of_pos (Cursor.clears_extend (c :: v) here)
      · rfl
  | seq p q ihp ihq =>
      have hbeyond : ∀ o ∈ p.outcomes (here.extend (c :: v)),
          o.1.clears (c :: v) = false →
          (((q.outcomes o.1).map fun r => (r.1, o.2 ++ r.2)).filter
            (·.1.clears (c :: v))) = [] := by
        intro o _ ho
        rw [List.filter_eq_nil_iff]
        intro r hr
        obtain ⟨e, he, rfl⟩ := List.mem_map.mp hr
        obtain ⟨w, hw, -⟩ := reads_of_mem_outcomes he
        simp only [Cursor.clears, hw, List.length_append,
          decide_eq_false_iff_not, decide_eq_true_eq] at ho ⊢
        omega
      calc ((p ++ q).outcomes (here.extend (c :: v))).filter
            (·.1.clears (c :: v))
          = ((p.outcomes (here.extend (c :: v))).filter
            (·.1.clears (c :: v))).flatMap fun o =>
              ((q.outcomes o.1).map fun r => (r.1, o.2 ++ r.2)).filter
                (·.1.clears (c :: v)) :=
            filter_flatMap_of_filter hbeyond
        _ = (p.outcomes here).flatMap fun o =>
              (q.outcomes o.1).map fun r =>
                (r.1.extend (c :: v), o.2 ++ r.2) := by
            rw [ihp hp.1, List.flatMap_map]
            simp only [List.filter_map, Function.comp_def, ihq hp.2,
              List.map_map]
        _ = ((p ++ q).outcomes here).map fun o =>
          (o.1.extend (c :: v), o.2) := by
            show _ = (List.flatMap _ _).map _
            rw [List.map_flatMap]
            simp only [List.map_map, Function.comp_def]
  | either p q ihp ihq =>
      simp only [outcomes, List.filter_append, List.filter_map,
        Function.comp_def, List.map_append, List.map_map]
      rw [ihp hp.1, ihq hp.2]
      simp [List.map_map, Function.comp_def]
  | group p ih =>
      simp only [outcomes, List.filter_map, Function.comp_def, List.map_map]
      rw [ih hp]
      simp only [List.map_map]
      rfl

/-- A match at a place is the same if the text ends at a separator that no
reading from the place reaches. -/
theorem matchAt_append_of_stop {p : Pattern} {sep : Char → Bool}
    (hp : p.Blind sep) {c : Char} (hc : sep c = true) {before : Option Char}
    {u v : Text}
    (hstop : ∀ w rest gs, v = w ++ rest →
      ¬ p.Reads before (u ++ c :: w) rest gs) :
    p.matchAt before (u ++ c :: v) = p.matchAt before u := by
  have hclear : ∀ o ∈ p.outcomes ⟨0, before, u ++ c :: v⟩,
      o.1.clears (c :: v) = true := by
    intro o ho
    obtain ⟨w, hw, -, -, hread⟩ := reads_of_mem_outcomes ho
    rcases List.append_eq_append_iff.mp hw with ⟨x, rfl, hx⟩ | ⟨x, -, hx⟩
    · cases x with
      | nil =>
          rw [List.nil_append] at hx
          simp [Cursor.clears, ← hx]
      | cons d x =>
          obtain ⟨rfl, hv⟩ := List.cons.inj hx
          exact absurd (hread [] [] rfl) (hstop x o.1.rest _ hv)
    · simp [Cursor.clears, hx]
  have hout := filter_clears_outcomes hp hc v ⟨0, before, u⟩
  simp only [Cursor.extend] at hout
  rw [List.filter_eq_self.mpr hclear] at hout
  rw [matchAt, matchAt, run_eq_findSome?, run_eq_findSome?, hout,
    List.findSome?_map, ← List.head?_filterMap, ← List.head?_filterMap]
  congr 1
  apply List.filterMap_congr
  intro o ho
  -- every end lies in `u`, so the text of the match is the same
  obtain ⟨w, hw, hpassed, -, -⟩ := reads_of_mem_outcomes ho
  simp only [Nat.zero_add] at hw hpassed
  have htake : (u ++ c :: v).take o.1.passed = u.take o.1.passed := by
    apply List.take_append_of_le_length
    rw [hpassed, hw]
    simp
  simp only [Function.comp_apply, htake]

/-- A match at a place is the same if the text ends at the separator. -/
theorem matchAt_append_sep {p : Pattern} {sep : Char → Bool} (hp : p.Within sep)
    {c : Char} (hc : sep c = true) (before : Option Char) (u v : Text) :
    p.matchAt before (u ++ c :: v) = p.matchAt before u := by
  apply matchAt_append_of_stop hp.blind hc
  intro w rest gs _ hread
  have hnot := hread.not_sep hp c (by simp)
  rw [hc] at hnot
  exact Bool.noConfusion hnot

/-! ## After a separator -/

theorem map_forget_manyEnds (preference : Preference) (ok sep : Char → Bool)
    (passed : Nat) (before : Option Char) (t : Text) :
    (manyEnds preference ok passed (before.filter fun c => !sep c) t).map
      (Cursor.forget sep) =
      (manyEnds preference ok passed before t).map (Cursor.forget sep) := by
  cases t with
  | nil => simp [manyEnds, Cursor.forget]
  | cons c t =>
      by_cases hc : ok c = true
      · cases preference with
        | longest => simp [manyEnds, hc, Cursor.forget]
        | shortest => simp [manyEnds, hc, Cursor.forget]
      · simp [manyEnds, hc, Cursor.forget]

/-- Up to separators before the ends, the ways of matching are the same if the
text begins after the separator. -/
theorem map_forget_outcomes {p : Pattern} {sep : Char → Bool} (hp : p.Blind sep)
    (here : Cursor) :
    (p.outcomes (here.forget sep)).map (fun o => (o.1.forget sep, o.2)) =
      (p.outcomes here).map fun o => (o.1.forget sep, o.2) := by
  induction p generalizing here with
  | empty => simp [outcomes, Cursor.forget]
  | one ok =>
      obtain ⟨passed, before, rest⟩ := here
      cases rest <;> rfl
  | many preference ok =>
      have h :=
        map_forget_manyEnds preference ok sep here.passed here.before here.rest
      have hpair :=
        congrArg (List.map fun e : Cursor => (e, ([] : List (Option Span)))) h
      simp only [outcomes, List.map_map] at hpair ⊢
      exact hpair
  | anchor a =>
      obtain ⟨passed, before, rest⟩ := here
      have hold : a.holds (before.filter fun c => !sep c) rest =
          a.holds before rest := by
        cases before with
        | none => rfl
        | some c =>
            cases hc : sep c with
            | false => simp [Option.filter_some, hc]
            | true =>
                rw [Option.filter_some, hc]
                exact ((hp c hc).1 rest).symm
      simp only [outcomes, Cursor.forget, hold]
      split <;> simp
  | seq p q ihp ihq =>
      -- what follows an end of `p` does not depend on a separator before it
      have hnext : ∀ o : Cursor × List (Option Span),
          ((q.outcomes o.1).map fun r => (r.1, o.2 ++ r.2)).map
            (fun r => (r.1.forget sep, r.2)) =
            ((q.outcomes (o.1.forget sep)).map fun r => (r.1, o.2 ++ r.2)).map
              fun r => (r.1.forget sep, r.2) := by
        intro o
        have h := congrArg (List.map fun r : Cursor × List (Option Span) =>
          (r.1, o.2 ++ r.2))
          (ihq hp.2 o.1)
        simp only [List.map_map] at h ⊢
        exact h.symm
      have hcut : ∀ os : List (Cursor × List (Option Span)),
          (os.flatMap fun o => (q.outcomes o.1).map fun r =>
            (r.1, o.2 ++ r.2)).map
              (fun r => (r.1.forget sep, r.2)) =
            (os.map fun o => (o.1.forget sep, o.2)).flatMap fun o =>
              ((q.outcomes o.1).map fun r => (r.1, o.2 ++ r.2)).map fun r =>
                (r.1.forget sep, r.2) := by
        intro os
        rw [List.map_flatMap, List.flatMap_map]
        simp only [hnext]
      rw [outcomes, outcomes, hcut, hcut, ihp hp.1]
  | either p q ihp ihq =>
      have hl := congrArg (List.map fun o : Cursor × List (Option Span) =>
        (o.1, o.2 ++ List.replicate q.groupCount none)) (ihp hp.1 here)
      have hr := congrArg (List.map fun o : Cursor × List (Option Span) =>
        (o.1, List.replicate p.groupCount none ++ o.2)) (ihq hp.2 here)
      simp only [outcomes, List.map_append, List.map_map] at hl hr ⊢
      exact congrArg₂ (· ++ ·) hl hr
  | group p ih =>
      have h := congrArg (List.map fun o : Cursor × List (Option Span) =>
        (o.1, some (Span.mk here.passed o.1.passed) :: o.2)) (ih hp here)
      simp only [outcomes, List.map_map] at h ⊢
      exact h

/-- A match at a place is the same if the text begins after the separator. -/
theorem matchAt_after_sep {p : Pattern} {sep : Char → Bool} (hp : p.Blind sep)
    {c : Char} (hc : sep c = true) (t : Text) :
    p.matchAt (some c) t = p.matchAt none t := by
  have hout := map_forget_outcomes hp ⟨0, some c, t⟩
  have hforget : Cursor.forget sep ⟨0, some c, t⟩ = ⟨0, none, t⟩ := by
    simp [Cursor.forget, Option.filter_some, hc]
  -- the match is read off the ends without regard to the characters before them
  have hread : ∀ os : List (Cursor × List (Option Span)),
      os.findSome? (fun o =>
        if o.1.passed = 0 then none
        else some (Match.mk (t.take o.1.passed) o.2)) =
        (os.map fun o => (o.1.forget sep, o.2)).findSome? fun o =>
          if o.1.passed = 0 then none
          else some (Match.mk (t.take o.1.passed) o.2) := by
    intro os
    rw [List.findSome?_map]
    rfl
  rw [hforget] at hout
  rw [matchAt, matchAt, run_eq_findSome?, run_eq_findSome?,
    hread (p.outcomes ⟨0, some c, t⟩), hread (p.outcomes ⟨0, none, t⟩), hout]

/-! ## Finding a pattern in fields -/

theorem foundFrom_after_sep {p : Pattern} {sep : Char → Bool}
    (hp : p.Within sep) {c : Char} (hc : sep c = true) (t : Text) :
    p.foundFrom (some c) t = p.foundIn t := by
  cases t with
  | nil => rfl
  | cons d t =>
      rw [foundIn, foundFrom, foundFrom, matchAt_after_sep hp.blind hc]

theorem foundFrom_append_sep {p : Pattern} {sep : Char → Bool}
    (hp : p.Within sep) {c : Char} (hc : sep c = true) (before : Option Char)
    (u v : Text) :
    p.foundFrom before (u ++ c :: v) =
      (p.foundFrom before u || p.foundIn v) := by
  induction u generalizing before with
  | nil =>
      have hnone : (p.matchAt before (c :: v)).isSome = false := by
        have h := matchAt_append_sep hp hc before [] v
        rw [List.nil_append] at h
        cases hm : p.matchAt before [] with
        | none => rw [h, hm]; rfl
        | some m =>
            obtain ⟨rest, ht, hne, -⟩ := matchAt_reads hm
            exact absurd (List.append_eq_nil_iff.mp ht.symm).1 hne
      rw [List.nil_append, foundFrom, foundFrom, hnone, Bool.false_or,
        Bool.false_or]
      exact foundFrom_after_sep hp hc v
  | cons d u ih =>
      have hsame := matchAt_append_sep hp hc before (d :: u) v
      rw [List.cons_append] at hsame ⊢
      rw [foundFrom, foundFrom, hsame, ih, Bool.or_assoc]

theorem foundIn_append_sep {p : Pattern} {sep : Char → Bool} (hp : p.Within sep)
    {c : Char} (hc : sep c = true) (u v : Text) :
    p.foundIn (u ++ c :: v) = (p.foundIn u || p.foundIn v) :=
  foundFrom_append_sep hp hc none u v

/-- The pattern is found in a text exactly if it is found in one of its
fields. -/
theorem foundIn_fieldsBy {p : Pattern} {sep : Char → Bool} (hp : p.Within sep)
    (t : Text) :
    p.foundIn t = (Text.fieldsBy sep t).any p.foundIn := by
  induction h : t.length using Nat.strongRecOn generalizing t with
  | ind n ih =>
      by_cases hsep : ∃ c ∈ t, sep c = true
      · obtain ⟨c, hmem, hc⟩ := hsep
        obtain ⟨u, v, rfl⟩ := List.append_of_mem hmem
        subst h
        rw [foundIn_append_sep hp hc, Text.fieldsBy_append_cons hc,
          List.any_append, ih _ (by simp) u rfl, ih _ (by simp; omega) v rfl]
      · have hnone : ∀ c ∈ t, sep c = false := by
          intro c hc
          cases hs : sep c with
          | false => rfl
          | true => exact absurd ⟨c, hc, hs⟩ hsep
        rw [Text.fieldsBy_eq_singleton hnone]
        simp

/-- A pattern without blanks is found in a text exactly if it is found in one of
its words. -/
theorem foundIn_words {p : Pattern} (hp : p.Within isBlank) (t : Text) :
    p.foundIn t = t.words.any p.foundIn := by
  have hfilter : ∀ fs : List Text, (fs.filter (· ≠ [])).any p.foundIn =
      fs.any p.foundIn := by
    intro fs
    induction fs with
    | nil => rfl
    | cons f fs ih =>
        cases f with
        | nil => simpa [foundIn, foundFrom] using ih
        | cons c f =>
            rw [List.filter_cons_of_pos (by simp), List.any_cons,
              List.any_cons, ih]
  rw [Text.words, hfilter]
  exact foundIn_fieldsBy hp t

theorem foundIn_congr_words {p : Pattern} (hp : p.Within isBlank) {s t : Text}
    (h : s.words = t.words) : p.foundIn s = p.foundIn t := by
  rw [foundIn_words hp, h, ← foundIn_words hp]

/-! ## Literals -/

/-- Finding a literal is finding the text that it spells. -/
theorem foundIn_literal {s : Text} (hs : s ≠ []) (t : Text) :
    (literal s).foundIn t = t.mentions s := by
  rw [Bool.eq_iff_iff, foundIn_iff, Text.mentions_iff]
  constructor
  · rintro ⟨pre, u, rest, gs, rfl, -, hread⟩
    obtain ⟨rfl, -⟩ := reads_literal_iff.mp hread
    exact ⟨pre, rest, by simp⟩
  · rintro ⟨pre, rest, rfl⟩
    exact ⟨pre, s, rest, [], by simp, hs, reads_literal_iff.mpr ⟨rfl, rfl⟩⟩

theorem mentions_congr_words {needle : Text} (hne : needle ≠ [])
    (hblank : needle.any isBlank = false) {s t : Text} (h : s.words = t.words) :
    s.mentions needle = t.mentions needle := by
  rw [← foundIn_literal hne, ← foundIn_literal hne]
  exact foundIn_congr_words (within_literal hblank) h

/-- A text without separators is mentioned on one side of a separator or not at
all. -/
theorem mentions_append_sep {sep : Char → Bool} {s : Text} (hs : s ≠ [])
    (hsep : s.any sep = false) {c : Char} (hc : sep c = true) (u v : Text) :
    (u ++ c :: v).mentions s = (u.mentions s || v.mentions s) := by
  simp only [← foundIn_literal hs]
  exact foundIn_append_sep (within_literal hsep) hc u v

end Pattern

end Recast
