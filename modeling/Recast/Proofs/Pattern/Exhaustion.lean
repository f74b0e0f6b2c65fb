import Recast.Proofs.Rule.Comment

/-!
# Replacements that leave no match

A rewritten text is a row of characters that were kept and of replacements. A
reading of the pattern in it that starts at a kept character and stays among
kept characters is a reading of the old text, where the scan would have found
it. So nothing is left to match if no reading starts in a replacement and none
goes on into one. `Exhausts` says this of a pattern and its replacement, and
`Exhausts.foundIn_substitute` draws the conclusion for every text. Where nothing
is found, nothing is replaced (`substitute_of_foundIn`).
-/

namespace Recast

namespace Pattern

/-- The replacement leaves the pattern no room to match, be it within what is
put in the place of a match, across its edge or behind it. -/
structure Exhausts (p : Pattern) (f : Match → Text) : Prop where
  /-- What follows a reading does not matter to it. -/
  ahead : ∀ {before u rest gs}, p.Reads before u rest gs → u ≠ [] →
  ∀ rest', p.Reads before u rest' gs
  /-- What can be read behind a replacement can be read behind the match. -/
  behind : ∀ {m before rest before' u rest' gs},
  p.Reads before m.text rest m.groups → u ≠ [] →
    p.Reads (Text.lastOr before' (f m)) u rest' gs →
    p.Reads (Text.lastOr before m.text) u rest' gs
  /-- No reading starts in a replacement. -/
  inside : ∀ {m before rest before' pre x y u rest' gs},
  p.Reads before m.text rest m.groups → f m = pre ++ x →
    x ≠ [] → x ++ y = u ++ rest' →
    ¬ p.Reads (Text.lastOr before' pre) u rest' gs
  /-- No reading that starts before a replacement goes on into it. -/
  across : ∀ {m before rest before' w x y rest' gs},
  p.Reads before m.text rest m.groups → w ≠ [] →
    Text.lastOr before' w = before → x ≠ [] → f m ++ y = x ++ rest' →
    ¬ p.Reads before' (w ++ x) rest' gs

variable {p : Pattern} {f : Match → Text}

/-- A pattern is found in two texts put together only if a reading starts in the
first or it is found in the second. -/
theorem foundFrom_append_eq_false {before : Option Char} {a b : Text}
    (ha : ∀ pre x u rest gs, a = pre ++ x → x ≠ [] → x ++ b = u ++ rest →
      ¬ p.Reads (Text.lastOr before pre) u rest gs)
    (hb : p.foundFrom (Text.lastOr before a) b = false) :
    p.foundFrom before (a ++ b) = false := by
  rw [Bool.eq_false_iff, ne_eq, foundFrom_iff] at hb ⊢
  rintro ⟨pre, u, rest, gs, hplace, hne, hread⟩
  rcases List.append_eq_append_iff.mp hplace with ⟨z, rfl, hz⟩ | ⟨x, rfl, hx⟩
  · rw [Text.lastOr_append] at hread
    exact hb ⟨z, u, rest, gs, hz, hne, hread⟩
  · cases x with
    | nil =>
        rw [List.nil_append] at hx
        rw [List.append_nil] at hb
        exact hb ⟨[], u, rest, gs, hx.symm, hne, hread⟩
    | cons c x =>
        exact ha pre (c :: x) u rest gs rfl (List.cons_ne_nil c x) hx.symm hread

namespace Exhausts

variable (h : p.Exhausts f)
include h

/-- A reading that starts before a divided text takes only kept characters of
it, so it can be read in the old text. -/
theorem exists_kept {before : Option Char} {t : Text} {ss : List Segment}
    (hdivides : p.Divides before t ss) {before' : Option Char} {w x rest : Text}
    {gs : List (Option Text)} (hw : w ≠ [])
    (hlast : Text.lastOr before' w = before)
    (hread : p.Reads before' (w ++ x) rest gs)
    (hout : ss.flatMap (·.replaced f) = x ++ rest) :
    ∃ rest', t = x ++ rest' := by
  induction hdivides generalizing w x with
  | nil =>
      obtain ⟨rfl, -⟩ := List.append_eq_nil_iff.mp hout.symm
      exact ⟨[], rfl⟩
  | @gap before c cs ss hm tail ih =>
      cases x with
      | nil => exact ⟨c :: cs, rfl⟩
      | cons d x =>
          obtain ⟨rfl, htail⟩ := List.cons.inj hout
          have hnext : p.Reads before' (w ++ [c] ++ x) rest gs := by
            simpa using hread
          obtain ⟨rest', rfl⟩ := ih (by simp) (by simp) hnext htail
          exact ⟨rest', rfl⟩
  | @hit before m rest ss hm read tail ih =>
      cases x with
      | nil => exact ⟨m.text ++ rest, rfl⟩
      | cons d x =>
          exact absurd hread
            (h.across read hw hlast (List.cons_ne_nil d x) hout)

/-- The pattern is not found in the new text, where what can be read at its
start can be read at the start of the old one. -/
theorem foundFrom_replaced {before : Option Char} {t : Text} {ss : List Segment}
    (hdivides : p.Divides before t ss) {before' : Option Char}
    (hstart : ∀ {u rest gs}, u ≠ [] → p.Reads before' u rest gs →
      p.Reads before u rest gs) :
    p.foundFrom before' (ss.flatMap (·.replaced f)) = false := by
  induction hdivides generalizing before' with
  | nil => rfl
  | @gap before c cs ss hm tail ih =>
      have hhere : (p.matchAt before' (c :: ss.flatMap (·.replaced f))).isSome =
          false := by
        rw [Bool.eq_false_iff, ne_eq, isSome_matchAt_iff]
        rintro ⟨u, rest, gs, hu, hne, hread⟩
        obtain ⟨d, x, rfl⟩ := List.exists_cons_of_ne_nil hne
        obtain ⟨rfl, hout⟩ := List.cons.inj hu
        obtain ⟨rest', rfl⟩ :=
          h.exists_kept tail (w := [c]) (by simp) rfl hread hout
        -- the same characters stood there before, and the scan found nothing
        have hsome : (p.matchAt before (c :: (x ++ rest'))).isSome = true :=
          isSome_matchAt_iff.mpr ⟨c :: x, rest', gs, rfl, hne,
            h.ahead (hstart hne hread) hne rest'⟩
        rw [hm] at hsome
        exact Bool.noConfusion hsome
      show ((p.matchAt before' (c :: ss.flatMap (·.replaced f))).isSome ||
        p.foundFrom (some c) (ss.flatMap (·.replaced f))) = false
      rw [hhere, ih fun _ hread => hread]
      rfl
  | @hit before m rest ss hm read tail ih =>
      exact foundFrom_append_eq_false
        (fun pre x u rest' gs hpre hx hu => h.inside read hpre hx hu)
        (ih fun hne hread => h.behind read hne hread)

/-- Nothing is left to match. -/
theorem foundIn_substitute (t : Text) : p.foundIn (p.substitute f t) = false :=
  h.foundFrom_replaced (p.divides_segments t) fun _ hread => hread

end Exhausts

/-- A text in which the pattern is not found stays as it is. -/
theorem substitute_of_foundIn {t : Text} (h : p.foundIn t = false)
    (g : Match → Text) : p.substitute g t = t :=
  substituteFrom_eq_self h g

/-! ## Patterns with one condition in front -/

theorem holds_cons_congr {a : Anchor} (ha : a ≠ .textEnd) (before : Option Char)
    (c : Char) (t t' : Text) :
    a.holds before (c :: t) = a.holds before (c :: t') := by
  cases a with
  | textEnd => exact absurd rfl ha
  | textStart | lineStart | lineEnd | wordEdge | notNext => rfl

/-- A condition in front looks at one character at most, so what follows the
reading does not matter. -/
theorem Reads.ahead_of_front {a : Anchor} {q : Pattern} {before : Option Char}
    {u rest : Text} {gs : List (Option Text)}
    (h : (Pattern.anchor a ++ q).Reads before u rest gs) (ha : a ≠ .textEnd)
    (hq : q.unanchored = true) (hu : u ≠ []) (rest' : Text) :
    (Pattern.anchor a ++ q).Reads before u rest' gs := by
  obtain ⟨hholds, hread⟩ := reads_anchor_append.mp h
  obtain ⟨c, x, rfl⟩ := List.exists_cons_of_ne_nil hu
  refine reads_anchor_append.mpr ⟨?_, hread.elsewhere hq _ _⟩
  rw [List.cons_append, holds_cons_congr ha before c _ (x ++ rest)]
  exact hholds

/-- For a pattern that starts with a line it is enough that the replacement does
not end in a line feed, that none of its lines can be the start of a reading,
and that no reading goes on into it behind a line feed. -/
theorem exhausts_of_opensLine (hp : p.opensLine = true)
    (hahead : ∀ {before u rest gs}, p.Reads before u rest gs → u ≠ [] →
      ∀ rest', p.Reads before u rest' gs)
    (hlast : ∀ {m before rest}, p.Reads before m.text rest m.groups →
      ∃ c, (f m).getLast? = some c ∧ c ≠ '\n')
    (hlines : ∀ {m before rest}, p.Reads before m.text rest m.groups →
      ∀ l ∈ (f m).lines, ∀ {y before' u rest' gs}, l ++ y = u ++ rest' →
        ¬ p.Reads before' u rest' gs)
    (hacross : ∀ {m before rest}, p.Reads before m.text rest m.groups →
      ∀ {w x y before' rest' gs}, f m ++ y = x ++ rest' →
        ¬ p.Reads before' (w ++ '\n' :: x) rest' gs) :
    p.Exhausts f where
  ahead := hahead
  behind := by
    intro m before rest before' u rest' gs hm hu hread
    obtain ⟨c, hc, hne⟩ := hlast hm
    obtain ⟨front, hfront⟩ := List.getLast?_eq_some_iff.mp hc
    rw [hfront, Text.lastOr_append] at hread
    rcases hread.lineStart hp with hnone | hbreak
    · exact absurd hnone (by simp)
    · exact absurd (Option.some.inj hbreak) hne
  inside := by
    intro m before rest before' pre x y u rest' gs hm hpre hx hu hread
    have hstart : pre = [] ∨ pre.getLast? = some '\n' := by
      rcases List.eq_nil_or_concat pre with rfl | ⟨w, d, rfl⟩
      · exact Or.inl rfl
      · rw [List.concat_eq_append, Text.lastOr_append] at hread
        have hd : d = '\n' := by simpa using hread.lineStart hp
        exact Or.inr (by simp [hd])
    have hline : Text.before '\n' x ∈ (f m).lines :=
      hpre ▸ Text.before_mem_lines hstart
    refine hlines hm _ hline (y := x.dropWhile (· != '\n') ++ y) ?_ hread
    rw [← hu, ← List.append_assoc]
    exact congrArg (· ++ y) List.takeWhile_append_dropWhile
  across := by
    intro m before rest before' w x y rest' gs hm hw hlast' hx hy hread
    obtain ⟨v, d, rfl⟩ := (List.eq_nil_or_concat w).resolve_left hw
    rw [List.concat_eq_append, Text.lastOr_append] at hlast'
    have hd : d = '\n' := by
      rcases hm.lineStart hp with hnone | hbreak
      · exact absurd (hlast'.trans hnone) (by simp)
      · exact Option.some.inj (hlast'.trans hbreak)
    subst hd
    rw [List.concat_eq_append, List.append_assoc] at hread
    exact hacross hm hy hread

end Pattern

end Recast
