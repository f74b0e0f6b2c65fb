import Mathlib.Data.List.Infix
import Recast.Proofs.Check.Coverage

/-!
# Targets of a push

The check `push_target` is meant for a push whose target is not marked as a
variable, with blanks in front of the target allowed. Its pattern may take fewer
blanks than there are, and then a blank is what it finds in place of the mark.
So it fires exactly if some push is not followed by the mark at once. No
unmarked target is missed, but a marked one behind a blank is reported too
(`push_target_fires_iff`).
-/

namespace Recast

open Pattern

namespace Text

/-- What follows each occurrence of `s`, from left to right. -/
def following (s t : Text) : List Text :=
  t.tails.filterMap fun u =>
    if s.isPrefixOf u then some (u.drop s.length) else none

theorem mem_following_iff {s t rest : Text} :
    rest ∈ following s t ↔ ∃ pre, t = pre ++ (s ++ rest) := by
  rw [following, List.mem_filterMap]
  constructor
  · rintro ⟨u, hu, hrest⟩
    obtain ⟨pre, rfl⟩ := (List.mem_tails _ _).mp hu
    split at hrest
    · next hs =>
        obtain ⟨v, rfl⟩ := List.isPrefixOf_iff_prefix.mp hs
        rw [List.drop_left, Option.some.injEq] at hrest
        exact ⟨pre, by rw [hrest]⟩
    · exact absurd hrest (by simp)
  · rintro ⟨pre, rfl⟩
    refine ⟨s ++ rest, (List.mem_tails _ _).mpr (List.suffix_append _ _), ?_⟩
    rw [if_pos (List.isPrefixOf_iff_prefix.mpr (List.prefix_append _ _)),
      List.drop_left]

end Text

namespace Target

/-- What follows each push of a text, up to its end. -/
def pushes (t : Text) : List Text := Text.following "array_push(" t

/-- Behind blanks, if there are any, stands the mark of a variable. -/
def Marked (rest : Text) : Prop := (rest.dropWhile isBlank).head? = some '$'

instance (rest : Text) : Decidable (Marked rest) :=
  inferInstanceAs (Decidable (_ = _))

/-- A mark that follows at once needs no blanks to be skipped. -/
theorem marked_of_head? {rest : Text} (h : rest.head? = some '$') :
    Marked rest := by
  obtain ⟨rest, rfl⟩ := List.head?_eq_some_iff.mp h
  unfold Marked
  rw [List.dropWhile_cons_of_neg (by decide), List.head?_cons]

theorem foundIn_phpBarePush_iff (t : Text) :
    phpBarePush.foundIn t = true ↔
      ∃ rest ∈ pushes t, rest.head? ≠ some '$' := by
  have hnext (before : Option Char) (rest : Text) :
      Anchor.holds (.notNext (· == '$')) before rest = true ↔
        rest.head? ≠ some '$' := by
    cases rest <;> simp [Anchor.holds]
  simp only [pushes, Text.mem_following_iff]
  rw [foundIn_iff]
  constructor
  · rintro ⟨pre, u, rest, gs, ht, -, hread⟩
    obtain ⟨w, rfl, hanchor⟩ := reads_literal_append.mp hread
    obtain ⟨rfl, -, hholds⟩ := reads_anchor_iff.mp hanchor
    rw [List.append_nil] at ht
    exact ⟨rest, ⟨pre, ht⟩, (hnext _ _).mp hholds⟩
  · rintro ⟨rest, ⟨pre, ht⟩, hhead⟩
    refine ⟨pre, "array_push(".toList ++ [], rest, [],
      by rw [List.append_nil]; exact ht, by decide, ?_⟩
    exact reads_literal_append.mpr
      ⟨[], rfl, reads_anchor_iff.mpr ⟨rfl, rfl, (hnext _ _).mpr hhead⟩⟩

theorem fires_push_target_iff (t : Text) :
    php.fires? "push_target" t = some true ↔
      ∃ rest ∈ pushes t, rest.head? ≠ some '$' := by
  rw [← foundIn_phpBarePush_iff, ← foundIn_phpPush]
  show some (Check.phpPush.foundIn t) = some true ↔ _
  rw [Option.some.injEq]

/-- **When a push is reported.** The check fires exactly if some push is not
followed at once by the mark of a variable. That is the same as a push with an
unmarked target, unless all targets are marked and one of them stands behind a
blank. -/
theorem push_target_fires_iff (t : Text) :
    (php.fires? "push_target" t = some true ↔
      ∃ rest ∈ pushes t, rest.head? ≠ some '$') ∧
    ((php.fires? "push_target" t = some true ↔
      ∃ rest ∈ pushes t, ¬ Marked rest) ↔
      ((∀ rest ∈ pushes t, Marked rest) →
        ∀ rest ∈ pushes t, rest.head? = some '$')) := by
  have hfires := fires_push_target_iff t
  refine ⟨hfires, ?_⟩
  rw [hfires]
  constructor
  · intro hexact hmarked rest hrest
    by_contra hhead
    obtain ⟨rest', hrest', hunmarked⟩ := hexact.mp ⟨rest, hrest, hhead⟩
    exact hunmarked (hmarked rest' hrest')
  · intro hatonce
    constructor
    · rintro ⟨rest, hrest, hhead⟩
      by_contra hnone
      have hmarked : ∀ rest ∈ pushes t, Marked rest := by
        intro rest' hrest'
        by_contra hunmarked
        exact hnone ⟨rest', hrest', hunmarked⟩
      exact hhead (hatonce hmarked rest hrest)
    · rintro ⟨rest, hrest, hunmarked⟩
      exact ⟨rest, hrest, fun hhead => hunmarked (marked_of_head? hhead)⟩

/-- A blank in front of a variable is enough for the push to be reported. -/
theorem marked_push_reported :
    (∀ rest ∈ pushes "<?php\narray_push( $xs, 1);", Marked rest) ∧
      pushes "<?php\narray_push( $xs, 1);" ≠ [] ∧
      php.fires? "push_target" "<?php\narray_push( $xs, 1);" = some true := by
  decide

end Target

end Recast
