import Recast.Pipeline
import Recast.Proofs.Pattern.Choice
import Recast.Proofs.Text.Nesting

/-!
# Arguments of calls

The patterns for library calls take an argument up to the first closing bracket
that lets them match, not up to the one that belongs to the call. This module
has what the two rules that use such patterns share: what an argument is, how
far a pattern takes it, and how a text compares with one whose end is trimmed.
-/

namespace Recast

open Pattern

/-- An expression as it may stand in a call: a nonempty text on one line,
without blanks at its ends, that closes its own brackets. -/
structure Argument (t : Text) : Prop where
  inline : ∀ c ∈ t, isInline c = true
  nested : t.Nested
  trimmed : t.trim = t
  ne_nil : t ≠ []

instance (t : Text) : Decidable (Argument t) :=
  decidable_of_iff (t.all isInline = true ∧ t.Nested ∧ t.trim = t ∧ t ≠ [])
    ⟨fun ⟨hinline, hnested, htrim, hne⟩ =>
      ⟨List.all_eq_true.mp hinline, hnested, htrim, hne⟩,
      fun h => ⟨List.all_eq_true.mpr h.inline, h.nested, h.trimmed, h.ne_nil⟩⟩

namespace Argument

variable {t : Text}

/-- The first bracket that closes in an argument, and what stands before it. -/
theorem exists_close (h : Argument t) (hclose : ')' ∈ t) :
    ∃ s q, t = s ++ ')' :: q ∧ ')' ∉ s ∧ '(' ∈ s ∧ s.trim = s.trimEnd := by
  have hsplit := (Text.before_append_after hclose).symm
  refine ⟨_, _, hsplit, Text.not_mem_before _ _, ?_, ?_⟩
  · exact Text.open_mem_of_depth_pos (Text.Nested.depth_before_close
      (hsplit ▸ h.nested))
  · exact Text.trim_of_trim_append (hsplit ▸ h.trimmed)

end Argument

namespace Pattern

/-- A group that goes as far as the first bracket that closes. -/
theorem picks_group_close {before : Option Char} {s rest : Text}
    (hs : ∀ c ∈ s, isInline c = true) (hclose : ')' ∉ s) :
    (group (stretch .shortest) ++ literal ")".toList).Picks
      (fun _ _ => True) before (s ++ ")") rest [some s] := by
  apply Picks.group_shortest_append hs
  · rintro x (_ | ⟨c, w⟩) hw rfl hreaches
    · exact hw rfl
    · obtain ⟨v, hv⟩ := hreaches.literal_prefix
      obtain rfl : ')' = c := (List.cons.inj hv).1
      simp at hclose
  · exact picks_literal trivial

end Pattern

namespace Target

/-- What has a bracket in it is no variable. -/
theorem phpVariable_of_open_mem {e : Text} (h : '(' ∈ e) :
    phpVariable e = e := by
  have hnone : identifier.opens e = false := by
    rw [opens, Option.isSome_eq_false_iff, Option.isNone_iff_eq_none,
      Option.eq_none_iff_forall_ne_some]
    intro m hm
    obtain ⟨rest, rfl, -, hread⟩ := matchAt_reads hm
    simp only [identifier, reads_append_assoc, reads_anchor_append] at hread
    obtain ⟨-, hread⟩ := hread
    obtain ⟨x, y, _, _, hxy, -, hx, hread⟩ := reads_seq_iff.mp hread
    obtain ⟨c, hc, rfl, -⟩ := reads_one_iff.mp hx
    obtain ⟨w, z, rfl, hw, hread⟩ := reads_many_append.mp hread
    obtain ⟨rfl, -, hend⟩ := reads_anchor_iff.mp hread
    have hopen : '(' ∉ c :: w := by
      have hfirst : '(' ≠ c := by
        rintro rfl
        exact absurd hc (by decide)
      have hlater : '(' ∉ w := Text.not_mem_of_forall hw (by decide)
      simp [hfirst, hlater]
    have hrest : '(' ∉ rest := by
      have hcases : rest = [] ∨ rest = ['\n'] := by
        simpa [Anchor.holds] using hend
      rcases hcases with rfl | rfl <;> decide
    have hall : m.text ++ rest = (c :: w) ++ rest := by rw [hxy]; simp
    rw [hall, List.mem_append] at h
    exact h.elim hopen hrest
  rw [phpVariable, hnone]
  rfl

end Target

end Recast
