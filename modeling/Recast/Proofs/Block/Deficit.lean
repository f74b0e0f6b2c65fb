import Mathlib.Algebra.Order.Ring.Int
import Recast.Block
import Recast.Proofs.Rendering.Frame
import Recast.Proofs.Rule.Stages

/-!
# The deficit of a text

The deficit counts characters that are no blanks, so it depends on the words of
a text alone and no trimming or indenting changes it. Closing the open blocks
brings a positive deficit to zero and leaves every other as it is, and a frame
opens as many blocks as it closes. The output of a target therefore has the
deficit of its draft, or none where the draft has too many open blocks
(`deficit_recast_output`).
-/

namespace Recast

namespace Block

@[simp] theorem deficit_nil : deficit [] = 0 := rfl

@[simp] theorem deficit_append (u v : Text) :
    deficit (u ++ v) = deficit u + deficit v := by
  simp only [deficit, List.count_append]
  omega

/-! ## Layout -/

theorem isBlank_opening : isBlank opening = false := by decide

theorem isBlank_closing : isBlank closing = false := by decide

/-- The deficit depends on the words alone. -/
theorem deficit_congr_words {s t : Text} (h : s.words = t.words) :
    deficit s = deficit t := by
  rw [deficit, deficit, Text.count_congr_words isBlank_opening h,
    Text.count_congr_words isBlank_closing h]

theorem deficit_trimEnd (t : Text) : deficit t.trimEnd = deficit t :=
  deficit_congr_words t.words_trimEnd

theorem deficit_trimBody (t : Text) : deficit t.trimBody = deficit t :=
  deficit_congr_words t.words_trimBody

theorem deficit_indentBlock {pad : Text} (hpad : ∀ c ∈ pad, isBlank c = true)
    (t : Text) :
    deficit (Text.indentBlock pad t) = deficit t :=
  deficit_congr_words (Text.words_indentBlock hpad t)

/-! ## Closing what is open -/

theorem count_opening_closers (n : Nat) : (closers n).count opening = 0 := by
  induction n with
  | zero => rfl
  | succ n ih =>
      rw [closers, List.replicate_succ, List.flatten_cons, List.count_append]
      show 0 + (closers n).count opening = 0
      rw [ih]

theorem count_closing_closers (n : Nat) : (closers n).count closing = n := by
  induction n with
  | zero => rfl
  | succ n ih =>
      rw [closers, List.replicate_succ, List.flatten_cons, List.count_append]
      show 1 + (closers n).count closing = n + 1
      rw [ih]
      omega

/-- Closing the open blocks opens none. -/
theorem count_opening_repair (t : Text) :
    (repair t).count opening = t.count opening := by
  rw [repair]
  split
  · rfl
  · rw [List.count_append, count_opening_closers, Nat.add_zero,
      Text.count_congr_words isBlank_opening t.words_trimEnd]

/-- Closing the open blocks adds a closing brace for each of them. -/
theorem count_closing_repair (t : Text) :
    (repair t).count closing = t.count closing + (deficit t).toNat := by
  rw [repair]
  split
  · rename_i h
    rw [Int.toNat_of_nonpos h]
    rfl
  · rw [List.count_append, count_closing_closers,
      Text.count_congr_words isBlank_closing t.words_trimEnd]

/-- Closing the open blocks takes away a positive deficit and nothing else. -/
theorem deficit_repair (t : Text) : deficit (repair t) = min (deficit t) 0 := by
  have hcount : deficit (repair t) = deficit t - (deficit t).toNat := by
    rw [deficit, count_opening_repair, count_closing_repair, deficit]
    omega
  rw [hcount]
  omega

end Block

namespace Target

open Block

/-! ## Frames -/

/-- The parts of a file around its body open as many blocks as they close. -/
theorem deficit_fileTop_add_fileBottom (t : Target) (program : Bool)
    (body : Text) :
    deficit (t.fileTop program body) + deficit (t.fileBottom program) = 0 :=
  fileTop_cases
    (P := fun t program u => deficit u + deficit (t.fileBottom program) = 0)
    (by decide +kernel) (by decide +kernel) (by decide +kernel)
      (by decide +kernel) t program body

theorem deficit_laidOut (t : Target) (program : Bool) (body : Text) :
    deficit (t.laidOut program body) = deficit body :=
  deficit_congr_words (t.words_laidOut program body)

theorem deficit_programFile (t : Target) (body : Text) :
    deficit (t.programFile body) = deficit body := by
  have h := t.deficit_fileTop_add_fileBottom true body
  rw [programFile_eq, deficit_append, deficit_append, deficit_laidOut]
  omega

theorem deficit_moduleFile (t : Target) (body : Text) :
    deficit (t.moduleFile body) = deficit body := by
  have h := t.deficit_fileTop_add_fileBottom false body
  rw [moduleFile_eq, deficit_append, deficit_append, deficit_laidOut]
  omega

theorem deficit_frame (t : Target) (ctx : Context) (body : Text) :
    deficit (t.frame ctx body) = deficit body := by
  rw [frame]
  split
  · exact t.deficit_programFile body
  · exact t.deficit_moduleFile body

/-- A frame adds some pairs of braces to what the body has. -/
theorem count_frame (t : Target) (ctx : Context) (body : Text) :
    ∃ k, (t.frame ctx body).count opening = body.count opening + k ∧
      (t.frame ctx body).count closing = body.count closing + k := by
  have hparts := t.deficit_fileTop_add_fileBottom ctx.functions.isEmpty body
  -- laying out keeps the words and with them the braces
  have hopen := Text.count_congr_words isBlank_opening
    (t.words_laidOut ctx.functions.isEmpty body)
  have hclose := Text.count_congr_words isBlank_closing
    (t.words_laidOut ctx.functions.isEmpty body)
  refine ⟨(t.fileTop ctx.functions.isEmpty body).count opening +
    (t.fileBottom ctx.functions.isEmpty).count opening, ?_, ?_⟩
  · rw [frame_eq, List.count_append, List.count_append, hopen]
    omega
  · rw [frame_eq, List.count_append, List.count_append, hclose]
    simp only [deficit] at hparts
    omega

/-- **The deficit of the output.** No block is left open by count. The output
has every brace of the draft, a closing brace for each block that the draft
leaves open, and `k` pairs of the frame, so that braces which close nothing are
neither dropped nor made up for. Every other step after the draft keeps the
deficit of any text. -/
theorem deficit_recast_output (t : Target) (ctx : Context) (source : Text) :
    deficit (t.recast ctx source).output =
      min (deficit (t.draft ctx source)) 0 ∧
      (∃ k, (t.recast ctx source).output.count opening =
        (t.draft ctx source).count opening + k ∧
        (t.recast ctx source).output.count closing =
          (t.draft ctx source).count closing +
          (deficit (t.draft ctx source)).toNat + k) ∧
      ∀ (u : Text) (n : Nat),
        deficit (t.programFile u) = deficit u ∧
        deficit (t.moduleFile u) = deficit u ∧
          deficit u.trimEnd = deficit u ∧ deficit u.trimBody = deficit u ∧
          deficit (Text.indentBlock (List.replicate n ' ') u) = deficit u := by
  refine ⟨?_, ?_, ?_⟩
  · rw [recast_output, deficit_frame, body_eq, deficit_repair]
  · obtain ⟨k, hopen, hclose⟩ := t.count_frame ctx (t.body ctx source)
    refine ⟨k, ?_, ?_⟩
    · rw [recast_output, hopen, body_eq, count_opening_repair]
    · rw [recast_output, hclose, body_eq, count_closing_repair]
  · intro u n
    have hpad : ∀ c ∈ List.replicate n ' ', isBlank c = true := by
      intro c hc
      rw [List.eq_of_mem_replicate hc]
      decide
    exact ⟨t.deficit_programFile u, t.deficit_moduleFile u, deficit_trimEnd u,
      deficit_trimBody u, deficit_indentBlock hpad u⟩

end Target

end Recast
