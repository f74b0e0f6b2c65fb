import Recast.Proofs.Pattern.Separator
import Recast.Proofs.Rendering.Frame

/-!
# Signs of use in a framed file

A sign of use has no blanks in it, so it is found in a file exactly if it is
found in the top, in the body or in the bottom, however the body is laid out
(`foundIn_frame`).
-/

namespace Recast

/-! ## Signs lie within words -/

namespace Usage

open Pattern

theorem within_edge : (anchor .wordEdge).Within isBlank :=
  Anchor.blind_wordEdge fun _ hc => isWord_of_isBlank hc

theorem within_qualifier {package : Text} (h : package.any isBlank = false) :
    (qualifier package).Within isBlank :=
  ⟨⟨within_edge, within_literal h⟩, within_literal (by decide)⟩

theorem within_sequenceMethod : sequenceMethod.Within isBlank := by
  refine ⟨⟨within_literal (by decide), ?_⟩, within_literal (by decide)⟩
  exact ⟨within_literal (by decide), within_literal (by decide),
    within_literal (by decide), within_literal (by decide)⟩

theorem foundIn_of_wholeWord {p : Pattern} {t : Text}
    (h : (wholeWord p).foundIn t = true) :
    p.foundIn t = true :=
  foundIn_of_anchor_left (foundIn_of_anchor_right h)

end Usage

/-! ## Signs in the parts of a file -/

namespace Target

open Pattern

variable {p : Pattern} {s : Text}

/-- The top of a file depends on the words of its body alone. -/
theorem fileTop_congr_words (t : Target) (program : Bool) {body body' : Text}
    (h : body.words = body'.words) :
    t.fileTop program body = t.fileTop program body' := by
  have hsign : ∀ s : Text, s ≠ [] ∧ s.any isBlank = false →
      body.mentions s = body'.mentions s :=
    fun s hs => mentions_congr_words hs.1 hs.2 h
  have hpackage : ∀ s : Text, s.any isBlank = false →
      (Usage.qualifier s).foundIn body = (Usage.qualifier s).foundIn body' :=
    fun s hs => foundIn_congr_words (Usage.within_qualifier hs) h
  cases t with
  | go =>
      show goTop _ _ _ _ = goTop _ _ _ _
      rw [hpackage "math" (by decide), hpackage "mat" (by decide),
        hpackage "stat" (by decide)]
  | php =>
      show phpTop _ = phpTop _
      rw [hsign "\\MathPHP\\" (by decide), hsign "\\Phpml\\" (by decide)]
  | javascript =>
      show jsTop _ _ _ = jsTop _ _ _
      rw [hsign "matrix.Matrix" (by decide), hsign "MinMaxScaler" (by decide)]
  | csharp =>
      show csTop _ _ _ _ _ = csTop _ _ _ _ _
      rw [hsign "List<" (by decide), hsign "Matrix<double>" (by decide),
        hsign "MLContext" (by decide),
        foundIn_congr_words Usage.within_sequenceMethod h]

theorem foundIn_frame (hp : p.Within isBlank) (t : Target) (ctx : Context)
    (body : Text) :
    p.foundIn (t.frame ctx body) =
      (p.foundIn (t.fileTop ctx.functions.isEmpty body) || p.foundIn body ||
        p.foundIn (t.fileBottom ctx.functions.isEmpty)) := by
  rw [foundIn_words hp (t.frame ctx body), words_frame, List.any_append,
    List.any_append, ← foundIn_words hp, ← foundIn_words hp, ← foundIn_words hp]

theorem mentions_frame (hs : s ≠ []) (hblank : s.any isBlank = false)
    (t : Target) (ctx : Context) (body : Text) :
    (t.frame ctx body).mentions s =
      ((t.fileTop ctx.functions.isEmpty body).mentions s || body.mentions s ||
        (t.fileBottom ctx.functions.isEmpty).mentions s) := by
  simp only [← foundIn_literal hs]
  exact foundIn_frame (within_literal hblank) t ctx body

theorem mentions_frame_of_fileTop {t : Target} {ctx : Context} {body : Text}
    (h : (t.fileTop ctx.functions.isEmpty body).mentions s = true) :
    (t.frame ctx body).mentions s = true := by
  rw [Text.mentions_iff] at h ⊢
  rw [frame_eq, List.append_assoc]
  exact h.trans (List.infix_append_left ..)

/-- What the top shows without regard to its surroundings, the file shows. -/
theorem foundIn_frame_of_fileTop (hp : p.unanchored = true) {t : Target}
    {ctx : Context} {body : Text}
    (h : p.foundIn (t.fileTop ctx.functions.isEmpty body) = true) :
    p.foundIn (t.frame ctx body) = true := by
  rw [frame_eq, List.append_assoc]
  exact foundIn_of_infix hp (List.infix_append_left ..) h

end Target

end Recast
