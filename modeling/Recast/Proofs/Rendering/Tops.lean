import Mathlib.Data.List.Flatten
import Recast.Proofs.Rendering.Signs

/-!
# Tops and signs

Every sign of use adds a line to the top of a file, or a few, and takes none
away. So the top for fewer signs is a subsequence of the top for more
(`fileTop_sublist`), and every top is one of the top for all signs
(`fileTop_sublist_fullTop`).
-/

namespace Recast

open Pattern

/-! ## Lines that are left out -/

namespace Text

theorem onlyIf_sublist {b b' : Bool} (h : b = true → b' = true) (t : Text) :
    (onlyIf b t).Sublist (onlyIf b' t) := by
  cases b with
  | false => exact List.nil_sublist _
  | true => rw [h rfl]

theorem unlines_sublist {ls ks : List Text} (h : ls.Sublist ks) :
    (unlines ls).Sublist (unlines ks) := by
  induction h with
  | slnil => exact List.Sublist.refl _
  | @cons ls ks k h ih =>
      cases ks with
      | nil =>
          rw [List.sublist_nil.mp h]
          exact List.nil_sublist _
      | cons k' ks =>
          rw [unlines_cons_cons]
          exact ih.trans
            ((List.sublist_cons_self _ _).trans (List.sublist_append_right _ _))
  | cons_cons k h =>
      unfold unlines
      rw [join_cons, join_cons]
      exact (h.flatMap _).append_left _

end Text

namespace Target

/-! ## Tops of each target -/

/-- The import declaration of Go for a list of packages. -/
def goImportsFor : List Text → Text
  | [package] => "import \"" ++ package ++ "\""
  | packages =>
    "import (\n" ++ Text.unlines (packages.map fun p =>
      Text.indentation ++ "\"" ++ p ++ "\"") ++ "\n)"

/-- The form for several packages holds what the form for one holds. -/
theorem goImportsFor_sublist (p : Text) {ps qs : List Text}
    (h : ps.Sublist qs) :
    (goImportsFor (p :: ps)).Sublist (goImportsFor (p :: qs)) := by
  cases ps with
  | nil =>
      cases qs with
      | nil => exact List.Sublist.refl _
      | cons q qs =>
          have hone : "import \"".toList = "import ".toList ++ "\"".toList := by
            decide
          have hmany : "import (\n".toList =
              "import ".toList ++ "(\n".toList := by decide
          have hquoted : ("\"".toList ++ p ++ "\"".toList).Sublist
              (Text.indentation ++ "\"".toList ++ p ++ "\"".toList) := by
            simp only [List.append_assoc]
            exact List.sublist_append_right _ _
          have hlines : ("\"".toList ++ p ++ "\"".toList).Sublist
              (Text.unlines ((p :: q :: qs).map fun p =>
                Text.indentation ++ "\"" ++ p ++ "\"")) := by
            rw [List.map_cons, List.map_cons, Text.unlines_cons_cons]
            exact hquoted.trans (List.sublist_append_left _ _)
          show ("import \"".toList ++ p ++ "\"".toList).Sublist
            ("import (\n".toList ++ _ ++ "\n)".toList)
          rw [hone, hmany]
          simp only [List.append_assoc] at hlines ⊢
          exact ((hlines.trans (List.sublist_append_left _ _)).trans
            (List.sublist_append_right _ _)).append_left _
  | cons p' ps =>
      cases qs with
      | nil => exact absurd (List.sublist_nil.mp h) (by simp)
      | cons q qs =>
          have hlines := Text.unlines_sublist
            ((h.cons_cons p).map fun p => Text.indentation ++ "\"" ++ p ++ "\"")
          exact (hlines.append_left _).append_right _

theorem goTop_sublist {math mat stat math' mat' stat' : Bool} (program : Bool)
    (hmath : math = true → math' = true) (hmat : mat = true → mat' = true)
    (hstat : stat = true → stat' = true) :
    (goTop program math mat stat).Sublist (goTop program math' mat' stat') := by
  have himports : (goImportsOf math mat stat).Sublist
      (goImportsOf math' mat' stat') :=
    goImportsFor_sublist _
      (((Text.onlyIf_sublist hmath _).append
        (Text.onlyIf_sublist hmat _)).append
      (Text.onlyIf_sublist hstat _))
  exact (himports.append_left _).append_right _

theorem phpTop_sublist {libraries libraries' : Bool}
    (h : libraries = true → libraries' = true) :
    (phpTop libraries).Sublist (phpTop libraries') := by
  revert libraries libraries'
  decide

theorem belowImports_sublist {ls ks : List Text} (h : ls.Sublist ks)
    (code : Text) :
    (belowImports ls code).Sublist (belowImports ks code) := by
  unfold belowImports
  by_cases hls : ls.isEmpty = true
  · rw [if_pos hls]
    split
    · exact List.Sublist.refl _
    · exact List.sublist_append_right _ _
  · have hks : ks.isEmpty ≠ true := by
      intro hnil
      rw [List.isEmpty_iff.mp hnil, List.sublist_nil] at h
      exact hls (List.isEmpty_iff.mpr h)
    rw [if_neg hls, if_neg hks]
    exact ((Text.unlines_sublist h).append_right _).append_right _

theorem jsTop_sublist {matrix scaler matrix' scaler' : Bool} (program : Bool)
    (hmatrix : matrix = true → matrix' = true)
    (hscaler : scaler = true → scaler' = true) :
    (jsTop program matrix scaler).Sublist (jsTop program matrix' scaler') :=
  belowImports_sublist
    ((Text.onlyIf_sublist hmatrix _).append (Text.onlyIf_sublist hscaler _)) _

theorem csTop_sublist
    {lists linq matrix learning lists' linq' matrix' learning' : Bool}
    (program : Bool) (hlists : lists = true → lists' = true)
    (hlinq : linq = true → linq' = true)
    (hmatrix : matrix = true → matrix' = true)
    (hlearning : learning = true → learning' = true) :
    (csTop program lists linq matrix learning).Sublist
      (csTop program lists' linq' matrix' learning') := by
  have hnames :=
    (((Text.onlyIf_sublist hlists "System.Collections.Generic").append
    (Text.onlyIf_sublist hlinq "System.Linq")).append
    (Text.onlyIf_sublist hmatrix "MathNet.Numerics.LinearAlgebra")).append
    (Text.onlyIf_sublist hlearning "Microsoft.ML")
  have husings : (csUsings lists linq matrix learning).Sublist
      (csUsings lists' linq' matrix' learning') :=
    Text.unlines_sublist ((hnames.cons_cons _).map _)
  exact husings.append_right _

/-! ## Tops by the signs in a text -/

/-- The signs in a body that decide what its top holds. -/
def topSigns : Target → List Pattern
  | go =>
    [Usage.qualifier "math", Usage.qualifier "mat", Usage.qualifier "stat"]
  | php => ["\\MathPHP\\", "\\Phpml\\"]
  | javascript => ["matrix.Matrix", "MinMaxScaler"]
  | csharp => ["List<", Usage.sequenceMethod, "Matrix<double>", "MLContext"]

theorem within_topSigns (t : Target) : ∀ p ∈ t.topSigns, p.Within isBlank := by
  cases t with
  | go =>
      simp only [topSigns, List.forall_mem_cons]
      exact ⟨Usage.within_qualifier (by decide),
        Usage.within_qualifier (by decide), Usage.within_qualifier (by decide),
        by simp⟩
  | php =>
      simp only [topSigns, List.forall_mem_cons]
      exact ⟨within_literal (by decide), within_literal (by decide), by simp⟩
  | javascript =>
      simp only [topSigns, List.forall_mem_cons]
      exact ⟨within_literal (by decide), within_literal (by decide), by simp⟩
  | csharp =>
      simp only [topSigns, List.forall_mem_cons]
      exact ⟨within_literal (by decide), Usage.within_sequenceMethod,
        within_literal (by decide), within_literal (by decide), by simp⟩

/-- A text that shows the signs of another has a top with all that the other top
holds. -/
theorem fileTop_sublist (t : Target) (program : Bool) {v w : Text}
    (h : ∀ p ∈ t.topSigns, p.foundIn v = true → p.foundIn w = true) :
    (t.fileTop program v).Sublist (t.fileTop program w) := by
  cases t with
  | go =>
      simp only [topSigns, List.forall_mem_cons] at h
      exact goTop_sublist program h.1 h.2.1 h.2.2.1
  | php =>
      simp only [topSigns, List.forall_mem_cons,
        foundIn_literal (s := "\\MathPHP\\".toList) (by decide),
        foundIn_literal (s := "\\Phpml\\".toList) (by decide)] at h
      refine phpTop_sublist ?_
      simp only [Bool.or_eq_true]
      exact Or.imp h.1 h.2.1
  | javascript =>
      simp only [topSigns, List.forall_mem_cons,
        foundIn_literal (s := "matrix.Matrix".toList) (by decide),
        foundIn_literal (s := "MinMaxScaler".toList) (by decide)] at h
      exact jsTop_sublist program h.1 h.2.1
  | csharp =>
      simp only [topSigns, List.forall_mem_cons,
        foundIn_literal (s := "List<".toList) (by decide),
        foundIn_literal (s := "Matrix<double>".toList) (by decide),
        foundIn_literal (s := "MLContext".toList) (by decide)] at h
      exact csTop_sublist program h.1 h.2.1 h.2.2.1 h.2.2.2.1

/-- The top of a file in which all signs are found. -/
def fullTop : Target → (program : Bool) → Text
  | go, program => goTop program true true true
  | php, _ => phpTop true
  | javascript, program => jsTop program true true
  | csharp, program => csTop program true true true true

theorem fileTop_sublist_fullTop (t : Target) (program : Bool) (body : Text) :
    (t.fileTop program body).Sublist (t.fullTop program) := by
  cases t with
  | go =>
      exact goTop_sublist program (fun _ => rfl) (fun _ => rfl) (fun _ => rfl)
  | php => exact phpTop_sublist fun _ => rfl
  | javascript => exact jsTop_sublist program (fun _ => rfl) (fun _ => rfl)
  | csharp =>
      exact csTop_sublist program (fun _ => rfl) (fun _ => rfl) (fun _ => rfl)
        (fun _ => rfl)

end Target

end Recast
