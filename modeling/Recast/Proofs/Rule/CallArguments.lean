import Recast.Proofs.Rule.ArrayPair
import Recast.Proofs.Rule.Reshape

/-!
# Arguments of rewritten calls

The rules `numpy_reshape` and `numpy_pair_return` end an argument at a bracket,
and do not count brackets to find it. For arguments that close their own
brackets this module says when they find the right one, in every target
(`call_arguments_iff`).
-/

namespace Recast

namespace Target

/-- The rule for values that are reshaped. -/
def reshapeRule (t : Target) : Rule :=
  (Rule.replacing "numpy_reshape" Idiom.reshape.pattern fun _ =>
    t.replaceReshape).gated
    (Rule.libraryGate Library.numpy Library.arrayBuilder)

/-- The rule for two arrays that are returned. -/
def arrayPairRule (t : Target) : Rule :=
  .replacing "numpy_pair_return" Idiom.arrayPairReturn.pattern fun _ =>
    t.replaceArrayPair

theorem reshapeRule_mem (t : Target) : t.reshapeRule ∈ t.rules := by
  simp only [reshapeRule, rules, List.mem_append, List.mem_cons,
    true_or, or_true]

theorem arrayPairRule_mem (t : Target) : t.arrayPairRule ∈ t.rules := by
  simp only [arrayPairRule, rules, List.mem_append, List.mem_cons,
    true_or, or_true]

/-- **Arguments of rewritten calls.** Take arguments that close their own
brackets. A call that reshapes values becomes the matrix of its arguments
exactly if the values contain no `).reshape(` and no bracket closes in the rows
or in the columns; in PHP one may close in the columns, if no blank stands
before the first that does and no other such call after it. A return of two
arrays becomes that of its arguments exactly if in the first argument no bracket
closes right before another array, and none at all in the second. -/
theorem call_arguments_iff {t : Target} (ctx : Context) {r p : Rule}
    (hr : r ∈ t.rules) (hrname : r.name = "numpy_reshape".toList)
    (hp : p ∈ t.rules) (hpname : p.name = "numpy_pair_return".toList)
    {values rows cols first second : Text} (hvalues : Argument values)
    (hrows : Argument rows) (hcols : Argument cols) (hrowsComma : ',' ∉ rows)
    (hcolsComma : ',' ∉ cols) (hminus : rows ≠ "-1".toList)
    (hfirst : Argument first) (hsecond : Argument second) :
    (r.transform ctx ("np.array(" ++
      (values ++ (").reshape(" ++ (rows ++ (", " ++ (cols ++ ")")))))) =
        t.reshape values rows cols ↔
      values.mentions ").reshape(" = false ∧ ')' ∉ rows ∧ (')' ∉ cols ∨
        t = php ∧ (cols.before ')').trimEnd = cols.before ')' ∧
          Idiom.reshape.pattern.foundIn (cols.after ')' ++ ")") = false)) ∧
    (p.transform ctx
      ("return np.array(" ++ (first ++ ("), np.array(" ++ (second ++ ")")))) =
        t.pairReturn first second ↔
      ArrayPair.joint.foundIn first = false ∧ ')' ∉ second) := by
  obtain rfl := eq_of_name hr t.reshapeRule_mem hrname
  obtain rfl := eq_of_name hp t.arrayPairRule_mem hpname
  rw [Text.mentions_eq_false_iff]
  exact ⟨Reshape.substitute_call_iff t hvalues hrows hcols hrowsComma
    hminus hcolsComma,
    ArrayPair.substitute_statement_iff t hfirst hsecond⟩

/-- Brackets in the values and in the first array do no harm. -/
theorem call_arguments_iff_values :
    go.reshapeRule.transform .empty "np.array(f(x)).reshape(n + 1, 2)" =
      "mat.NewDense(n + 1, 2, f(x))".toList ∧
    go.arrayPairRule.transform .empty "return np.array(f(x, y)), np.array(z)" =
      "return f(x, y), z, nil // Success".toList := by
  have hf : Argument "f(x)" := by decide
  have hn : Argument "n + 1" := by decide
  have htwo : Argument "2" := by decide
  have hg : Argument "f(x, y)" := by decide
  have hz : Argument "z" := by decide
  obtain ⟨hreshape, hpair⟩ := call_arguments_iff .empty go.reshapeRule_mem rfl
    go.arrayPairRule_mem rfl hf hn htwo
    (by decide) (by decide) (by decide) hg hz
  exact ⟨(hreshape.mpr ⟨by decide, by decide, Or.inl (by decide)⟩).trans
    (by decide),
    (hpair.mpr ⟨by decide, by decide⟩).trans (by decide)⟩

/-- A length among the rows is cut in two. -/
theorem length_in_rows_cut :
    Argument "v" ∧ Argument "len(v)" ∧ Argument "1" ∧
    go.reshapeRule.transform .empty "np.array(v).reshape(len(v), 1)" =
      "mat.NewDense(len(v, 1, v), 1)".toList ∧
    go.reshape "v" "len(v)" "1" = "mat.NewDense(len(v), 1, v)".toList :=
  ⟨by decide, by decide, by decide, by decide +kernel, by decide⟩

end Target

end Recast
