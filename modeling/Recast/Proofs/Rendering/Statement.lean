import Recast.Proofs.Block.Paired

/-!
# Braces in statements

The only closing braces that statements bring with them belong to types, which
have an opening brace of their own, and to the range of a scaler. So a statement
whose parts are paired over the openers of its target is paired itself, and a
scaler closes no more blocks than it opens.
-/

namespace Recast

namespace Target

open Block

/-- The texts after which a rule of the target writes a closing brace: what
stands between an opening brace and the brace that closes a type. -/
def openers : Target → List Text
  | go => [[opening]]
  | javascript =>
    [Kind.int, .string, .list, .array, .bool].map fun k =>
      opening :: javascript.typeName k
  | php | csharp => []

theorem one_le_deficit_of_mem_openers (t : Target) :
    ∀ o ∈ t.openers, 1 ≤ deficit o := by
  cases t <;> decide

theorem breaks_blank (t : Target) (c : Char) (hc : isBlank c = true) :
    Breaks t.openers c := by
  have hsolid : ∀ o ∈ t.openers, o.any isBlank = false := by
    cases t <;> decide
  intro o ho hmem
  exact List.any_eq_false.mp (hsolid o ho) c hmem hc

theorem breaks_comma (t : Target) : Breaks t.openers ',' := by
  cases t <;> unfold Breaks <;> decide

/-- A text without closing braces is paired. -/
theorem paired_plain {os : List Text} {u : Text} (h : closing ∉ u) :
    Paired os u :=
  pairedAfter_of_not_mem h

variable {os : List Text}

theorem paired_phpVariable {e : Text} (h : Paired os e) :
    Paired os (phpVariable e) := by
  rw [phpVariable]
  split
  · exact Paired.append (u := ['$']) (paired_plain (by simp [closing])) h
  · exact h

theorem paired_orElse {u d : Text} (hu : Paired os u) (hd : Paired os d) :
    Paired os (u.orElse d) := by
  rw [Text.orElse]
  split
  · exact hd
  · exact hu

theorem paired_join {sep : Text} {us : List Text} (hsep : Paired os sep)
    (hus : ∀ u ∈ us, Paired os u) : Paired os (Text.join sep us) := by
  induction us with
  | nil => exact paired_nil
  | cons u us ih =>
      have hrest := ih fun v hv => hus v (by simp [hv])
      cases us with
      | nil => simpa [Text.join, List.intercalate] using hus u (by simp)
      | cons v us =>
          have hjoin : Text.join sep (u :: v :: us) =
              u ++ sep ++ Text.join sep (v :: us) := by
            simp [Text.join, List.intercalate, List.intersperse]
          rw [hjoin]
          exact ((hus u (by simp)).append hsep).append hrest

/-! ## Statements from paired parts

A statement is a row of parts and fixed pieces. It is cut at each joint; what is
left is a part, which is paired, or a fixed piece without closing braces. -/

theorem paired_dualInit (t : Target) {x y : Text} (hx : Paired os x)
    (hy : Paired os y) :
    Paired os (t.dualInit x y).1 ∧ Paired os (t.dualInit x y).2 := by
  cases t <;> delta dualInit <;> dsimp only <;> refine ⟨?_, ?_⟩ <;>
    (repeat' with_reducible apply Paired.append) <;>
    first | with_reducible assumption | exact paired_plain (by simp [closing])

theorem paired_loop (t : Target) {i n : Text} (hi : Paired os i)
    (hn : Paired os n) :
    Paired os (t.loop i n) := by
  cases t <;> delta loop <;> dsimp only <;>
    (repeat' with_reducible apply Paired.append) <;>
    first | with_reducible assumption | exact paired_plain (by simp [closing])

theorem paired_print (t : Target) {e : Text} (he : Paired os e) :
    Paired os (t.print e) := by
  cases t <;> delta print <;> dsimp only <;>
    (repeat' with_reducible apply Paired.append) <;>
    first | with_reducible assumption | exact paired_plain (by simp [closing])

theorem paired_append (t : Target) {x e : Text} (hx : Paired os x)
    (he : Paired os e) :
    Paired os (t.append x e) := by
  cases t <;> delta append <;> dsimp only <;>
    (repeat' with_reducible apply Paired.append) <;>
    first | with_reducible assumption | exact paired_plain (by simp [closing])

theorem paired_slice (t : Target) {x a b : Text} (hx : Paired os x)
    (ha : Paired os a) (hb : Paired os b) : Paired os (t.slice x a b) := by
  have hstart : Paired os (Text.orElse a "0") :=
    paired_orElse ha (paired_plain (by simp [closing]))
  cases t <;> delta slice <;> dsimp only <;> (repeat' split) <;>
    (repeat' with_reducible apply Paired.append) <;>
    first | with_reducible assumption | exact paired_plain (by simp [closing])

theorem paired_length (t : Target) {x : Text} (hx : Paired os x) :
    Paired os (t.length x) := by
  cases t <;> delta length <;> dsimp only <;>
    (repeat' with_reducible apply Paired.append) <;>
    first | with_reducible assumption | exact paired_plain (by simp [closing])

theorem paired_reshape (t : Target) {e a b : Text} (he : Paired os e)
    (ha : Paired os a) (hb : Paired os b) : Paired os (t.reshape e a b) := by
  have hvar := paired_phpVariable he
  cases t <;> delta reshape <;> dsimp only <;>
    (repeat' with_reducible apply Paired.append) <;>
    first | with_reducible assumption | exact paired_plain (by simp [closing])

theorem paired_fitTransform (t : Target) {x y e : Text} (hx : Paired os x)
    (hy : Paired os y) (he : Paired os e) :
    ∀ l ∈ t.fitTransform x y e, Paired os l := by
  have hvar := paired_phpVariable he
  have hpad : Paired os Text.indentation := paired_plain (by decide)
  cases t <;> delta fitTransform <;> dsimp only <;>
    simp only [List.forall_mem_cons, List.not_mem_nil, false_implies,
      implies_true, and_true] <;>
    (repeat' apply And.intro) <;>
    (repeat' with_reducible apply Paired.append) <;>
    first | with_reducible assumption | exact paired_plain (by simp [closing])

/-! ## Headers of functions -/

/-- A closing brace after an opener is paired. -/
theorem paired_enclosed {o : Text} (ho : o ∈ os) (hplain : closing ∉ o) :
    Paired os (o ++ [closing]) := by
  refine pairedAfter_append.mpr ⟨pairedAfter_of_not_mem hplain, ?_⟩
  intro a b hab
  cases a with
  | nil => exact ⟨o, ho, by simp⟩
  | cons c a => simp at hab

theorem paired_typeName (t : Target) (k : Kind) :
    Paired t.openers (t.typeName k) := by
  by_cases h : t = .go ∧ k = .list
  · -- the only type with braces of its own
    obtain ⟨rfl, rfl⟩ := h
    have hsplit : go.typeName .list =
        "[]interface" ++ ([opening] ++ [closing]) := by decide
    rw [hsplit]
    exact (paired_plain (by simp [closing])).append
      (paired_enclosed (by simp [openers]) (by decide))
  · apply paired_plain
    revert h
    cases t <;> cases k <;> decide

theorem paired_paramDoc {params : List (Text × Text)} {indent : Text}
    (hindent : Paired javascript.openers indent)
    (hparams : ∀ p ∈ params, Paired javascript.openers p.1 ∧
      ∃ k, p.2 = javascript.typeName k) :
    Paired javascript.openers (paramDoc params indent) := by
  have hline : ∀ p ∈ params,
      Paired javascript.openers
        (indent ++ " * @param \x7b" ++ p.2 ++ "\x7d " ++ p.1) := by
    intro p hp
    obtain ⟨hname, k, hk⟩ := hparams p hp
    have hopener : opening :: javascript.typeName k ∈ javascript.openers := by
      cases k <;> decide
    have hplain : closing ∉ opening :: javascript.typeName k := by
      cases k <;> decide
    -- the brace before the type and the type make up an opener
    have hsplit : indent ++ (" * @param \x7b" : Text) ++ p.2 ++ "\x7d " ++ p.1 =
        indent ++ " * @param " ++
        ((opening :: javascript.typeName k) ++ [closing]) ++ [' '] ++
          p.1 := by
      rw [hk]
      simp [opening, closing]
    rw [hsplit]
    exact (((hindent.append (paired_plain (by simp [closing]))).append
      (paired_enclosed hopener hplain)).append (paired_plain
        (by simp [closing]))).append hname
  have hfeed : Paired javascript.openers ['\n'] :=
    paired_plain (by simp [closing])
  have hlines : Paired javascript.openers (Text.unlines (params.map fun p =>
      indent ++ " * @param \x7b" ++ p.2 ++ "\x7d " ++ p.1)) :=
    paired_join hfeed (List.forall_mem_map.mpr hline)
  delta paramDoc
  (repeat' with_reducible apply Paired.append) <;>
    first | with_reducible assumption | exact paired_plain (by simp [closing])

/-- A header is paired where the names of the function and its parameters
are. -/
theorem paired_functionHeader (t : Target) {name indent : Text}
    {params : List (Text × Text)} (hname : Paired t.openers name)
    (hindent : Paired t.openers indent)
    (hparams : ∀ p ∈ params, Paired t.openers p.1 ∧ ∃ k, p.2 = t.typeName k) :
    Paired t.openers (t.functionHeader name params indent) := by
  have htype : ∀ p ∈ params, Paired t.openers p.2 := by
    intro p hp
    obtain ⟨-, k, hk⟩ := hparams p hp
    rw [hk]
    exact paired_typeName t k
  have hlist : ∀ f : Text × Text →
      Text, (∀ p ∈ params, Paired t.openers (f p)) →
      Paired t.openers (Text.join ", " (params.map f)) := by
    intro f hf
    exact paired_join (paired_plain (by simp [closing]))
      (List.forall_mem_map.mpr hf)
  have hnames := hlist Prod.fst fun p hp => (hparams p hp).1
  have hgo := hlist (fun p => p.1 ++ " " ++ p.2) fun p hp =>
    ((hparams p hp).1.append (paired_plain (by simp [closing]))).append
      (htype p hp)
  have hphp := hlist (fun p => p.2 ++ " $" ++ p.1) fun p hp =>
    ((htype p hp).append (paired_plain (by simp [closing]))).append
      (hparams p hp).1
  have hcsharp := hlist (fun p => p.2 ++ " " ++ p.1) fun p hp =>
    ((htype p hp).append (paired_plain (by simp [closing]))).append
      (hparams p hp).1
  cases t with
  | javascript =>
      have hdoc := paired_paramDoc hindent hparams
      delta functionHeader
      dsimp only
      split <;> (repeat' with_reducible apply Paired.append) <;>
        first
        | with_reducible assumption
        | exact paired_plain (by simp [closing])
  | _ =>
      delta functionHeader
      dsimp only
      (repeat' with_reducible apply Paired.append) <;>
        first
        | with_reducible assumption
        | exact paired_plain (by simp [closing])

/-! ## Statements that pass braces on -/

theorem deficit_plain {u : Text} (hopen : opening ∉ u) (hclose : closing ∉ u) :
    deficit u = 0 := by
  rw [deficit, List.count_eq_zero.mpr hopen, List.count_eq_zero.mpr hclose]
  rfl

theorem deficit_phpVariable (e : Text) :
    deficit (phpVariable e) = deficit e := by
  rw [phpVariable]
  split
  · show deficit (['$'] ++ e) = deficit e
    rw [deficit_append, deficit_plain (by decide) (by decide), Int.zero_add]
  · rfl

/-- A scaler in braces closes the block that it opens. -/
theorem deficit_scaler (t : Target) (name low high : Text) :
    deficit (t.scaler name low high) =
      deficit name + deficit low + deficit high := by
  cases t with
  | javascript =>
      have hopen : deficit " = new MinMaxScaler(\x7b featureRange: [" =
          1 := by decide
      have hclose : deficit "] \x7d);" = -1 := by decide
      delta scaler
      dsimp only
      simp (disch := simp [opening, closing]) only [deficit_append,
        deficit_plain, hopen, hclose]
      omega
  | _ =>
      delta scaler
      dsimp only
      simp (disch := simp [opening, closing]) only [deficit_append,
        deficit_plain]
      omega

theorem deficit_pairReturn (t : Target) (x y : Text) :
    deficit (t.pairReturn x y) = deficit x + deficit y := by
  cases t <;> delta pairReturn <;> dsimp only <;>
    simp (disch := simp [opening, closing]) only [deficit_append, deficit_plain,
      deficit_phpVariable] <;> omega

end Target

end Recast
