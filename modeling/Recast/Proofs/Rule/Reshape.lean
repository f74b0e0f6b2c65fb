import Recast.Proofs.Rule.Argument
import Recast.Proofs.Rule.Stages

/-!
# Values that are reshaped

The rule `numpy_reshape` rewrites `np.array(v).reshape(r, c)`. Its pattern takes
the values up to the first `).reshape(`, here called the seam, and the shape up
to the first bracket that closes after it. `substitute_call_iff` says for which
arguments this gives the matrix of `v`, `r` and `c`.

If the values have a seam of their own, the rule rewrites too little: each match
uses up one seam (`occurrences_replaced`), and the matrix has just one seam less
than the call, so that there would be one match only, with the last seam left
over.
-/

namespace Recast

open Pattern

namespace Reshape

/-- What stands between values and shape. -/
def seam : Text := ").reshape("

theorem seam_ne_nil : seam ≠ [] := by decide

/-! ## How often a text occurs in another -/

/-- No occurrence of `s` begins before `b` and reaches into it. -/
def Apart (s b : Text) : Prop := ∀ y, y <:+ s.tail → y ≠ [] → ¬ y <+: b

theorem apart_cons {s : Text} {c : Char} (hc : c ∉ s.tail) (b : Text) :
    Apart s (c :: b) := by
  rintro (_ | ⟨d, y⟩) hy hne ⟨z, hz⟩
  · exact hne rfl
  · obtain rfl : d = c := (List.cons.inj hz).1
    exact hc (hy.subset List.mem_cons_self)

theorem Apart.prefix_left {s a b : Text} (h : Apart s b) (ha : a ≠ [])
    (hs : s <+: a ++ b) : s <+: a := by
  rcases List.prefix_or_prefix_of_prefix hs (List.prefix_append a b) with
    hleft | ⟨y, rfl⟩
  · exact hleft
  · obtain ⟨c, a, rfl⟩ := List.exists_cons_of_ne_nil ha
    have hy : y <+: b := (List.prefix_append_right_inj _).mp hs
    by_cases hnil : y = []
    · simp [hnil]
    · exact absurd hy (h y (List.suffix_append a y) hnil)

/-- How often `s` occurs. -/
def occurrences (s : Text) : Text → Nat
  | [] => 0
  | c :: t => (if s.isPrefixOf (c :: t) then 1 else 0) + occurrences s t

theorem occurrences_append {s b : Text} (h : Apart s b) (a : Text) :
    occurrences s (a ++ b) = occurrences s a + occurrences s b := by
  induction a with
  | nil => simp [occurrences]
  | cons c a ih =>
      have hfirst : s.isPrefixOf (c :: a ++ b) = s.isPrefixOf (c :: a) := by
        rw [Bool.eq_iff_iff, List.isPrefixOf_iff_prefix,
          List.isPrefixOf_iff_prefix]
        exact ⟨h.prefix_left (by simp),
          fun hs => hs.trans (List.prefix_append _ _)⟩
      rw [List.cons_append, occurrences, ← List.cons_append, hfirst, ih,
        occurrences, Nat.add_assoc]

theorem occurrences_eq_zero {s t : Text} (h : ¬ s <:+: t) :
    occurrences s t = 0 := by
  induction t with
  | nil => rfl
  | cons c t ih =>
      have hfirst : s.isPrefixOf (c :: t) = false := by
        rw [← Bool.not_eq_true, List.isPrefixOf_iff_prefix]
        exact fun hs => h hs.isInfix
      rw [occurrences, hfirst,
        ih fun hs => h (hs.trans (List.suffix_cons c t).isInfix)]
      rfl

theorem occurrences_cons_of_ne {c : Char} (hc : c ≠ ')') (t : Text) :
    occurrences seam (c :: t) = occurrences seam t := by
  have hfirst : seam.isPrefixOf (c :: t) = false := by
    rw [← Bool.not_eq_true, List.isPrefixOf_iff_prefix]
    rintro ⟨z, hz⟩
    exact hc (List.cons.inj hz).1.symm
  rw [occurrences, hfirst]
  simp

theorem occurrences_skip {a : Text} (h : ')' ∉ a) (b : Text) :
    occurrences seam (a ++ b) = occurrences seam b := by
  induction a with
  | nil => rfl
  | cons c a ih =>
      rw [List.mem_cons, not_or] at h
      rw [List.cons_append, occurrences_cons_of_ne (Ne.symm h.1), ih h.2]

theorem occurrences_of_no_close {t : Text} (h : ')' ∉ t) :
    occurrences seam t = 0 := by
  rw [← List.append_nil t, occurrences_skip h]
  rfl

theorem occurrences_seam_append (t : Text) :
    occurrences seam (seam ++ t) = 1 + occurrences seam t := by
  have hcons : seam ++ t = ')' :: (".reshape(".toList ++ t) := rfl
  have hfirst : seam.isPrefixOf (seam ++ t) = true :=
    List.isPrefixOf_iff_prefix.mpr (List.prefix_append _ _)
  rw [hcons] at hfirst ⊢
  rw [occurrences, hfirst, occurrences_skip (by decide)]
  rfl

theorem apart_close (t : Text) : Apart seam (')' :: t) :=
  apart_cons (by decide) t

theorem apart_seam (t : Text) : Apart seam (seam ++ t) := apart_close _

theorem apart_comma (t : Text) : Apart seam (',' :: t) :=
  apart_cons (by decide) t

theorem apart_dot {c : Char} (hc : c ≠ 'r') (t : Text) :
    Apart seam ('.' :: c :: t) := by
  rintro y hy hne ⟨z, hz⟩
  have htail : seam.tail = '.' :: 'r' :: "eshape(".toList := by decide
  rw [htail, List.suffix_cons_iff] at hy
  rcases hy with rfl | hy
  · exact hc (List.cons.inj (List.cons.inj hz).2).1.symm
  · obtain ⟨d, y, rfl⟩ := List.exists_cons_of_ne_nil hne
    obtain rfl : d = '.' := (List.cons.inj hz).1
    exact absurd (hy.subset List.mem_cons_self) (by decide)

/-! ## What is matched -/

theorem picks {before : Option Char} {x s rest : Text}
    (hx : ∀ c ∈ x, isInline c = true) (hs : ∀ c ∈ s, isInline c = true)
    (hseam : ¬ seam <:+: x) (hclose : ')' ∉ s) :
    Idiom.reshapePattern.Picks (fun _ _ => True) before
      ("np.array(" ++ (x ++ (seam ++ (s ++ ")")))) rest
      [some x, some s] := by
  simp only [Idiom.reshapePattern, picks_append_assoc]
  apply Picks.literal_append
  apply Picks.group_shortest_append hx
  · intro y w hw hxy hreaches
    have hprefix : seam <+: w ++ ((seam ++ (s ++ ")")) ++ rest) :=
      hreaches.of_append.literal_prefix
    rw [List.append_assoc] at hprefix
    have hleft := (apart_seam _).prefix_left hw hprefix
    exact hseam (hxy ▸ hleft.isInfix.trans (List.suffix_append y w).isInfix)
  · exact Picks.literal_append (picks_group_close hs hclose)

/-- A text with a seam, and brackets that close after each, is cut at the first
seam and at the first bracket that closes after it. -/
theorem exists_cut {w : Text} (hseam : seam <:+: w)
    (hclose : ∀ a z, w = a ++ (seam ++ z) → ')' ∈ z) :
    ∃ x s rest, w = x ++ (seam ++ (s ++ ')' :: rest)) ∧
      ¬ seam <:+: x ∧ ')' ∉ s := by
  have hplace : ∃ u v, w = u ++ v ∧ seam <+: v := by
    obtain ⟨a, b, rfl⟩ := hseam
    exact ⟨a, seam ++ b, List.append_assoc .., List.prefix_append _ _⟩
  obtain ⟨x, v, rfl, ⟨z, rfl⟩, hfirst⟩ := Text.exists_first_place hplace
  have hz := hclose x z rfl
  refine ⟨x, Text.before ')' z, Text.after ')' z,
    by rw [Text.before_append_after hz], ?_, Text.not_mem_before _ _⟩
  rintro ⟨p, q, rfl⟩
  exact hfirst p (seam ++ q) (by simp [seam_ne_nil]) (by simp)
    ⟨q ++ (seam ++ z), by simp⟩

/-- In a text that ends with a closing bracket one follows each seam. -/
theorem close_mem_after {a z w : Text} (h : w ++ ")" = a ++ (seam ++ z)) :
    ')' ∈ z := by
  have hend : (a ++ (seam ++ z)).getLast? = some ')' := by
    rw [← h]
    exact List.getLast?_concat
  rw [← List.append_assoc, List.getLast?_append] at hend
  cases hz : z.getLast? with
  | none =>
      have hseam : seam.getLast? = some '(' := by decide
      rw [hz, Option.none_or, List.getLast?_append, hseam,
        Option.some_or] at hend
      exact absurd hend (by decide)
  | some c =>
      rw [hz, Option.some_or, Option.some_inj] at hend
      exact hend ▸ List.mem_of_getLast? hz

/-- What a match looks like. -/
theorem of_matchAt {before : Option Char} {t : Text} {m : Match}
    (h : Idiom.reshapePattern.matchAt before t = some m) :
    ∃ x s, m.text = "np.array(" ++ (x ++ (seam ++ (s ++ ")"))) ∧
      m.groups = [some x, some s] ∧
      ¬ seam <:+: x ∧ ')' ∉ s := by
  obtain ⟨rest, rfl, -, hread⟩ := matchAt_reads h
  simp only [Idiom.reshapePattern, reads_append_assoc, reads_literal_append,
    reads_group_append] at hread
  obtain ⟨w, htext, x₀, _, _, _, rfl, -, hx₀, _, rfl, s₀, _, _, _, rfl, -, hs₀,
    hlast⟩ := hread
  obtain ⟨rfl, -⟩ := reads_literal_iff.mp hlast
  have hx := (reads_many_iff.mp hx₀).1
  have hs := (reads_many_iff.mp hs₀).1
  have hseam : seam <:+: x₀ ++ (seam ++ (s₀ ++ ")".toList)) :=
    ⟨x₀, s₀ ++ ")".toList, by simp⟩
  have hinline : ∀ c ∈ x₀ ++ (seam ++ (s₀ ++ ")".toList)),
      isInline c = true := by
    simp only [List.forall_mem_append]
    exact ⟨hx, List.all_eq_true.mp (by decide), hs,
      List.all_eq_true.mp (by decide)⟩
  obtain ⟨x, s, later, hcut, hfree, hclose⟩ := exists_cut hseam
    fun a z haz => close_mem_after (w := x₀ ++ (seam ++ s₀))
      (by rw [← haz]; simp)
  rw [hcut] at hinline
  simp only [List.forall_mem_append] at hinline
  have hpicks : Idiom.reshapePattern.Picks _ before _ (later ++ rest) _ :=
    picks hinline.1 hinline.2.2.1 hfree hclose
  obtain ⟨m', hm', htext', hgroups⟩ := hpicks.matchAt_eq (by simp)
  have hsame : "np.array(".toList ++ (x ++ (seam ++ (s ++ ")".toList))) ++
      (later ++ rest) = m.text ++ rest := by
    have hwhole : m.text =
        "np.array(".toList ++ (x₀ ++ (seam ++ (s₀ ++ ")".toList))) := htext
    rw [hwhole, hcut]
    simp
  rw [hsame, h, Option.some_inj] at hm'
  exact ⟨x, s, hm' ▸ htext', hm' ▸ hgroups, hfree, hclose⟩

/-! ## What is written -/

/-- What is written before the rows. -/
def front : Target → Text → Text
  | .go, _ => "mat.NewDense("
  | .php, v => "(new \\MathPHP\\LinearAlgebra\\Matrix(" ++
    (Target.phpVariable v ++ "))->reshape(")
  | .javascript, _ => "matrix.Matrix.from1DArray("
  | .csharp, _ => "Matrix<double>.Build.DenseOfColumnMajor("

/-- What is written behind the values. -/
def ending : Target → Text
  | .csharp => ".ToArray()"
  | _ => []

/-- What is written behind the columns. -/
def back : Target → Text → Text
  | .php, _ => ")"
  | t, v => ", " ++ (v ++ (ending t ++ ")"))

theorem reshape_eq (t : Target) (v r c : Text) :
    t.reshape v r c = front t v ++ (r ++ (", " ++ (c ++ back t v))) := by
  cases t with
  | go =>
      show "mat.NewDense(".toList ++ r ++ ", ".toList ++ c ++ ", ".toList ++
        v ++ ")".toList =
        "mat.NewDense(".toList ++
        (r ++ (", ".toList ++
          (c ++ (", ".toList ++ (v ++ ([] ++ ")".toList))))))
      simp only [List.append_assoc, List.nil_append]
  | php =>
      show "(new \\MathPHP\\LinearAlgebra\\Matrix(".toList ++
        Target.phpVariable v ++ "))->reshape(".toList ++ r ++
        ", ".toList ++ c ++ ")".toList =
          "(new \\MathPHP\\LinearAlgebra\\Matrix(".toList ++
        (Target.phpVariable v ++ "))->reshape(".toList) ++
        (r ++ (", ".toList ++ (c ++ ")".toList)))
      simp only [List.append_assoc]
  | javascript =>
      show "matrix.Matrix.from1DArray(".toList ++ r ++ ", ".toList ++ c ++
        ", ".toList ++ v ++ ")".toList =
        "matrix.Matrix.from1DArray(".toList ++
        (r ++ (", ".toList ++
          (c ++ (", ".toList ++ (v ++ ([] ++ ")".toList))))))
      simp only [List.append_assoc, List.nil_append]
  | csharp =>
      have hend : ".ToArray())".toList = ".ToArray()".toList ++ ")".toList := by
        decide
      show "Matrix<double>.Build.DenseOfColumnMajor(".toList ++ r ++
        ", ".toList ++ c ++ ", ".toList ++ v ++
        ".ToArray())".toList =
          "Matrix<double>.Build.DenseOfColumnMajor(".toList ++
          (r ++ (", ".toList ++
            (c ++ (", ".toList ++ (v ++ (".ToArray()".toList ++ ")".toList))))))
      rw [hend]
      simp only [List.append_assoc]

theorem back_eq {t : Target} (ht : t ≠ .php) (v : Text) :
    back t v = ", " ++ (v ++ (ending t ++ ")")) := by
  cases t with
  | php => exact absurd rfl ht
  | go | javascript | csharp => rfl

/-- The parts of a shape. -/
def parts (s : Text) : List Text := (s.fields ',').map Text.trim

/-- The rows that a shape asks for. -/
def rows (t : Target) (v s : Text) : Text :=
  let given := Text.orElse ((parts s)[0]?.getD []) "-1"
  if given = "-1" then t.length v else given

/-- The columns that a shape asks for. -/
def cols (s : Text) : Text := Text.orElse ((parts s)[1]?.getD []) "1"

theorem replaceReshape_of_groups (t : Target) {m : Match} {x s : Text}
    (h : m.groups = [some x, some s]) :
    t.replaceReshape m = t.reshape x.trim (rows t x.trim s) (cols s) := by
  have hgroups : m.group 0 = x ∧ m.group 1 = s := by
    simp [Match.group, h]
  rw [Target.replaceReshape, hgroups.1, hgroups.2]
  rfl

theorem orElse_of_ne_nil {t d : Text} (h : t ≠ []) : Text.orElse t d = t := by
  rw [Text.orElse, if_neg (by simpa using h)]

theorem rows_of_parts {t : Target} {v s r : Text} (h : (parts s)[0]? = some r)
    (hne : r ≠ []) (hminus : r ≠ "-1".toList) : rows t v s = r := by
  have hgiven : Text.orElse ((parts s)[0]?.getD []) "-1" = r := by
    rw [h, Option.getD_some, orElse_of_ne_nil hne]
  simp only [rows, hgiven, if_neg hminus]

theorem rows_cols_of_one {t : Target} {v s : Text} (hcomma : ',' ∉ s)
    (hne : s.trim ≠ []) (hminus : s.trim ≠ "-1".toList) :
    rows t v s = s.trim ∧ cols s = "1" := by
  have hfields : s.fields ',' = [s] := by
    have hjoin := Text.fields_join (List.cons_ne_nil s [])
      (List.forall_mem_singleton.mpr hcomma)
    rwa [Text.join_cons, List.flatMap_nil, List.append_nil] at hjoin
  have hparts : parts s = [s.trim] := by rw [parts, hfields, List.map_singleton]
  exact ⟨rows_of_parts (by rw [hparts]; rfl) hne hminus,
    by rw [cols, hparts]; rfl⟩

theorem rows_cols_of_two {t : Target} {v r s : Text} (hr : Argument r)
    (hcomma : ',' ∉ r) (hminus : r ≠ "-1".toList) (hs : ',' ∉ s)
    (hne : s.trim ≠ []) :
    rows t v (r ++ (", " ++ s)) = r ∧ cols (r ++ (", " ++ s)) = s.trim := by
  have hblank : Text.trim (' ' :: s) = s.trim := by
    rw [Text.trim, List.dropWhile_cons_of_pos (by decide)]
    rfl
  have hfields : Text.fields ',' (Text.join [','] [r, ' ' :: s]) =
      [r, ' ' :: s] :=
    Text.fields_join (by simp) (by simp [hcomma, hs])
  have hjoin : Text.join [','] [r, ' ' :: s] = r ++ (", ".toList ++ s) := by
    rw [Text.join_cons]
    simp
  have hparts : parts (r ++ (", ".toList ++ s)) = [r, s.trim] := by
    rw [parts, ← hjoin, hfields]
    simp [hr.trimmed, hblank]
  refine ⟨rows_of_parts (by rw [hparts]; rfl) hr.ne_nil hminus, ?_⟩
  rw [cols, hparts]
  exact orElse_of_ne_nil hne

/-! ## Each match uses up one seam -/

variable {t : Target}

theorem occurrences_reshape (ht : t ≠ .php) (v r c z : Text) :
    occurrences seam (t.reshape v r c ++ z) =
      occurrences seam r + occurrences seam c + occurrences seam v +
      occurrences seam (')' :: z) := by
  have hfront : ')' ∉ front t v := by
    cases t with
    | php => exact absurd rfl ht
    | go => exact (by decide : ')' ∉ "mat.NewDense(".toList)
    | javascript =>
        exact (by decide : ')' ∉ "matrix.Matrix.from1DArray(".toList)
    | csharp =>
        exact (by decide : ')' ∉ "Matrix<double>.Build.DenseOfColumnMajor(".toList)
  have hend : Apart seam (ending t ++ ')' :: z) := by
    cases t with
    | go | javascript => exact apart_close z
    | php => exact absurd rfl ht
    | csharp => exact apart_dot (by decide) _
  have hnone : occurrences seam (ending t) = 0 := by
    cases t <;> decide
  have hcomma (x : Text) : Apart seam (", " ++ x) := apart_comma (' ' :: x)
  have hskip (x : Text) : occurrences seam (", " ++ x) = occurrences seam x :=
    occurrences_skip (by decide) x
  rw [reshape_eq, back_eq ht]
  simp only [List.append_assoc]
  rw [occurrences_skip hfront, occurrences_append (hcomma _), hskip,
    occurrences_append (hcomma _), hskip]
  show _ + (_ + occurrences seam (v ++ (ending t ++ ')' :: z))) = _
  rw [occurrences_append hend, occurrences_append (apart_close z), hnone]
  omega

theorem occurrences_length (ht : t ≠ .php) (v : Text) :
    occurrences seam (t.length v) = occurrences seam v := by
  cases t with
  | php => exact absurd rfl ht
  | go =>
      show occurrences seam ("len(".toList ++ v ++ [')']) = _
      rw [occurrences_append (apart_close []), occurrences_skip (by decide)]
      rfl
  | javascript =>
      show occurrences seam (v ++ ".length".toList) = _
      exact occurrences_append (apart_dot (by decide) _) v
  | csharp =>
      show occurrences seam (v ++ ".Count()".toList) = _
      exact occurrences_append (apart_dot (by decide) _) v

theorem close_not_mem_part {s : Text} (h : ')' ∉ s) (i : Nat) :
    ')' ∉ (parts s)[i]?.getD [] := by
  cases hi : (parts s)[i]? with
  | none => simp
  | some p =>
      intro hp
      obtain ⟨f, hf, rfl⟩ := List.mem_map.mp (List.mem_of_getElem? hi)
      exact h (Text.mem_of_mem_fieldsBy hf (Text.mem_of_mem_trim hp))

theorem close_not_mem_orElse {a d : Text} (ha : ')' ∉ a) (hd : ')' ∉ d) :
    ')' ∉ Text.orElse a d := by
  rw [Text.orElse]
  split <;> assumption

theorem occurrences_replaceReshape (ht : t ≠ .php) {m : Match} {x s : Text}
    (hgroups : m.groups = [some x, some s]) (hx : ¬ seam <:+: x) (hs : ')' ∉ s)
    (z : Text) :
    occurrences seam (t.replaceReshape m ++ z) =
      occurrences seam (')' :: z) := by
  have hvalues : occurrences seam x.trim = 0 := occurrences_eq_zero fun h =>
    hx (h.trans x.trim_infix)
  have hrows : occurrences seam (rows t x.trim s) = 0 := by
    rw [rows]
    split
    · rw [occurrences_length ht, hvalues]
    · exact occurrences_of_no_close
        (close_not_mem_orElse (close_not_mem_part hs 0) (by decide))
  have hcols : occurrences seam (cols s) = 0 :=
    occurrences_of_no_close
      (close_not_mem_orElse (close_not_mem_part hs 1) (by decide))
  rw [replaceReshape_of_groups t hgroups, occurrences_reshape ht, hvalues,
    hrows, hcols]
  omega

/-- A matrix starts with a letter that a match does not start with. -/
theorem head?_replaceReshape (ht : t ≠ .php) {m : Match} {x s : Text}
    (hgroups : m.groups = [some x, some s]) :
    ∃ c z, t.replaceReshape m = c :: z ∧ (c = 'm' ∨ c = 'M') := by
  rw [replaceReshape_of_groups t hgroups, reshape_eq]
  cases t with
  | php => exact absurd rfl ht
  | go | javascript => exact ⟨'m', _, rfl, Or.inl rfl⟩
  | csharp => exact ⟨'M', _, rfl, Or.inr rfl⟩

/-- What the text starts with stays, as long as it has no letter that a match or
a matrix starts with. -/
theorem prefix_replaced_iff (ht : t ≠ .php) {before : Option Char} {x w : Text}
    {ss : List Segment} (h : Idiom.reshapePattern.Divides before x ss)
    (hw : 'n' ∉ w ∧ 'm' ∉ w ∧ 'M' ∉ w) :
    w <+: x ↔ w <+: ss.flatMap (·.replaced t.replaceReshape) := by
  induction h generalizing w with
  | nil => exact Iff.rfl
  | @gap before c cs ss h tail ih =>
      cases w with
      | nil => simp
      | cons d w =>
          simp only [List.mem_cons, not_or] at hw
          rw [List.flatMap_cons, Segment.replaced_gap, List.singleton_append,
            List.cons_prefix_cons, List.cons_prefix_cons,
            ih ⟨hw.1.2, hw.2.1.2, hw.2.2.2⟩]
  | @hit before m rest ss h read tail ih =>
      cases w with
      | nil => simp
      | cons d w =>
          obtain ⟨y, s, htext, hgroups, -, -⟩ := of_matchAt h
          obtain ⟨c, z, hc, hletter⟩ := head?_replaceReshape ht hgroups
          simp only [List.mem_cons, not_or] at hw
          obtain ⟨⟨hn, -⟩, ⟨hm, -⟩, ⟨hM, -⟩⟩ := hw
          have hmatch : ¬ d :: w <+: m.text ++ rest := by
            rintro ⟨q, hq⟩
            rw [htext] at hq
            exact hn (List.cons.inj hq).1.symm
          have hmatrix : ¬ d :: w <+:
              (Segment.hit m :: ss).flatMap (·.replaced t.replaceReshape) := by
            rintro ⟨q, hq⟩
            rw [List.flatMap_cons, Segment.replaced_hit, hc] at hq
            obtain rfl : d = c := (List.cons.inj hq).1
            exact hletter.elim (Ne.symm hm) (Ne.symm hM)
          exact ⟨fun hleft => absurd hleft hmatch,
            fun hright => absurd hright hmatrix⟩

theorem occurrences_replaced (ht : t ≠ .php) {before : Option Char} {x : Text}
    {ss : List Segment} (h : Idiom.reshapePattern.Divides before x ss) :
    occurrences seam x =
      occurrences seam (ss.flatMap (·.replaced t.replaceReshape)) +
      (ss.filterMap Segment.hit?).length := by
  -- a seam that starts in front of the text goes on in it or does not, before
  -- and after
  have hcons {before : Option Char} {x : Text} {ss : List Segment}
      (h : Idiom.reshapePattern.Divides before x ss)
      (c : Char) : seam.isPrefixOf (c :: x) =
        seam.isPrefixOf (c :: ss.flatMap (·.replaced t.replaceReshape)) := by
    have hseam : seam = ')' :: ".reshape(".toList := by decide
    have htail : 'n' ∉ ".reshape(".toList ∧ 'm' ∉ ".reshape(".toList ∧
        'M' ∉ ".reshape(".toList := by decide
    rw [Bool.eq_iff_iff, List.isPrefixOf_iff_prefix, List.isPrefixOf_iff_prefix,
      hseam, List.cons_prefix_cons, List.cons_prefix_cons,
      prefix_replaced_iff ht h htail]
  induction h with
  | nil => rfl
  | @gap before c cs ss h tail ih =>
      rw [List.flatMap_cons, Segment.replaced_gap, List.singleton_append,
        List.filterMap_cons_none rfl, occurrences, occurrences, hcons tail c,
        ih, Nat.add_assoc]
  | @hit before m rest ss h read tail ih =>
      obtain ⟨y, s, htext, hgroups, hy, hs⟩ := of_matchAt h
      have hmatch : occurrences seam (m.text ++ rest) =
          1 + occurrences seam (')' :: rest) := by
        rw [htext]
        simp only [List.append_assoc]
        rw [occurrences_skip (by decide), occurrences_append (apart_seam _),
          occurrences_eq_zero hy, occurrences_seam_append, occurrences_skip hs,
          Nat.zero_add]
        rfl
      have hhits : (Segment.hit m :: ss).filterMap Segment.hit? =
          m :: ss.filterMap Segment.hit? := rfl
      rw [hmatch, List.flatMap_cons, Segment.replaced_hit,
        occurrences_replaceReshape ht hgroups hy hs, hhits, List.length_cons,
        occurrences, occurrences, hcons tail, ih]
      omega

/-! ## Calls -/

/-- What becomes of a text that starts with a match. -/
theorem substitute_cut (t : Target) {x s : Text}
    (hx : ∀ c ∈ x, isInline c = true) (hs : ∀ c ∈ s, isInline c = true)
    (hfree : ¬ seam <:+: x) (hclose : ')' ∉ s) (later : Text) :
    Idiom.reshapePattern.substitute t.replaceReshape
      ("np.array(" ++ (x ++ (seam ++ (s ++ ")"))) ++ later) =
      t.reshape x.trim (rows t x.trim s) (cols s) ++
        Idiom.reshapePattern.substituteFrom t.replaceReshape
          (some ')') later := by
  obtain ⟨m, hgroups, hm⟩ := (picks hx hs hfree hclose).substituteFrom_append
    (by simp) t.replaceReshape
  have hlast : Text.lastOr none ("np.array(".toList ++
      (x ++ (seam ++ (s ++ ")".toList)))) = some ')' := by
    simp only [Text.lastOr_append]
    rfl
  rw [replaceReshape_of_groups t hgroups, hlast] at hm
  exact hm

/-- `np.array(v).reshape(r, c)`. -/
def call (v r c : Text) : Text :=
  "np.array(" ++ (v ++ (seam ++ (r ++ (", " ++ (c ++ ")")))))

variable {v r c : Text}

/-- Values with a seam of their own are cut there. -/
theorem exists_inner_cut (hv : Argument v) (hseam : seam <:+: v) :
    ∃ x s rest, v = x ++ (seam ++ (s ++ ')' :: rest)) ∧ ¬ seam <:+: x ∧
      ')' ∉ s ∧ '(' ∈ x := by
  have hdepth : Text.depth seam = 0 := by decide
  obtain ⟨x, s, rest, rfl, hfree, hclose⟩ := exists_cut hseam (fun a z haz => by
    have hopen : 0 < Text.depth a :=
      Text.Nested.depth_before_close (b := ".reshape(" ++ z) (haz ▸ hv.nested)
    have hall := hv.nested.depth_eq
    rw [haz, Text.depth_append, Text.depth_append, hdepth] at hall
    exact Text.close_mem_of_depth_neg (by omega))
  refine ⟨x, s, rest, rfl, hfree, hclose, ?_⟩
  exact Text.open_mem_of_depth_pos (Text.Nested.depth_before_close
    (b := ".reshape(" ++ (s ++ ')' :: rest)) hv.nested)

theorem call_inner (x s rest r c : Text) :
    call (x ++ (seam ++ (s ++ ')' :: rest))) r c =
      "np.array(" ++ (x ++ (seam ++ (s ++ ")"))) ++
      (rest ++ (seam ++ (r ++ (", " ++ (c ++ ")"))))) := by
  show "np.array(".toList ++ (x ++ (seam ++ (s ++ (")".toList ++ rest))) ++
    (seam ++ (r ++ (", ".toList ++ (c ++ ")".toList))))) = _
  simp only [List.append_assoc]

/-- A call has one seam more than its arguments, and a matrix has as many as
they have. -/
theorem occurrences_call (ht : t ≠ .php) (v r c : Text) :
    occurrences seam (call v r c) = 1 + occurrences seam (t.reshape v r c) := by
  have hcomma (x : Text) : occurrences seam (r ++ (", " ++ x)) =
      occurrences seam r + occurrences seam x := by
    have happart : Apart seam (", " ++ x) := apart_comma (' ' :: x)
    rw [occurrences_append happart, occurrences_skip (by decide)]
  have hlast : occurrences seam (c ++ ")") = occurrences seam c := by
    have happart : Apart seam ")" := apart_close []
    rw [occurrences_append happart]
    rfl
  have hmatrix := occurrences_reshape ht v r c []
  rw [List.append_nil, show occurrences seam [')'] = 0 from rfl] at hmatrix
  show occurrences seam ("np.array(".toList ++
    (v ++ (seam ++ (r ++ (", ".toList ++ (c ++ ")".toList)))))) = _
  rw [occurrences_skip (by decide), occurrences_append (apart_seam _),
    occurrences_seam_append, hcomma, hlast, hmatrix]
  omega

/-- A matrix does not end with a shape: what stands before it would have closed
all brackets. -/
theorem shape_not_suffix (ht : t ≠ .php) (hv : Argument v) (hr : Argument r)
    (hc : Argument c) (hlength : seam.length ≤ v.length) :
    ¬ ".reshape(".toList ++
    (r ++ (", ".toList ++ (c ++ ")".toList))) <:+ t.reshape v r c := by
  intro hsuffix
  let body := r ++ (", ".toList ++ (c ++ (", ".toList ++ (v ++ ending t))))
  have hmatrix : t.reshape v r c = front t v ++ (body ++ ")".toList) := by
    rw [reshape_eq, back_eq ht]
    simp only [body, List.append_assoc]
  have hbody : Text.Nested body := by
    have hcomma : Text.Nested ", " := by decide
    have hend : Text.Nested (ending t) := by cases t <;> decide
    exact hr.nested.append
      (hcomma.append (hc.nested.append (hcomma.append (hv.nested.append hend))))
  -- the shape is shorter than the arguments of the matrix, so it lies among
  -- them
  rw [hmatrix] at hsuffix
  have hinner : ".reshape(".toList ++
      (r ++ (", ".toList ++ (c ++ ")".toList))) <:+ body ++ ")".toList := by
    refine List.suffix_of_suffix_length_le hsuffix (List.suffix_append _ _) ?_
    have hten : seam.length = 10 := by decide
    have hnine : ".reshape(".toList.length = 9 := by decide
    simp only [body, List.length_append]
    omega
  obtain ⟨z, hz⟩ := hinner
  have hsplit :
      z ++ (".reshape(".toList ++ (r ++ (", ".toList ++ c))) = body := by
    have hboth : z ++ (".reshape(".toList ++ (r ++ (", ".toList ++ c))) ++
        ")".toList = body ++ ")".toList := by
      rw [← hz]
      simp only [List.append_assoc]
    exact List.append_cancel_right hboth
  have hdepth := Text.Nested.depth_right (hsplit ▸ hbody)
  rw [Text.depth_append, Text.depth_append, Text.depth_append,
    hr.nested.depth_eq, hc.nested.depth_eq] at hdepth
  exact absurd hdepth (by decide)

/-- Where the values have a seam, the call does not become their matrix: there
would be one match only. -/
theorem inner_call_ne (ht : t ≠ .php) (hv : Argument v) (hr : Argument r)
    (hc : Argument c) (hseam : seam <:+: v) :
    Idiom.reshapePattern.substitute t.replaceReshape (call v r c) ≠
      t.reshape v r c := by
  intro heq
  apply shape_not_suffix ht hv hr hc hseam.length_le
  obtain ⟨x, s, rest, rfl, hfree, hclose, -⟩ := exists_inner_cut hv hseam
  let later := rest ++ (seam ++ (r ++ (", ".toList ++ (c ++ ")".toList))))
  obtain ⟨ss, htail⟩ : ∃ ss, Idiom.reshapePattern.Divides
      (Text.lastOr none
        ("np.array(".toList ++ (x ++ (seam ++ (s ++ ")".toList))))) later ss :=
    ⟨_, Idiom.reshapePattern.divides_segmentsFrom _ later⟩
  have hinline := hv.inline
  simp only [List.forall_mem_append] at hinline
  obtain ⟨m, -, -, hdivides⟩ :=
    (picks hinline.1 hinline.2.2.1 hfree hclose).divides_append (by simp) htail
  rw [← call_inner] at hdivides
  have hreplaced := hdivides.substituteFrom_eq.symm.trans heq
  -- there is no match after the first
  have hnone : ss.filterMap Segment.hit? = [] := by
    have hcount := occurrences_replaced ht hdivides
    have hhits : (Segment.hit m :: ss).filterMap Segment.hit? =
        m :: ss.filterMap Segment.hit? := rfl
    rw [hreplaced, occurrences_call ht, hhits, List.length_cons] at hcount
    exact List.length_eq_zero_iff.mp (by omega)
  rw [List.flatMap_cons, htail.replaced_eq_self hnone] at hreplaced
  rw [← hreplaced]
  exact ⟨(Segment.hit m).replaced t.replaceReshape ++ (rest ++ ")".toList),
    by simp [later]; rfl⟩

theorem inner_call_ne_php (hv : Argument v) (hseam : seam <:+: v) :
    Idiom.reshapePattern.substitute Target.php.replaceReshape (call v r c) ≠
      Target.php.reshape v r c := by
  obtain ⟨x, s, rest, rfl, hfree, hclose, hopen⟩ := exists_inner_cut hv hseam
  have hinline := hv.inline
  simp only [List.forall_mem_append] at hinline
  have hphp (y z : Text) : front .php y ++ z =
      "(new \\MathPHP\\LinearAlgebra\\Matrix(".toList ++
      (Target.phpVariable y ++ ("))->reshape(".toList ++ z)) := by
    show "(new \\MathPHP\\LinearAlgebra\\Matrix(".toList ++
      (Target.phpVariable y ++ "))->reshape(".toList) ++ z = _
    simp only [List.append_assoc]
  have hvariable : Target.phpVariable x.trimEnd = x.trimEnd :=
    Target.phpVariable_of_open_mem (Text.mem_trimEnd (by decide) hopen)
  intro heq
  rw [call_inner, substitute_cut _ hinline.1 hinline.2.2.1 hfree hclose,
    reshape_eq, reshape_eq, Text.trim_of_trim_append hv.trimmed,
    List.append_assoc, hphp, hphp, hvariable,
    Target.phpVariable_of_open_mem (List.mem_append_left _ hopen)] at heq
  have hvalues := List.append_cancel_left heq
  rw [List.append_assoc x] at hvalues
  -- a second bracket follows the values of the matrix, and a dot those of the
  -- call
  obtain ⟨-, -, hnext⟩ := Text.trimEnd_append_cons_inj (d := ')') (e := ')')
    (by decide) hvalues
  exact absurd (List.cons.inj hnext).1 (by decide)

/-! ## Values without a seam -/

theorem call_cut {s later : Text}
    (h : r ++ (", " ++ (c ++ ")")) = s ++ (")" ++ later)) (v : Text) :
    call v r c = "np.array(" ++ (v ++ (seam ++ (s ++ ")"))) ++ later := by
  show "np.array(".toList ++
    (v ++ (seam ++ (r ++ (", ".toList ++ (c ++ ")".toList))))) = _
  rw [h]
  simp only [List.append_assoc]

/-- Arguments without brackets are taken as they stand. -/
theorem plain_call_eq (t : Target) (hv : Argument v) (hr : Argument r)
    (hc : Argument c) (hrows : ',' ∉ r) (hminus : r ≠ "-1".toList)
    (hcols : ',' ∉ c) (hfree : ¬ seam <:+: v) (hclose : ')' ∉ r)
    (hclose' : ')' ∉ c) :
    Idiom.reshapePattern.substitute t.replaceReshape (call v r c) =
      t.reshape v r c := by
  have hs : ∀ d ∈ r ++ (", ".toList ++ c), isInline d = true := by
    simp only [List.forall_mem_append]
    exact ⟨hr.inline, List.all_eq_true.mp (by decide), hc.inline⟩
  have hne : c.trim ≠ [] := by
    rw [hc.trimmed]
    exact hc.ne_nil
  have hcut : r ++ (", ".toList ++ (c ++ ")".toList)) =
      r ++ (", ".toList ++ c) ++ (")".toList ++ []) := by
    simp only [List.append_assoc, List.append_nil]
  obtain ⟨hr', hc'⟩ :=
    rows_cols_of_two (t := t) (v := v) hr hrows hminus hcols hne
  rw [call_cut hcut, substitute_cut t hv.inline hs hfree
    (by simp [hclose, hclose']), hv.trimmed, hr', hc', hc.trimmed]
  exact List.append_nil _

/-- Rows with brackets are cut short. -/
theorem rows_call_ne (t : Target) (hv : Argument v) (hr : Argument r)
    (hrows : ',' ∉ r) (hfree : ¬ seam <:+: v) (hclose : ')' ∈ r) :
    Idiom.reshapePattern.substitute t.replaceReshape (call v r c) ≠
      t.reshape v r c := by
  obtain ⟨s, q, rfl, hnot, hopen, htrim⟩ := hr.exists_close hclose
  have hs : ∀ d ∈ s, isInline d = true :=
    (List.forall_mem_append.mp hr.inline).1
  have hopen' : '(' ∈ s.trim := htrim ▸ Text.mem_trimEnd (by decide) hopen
  obtain ⟨hr', hc'⟩ := rows_cols_of_one (t := t) (v := v)
    (fun h => hrows (List.mem_append_left _ h))
    (List.ne_nil_of_mem hopen') (fun h => absurd (h ▸ hopen') (by decide))
  have hcut : s ++ ')' :: q ++ (", ".toList ++ (c ++ ")".toList)) =
      s ++ (")".toList ++ (q ++ (", ".toList ++ (c ++ ")".toList)))) := by
    rw [List.append_assoc]
    rfl
  intro heq
  rw [call_cut hcut, substitute_cut t hv.inline hs hfree hnot, hv.trimmed, hr',
    hc', htrim, reshape_eq, reshape_eq, List.append_assoc] at heq
  have hshape := List.append_cancel_left heq
  rw [List.append_assoc, List.append_assoc s] at hshape
  obtain ⟨-, hcomma, -⟩ := Text.trimEnd_append_cons_inj (d := ',') (e := ')')
    (by decide) hshape
  exact absurd hcomma (by decide)

/-- Of columns with brackets what is taken ends before the first that closes. -/
theorem cols_call_iff (t : Target) (hv : Argument v) (hr : Argument r)
    (hrows : ',' ∉ r) (hminus : r ≠ "-1".toList) (hfree : ¬ seam <:+: v)
    (hclose : ')' ∉ r) {s q : Text} (hc : Argument (s ++ ')' :: q))
    (hcols : ',' ∉ s) (hnot : ')' ∉ s) (hopen : '(' ∈ s)
    (htrim : s.trim = s.trimEnd) :
    Idiom.reshapePattern.substitute t.replaceReshape
      (call v r (s ++ ')' :: q)) = t.reshape v r (s ++ ')' :: q) ↔
      s.trimEnd ++
      (back t v ++ Idiom.reshapePattern.substituteFrom t.replaceReshape
        (some ')') (q ++ ")")) =
        s ++ ')' :: (q ++ back t v) := by
  have hopen' : '(' ∈ s.trim := htrim ▸ Text.mem_trimEnd (by decide) hopen
  obtain ⟨hr', hc'⟩ := rows_cols_of_two (t := t) (v := v) hr hrows hminus hcols
    (List.ne_nil_of_mem hopen')
  have hs : ∀ d ∈ r ++ (", ".toList ++ s), isInline d = true := by
    simp only [List.forall_mem_append]
    exact ⟨hr.inline, List.all_eq_true.mp (by decide),
      (List.forall_mem_append.mp hc.inline).1⟩
  have hcut : r ++ (", ".toList ++ (s ++ ')' :: q ++ ")".toList)) =
      r ++ (", ".toList ++ s) ++ (")".toList ++ (q ++ ")".toList)) := by
    simp only [List.append_assoc]
    rfl
  rw [call_cut hcut,
    substitute_cut t hv.inline hs hfree (by simp [hclose, hnot]), hv.trimmed,
    hr', hc', htrim, reshape_eq, reshape_eq]
  simp only [List.append_assoc, List.append_cancel_left_eq, List.cons_append]

/-- In PHP a matrix does not start as a match does, so each match shows. -/
theorem php_substituteFrom_eq_self_iff (before : Option Char) (x : Text) :
    Idiom.reshapePattern.substituteFrom Target.php.replaceReshape before x = x ↔
      Idiom.reshapePattern.foundIn x = false := by
  rw [← foundFrom_eq_foundIn (by decide) before]
  refine ⟨fun heq => ?_, fun h => substituteFrom_eq_self h _⟩
  obtain ⟨ss, hdivides⟩ : ∃ ss, Idiom.reshapePattern.Divides before x ss :=
    ⟨_, Idiom.reshapePattern.divides_segmentsFrom before x⟩
  rw [hdivides.substituteFrom_eq] at heq
  rw [hdivides.foundFrom_eq, Bool.not_eq_false', List.isEmpty_iff]
  induction hdivides with
  | nil => rfl
  | gap h tail ih => exact ih (List.cons.inj heq).2
  | hit h read tail ih =>
      obtain ⟨y, s, htext, hgroups, -, -⟩ := of_matchAt h
      rw [List.flatMap_cons, Segment.replaced_hit,
        replaceReshape_of_groups _ hgroups, reshape_eq, htext] at heq
      exact absurd (List.cons.inj heq).1 (by decide)

/-- A call becomes the matrix of its arguments exactly if its values have no
seam and no bracket closes in its shape. In PHP, where the columns come last,
brackets in them do no harm unless a blank stands before the first that closes,
or another call after it. -/
theorem substitute_call_iff (t : Target) (hv : Argument v) (hr : Argument r)
    (hc : Argument c) (hrows : ',' ∉ r) (hminus : r ≠ "-1".toList)
    (hcols : ',' ∉ c) :
    Idiom.reshapePattern.substitute t.replaceReshape (call v r c) =
      t.reshape v r c ↔
      ¬ seam <:+: v ∧ ')' ∉ r ∧
      (')' ∉ c ∨ t = .php ∧ (c.before ')').trimEnd = c.before ')' ∧
        Idiom.reshapePattern.foundIn (c.after ')' ++ ")") = false) := by
  by_cases hfree : seam <:+: v
  · have hne : Idiom.reshapePattern.substitute t.replaceReshape (call v r c) ≠
        t.reshape v r c := by
      by_cases ht : t = .php
      · exact ht ▸ inner_call_ne_php hv hfree
      · exact inner_call_ne ht hv hr hc hfree
    simp [hfree, hne]
  · by_cases hclose : ')' ∈ r
    · simp [hclose, rows_call_ne t hv hr hrows hfree hclose]
    · by_cases hclose' : ')' ∈ c
      · obtain ⟨s, q, rfl, hnot, hopen, htrim⟩ := hc.exists_close hclose'
        have hcomma : ',' ∉ s := fun h => hcols (List.mem_append_left _ h)
        rw [cols_call_iff t hv hr hrows hminus hfree hclose hc hcomma hnot
          hopen htrim,
          Text.before_append_cons hnot, Text.after_append_cons hnot]
        simp only [hfree, hclose, hclose', not_true, not_false_eq_true,
          true_and, false_or]
        by_cases ht : t = .php
        · subst ht
          rw [← php_substituteFrom_eq_self_iff (some ')')]
          constructor
          · intro heq
            obtain ⟨hblank, -, hrest⟩ :=
              Text.trimEnd_append_cons_inj (d := ')') (by decide) heq
            exact ⟨rfl, hblank, hrest⟩
          · rintro ⟨-, hblank, hrest⟩
            rw [hblank, hrest]
            rfl
        · refine ⟨fun heq => ?_, fun h => absurd h.1 ht⟩
          rw [back_eq ht] at heq
          obtain ⟨-, hcomma, -⟩ :=
            Text.trimEnd_append_cons_inj (d := ',') (by decide) heq
          exact absurd hcomma (by decide)
      · simp [hfree, hclose, hclose',
          plain_call_eq t hv hr hc hrows hminus hcols hfree hclose hclose']

end Reshape

end Recast
