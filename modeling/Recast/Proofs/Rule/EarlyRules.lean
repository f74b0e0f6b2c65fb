import Recast.Proofs.Rule.LineByLine
import Recast.Proofs.Rule.LineOpeners

/-!
# The early rules leave nothing to do

The rules for comments, signatures, pairs of empty lists and lengths come first,
and each of them leaves a text in which its own pattern is not found, so that it
may run once or many times (`early_rules_exhausted`). For comments this is seen
line by line. A length is replaced by a text whose letters and brackets do not
fit the next length, be it as its start or as its end.
-/

namespace Recast

open Pattern

namespace Text

/-! ## Where a text cannot start -/

/-- No occurrence of `q` starts in `p`, whatever follows `p`. -/
def clashes : (p q : Text) → Bool
  | [], _ => true
  | c :: p, q =>
    !(q.isPrefixOf (c :: p) || (c :: p).isPrefixOf q) && clashes p q

variable {p q t x y z : Text}

theorem ne_of_clashes {pre s : Text} (h : clashes p q = true)
    (hp : p = pre ++ s) (hs : s ≠ []) : s ++ y ≠ q ++ z := by
  induction p generalizing pre with
  | nil => exact absurd (List.append_eq_nil_iff.mp hp.symm).2 hs
  | cons c p ih =>
      rw [clashes, Bool.and_eq_true] at h
      cases pre with
      | cons d pre => exact ih h.2 (List.cons.inj hp).2
      | nil =>
          obtain rfl : c :: p = s := hp
          intro hyz
          -- of two texts that start the same, one is the start of the other
          have hfirst : q <+: c :: p ∨ c :: p <+: q :=
            List.prefix_or_prefix_of_prefix ⟨z, hyz.symm⟩
              (List.prefix_append (c :: p) y)
          rw [← List.isPrefixOf_iff_prefix, ← List.isPrefixOf_iff_prefix,
            ← Bool.or_eq_true] at hfirst
          rw [hfirst] at h
          exact Bool.noConfusion h.1

/-- Two texts differ if one has a sign where the other, up to a character that
does not come before the sign, has none. -/
theorem ne_of_sign {c d : Char} (hlast : x.getLast? = some d) (hd : d ∉ q)
    (hc : c ∉ x) : x ++ y ≠ q ++ c :: z := by
  intro h
  rcases place_in_append h.symm with ⟨w, rfl, -⟩ | ⟨w, rfl, -⟩
  · simp at hc
  · exact hd (List.mem_append_left w (List.mem_of_getLast? hlast))

/-- A text that ends in a bracket and opens none. -/
structure Closing (t : Text) : Prop where
  opens_none : '(' ∉ t
  ends : t.getLast? = some ')'

theorem Closing.ne_nil (h : Closing t) : t ≠ [] := by
  rintro rfl
  exact absurd h.ends (by simp)

theorem Closing.append {a : Text} (ha : '(' ∉ a) (h : Closing t) :
    Closing (a ++ t) where
  opens_none hmem := (List.mem_append.mp hmem).elim ha h.opens_none
  ends := by rw [List.getLast?_append_of_ne_nil _ h.ne_nil, h.ends]

theorem Closing.of_append {a : Text} (h : Closing (a ++ t)) (ht : t ≠ []) :
    Closing t where
  opens_none hmem := h.opens_none (List.mem_append_right a hmem)
  ends := by rw [← h.ends, List.getLast?_append_of_ne_nil _ ht]

theorem Closing.ne_call {name : Text} (h : Closing x) (hname : ')' ∉ name) :
    x ++ y ≠ name ++ '(' :: z :=
  ne_of_sign h.ends hname h.opens_none

/-- A call starts neither in a text that clashes with it nor in one that opens
no bracket behind it. -/
theorem call_not_in {a n pre : Text} (ht : Closing t)
    (hclash : clashes p (n ++ '(' :: a) = true) (hn : ')' ∉ n)
    (hplace : p ++ t = pre ++ x) (hx : x ≠ []) :
    x ++ y ≠ n ++ '(' :: (a ++ z) := by
  rcases List.append_eq_append_iff.mp hplace with ⟨v, rfl, rfl⟩ | ⟨s, rfl, rfl⟩
  · exact (ht.of_append hx).ne_call hn
  · cases s with
    | nil => exact ht.ne_call hn
    | cons c s =>
        intro h
        refine ne_of_clashes (y := t ++ y) (z := z) hclash rfl
          (List.cons_ne_nil c s) ?_
        rw [← List.append_assoc, h, List.append_assoc, List.cons_append]

end Text

/-! ## Lengths -/

namespace Idiom

open Text

variable {before : Option Char} {u w x rest : Text} {gs : List (Option Text)}

/-- What is read as the bound of a loop, and its end behind the brackets that it
opens. -/
theorem closing_rangeLenMinus
    (h : rangeLenMinusPattern.Reads before u rest gs) :
    ∃ t : Text, Closing t ∧ u = "range(len(" ++ t := by
  obtain ⟨list, count, b, b', rfl, -, hlist, hcount, hb, hb'⟩ :=
    shape_rangeLenMinus h
  have hclose : Closing ")" := ⟨by decide, by decide⟩
  have hsign : '(' ∉ ("-" : Text) := by decide
  refine ⟨_, ?_, rfl⟩
  exact .append (hlist.not_mem (by decide)) <| .append (by decide) <|
    .append (not_mem_of_forall hb (by decide)) <|
    .append hsign <| .append (not_mem_of_forall hb' (by decide)) <|
    .append (hcount.not_mem (by decide)) hclose

theorem IsName.closing {name : Text} (h : IsName name) :
    Closing (name ++ ")") :=
  .append (h.not_mem (by decide)) ⟨by decide, by decide⟩

/-- A length can be read behind a bracket. -/
theorem reads_lenCall_behind (h : lenCallPattern.Reads before u rest gs) :
    lenCallPattern.Reads (some ')') u rest gs := by
  obtain ⟨name, rfl, -⟩ := shape_lenCall h
  simp only [lenCallPattern, reads_append_assoc] at h ⊢
  obtain ⟨-, hread⟩ := reads_anchor_append.mp h
  exact reads_anchor_append.mpr ⟨rfl, hread.elsewhere rfl _ _⟩

end Idiom

namespace Target

open Text Idiom

section Length

variable {m : Match} {before : Option Char} {rest : Text}

theorem exists_replaceRangeBound_eq
    (h : rangeLenMinusPattern.Reads before m.text rest m.groups) :
    ∃ t : Text, Closing t ∧
      replaceRangeBound m = "range(int(math.Max(0, float64(len(" ++ t := by
  obtain ⟨list, count, _, _, -, hgroups, hlist, hcount, -, -⟩ :=
    shape_rangeLenMinus h
  have hgroup : m.group 0 = list ∧ m.group 1 = count := by
    simp [Match.group, hgroups]
  have hclose : Closing "))))" := ⟨by decide, by decide⟩
  refine ⟨list ++ (") - " ++ (count ++ "))))")), ?_, ?_⟩
  · exact .append (hlist.not_mem (by decide)) <| .append (by decide) <|
      .append (hcount.not_mem (by decide)) hclose
  · unfold replaceRangeBound
    simp only [hgroup.1, hgroup.2, List.append_assoc]

theorem exhausts_rangeLenMinus :
    Idiom.rangeLenMinus.pattern.Exhausts replaceRangeBound where
  ahead h _ rest' := h.elsewhere rfl _ rest'
  behind _ _ h := h.elsewhere rfl _ _
  inside := by
    intro m before rest before' pre x y u rest' gs hm hpre hx hu hread
    obtain ⟨t, ht, htext⟩ := exists_replaceRangeBound_eq hm
    obtain ⟨t', -, rfl⟩ := closing_rangeLenMinus hread
    rw [List.append_assoc] at hu
    exact call_not_in (n := "range") (a := "len(") ht (by decide) (by decide)
      (htext.symm.trans hpre) hx hu
  across := by
    intro m before rest before' w x y rest' gs hm hw _ hx hy hread
    obtain ⟨t, -, htext⟩ := exists_replaceRangeBound_eq hm
    obtain ⟨t', ht', hu⟩ := closing_rangeLenMinus hread
    obtain ⟨c, w, rfl⟩ := List.exists_cons_of_ne_nil hw
    have hplace : "ange(len(".toList ++ t' = w ++ x := (List.cons.inj hu).2.symm
    rw [htext, List.append_assoc] at hy
    exact call_not_in (n := "range") (a := []) ht' (by decide)
      (by decide) hplace hx hy.symm

theorem group_lenCall (h : lenCallPattern.Reads before m.text rest m.groups) :
    IsName (m.group 0) := by
  obtain ⟨name, -, hgroups, hname, -⟩ := shape_lenCall h
  have hgroup : m.group 0 = name := by simp [Match.group, hgroups]
  exact hgroup ▸ hname

/-- A length is exhausted by what no length starts in and no length goes on
into. -/
theorem exhausts_lenCall_of {f : Match → Text}
    (hinside : ∀ {m before rest}, lenCallPattern.Reads before m.text rest
      m.groups → ∀ {pre x y z}, f m = pre ++ x → x ≠ [] → x ++ y ≠ "len(" ++ z)
    (hacross : ∀ {m before rest},
      lenCallPattern.Reads before m.text rest m.groups →
      ∀ {name w x y z}, IsName name → "en(" ++ (name ++ ")") = w ++ x → x ≠ [] →
        x ++ y ≠ f m ++ z) :
    Idiom.lenCall.pattern.Exhausts f where
  ahead h hu rest' := by
    simp only [Idiom.pattern, lenCallPattern, reads_append_assoc] at h ⊢
    exact h.ahead_of_front (by simp) rfl hu rest'
  behind hm _ h := by
    obtain ⟨name, htext, -⟩ := shape_lenCall hm
    rw [htext, ← List.append_assoc, lastOr_append]
    exact reads_lenCall_behind h
  inside := by
    intro m before rest before' pre x y u rest' gs hm hpre hx hu hread
    obtain ⟨name, rfl, -⟩ := shape_lenCall hread
    rw [List.append_assoc] at hu
    exact hinside hm hpre hx hu
  across := by
    intro m before rest before' w x y rest' gs hm hw _ hx hy hread
    obtain ⟨name, hu, -, hname, -⟩ := shape_lenCall hread
    obtain ⟨c, w, rfl⟩ := List.exists_cons_of_ne_nil hw
    exact hacross hm hname (List.cons.inj hu).2.symm hx hy.symm

/-- A member of the list gives its length. -/
theorem exhausts_lenCall_of_member {f : Match → Text} {s : Text}
    (hf : ∀ m, f m = m.group 0 ++ '.' :: s)
    (hs : clashes ('.' :: s) "len(" = true) :
    Idiom.lenCall.pattern.Exhausts f := by
  refine exhausts_lenCall_of ?_ ?_
  · intro m before rest hm pre x y z hpre hx
    rw [hf] at hpre
    rcases List.append_eq_append_iff.mp hpre with ⟨v, rfl, htail⟩ |
      ⟨v, hname, rfl⟩
    · exact ne_of_clashes hs htail hx
    · have hopen : '(' ∉ v := fun hmem =>
        (group_lenCall hm).not_mem (by decide)
          (hname ▸ List.mem_append_right pre hmem)
      rw [List.append_assoc]
      exact (ne_of_sign (d := '(') (by decide) hopen (by decide)).symm
  · intro m before rest hm name w x y z hname hplace hx
    have hlast : x.getLast? = some ')' := by
      rw [← List.getLast?_append_of_ne_nil w hx, ← hplace,
        List.getLast?_append_of_ne_nil _ hname.closing.ne_nil]
      exact hname.closing.ends
    have hdot : '.' ∉ "en(" ++ (name ++ ")") := by
      have hword : '.' ∉ name := hname.not_mem (by decide)
      simp [hword]
    rw [hf, List.append_assoc]
    exact ne_of_sign hlast ((group_lenCall hm).not_mem (by decide)) fun hmem =>
      hdot (hplace ▸ List.mem_append_right w hmem)

theorem exhausts_lenCall_php :
    Idiom.lenCall.pattern.Exhausts php.replaceLength := by
  have hf : ∀ m, php.replaceLength m = "count($" ++ (m.group 0 ++ ")") := by
    intro m
    unfold replaceLength length
    simp only [List.append_assoc]
  refine exhausts_lenCall_of ?_ ?_
  · intro m before rest hm pre x y z hpre hx
    rw [hf] at hpre
    exact call_not_in (n := "len") (a := []) (group_lenCall hm).closing
      (by decide) (by decide) hpre hx
  · intro m before rest hm name w x y z hname hplace hx
    rw [hf, List.append_assoc]
    exact call_not_in (n := "count") (a := []) hname.closing (by decide)
      (by decide) hplace hx

theorem exhausts_lenCall {t : Target} (ht : t ≠ go) :
    Idiom.lenCall.pattern.Exhausts t.replaceLength := by
  cases t with
  | go => exact absurd rfl ht
  | php => exact exhausts_lenCall_php
  | javascript =>
      exact exhausts_lenCall_of_member (s := "length")
        (fun _ => rfl) (by decide)
  | csharp =>
      exact exhausts_lenCall_of_member (s := "Count()")
        (fun _ => rfl) (by decide)

end Length

/-! ## Comments -/

theorem foundIn_recommented_line {l : Text} (hl : '\n' ∉ l) :
    Idiom.comment.pattern.foundIn
      (Idiom.comment.pattern.substitute replaceComment l) = false := by
  rcases recommented_line hl with ⟨-, w, text, hw, htext, hsame⟩ |
    ⟨hplain, hsame⟩
  · -- slashes stand where the hash sign was
    have hindent : '\n' ∉ w := not_mem_of_forall hw (by decide)
    have hbreak : '\n' ∉ w ++ '/' :: text := by simp [hindent, htext]
    rw [hsame]
    refine foundIn_plain_line hbreak ?_
    rw [isComment_append hw (by decide)]
    rfl
  · rw [hsame]
    exact foundIn_plain_line hl hplain

theorem foundIn_recommented (text : Text) :
    Idiom.comment.pattern.foundIn
      (Idiom.comment.pattern.substitute replaceComment text) = false := by
  have hlines :=
    foundIn_fieldsBy (within_of_breakFree (p := Idiom.comment.pattern) rfl)
    (Idiom.comment.pattern.substitute replaceComment text)
  change _ = (lines _).any _ at hlines
  rw [hlines, lines_recommented, List.any_map, List.any_eq_false]
  intro l hl
  rw [Function.comp_apply,
    foundIn_recommented_line (newline_not_mem_of_mem_lines hl)]
  exact Bool.false_ne_true

/-! ## The rules -/

/-- The names of the rules that come first, each with the idiom that it
replaces. -/
def earlyIdioms (t : Target) : List (Text × Idiom) :=
  [("comment", .comment), ("function_signature", .functionDef),
   ("dual_empty_init", .dualEmptyInit),
   if t = go then ("range_bounds_guard", .rangeLenMinus)
   else ("length_builtin", .lenCall)]

theorem dualInitRule_mem (t : Target) :
    Rule.replacing "dual_empty_init" Idiom.dualEmptyInit.pattern
      (fun _ => t.replaceDualInit) ∈ t.rules := by
  simp only [rules, List.mem_append, List.mem_cons, true_or, or_true]

/-- Each of these rules replaces its idiom by what leaves no match. -/
theorem exists_early_rule {t : Target} {e : Text × Idiom}
    (he : e ∈ t.earlyIdioms) :
    ∃ f : Context → Match → Text, Rule.replacing e.1 e.2.pattern f ∈ t.rules ∧
      ∀ ctx text, e.2.pattern.foundIn (e.2.pattern.substitute (f ctx) text) =
        false := by
  simp only [earlyIdioms, List.mem_cons, List.not_mem_nil, or_false] at he
  rcases he with rfl | rfl | rfl | rfl
  · exact ⟨_, t.commentRule_mem, fun _ => foundIn_recommented⟩
  · exact ⟨_, t.signatureRule_mem,
      fun ctx => (t.exhausts_functionDef ctx).foundIn_substitute⟩
  · exact ⟨_, t.dualInitRule_mem,
      fun _ => t.exhausts_dualEmptyInit.foundIn_substitute⟩
  · have hrule := t.lengthRule_mem
    cases t with
    | go => exact ⟨_, hrule, fun _ => exhausts_rangeLenMinus.foundIn_substitute⟩
    | php | javascript | csharp =>
        exact ⟨_, hrule,
          fun _ => (exhausts_lenCall (by decide)).foundIn_substitute⟩

/-- **Early rules.** The rules for comments, signatures, pairs of empty lists
and lengths replace the matches of their idioms, and no match of the idiom is
left in the text that such a rule gives. So it changes nothing when it runs
again. -/
theorem early_rules_exhausted (t : Target) (ctx : Context) (text : Text) :
    ∀ e ∈ t.earlyIdioms, (∃ f, Rule.replacing e.1 e.2.pattern f ∈ t.rules) ∧
      ∀ r ∈ t.rules, r.name = e.1 →
        e.2.pattern.matchesIn (r.apply ctx text) = [] ∧
        r.apply ctx (r.apply ctx text) = r.apply ctx text := by
  intro e he
  obtain ⟨f, hrule, hnone⟩ := exists_early_rule he
  refine ⟨⟨f, hrule⟩, fun r hr hname => ?_⟩
  obtain rfl := eq_of_name hr hrule hname
  exact ⟨foundIn_eq_false_iff.mp (hnone ctx text),
    substitute_of_foundIn (hnone ctx text) (f ctx)⟩

/-- Of a length within a length the inner one is replaced, and no length is
left. -/
theorem early_rules_exhausted_nested :
    (("length_builtin".toList, Idiom.lenCall) ∈ php.earlyIdioms) ∧
    php.lengthRule ∈ php.rules ∧
    php.lengthRule.apply .empty "len(len(x))" = "len(count($x))".toList ∧
    Idiom.lenCall.pattern.matchesIn "len(count($x))" = [] ∧
    php.lengthRule.apply .empty "len(count($x))" = "len(count($x))".toList := by
  have he : ("length_builtin".toList, Idiom.lenCall) ∈ php.earlyIdioms := by
    simp [earlyIdioms]
  have hinner : php.lengthRule.apply .empty "len(len(x))" =
      "len(count($x))".toList := by decide +kernel
  obtain ⟨-, hrules⟩ := early_rules_exhausted php .empty "len(len(x))" _ he
  obtain ⟨hnone, hagain⟩ := hrules php.lengthRule php.lengthRule_mem rfl
  rw [hinner] at hnone hagain
  exact ⟨he, php.lengthRule_mem, hinner, hnone, hagain⟩

end Target

end Recast
