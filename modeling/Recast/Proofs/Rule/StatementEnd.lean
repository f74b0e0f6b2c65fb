import Recast.Proofs.Pattern.Choice
import Recast.Proofs.Rule.Stages
import Recast.Proofs.Text.Nesting

/-!
# The end of a rewritten statement

The rules `output_call` and `append` take a call up to the last closing bracket
of its line, so a bracket in a comment or in further code behind the call moves
the end of the statement. In Go the statement ends in the bracket itself and
nothing comes of it; in the other targets a semicolon is written there, and the
rewrite is that of the call alone exactly if no bracket closes behind it
(`statement_ends_at_call_iff`).
-/

namespace Recast

open Pattern

/-! ## The last bracket -/

namespace Text

/-- Where a character occurs, there is a last place of it. -/
theorem exists_last_place {c : Char} {t : Text} (h : c ∈ t) :
    ∃ s q, t = s ++ c :: q ∧ c ∉ q := by
  have hsplit := before_append_after (List.mem_reverse.mpr h)
  have hnot := not_mem_before c t.reverse
  refine ⟨(after c t.reverse).reverse, (before c t.reverse).reverse, ?_,
    by simpa using hnot⟩
  simpa using (congrArg List.reverse hsplit).symm

end Text

namespace Pattern

variable {p : Pattern} {before : Option Char} {s rest : Text}

/-- A group that goes as far as the last bracket that closes. -/
theorem picks_group_last_close (hs : ∀ c ∈ s, isInline c = true)
    (hrest : ')' ∉ rest) :
    (group (stretch .longest) ++ literal ")".toList).Picks
      (fun _ _ => True) before (s ++ ")") rest [some s] := by
  have hclose (before : Option Char) :
      (literal ")".toList).Picks (fun _ _ => True) before ")" rest [] :=
    picks_literal trivial
  refine Picks.group_append (picks_longest hs (hclose _).reaches ?_) (hclose _)
  rintro (_ | ⟨c, v⟩) t hv hsplit _ hreaches
  · exact hv rfl
  · -- a longer group would end at a bracket in `rest`
    have htail : rest = v ++ t := (List.cons.inj hsplit).2
    obtain ⟨w, rfl⟩ := hreaches.literal_prefix
    apply hrest
    rw [htail]
    simp

/-- A pattern that ends in a closing bracket is found in no text without one. -/
theorem foundFrom_of_close_not_mem (hrest : ')' ∉ rest) :
    (p ++ literal ")".toList).foundFrom before rest = false := by
  rw [Bool.eq_false_iff, ne_eq, foundFrom_iff]
  rintro ⟨pre, u, post, gs, rfl, -, hread⟩
  obtain ⟨v, w, _, _, rfl, -, -, hclose⟩ := reads_seq_iff.mp hread
  obtain ⟨rfl, -⟩ := reads_literal_iff.mp hclose
  simp at hrest

/-- If nothing closes behind what such a pattern picks at the start of a text,
the rest of the text stays. -/
theorem Picks.substitute_before_last_close {u : Text} {gs : List (Option Text)}
    (h : (p ++ literal ")".toList).Picks (fun _ _ => True) none u rest gs)
    (hu : u ≠ []) (hrest : ')' ∉ rest) (f : Match → Text) :
    ∃ m, m.groups = gs ∧
      (p ++ literal ")".toList).substitute f (u ++ rest) = f m ++ rest := by
  obtain ⟨m, hgroups, hm⟩ := h.substituteFrom_append hu f
  rw [substituteFrom_eq_self (foundFrom_of_close_not_mem hrest)] at hm
  exact ⟨m, hgroups, hm⟩

end Pattern

namespace Idiom

variable {s rest : Text} (hs : ∀ c ∈ s, isInline c = true) (hrest : ')' ∉ rest)
include hs hrest

theorem picks_printCall :
    printCallPattern.Picks (fun _ _ => True) none
      ("print(" ++ (s ++ ")")) rest [some s] := by
  simp only [printCallPattern, picks_append_assoc]
  apply Picks.anchor_append rfl
  apply Picks.literal_append
  exact picks_group_last_close hs hrest

theorem picks_appendCall {name : Text} (hne : name ≠ [])
    (hword : ∀ c ∈ name, isWord c = true) :
    appendCallPattern.Picks (fun _ _ => True) none
      (name ++ (".append(" ++ (s ++ ")"))) rest [some name, some s] := by
  obtain ⟨c, cs, rfl⟩ := List.exists_cons_of_ne_nil hne
  have hedge : Anchor.wordEdge.holds none (c :: cs ++
      (".append(" ++ (s ++ ")")) ++ rest) = true := by
    simp [Anchor.holds, hword c List.mem_cons_self]
  simp only [appendCallPattern, picks_append_assoc]
  apply Picks.anchor_append hedge
  apply Picks.group_run1_append hne hword rfl
  apply Picks.literal_append
  exact picks_group_last_close hs hrest

end Idiom

/-! ## The statement that is written -/

namespace Target

/-- What a target writes behind the argument of a call: in Go the bracket alone,
elsewhere a semicolon at its end. -/
def Ends (t : Target) (back : Text) : Prop :=
  if t = go then back = [')'] else back.getLast? = some ';'

theorem exists_print_eq (t : Target) :
    ∃ front back, t.Ends back ∧ ∀ a, t.print a = front ++ (a ++ back) := by
  cases t with
  | go => exact ⟨"fmt.Println(", ")", rfl, fun a => List.append_assoc ..⟩
  | php => exact ⟨"echo ", ";", rfl, fun a => List.append_assoc ..⟩
  | javascript =>
      exact ⟨"console.log(", ");", rfl, fun a => List.append_assoc ..⟩
  | csharp =>
      exact ⟨"Console.WriteLine(", ");", rfl, fun a => List.append_assoc ..⟩

theorem exists_append_eq (t : Target) (name : Text) :
    ∃ front back, t.Ends back ∧
      ∀ a, t.append name a = front ++ (a ++ back) := by
  cases t with
  | go =>
      exact ⟨name ++ " = append(" ++ name ++ ", ", ")", rfl,
        fun a => List.append_assoc ..⟩
  | php =>
      exact ⟨"array_push($" ++ name ++ ", ", ");", rfl,
        fun a => List.append_assoc ..⟩
  | javascript =>
      exact ⟨name ++ ".push(", ");", rfl, fun a => List.append_assoc ..⟩
  | csharp => exact ⟨name ++ ".Add(", ");", rfl, fun a => List.append_assoc ..⟩

/-- A statement whose argument ends at a later bracket is the text of the
statement that ends here only in Go. -/
theorem moved_end_iff {t : Target} {back : Text} (hback : t.Ends back)
    (front a y q : Text) :
    front ++ (a ++ ')' :: y ++ back) ++ q = front ++ (a ++ back) ++
    (y ++ ')' :: q) ↔ t = go := by
  unfold Ends at hback
  split at hback
  · next hgo =>
      subst hback
      simp [hgo]
  · next hne =>
      refine iff_of_false (fun heq => ?_) hne
      obtain ⟨back, rfl⟩ := List.getLast?_eq_some_iff.mp hback
      -- both texts end in `q`, and before it stands the semicolon in one and
      -- the bracket in the other
      have hlast : front ++ (a ++ ')' :: y ++ back) ++ [';'] =
          front ++ (a ++ (back ++ [';'])) ++ y ++ [')'] := by
        refine (List.append_left_inj q).mp ?_
        simpa using heq
      have hsign : ';' = ')' :=
        (List.append_inj_right' hlast rfl |> List.cons.inj).1
      exact absurd hsign (by decide)

/-- A rewrite that puts the end of the argument at the last bracket of the line
puts it at a given bracket exactly in Go, or if nothing closes behind that
one. -/
theorem ends_at_call_iff {t : Target} (rewritten : Text → Text)
    {written : Text → Text}
    (hwritten : ∃ front back, t.Ends back ∧
      ∀ a, written a = front ++ (a ++ back))
    (hlast : ∀ s q, (∀ c ∈ s, isInline c = true) → ')' ∉ q →
      rewritten (s ++ ')' :: q) = written s ++ q)
    {a tail : Text} (ha : '\n' ∉ a) (htail : '\n' ∉ tail) :
    rewritten (a ++ ')' :: tail) = written a ++ tail ↔ t = go ∨ ')' ∉ tail := by
  obtain ⟨front, back, hback, hparts⟩ := hwritten
  have hinline : ∀ {s : Text}, '\n' ∉ s → ∀ c ∈ s, isInline c = true :=
    Text.forall_bne_of_not_mem
  by_cases hmem : ')' ∈ tail
  · obtain ⟨y, q, rfl, hq⟩ := Text.exists_last_place hmem
    have hs : '\n' ∉ a ++ ')' :: y := by simp_all
    have hcut : a ++ ')' :: (y ++ ')' :: q) = (a ++ ')' :: y) ++ ')' :: q := by
      simp
    rw [hcut, hlast _ _ (hinline hs) hq, hparts, hparts, moved_end_iff hback]
    simp
  · rw [hlast _ _ (hinline ha) hmem]
    simp [hmem]

/-! ## The rules -/

/-- The rule for what is printed. -/
def printRule (t : Target) : Rule :=
  .replacing "output_call" Idiom.printCall.pattern fun _ => t.replacePrint

/-- The rule for values that are appended. -/
def appendRule (t : Target) : Rule :=
  .replacing "append" Idiom.appendCall.pattern fun _ => t.replaceAppend

theorem printRule_mem (t : Target) : t.printRule ∈ t.rules := by
  simp only [printRule, rules, List.mem_append, List.mem_cons, true_or, or_true]

theorem appendRule_mem (t : Target) : t.appendRule ∈ t.rules := by
  simp only [appendRule, rules, List.mem_append, List.mem_cons,
    true_or, or_true]

/-- What is printed goes up to the last bracket. -/
theorem apply_printRule (t : Target) (ctx : Context) {s q : Text}
    (hs : ∀ c ∈ s, isInline c = true) (hq : ')' ∉ q) :
    t.printRule.apply ctx ("print(" ++ (s ++ ')' :: q)) = t.print s ++ q := by
  obtain ⟨m, hgroups, hm⟩ :=
    (Idiom.picks_printCall hs hq).substitute_before_last_close
      (by simp) hq t.replacePrint
  have hwritten : t.replacePrint m = t.print s := by
    simp [replacePrint, Match.group, hgroups]
  rw [hwritten] at hm
  rw [← hm]
  simp only [List.append_assoc]
  rfl

/-- What is appended goes up to the last bracket. -/
theorem apply_appendRule (t : Target) (ctx : Context) {name s q : Text}
    (hne : name ≠ []) (hword : ∀ c ∈ name, isWord c = true)
    (hs : ∀ c ∈ s, isInline c = true) (hq : ')' ∉ q) :
    t.appendRule.apply ctx (name ++ (".append(" ++ (s ++ ')' :: q))) =
      t.append name s ++ q := by
  obtain ⟨m, hgroups, hm⟩ :=
    (Idiom.picks_appendCall hs hq hne hword).substitute_before_last_close
      (by simp) hq t.replaceAppend
  have hwritten : t.replaceAppend m = t.append name s := by
    simp [replaceAppend, Match.group, hgroups]
  rw [hwritten] at hm
  rw [← hm]
  simp only [List.append_assoc]
  rfl

/-- **The end of a statement.** Take a call on one line, whatever its argument
and whatever follows it on the line. The rules for calls that print and that
append rewrite the call and leave what follows exactly if the target is Go or no
bracket closes behind the call. -/
theorem statement_ends_at_call_iff {t : Target} (ctx : Context) {r p : Rule}
    (hr : r ∈ t.rules) (hrname : r.name = "output_call".toList)
    (hp : p ∈ t.rules) (hpname : p.name = "append".toList) {name a tail : Text}
    (hne : name ≠ []) (hword : ∀ c ∈ name, isWord c = true) (ha : '\n' ∉ a)
    (htail : '\n' ∉ tail) :
    (r.apply ctx ("print(" ++ (a ++ (")" ++ tail))) = t.print a ++ tail ↔
      t = go ∨ ')' ∉ tail) ∧
    (p.apply ctx (name ++ (".append(" ++ (a ++ (")" ++ tail)))) =
      t.append name a ++ tail ↔
      t = go ∨ ')' ∉ tail) := by
  obtain rfl := eq_of_name hr t.printRule_mem hrname
  obtain rfl := eq_of_name hp t.appendRule_mem hpname
  constructor
  · exact ends_at_call_iff (fun u => t.printRule.apply ctx ("print(" ++ u))
      t.exists_print_eq
      (fun s q hs hq => t.apply_printRule ctx hs hq) ha htail
  · exact ends_at_call_iff (fun u => t.appendRule.apply ctx
      (name ++ (".append(" ++ u))) (t.exists_append_eq name)
      (fun s q hs hq => t.apply_appendRule ctx hne hword hs hq) ha htail

/-- Nested brackets in the argument and code behind it, in PHP. -/
theorem statement_ends_at_call_iff_nested :
    php.printRule.apply .empty "print(f(g(x), 1)); y = [2]" =
      "echo f(g(x), 1);; y = [2]".toList ∧
    php.appendRule.apply .empty "xs.append(f(g(x), 1)); y = [2]" =
      "array_push($xs, f(g(x), 1));; y = [2]".toList := by
  have hword : ∀ c ∈ "xs".toList, isWord c = true :=
    List.all_eq_true.mp (by decide)
  have hargument : '\n' ∉ "f(g(x), 1)".toList := by decide
  have htail : '\n' ∉ "; y = [2]".toList := by decide
  obtain ⟨hprint, happend⟩ := statement_ends_at_call_iff .empty
    php.printRule_mem rfl php.appendRule_mem rfl
    (List.cons_ne_nil _ _) hword hargument htail
  have hfree : ')' ∉ "; y = [2]".toList := by decide
  exact ⟨(hprint.mpr (Or.inr hfree)).trans (by decide),
    (happend.mpr (Or.inr hfree)).trans (by decide)⟩

/-- A bracket in a comment behind the call moves the semicolon into the
comment. -/
theorem comment_bracket_taken :
    Text.Nested "a" ∧ '\n' ∉ " # total (usd)".toList ∧
    Text.mentions " # total (usd)" "print(" = false ∧
    php.printRule.apply .empty ("print(a)" ++ " # total (usd)") =
      "echo a) # total (usd;".toList ∧
    php.print "a" ++ " # total (usd)" = "echo a; # total (usd)".toList := by
  refine ⟨by decide, by decide, by decide, ?_, by decide⟩
  exact php.apply_printRule .empty (s := "a) # total (usd") (q := [])
    (List.all_eq_true.mp (by decide)) (by decide)

end Target

end Recast
