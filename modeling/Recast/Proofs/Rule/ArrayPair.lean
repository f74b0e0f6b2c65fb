import Recast.Proofs.Rule.Argument
import Recast.Proofs.Rule.Stages

/-!
# Pairs of arrays that are returned

The rule `numpy_pair_return` rewrites `return np.array(a), np.array(b)`. Its
pattern takes the first argument up to the first joint, which is a bracket that
closes, with another array after it, and the second argument up to the first
bracket that closes. So the statement becomes the one for `a` and `b` exactly if
there is no joint in `a` and no bracket closes in `b`
(`substitute_statement_iff`).
-/

namespace Recast

open Pattern

namespace ArrayPair

/-- What stands between two arrays. -/
def joint : Pattern := ")" ++ blanks ++ optional "," ++ blanks ++ "np.array("

/-! ## Where a joint stands -/

/-- A joint stands at the start of the text. -/
def Opens (t : Text) : Prop :=
  ∃ x k y z : Text, t = ')' :: (x ++ (k ++ (y ++ ("np.array(" ++ z)))) ∧
    (∀ c ∈ x, isBlank c = true) ∧
    (k = [','] ∨ k = []) ∧ ∀ c ∈ y, isBlank c = true

theorem Opens.ne_nil {t : Text} (h : Opens t) : t ≠ [] := by
  obtain ⟨x, k, y, z, rfl, -⟩ := h
  exact List.cons_ne_nil _ _

theorem Opens.append {t : Text} (h : Opens t) (u : Text) : Opens (t ++ u) := by
  obtain ⟨x, k, y, z, rfl, hx, hk, hy⟩ := h
  exact ⟨x, k, y, z ++ u, by simp, hx, hk, hy⟩

/-- A joint has no other closing bracket, so it does not go beyond one. -/
theorem Opens.before_close {w z : Text} (hw : w ≠ [])
    (h : Opens (w ++ ')' :: z)) : Opens w := by
  obtain ⟨x, k, y, r, heq, hx, hk, hy⟩ := h
  obtain ⟨c, w, rfl⟩ := List.exists_cons_of_ne_nil hw
  obtain ⟨rfl, hrest⟩ := List.cons.inj heq
  have hjoint : w ++ ')' :: z =
      (x ++ (k ++ (y ++ "np.array(".toList))) ++ r := by
    simp only [List.append_assoc]
    exact hrest
  have hclose : ')' ∉ x ++ (k ++ (y ++ "np.array(".toList)) := by
    have hblank : ∀ {b : Text}, (∀ c ∈ b, isBlank c = true) → ')' ∉ b :=
      fun hb => Text.not_mem_of_forall hb (by decide)
    have hcomma : ')' ∉ k := by rcases hk with rfl | rfl <;> decide
    have harray : ')' ∉ "np.array(".toList := by decide
    simp only [List.mem_append, not_or]
    exact ⟨hblank hx, hcomma, hblank hy, harray⟩
  obtain ⟨r', rfl, -⟩ := Text.place_in_second hjoint hclose
  exact ⟨x, k, y, r', by simp only [List.append_assoc], hx, hk, hy⟩

theorem opens_of_reads {before : Option Char} {u rest : Text}
    {gs : List (Option Text)} (h : joint.Reads before u rest gs) : Opens u := by
  simp only [joint, reads_append_assoc] at h
  obtain ⟨_, rfl, hblanks⟩ := reads_literal_append.mp h
  obtain ⟨x, _, rfl, hx, hcomma⟩ := reads_many_append.mp hblanks
  obtain ⟨k, _, _, _, rfl, -, hk, hblanks'⟩ := reads_seq_iff.mp hcomma
  obtain ⟨y, _, rfl, hy, hlast⟩ := reads_many_append.mp hblanks'
  obtain ⟨rfl, -⟩ := reads_literal_iff.mp hlast
  refine ⟨x, k, y, [], by simp, hx, ?_, hy⟩
  rcases reads_optional_iff.mp hk with hk | ⟨rfl, -⟩
  · exact Or.inl (reads_literal_iff.mp hk).1
  · exact Or.inr rfl

theorem opens_of_reads_row {q : Pattern} {before : Option Char} {u rest : Text}
    {gs : List (Option Text)}
    (h : (literal ")".toList ++
      (blanks ++
        (optional (literal ",".toList) ++
          (blanks ++ (literal "np.array(".toList ++ q))))).Reads
          before u rest gs) :
    Opens u := by
  have hrow : (joint ++ q).Reads before u rest gs := by
    simpa only [joint, reads_append_assoc] using h
  obtain ⟨v, w, _, _, rfl, -, hv, -⟩ := reads_seq_iff.mp hrow
  exact (opens_of_reads hv).append w

theorem Opens.exists_reads {t : Text} (h : Opens t) (before : Option Char) :
    ∃ u rest, t = u ++ rest ∧ u ≠ [] ∧ joint.Reads before u rest [] := by
  obtain ⟨x, k, y, z, rfl, hx, hk, hy⟩ := h
  refine ⟨")".toList ++ (x ++ (k ++ (y ++ "np.array(".toList))), z, by simp,
    by simp, ?_⟩
  simp only [joint, reads_append_assoc]
  refine reads_literal_append.mpr
    ⟨_, rfl, reads_many_append.mpr ⟨x, _, rfl, hx, ?_⟩⟩
  refine reads_seq_iff.mpr ⟨k, _, [], [], rfl, rfl, reads_optional_iff.mpr ?_,
    ?_⟩
  · exact hk.imp (fun hk => reads_literal_iff.mpr ⟨hk, rfl⟩) fun hk => ⟨hk, rfl⟩
  · exact reads_many_append.mpr ⟨y, _, rfl, hy,
      reads_literal_iff.mpr ⟨rfl, rfl⟩⟩

theorem foundIn_joint_iff {t : Text} :
    joint.foundIn t = true ↔ ∃ u v, t = u ++ v ∧ Opens v := by
  rw [foundIn_iff]
  constructor
  · rintro ⟨pre, u, rest, gs, rfl, -, hread⟩
    exact ⟨pre, u ++ rest, rfl, (opens_of_reads hread).append rest⟩
  · rintro ⟨pre, v, rfl, hv⟩
    obtain ⟨u, rest, rfl, hne, hread⟩ := hv.exists_reads (Text.lastOr none pre)
    exact ⟨pre, u, rest, [], rfl, hne, hread⟩

/-! ## What is matched -/

/-- After a joint the second argument is taken up to the first bracket that
closes. -/
theorem picks_joint {x k y s : Text} (hx : ∀ c ∈ x, isBlank c = true)
    (hk : k = [','] ∨ k = []) (hy : ∀ c ∈ y, isBlank c = true)
    (hs : ∀ c ∈ s, isInline c = true) (hclose : ')' ∉ s) (before : Option Char)
    (rest : Text) :
    (joint ++ (group (stretch .shortest) ++ literal ")".toList)).Picks
      (fun _ _ => True) before
      (")" ++ (x ++ (k ++ (y ++ ("np.array(" ++ (s ++ ")"))))))
        rest [some s] := by
  have hlast (before : Option Char) :
      (literal "np.array(".toList ++
        (group (stretch .shortest) ++ literal ")".toList)).Picks
        (fun _ _ => True) before ("np.array(" ++ (s ++ ")")) rest [some s] :=
    Picks.literal_append (picks_group_close hs hclose)
  have hblanks (before : Option Char) {b : Text}
      (hb : ∀ c ∈ b, isBlank c = true) :
      (blanks ++ (literal "np.array(".toList ++
        (group (stretch .shortest) ++ literal ")".toList))).Picks
        (fun _ _ => True) before (b ++ ("np.array(" ++ (s ++ ")"))) rest
        [some s] :=
    Picks.run_append hb rfl (hlast _)
  simp only [joint, picks_append_assoc]
  apply Picks.literal_append
  rcases hk with rfl | rfl
  · apply Picks.run_append hx rfl
    exact Picks.optional_append (picks_literal (hblanks _ hy).reaches)
      (hblanks _ hy)
  · -- without a comma the first run takes all blanks
    have hxy : ∀ c ∈ x ++ y, isBlank c = true :=
      List.forall_mem_append.mpr ⟨hx, hy⟩
    rw [List.nil_append, ← List.append_assoc]
    apply Picks.run_append hxy rfl
    refine Picks.skip_append ?_ (hblanks _ (b := []) (by simp))
    intro hcomma
    obtain ⟨z, hz⟩ := hcomma.literal_prefix
    exact absurd (List.cons.inj hz).1 (by decide)

theorem picks {x b k y s : Text} (hx : ∀ c ∈ x, isInline c = true)
    (hfree : joint.foundIn x = false) (hb : ∀ c ∈ b, isBlank c = true)
    (hk : k = [','] ∨ k = []) (hy : ∀ c ∈ y, isBlank c = true)
    (hs : ∀ c ∈ s, isInline c = true) (hclose : ')' ∉ s) (rest : Text) :
    Idiom.arrayPairReturnPattern.Picks (fun _ _ => True) none
      ("return" ++
        (" " ++ ("np.array(" ++
          (x ++ (")" ++ (b ++ (k ++ (y ++ ("np.array(" ++ (s ++ ")")))))))))) rest
      [some x, some s] := by
  have hjoint (before : Option Char) :=
    picks_joint hb hk hy hs hclose before rest
  simp only [joint, picks_append_assoc] at hjoint
  simp only [Idiom.arrayPairReturnPattern, picks_append_assoc]
  apply Picks.literal_append
  apply Picks.run1_append (by simp) (List.all_eq_true.mp (by decide)) rfl
  apply Picks.literal_append
  refine Picks.group_shortest_append hx ?_ (hjoint _)
  -- an earlier joint would lie in `x`, as a bracket closes right behind it
  intro p w hw hpw hreaches
  obtain ⟨u, rest', gs, heq, hread, -⟩ := hreaches
  have hopens : Opens
      (w ++ ')' :: (b ++ (k ++ (y ++ ("np.array(" ++ (s ++ ")")))) ++ rest)) :=
    heq ▸ (opens_of_reads_row hread).append rest'
  rw [foundIn_joint_iff.mpr ⟨p, w, hpw, hopens.before_close hw⟩] at hfree
  exact Bool.noConfusion hfree

/-! ## What is written -/

/-- The statement up to the first value. -/
def lead : Target → Text
  | .go => "return "
  | .php => "return array("
  | .javascript => "return ["
  | .csharp => "return ("

/-- How a value is written. -/
def mark : Target → Text → Text
  | .php, e => Target.phpVariable e
  | _, e => e

/-- What stands between the values. -/
def between : Target → Text
  | .csharp => ".ToArray(), "
  | _ => ", "

/-- What stands behind the values. -/
def ending : Target → Text
  | .go => ", nil // Success"
  | .php => ");"
  | .javascript => "];"
  | .csharp => ".ToArray());"

theorem pairReturn_eq (t : Target) (a b : Text) :
    t.pairReturn a b =
      lead t ++ (mark t a ++ (between t ++ (mark t b ++ ending t))) := by
  cases t with
  | go =>
      show "return ".toList ++ a ++ ", ".toList ++ b ++
        ", nil // Success".toList =
        "return ".toList ++
        (a ++ (", ".toList ++ (b ++ ", nil // Success".toList)))
      simp only [List.append_assoc]
  | php =>
      show "return array(".toList ++ Target.phpVariable a ++ ", ".toList ++
        Target.phpVariable b ++ ");".toList =
        "return array(".toList ++ (Target.phpVariable a ++
          (", ".toList ++ (Target.phpVariable b ++ ");".toList)))
      simp only [List.append_assoc]
  | javascript =>
      show "return [".toList ++ a ++ ", ".toList ++ b ++ "];".toList =
        "return [".toList ++ (a ++ (", ".toList ++ (b ++ "];".toList)))
      simp only [List.append_assoc]
  | csharp =>
      show "return (".toList ++ a ++ ".ToArray(), ".toList ++ b ++
        ".ToArray());".toList =
        "return (".toList ++
        (a ++ (".ToArray(), ".toList ++ (b ++ ".ToArray());".toList)))
      simp only [List.append_assoc]

theorem mark_of_open_mem {e : Text} (h : '(' ∈ e) (t : Target) :
    mark t e = e := by
  cases t with
  | php => exact Target.phpVariable_of_open_mem h
  | go | javascript | csharp => rfl

/-! ## Statements -/

/-- `return np.array(a), np.array(b)`. -/
def statement (a b : Text) : Text :=
  "return np.array(" ++ (a ++ ("), np.array(" ++ (b ++ ")")))

/-- What becomes of a text that starts with a match. -/
theorem substitute_cut (t : Target) {x b k y s : Text}
    (hx : ∀ c ∈ x, isInline c = true) (hfree : joint.foundIn x = false)
    (hb : ∀ c ∈ b, isBlank c = true) (hk : k = [','] ∨ k = [])
    (hy : ∀ c ∈ y, isBlank c = true) (hs : ∀ c ∈ s, isInline c = true)
    (hclose : ')' ∉ s) (later : Text) :
    Idiom.arrayPairReturnPattern.substitute t.replaceArrayPair
        ("return np.array(" ++
          (x ++ (")" ++
            (b ++ (k ++ (y ++ ("np.array(" ++ (s ++ (")" ++ later))))))))) =
      t.pairReturn x s ++
        Idiom.arrayPairReturnPattern.substituteFrom t.replaceArrayPair (some ')')
          later := by
  obtain ⟨m, hgroups, hm⟩ :=
    (picks hx hfree hb hk hy hs hclose later).substituteFrom_append
      (by simp) t.replaceArrayPair
  have hwritten : t.replaceArrayPair m = t.pairReturn x s := by
    simp [Target.replaceArrayPair, Match.group, hgroups]
  have hlast : Text.lastOr none ("return".toList ++
      (" ".toList ++ ("np.array(".toList ++ (x ++ (")".toList ++ (b ++
      (k ++ (y ++ ("np.array(".toList ++ (s ++ ")".toList)))))))))) = some ')' := by
    simp only [Text.lastOr_append]
    rfl
  have hopen : "return np.array(".toList =
      "return".toList ++ (" ".toList ++ "np.array(".toList) := by decide
  rw [hwritten, hlast] at hm
  rw [hopen, ← hm]
  simp only [List.append_assoc]
  rfl

variable {a b : Text}

theorem substitute_statement (t : Target) (ha : Argument a)
    (hfree : joint.foundIn a = false) {s later : Text}
    (hb : b ++ ")" = s ++ (")" ++ later)) (hs : ∀ c ∈ s, isInline c = true)
    (hclose : ')' ∉ s) :
    Idiom.arrayPairReturnPattern.substitute t.replaceArrayPair (statement a b) =
      t.pairReturn a s ++
        Idiom.arrayPairReturnPattern.substituteFrom t.replaceArrayPair (some ')')
          later := by
  have hblank : ∀ c ∈ [' '], isBlank c = true := List.all_eq_true.mp (by decide)
  rw [← substitute_cut t ha.inline hfree (b := []) (k := [',']) (y := [' '])
    (by simp) (Or.inl rfl) hblank hs hclose later,
    ← hb]
  rfl

/-- A semicolon cannot be moved over a text that has other characters: a
statement starts with none. -/
theorem semicolons_of_shift {before : Option Char} {x : Text}
    {ss : List Segment} {f : Match → Text}
    (h : Idiom.arrayPairReturnPattern.Divides before x ss)
    (heq : ';' :: ss.flatMap (·.replaced f) = x ++ [';']) :
    ∀ c ∈ x, c = ';' := by
  induction h with
  | nil => simp
  | gap h tail ih =>
      obtain ⟨rfl, hrest⟩ := List.cons.inj heq
      exact List.forall_mem_cons.mpr ⟨rfl, ih hrest⟩
  | hit h read tail ih =>
      simp only [Idiom.arrayPairReturnPattern, reads_append_assoc,
        reads_literal_append] at read
      obtain ⟨w, hw, -⟩ := read
      rw [hw] at heq
      exact absurd (List.cons.inj heq).1 (by decide)

/-- The second argument is cut at its first bracket that closes. In PHP a
bracket follows there as well, but then a semicolon. -/
theorem second_statement_ne (t : Target) (ha : Argument a) (hb : Argument b)
    (hfree : joint.foundIn a = false) (hclose : ')' ∈ b) :
    Idiom.arrayPairReturnPattern.substitute t.replaceArrayPair (statement a b) ≠
      t.pairReturn a b := by
  obtain ⟨s, q, rfl, hnot, hopen, -⟩ := hb.exists_close hclose
  have hs : ∀ c ∈ s, isInline c = true :=
    (List.forall_mem_append.mp hb.inline).1
  have hcut : s ++ ')' :: q ++ ")".toList =
      s ++ (")".toList ++ (q ++ ")".toList)) := by
    rw [List.append_assoc]
    rfl
  intro heq
  rw [substitute_statement t ha hfree hcut hs hnot, pairReturn_eq,
    pairReturn_eq, mark_of_open_mem hopen,
    mark_of_open_mem (List.mem_append_left _ hopen)] at heq
  simp only [List.append_assoc, List.append_cancel_left_eq,
    List.cons_append] at heq
  cases t with
  | go | javascript | csharp => exact absurd (List.cons.inj heq).1 (by decide)
  | php =>
      have hshift :
          ';' :: Idiom.arrayPairReturnPattern.substituteFrom
            Target.php.replaceArrayPair (some ')') (q ++ ")".toList) =
          (q ++ ")".toList) ++ [';'] := by
        rw [List.append_assoc]
        exact (List.cons.inj heq).2
      have hclosed :=
        semicolons_of_shift (divides_segmentsFrom _ _ _) hshift ')' (by simp)
      exact absurd hclosed (by decide)

/-- The first argument is cut at its first joint. -/
theorem first_statement_ne (t : Target) (ha : Argument a) (hb : Argument b)
    (hfound : joint.foundIn a = true) :
    Idiom.arrayPairReturnPattern.substitute t.replaceArrayPair (statement a b) ≠
      t.pairReturn a b := by
  obtain ⟨u, _, rfl, ⟨x, k, y, z, rfl, hx, hk, hy⟩, hfirst⟩ :=
    Text.exists_first_place (foundIn_joint_iff.mp hfound)
  have hfree : joint.foundIn u = false := by
    rw [← Bool.not_eq_true, foundIn_joint_iff]
    rintro ⟨p, w, rfl, hw⟩
    exact hfirst p w hw.ne_nil rfl (hw.append _)
  have hopen : '(' ∈ u :=
    Text.open_mem_of_depth_pos ha.nested.depth_before_close
  -- what is taken for the second argument starts after the joint and ends at
  -- the next bracket that closes
  obtain ⟨rest, hrest⟩ : ∃ rest, rest =
      z ++ ("), np.array(".toList ++ (b ++ ")".toList)) := ⟨_, rfl⟩
  have hinline : ∀ c ∈ rest, isInline c = true := by
    have hargument := ha.inline
    have hlast : ∀ c ∈ ")".toList, isInline c = true :=
      List.all_eq_true.mp (by decide)
    have hmiddle : ∀ c ∈ "), np.array(".toList, isInline c = true :=
      List.all_eq_true.mp (by decide)
    simp only [List.forall_mem_append, List.forall_mem_cons] at hargument
    simp only [hrest, List.forall_mem_append]
    exact ⟨hargument.2.2.2.2.2.2, hmiddle, hb.inline, hlast⟩
  have htext :
      statement (u ++ ')' :: (x ++ (k ++ (y ++ ("np.array(".toList ++ z))))) b =
      "return np.array(".toList ++
      (u ++ (")".toList ++
        (x ++ (k ++ (y ++ ("np.array(".toList ++ rest)))))) := by
    show "return np.array(".toList ++
      (u ++ (")".toList ++ (x ++ (k ++ (y ++ ("np.array(".toList ++ z))))) ++
      ("), np.array(".toList ++ (b ++ ")".toList))) = _
    simp only [hrest, List.append_assoc]
  have hclose : ')' ∈ rest := by
    rw [hrest]
    exact List.mem_append_right _ List.mem_cons_self
  obtain ⟨s, later, hsplit, hnot⟩ :
      ∃ s later, rest = s ++ (")".toList ++ later) ∧ ')' ∉ s :=
    ⟨_, _, (Text.before_append_after hclose).symm, Text.not_mem_before _ _⟩
  have hs : ∀ c ∈ s, isInline c = true :=
    fun c hc => hinline c (hsplit ▸ List.mem_append_left _ hc)
  intro heq
  rw [htext, hsplit,
    substitute_cut t (List.forall_mem_append.mp ha.inline).1 hfree hx
      hk hy hs hnot,
    pairReturn_eq, pairReturn_eq, mark_of_open_mem hopen,
    mark_of_open_mem (List.mem_append_left _ hopen)] at heq
  simp only [List.append_assoc, List.append_cancel_left_eq,
    List.cons_append] at heq
  cases t with
  | go | php | javascript | csharp =>
      exact absurd (List.cons.inj heq).1 (by decide)

/-- A statement becomes that of its two values exactly if there is no joint in
the first and no bracket closes in the second. -/
theorem substitute_statement_iff (t : Target) (ha : Argument a)
    (hb : Argument b) :
    Idiom.arrayPairReturnPattern.substitute t.replaceArrayPair (statement a b) =
      t.pairReturn a b ↔
      joint.foundIn a = false ∧ ')' ∉ b := by
  cases hfree : joint.foundIn a with
  | true => simp [first_statement_ne t ha hb hfree]
  | false =>
      by_cases hclose : ')' ∈ b
      · simp [hclose, second_statement_ne t ha hb hfree hclose]
      · have hend : b ++ ")".toList = b ++ (")".toList ++ []) := rfl
        have heq := substitute_statement t ha hfree hend hb.inline hclose
        simp only [hclose, not_false_eq_true, and_self, iff_true]
        exact heq.trans (List.append_nil _)

end ArrayPair

end Recast
