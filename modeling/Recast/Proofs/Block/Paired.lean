import Recast.Proofs.Block.Deficit
import Recast.Proofs.Pattern.Division

/-!
# Paired braces

A text is paired over a list of openers if every closing brace in it stands
right after one of them. Such a text closes no more blocks than it opens. A
pattern may cut a paired text inside an opener and so leave a piece that is not
paired; `spares` is a computed condition on a pattern under which this cannot
happen. It follows the pattern from left to right and keeps the list of all that
may be left of an opener that is under way. Replacing the matches of such a
pattern by paired texts leaves a paired text (`Divides.paired_replaced`).
-/

namespace Recast

namespace Block

variable {os : List Text} {g t u v w : Text}

/-- After `g`, every closing brace in `t` stands right after an opener. -/
def PairedAfter (os : List Text) (g t : Text) : Prop :=
  ∀ a b, t = a ++ closing :: b → ∃ o ∈ os, o <:+ g ++ a

/-- Every closing brace in `t` stands right after an opener. -/
def Paired (os : List Text) (t : Text) : Prop := PairedAfter os [] t

theorem pairedAfter_of_not_mem (h : closing ∉ t) : PairedAfter os g t := by
  rintro a b rfl
  exact absurd (by simp) h

theorem Paired.after (h : Paired os t) : PairedAfter os g t := by
  intro a b hab
  obtain ⟨o, ho, hsuf⟩ := h a b hab
  exact ⟨o, ho, List.suffix_append_of_suffix hsuf⟩

theorem pairedAfter_append :
    PairedAfter os g (u ++ v) ↔
      PairedAfter os g u ∧ PairedAfter os (g ++ u) v := by
  constructor
  · intro h
    constructor
    · rintro a b rfl
      exact h a (b ++ v) (by simp)
    · rintro a b rfl
      simpa using h (u ++ a) b (by simp)
  · rintro ⟨hu, hv⟩ a b hab
    rcases List.append_eq_append_iff.mp hab with ⟨a', rfl, ha'⟩ | ⟨b', rfl, hb'⟩
    · simpa using hv a' b ha'
    · cases b' with
      | nil => simpa using hv [] b (by simpa using hb'.symm)
      | cons c b' =>
          obtain ⟨rfl, rfl⟩ := List.cons.inj hb'
          exact hu a b' rfl

theorem Paired.append (hu : Paired os u) (hv : Paired os v) :
    Paired os (u ++ v) :=
  pairedAfter_append.mpr ⟨hu, hv.after⟩

theorem Paired.of_prefix (h : Paired os t) (hu : u <+: t) : Paired os u := by
  obtain ⟨v, rfl⟩ := hu
  exact (pairedAfter_append.mp h).1

theorem paired_nil : Paired os [] := pairedAfter_of_not_mem (by simp)

/-- A paired text closes no more blocks than it opens. -/
theorem Paired.deficit_nonneg (hos : ∀ o ∈ os, 1 ≤ deficit o)
    (h : Paired os t) :
    0 ≤ deficit t := by
  induction hn : t.length using Nat.strongRecOn generalizing t with
  | ind n ih =>
      subst hn
      rcases List.eq_nil_or_concat t with rfl | ⟨a, c, rfl⟩
      · exact Int.le_refl 0
      · rw [List.concat_eq_append] at h ih ⊢
        by_cases hc : c = closing
        · -- the brace and the opener before it make up for each other
          subst hc
          obtain ⟨o, ho, x, hx⟩ := h a [] rfl
          rw [List.nil_append] at hx
          have hpre : Paired os x := by
            apply h.of_prefix
            exact ⟨o ++ [closing], by rw [← hx]; simp⟩
          have hx0 : 0 ≤ deficit x := ih _ (by rw [← hx]; simp) hpre rfl
          have ho1 := hos o ho
          have hbrace : deficit [closing] = -1 := by decide
          rw [← hx, deficit_append, deficit_append, hbrace]
          omega
        · have ha0 : 0 ≤ deficit a :=
            ih _ (by simp) (h.of_prefix ⟨[c], rfl⟩) rfl
          have hcount : ([c] : Text).count closing = 0 :=
            List.count_eq_zero.mpr (by simpa using fun e => hc e.symm)
          have hc0 : 0 ≤ deficit [c] := by
            rw [deficit, hcount]
            omega
          rw [deficit_append]
          omega

/-! ## Openers that are under way -/

/-- `s` has all that may be left of an opener which is under way at the end of
`g`. -/
def Pending (os : List Text) (g : Text) (s : List Text) : Prop :=
  ∀ o₁ o₂, o₁ ++ o₂ ∈ os → o₁ ≠ [] → o₁ <:+ g → o₂ ∈ s

theorem Pending.mono {s s' : List Text} (h : Pending os g s) (hs : s ⊆ s') :
    Pending os g s' :=
  fun o₁ o₂ ho hne hsuf => hs (h o₁ o₂ ho hne hsuf)

/-- A piece of a paired text is paired if it does not start with what is left of
an opener and a closing brace. -/
theorem Pending.paired {s : List Text} (hs : Pending os g s)
    (h : PairedAfter os g w) (hcut : ∀ o ∈ s, ¬ o ++ [closing] <+: w) :
    Paired os w := by
  rintro a b rfl
  obtain ⟨o, ho, hsuf⟩ := h a b rfl
  rcases List.suffix_or_suffix_of_suffix hsuf (List.suffix_append g a) with
    hoa | ⟨o₁, rfl⟩
  · exact ⟨o, ho, by simpa using hoa⟩
  · have hg : o₁ <:+ g := List.suffix_append_self_iff.mp hsuf
    by_cases hne : o₁ = []
    · subst hne
      exact ⟨[] ++ a, ho, by simp⟩
    · exact absurd ⟨b, by simp⟩ (hcut a (hs o₁ a ho hne hg))

theorem Pending.paired_of_nil (hs : Pending os g []) (h : PairedAfter os g w) :
    Paired os w :=
  hs.paired h (by simp)

/-! ## Pieces of a paired text -/

/-- No opener has the character. -/
def Breaks (os : List Text) (c : Char) : Prop := ∀ o ∈ os, c ∉ o

theorem paired_of_breaks (hb : ∀ c ∈ g, Breaks os c) (h : PairedAfter os g t) :
    Paired os t := by
  have hs : Pending os g [] := by
    intro o₁ o₂ ho hne hsuf
    obtain ⟨c, o, rfl⟩ := List.exists_cons_of_ne_nil hne
    exact absurd (by simp) (hb c (hsuf.subset (by simp)) _ ho)
  exact hs.paired_of_nil h

theorem Paired.after_break {c : Char} (hc : Breaks os c)
    (h : Paired os (u ++ c :: v)) :
    Paired os v := by
  have hsplit : Paired os (u ++ [c] ++ v) := by simpa using h
  have hv : PairedAfter os (u ++ [c]) v := by
    simpa using (pairedAfter_append.mp hsplit).2
  have hs : Pending os (u ++ [c]) [] := by
    intro o₁ o₂ ho hne hsuf
    rcases List.suffix_concat_iff.mp hsuf with rfl | ⟨o, rfl, -⟩
    · exact absurd rfl hne
    · exact absurd (by simp) (hc _ ho)
  exact hs.paired_of_nil hv

theorem Paired.dropWhile {p : Char → Bool} (hp : ∀ c, p c = true → Breaks os c)
    (h : Paired os t) : Paired os (t.dropWhile p) := by
  rw [← List.takeWhile_append_dropWhile (p := p) (l := t)] at h
  have hrest : PairedAfter os (t.takeWhile p) (t.dropWhile p) := by
    simpa using (pairedAfter_append.mp h).2
  exact paired_of_breaks (fun c hc => hp c (List.mem_takeWhile_imp hc)) hrest

theorem Paired.trimEnd (h : Paired os t) : Paired os t.trimEnd := by
  obtain ⟨b, hb, -⟩ := Text.exists_trimEnd_append t
  exact h.of_prefix ⟨b, hb.symm⟩

theorem Paired.trim (hblank : ∀ c, isBlank c = true → Breaks os c)
    (h : Paired os t) :
    Paired os t.trim :=
  (h.dropWhile hblank).trimEnd

theorem Paired.of_mem_fields {c : Char} (hc : Breaks os c) (h : Paired os t)
    {f : Text} (hf : f ∈ t.fields c) : Paired os f := by
  induction hn : t.length using Nat.strongRecOn generalizing t with
  | ind n ih =>
      subst hn
      by_cases hmem : c ∈ t
      · obtain ⟨u, v, rfl⟩ := List.append_of_mem hmem
        rw [Text.fields, Text.fieldsBy_append_cons (by simp)] at hf
        rcases List.mem_append.mp hf with hf | hf
        · exact ih _ (by simp) (h.of_prefix ⟨_, rfl⟩) hf rfl
        · exact ih _ (by simp; omega) (h.after_break hc) hf rfl
      · have hone : ∀ d ∈ t, (d == c) = false := by
          intro d hd
          exact beq_eq_false_iff_ne.mpr fun e => hmem (e ▸ hd)
        rw [Text.fields, Text.fieldsBy_eq_singleton hone] at hf
        rw [List.mem_singleton.mp hf]
        exact h

theorem Paired.before {c : Char} (h : Paired os t) : Paired os (t.before c) :=
  h.of_prefix (List.takeWhile_prefix _)

theorem Paired.after_sep {c : Char} (hc : Breaks os c) (h : Paired os t) :
    Paired os (t.after c) := by
  rw [Text.after]
  cases hd : t.dropWhile (· != c) with
  | nil => exact paired_nil
  | cons d v =>
      have heq : d = c := by
        have hhead := List.head?_dropWhile_not (fun x => x != c) t
        simpa [hd] using hhead
      subst heq
      refine Paired.after_break hc (u := t.takeWhile (· != d)) ?_
      rw [List.drop_one, List.tail_cons, ← hd, List.takeWhile_append_dropWhile]
      exact h

/-! ## What may be left of an opener -/

/-- All that may be left of an opener after some of its characters are taken
from the front, as long as they are in the class. -/
def leftovers (ok : Char → Bool) : Text → List Text
  | [] => [[]]
  | c :: o => (c :: o) :: if ok c then leftovers ok o else []

theorem self_mem_leftovers (ok : Char → Bool) (o : Text) :
    o ∈ leftovers ok o := by
  cases o <;> simp [leftovers]

theorem mem_leftovers_of_cons {ok : Char → Bool} {c : Char} {o o' : Text}
    (hc : ok c = true) (h : c :: o ∈ leftovers ok o') :
    o ∈ leftovers ok o' := by
  induction o' with
  | nil => simp [leftovers] at h
  | cons d o' ih =>
      rw [leftovers] at h ⊢
      rcases List.mem_cons.mp h with h | h
      · obtain ⟨rfl, rfl⟩ := List.cons.inj h
        rw [if_pos hc]
        exact List.mem_cons_of_mem _ (self_mem_leftovers ok o)
      · by_cases hd : ok d = true
        · rw [if_pos hd] at h ⊢
          exact List.mem_cons_of_mem _ (ih h)
        · rw [if_neg hd] at h
          simp at h

/-- All that may be left of any opener. -/
def everywhere (os : List Text) : List Text :=
  os.flatMap (leftovers fun _ => true)

theorem pending_everywhere (os : List Text) (g : Text) :
    Pending os g (everywhere os) := by
  have hsuffix : ∀ o₁ o₂ : Text, o₂ ∈ leftovers (fun _ => true) (o₁ ++ o₂) := by
    intro o₁ o₂
    induction o₁ with
    | nil => exact self_mem_leftovers _ o₂
    | cons c o₁ ih => exact List.mem_cons_of_mem _ ih
  intro o₁ o₂ ho _ _
  exact List.mem_flatMap.mpr ⟨o₁ ++ o₂, ho, hsuffix o₁ o₂⟩

/-- What is left of an opener after one character of a class. -/
def rest? (ok : Char → Bool) : Text → Option Text
  | [] => none
  | c :: o => if ok c then some o else none

/-- What may be left of an opener after one more character of a class. -/
def advance (os : List Text) (ok : Char → Bool) (s : List Text) : List Text :=
  (os ++ s).filterMap (rest? ok)

theorem mem_advance {ok : Char → Bool} {s : List Text} {c : Char} {o : Text}
    (hc : ok c = true) (h : c :: o ∈ os ∨ c :: o ∈ s) : o ∈ advance os ok s :=
  List.mem_filterMap.mpr ⟨c :: o, List.mem_append.mpr h, by simp [rest?, hc]⟩

/-- What may be left of an opener after a run of a class. -/
def advanceMany (os : List Text) (ok : Char → Bool) (s : List Text) :
    List Text :=
  (s ++ advance os ok []).flatMap (leftovers ok)

/-- One more character: it goes on with an opener that is under way, or it
starts one. -/
theorem Pending.snoc {ok : Char → Bool} {s : List Text} {c : Char}
    (hs : Pending os g s) (hc : ok c = true) :
    Pending os (g ++ [c]) (advance os ok s) := by
  intro o₁ o₂ ho hne hsuf
  rcases List.suffix_concat_iff.mp hsuf with rfl | ⟨o, rfl, hog⟩
  · exact absurd rfl hne
  · rw [List.append_assoc, List.singleton_append] at ho
    by_cases hnil : o = []
    · subst hnil
      exact mem_advance hc (Or.inl ho)
    · exact mem_advance hc (Or.inr (hs o (c :: o₂) ho hnil hog))

theorem subset_advanceMany (ok : Char → Bool) (s : List Text) :
    s ⊆ advanceMany os ok s := by
  intro o ho
  exact List.mem_flatMap.mpr ⟨o, List.mem_append_left _ ho,
    self_mem_leftovers ok o⟩

/-- A run may go on: one more of its characters leads to nothing new. -/
theorem advance_advanceMany_subset (ok : Char → Bool) (s : List Text) :
    advance os ok (advanceMany os ok s) ⊆ advanceMany os ok s := by
  intro o ho
  obtain ⟨o', ho', hrest⟩ := List.mem_filterMap.mp ho
  cases o' with
  | nil => simp [rest?] at hrest
  | cons c o' =>
      rw [rest?] at hrest
      split at hrest
      · rename_i hc
        cases hrest
        rcases List.mem_append.mp ho' with hos | hs
        · refine List.mem_flatMap.mpr ⟨o, List.mem_append_right _ ?_,
            self_mem_leftovers ok o⟩
          exact mem_advance hc (Or.inl hos)
        · obtain ⟨x, hx, hleft⟩ := List.mem_flatMap.mp hs
          exact List.mem_flatMap.mpr ⟨x, hx, mem_leftovers_of_cons hc hleft⟩
      · simp at hrest

theorem Pending.append_many {ok : Char → Bool} {s : List Text}
    (hs : Pending os g s) (hu : ∀ c ∈ u, ok c = true) :
    Pending os (g ++ u) (advanceMany os ok s) := by
  have aux : ∀ (u g : Text), (∀ c ∈ u, ok c = true) →
      Pending os g (advanceMany os ok s) →
      Pending os (g ++ u) (advanceMany os ok s) := by
    intro u
    induction u with
    | nil =>
        intro g _ h
        simpa using h
    | cons c u ih =>
        intro g hcs h
        have hone :=
          (h.snoc (hcs c (by simp))).mono (advance_advanceMany_subset ok s)
        have htail := ih (g ++ [c]) (fun d hd => hcs d (by simp [hd])) hone
        simpa using htail
  exact aux u g hu (hs.mono (subset_advanceMany ok s))

end Block

namespace Pattern

open Block

variable {os : List Text} {g : Text}

/-! ## Patterns that cut no opener -/

/-- Nothing that the pattern takes has the character `c`. -/
def avoids (c : Char) : Pattern → Bool
  | empty | anchor _ => true
  | one ok | many _ ok => !ok c
  | seq p q | either p q => p.avoids c && q.avoids c
  | group p => p.avoids c

/-- What may be left of an opener after the pattern, if it is among `s`
before. -/
def pending (os : List Text) : Pattern → List Text → List Text
  | empty, s | anchor _, s => s
  | one ok, s => advance os ok s
  | many _ ok, s => advanceMany os ok s
  | seq p q, s => q.pending os (p.pending os s)
  | either p q, s => p.pending os s ++ q.pending os s
  | group p, s => p.pending os s

/-- No group starts with what may be left of an opener and a closing brace. -/
def guards (os : List Text) : Pattern → List Text → Bool
  | empty, _ | one _, _ | many _ _, _ | anchor _, _ => true
  | seq p q, s => p.guards os s && q.guards os (p.pending os s)
  | either p q, s => p.guards os s && q.guards os s
  | group p, s =>
    s.all (fun o => (o ++ [closing]).any p.avoids) && p.guards os s

/-- The pattern cuts no opener that a closing brace follows: neither at the
start of a group nor at its own end. -/
def spares (os : List Text) (p : Pattern) : Bool :=
  p.guards os (everywhere os) && (p.pending os (everywhere os)).isEmpty

theorem Reads.not_mem_of_avoids {p : Pattern} {before : Option Char}
    {u rest : Text} {gs : List (Option Text)} (h : p.Reads before u rest gs)
    {c : Char} (hc : p.avoids c = true) :
    c ∉ u := by
  induction h with
  | empty | anchor => simp
  | one h =>
      rintro hmem
      rw [List.mem_singleton.mp hmem] at hc
      simp [avoids, h] at hc
  | many h =>
      intro hmem
      simp [avoids, h c hmem] at hc
  | seq hp hq ihp ihq =>
      rw [avoids, Bool.and_eq_true] at hc
      rw [List.mem_append, not_or]
      exact ⟨ihp hc.1, ihq hc.2⟩
  | left hp ih =>
      rw [avoids, Bool.and_eq_true] at hc
      exact ih hc.1
  | right hq ih =>
      rw [avoids, Bool.and_eq_true] at hc
      exact ih hc.2
  | group hp ih => exact ih hc

/-- The list of what may be left is kept up by every reading. -/
theorem Reads.pending {p : Pattern} {before : Option Char} {u rest : Text}
    {gs : List (Option Text)} (h : p.Reads before u rest gs) {s : List Text}
    (hs : Pending os g s) : Pending os (g ++ u) (p.pending os s) := by
  induction h generalizing g s with
  | empty | anchor =>
      rw [List.append_nil]
      exact hs
  | one h => exact hs.snoc h
  | many h => exact hs.append_many h
  | seq hp hq ihp ihq =>
      rw [← List.append_assoc]
      exact ihq (ihp hs)
  | left hp ih => exact (ih hs).mono (List.subset_append_left _ _)
  | right hq ih => exact (ih hs).mono (List.subset_append_right _ _)
  | group hp ih => exact ih hs

/-- The groups of a guarded pattern are paired in a paired text. -/
theorem Reads.paired_groups {p : Pattern} {before : Option Char} {u rest : Text}
    {gs : List (Option Text)} (h : p.Reads before u rest gs) {s : List Text}
    (hs : Pending os g s) (hguard : p.guards os s = true)
    (hu : PairedAfter os g u) {w : Text} (hw : some w ∈ gs) : Paired os w := by
  induction h generalizing g s with
  | empty | one | many | anchor => simp at hw
  | seq hp hq ihp ihq =>
      rw [guards, Bool.and_eq_true] at hguard
      obtain ⟨hpaired, hqaired⟩ := pairedAfter_append.mp hu
      rcases List.mem_append.mp hw with hw | hw
      · exact ihp hs hguard.1 hpaired hw
      · exact ihq (hp.pending hs) hguard.2 hqaired hw
  | left hp ih =>
      rw [guards, Bool.and_eq_true] at hguard
      rcases List.mem_append.mp hw with hw | hw
      · exact ih hs hguard.1 hu hw
      · simp [List.mem_replicate] at hw
  | right hq ih =>
      rw [guards, Bool.and_eq_true] at hguard
      rcases List.mem_append.mp hw with hw | hw
      · simp [List.mem_replicate] at hw
      · exact ih hs hguard.2 hu hw
  | group hp ih =>
      rw [guards, Bool.and_eq_true, List.all_eq_true] at hguard
      rcases List.mem_cons.mp hw with hw | hw
      · cases hw
        refine hs.paired hu fun o ho hpre => ?_
        obtain ⟨c, hc, havoid⟩ := List.any_eq_true.mp (hguard.1 o ho)
        exact hp.not_mem_of_avoids havoid (hpre.subset hc)
      · exact ih hs hguard.2 hu hw

/-- A match of a sparing pattern in a paired text has paired groups, and what
follows it is paired. -/
theorem Reads.paired_of_spares {p : Pattern} (hp : p.spares os = true)
    {before : Option Char} {m : Match} {rest : Text}
    (h : p.Reads before m.text rest m.groups)
    (ht : PairedAfter os g (m.text ++ rest)) :
    (∀ i, Paired os (m.group i)) ∧ Paired os rest := by
  rw [spares, Bool.and_eq_true, List.isEmpty_iff] at hp
  obtain ⟨hu, hrest⟩ := pairedAfter_append.mp ht
  have hs := pending_everywhere os g
  constructor
  · intro i
    rw [Match.group]
    cases hi : m.groups[i]? with
    | none => exact paired_nil
    | some w =>
        cases w with
        | none => exact paired_nil
        | some w => exact h.paired_groups hs hp.1 hu (List.mem_of_getElem? hi)
  · have hend := h.pending hs
    rw [hp.2] at hend
    exact hend.paired_of_nil hrest

/-! ## Replacing matches -/

/-- Paired texts in place of the matches of a sparing pattern keep a text
paired. -/
theorem Divides.paired_replaced {p : Pattern} (hp : p.spares os = true)
    {f : Match → Text}
    (hf : ∀ m, (∀ i, Paired os (m.group i)) → Paired os (f m))
    {before : Option Char} {t : Text} {ss : List Segment}
    (h : p.Divides before t ss) (ht : PairedAfter os g t) :
    PairedAfter os g (ss.flatMap (·.replaced f)) := by
  induction h generalizing g with
  | nil => exact ht
  | @gap before c cs ss h tail ih =>
      -- the characters since the last match are part of what stands before
      obtain ⟨hc, hcs⟩ :=
        pairedAfter_append.mp (show PairedAfter os g ([c] ++ cs) from ht)
      exact pairedAfter_append.mpr ⟨hc, ih hcs⟩
  | @hit before m rest ss h read tail ih =>
      obtain ⟨hgroups, hrest⟩ := read.paired_of_spares hp ht
      have htail : Paired os (ss.flatMap (·.replaced f)) := ih hrest
      exact ((hf m hgroups).append htail).after

/-- Texts that close no more blocks than they open, in place of the matches of a
sparing pattern, leave such a text. -/
theorem Divides.deficit_replaced_nonneg {p : Pattern}
    (hos : ∀ o ∈ os, 1 ≤ deficit o) (hp : p.spares os = true) {f : Match → Text}
    (hf : ∀ m, (∀ i, Paired os (m.group i)) → 0 ≤ deficit (f m))
    {before : Option Char} {t : Text} {ss : List Segment}
    (h : p.Divides before t ss) (hg : Paired os g) (ht : PairedAfter os g t) :
    0 ≤ deficit (g ++ ss.flatMap (·.replaced f)) := by
  induction h generalizing g with
  | nil => simpa using hg.deficit_nonneg hos
  | @gap before c cs ss h tail ih =>
      obtain ⟨hc, hcs⟩ :=
        pairedAfter_append.mp (show PairedAfter os g ([c] ++ cs) from ht)
      have hgc : Paired os (g ++ [c]) := pairedAfter_append.mpr ⟨hg, hc⟩
      simpa using ih hgc hcs
  | @hit before m rest ss h read tail ih =>
      obtain ⟨hgroups, hrest⟩ := read.paired_of_spares hp ht
      have hg0 := hg.deficit_nonneg hos
      have hm0 := hf m hgroups
      have htail : 0 ≤ deficit ([] ++ ss.flatMap (·.replaced f)) :=
        ih paired_nil hrest
      rw [List.nil_append] at htail
      rw [List.flatMap_cons, Segment.replaced_hit, deficit_append,
        deficit_append]
      omega

/-- Texts with the deficit of the matches that they replace keep the deficit. -/
theorem Divides.deficit_replaced {p : Pattern} {f : Match → Text}
    (hf : ∀ m before rest, p.Reads before m.text rest m.groups →
      deficit (f m) = deficit m.text)
    {before : Option Char} {t : Text} {ss : List Segment}
    (h : p.Divides before t ss) :
    deficit (ss.flatMap (·.replaced f)) = deficit t := by
  induction h with
  | nil => rfl
  | @gap before c cs ss h tail ih =>
      have hcons : deficit (c :: cs) = deficit [c] + deficit cs :=
        deficit_append [c] cs
      rw [List.flatMap_cons, Segment.replaced_gap, deficit_append, ih, hcons]
  | @hit before m rest ss h read tail ih =>
      rw [List.flatMap_cons, Segment.replaced_hit, deficit_append,
        deficit_append, hf m before rest read, ih]

/-- Where the groups show every brace, they have the deficit of the match. -/
theorem Reads.deficit_groups {p : Pattern} (hopen : p.shows opening = true)
    (hclose : p.shows closing = true) {before : Option Char} {u rest : Text}
    {gs : List (Option Text)} (h : p.Reads before u rest gs) :
    deficit (gs.flatMap (·.getD [])) = deficit u := by
  rw [deficit, deficit, h.count_groups hopen, h.count_groups hclose]

end Pattern

end Recast
