import Mathlib.Data.List.TakeWhile
import Recast.Text.Basic

/-!
# Layout and words

Trimming and indenting change only blanks, so they keep the words of a text
(`words_trimBody`, `words_indentBlock`). What depends on the words alone is
therefore blind to layout; the number of times that a character which is no
blank occurs is of this kind (`count_congr_words`).
-/

namespace Recast

/-! ## Blanks -/

/-- The numbers in some ranges, one by one. -/
def codesOf (ranges : List (Nat × Nat)) : List Nat :=
  ranges.flatMap fun r => List.range' r.1 (r.2 + 1 - r.1)

theorem mem_codesOf {ranges : List (Nat × Nat)} {n : Nat}
    (h : inRanges ranges n = true) :
    n ∈ codesOf ranges := by
  induction ranges with
  | nil => exact Bool.noConfusion h
  | cons r rs ih =>
      obtain ⟨lo, hi⟩ := r
      rw [inRanges, Bool.and_eq_true, Bool.or_eq_true, decide_eq_true_eq,
        decide_eq_true_eq] at h
      obtain ⟨hlo, hhi | hrest⟩ := h
      · refine List.mem_flatMap.mpr ⟨(lo, hi), by simp, ?_⟩
        rw [List.mem_range'_1]
        omega
      · obtain ⟨r, hr, hn⟩ := List.mem_flatMap.mp (ih hrest)
        exact List.mem_flatMap.mpr ⟨r, List.mem_cons_of_mem _ hr, hn⟩

/-- No blank is a word character. -/
theorem isWord_of_isBlank {c : Char} (h : isBlank c = true) :
    isWord c = false := by
  -- the blanks are few, so each of them is tried
  have hall : ∀ n ∈ codesOf ((0x09, 0x0d) :: (0x1c, 0x20) :: blankRanges),
      isWord (Char.ofNat n) = false := by
    decide +kernel
  rw [← Char.ofNat_toNat c]
  exact hall _ (mem_codesOf h)

theorem isBlank_of_isWord {c : Char} (h : isWord c = true) :
    isBlank c = false := by
  cases hb : isBlank c with
  | false => rfl
  | true =>
      rw [isWord_of_isBlank hb] at h
      exact Bool.noConfusion h

theorem isInline_of_isWord {c : Char} (h : isWord c = true) :
    isInline c = true := by
  have hne : c ≠ '\n' := by
    rintro rfl
    exact absurd h (by decide)
  simpa [isInline] using hne

theorem isIndent_of_isWord {c : Char} (h : isWord c = true) :
    isIndent c = false := by
  have hspace : c ≠ ' ' ∧ c ≠ '\t' := by
    constructor <;> rintro rfl <;> exact absurd h (by decide)
  simpa [isIndent] using hspace

theorem isInline_of_isIndent {c : Char} (h : isIndent c = true) :
    isInline c = true := by
  rw [isInline, bne_iff_ne]
  rintro rfl
  exact Bool.noConfusion h

theorem isBlank_of_isIndent {c : Char} (h : isIndent c = true) :
    isBlank c = true := by
  rw [isIndent, Bool.or_eq_true, beq_iff_eq, beq_iff_eq] at h
  rcases h with rfl | rfl <;> decide

/-- The blanks inside a line. -/
def isGap (c : Char) : Bool := isBlank c && isInline c

theorem isBlank_of_isGap {c : Char} (h : isGap c = true) : isBlank c = true :=
  (Bool.and_eq_true_iff.mp h).1

theorem isInline_of_isGap {c : Char} (h : isGap c = true) : isInline c = true :=
  (Bool.and_eq_true_iff.mp h).2

namespace Text

/-! ## Places -/

theorem mentions_eq_false_iff {t needle : Text} :
    t.mentions needle = false ↔ ¬ needle <:+: t := by
  rw [← Bool.not_eq_true, mentions_iff]

/-- A character of two pieces put together stands in the first or in the
second. -/
theorem place_in_append {c : Char} {a b w x : Text} (h : w ++ c :: x = a ++ b) :
    (∃ y, a = w ++ c :: y ∧ x = y ++ b) ∨ ∃ y, w = a ++ y ∧
    b = y ++ c :: x := by
  rcases List.append_eq_append_iff.mp h with ⟨y, rfl, hx⟩ | ⟨y, rfl, rfl⟩
  · cases y with
    | nil => exact Or.inr ⟨[], by simp, hx.symm⟩
    | cons d y =>
        obtain ⟨rfl, rfl⟩ := List.cons.inj hx
        exact Or.inl ⟨y, rfl, rfl⟩
  · exact Or.inr ⟨y, rfl, rfl⟩

theorem place_in_second {c : Char} {a b w x : Text} (h : w ++ c :: x = a ++ b)
    (ha : c ∉ a) :
    ∃ y, w = a ++ y ∧ b = y ++ c :: x := by
  rcases place_in_append h with ⟨y, rfl, -⟩ | hy
  · simp at ha
  · exact hy

/-- Where a property holds of what follows some place, there is a first such
place. -/
theorem exists_first_place {P : Text → Prop} {t : Text}
    (h : ∃ u v, t = u ++ v ∧ P v) :
    ∃ u v, t = u ++ v ∧ P v ∧ ∀ x w, w ≠ [] → u = x ++ w → ¬ P (w ++ v) := by
  induction t with
  | nil =>
      obtain ⟨u, v, hnil, hv⟩ := h
      obtain ⟨rfl, rfl⟩ := List.append_eq_nil_iff.mp hnil.symm
      exact ⟨[], [], rfl, hv, fun x w hw hx =>
        absurd (List.append_eq_nil_iff.mp hx.symm).2 hw⟩
  | cons c t ih =>
      by_cases hfirst : P (c :: t)
      · exact ⟨[], c :: t, rfl, hfirst, fun x w hw hx =>
          absurd (List.append_eq_nil_iff.mp hx.symm).2 hw⟩
      · obtain ⟨u, v, hplace, hv⟩ := h
        cases u with
        | nil => exact absurd (hplace ▸ hv) hfirst
        | cons d u =>
            obtain ⟨rfl, htail⟩ := List.cons.inj hplace
            obtain ⟨u', v', rfl, hv', hearlier⟩ := ih ⟨u, v, htail, hv⟩
            refine ⟨c :: u', v', rfl, hv', ?_⟩
            rintro (_ | ⟨e, x⟩) w hw hx
            · rw [List.nil_append] at hx
              exact hx ▸ hfirst
            · exact hearlier x w hw (List.cons.inj hx).2

theorem not_mem_of_forall {c : Char} {ok : Char → Bool} {t : Text}
    (ht : ∀ d ∈ t, ok d = true) (hc : ok c = false) : c ∉ t := by
  intro hmem
  rw [ht c hmem] at hc
  exact Bool.noConfusion hc

theorem forall_bne_of_not_mem {c : Char} {t : Text} (h : c ∉ t) :
    ∀ d ∈ t, (d != c) = true := by
  intro d hd
  have hne : d ≠ c := fun e => h (e ▸ hd)
  simpa using hne

theorem not_mem_before (c : Char) (t : Text) : c ∉ before c t := by
  intro hmem
  simpa using List.mem_takeWhile_imp hmem

theorem before_append_cons {c : Char} {s : Text} (h : c ∉ s) (q : Text) :
    before c (s ++ c :: q) = s := by
  rw [before, List.takeWhile_append_of_pos (forall_bne_of_not_mem h),
    List.takeWhile_cons_of_neg (by simp), List.append_nil]

theorem after_append_cons {c : Char} {s : Text} (h : c ∉ s) (q : Text) :
    after c (s ++ c :: q) = q := by
  rw [after, List.dropWhile_append_of_pos (forall_bne_of_not_mem h),
    List.dropWhile_cons_of_neg (by simp)]
  rfl

theorem before_append_after {c : Char} {t : Text} (h : c ∈ t) :
    before c t ++ c :: after c t = t := by
  have hrest : t.dropWhile (· != c) = c :: after c t := by
    induction t with
    | nil => simp at h
    | cons d t ih =>
        by_cases hd : d = c
        · simp [after, hd]
        · have hmem : c ∈ t := by simpa [Ne.symm hd] using h
          simpa [after, hd] using ih hmem
  rw [← hrest]
  exact List.takeWhile_append_dropWhile

/-- A run of a class ends in one place only. -/
theorem run_unique {α : Type} {ok : α → Bool} {u u' x x' : List α} {c c' : α}
    (hu : ∀ d ∈ u, ok d = true) (hu' : ∀ d ∈ u', ok d = true)
    (hc : ok c = false) (hc' : ok c' = false)
    (h : u ++ c :: x = u' ++ c' :: x') : u = u' ∧ c :: x = c' :: x' := by
  have htake := congrArg (List.takeWhile ok) h
  rw [List.takeWhile_append_of_pos hu, List.takeWhile_append_of_pos hu',
    List.takeWhile_cons_of_neg (by simp [hc]),
    List.takeWhile_cons_of_neg (by simp [hc']), List.append_nil,
    List.append_nil] at htake
  subst htake
  exact ⟨rfl, List.append_cancel_left h⟩

/-- A text is cut at the first place of a character in one way only. -/
theorem cut_unique {c : Char} {u u' x x' : Text} (hu : c ∉ u) (hu' : c ∉ u')
    (h : u ++ c :: x = u' ++ c :: x') :
    u = u' ∧ x = x' := by
  have hc : (c != c) = false := bne_self_eq_false c
  obtain ⟨hsame, htail⟩ :=
    run_unique (forall_bne_of_not_mem hu) (forall_bne_of_not_mem hu') hc hc h
  exact ⟨hsame, (List.cons.inj htail).2⟩

/-! ## Fields -/

/-- Fields are cut at each separator, independently of what stands on its other
side. -/
theorem fieldsBy_append_cons {sep : Char → Bool} {c : Char} (hc : sep c = true)
    (u v : Text) :
    fieldsBy sep (u ++ c :: v) = fieldsBy sep u ++ fieldsBy sep v := by
  induction u with
  | nil => simp [fieldsBy, hc]
  | cons d u ih =>
      obtain ⟨f, fs, h⟩ := List.exists_cons_of_ne_nil (fieldsBy_ne_nil sep u)
      rw [List.cons_append, fieldsBy, fieldsBy, ih, h]
      by_cases hd : sep d = true
      · simp [hd]
      · simp [hd]

/-- Without a separator there is one field. -/
theorem fieldsBy_eq_singleton {sep : Char → Bool} {t : Text}
    (h : ∀ c ∈ t, sep c = false) :
    fieldsBy sep t = [t] := by
  induction t with
  | nil => rfl
  | cons c t ih =>
      rw [fieldsBy, ih fun d hd => h d (by simp [hd])]
      simp [h c (by simp)]

/-! ## Joined texts -/

theorem mem_of_mem_fieldsBy {sep : Char → Bool} {t f : Text}
    (hf : f ∈ fieldsBy sep t) {c : Char} (hc : c ∈ f) :
    c ∈ t := by
  induction t generalizing f with
  | nil =>
      obtain rfl := List.mem_singleton.mp hf
      exact hc
  | cons d t ih =>
      rw [fieldsBy] at hf
      split at hf
      · rcases List.mem_cons.mp hf with rfl | hf
        · simp at hc
        · exact List.mem_cons_of_mem d (ih hf hc)
      · split at hf
        · obtain rfl := List.mem_singleton.mp hf
          exact List.mem_cons.mpr (Or.inl (List.mem_singleton.mp hc))
        · next g gs hfields =>
            rcases List.mem_cons.mp hf with rfl | hf
            · rcases List.mem_cons.mp hc with rfl | hc
              · exact List.mem_cons_self
              · exact List.mem_cons_of_mem d
                  (ih (hfields ▸ List.mem_cons_self) hc)
            · exact List.mem_cons_of_mem d
                (ih (hfields ▸ List.mem_cons_of_mem g hf) hc)

theorem join_cons (sep part : Text) (parts : List Text) :
    join sep (part :: parts) = part ++ parts.flatMap (sep ++ ·) := by
  induction parts generalizing part with
  | nil => simp [join, List.intercalate]
  | cons q parts ih =>
      have hstep : join sep (part :: q :: parts) =
          part ++ (sep ++ join sep (q :: parts)) := by
        simp [join, List.intercalate, List.intersperse]
      rw [hstep, ih, List.flatMap_cons, List.append_assoc]

theorem forall_mem_join {P : Char → Prop} {sep : Text} (hsep : ∀ c ∈ sep, P c)
    {parts : List Text} (hparts : ∀ part ∈ parts, ∀ c ∈ part, P c) :
    ∀ c ∈ join sep parts, P c := by
  cases parts with
  | nil => simp [join, List.intercalate]
  | cons part parts =>
      rw [join_cons]
      intro c hc
      rcases List.mem_append.mp hc with hc | hc
      · exact hparts part List.mem_cons_self c hc
      · obtain ⟨q, hq, hc⟩ := List.mem_flatMap.mp hc
        rcases List.mem_append.mp hc with hc | hc
        · exact hsep c hc
        · exact hparts q (List.mem_cons_of_mem part hq) c hc

/-- Parts without the separator can be read off the text that they make. -/
theorem fields_join {sep : Char} {parts : List Text} (hne : parts ≠ [])
    (h : ∀ part ∈ parts, sep ∉ part) :
    fields sep (join [sep] parts) = parts := by
  have hone : ∀ part : Text, sep ∉ part → fields sep part = [part] := by
    intro part hpart
    apply fieldsBy_eq_singleton
    intro c hc
    have hcs : c ≠ sep := fun e => hpart (e ▸ hc)
    simpa using hcs
  induction parts with
  | nil => exact absurd rfl hne
  | cons part parts ih =>
      obtain ⟨hpart, hparts⟩ := List.forall_mem_cons.mp h
      cases parts with
      | nil =>
          rw [join_cons, List.flatMap_nil, List.append_nil, hone part hpart]
      | cons q parts =>
          have hstep : join [sep] (part :: q :: parts) =
              part ++ sep :: join [sep] (q :: parts) := by
            simp only [join_cons, List.flatMap_cons, List.cons_append,
              List.nil_append]
          rw [hstep, fields, fieldsBy_append_cons (by simp)]
          exact congrArg₂ (· ++ ·) (hone part hpart) (ih (by simp) hparts)

/-! ## Words -/

@[simp] theorem words_nil : words [] = [] := rfl

theorem words_append_blank {c : Char} (hc : isBlank c = true) (u v : Text) :
    words (u ++ c :: v) = words u ++ words v := by
  rw [words, fieldsBy_append_cons hc, List.filter_append]
  rfl

theorem words_cons_blank {c : Char} (hc : isBlank c = true) (t : Text) :
    words (c :: t) = words t :=
  words_append_blank hc [] t

/-- Blanks in front belong to no word. -/
theorem words_blanks_append {b : Text} (hb : ∀ c ∈ b, isBlank c = true)
    (t : Text) :
    words (b ++ t) = words t := by
  induction b with
  | nil => rfl
  | cons c b ih =>
      rw [List.cons_append, words_cons_blank (hb c (by simp))]
      exact ih fun d hd => hb d (by simp [hd])

/-- Blanks at the end belong to no word. -/
theorem words_append_blanks {b : Text} (hb : ∀ c ∈ b, isBlank c = true)
    (t : Text) :
    words (t ++ b) = words t := by
  cases b with
  | nil => simp
  | cons c b =>
      have htail : words b = [] := by
        have h :=
          words_blanks_append (fun d hd => hb d (List.mem_cons_of_mem c hd)) []
        rwa [List.append_nil] at h
      rw [words_append_blank (hb c (by simp)), htail, List.append_nil]

/-- The words of a text hold all its characters that are no blanks. -/
theorem flatten_words (t : Text) :
    (words t).flatten = t.filter (fun c => !isBlank c) := by
  have hfilter : ∀ fs :
      List Text, (fs.filter (· ≠ [])).flatten = fs.flatten := by
    intro fs
    induction fs with
    | nil => rfl
    | cons f fs ih => cases f <;> simp_all
  rw [words, hfilter]
  induction t with
  | nil => rfl
  | cons c t ih =>
      obtain ⟨f, fs, h⟩ :=
        List.exists_cons_of_ne_nil (fieldsBy_ne_nil isBlank t)
      rw [h] at ih
      rw [fieldsBy, h]
      by_cases hc : isBlank c = true
      · simp [hc, ← ih]
      · simp [hc, ← ih]

theorem count_flatten_words {x : Char} (hx : isBlank x = false) (t : Text) :
    (words t).flatten.count x = t.count x := by
  rw [flatten_words, List.count_filter (by simp [hx])]

/-- How often a character that is no blank occurs depends on the words alone. -/
theorem count_congr_words {x : Char} (hx : isBlank x = false) {s t : Text}
    (h : words s = words t) :
    s.count x = t.count x := by
  rw [← count_flatten_words hx s, h, count_flatten_words hx]

/-! ## Trimming -/

theorem dropWhile_blanks {g t : Text} (hg : ∀ c ∈ g, isBlank c = true)
    (ht : t.head?.any isBlank = false) :
    (g ++ t).dropWhile isBlank = t := by
  rw [List.dropWhile_append_of_pos hg]
  cases t with
  | nil => rfl
  | cons c t => exact List.dropWhile_cons_of_neg (by simpa using ht)

theorem dropEndWhile_append {p : Char → Bool} {b : Text}
    (hb : ∀ c ∈ b, p c = true) (t : Text) :
    dropEndWhile p (t ++ b) = dropEndWhile p t := by
  have hall : ∀ c ∈ b.reverse, p c = true :=
    fun c hc => hb c (List.mem_reverse.mp hc)
  rw [dropEndWhile, dropEndWhile, List.reverse_append,
    List.dropWhile_append_of_pos hall]

theorem dropEndWhile_concat {p : Char → Bool} {c : Char} (hc : p c = false)
    (t : Text) :
    dropEndWhile p (t ++ [c]) = t ++ [c] := by
  rw [dropEndWhile, List.reverse_concat,
    List.dropWhile_cons_of_neg (by simp [hc]), List.reverse_cons,
    List.reverse_reverse]

/-- Trimming at the end does not go beyond a character that stays. -/
theorem trimEnd_append_cons {c : Char} (hc : isBlank c = false) (t b : Text) :
    trimEnd (t ++ c :: b) = t ++ c :: trimEnd b := by
  have hfront : List.dropWhile isBlank (c :: t.reverse) = c :: t.reverse :=
    List.dropWhile_cons_of_neg (by simp [hc])
  rw [trimEnd, dropEndWhile, List.reverse_append, List.reverse_cons,
    List.append_assoc, List.singleton_append, List.dropWhile_append, hfront]
  split
  · rename_i hblank
    rw [trimEnd, dropEndWhile, List.isEmpty_iff.mp hblank]
    simp
  · simp [trimEnd, dropEndWhile]

/-- What stands between blanks and has none at its own ends is what trimming
leaves. -/
theorem trim_between {g u g' : Text} (hg : ∀ c ∈ g, isBlank c = true)
    (hg' : ∀ c ∈ g', isBlank c = true) (hne : u ≠ [])
    (hhead : u.head?.any isBlank = false)
    (hlast : u.getLast?.any isBlank = false) :
    trim (g ++ (u ++ g')) = u := by
  have hfront : (u ++ g').head?.any isBlank = false := by
    cases u with
    | nil => exact absurd rfl hne
    | cons c u => exact hhead
  obtain ⟨w, c, hu⟩ := List.eq_nil_or_concat u |>.resolve_left hne
  rw [List.concat_eq_append] at hu
  subst hu
  have hc : isBlank c = false := by simpa using hlast
  rw [trim, dropWhile_blanks hg hfront, trimEnd, dropEndWhile_append hg',
    dropEndWhile_concat hc]

/-- An end that has only blanks after it, and whose last character is none,
stays the end. -/
theorem suffix_trimEnd {s b : Text} {c : Char} (hs : s.getLast? = some c)
    (hc : isBlank c = false) (hb : ∀ d ∈ b, isBlank d = true) (t : Text) :
    s <:+ trimEnd (t ++ (s ++ b)) := by
  obtain ⟨s, rfl⟩ := List.getLast?_eq_some_iff.mp hs
  refine ⟨t, ?_⟩
  have htrim : trimEnd (t ++ s ++ [c] ++ b) = t ++ s ++ [c] := by
    rw [trimEnd, dropEndWhile_append hb, dropEndWhile_concat hc]
  simpa using htrim.symm

/-- What is trimmed at the end is blank. -/
theorem exists_trimEnd_append (t : Text) :
    ∃ b : Text, t = t.trimEnd ++ b ∧ ∀ c ∈ b, isBlank c = true := by
  refine ⟨(t.reverse.takeWhile isBlank).reverse, ?_, ?_⟩
  · rw [trimEnd, dropEndWhile, ← List.reverse_append,
      List.takeWhile_append_dropWhile, List.reverse_reverse]
  · intro c hc
    exact List.mem_takeWhile_imp (List.mem_reverse.mp hc)

theorem mem_trimEnd {c : Char} (hc : isBlank c = false) {t : Text} (h : c ∈ t) :
    c ∈ t.trimEnd := by
  obtain ⟨b, hb, hblank⟩ := exists_trimEnd_append t
  rw [hb, List.mem_append] at h
  refine h.resolve_right fun hcb => ?_
  rw [hblank c hcb] at hc
  exact Bool.noConfusion hc

/-- A text that is followed by a character, with its end trimmed and as it is:
only a blank could tell them apart. -/
theorem trimEnd_append_cons_inj {x s s' : Text} {d e : Char}
    (hd : isBlank d = false) (h : trimEnd x ++ d :: s = x ++ e :: s') :
    trimEnd x = x ∧ d = e ∧ s = s' := by
  obtain ⟨b, hx, hb⟩ := exists_trimEnd_append x
  have hboth : trimEnd x ++ d :: s = trimEnd x ++ (b ++ e :: s') := by
    rw [h, ← List.append_assoc, ← hx]
  have hrest := List.append_cancel_left hboth
  cases b with
  | nil =>
      obtain ⟨hde, hss⟩ := List.cons.inj hrest
      exact ⟨by simpa using hx.symm, hde, hss⟩
  | cons c b =>
      obtain ⟨rfl, -⟩ := List.cons.inj hrest
      rw [hb d List.mem_cons_self] at hd
      exact Bool.noConfusion hd

/-- A text that trimming leaves as it is does not start with a blank. -/
theorem dropWhile_eq_self_of_trim {t : Text} (h : trim t = t) :
    t.dropWhile isBlank = t := by
  obtain ⟨b, hb, -⟩ := exists_trimEnd_append (t.dropWhile isBlank)
  refine (List.dropWhile_suffix isBlank).eq_of_length_le ?_
  rw [hb, List.length_append]
  show t.length ≤ (trim t).length + b.length
  rw [h]
  omega

/-- Trimming a part at the start of such a text takes blanks from its end
only. -/
theorem trim_of_trim_append {x y : Text} (h : trim (x ++ y) = x ++ y) :
    trim x = trimEnd x := by
  have hself := dropWhile_eq_self_of_trim h
  cases x with
  | nil => rfl
  | cons c x =>
      have hc : isBlank c = false := by
        by_contra hblank
        rw [List.cons_append,
          List.dropWhile_cons_of_pos (by simpa using hblank)] at hself
        have hlength := congrArg List.length hself
        have hle := (List.dropWhile_suffix isBlank (l := x ++ y)).length_le
        rw [List.length_cons] at hlength
        omega
      rw [trim, List.dropWhile_cons_of_neg (by simp [hc])]

theorem head?_dropWhile (p : Char → Bool) (t : Text) :
    (t.dropWhile p).head?.any p = false := by
  have hhead := List.head?_dropWhile_not p t
  cases h : (t.dropWhile p).head? with
  | none => rfl
  | some c =>
      rw [h] at hhead
      exact hhead

theorem getLast?_trimEnd (t : Text) :
    t.trimEnd.getLast?.any isBlank = false := by
  rw [trimEnd, dropEndWhile, List.getLast?_reverse]
  exact head?_dropWhile isBlank t.reverse

/-- Trimming takes blanks from both ends and comes upon characters that are
none. -/
theorem exists_trim_parts (t : Text) :
    ∃ l r : Text, t = l ++ (t.trim ++ r) ∧ (∀ c ∈ l, isBlank c = true) ∧
      (∀ c ∈ r, isBlank c = true) ∧
      t.trim.head?.any isBlank = false ∧
      t.trim.getLast?.any isBlank = false := by
  obtain ⟨r, hr, hblank⟩ := exists_trimEnd_append (t.dropWhile isBlank)
  change _ = t.trim ++ r at hr
  refine ⟨t.takeWhile isBlank, r, ?_, fun c hc => List.mem_takeWhile_imp hc,
    hblank, ?_, getLast?_trimEnd _⟩
  · rw [← hr, List.takeWhile_append_dropWhile]
  · have hhead := head?_dropWhile isBlank t
    rw [hr] at hhead
    cases h : t.trim with
    | nil => rfl
    | cons c u =>
        rw [h] at hhead
        exact hhead

theorem trim_trim (t : Text) : t.trim.trim = t.trim := by
  obtain ⟨l, r, -, -, -, hhead, hlast⟩ := exists_trim_parts t
  by_cases hne : t.trim = []
  · rw [hne]
    rfl
  · have hnone : ∀ c ∈ ([] : Text), isBlank c = true := by simp
    simpa using trim_between hnone hnone hne hhead hlast

theorem trim_append_blanks {b : Text} (hb : ∀ c ∈ b, isBlank c = true)
    (t : Text) : trim (t ++ b) = trim t := by
  rw [trim, trim, List.dropWhile_append]
  split
  · rename_i hempty
    rw [List.isEmpty_iff.mp hempty, List.dropWhile_eq_nil_iff.mpr hb]
  · exact dropEndWhile_append hb _

theorem filter_trim (t : Text) :
    t.trim.filter (!isBlank ·) = t.filter (!isBlank ·) := by
  obtain ⟨l, r, ht, hl, hr, -, -⟩ := exists_trim_parts t
  have hnone : ∀ {b : Text}, (∀ c ∈ b, isBlank c = true) →
      b.filter (!isBlank ·) = [] := fun hb =>
    List.filter_eq_nil_iff.mpr fun c hc => by simp [hb c hc]
  calc t.trim.filter (!isBlank ·) =
        (l ++ (t.trim ++ r)).filter (!isBlank ·) := by
        rw [List.filter_append, List.filter_append, hnone hl, hnone hr,
          List.nil_append, List.append_nil]
    _ = t.filter (!isBlank ·) := by rw [← ht]

theorem trim_infix (t : Text) : t.trim <:+: t := by
  obtain ⟨b, hb, -⟩ := exists_trimEnd_append (t.dropWhile isBlank)
  have hfront : t.trim <+: t.dropWhile isBlank := ⟨b, hb.symm⟩
  exact hfront.isInfix.trans (List.dropWhile_suffix isBlank).isInfix

theorem mem_of_mem_trim {c : Char} {t : Text} (h : c ∈ t.trim) : c ∈ t :=
  t.trim_infix.subset h

theorem words_trimEnd (t : Text) : words t.trimEnd = words t := by
  obtain ⟨b, ht, hb⟩ := exists_trimEnd_append t
  calc words t.trimEnd = words (t.trimEnd ++ b) :=
        (words_append_blanks hb _).symm
    _ = words t := by rw [← ht]

theorem words_dropWhile {p : Char → Bool}
    (hp : ∀ c, p c = true → isBlank c = true) (t : Text) :
    words (t.dropWhile p) = words t := by
  have hfront : ∀ c ∈ t.takeWhile p, isBlank c = true :=
    fun c hc => hp c (List.mem_takeWhile_imp hc)
  calc words (t.dropWhile p) = words (t.takeWhile p ++ t.dropWhile p) :=
        (words_blanks_append hfront _).symm
    _ = words t := by rw [List.takeWhile_append_dropWhile]

theorem isBlank_newline : isBlank '\n' = true := by decide

theorem words_trimBody (t : Text) : words t.trimBody = words t := by
  rw [trimBody, words_trimEnd, words_dropWhile]
  intro c hc
  rw [beq_iff_eq.mp hc]
  exact isBlank_newline

theorem isBlank_of_mem_breaks (k : Nat) :
    ∀ c ∈ List.replicate k '\n', isBlank c = true := by
  intro c hc
  rw [List.eq_of_mem_replicate hc]
  exact isBlank_newline

/-- Line feeds at the end do not count where they are trimmed. -/
theorem trimEnd_append_breaks (t : Text) (k : Nat) :
    trimEnd (t ++ List.replicate k '\n') = trimEnd t :=
  dropEndWhile_append (isBlank_of_mem_breaks k) t

theorem trimBody_append_breaks (t : Text) (k : Nat) :
    trimBody (t ++ List.replicate k '\n') = trimBody t := by
  rw [trimBody, trimBody, List.dropWhile_append]
  split
  · -- nothing but line feeds
    rename_i hnil
    have hall : (List.replicate k '\n').dropWhile (· == '\n') = [] := by
      rw [List.dropWhile_eq_nil_iff]
      intro c hc
      rw [List.eq_of_mem_replicate hc]
      rfl
    rw [hall, List.isEmpty_iff.mp hnil]
  · exact trimEnd_append_breaks _ k

/-! ## Lines -/

theorem unlines_cons_cons (l k : Text) (ls : List Text) :
    unlines (l :: k :: ls) = l ++ '\n' :: unlines (k :: ls) := by
  simp [unlines, join, List.intercalate, List.intersperse]

theorem unlines_singleton (l : Text) : unlines [l] = l := by
  simp [unlines, join, List.intercalate]

theorem words_unlines (ls : List Text) :
    words (unlines ls) = ls.flatMap words := by
  induction ls with
  | nil => rfl
  | cons l ls ih =>
      cases ls with
      | nil => simp [unlines_singleton]
      | cons k ls =>
          rw [unlines_cons_cons, words_append_blank isBlank_newline, ih]
          rfl

/-- Indenting by blanks keeps the words. -/
theorem words_indentBlock {pad : Text} (hpad : ∀ c ∈ pad, isBlank c = true)
    (t : Text) :
    words (indentBlock pad t) = words t := by
  have hline : ∀ line : Text,
      words (if (trim line).isEmpty then line else pad ++ line) = words line := by
    intro line
    split
    · rfl
    · exact words_blanks_append hpad line
  calc words (indentBlock pad t) = (lines t).flatMap words := by
        simp only [indentBlock, words_unlines, List.flatMap_map, hline]
    _ = words (unlines (lines t)) := (words_unlines _).symm
    _ = words t := by rw [unlines_lines]

theorem isBlank_indentation : ∀ c ∈ indentation, isBlank c = true :=
  List.all_eq_true.mp (by decide)

/-- A line is part of its text. -/
theorem infix_of_mem_lines {l t : Text} (h : l ∈ lines t) : l <:+: t := by
  have hmem : ∀ ls : List Text, l ∈ ls → l <:+: unlines ls := by
    intro ls
    induction ls with
    | nil => simp
    | cons k ls ih =>
        intro hl
        cases ls with
        | nil =>
            obtain rfl := List.mem_singleton.mp hl
            simp [unlines_singleton]
        | cons k' ls =>
            rw [unlines_cons_cons]
            rcases List.mem_cons.mp hl with rfl | hl
            · exact ⟨[], _, rfl⟩
            · exact (ih hl).trans ⟨k ++ ['\n'], [], by simp⟩
  rw [← unlines_lines t]
  exact hmem _ h

/-- Lines are cut at each line feed. -/
theorem lines_append_newline (u v : Text) :
    lines (u ++ '\n' :: v) = lines u ++ lines v :=
  fieldsBy_append_cons (by decide) u v

theorem not_mem_of_mem_fieldsBy {sep : Char → Bool} {t f : Text}
    (hf : f ∈ fieldsBy sep t) {c : Char} (hc : sep c = true) : c ∉ f := by
  induction t generalizing f with
  | nil => simp_all [fieldsBy]
  | cons d t ih =>
      obtain ⟨g, gs, hfields⟩ :=
        List.exists_cons_of_ne_nil (fieldsBy_ne_nil sep t)
      rw [fieldsBy, hfields] at hf
      rw [hfields] at ih
      by_cases hd : sep d = true
      · rw [if_pos hd] at hf
        rcases List.mem_cons.mp hf with rfl | hf
        · simp
        · exact ih hf
      · rw [if_neg hd] at hf
        rcases List.mem_cons.mp hf with rfl | hf
        · have hne : c ≠ d := fun h => hd (h ▸ hc)
          have hg := ih (List.mem_cons_self (l := gs))
          simp [hne, hg]
        · exact ih (List.mem_cons_of_mem g hf)

theorem newline_not_mem_of_mem_lines {l t : Text} (hl : l ∈ lines t) :
    '\n' ∉ l :=
  not_mem_of_mem_fieldsBy hl (by decide)

/-- Lines without line feeds can be read off the text that they make. -/
theorem lines_unlines {ls : List Text} (hne : ls ≠ [])
    (h : ∀ l ∈ ls, '\n' ∉ l) :
    lines (unlines ls) = ls :=
  fields_join hne h

/-- The first line ends before the first line feed. -/
theorem head?_lines (t : Text) : (lines t).head? = some (before '\n' t) := by
  rw [lines, fields, before]
  induction t with
  | nil => rfl
  | cons c t ih =>
      obtain ⟨f, fs, hfields⟩ :=
        List.exists_cons_of_ne_nil (fieldsBy_ne_nil (· == '\n') t)
      rw [hfields] at ih
      rw [fieldsBy, hfields]
      by_cases hc : c = '\n'
      · simp [hc]
      · simpa [hc] using ih

/-- From the start of a line up to the next line feed there stands a line. -/
theorem before_mem_lines {pre x : Text}
    (h : pre = [] ∨ pre.getLast? = some '\n') :
    before '\n' x ∈ lines (pre ++ x) := by
  have hfirst : before '\n' x ∈ lines x := List.mem_of_mem_head? (head?_lines x)
  rcases h with rfl | hlast
  · exact hfirst
  · obtain ⟨pre, rfl⟩ := List.getLast?_eq_some_iff.mp hlast
    rw [List.append_assoc]
    show _ ∈ lines (pre ++ '\n' :: x)
    rw [lines_append_newline]
    exact List.mem_append_right _ hfirst

end Text

end Recast
