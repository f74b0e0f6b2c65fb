import Recast.Analysis
import Recast.Proofs.Pattern.Separator
import Recast.Proofs.Text.Layout

/-!
# The kinds of numbers

The kind of an expression is the first that fits in a row of signs, some of
which are looked for in the expression as given and some in the trimmed one.
None of the signs has a blank in it, so all that counts of an expression are its
words and what trimming leaves of it (`inferKind_congr`). Whole numbers and
fractions are told exactly: what is made of digits, with or without a point
between them, shows none of the signs that come first.
-/

namespace Recast

open Pattern

namespace Text

/-- A nonempty run of decimal digits. -/
structure IsDigits (t : Text) : Prop where
  ne_nil : t ≠ []
  digit : ∀ c ∈ t, isDigit c = true

/-- Digits on both sides of a point. -/
def IsPointed (t : Text) : Prop :=
  ∃ whole part : Text, t = whole ++ '.' :: part ∧ IsDigits whole ∧ IsDigits part

theorem IsDigits.not_mem {t : Text} (h : IsDigits t) {c : Char}
    (hc : isDigit c = false) : c ∉ t :=
  not_mem_of_forall h.digit hc

theorem IsPointed.not_mem {t : Text} (h : IsPointed t) {c : Char}
    (hc : isDigit c = false) (hpoint : c ≠ '.') :
    c ∉ t := by
  obtain ⟨whole, part, rfl, hwhole, hpart⟩ := h
  simp [hwhole.not_mem hc, hpart.not_mem hc, hpoint]

theorem IsPointed.not_isDigits {t : Text} (h : IsPointed t) : ¬ IsDigits t := by
  obtain ⟨whole, part, rfl, -, -⟩ := h
  intro hdigits
  exact hdigits.not_mem (c := '.') (by decide) (by simp)

/-! ## Padding -/

theorem trim_pad {u v : Text} (hu : ∀ c ∈ u, isBlank c = true)
    (hv : ∀ c ∈ v, isBlank c = true) (e : Text) :
    trim (u ++ (e ++ v)) = trim e := by
  rw [trim, List.dropWhile_append_of_pos hu]
  exact trim_append_blanks hv e

theorem words_pad {u v : Text} (hu : ∀ c ∈ u, isBlank c = true)
    (hv : ∀ c ∈ v, isBlank c = true) (e : Text) :
    words (u ++ (e ++ v)) = words e := by
  rw [words_blanks_append hu, words_append_blanks hv]

/-! ## What trimming keeps -/

theorem mem_trim {c : Char} (hc : isBlank c = false) {t : Text} (h : c ∈ t) :
    c ∈ t.trim := by
  have hkept : c ∈ t.trim.filter (!isBlank ·) := by
    rw [filter_trim]
    exact List.mem_filter.mpr ⟨h, by simp [hc]⟩
  exact (List.mem_filter.mp hkept).1

/-- A text is not mentioned where one of its characters, no blank, is missing
from what trimming leaves. -/
theorem mentions_of_not_mem_trim {c : Char} {needle t : Text}
    (hneedle : c ∈ needle) (hc : isBlank c = false) (h : c ∉ t.trim) :
    t.mentions needle = false := by
  rw [mentions_eq_false_iff]
  exact fun hmention => h (mem_trim hc (hmention.subset hneedle))

theorem trim_ne_concat_break (t : Text) (u : Text) : t.trim ≠ u ++ ['\n'] := by
  obtain ⟨-, -, -, -, -, -, hlast⟩ := exists_trim_parts t
  intro h
  rw [h, List.getLast?_concat] at hlast
  exact absurd hlast (by decide)

end Text

open Text

/-! ## The two patterns -/

theorem opens_intLiteral_iff (t : Text) :
    Idiom.intLiteral.pattern.opens t = true ↔
      ∃ digits rest : Text, t = digits ++ rest ∧ IsDigits digits ∧
        (rest = [] ∨ rest = ['\n']) := by
  show (matchAt Idiom.intLiteralPattern none t).isSome = true ↔ _
  simp only [isSome_matchAt_iff, Idiom.intLiteralPattern, reads_append_assoc,
    reads_anchor_append, reads_many1_append, reads_anchor_iff]
  constructor
  · rintro ⟨_, rest, _, rfl, -, -, digits, _, rfl, hne, hdigit, rfl, -, hend⟩
    exact ⟨digits, rest, by simp, ⟨hne, hdigit⟩,
      by simpa [Anchor.holds] using hend⟩
  · rintro ⟨digits, rest, rfl, hdigits, hend⟩
    exact ⟨digits, rest, [], rfl, hdigits.ne_nil, rfl, digits, [], by simp,
      hdigits.ne_nil, hdigits.digit, rfl, rfl,
      by simpa [Anchor.holds] using hend⟩

theorem opens_floatLiteral_iff (t : Text) :
    Idiom.floatLiteral.pattern.opens t = true ↔
      ∃ number rest : Text, t = number ++ rest ∧ IsPointed number ∧
        (rest = [] ∨ rest = ['\n']) := by
  show (matchAt Idiom.floatLiteralPattern none t).isSome = true ↔ _
  simp only [isSome_matchAt_iff, Idiom.floatLiteralPattern, reads_append_assoc,
    reads_anchor_append, reads_many1_append, reads_literal_append,
    reads_anchor_iff]
  constructor
  · rintro ⟨_, rest, _, rfl, -, -, whole, _, rfl, hwhole, hwdigit, _, rfl, part,
      _, rfl, hpart, hpdigit, rfl, -, hend⟩
    exact ⟨_, rest, rfl,
      ⟨whole, part, by simp, ⟨hwhole, hwdigit⟩, ⟨hpart, hpdigit⟩⟩,
      by simpa [Anchor.holds] using hend⟩
  · rintro ⟨_, rest, rfl, ⟨whole, part, rfl, hwhole, hpart⟩, hend⟩
    exact ⟨_, rest, [], rfl, by simp, rfl, whole, '.' :: part, rfl,
      hwhole.ne_nil, hwhole.digit, part, rfl, part, [], by simp, hpart.ne_nil,
      hpart.digit, rfl, rfl, by simpa [Anchor.holds] using hend⟩

/-- A trimmed text has no last line feed that the end of the pattern could leave
out. -/
theorem opens_intLiteral_trim (t : Text) :
    Idiom.intLiteral.pattern.opens t.trim = true ↔ IsDigits t.trim := by
  rw [opens_intLiteral_iff]
  constructor
  · rintro ⟨digits, rest, ht, hdigits, rfl | rfl⟩
    · rw [ht, List.append_nil]
      exact hdigits
    · exact absurd ht (trim_ne_concat_break t digits)
  · exact fun h => ⟨t.trim, [], by simp, h, Or.inl rfl⟩

theorem opens_floatLiteral_trim (t : Text) :
    Idiom.floatLiteral.pattern.opens t.trim = true ↔ IsPointed t.trim := by
  rw [opens_floatLiteral_iff]
  constructor
  · rintro ⟨number, rest, ht, hnumber, rfl | rfl⟩
    · rw [ht, List.append_nil]
      exact hnumber
    · exact absurd ht (trim_ne_concat_break t number)
  · exact fun h => ⟨t.trim, [], by simp, h, Or.inl rfl⟩

namespace Analysis

/-! ## Numbers -/

theorem inferKind_of_isDigits {e : Text} (h : IsDigits e.trim) :
    inferKind e = .int := by
  have hlist : e.mentions "[]" = false :=
    mentions_of_not_mem_trim (c := '[') (by decide) (by decide)
      (h.not_mem (by decide))
  have harray : e.mentions Library.arrayBuilder = false :=
    mentions_of_not_mem_trim (c := 'n') (by decide) (by decide)
      (h.not_mem (by decide))
  simp only [inferKind, hlist, harray, (opens_intLiteral_trim e).mpr h,
    Bool.false_eq_true, if_false, if_true]

theorem inferKind_of_isPointed {e : Text} (h : IsPointed e.trim) :
    inferKind e = .float := by
  have hlist : e.mentions "[]" = false :=
    mentions_of_not_mem_trim (c := '[') (by decide) (by decide)
      (h.not_mem (by decide) (by decide))
  have harray : e.mentions Library.arrayBuilder = false :=
    mentions_of_not_mem_trim (c := 'n') (by decide) (by decide)
      (h.not_mem (by decide) (by decide))
  have hint : Idiom.intLiteral.pattern.opens e.trim = false := by
    rw [← Bool.not_eq_true, opens_intLiteral_trim]
    exact h.not_isDigits
  simp only [inferKind, hlist, harray, hint, (opens_floatLiteral_trim e).mpr h,
    Bool.false_eq_true, if_false, if_true]

theorem isDigits_of_inferKind {e : Text} (h : inferKind e = .int) :
    IsDigits e.trim := by
  by_contra hnot
  rw [← opens_intLiteral_trim] at hnot
  rw [inferKind] at h
  split_ifs at h

theorem isPointed_of_inferKind {e : Text} (h : inferKind e = .float) :
    IsPointed e.trim := by
  by_contra hnot
  rw [← opens_floatLiteral_trim] at hnot
  rw [inferKind] at h
  split_ifs at h

/-! ## All kinds -/

theorem contains_congr_words {x : Char} (hx : isBlank x = false) {s t : Text}
    (h : s.words = t.words) :
    s.contains x = t.contains x := by
  have hcount := count_congr_words hx h
  rw [Bool.eq_iff_iff, List.contains_iff_mem, List.contains_iff_mem,
    ← List.count_pos_iff, ← List.count_pos_iff, hcount]

theorem boolLiteral_within : Idiom.boolLiteral.pattern.Within isBlank := by
  have hedge : Anchor.wordEdge.Blind isBlank := Anchor.blind_wordEdge fun _ =>
    isWord_of_isBlank
  exact ⟨⟨hedge, within_literal (by decide), within_literal (by decide),
    within_literal (by decide), within_literal (by decide)⟩,
    hedge⟩

/-- The kind of an expression is known from its words and from what trimming
leaves of it. -/
theorem inferKind_congr {s t : Text} (hwords : s.words = t.words)
    (htrim : s.trim = t.trim) :
    inferKind s = inferKind t := by
  have hlist : s.mentions "[]" = t.mentions "[]" :=
    mentions_congr_words (by decide) (by decide) hwords
  have harray : s.mentions Library.arrayBuilder =
      t.mentions Library.arrayBuilder :=
    mentions_congr_words (by decide) (by decide) hwords
  have hdouble : s.contains '"' = t.contains '"' :=
    contains_congr_words (by decide) hwords
  have hsingle : s.contains '\x27' = t.contains '\x27' :=
    contains_congr_words (by decide) hwords
  have hbool := foundIn_congr_words boolLiteral_within hwords
  simp only [inferKind, hlist, harray, htrim, hdouble, hsingle, hbool]

/-- Numbers are told exactly, and blanks around an expression do not matter to
any kind. -/
theorem inferKind_exact_on_numbers (e : Text) :
    (inferKind e = .int ↔ IsDigits e.trim) ∧
    (inferKind e = .float ↔ IsPointed e.trim) ∧
      ∀ u v : Text, (∀ c ∈ u, isBlank c = true) → (∀ c ∈ v, isBlank c = true) →
        inferKind (u ++ (e ++ v)) = inferKind e := by
  refine ⟨⟨isDigits_of_inferKind, inferKind_of_isDigits⟩,
    ⟨isPointed_of_inferKind, inferKind_of_isPointed⟩, ?_⟩
  intro u v hu hv
  exact inferKind_congr (words_pad hu hv e) (trim_pad hu hv e)

/-- Digits of another script, an em space and line breaks. -/
theorem inferKind_exact_on_numbers_padded :
    inferKind ("\u2003\n" ++ ("٣.14" ++ "\x1f\n")) = .float ∧
    inferKind ("\n" ++ ("True" ++ " ")) = .bool := by
  have hblank : ∀ u : Text, u.all isBlank = true → ∀ c ∈ u, isBlank c = true :=
    fun u => List.all_eq_true.mp
  constructor
  · rw [(inferKind_exact_on_numbers "٣.14").2.2 _ _ (hblank _ (by decide))
      (hblank _ (by decide))]
    decide
  · rw [(inferKind_exact_on_numbers "True").2.2 _ _ (hblank _ (by decide))
      (hblank _ (by decide))]
    decide

end Analysis

end Recast
