import Recast.Text.Class

/-!
# Text

A text is the list of its characters. The operations here cut a text into lines
and fields, trim it, look for one text in another, and lay it out again.
Literals are written as strings and coerced.
-/

namespace Recast

/-- A text, character by character. A character is a Unicode scalar value, so a
text holds no lone surrogate and every text has an encoding. -/
abbrev Text := List Char

instance : Coe String Text := ⟨String.toList⟩

namespace Text

/-! ## Cutting and joining -/

/-- The parts of `t` between the characters in `sep`; there is one more part
than separators. -/
def fieldsBy (sep : Char → Bool) : Text → List Text
  | [] => [[]]
  | c :: cs =>
    if sep c then [] :: fieldsBy sep cs
    else
      match fieldsBy sep cs with
      | [] => [[c]]
      | f :: fs => (c :: f) :: fs

/-- The parts of `t` between the occurrences of `sep`. -/
def fields (sep : Char) (t : Text) : List Text := fieldsBy (· == sep) t

/-- The lines of `t`: only the line feed divides lines. -/
def lines (t : Text) : List Text := fields '\n' t

/-- The maximal runs of characters that are not blank. -/
def words (t : Text) : List Text := (fieldsBy isBlank t).filter (· ≠ [])

/-- The parts with `sep` between each two. -/
def join (sep : Text) (parts : List Text) : Text := List.intercalate sep parts

/-- The lines as one text. -/
def unlines (ls : List Text) : Text := join ['\n'] ls

/-- What stands before the first `sep`, or all of `t` where there is none. -/
def before (sep : Char) (t : Text) : Text := t.takeWhile (· != sep)

/-- What stands after the first `sep`, or nothing where there is none. -/
def after (sep : Char) (t : Text) : Text := (t.dropWhile (· != sep)).drop 1

/-! ## Trimming -/

/-- `t` without the longest end made of characters in `p`. -/
def dropEndWhile (p : Char → Bool) (t : Text) : Text :=
  (t.reverse.dropWhile p).reverse

/-- `t` without trailing blanks. -/
def trimEnd (t : Text) : Text := dropEndWhile isBlank t

/-- `t` without blanks at either end. -/
def trim (t : Text) : Text := trimEnd (t.dropWhile isBlank)

/-- `t` without leading line feeds and trailing blanks. -/
def trimBody (t : Text) : Text := trimEnd (t.dropWhile (· == '\n'))

/-! ## Looking for one text in another -/

/-- Whether `needle` occurs in `t`. -/
def mentions (t needle : Text) : Bool :=
  match t with
  | [] => needle.isEmpty
  | c :: cs => needle.isPrefixOf (c :: cs) || mentions cs needle

/-! ## Layout -/

/-- One level of indentation. -/
def indentation : Text := "    "

/-- `t` with `pad` put before each line that has a character other than a
blank. -/
def indentBlock (pad t : Text) : Text :=
  unlines ((lines t).map fun line =>
    if (trim line).isEmpty then line else pad ++ line)

/-- `t`, or `d` where `t` is empty. -/
def orElse (t d : Text) : Text := if t.isEmpty then d else t

/-- `t` as the only member of a list, or no member where `b` is false. -/
def onlyIf (b : Bool) (t : Text) : List Text := if b then [t] else []

/-- The decimal digits of `n`. -/
def ofNat (n : Nat) : Text := Nat.toDigits 10 n

/-- The decimal digits of `n`, with a minus sign where it is negative. -/
def ofInt (n : Int) : Text :=
  if n < 0 then '-' :: ofNat n.natAbs else ofNat n.natAbs

/-- The last `width` hexadecimal digits of `n`, in small letters. -/
def hex : (width n : Nat) → Text
  | 0, _ => []
  | width + 1, n => hex width (n / 16) ++ [Nat.digitChar (n % 16)]

/-- The number of bytes of a text in UTF-8. -/
def utf8Size : Text → Nat
  | [] => 0
  | c :: cs => c.utf8Size + utf8Size cs

/-! ## First facts -/

theorem fieldsBy_ne_nil (sep : Char → Bool) (t : Text) :
    fieldsBy sep t ≠ [] := by
  cases t with
  | nil => simp [fieldsBy]
  | cons c cs =>
    rw [fieldsBy]
    split
    · simp
    · split <;> simp

/-- Joining with the separator undoes cutting at it. -/
theorem join_fields (sep : Char) (t : Text) :
    join [sep] (fields sep t) = t := by
  induction t with
  | nil => rfl
  | cons c cs ih =>
    simp only [fields, join, fieldsBy] at ih ⊢
    obtain ⟨f, fs, h⟩ :=
      List.exists_cons_of_ne_nil (fieldsBy_ne_nil (· == sep) cs)
    rw [h] at ih ⊢
    split
    · rename_i hc
      have hc : c = sep := by simpa using hc
      simp only [List.intercalate, List.intersperse, List.flatten_cons,
        List.nil_append, List.singleton_append, List.cons.injEq, hc,
        true_and] at ih ⊢
      exact ih
    · cases fs <;> simpa [List.intercalate, List.intersperse] using ih

theorem unlines_lines (t : Text) : unlines (lines t) = t := join_fields '\n' t

/-- A mention is an occurrence: the text around it can be named. -/
theorem mentions_iff (t needle : Text) :
    mentions t needle = true ↔ needle <:+: t := by
  induction t with
  | nil => simp [mentions]
  | cons c cs ih => simp [mentions, List.infix_cons_iff, ih]

example : fields ',' "a,,b" = (["a", "", "b"] : List Text) := by decide
example : words " a \t bc\n" = (["a", "bc"] : List Text) := by decide
example : trim "\x0b a b \n" = ("a b" : Text) := by decide
example : indentBlock "  " "a\n \nb" = ("  a\n \n  b" : Text) := by decide

end Text

end Recast
