import Recast.Json
import Recast.Proofs.Text.Layout

/-!
# Tokens of a document

A document is read in two passes, the first of which cuts a text into tokens:
brackets, signs, and the values that are no lists or records. It goes over the
text character by character and knows only what it is in the middle of. What
stands between quotes is taken as code units of sixteen bits, so that a
character beyond them may be written as itself or as a pair of surrogates.
`cutsApart_write` says that the text of a document is cut into the tokens of the
document.
-/

namespace Recast

namespace Json

/-! ## Code units -/

/-- The code units of a character. -/
def units (c : Char) : List Nat :=
  if c.toNat < 0x10000 then [c.toNat]
  else [0xd800 + (c.toNat - 0x10000) / 0x400,
    0xdc00 + (c.toNat - 0x10000) % 0x400]

/-- The text of code units, unless a surrogate has no partner. -/
def ofUnits : List Nat → Option Text
  | [] => some []
  | u :: us =>
    if u < 0xd800 ∨ 0xe000 ≤ u then (ofUnits us).map (Char.ofNat u :: ·)
    else
      match us with
      | [] => none
      | v :: vs =>
        if u < 0xdc00 ∧ 0xdc00 ≤ v ∧ v < 0xe000 then
          (ofUnits vs).map
            (Char.ofNat (0x10000 + (u - 0xd800) * 0x400 + (v - 0xdc00)) :: ·)
        else none

/-! ## The first pass -/

inductive Token where
  | openList
  | closeList
  | openRecord
  | closeRecord
  | comma
  | colon
  | text (t : Text)
  | number (n : Nat)
  | bool (b : Bool)
deriving DecidableEq, Repr

/-- What the reader is in the middle of. -/
inductive Mode where
  | between
  /-- A word or a number. -/
  | word (w : Text)
  /-- A text, with its code units so far. -/
  | text (us : List Nat)
  /-- A text, right after a backslash. -/
  | escaped (us : List Nat)
  /-- A code unit by number: the value of its digits so far, with one digit and
  `owed` more to come. -/
  | unit (us : List Nat) (owed value : Nat)

/-- Layout between tokens. -/
def isLayout (c : Char) : Bool :=
  c == ' ' || c == '\n' || c == '\r' || c == '\t'

/-- The characters of words and numbers. -/
def isBare (c : Char) : Bool := c.isAlphanum || c == '-' || c == '+' || c == '.'

/-- A token of one character. -/
def sign? (c : Char) : Option Token :=
  if c = '[' then some .openList
  else if c = ']' then some .closeList
  else if c = '\x7b' then some .openRecord
  else if c = '\x7d' then some .closeRecord
  else if c = ',' then some .comma
  else if c = ':' then some .colon
  else none

/-- A truth value, or a number in decimal digits that does not start with a zero
in vain. -/
def ofWord? (w : Text) : Option Token :=
  if w = "true" then some (.bool true)
  else if w = "false" then some (.bool false)
  else if w.all Char.isDigit && (w.head? != some '0' || w == ['0']) &&
    !w.isEmpty then
    some (.number (Nat.ofDigitChars 10 w 0))
  else none

/-- What a letter after a backslash stands for. -/
def escape? (c : Char) : Option Nat :=
  if c = '"' ∨ c = '\\' ∨ c = '/' then some c.toNat
  else if c = 'n' then some 0x0a
  else if c = 'r' then some 0x0d
  else if c = 't' then some 0x09
  else if c = 'b' then some 0x08
  else if c = 'f' then some 0x0c
  else none

/-- The value of a hexadecimal digit. -/
def hexDigit? (c : Char) : Option Nat :=
  if '0' ≤ c ∧ c ≤ '9' then some (c.toNat - '0'.toNat)
  else if 'a' ≤ c ∧ c ≤ 'f' then some (c.toNat - 'a'.toNat + 10)
  else if 'A' ≤ c ∧ c ≤ 'F' then some (c.toNat - 'A'.toNat + 10)
  else none

/-- A character between tokens. -/
def begin? (c : Char) : Option (Mode × List Token) :=
  if isLayout c then some (.between, [])
  else if c = '"' then some (.text [], [])
  else if isBare c then some (.word [c], [])
  else (sign? c).map fun s => (.between, [s])

/-- One character: what the reader is in the middle of then, and the tokens that
are complete. -/
def Mode.step : Mode → Char → Option (Mode × List Token)
  | between, c => begin? c
  | word w, c =>
    if isBare c then some (word (w ++ [c]), [])
    else (ofWord? w).bind fun s => (begin? c).map fun r => (r.1, s :: r.2)
  | text us, c =>
    if c = '"' then (ofUnits us).map fun t => (between, [.text t])
    else if c = '\\' then some (escaped us, [])
    else if c.toNat < 0x20 then none
    else some (text (us ++ units c), [])
  | escaped us, c =>
    if c = 'u' then some (unit us 3 0, []) else (escape? c).map fun u =>
      (text (us ++ [u]), [])
  | unit us owed value, c =>
    (hexDigit? c).map fun d =>
      match owed with
      | 0 => (text (us ++ [value * 16 + d]), [])
      | owed + 1 => (unit us owed (value * 16 + d), [])

/-- The tokens that are complete at the end of the text. -/
def Mode.finish : Mode → Option (List Token)
  | between => some []
  | word w => (ofWord? w).map ([·])
  | _ => none

/-- The tokens of a text, read on in the middle of something. -/
def lexFrom (mode : Mode) : Text → Option (List Token)
  | [] => mode.finish
  | c :: cs => (mode.step c).bind fun r => (lexFrom r.1 cs).map (r.2 ++ ·)

/-- The tokens of a text. -/
def lex (t : Text) : Option (List Token) := lexFrom .between t

example : lex "[10, \"\\n\"]" = some
    [.openList, .number 10, .comma, .text "\n", .closeList] := rfl
example : lex "01" = none := rfl

/-! ## Characters -/

theorem toNat_bounds (c : Char) :
    c.toNat < 0xd800 ∨ 0xe000 ≤ c.toNat ∧ c.toNat < 0x110000 := by
  rcases c.valid with h | h
  · exact Or.inl h
  · exact Or.inr ⟨Nat.succ_le_of_lt h.1, h.2⟩

theorem ofUnits_cons_plain {u : Nat} (h : u < 0xd800 ∨ 0xe000 ≤ u)
    (us : List Nat) :
    ofUnits (u :: us) = (ofUnits us).map (Char.ofNat u :: ·) := by
  cases us with
  | nil => simp [ofUnits, h]
  | cons v us => rw [ofUnits, if_pos h]

theorem ofUnits_cons_pair {u v : Nat} (hu : 0xd800 ≤ u)
    (h : u < 0xdc00 ∧ 0xdc00 ≤ v ∧ v < 0xe000) (us : List Nat) :
    ofUnits (u :: v :: us) =
      (ofUnits us).map
        (Char.ofNat (0x10000 + (u - 0xd800) * 0x400 + (v - 0xdc00)) :: ·) := by
  rw [ofUnits, if_neg (by omega), if_pos h]

/-- The code units of a character give it back. -/
theorem ofUnits_units_append (c : Char) (us : List Nat) :
    ofUnits (units c ++ us) = (ofUnits us).map (c :: ·) := by
  have hbounds := toNat_bounds c
  rw [units]
  split
  · rename_i hsmall
    rw [List.singleton_append, ofUnits_cons_plain (by omega), Char.ofNat_toNat]
  · rename_i hlarge
    have hvalue :
        0x10000 + (0xd800 + (c.toNat - 0x10000) / 0x400 - 0xd800) * 0x400 +
        (0xdc00 + (c.toNat - 0x10000) % 0x400 - 0xdc00) = c.toNat := by omega
    rw [List.cons_append, List.singleton_append,
      ofUnits_cons_pair (by omega) (by omega), hvalue, Char.ofNat_toNat]

theorem ofUnits_flatMap_units (t : Text) :
    ofUnits (t.flatMap units) = some t := by
  induction t with
  | nil => rfl
  | cons c t ih =>
      rw [List.flatMap_cons, ofUnits_units_append, ih, Option.map_some]

theorem hexDigit?_digitChar :
    ∀ d < 16, hexDigit? (Nat.digitChar d) = some d := by decide

/-! ## Texts -/

theorem lexFrom_cons {mode mode' : Mode} {c : Char} {ts : List Token}
    (h : mode.step c = some (mode', ts)) (cs : Text) :
    lexFrom mode (c :: cs) = (lexFrom mode' cs).map (ts ++ ·) := by
  rw [lexFrom, h, Option.bind_some]

theorem lexFrom_cons_silent {mode mode' : Mode} {c : Char}
    (h : mode.step c = some (mode', [])) (cs : Text) :
    lexFrom mode (c :: cs) = lexFrom mode' cs := by
  rw [lexFrom_cons h]
  simp

theorem step_unit_more (us : List Nat) (owed value : Nat) {d : Nat}
    (hd : d < 16) :
    (Mode.unit us (owed + 1) value).step (Nat.digitChar d) =
      some (.unit us owed (value * 16 + d), []) := by
  rw [Mode.step, hexDigit?_digitChar d hd]
  rfl

theorem step_unit_last (us : List Nat) (value : Nat) {d : Nat} (hd : d < 16) :
    (Mode.unit us 0 value).step (Nat.digitChar d) =
      some (.text (us ++ [value * 16 + d]), []) := by
  rw [Mode.step, hexDigit?_digitChar d hd]
  rfl

theorem lexFrom_escapeUnit (us : List Nat) {n : Nat} (hn : n < 0x10000)
    (rest : Text) :
    lexFrom (.text us) (escapeUnit n ++ rest) =
      lexFrom (.text (us ++ [n])) rest := by
  have hopen : (Mode.text us).step '\\' = some (.escaped us, []) := rfl
  have hunit : (Mode.escaped us).step 'u' = some (.unit us 3 0, []) := rfl
  have hlt : ∀ k, k % 16 < 16 := fun k => Nat.mod_lt k (by decide)
  have hvalue :
      (((0 * 16 + n / 16 / 16 / 16 % 16) * 16 + n / 16 / 16 % 16) * 16 +
        n / 16 % 16) * 16 + n % 16 = n := by
    omega
  show lexFrom (.text us) ('\\' :: 'u' ::
    Nat.digitChar (n / 16 / 16 / 16 % 16) :: Nat.digitChar (n / 16 / 16 % 16) ::
    Nat.digitChar (n / 16 % 16) :: Nat.digitChar (n % 16) :: rest) = _
  rw [lexFrom_cons_silent hopen, lexFrom_cons_silent hunit,
    lexFrom_cons_silent (step_unit_more us 2 0 (hlt _)),
    lexFrom_cons_silent (step_unit_more us 1 _ (hlt _)),
    lexFrom_cons_silent (step_unit_more us 0 _ (hlt _)),
    lexFrom_cons_silent (step_unit_last us _ (hlt _)), hvalue]

/-- A letter after a backslash. -/
theorem lexFrom_letter (us : List Nat) {c : Char} {u : Nat} (hc : c ≠ 'u')
    (h : escape? c = some u) (rest : Text) :
    lexFrom (.text us) ('\\' :: c :: rest) =
      lexFrom (.text (us ++ [u])) rest := by
  have hopen : (Mode.text us).step '\\' = some (.escaped us, []) := rfl
  have hletter : (Mode.escaped us).step c = some (.text (us ++ [u]), []) := by
    rw [Mode.step, if_neg hc, h]
    rfl
  rw [lexFrom_cons_silent hopen, lexFrom_cons_silent hletter]

/-- How a character is written. -/
inductive Written (c : Char) : Text → Prop where
  | letter {d : Char} {u : Nat} (hunits : units c = [u]) (hd : d.toNat < 0x80)
    (hne : d ≠ 'u') (h : escape? d = some u) :
      Written c ['\\', d]
  | plain (hquote : c ≠ '"') (hslash : c ≠ '\\') (hlow : 0x20 ≤ c.toNat)
    (hhigh : c.toNat < 0x7f) : Written c [c]
  | unit (h : c.toNat < 0x10000) : Written c (escapeUnit c.toNat)
  | pair (h : ¬c.toNat < 0x10000) :
      Written c (escapeUnit (0xd800 + (c.toNat - 0x10000) / 0x400) ++
        escapeUnit (0xdc00 + (c.toNat - 0x10000) % 0x400))

theorem written_escape (c : Char) : Written c (escape c) := by
  by_cases hletter : c ∈ ['"', '\\', '\n', '\r', '\t', '\x08', '\x0c']
  · simp only [List.mem_cons, List.not_mem_nil, or_false] at hletter
    rcases hletter with rfl | rfl | rfl | rfl | rfl | rfl | rfl
    all_goals exact .letter rfl (by decide) (by decide) rfl
  · simp only [List.mem_cons, List.not_mem_nil, or_false, not_or] at hletter
    obtain ⟨hquote, hslash, hfeed, hreturn, htab, hback, hform⟩ := hletter
    rw [escape, if_neg hquote, if_neg hslash, if_neg hfeed, if_neg hreturn,
      if_neg htab, if_neg hback, if_neg hform]
    by_cases hshown : 0x20 ≤ c.toNat ∧ c.toNat < 0x7f
    · rw [if_pos hshown]
      exact .plain hquote hslash hshown.1 hshown.2
    · rw [if_neg hshown]
      by_cases hsmall : c.toNat < 0x10000
      · rw [if_pos hsmall]
        exact .unit hsmall
      · rw [if_neg hsmall]
        exact .pair hsmall

/-- A written character is read as its code units. -/
theorem lexFrom_escape (us : List Nat) (c : Char) (rest : Text) :
    lexFrom (.text us) (escape c ++ rest) =
      lexFrom (.text (us ++ units c)) rest := by
  have hbounds := toNat_bounds c
  have hwritten := written_escape c
  generalize escape c = w at hwritten
  cases hwritten with
  | letter hunits _ hne h =>
      rw [hunits]
      exact lexFrom_letter us hne h rest
  | plain hquote hslash hlow _ =>
      have hplain : (Mode.text us).step c =
          some (.text (us ++ units c), []) := by
        rw [Mode.step, if_neg hquote, if_neg hslash,
          if_neg (Nat.not_lt.mpr hlow)]
      exact lexFrom_cons_silent hplain rest
  | unit hsmall => rw [lexFrom_escapeUnit us hsmall, units, if_pos hsmall]
  | pair hlarge =>
      rw [List.append_assoc, lexFrom_escapeUnit us (by omega),
        lexFrom_escapeUnit _ (by omega), units, if_neg hlarge,
        List.append_assoc]
      rfl

theorem lexFrom_flatMap_escape (us : List Nat) (t rest : Text) :
    lexFrom (.text us) (t.flatMap escape ++ rest) =
      lexFrom (.text (us ++ t.flatMap units)) rest := by
  induction t generalizing us with
  | nil => simp
  | cons c t ih =>
      rw [List.flatMap_cons, List.append_assoc, lexFrom_escape, ih,
        List.flatMap_cons, List.append_assoc]

/-! ## Pieces of a document -/

/-- The text is cut into the tokens, whatever follows it. -/
def Cuts (u : Text) (ts : List Token) : Prop :=
  ∀ rest, lexFrom .between (u ++ rest) = (lexFrom .between rest).map (ts ++ ·)

/-- The text is cut into the tokens, unless a word goes on after it. -/
def CutsApart (u : Text) (ts : List Token) : Prop :=
  ∀ rest : Text, rest.head?.any isBare = false →
    lexFrom .between (u ++ rest) = (lexFrom .between rest).map (ts ++ ·)

section Pieces

variable {u v : Text} {ts us : List Token}

theorem Cuts.apart (h : Cuts u ts) : CutsApart u ts := fun rest _ => h rest

theorem head?_append_not_bare (hu : u.head?.any isBare = false)
    (hv : v.head?.any isBare = false) :
    (u ++ v).head?.any isBare = false := by
  cases u with
  | nil => exact hv
  | cons c u => exact hu

theorem Cuts.append_apart (hu : Cuts u ts) (hv : CutsApart v us) :
    CutsApart (u ++ v) (ts ++ us) := by
  intro rest hrest
  rw [List.append_assoc, hu, hv rest hrest, Option.map_map]
  simp [Function.comp_def]

theorem CutsApart.append (hu : CutsApart u ts) (hv : CutsApart v us)
    (hhead : v.head?.any isBare = false) :
    CutsApart (u ++ v) (ts ++ us) := by
  intro rest hrest
  rw [List.append_assoc, hu _ (head?_append_not_bare hhead hrest),
    hv rest hrest, Option.map_map]
  simp [Function.comp_def]

theorem cuts_sign {c : Char} {s : Token}
    (h : Mode.between.step c = some (.between, [s])) : Cuts [c] [s] :=
  fun rest => lexFrom_cons h rest

theorem cuts_layout (hu : ∀ c ∈ u, isLayout c = true) : Cuts u [] := by
  intro rest
  induction u with
  | nil => simp
  | cons c u ih =>
      obtain ⟨hc, hu⟩ := List.forall_mem_cons.mp hu
      have hstep : Mode.between.step c = some (.between, []) := by
        rw [Mode.step, begin?, if_pos hc]
      rw [List.cons_append, lexFrom_cons_silent hstep, ih hu]

/-- A text between quotes is one token. -/
theorem cuts_quote (t : Text) : Cuts (quote t) [.text t] := by
  intro rest
  have hopen : Mode.between.step '"' = some (.text [], []) := rfl
  have hclose : (Mode.text (t.flatMap units)).step '"' =
      some (.between, [.text t]) := by
    rw [Mode.step, if_pos rfl, ofUnits_flatMap_units]
    rfl
  have htext : quote t ++ rest = '"' :: (t.flatMap escape ++ '"' :: rest) := by
    simp [quote]
  rw [htext, lexFrom_cons_silent hopen, lexFrom_flatMap_escape, List.nil_append,
    lexFrom_cons hclose]

theorem step_of_isBare {c : Char} (h : isBare c = true) :
    Mode.between.step c = some (.word [c], []) := by
  have hlayout : isLayout c = false := by
    by_contra hc
    simp only [isLayout, Bool.not_eq_false, Bool.or_eq_true, beq_iff_eq] at hc
    rcases hc with ((rfl | rfl) | rfl) | rfl <;> exact absurd h (by decide)
  have hquote : c ≠ '"' := by
    rintro rfl
    exact absurd h (by decide)
  rw [Mode.step, begin?, hlayout, if_neg (by decide), if_neg hquote, if_pos h]

theorem lexFrom_word_append (w : Text) (hu : ∀ c ∈ u, isBare c = true)
    (rest : Text) :
    lexFrom (.word w) (u ++ rest) = lexFrom (.word (w ++ u)) rest := by
  induction u generalizing w with
  | nil => simp
  | cons c u ih =>
      obtain ⟨hc, hu⟩ := List.forall_mem_cons.mp hu
      have hstep : (Mode.word w).step c = some (.word (w ++ [c]), []) := by
        rw [Mode.step, if_pos hc]
      rw [List.cons_append, lexFrom_cons_silent hstep, ih _ hu,
        List.append_assoc]
      rfl

/-- A word ends where no word goes on. -/
theorem cutsApart_word {s : Token} (hne : u ≠ [])
    (hu : ∀ c ∈ u, isBare c = true) (h : ofWord? u = some s) :
    CutsApart u [s] := by
  intro rest hrest
  obtain ⟨c, w, rfl⟩ := List.exists_cons_of_ne_nil hne
  obtain ⟨hc, hw⟩ := List.forall_mem_cons.mp hu
  rw [List.cons_append, lexFrom_cons_silent (step_of_isBare hc),
    lexFrom_word_append _ hw]
  show lexFrom (.word (c :: w)) rest = _
  cases rest with
  | nil =>
      rw [lexFrom, Mode.finish, h]
      rfl
  | cons d rest =>
      have hd : ¬ isBare d = true := by simpa using hrest
      have hstep : (Mode.word (c :: w)).step d = (begin? d).map fun r =>
          (r.1, s :: r.2) := by
        rw [Mode.step, if_neg hd, h, Option.bind_some]
      rw [lexFrom, lexFrom, hstep, Mode.step]
      cases begin? d with
      | none => rfl
      | some r => simp [Option.map_map, Function.comp_def]

end Pieces

/-! ## Numbers -/

theorem head?_toDigits {n : Nat} (hn : n ≠ 0) :
    (Nat.toDigits 10 n).head? ≠ some '0' := by
  induction n using Nat.strongRecOn with
  | ind n ih =>
      by_cases hsmall : n < 10
      · have hdigit : ∀ k < 10, k ≠ 0 → [Nat.digitChar k].head? ≠ some '0' := by
          decide
        rw [Nat.toDigits_of_lt_base hsmall]
        exact hdigit n hsmall hn
      · have hfront := ih (n / 10) (by omega) (by omega)
        obtain ⟨d, ds, hdigits⟩ := List.exists_cons_of_ne_nil
          (Nat.toDigits_ne_nil (n := n / 10) (b := 10))
        rw [hdigits] at hfront
        rw [Nat.toDigits_of_base_le (by decide) (by omega), hdigits]
        exact hfront

theorem ofWord?_ofNat (n : Nat) :
    ofWord? (Text.ofNat n) = some (.number n) := by
  have hdigit : ∀ c ∈ Text.ofNat n, c.isDigit = true := fun c hc =>
    Nat.isDigit_of_mem_toDigits (by decide) (by decide) hc
  have hword : ∀ (c : Char) (w : Text), c.isDigit = false →
      Text.ofNat n ≠ c :: w := by
    intro c w hc heq
    rw [hdigit c (heq ▸ List.mem_cons_self)] at hc
    exact Bool.noConfusion hc
  have hzero :
      ((Text.ofNat n).head? != some '0' || Text.ofNat n == ['0']) = true := by
    by_cases hn : n = 0
    · rw [hn]
      decide
    · rw [Bool.or_eq_true]
      exact Or.inl (bne_iff_ne.mpr (head?_toDigits hn))
  have hempty : (Text.ofNat n).isEmpty = false :=
    List.isEmpty_eq_false_iff.mpr Nat.toDigits_ne_nil
  have hnumber : ((Text.ofNat n).all Char.isDigit &&
      ((Text.ofNat n).head? != some '0' || Text.ofNat n == ['0']) &&
      !(Text.ofNat n).isEmpty) = true := by
    rw [hzero, hempty, List.all_eq_true.mpr hdigit]
    rfl
  have hvalue : Nat.ofDigitChars 10 (Text.ofNat n) 0 = n :=
    Nat.ofDigitChars_ten_toDigits
  have htrue : Text.ofNat n ≠ "true" := hword 't' "rue" (by decide)
  have hfalse : Text.ofNat n ≠ "false" := hword 'f' "alse" (by decide)
  rw [ofWord?, if_neg htrue, if_neg hfalse, if_pos hnumber, hvalue]

theorem isBare_of_isDigit {c : Char} (h : c.isDigit = true) :
    isBare c = true := by
  simp [isBare, Char.isAlphanum, h]

theorem cutsApart_number (n : Nat) : CutsApart (Text.ofNat n) [.number n] := by
  refine cutsApart_word Nat.toDigits_ne_nil ?_ (ofWord?_ofNat n)
  intro c hc
  exact isBare_of_isDigit
    (Nat.isDigit_of_mem_toDigits (by decide) (by decide) hc)

theorem cutsApart_bool (b : Bool) :
    CutsApart (if b then "true" else "false") [.bool b] := by
  cases b with
  | true =>
      exact cutsApart_word (by decide)
        (List.all_eq_true.mp (by decide)) (by decide)
  | false =>
      exact cutsApart_word (by decide)
        (List.all_eq_true.mp (by decide)) (by decide)

/-! ## Documents -/

mutual

/-- The tokens of a document. -/
def tokens : Json → List Token
  | text t => [.text t]
  | number n => [.number n]
  | bool b => [.bool b]
  | list [] => [.openList, .closeList]
  | list (j :: js) => .openList :: (tokens j ++ (itemTokens js ++ [.closeList]))
  | record [] => [.openRecord, .closeRecord]
  | record ((k, j) :: fs) => .openRecord :: .text k :: .colon ::
    (tokens j ++ (fieldTokens fs ++ [.closeRecord]))

/-- The tokens of the further elements of a list. -/
def itemTokens : List Json → List Token
  | [] => []
  | j :: js => .comma :: (tokens j ++ itemTokens js)

/-- The tokens of the further fields of a record. -/
def fieldTokens : List (Text × Json) → List Token
  | [] => []
  | (k, j) :: fs => .comma :: .text k :: .colon :: (tokens j ++ fieldTokens fs)

end

/-- What holds of single values, and of lists and records whose members it holds
of, holds of every document. -/
@[elab_as_elim]
theorem induct {P : Json → Prop} (text : ∀ t, P (text t))
    (number : ∀ n, P (number n)) (bool : ∀ b, P (bool b))
    (list : ∀ js, (∀ j ∈ js, P j) → P (list js))
    (record : ∀ fs, (∀ f ∈ fs, P f.2) → P (record fs)) (j : Json) :
    P j := by
  refine @Json.rec P (fun js => ∀ j ∈ js, P j) (fun fs => ∀ f ∈ fs, P f.2)
    (fun f => P f.2) text number bool list
    record ?_ ?_ ?_ ?_ ?_ j
  · exact List.forall_mem_nil P
  · exact fun j js hj hjs => List.forall_mem_cons.mpr ⟨hj, hjs⟩
  · exact List.forall_mem_nil fun f : Text × Json => P f.2
  · exact fun f fs hf hfs => List.forall_mem_cons.mpr ⟨hf, hfs⟩
  · exact fun _ _ hj => hj

theorem cuts_newline (level : Nat) : Cuts (newline level) [] := by
  apply cuts_layout
  intro c hc
  rcases List.mem_cons.mp hc with rfl | hc
  · decide
  · rw [List.eq_of_mem_replicate hc]
    decide

/-- A key with its colon. -/
theorem cutsApart_field {u : Text} {ts : List Token} (k : Text)
    (h : CutsApart u ts) :
    CutsApart (quote k ++ (": " ++ u)) (.text k :: .colon :: ts) :=
  (cuts_quote k).append_apart ((cuts_sign (c := ':') rfl).append_apart
    ((cuts_layout (List.all_eq_true.mp
      (by decide : ([' '] : Text).all isLayout = true))).append_apart h))

/-- The end of a list or record stands on a line of its own. -/
theorem cutsApart_close (level : Nat) {c : Char} {s : Token}
    (h : Mode.between.step c = some (.between, [s])) :
    CutsApart (newline level ++ [c]) [s] :=
  (cuts_newline level).append_apart (cuts_sign h).apart

theorem cutsApart_writeItems (level : Nat) {js : List Json}
    (h : ∀ j ∈ js, CutsApart (write level j) (tokens j)) :
    CutsApart (writeItems level js) (itemTokens js) ∧
    (writeItems level js).head?.any isBare = false := by
  induction js with
  | nil => exact ⟨fun rest _ => by simp [writeItems, itemTokens], rfl⟩
  | cons j js ih =>
      obtain ⟨hj, hjs⟩ := List.forall_mem_cons.mp h
      refine ⟨?_, rfl⟩
      have hitem := (cuts_sign (c := ',') rfl).append_apart
        ((cuts_newline level).append_apart (hj.append (ih hjs).1 (ih hjs).2))
      have htext : writeItems level (j :: js) = [','] ++ (newline level ++
          (write level j ++ writeItems level js)) := by
        show "," ++ newline level ++ write level j ++ writeItems level js = _
        simp only [List.append_assoc]
        rfl
      rw [htext]
      exact hitem

theorem cutsApart_writeFields (level : Nat) {fs : List (Text × Json)}
    (h : ∀ f ∈ fs, CutsApart (write level f.2) (tokens f.2)) :
    CutsApart (writeFields level fs) (fieldTokens fs) ∧
    (writeFields level fs).head?.any isBare = false := by
  induction fs with
  | nil => exact ⟨fun rest _ => by simp [writeFields, fieldTokens], rfl⟩
  | cons f fs ih =>
      obtain ⟨hf, hfs⟩ := List.forall_mem_cons.mp h
      refine ⟨?_, rfl⟩
      have hfield := (cuts_sign (c := ',') rfl).append_apart
        ((cuts_newline level).append_apart
          (cutsApart_field f.1 (hf.append (ih hfs).1 (ih hfs).2)))
      have htext : writeFields level (f :: fs) =
          [','] ++ (newline level ++ (quote f.1 ++ (": " ++
          (write level f.2 ++ writeFields level fs)))) := by
        show "," ++ newline level ++ quote f.1 ++ ": " ++ write level f.2 ++
          writeFields level fs = _
        simp only [List.append_assoc]
        rfl
      rw [htext]
      exact hfield

/-- The text of a document is cut into the tokens of the document. -/
theorem cutsApart_write (level : Nat) (j : Json) :
    CutsApart (write level j) (tokens j) := by
  induction j using induct generalizing level with
  | text t => exact (cuts_quote t).apart
  | number n => exact cutsApart_number n
  | bool b => exact cutsApart_bool b
  | list js ih =>
      cases js with
      | nil =>
          exact (cuts_sign (c := '[') rfl).append_apart
            (cuts_sign (c := ']') rfl).apart
      | cons j js =>
          obtain ⟨hj, hjs⟩ := List.forall_mem_cons.mp ih
          obtain ⟨hitems, hhead⟩ := cutsApart_writeItems (level + 1) fun i hi =>
            hjs i hi (level + 1)
          have hend := hitems.append (cutsApart_close level (c := ']') rfl) rfl
          have hlist := (cuts_sign (c := '[') rfl).append_apart
            ((cuts_newline (level + 1)).append_apart
            ((hj (level + 1)).append hend (head?_append_not_bare hhead rfl)))
          have htext : write level (.list (j :: js)) =
              ['['] ++ (newline (level + 1) ++ (write (level + 1) j ++
              (writeItems (level + 1) js ++ (newline level ++ [']'])))) := by
            show "[" ++ newline (level + 1) ++ write (level + 1) j ++
              writeItems (level + 1) js ++ newline level ++ "]" = _
            simp only [List.append_assoc]
            rfl
          rw [htext]
          exact hlist
  | record fs ih =>
      cases fs with
      | nil =>
          exact (cuts_sign (c := '\x7b') rfl).append_apart
            (cuts_sign (c := '\x7d') rfl).apart
      | cons f fs =>
          obtain ⟨hf, hfs⟩ := List.forall_mem_cons.mp ih
          obtain ⟨hfields, hhead⟩ :=
            cutsApart_writeFields (level + 1) fun g hg => hfs g hg (level + 1)
          have hend :=
            hfields.append (cutsApart_close level (c := '\x7d') rfl) rfl
          have hrecord := (cuts_sign (c := '\x7b') rfl).append_apart
            ((cuts_newline (level + 1)).append_apart
            (cutsApart_field f.1
              ((hf (level + 1)).append hend (head?_append_not_bare hhead rfl))))
          have htext : write level (.record (f :: fs)) =
              ['\x7b'] ++ (newline (level + 1) ++ (quote f.1 ++ (": " ++
              (write (level + 1) f.2 ++ (writeFields (level + 1) fs ++
                (newline level ++ ['\x7d'])))))) := by
            show "\x7b" ++ newline (level + 1) ++ quote f.1 ++ ": " ++
              write (level + 1) f.2 ++ writeFields (level + 1) fs ++
              newline level ++ "\x7d" = _
            simp only [List.append_assoc]
            rfl
          rw [htext]
          exact hrecord

/-- A line break after the document makes no token. -/
theorem lex_render_break (j : Json) :
    lex (j.render ++ "\n") = some (tokens j) := by
  have hbreak : lexFrom .between ("\n" : Text) = some [] := rfl
  rw [lex, render, cutsApart_write 0 j "\n" rfl, hbreak, Option.map_some,
    List.append_nil]

end Json

end Recast
