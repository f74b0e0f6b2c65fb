import Recast.Text.Basic

/-!
# Patterns

A pattern is matched at one place of a text and tries its ways of matching in a
fixed order: a run of characters tries its longest extent first or its shortest,
an alternative its left side first. The first way that lets the rest of the
pattern match is taken. Repetition is over single characters only, so matching
recurses on the pattern and, inside a run, on the text.
-/

namespace Recast

/-- Which extent of a run is tried first. -/
inductive Preference where
  | longest
  | shortest
deriving DecidableEq, Repr

/-- A condition on a place in the text; it takes no characters. -/
inductive Anchor where
  /-- Nothing stands before. -/
  | textStart
  /-- Nothing follows, or one last line feed. -/
  | textEnd
  /-- Nothing stands before, or a line feed. -/
  | lineStart
  /-- Nothing follows, or a line feed. -/
  | lineEnd
  /-- A word character on exactly one side. -/
  | wordEdge
  /-- No character of the class follows. -/
  | notNext (ok : Char → Bool)

/-- What a stretch of text may look like. -/
inductive Pattern where
  | empty
  /-- One character of a class. -/
  | one (ok : Char → Bool)
  /-- Any number of characters of a class. -/
  | many (preference : Preference) (ok : Char → Bool)
  | anchor (a : Anchor)
  | seq (p q : Pattern)
  | either (p q : Pattern)
  /-- `p`, whose extent is remembered. -/
  | group (p : Pattern)

/-- A place in the text during one attempt: the number of characters taken so
far, the character before the place, and the text after it. -/
structure Cursor where
  passed : Nat
  before : Option Char
  rest : Text

/-- The extent of a group, counted from the start of its match. -/
structure Span where
  start : Nat
  stop : Nat
deriving DecidableEq, Repr

/-- A stretch of text that a pattern takes, with the extents of the groups in
the order in which they open; a group on a side that was not taken has none. -/
structure Match where
  text : Text
  spans : List (Option Span)
deriving DecidableEq, Repr

namespace Anchor

/-- Whether the condition holds between `before` and `rest`. -/
def holds : Anchor → Option Char → Text → Bool
  | textStart, before, _ => before.isNone
  | textEnd, _, rest => rest == [] || rest == ['\n']
  | lineStart, before, _ => before == none || before == some '\n'
  | lineEnd, _, rest => rest.head? == none || rest.head? == some '\n'
  | wordEdge, before, rest => before.any isWord != rest.head?.any isWord
  | notNext ok, _, rest => !rest.head?.any ok

end Anchor

namespace Span

/-- The part of `t` that the span covers. -/
def of (s : Span) (t : Text) : Text := (t.drop s.start).take (s.stop - s.start)

end Span

namespace Match

/-- The text of each group, in the order in which the groups open. -/
def groups (m : Match) : List (Option Text) := m.spans.map (·.map (·.of m.text))

/-- The text of the `i`th group, counted from zero; empty where the group took
no part. -/
def group (m : Match) (i : Nat) : Text := (m.groups[i]?.join).getD []

end Match

namespace Pattern

variable {β : Type}

/-! ## Matching at one place -/

/-- Hands the places where a run of `ok` may end to `k`, in the order of
preference, until `k` succeeds. -/
def runMany (preference : Preference) (ok : Char → Bool) (k : Cursor → Option β)
    (passed : Nat) (before : Option Char) : Text → Option β
  | [] => k ⟨passed, before, []⟩
  | c :: cs =>
    if ok c then
      match preference with
      | .longest =>
        runMany preference ok k (passed + 1) (some c) cs <|>
        k ⟨passed, before, c :: cs⟩
      | .shortest =>
        k ⟨passed, before, c :: cs⟩ <|>
        runMany preference ok k (passed + 1) (some c) cs
    else k ⟨passed, before, c :: cs⟩

/-- The number of groups in a pattern. -/
def groupCount : Pattern → Nat
  | empty | one _ | many _ _ | anchor _ => 0
  | seq p q | either p q => p.groupCount + q.groupCount
  | group p => p.groupCount + 1

/-- Hands the places where the pattern may end, with the extents of its groups,
to `k`, in the order in which they are tried, until `k` succeeds. -/
def run : Pattern → Cursor → (Cursor → List (Option Span) → Option β) → Option β
  | empty, here, k => k here []
  | one ok, here, k =>
    match here.rest with
    | [] => none
    | c :: cs => if ok c then k ⟨here.passed + 1, some c, cs⟩ [] else none
  | many preference ok, here, k =>
    runMany preference ok (k · []) here.passed here.before here.rest
  | anchor a, here, k =>
    if a.holds here.before here.rest then k here [] else none
  | seq p q, here, k => p.run here fun mid gs => q.run mid fun fin hs =>
    k fin (gs ++ hs)
  | either p q, here, k =>
    p.run here
      (fun fin gs => k fin (gs ++ List.replicate q.groupCount none)) <|>
      q.run here (fun fin gs => k fin (List.replicate p.groupCount none ++ gs))
  | group p, here, k => p.run here fun fin gs =>
    k fin (some ⟨here.passed, fin.passed⟩ :: gs)

/-- The match at the start of `rest`, where `before` is the character that
precedes it. A match takes at least one character. -/
def matchAt (p : Pattern) (before : Option Char) (rest : Text) : Option Match :=
  p.run ⟨0, before, rest⟩ fun fin spans =>
    if fin.passed = 0 then none else some ⟨rest.take fin.passed, spans⟩

/-- Whether the pattern matches at the start of `t`. -/
def opens (p : Pattern) (t : Text) : Bool := (p.matchAt none t).isSome

/-! ## Building patterns -/

/-- The characters of `t`, one after the other. -/
def literal (t : Text) : Pattern :=
  t.foldr (fun c p => seq (one (· == c)) p) empty

instance : Coe String Pattern := ⟨fun s => literal s.toList⟩

instance : Append Pattern := ⟨seq⟩

instance : OrElse Pattern := ⟨fun p q => either p (q ())⟩

/-- At least one character of the class, as many as possible. -/
def many1 (ok : Char → Bool) : Pattern := seq (one ok) (many .longest ok)

/-- `p`, or nothing where `p` does not lead to a match. -/
def optional (p : Pattern) : Pattern := either p empty

/-- A run of word characters. -/
def word : Pattern := many1 isWord

/-- Blanks, possibly none. -/
def blanks : Pattern := many .longest isBlank

/-- At least one blank. -/
def blanks1 : Pattern := many1 isBlank

/-- Spaces and tabulators, possibly none. -/
def indent : Pattern := many .longest isIndent

/-- A stretch of one line, possibly empty. -/
def stretch (preference : Preference) : Pattern := many preference isInline

end Pattern

end Recast
