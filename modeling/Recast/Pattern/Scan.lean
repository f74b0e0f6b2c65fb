import Recast.Pattern.Basic

/-!
# Scanning a text

A scan walks a text from left to right and divides it into matches of a pattern
and the single characters between them. Finding all matches and replacing all of
them are two views of the same division.
-/

namespace Recast

/-- A piece of a scanned text. -/
inductive Segment where
  /-- A character at which no match starts. -/
  | gap (c : Char)
  | hit (m : Match)
deriving DecidableEq, Repr

namespace Segment

/-- The characters that the piece covers. -/
def text : Segment → Text
  | gap c => [c]
  | hit m => m.text

/-- The piece with a match replaced. -/
def replaced (f : Match → Text) : Segment → Text
  | gap c => [c]
  | hit m => f m

end Segment

namespace Pattern

/-- The pieces of a text from a place on, after `skip` more characters of the
match that precedes it. -/
def segmentsFrom (p : Pattern) (before : Option Char) (skip : Nat) :
    Text → List Segment
  | [] => []
  | c :: cs =>
    match skip with
    | skip + 1 => p.segmentsFrom (some c) skip cs
    | 0 =>
      match p.matchAt before (c :: cs) with
      | none => .gap c :: p.segmentsFrom (some c) 0 cs
      | some m => .hit m :: p.segmentsFrom (some c) (m.text.length - 1) cs

/-- The pieces of a whole text. -/
def segments (p : Pattern) (t : Text) : List Segment := p.segmentsFrom none 0 t

/-- The matches among pieces, each with the place where it starts. -/
def located (start : Nat) : List Segment → List (Nat × Match)
  | [] => []
  | .gap _ :: ss => located (start + 1) ss
  | .hit m :: ss => (start, m) :: located (start + m.text.length) ss

/-- The matches of a text from left to right, none overlapping another, each
with the place where it starts. -/
def occurrences (p : Pattern) (t : Text) : List (Nat × Match) :=
  located 0 (p.segments t)

/-- The matches of a text from left to right. -/
def matchesIn (p : Pattern) (t : Text) : List Match :=
  (p.occurrences t).map Prod.snd

/-- The text with every match replaced. -/
def substitute (p : Pattern) (f : Match → Text) (t : Text) : Text :=
  (p.segments t).flatMap (·.replaced f)

/-- Whether a match starts at some place from here on. -/
def foundFrom (p : Pattern) (before : Option Char) : Text → Bool
  | [] => false
  | c :: cs => (p.matchAt before (c :: cs)).isSome || p.foundFrom (some c) cs

/-- Whether the pattern matches somewhere in `t`. -/
def foundIn (p : Pattern) (t : Text) : Bool := p.foundFrom none t

end Pattern

end Recast
