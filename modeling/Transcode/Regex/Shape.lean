import Transcode.Regex.Basic

/-!
# Normal forms of expressions

An expression as a sequence or a choice of as many parts as there are, with neighbouring characters
joined, sets united and common beginnings taken out. An expression and its normal form match the
same texts; the size of an expression is that of its normal form.
-/

namespace Transcode

open Text

/-- An expression in normal form. A set has no or several members; a sequence and a choice have
several parts, and none of them is of the same kind. -/
inductive Shape where
  | empty
  | literal (text : List Char)
  | set (chars : CodePoints)
  | anchor (anchor : Anchor)
  | many (body : Shape) (least : Nat) (most : Option Nat) (greedy : Bool)
  | group (index : Nat) (body : Shape)
  | sequence (parts : List Shape)
  | choice (parts : List Shape)
  deriving BEq

namespace Shape

/-! ### How long matches are -/

/-- How many bytes a character with a code takes. -/
def byteCount (code : Nat) : Nat :=
  if code < 0x80 then 1 else if code < 0x800 then 2 else if code < 0x10000 then 3 else 4

/-- How many bytes a text takes. -/
def textBytes (text : List Char) : Nat := (text.map fun c => byteCount c.toNat).foldr (· + ·) 0

/-- All numbers combined, if all are known. -/
def combineKnown (combine : Nat → Nat → Nat) : List (Option Nat) → Option Nat
  | [] => none
  | [value] => value
  | value :: rest =>
    match value, combineKnown combine rest with
    | some first, some others => some (combine first others)
    | _, _ => none

mutual

/-- The bytes of a shortest match; none if a part cannot match. -/
def shortest : Shape → Option Nat
  | .empty => some 0
  | .literal text => some (textBytes text)
  | .set chars => chars.ranges.head?.map (byteCount ·.1)
  | .anchor _ => some 0
  | .many body least _ _ => (shortest body).map (· * least)
  | .group _ body => shortest body
  | .sequence parts => combineKnown (· + ·) (shortestOfEach parts)
  | .choice parts => combineKnown min (shortestOfEach parts)

/-- The bytes of a shortest match of each part. -/
def shortestOfEach : List Shape → List (Option Nat)
  | [] => []
  | part :: rest => shortest part :: shortestOfEach rest

end

mutual

/-- The bytes of a longest match; none if there is no bound or a part cannot match. -/
def longest : Shape → Option Nat
  | .empty => some 0
  | .literal text => some (textBytes text)
  | .set chars => chars.ranges.getLast?.map (byteCount ·.2)
  | .anchor _ => some 0
  | .many body _ most _ => most.bind fun most => (longest body).map (· * most)
  | .group _ body => longest body
  | .sequence parts => combineKnown (· + ·) (longestOfEach parts)
  | .choice parts => combineKnown max (longestOfEach parts)

/-- The bytes of a longest match of each part. -/
def longestOfEach : List Shape → List (Option Nat)
  | [] => []
  | part :: rest => longest part :: longestOfEach rest

end

/-! ### Building -/

/-- The characters of a set. -/
def ofSet (chars : CodePoints) : Shape :=
  match chars.single? with
  | some c => .literal [c]
  | none => .set chars

/-- A repetition. What matches nothing but the empty text need not be repeated. -/
def repetition (body : Shape) (least : Nat) (most : Option Nat) (greedy : Bool) : Shape :=
  let (least, most) :=
    if body.longest = some 0 then (min least 1, some (min (most.getD 1) 1)) else (least, most)
  if most = some 0 then .empty
  else if least = 1 && most = some 1 then body
  else .many body least most greedy

/-- The parts of a sequence, or the whole as its only part. -/
def parts : Shape → List Shape
  | .sequence parts => parts
  | whole => [whole]

/-- A sequence with one more part in front. Empty parts are left out, and texts are joined. -/
def consPart : Shape → List Shape → List Shape
  | .empty, rest => rest
  | .literal first, .literal second :: rest => .literal (first ++ second) :: rest
  | part, rest => part :: rest

/-- The parts one after the other. -/
def inSequence (shapes : List Shape) : Shape :=
  match (shapes.flatMap parts).foldr consPart [] with
  | [] => .empty
  | [part] => part
  | parts => .sequence parts

/-- The alternatives of a choice, or the whole as its only alternative. -/
def alternatives : Shape → List Shape
  | .choice alternatives => alternatives
  | whole => [whole]

/-- The code of a text of one character. -/
def character? : Shape → Option Nat
  | .literal [c] => some c.toNat
  | _ => none

/-- The members of a set. -/
def members? : Shape → Option CodePoints
  | .set chars => some chars
  | _ => none

/-- Any of the alternatives. Single characters make a set, and so do sets. -/
def united (alternatives : List Shape) : Shape :=
  match alternatives with
  | [] => .set .empty
  | [only] => only
  | alternatives =>
    match alternatives.mapM character?, alternatives.mapM members? with
    | some codes, _ => ofSet (.ofCodes codes)
    | none, some sets => ofSet (.unions sets)
    | none, none => .choice alternatives

/-- The parts with which both of two sequences begin. -/
def commonStart : List Shape → List Shape → List Shape
  | first :: rest, other :: others =>
    if first == other then first :: commonStart rest others else []
  | _, _ => []

/-- The parts of a proper sequence. -/
def sequence? : Shape → Option (List Shape)
  | .sequence parts => some parts
  | _ => none

/-- Any of the alternatives, with the parts taken out with which all of them begin. What is left of
them has no beginning in common. -/
def anyOf (shapes : List Shape) : Shape :=
  let alternatives := shapes.flatMap alternatives
  match united alternatives, alternatives.mapM sequence? with
  | .choice _, some (first :: rest) =>
    let start := rest.foldl commonStart first
    if start.isEmpty then .choice alternatives
    else
      let ends := (first :: rest).map fun parts => inSequence (parts.drop start.length)
      inSequence (start ++ [united (ends.flatMap Shape.alternatives)])
  | shape, _ => shape

/-! ### What stands at the ends -/

/-- The ends of a text. -/
inductive Side where
  | front
  | back
  deriving DecidableEq

/-- Whether one of the parts up to the first that takes characters asks for a place; of each part
is given whether it does, and whether it takes none. -/
def asksBeforeTaking : List (Bool × Bool) → Bool
  | [] => false
  | (asks, takesNone) :: rest => asks || takesNone && asksBeforeTaking rest

mutual

/-- Whether every match begins or ends at a place of a kind. -/
def asksFor (side : Side) (place : Anchor) : Shape → Bool
  | .anchor found => found = place
  | .many body least _ _ => 0 < least && asksFor side place body
  | .group _ body => asksFor side place body
  | .sequence parts =>
    let asking := asksForInEach side place parts
    asksBeforeTaking (if side = .front then asking else asking.reverse)
  | .choice parts => (asksForInEach side place parts).all (·.1)
  | _ => false

/-- Whether each part asks for a place, and whether it takes no characters. -/
def asksForInEach (side : Side) (place : Anchor) : List Shape → List (Bool × Bool)
  | [] => []
  | part :: rest =>
    (asksFor side place part, part.longest = some 0) :: asksForInEach side place rest

end

end Shape

namespace Regex

/-- The normal forms of the alternatives of an expression. -/
def branches : Regex → List Shape
  | .empty => [.empty]
  | .set chars => [.ofSet chars.members]
  | .anchor place => [.anchor place]
  | .seq first second => [.inSequence [.anyOf first.branches, .anyOf second.branches]]
  | .alt first second => .anyOf first.branches :: second.branches
  | .many body least extra greedy =>
    [.repetition (.anyOf body.branches) least (extra.map (least + ·)) greedy]
  | .group (some index) body => [.group index (.anyOf body.branches)]
  | .group none body => [.anyOf body.branches]

/-- The normal form of an expression. -/
def shape (regex : Regex) : Shape := .anyOf regex.branches

end Regex

end Transcode
