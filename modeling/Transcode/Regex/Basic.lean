import Std.Data.HashSet
import Transcode.Text.BinaryProperty

/-!
# Regular expressions

`Regex.ways` lists the spots of a text where a match can end that starts at one of given spots, the
preferred one first: what starts at an earlier spot of the list before the others, an alternative
before those after it, and one more repetition before none if the repetition is greedy. What can
follow a match depends only on where it ends, so of the ways to one end only the preferred one is
listed. That keeps the lists short and still has the preferred match of every longer expression.
-/

namespace Transcode

open Text

/-- The properties of characters that have an escape of their own. -/
inductive CharProperty where
  | word
  | digit
  | blank
  deriving DecidableEq, Repr

/-- The letters, digits and the underscore of ASCII. -/
def isAsciiWordChar (c : Char) : Bool := isAsciiLetter c || isAsciiDigit c || c = '_'

/-- Whether a character can stand in a word. -/
def isWordChar (c : Char) : Bool :=
  if isAscii c then isAsciiWordChar c else BinaryProperty.word.contains c

/-- Whether a character has a property. -/
def CharProperty.holds : CharProperty → Char → Bool
  | .word, c => isWordChar c
  | .digit, c => if isAscii c then isAsciiDigit c else BinaryProperty.digit.contains c
  | .blank, c => isBlank c

/-- The characters with a property. -/
def CharProperty.points : CharProperty → CodePoints
  | .word => BinaryProperty.word
  | .digit => BinaryProperty.digit
  | .blank => BinaryProperty.whiteSpace

/-- A set of characters, as an expression describes it. -/
inductive CharSet where
  | none
  | any
  | range (first last : Char)
  | property (property : CharProperty)
  | ofPoints (points : CodePoints)
  | union (left right : CharSet)
  | inter (left right : CharSet)
  | compl (set : CharSet)
  /-- The set with all characters that differ from one of it in case only. -/
  | caseless (set : CharSet)
  /-- The set with both forms of the ASCII letters in it. -/
  | asciiCaseless (set : CharSet)
  deriving DecidableEq, Repr

namespace CharSet

/-- The set of one character. -/
def single (c : Char) : CharSet := .range c c

/-- The characters of the first set that are not of the second. -/
def diff (left right : CharSet) : CharSet := .inter left (.compl right)

/-- The characters that a set describes. -/
def members : CharSet → CodePoints
  | .none => .empty
  | .any => .characters
  | .range first last => .between first last
  | .property named => named.points
  | .ofPoints points => points
  | .union left right => left.members.union right.members
  | .inter left right => left.members.inter right.members
  | .compl set => set.members.compl
  | .caseless set => set.members.foldCase
  | .asciiCaseless set => set.members.foldAsciiCase

/-- Whether a character belongs to a set. -/
def mem : CharSet → Char → Bool
  | .none, _ => false
  | .any, _ => true
  | .range first last, c => first ≤ c && c ≤ last
  | .property named, c => named.holds c
  | .ofPoints points, c => points.contains c
  | .union left right, c => left.mem c || right.mem c
  | .inter left right, c => left.mem c && right.mem c
  | .compl set, c => !set.mem c
  | .caseless set, c => set.members.foldCase.contains c
  | .asciiCaseless set, c => set.members.foldAsciiCase.contains c

/-- The set of the characters of a text. -/
def ofText (text : String) : CharSet :=
  text.toList.foldr (fun c set => .union (.single c) set) .none

end CharSet

/-- What a place between two characters is to the words beside it. -/
inductive WordEdge where
  | either
  | neither
  | start
  | stop
  | startHalf
  | stopHalf
  deriving DecidableEq, Repr

/-- Whether a place is as asked, by whether the characters beside it belong to words. -/
def WordEdge.holds : WordEdge → Bool → Bool → Bool
  | .either, before, after => before != after
  | .neither, before, after => before == after
  | .start, before, after => !before && after
  | .stop, before, after => before && !after
  | .startHalf, before, _ => !before
  | .stopHalf, _, after => !after

/-- A place between two characters that an expression can ask for. A line can end with a line feed
only or, with `carriage`, also with a carriage return or with both; words can be those of ASCII. -/
inductive Anchor where
  | textStart
  | textEnd
  | lineStart (carriage : Bool)
  | lineEnd (carriage : Bool)
  | word (edge : WordEdge) (asciiOnly : Bool)
  deriving DecidableEq, Repr

namespace Anchor

/-- The edge of a word. -/
def wordEdge : Anchor := .word .either false

/-- Whether the place between two characters is as asked; at an end of the text one is missing. -/
def holds (anchor : Anchor) (before after : Option Char) : Bool :=
  match anchor with
  | .textStart => before.isNone
  | .textEnd => after.isNone
  | .lineStart carriage =>
    before.all (· = '\n') || carriage && before = some '\r' && after != some '\n'
  | .lineEnd false => after.all (· = '\n')
  | .lineEnd true => after.all (· = '\r') || after = some '\n' && before != some '\r'
  | .word edge false => edge.holds (before.any isWordChar) (after.any isWordChar)
  | .word edge true => edge.holds (before.any isAsciiWordChar) (after.any isAsciiWordChar)

end Anchor

/-- A regular expression. -/
inductive Regex where
  | empty
  | set (set : CharSet)
  | anchor (anchor : Anchor)
  | seq (first second : Regex)
  | alt (first second : Regex)
  /-- At least `least` times the body, and at most `extra` times more if that is given. -/
  | many (body : Regex) (least : Nat) (extra : Option Nat) (greedy : Bool)
  /-- The body alone; with a number, what it matches can be asked for. -/
  | group (index : Option Nat) (body : Regex)
  deriving DecidableEq, Repr

/-- The text that a group matched, as the first characters of those after its start. -/
structure Extent where
  rest : List Char
  length : Nat

/-- The characters of a text that a group matched. -/
def Extent.text (extent : Extent) : List Char := extent.rest.take extent.length

/-- A spot of a text: the character before it, the characters after it, how many characters precede
it, and what groups matched on the way to it, the latest first. -/
structure Spot where
  before : Option Char
  rest : List Char
  offset : Nat
  groups : List (Nat × Extent) := []

namespace Spot

/-- The start of a text. -/
def start (cs : List Char) : Spot := ⟨none, cs, 0, []⟩

/-- The spot after one more character. -/
def after (spot : Spot) (c : Char) (rest : List Char) : Spot :=
  { spot with before := some c, rest, offset := spot.offset + 1 }

/-- The spot after the next character, if that belongs to a set. -/
def take? (spot : Spot) (chars : CharSet) : Option Spot :=
  match spot.rest with
  | [] => none
  | c :: rest => if chars.mem c then some (spot.after c rest) else none

/-- The extent between a spot and a later one. -/
def extentTo (spot later : Spot) : Extent := ⟨spot.rest, later.offset - spot.offset⟩

/-- The characters between a spot and a later one. -/
def textTo (spot later : Spot) : List Char := (spot.extentTo later).text

/-- The text that a group matched last. -/
def group? (spot : Spot) (index : Nat) : Option (List Char) :=
  (spot.groups.lookup index).map (·.text)

/-- The spot with what one more group matched, if the group has a number. -/
def close (spot : Spot) (index : Option Nat) (start : Spot) : Spot :=
  match index with
  | some index => { spot with groups := (index, start.extentTo spot) :: spot.groups }
  | none => spot

end Spot

/-- Spots in the order in which they were found, the latest first, and their offsets. -/
structure Found where
  latest : List Spot := []
  offsets : Std.HashSet Nat := {}

namespace Found

/-- Whether there is a spot at an offset. -/
def has (found : Found) (offset : Nat) : Bool := found.offsets.contains offset

/-- The spots with one more, unless there is one at its offset. -/
def add (found : Found) (spot : Spot) : Found :=
  if found.has spot.offset then found
  else ⟨spot :: found.latest, found.offsets.insert spot.offset⟩

/-- The spots in the order in which they were found. -/
def spots (found : Found) : List Spot := found.latest.reverse

end Found

namespace Regex

/-- The spots without those at an offset that was listed before. -/
def keepFirst (spots : List Spot) : List Spot := (spots.foldl Found.add {}).spots

/-- The spots of one more step that are further on. -/
def advances (step : Spot → List Spot) (spot : Spot) : List Spot :=
  (step spot).filter (spot.offset < ·.offset)

/-- The spots that any number of steps lead to, added to those found already. `fuel` bounds the
number of steps in a row; the characters left suffice, as every step takes at least one. -/
def closure (step : Spot → List Spot) (greedy : Bool) : Nat → Found → Spot → Found
  | 0, found, spot => found.add spot
  | fuel + 1, found, spot =>
    if found.has spot.offset then found
    else if greedy then ((advances step spot).foldl (closure step greedy fuel) found).add spot
    else (advances step spot).foldl (closure step greedy fuel) (found.add spot)

/-- The spots that exactly a number of steps lead to. -/
def exactly (step : List Spot → List Spot) : Nat → List Spot → List Spot
  | 0, spots => spots
  | count + 1, spots => exactly step count (step spots)

/-- The spots that at most a number of steps lead to. -/
def atMost (step : Spot → List Spot) (greedy : Bool) : Nat → Spot → List Spot
  | 0, spot => [spot]
  | count + 1, spot =>
    let further := (advances step spot).flatMap (atMost step greedy count)
    keepFirst (if greedy then further ++ [spot] else spot :: further)

/-- The spots where a match can end that starts at one of given spots, the preferred one first. The
given spots differ in their offsets, and so do those found. -/
def ways : Regex → List Spot → List Spot
  | .empty, spots => spots
  | .set chars, spots => spots.filterMap (·.take? chars)
  | .anchor place, spots => spots.filter fun spot => place.holds spot.before spot.rest.head?
  | .seq first second, spots => ways second (ways first spots)
  | .alt first second, spots =>
    keepFirst (spots.flatMap fun spot => ways first [spot] ++ ways second [spot])
  | .many body least extra greedy, spots =>
    let step spot := ways body [spot]
    let needed := exactly (ways body) least spots
    match extra with
    | none =>
      (needed.foldl (fun found spot => closure step greedy (spot.rest.length + 1) found spot)
        {}).spots
    | some count => keepFirst (needed.flatMap (atMost step greedy count))
  | .group index body, spots =>
    keepFirst (spots.flatMap fun spot => (ways body [spot]).map (·.close index spot))

/-- The end of the preferred match that starts at a spot. -/
def matchAt (regex : Regex) (spot : Spot) : Option Spot := (regex.ways [spot]).head?

/-- The expressions one after the other. -/
def sequence : List Regex → Regex
  | [] => .empty
  | [regex] => regex
  | regex :: rest => .seq regex (sequence rest)

/-- Any of the expressions, earlier ones preferred. -/
def choice : List Regex → Regex
  | [] => .empty
  | [regex] => regex
  | regex :: rest => .alt regex (choice rest)

/-- What an expression matches, as a group with a number. -/
def capture (index : Nat) (body : Regex) : Regex := .group (some index) body

/-- A character. -/
def char (c : Char) : Regex := .set (.single c)

/-- The characters of a text. -/
def literal (text : String) : Regex := sequence (text.toList.map char)

/-- Any number of times. -/
def star (body : Regex) : Regex := .many body 0 none true

/-- At least once. -/
def plus (body : Regex) : Regex := .many body 1 none true

/-- Once or not at all. -/
def opt (body : Regex) : Regex := .many body 0 (some 1) true

end Regex

end Transcode
