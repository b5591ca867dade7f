import Transcode.Text.Split

/-!
# Sets of code points

A set is kept as its maximal runs in increasing order, so a set has one form and membership is
decided by one walk. The complement of the runs and the common part of two lists of runs give all
other operations. Tables of characters are written as text: runs in hexadecimal, or the places where
a label changes.
-/

namespace Transcode.Text

/-- A set of code points, as the inclusive runs that make it up, in increasing order. -/
structure CodePoints where
  ranges : List (Nat × Nat)
  deriving DecidableEq, Repr

namespace CodePoints

/-- The greatest code point. -/
def greatest : Nat := 0x10FFFF

/-- The runs of all code points from `next` on outside of the given runs. -/
def gapsFrom (next : Nat) : List (Nat × Nat) → List (Nat × Nat)
  | [] => if next ≤ greatest then [(next, greatest)] else []
  | (first, last) :: rest =>
    if next < first then (next, first - 1) :: gapsFrom (last + 1) rest
    else gapsFrom (max next (last + 1)) rest

/-- The runs in which two lists of runs agree. -/
def commonRuns : List (Nat × Nat) → List (Nat × Nat) → List (Nat × Nat)
  | [], _ => []
  | _, [] => []
  | (a, b) :: left, (c, d) :: right =>
    let others :=
      if b < d then commonRuns left ((c, d) :: right) else commonRuns ((a, b) :: left) right
    if max a c ≤ min b d then (max a c, min b d) :: others else others
  termination_by left right => left.length + right.length

/-- Whether a walk over runs meets a code point. -/
def meets (code : Nat) : List (Nat × Nat) → Bool
  | [] => false
  | (first, last) :: rest => if code < first then false else code ≤ last || meets code rest

/-- Whether a code point belongs to the set. -/
def has (set : CodePoints) (code : Nat) : Bool := meets code set.ranges

/-- Whether a character belongs to the set. -/
def contains (set : CodePoints) (c : Char) : Bool := set.has c.toNat

/-- The empty set. -/
def empty : CodePoints := ⟨[]⟩

/-- All code points that are characters; the surrogates are none. -/
def characters : CodePoints := ⟨[(0, 0xD7FF), (0xE000, greatest)]⟩

/-- The code points in two sets. -/
def inter (left right : CodePoints) : CodePoints := ⟨commonRuns left.ranges right.ranges⟩

/-- The code points in one of two sets: outside of both they are neither. -/
def union (left right : CodePoints) : CodePoints :=
  ⟨gapsFrom 0 (commonRuns (gapsFrom 0 left.ranges) (gapsFrom 0 right.ranges))⟩

/-- The code points of the first set that are not in the second. -/
def diff (left right : CodePoints) : CodePoints :=
  ⟨commonRuns left.ranges (gapsFrom 0 right.ranges)⟩

/-- The characters outside of a set. -/
def compl (set : CodePoints) : CodePoints := characters.diff set

/-- The characters between two. -/
def between (first last : Char) : CodePoints := characters.inter ⟨[(first.toNat, last.toNat)]⟩

/-- The union of several sets. -/
def unions (sets : List CodePoints) : CodePoints := sets.foldl union empty

/-- The set of the runs of a list in increasing order, which may touch. -/
def ofSorted (ranges : List (Nat × Nat)) : CodePoints := ⟨gapsFrom 0 (gapsFrom 0 ranges)⟩

/-- The set of the code points of a list. -/
def ofCodes (codes : List Nat) : CodePoints :=
  ofSorted ((codes.mergeSort (· ≤ ·)).map fun code => (code, code))

/-- The only character of a set, if it has one character. -/
def single? (set : CodePoints) : Option Char :=
  match set.ranges with
  | [(first, last)] => if first = last then some (Char.ofNat first) else none
  | _ => none

/-- Whether all code points of a set are ASCII. -/
def isAscii (set : CodePoints) : Bool := set.ranges.all (·.2 < 128)

/-! ### Tables -/

/-- Whether a character is a hexadecimal digit as tables write it. -/
def isTableDigit (c : Char) : Bool := c.isDigit || ('A' ≤ c && c ≤ 'F')

/-- The number written by hexadecimal digits, capital letters above nine. -/
def hexValue (digits : List Char) : Nat :=
  digits.foldl (fun value digit =>
    16 * value + (if digit.isDigit then digit.toNat - 48 else digit.toNat - 55)) 0

/-- One run: `first-last`, or a single code point. -/
def readRange (word : List Char) : Nat × Nat :=
  let first := word.takeWhile (· != '-')
  match word.drop first.length with
  | [] => (hexValue first, hexValue first)
  | _ :: last => (hexValue first, hexValue last)

/-- The set written by a text of runs. -/
def ofText (text : String) : CodePoints :=
  ofSorted ((splitWhere (· = ' ') text.toList).map readRange)

/-- A table of labels written as text: every word is the code point where a label begins, and the
label, which holds up to the next word. -/
def readLabels (text : String) : List (Nat × String) :=
  (splitWhere (· = ' ') text.toList).map fun word =>
    (hexValue (word.takeWhile isTableDigit), String.ofList (word.dropWhile isTableDigit))

/-- The runs of a table that have a label. -/
def labelledRuns (label : String) : List (Nat × String) → List (Nat × Nat)
  | [] => []
  | [(first, found)] => if found = label then [(first, greatest)] else []
  | (first, found) :: (next, other) :: rest =>
    if found = label then (first, next - 1) :: labelledRuns label ((next, other) :: rest)
    else labelledRuns label ((next, other) :: rest)

/-- The characters that have a label in a table. -/
def labelled (table : List (Nat × String)) (label : String) : CodePoints :=
  characters.inter (ofSorted (labelledRuns label table))

end CodePoints

end Transcode.Text
