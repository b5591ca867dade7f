import Transcode.Regex.Escape

/-!
# Bracketed sets

The notation of sets of characters in brackets: single characters, ranges, escapes, named ASCII
sets, sets in brackets of their own, and the operators `&&`, `--` and `~~`, which apply from left to
right to everything before and after them.
-/

namespace Transcode.Regex

open Text

/-- What an operator makes of the sets at its sides. -/
inductive SetOperator where
  | both
  | without
  | oneOf
  deriving DecidableEq, Repr

/-- The set that an operator gives. -/
def SetOperator.apply : SetOperator → CharSet → CharSet → CharSet
  | .both, left, right => .inter left right
  | .without, left, right => .diff left right
  | .oneOf, left, right => .union (.diff left right) (.diff right left)

/-- A set as it was read, with how deeply its notation nests. -/
structure ReadSet where
  chars : CharSet
  depth : Nat := 0

/-- A bracketed set that has been read in part: what stands before the last operator, and the items
after it, with how many they are and how deeply they nest. -/
structure Bracket where
  negated : Bool := false
  left : Option (ReadSet × SetOperator) := none
  items : CharSet := .none
  count : Nat := 0
  depth : Nat := 0

namespace Bracket

/-- The bracketed set with one more item. -/
def add (bracket : Bracket) (item : ReadSet) : Bracket :=
  { bracket with
    items := .union bracket.items item.chars
    count := bracket.count + 1
    depth := max bracket.depth item.depth }

/-- The set of the items after the last operator, without regard to case if so set. -/
def last (flags : Flags) (bracket : Bracket) : ReadSet :=
  ⟨flags.fold bracket.items, if 2 ≤ bracket.count then bracket.depth + 1 else bracket.depth⟩

/-- The set of what has been read, apart from negation. -/
def value (flags : Flags) (bracket : Bracket) : ReadSet :=
  let right := bracket.last flags
  match bracket.left with
  | none => right
  | some (left, operator) =>
    ⟨operator.apply left.chars right.chars, max left.depth right.depth + 1⟩

/-- The bracketed set after an operator. -/
def operate (flags : Flags) (bracket : Bracket) (operator : SetOperator) : Bracket :=
  { negated := bracket.negated, left := some (bracket.value flags, operator) }

/-- The set once all is read. -/
def finish? (flags : Flags) (bracket : Bracket) : Option ReadSet :=
  let value := bracket.value flags
  (complIf flags bracket.negated value.chars).map fun chars => ⟨chars, value.depth + 1⟩

/-- The bracketed set with the hyphens that the text starts with, and what follows them; inside a
comment if so given. -/
def addHyphens (flags : Flags) (bracket : Bracket) : Bool → List Char → Bracket × List Char
  | _, [] => (bracket, [])
  | true, c :: rest => addHyphens flags bracket (c != '\n') rest
  | false, c :: rest =>
    if flags.verbose && isBlank c then addHyphens flags bracket false rest
    else if flags.verbose && c = '#' then addHyphens flags bracket true rest
    else if c = '-' then addHyphens flags (bracket.add ⟨.single '-', 0⟩) false rest
    else (bracket, c :: rest)

/-- Reads what can only stand at the start: a caret for the complement, then hyphens or a closing
bracket as characters. -/
def begin (flags : Flags) (cs : List Char) : Bracket × List Char :=
  let start := skipIgnored flags cs
  let (negated, start) := match start with
    | '^' :: rest => (true, rest)
    | start => (false, start)
  match addHyphens flags { negated } false start with
  | (bracket, ']' :: rest) =>
    if bracket.count = 0 then (bracket.add ⟨.single ']', 0⟩, rest) else (bracket, ']' :: rest)
  | begun => begun

end Bracket

/-- The ASCII sets that have a name. -/
def asciiSets : List (String × CharSet) :=
  let upper := CharSet.range 'A' 'Z'
  let lower := CharSet.range 'a' 'z'
  let digit := CharSet.range '0' '9'
  [("alnum", .union digit (.union upper lower)), ("alpha", .union upper lower),
   ("ascii", .range '\x00' '\x7f'), ("blank", .ofText "\t "),
   ("cntrl", .union (.range '\x00' '\x1f') (.single '\x7f')), ("digit", digit),
   ("graph", .range '!' '~'), ("lower", lower), ("print", .range ' ' '~'),
   ("punct", .union (.union (.range '!' '/') (.range ':' '@'))
      (.union (.range '[' '\x60') (.range '\x7b' '~'))),
   ("space", .ofText "\t\n\x0b\x0c\r "), ("upper", upper),
   ("word", .union digit (.union upper (.union lower (.single '_')))),
   ("xdigit", .union digit (.union (.range 'A' 'F') (.range 'a' 'f')))]

/-- A named ASCII set after its opening bracket: a name between colons, with a caret for the
complement. What is none of these is a set like others; the complement can be refused. -/
def readAsciiSet (flags : Flags) : List Char → Option (Option CharSet × List Char)
  | ':' :: rest =>
    let (negated, start) := match rest with
      | '^' :: rest => (true, rest)
      | rest => (false, rest)
    match cutAt (· = ':') start with
    | (name, some (']' :: rest)) =>
      (asciiSets.lookup (String.ofList name)).map fun chars =>
        (complIf flags negated (flags.fold chars), rest)
    | _ => none
  | _ => none

/-- What a bracketed set can list: a character or a set. -/
inductive BracketItem where
  | char (c : Char)
  | set (chars : CharSet)

/-- The characters of an item. -/
def BracketItem.chars : BracketItem → CharSet
  | .char c => .single c
  | .set chars => chars

/-- Reads one character or escape. In an expression over bytes only ASCII can stand in brackets. -/
def readBracketItem (flags : Flags) : List Char → Option (BracketItem × List Char)
  | [] => none
  | '\\' :: rest =>
    match readEscape flags rest with
    | some (.char c, rest) => if flags.asciiOnly && !isAscii c then none else some (.char c, rest)
    | some (.set chars, rest) => some (.set chars, rest)
    | _ => none
  | c :: rest => if flags.asciiOnly && !isAscii c then none else some (.char c, rest)

/-- The first character after blanks and one number sign among them. -/
def peekIgnoring (signSeen : Bool) : List Char → Option Char
  | [] => none
  | c :: rest =>
    if isBlank c then peekIgnoring signSeen rest
    else if !signSeen && c = '#' then peekIgnoring true rest
    else some c

/-- Whether what follows an item makes it the start of a range: a hyphen that neither closes the set
nor is part of an operator. -/
def isRangeNext (flags : Flags) : List Char → Bool
  | '-' :: rest =>
    let next := if flags.verbose then peekIgnoring false rest else rest.head?
    next != some ']' && next != some '-'
  | _ => false

/-- Reads an item or a range. -/
def readBracketRange (flags : Flags) (cs : List Char) : Option (CharSet × List Char) := do
  let (first, rest) ← readBracketItem flags cs
  let rest := skipIgnored flags rest
  if !isRangeNext flags rest then return (first.chars, rest)
  let (last, rest) ← readBracketItem flags (skipIgnored flags (rest.drop 1))
  match first, last with
  | .char first, .char last => if first ≤ last then some (.range first last, rest) else none
  | _, _ => none

/-- Reads a bracketed set up to its closing bracket. `fuel` bounds the number of items in it. -/
def readBracket (flags : Flags) : Nat → Bracket → List Char → Option (ReadSet × List Char)
  | 0, _, _ => none
  | fuel + 1, bracket, cs =>
    match skipIgnored flags cs with
    | [] => none
    | ']' :: rest => (bracket.finish? flags).map (·, rest)
    | '[' :: rest =>
      match readAsciiSet flags rest with
      | some (some chars, rest) => readBracket flags fuel (bracket.add ⟨chars, 0⟩) rest
      | some (none, _) => none
      | none =>
        let (inner, rest) := Bracket.begin flags rest
        match readBracket flags fuel inner rest with
        | some (item, rest) => readBracket flags fuel (bracket.add item) rest
        | none => none
    | '&' :: '&' :: rest => readBracket flags fuel (bracket.operate flags .both) rest
    | '-' :: '-' :: rest => readBracket flags fuel (bracket.operate flags .without) rest
    | '~' :: '~' :: rest => readBracket flags fuel (bracket.operate flags .oneOf) rest
    | cs =>
      match readBracketRange flags cs with
      | some (chars, rest) => readBracket flags fuel (bracket.add ⟨chars, 0⟩) rest
      | none => none

end Transcode.Regex
