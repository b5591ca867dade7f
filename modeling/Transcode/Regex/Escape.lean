import Transcode.Regex.Basic
import Transcode.Text.PropertyName

/-!
# Escapes

What a backslash and the characters after it stand for: a character, a set of characters or a place
between characters. Reading starts after the backslash and gives what is left of the text.
-/

namespace Transcode.Regex

open Text

/-- The settings that groups of an expression can change. -/
structure Flags where
  caseless : Bool := false
  multiline : Bool := false
  dotAll : Bool := false
  swapGreed : Bool := false
  asciiOnly : Bool := false
  carriage : Bool := false
  verbose : Bool := false
  deriving DecidableEq, Repr

/-- What an escape stands for. -/
inductive Escape where
  | char (c : Char)
  | set (chars : CharSet)
  | place (anchor : Anchor)
  deriving DecidableEq, Repr

/-! ### Blanks and comments -/

/-- The text after blanks and comments; inside a comment if so given. -/
def skipComments : Bool → List Char → List Char
  | _, [] => []
  | true, c :: rest => skipComments (c != '\n') rest
  | false, c :: rest =>
    if isBlank c then skipComments false rest
    else if c = '#' then skipComments true rest
    else c :: rest

/-- The text after blanks and comments, which are nothing in a verbose expression only. -/
def skipIgnored (flags : Flags) (cs : List Char) : List Char :=
  if flags.verbose then skipComments false cs else cs

/-- The characters of a kind at the start of a text and what follows them, both without what a
verbose expression ignores; inside a comment if so given. -/
def takeWhileRead (flags : Flags) (keep : Char → Bool) : Bool → List Char → List Char × List Char
  | _, [] => ([], [])
  | true, c :: rest => takeWhileRead flags keep (c != '\n') rest
  | false, c :: rest =>
    if flags.verbose && isBlank c then takeWhileRead flags keep false rest
    else if flags.verbose && c = '#' then takeWhileRead flags keep true rest
    else if keep c then
      let (kept, rest) := takeWhileRead flags keep false rest
      (c :: kept, rest)
    else ([], c :: rest)

/-- The text up to a closing brace and what follows the brace. -/
def readBraces (flags : Flags) (cs : List Char) : Option (List Char × List Char) :=
  match takeWhileRead flags (· != '\x7d') false cs with
  | (content, _ :: rest) => some (content, rest)
  | (_, []) => none

/-! ### Characters by code -/

/-- The value of a hexadecimal digit. -/
def hexDigit? (c : Char) : Option Nat :=
  if isAsciiDigit c then some (c.toNat - '0'.toNat)
  else if 'a' ≤ c && c ≤ 'f' then some (c.toNat - 'a'.toNat + 10)
  else if 'A' ≤ c && c ≤ 'F' then some (c.toNat - 'A'.toNat + 10)
  else none

/-- The value of hexadecimal digits. -/
def hexNumber? (digits : List Char) : Option Nat :=
  digits.foldlM (fun value digit => (hexDigit? digit).map (16 * value + ·)) 0

/-- The character with a code, if there is one. -/
def charOfCode? (code : Nat) : Option Char :=
  if code.isValidChar then some (Char.ofNat code) else none

/-- A number of characters, without what a verbose expression ignores. -/
def readCount (flags : Flags) : Nat → List Char → Option (List Char × List Char)
  | 0, cs => some ([], cs)
  | count + 1, cs =>
    match skipIgnored flags cs with
    | [] => none
    | c :: rest => (readCount flags count rest).map fun (found, rest) => (c :: found, rest)

/-- A character by its code: in braces, or as a number of digits. Two digits can stand for a byte
only where characters have one byte. -/
def readCode (flags : Flags) (digits : Nat) (cs : List Char) : Option (Char × List Char) :=
  match skipIgnored flags cs with
  | '\x7b' :: rest =>
    match readBraces flags rest with
    | some ([], _) => none
    | some (code, rest) => ((hexNumber? code).bind charOfCode?).map (·, rest)
    | none => none
  | cs => do
    let (code, rest) ← readCount flags digits cs
    let c ← (hexNumber? code).bind charOfCode?
    if flags.asciiOnly && digits = 2 && !isAscii c then none else some (c, rest)

/-! ### Sets -/

/-- A set without regard to case, if so set. -/
def Flags.fold (flags : Flags) (chars : CharSet) : CharSet :=
  if !flags.caseless then chars
  else if flags.asciiOnly then .asciiCaseless chars
  else .caseless chars

/-- A set, or its complement if asked for. In an expression over bytes there are no complements. -/
def complIf (flags : Flags) (negated : Bool) (chars : CharSet) : Option CharSet :=
  if !negated then some chars else if flags.asciiOnly then none else some (.compl chars)

/-- The set that the name of a property stands for, or the names of a property and a value. The sign
`!=` between them means the same as `=`. -/
def propertySet? (name : List Char) : Option CharSet :=
  let points :=
    match cutAtText ['!', '='] name with
    | some (property, value) => pointsOfValue? property value
    | none =>
      match cutAt (· = ':') name with
      | (property, some value) => pointsOfValue? property value
      | _ =>
        match cutAt (· = '=') name with
        | (property, some value) => pointsOfValue? property value
        | _ => pointsOfName? name
  points.map .ofPoints

/-- The set of a property after its letter: a name in braces, or one character. -/
def readProperty (flags : Flags) (cs : List Char) : Option (CharSet × List Char) :=
  if flags.asciiOnly then none
  else match skipIgnored flags cs with
    | '\x7b' :: rest => do
      let (name, rest) ← readBraces flags rest
      return (← propertySet? name, rest)
    | c :: rest => if c = '\\' then none else (propertySet? [c]).map (·, rest)
    | [] => none

/-- The digits, word characters and blanks of an expression. -/
def classicSet (flags : Flags) : Char → CharSet
  | 'd' => if flags.asciiOnly then .range '0' '9' else .property .digit
  | 'w' =>
    if flags.asciiOnly then
      .union (.range 'a' 'z') (.union (.range 'A' 'Z') (.union (.range '0' '9') (.single '_')))
    else .property .word
  | _ => if flags.asciiOnly then .ofText " \t\n\x0b\x0c\r" else .property .blank

/-! ### Places -/

/-- The edges of words that can be named in braces. -/
def wordEdges : List (String × WordEdge) :=
  [("start", .start), ("end", .stop), ("start-half", .startHalf), ("end-half", .stopHalf)]

/-- The characters of names of word edges. -/
def isEdgeChar (c : Char) : Bool := isAsciiLetter c || c = '-'

/-- The edge of a word; what stands in braces is a count if it does not begin like a name. -/
def readWordEdge (flags : Flags) (cs : List Char) : Option (Escape × List Char) :=
  let place (edge : WordEdge) := Escape.place (.word edge flags.asciiOnly)
  match cs with
  | '\x7b' :: rest =>
    match takeWhileRead flags isEdgeChar false rest with
    | ([], []) => none
    | ([], _) => some (place .either, cs)
    | (name, '\x7d' :: rest) =>
      (wordEdges.lookup (String.ofList name)).map fun edge => (place edge, rest)
    | _ => none
  | cs => some (place .either, cs)

/-! ### Escapes -/

/-- Whether a character stands for itself after a backslash. -/
def isEscapable (c : Char) : Bool :=
  isAscii c && !isAsciiLetter c && !isAsciiDigit c && c != '<' && c != '>'

/-- The letters that stand for a control character. -/
def controlLetters : List (Char × Char) :=
  [('a', '\x07'), ('f', '\x0c'), ('t', '\t'), ('n', '\n'), ('r', '\r'), ('v', '\x0b')]

/-- Reads an escape after its backslash. -/
def readEscape (flags : Flags) : List Char → Option (Escape × List Char)
  | [] => none
  | c :: rest =>
    if isEscapable c then some (.char c, rest)
    else match controlLetters.lookup c with
      | some control => some (.char control, rest)
      | none =>
        match c with
        | 'x' => (readCode flags 2 rest).map fun (c, rest) => (.char c, rest)
        | 'u' => (readCode flags 4 rest).map fun (c, rest) => (.char c, rest)
        | 'U' => (readCode flags 8 rest).map fun (c, rest) => (.char c, rest)
        | 'p' => (readProperty flags rest).map fun (chars, rest) => (.set (flags.fold chars), rest)
        | 'P' =>
          (readProperty flags rest).map fun (chars, rest) =>
            (.set (.compl (flags.fold chars)), rest)
        | 'd' | 'w' | 's' => some (.set (classicSet flags c), rest)
        | 'D' | 'W' | 'S' =>
          (complIf flags true (classicSet flags c.toLower)).map fun chars => (.set chars, rest)
        | 'A' => some (.place .textStart, rest)
        | 'z' => some (.place .textEnd, rest)
        | 'b' => readWordEdge flags rest
        | 'B' => some (.place (.word .neither flags.asciiOnly), rest)
        | '<' => some (.place (.word .start flags.asciiOnly), rest)
        | '>' => some (.place (.word .stop flags.asciiOnly), rest)
        | _ => none

end Transcode.Regex
