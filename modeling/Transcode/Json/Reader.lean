import Transcode.Json.Value

/-!
# Reading JSON

A strict reader over the characters still to be read. Every function takes a beginning of them and
gives back the rest; `read?` wants the whole text to be one value. The reader knows no bound on
depth and no range of numbers, and half a surrogate pair makes a text broken: such a value may
stand where nobody looks at it, so refusing it is left to those who do.
-/

namespace Transcode.Json

/-- The four characters that may stand between tokens. -/
def isSpace (c : Char) : Bool := c = ' ' || c = '\n' || c = '\t' || c = '\r'

/-- The characters after any spaces. -/
def skipSpaces (cs : List Char) : List Char := cs.dropWhile isSpace

/-- The value of a hexadecimal digit. -/
def hexDigit? (c : Char) : Option Nat :=
  if '0' ≤ c && c ≤ '9' then some (c.toNat - 48)
  else if 'a' ≤ c && c ≤ 'f' then some (c.toNat - 87)
  else if 'A' ≤ c && c ≤ 'F' then some (c.toNat - 55)
  else none

/-- The value of four hexadecimal digits. -/
def hexFour? (a b c d : Char) : Option Nat := do
  return (((← hexDigit? a) * 16 + (← hexDigit? b)) * 16 + (← hexDigit? c)) * 16 + (← hexDigit? d)

/-- The characters of a text under way, last character first; `broken` once half a surrogate pair
was seen. -/
structure TextSoFar where
  reversed : List Char := []
  broken : Bool := false

/-- The text so far with one more character. -/
def TextSoFar.add (text : TextSoFar) (c : Char) : TextSoFar :=
  { text with reversed := c :: text.reversed }

/-- The value of a finished text. -/
def TextSoFar.value (text : TextSoFar) : Json :=
  if text.broken then .broken else .text (String.ofList text.reversed.reverse)

/-- The first half of a surrogate pair. -/
def isLeading (code : Nat) : Bool := 0xD800 ≤ code && code ≤ 0xDBFF

/-- The second half of a surrogate pair. -/
def isTrailing (code : Nat) : Bool := 0xDC00 ≤ code && code ≤ 0xDFFF

/-- The character that an escape letter stands for. -/
def escaped? (c : Char) : Option Char :=
  if c = '"' || c = '\\' || c = '/' then some c
  else if c = 'b' then some '\x08'
  else if c = 'f' then some '\x0c'
  else if c = 'n' then some '\n'
  else if c = 'r' then some '\r'
  else if c = 't' then some '\t'
  else none

/-- The text up to the closing quote. -/
def readText (text : TextSoFar) : List Char → Option (TextSoFar × List Char)
  | [] => none
  | '"' :: rest => some (text, rest)
  | '\\' :: 'u' :: a :: b :: c :: d :: rest =>
    match hexFour? a b c d with
    | none => none
    | some code =>
      if isLeading code then
        match rest with
        | '\\' :: 'u' :: a' :: b' :: c' :: d' :: rest' =>
          match hexFour? a' b' c' d' with
          | none => none
          | some code' =>
            if isTrailing code' then
              let joined := 0x10000 + (code - 0xD800) * 0x400 + (code' - 0xDC00)
              readText (text.add (Char.ofNat joined)) rest'
            else readText { text with broken := true } rest'
        | rest => readText { text with broken := true } rest
      else if isTrailing code then readText { text with broken := true } rest
      else readText (text.add (Char.ofNat code)) rest
  | '\\' :: c :: rest =>
    match escaped? c with
    | some c => readText (text.add c) rest
    | none => none
  | c :: rest => if c.toNat < 0x20 then none else readText (text.add c) rest

/-- A run of digits and what follows it. -/
def spanDigits (cs : List Char) : List Char × List Char := cs.span Char.isDigit

/-- A fraction, if a point stands first; it needs a digit. -/
def readFraction : List Char → Option (List Char × List Char)
  | '.' :: rest =>
    let (digits, rest) := spanDigits rest
    if digits.isEmpty then none else some ('.' :: digits, rest)
  | rest => some ([], rest)

/-- The sign of an exponent, if one is written. -/
def readSign : List Char → List Char × List Char
  | c :: rest => if c = '+' || c = '-' then ([c], rest) else ([], c :: rest)
  | [] => ([], [])

/-- An exponent, if its letter stands first; it needs a digit. -/
def readExponent : List Char → Option (List Char × List Char)
  | c :: rest =>
    if c = 'e' || c = 'E' then
      let (sign, rest) := readSign rest
      let (digits, rest) := spanDigits rest
      if digits.isEmpty then none else some (c :: sign ++ digits, rest)
    else some ([], c :: rest)
  | [] => some ([], [])

/-- A number: its whole part is zero or starts with another digit. Without sign, fraction and
exponent, and if it fits 64 bits, it is a natural number. -/
def readNumber (cs : List Char) : Option (Json × List Char) := do
  let (sign, rest) := match cs with
    | '-' :: rest => (['-'], rest)
    | rest => ([], rest)
  let (whole, rest) := spanDigits rest
  if whole.isEmpty || (whole.head? = some '0' && whole.length > 1) then none
  let (fraction, rest) ← readFraction rest
  let (exponent, rest) ← readExponent rest
  if sign.isEmpty && fraction.isEmpty && exponent.isEmpty && decimalValue whole < Nat.pow 2 64 then
    return (.natural (decimalValue whole), rest)
  else return (.decimal (String.ofList (sign ++ whole ++ fraction ++ exponent)), rest)

/-- An object with one more entry in front. -/
def withEntry (name : TextSoFar) (value : Json) : Json → Json
  | .object entries =>
    match name.value with
    | .text name => .object ((name, value) :: entries)
    | _ => .broken
  | _ => .broken

mutual

/-- One value and what follows it. `fuel` bounds the number of calls. -/
def readValue (fuel : Nat) (cs : List Char) : Option (Json × List Char) :=
  match fuel with
  | 0 => none
  | fuel + 1 =>
    match skipSpaces cs with
    | 'n' :: 'u' :: 'l' :: 'l' :: rest => some (.null, rest)
    | 't' :: 'r' :: 'u' :: 'e' :: rest => some (.bool true, rest)
    | 'f' :: 'a' :: 'l' :: 's' :: 'e' :: rest => some (.bool false, rest)
    | '"' :: rest => (readText {} rest).map fun (found, rest) => (found.value, rest)
    | '[' :: rest =>
      match skipSpaces rest with
      | ']' :: rest => some (.array [], rest)
      | rest => (readItems fuel rest).map fun (items, rest) => (.array items, rest)
    | '\x7b' :: rest =>
      match skipSpaces rest with
      | '\x7d' :: rest => some (.object [], rest)
      | rest => readEntries fuel rest
    | rest => readNumber rest

/-- Items up to the closing bracket; there is at least one. -/
def readItems (fuel : Nat) (cs : List Char) : Option (List Json × List Char) :=
  match fuel with
  | 0 => none
  | fuel + 1 =>
    match readValue fuel cs with
    | none => none
    | some (item, rest) =>
      match skipSpaces rest with
      | ']' :: rest => some ([item], rest)
      | ',' :: rest => (readItems fuel rest).map fun (items, rest) => (item :: items, rest)
      | _ => none

/-- The object of the entries up to the closing brace; there is at least one. -/
def readEntries (fuel : Nat) (cs : List Char) : Option (Json × List Char) :=
  match fuel with
  | 0 => none
  | fuel + 1 =>
    match skipSpaces cs with
    | '"' :: rest =>
      match readText {} rest with
      | none => none
      | some (name, rest) =>
        match skipSpaces rest with
        | ':' :: rest =>
          match readValue fuel rest with
          | none => none
          | some (value, rest) =>
            match skipSpaces rest with
            | '\x7d' :: rest => some (withEntry name value (.object []), rest)
            | ',' :: rest =>
              (readEntries fuel rest).map fun (others, rest) => (withEntry name value others, rest)
            | _ => none
        | _ => none
    | _ => none

end

/-- The value that a text denotes. -/
def read? (text : String) : Option Json :=
  let cs := text.toList
  match readValue (2 * cs.length + 2) cs with
  | some (value, rest) => if (skipSpaces rest).isEmpty then some value else none
  | none => none

end Transcode.Json
