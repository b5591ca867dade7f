import Transcode.Dict

/-!
# JSON values

A value keeps what its text says: object entries in the order written, also repeated ones, and
numbers that are no natural number as they are spelled. `stored?` is the reading in which objects
become dictionaries; it takes no part of the value for granted, while a decoder looks only at the
parts it asks for.
-/

namespace Transcode

/-- A JSON value. `broken` is a text with half a surrogate pair, which denotes no characters, or an
object with such a text for a name: it can be passed over, but not be used. -/
inductive Json where
  | null
  | bool (value : Bool)
  | natural (value : Nat)
  | decimal (literal : String)
  | text (value : String)
  | broken
  | array (items : List Json)
  | object (entries : List (String × Json))
  deriving Inhabited, BEq

namespace Json

/-- The number written by decimal digits. -/
def decimalValue (digits : List Char) : Nat :=
  digits.foldl (fun value digit => 10 * value + (digit.toNat - 48)) 0

/-- Whether `mantissa * 10 ^ exponent` rounds to a finite double: it is below the midpoint of the
largest double and the next power of two. -/
def isFiniteDouble (mantissa : Nat) (exponent : Int) : Bool :=
  let bound : Nat := Nat.pow 2 1024 - Nat.pow 2 970
  let digits : Int := (toString mantissa).length
  if mantissa = 0 || digits + exponent < 300 then true
  else if digits + exponent > 320 then false
  else if exponent ≥ 0 then mantissa * Nat.pow 10 exponent.toNat < bound
  else mantissa < bound * Nat.pow 10 (-exponent).toNat

/-- Whether a number's spelling denotes a finite double. -/
def isFiniteLiteral (literal : String) : Bool :=
  let unsigned := literal.toList.filter (· != '-') |>.takeWhile fun c => c != 'e' && c != 'E'
  let whole := unsigned.takeWhile (· != '.')
  let fraction := (unsigned.dropWhile (· != '.')).drop 1
  let power := (literal.toList.dropWhile fun c => c != 'e' && c != 'E').drop 1
  let size : Int := decimalValue (power.filter Char.isDigit)
  let exponent := if power.head? = some '-' then -size else size
  isFiniteDouble (decimalValue (whole ++ fraction)) (exponent - fraction.length)

mutual

/-- The value with every object read as a dictionary: names increasing, and the last of several
entries with one name counts. There is none if a part is broken, if a number overflows, or if
arrays and objects nest deeper than `depth`. -/
def storedWithin? (depth : Nat) : Json → Option Json
  | .array items =>
    match depth with
    | 0 => none
    | depth + 1 => (storedItems? depth items).map .array
  | .object entries =>
    match depth with
    | 0 => none
    | depth + 1 =>
      (storedEntries? depth entries).map fun entries => .object (Dict.ofList entries).entries
  | .decimal literal => if isFiniteLiteral literal then some (.decimal literal) else none
  | .broken => none
  | value => some value

/-- The stored items. -/
def storedItems? (depth : Nat) : List Json → Option (List Json)
  | [] => some []
  | item :: rest =>
    match storedWithin? depth item, storedItems? depth rest with
    | some item, some rest => some (item :: rest)
    | _, _ => none

/-- The stored entries. -/
def storedEntries? (depth : Nat) : List (String × Json) → Option (List (String × Json))
  | [] => some []
  | (name, value) :: rest =>
    match storedWithin? depth value, storedEntries? depth rest with
    | some value, some rest => some ((name, value) :: rest)
    | _, _ => none

end

/-- Arrays and objects that are read for use nest at most this deep. -/
def maxDepth : Nat := 127

/-- A whole text's value with every object read as a dictionary. -/
def stored? (value : Json) : Option Json := storedWithin? maxDepth value

/-- The value of the first entry of an object with a name. -/
def valueAt? (name : String) : Json → Option Json
  | .object entries => Dict.lookup name entries
  | _ => none

/-- The characters of a text value. -/
def text? : Json → Option String
  | .text value => some value
  | _ => none

/-- An array of texts. -/
def ofTexts (texts : List String) : Json := .array (texts.map .text)

/-- A value, or null. -/
def ofOption (encode : α → Json) : Option α → Json
  | some value => encode value
  | none => .null

/-- An entry that is written only if there is a value. -/
def entryIfSome (name : String) (encode : α → Json) : Option α → List (String × Json)
  | some value => [(name, encode value)]
  | none => []

/-- An entry that is written only if the list has elements. -/
def entryIfAny (name : String) (encode : α → Json) : List α → List (String × Json)
  | [] => []
  | values => [(name, .array (values.map encode))]

/-- An object with the entries of a dictionary. -/
def ofDict (encode : α → Json) (dict : Dict α) : Json :=
  .object (dict.entries.map fun entry => (entry.1, encode entry.2))

/-- An entry that is written only if the dictionary has entries. -/
def entryIfNonempty (name : String) (encode : α → Json) (dict : Dict α) : List (String × Json) :=
  if dict.isEmpty then [] else [(name, ofDict encode dict)]

end Json

end Transcode
