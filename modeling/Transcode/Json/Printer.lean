import Transcode.Json.Value

/-!
# Writing JSON

`compact` writes a value without blanks, `pretty` with one entry a line and two blanks of
indentation a level. Only quotes, backslashes and control characters are escaped.
-/

namespace Transcode.Json

/-- A hexadecimal digit, small letters above nine. -/
def hexDigit (value : Nat) : Char :=
  if value < 10 then Char.ofNat (48 + value) else Char.ofNat (87 + value)

/-- A character inside quotes. -/
def escape (c : Char) : List Char :=
  if c = '"' then ['\\', '"']
  else if c = '\\' then ['\\', '\\']
  else if c = '\n' then ['\\', 'n']
  else if c = '\r' then ['\\', 'r']
  else if c = '\t' then ['\\', 't']
  else if c = '\x08' then ['\\', 'b']
  else if c = '\x0c' then ['\\', 'f']
  else if c.toNat < 0x20 then
    ['\\', 'u', '0', '0', hexDigit (c.toNat / 16), hexDigit (c.toNat % 16)]
  else [c]

/-- A text in quotes. -/
def quote (text : String) : String :=
  String.ofList ('"' :: text.toList.flatMap escape ++ ['"'])

mutual

/-- A value without blanks. -/
def compact : Json → String
  | .null => "null"
  | .bool value => if value then "true" else "false"
  | .natural value => toString value
  | .decimal literal => literal
  | .text value => quote value
  | .broken => quote ""
  | .array items => "[" ++ ",".intercalate (compactItems items) ++ "]"
  | .object entries => "\x7b" ++ ",".intercalate (compactEntries entries) ++ "\x7d"

/-- Each item without blanks. -/
def compactItems : List Json → List String
  | [] => []
  | item :: rest => compact item :: compactItems rest

/-- Each entry without blanks. -/
def compactEntries : List (String × Json) → List String
  | [] => []
  | (name, value) :: rest => (quote name ++ ":" ++ compact value) :: compactEntries rest

end

/-- The indentation of a level. -/
def indentation (level : Nat) : String := String.ofList (List.replicate (2 * level) ' ')

/-- Lines between brackets, one level deeper than the brackets. -/
def enclose (level : Nat) (opening closing : String) (lines : List String) : String :=
  if lines.isEmpty then opening ++ closing
  else
    let start := "\n" ++ indentation (level + 1)
    opening ++ start ++ ("," ++ start).intercalate lines ++ "\n" ++ indentation level ++ closing

mutual

/-- A value with one entry a line, whose first line stands at a level. -/
def prettyAt (level : Nat) : Json → String
  | .null => "null"
  | .bool value => if value then "true" else "false"
  | .natural value => toString value
  | .decimal literal => literal
  | .text value => quote value
  | .broken => quote ""
  | .array items => enclose level "[" "]" (prettyItems (level + 1) items)
  | .object entries => enclose level "\x7b" "\x7d" (prettyEntries (level + 1) entries)

/-- Each item at a level. -/
def prettyItems (level : Nat) : List Json → List String
  | [] => []
  | item :: rest => prettyAt level item :: prettyItems level rest

/-- Each entry at a level. -/
def prettyEntries (level : Nat) : List (String × Json) → List String
  | [] => []
  | (name, value) :: rest =>
    (quote name ++ ": " ++ prettyAt level value) :: prettyEntries level rest

end

/-- A value with one entry a line. -/
def pretty (value : Json) : String := prettyAt 0 value

end Transcode.Json
