import Transcode.Text.CaseMap
import Transcode.Text.Words

/-!
# Names of accessors

An accessor method is named after its property: `getUserName` reads the property `userName`.
-/

namespace Transcode.Text

/-- The text with its first character in lower case. -/
def lowerFirst (text : String) : String :=
  match text.toList with
  | [] => ""
  | c :: rest => String.ofList (lower c ++ rest)

/-- The text with its first character in upper case. -/
def upperFirst (text : String) : String :=
  match text.toList with
  | [] => ""
  | c :: rest => String.ofList (upper c ++ rest)

/-- What follows an accessor's beginning, if it starts with a capital. -/
def propertyAfter? (beginning : String) (method : List Char) : Option String :=
  match stripStart? beginning.toList method with
  | some (c :: rest) =>
    if isUppercase c then some (lowerFirst (String.ofList (c :: rest))) else none
  | _ => none

/-- The property an accessor method is named after; other names are their own property. -/
def propertyName (method : String) : String :=
  (["get", "set", "is"].findSome? (propertyAfter? · method.toList)).getD method

/-- `set` for a method whose name starts so, else `get`. -/
def accessorKind (method : String) : String :=
  if (stripStart? ['s', 'e', 't'] method.toList).isSome then "set" else "get"

/-- The text without the underscores at its start. -/
def trimUnderscores (text : String) : String :=
  String.ofList (text.toList.dropWhile (· = '_'))

end Transcode.Text
