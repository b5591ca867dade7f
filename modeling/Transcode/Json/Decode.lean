import Transcode.Json.Value

/-!
# Decoding JSON values

A decoder turns a value into one of the library's types or tells why not. Records are decoded field
by field; of several faults the one at the earliest place of the record counts, which is what
`Field`'s applicative structure keeps track of.

A record may be written as an object, where unknown names are ignored and a known name may stand
once, or as an array of its fields in order of declaration, where fields with a default may be
missing at the end.
-/

namespace Transcode

/-- Why a value cannot be decoded: it has the wrong form, or a text in it was refused. -/
inductive DecodeFault where
  | shape
  | refused (reason : String)
  deriving DecidableEq, Repr

/-- A way to read a type from a value. -/
abbrev Decoder (α : Type) := Json → Except DecodeFault α

namespace Decoder

variable {α β : Type}

/-- A text. -/
def text : Decoder String
  | .text value => .ok value
  | _ => .error .shape

/-- A truth value. -/
def bool : Decoder Bool
  | .bool value => .ok value
  | _ => .error .shape

/-- A natural number below a bound. -/
def naturalBelow (bound : Nat) : Decoder Nat
  | .natural value => if value < bound then .ok value else .error .shape
  | _ => .error .shape

/-- A natural number of 64 bits. -/
def natural : Decoder Nat := naturalBelow (Nat.pow 2 64)

/-- A text that a reader accepts. -/
def refine (read : String → Except String α) : Decoder α
  | .text value =>
    match read value with
    | .ok result => .ok result
    | .error reason => .error (.refused reason)
  | _ => .error .shape

/-- Each item in turn. -/
def items (decode : Decoder α) : List Json → Except DecodeFault (List α)
  | [] => .ok []
  | item :: rest => do
    let first ← decode item
    let others ← items decode rest
    return first :: others

/-- An array. -/
def list (decode : Decoder α) : Decoder (List α)
  | .array values => items decode values
  | _ => .error .shape

/-- A pair, as an array of two. A fault of an item counts before that of a wrong number of items. -/
def pair (first : Decoder α) (second : Decoder β) : Decoder (α × β)
  | .array (a :: b :: surplus) => do
    let a ← first a
    let b ← second b
    if surplus.isEmpty then return (a, b) else throw .shape
  | .array [a] => do
    let _ ← first a
    throw .shape
  | _ => .error .shape

/-- Each entry in turn. -/
def entries (decode : Decoder α) :
    List (String × Json) → Except DecodeFault (List (String × α))
  | [] => .ok []
  | (name, value) :: rest => do
    let first ← decode value
    let others ← entries decode rest
    return (name, first) :: others

/-- An object with arbitrary names; of several entries with one name the last counts. -/
def dict (decode : Decoder α) : Decoder (Dict α)
  | .object values => (entries decode values).map Dict.ofList
  | _ => .error .shape

/-- A value or null for none. -/
def optional (decode : Decoder α) : Decoder (Option α)
  | .null => .ok none
  | value => (decode value).map some

/-- One of several names: as a text, or as the only name of an object whose content is empty. -/
def choiceWith (isEmpty : Json → Bool) (table : List (String × α)) : Decoder α
  | .text name =>
    match Dict.lookup name table with
    | some value => .ok value
    | none => .error .shape
  | .object [(name, content)] =>
    match Dict.lookup name table, isEmpty content with
    | some value, true => .ok value
    | _, _ => .error .shape
  | _ => .error .shape

/-- One of several names: as a text, or as the only name of an object, with null. -/
def choice (table : List (String × α)) : Decoder α :=
  choiceWith (fun content => content matches .null) table

/-- One of several names: as a text, or as the only name of an object, with null or no entries. -/
def looseChoice (table : List (String × α)) : Decoder α :=
  choiceWith (fun content => content matches .null | .object []) table

/-- A value all of whose parts can be read, also those that are not asked for, and which nests at
most so deep. -/
def readable (depth : Nat) (decode : Decoder α) : Decoder α := fun json =>
  match json.storedWithin? depth with
  | some _ => decode json
  | none => .error .shape

/-- One of several cases, each with a content: an object with the case's name only. -/
def tagged (table : List (String × Decoder α)) : Decoder α
  | .object [(name, content)] =>
    match Dict.lookup name table with
    | some decode => decode content
    | none => .error .shape
  | _ => .error .shape

end Decoder

/-- The entries of a record that is being decoded. `surplus` tells of array items beyond the
declared fields. -/
structure Record where
  entries : List (String × Json)
  surplus : Bool := false

namespace Record

/-- The record written by a value: an object, or an array of the declared fields in order. -/
def ofJson (fields : List String) : Json → Option Record
  | .object entries => some { entries }
  | .array items =>
    some { entries := fields.zip items, surplus := fields.length < items.length }
  | _ => none

/-- The values of the entries with one of the names, each with its place. -/
def occurrences (record : Record) (names : List String) : List (Nat × Json) :=
  record.entries.zipIdx.filterMap fun (entry, place) =>
    if names.contains entry.1 then some (place, entry.2) else none

end Record

/-- A fault and its place in a record: that of the entry, or one after all entries. -/
structure PlacedFault where
  place : Nat
  fault : DecodeFault

/-- Reads one part of a record. -/
structure Field (α : Type) where
  run : Record → Except PlacedFault α

namespace Field

variable {α β : Type}

instance : Functor Field where
  map f field := ⟨fun record => (field.run record).map f⟩

/-- Applies one part to another; if both fail, the fault at the earlier place counts. -/
def apply (function : Field (α → β)) (argument : Field α) : Field β :=
  ⟨fun record =>
    match function.run record, argument.run record with
    | .ok f, .ok x => .ok (f x)
    | .error fault, .ok _ => .error fault
    | .ok _, .error fault => .error fault
    | .error fault, .error fault' => .error (if fault'.place < fault.place then fault' else fault)⟩

instance : Seq Field where
  seq function argument := apply function (argument ())

/-- The field known by one of several names. It may stand once; if it is missing, `absent` is taken,
and there being none is a fault after all entries. -/
def named (names : List String) (decode : Decoder α) (absent : Option α) : Field α :=
  ⟨fun record =>
    match record.occurrences names with
    | [] =>
      match absent with
      | some value => .ok value
      | none => .error ⟨record.entries.length, .shape⟩
    | (place, value) :: others =>
      match decode value, others with
      | .ok result, [] => .ok result
      | .ok _, (again, _) :: _ => .error ⟨again, .shape⟩
      | .error fault, _ => .error ⟨place, fault⟩⟩

/-- A field that must be given. -/
def required (name : String) (decode : Decoder α) : Field α := named [name] decode none

/-- A field with a default. -/
def defaulted (name : String) (decode : Decoder α) (value : α) : Field α :=
  named [name] decode (some value)

/-- A field that may be missing or null. -/
def optional (name : String) (decode : Decoder α) : Field (Option α) :=
  named [name] decode.optional (some none)

/-- A part whose fields stand among those of the record itself; its faults come after all others. -/
def flattened (field : Field α) : Field α :=
  ⟨fun record =>
    match field.run record with
    | .ok value => .ok value
    | .error fault => .error ⟨record.entries.length + 2 + fault.place, fault.fault⟩⟩

/-- The decoder of a record that may also be written as an array of the listed fields. -/
def decoder (fields : List String) (field : Field α) : Decoder α := fun json =>
  match Record.ofJson fields json with
  | none => .error .shape
  | some record =>
    match field.run record, record.surplus with
    | .ok value, false => .ok value
    | .ok _, true => .error .shape
    | .error fault, _ => .error fault.fault

/-- The decoder of a record that must be written as an object. -/
def objectDecoder (field : Field α) : Decoder α := fun json =>
  match json with
  | .object entries =>
    match field.run { entries } with
    | .ok value => .ok value
    | .error fault => .error fault.fault
  | _ => .error .shape

end Field

end Transcode
