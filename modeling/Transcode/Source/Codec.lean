import Transcode.Json.Decode
import Transcode.Json.Reader
import Transcode.Source.Parser

/-!
# Syntax trees as data

Trees, places and diagnostics as JSON. A node leaves out a missing name and empty children and
attributes, and reading gives them back as defaults.
-/

namespace Transcode

namespace Position

/-- A position as data. -/
def toJson (position : Position) : Json :=
  .object [("line", .natural position.line), ("column", .natural position.column),
    ("offset", .natural position.offset)]

/-- Reads a position. -/
def decoder : Decoder Position :=
  Field.decoder ["line", "column", "offset"]
    (mk <$> .required "line" Decoder.natural <*> .required "column" Decoder.natural
      <*> .required "offset" Decoder.natural)

end Position

namespace SourceRange

/-- A range as data. -/
def toJson (range : SourceRange) : Json :=
  .object [("start", range.start.toJson), ("end", range.stop.toJson)]

/-- Reads a range. -/
def decoder : Decoder SourceRange :=
  Field.decoder ["start", "end"]
    (mk <$> .required "start" Position.decoder <*> .required "end" Position.decoder)

end SourceRange

/-- A diagnostic as data. -/
def Diagnostic.toJson (diagnostic : Diagnostic) : Json :=
  .object [("severity", .text "error"), ("message", .text diagnostic.message),
    ("range", diagnostic.range.toJson)]

/-- Reads a kind of syntax node. -/
def SyntaxKind.decoder : Decoder SyntaxKind :=
  .choice (SyntaxKind.all.map fun kind => (kind.name, kind))

namespace SyntaxTree

mutual

/-- A tree as data. -/
def toJson : SyntaxTree → Json
  | ⟨kind, name, children, range, attributes⟩ =>
    .object ([("kind", .text kind.name)] ++ Json.entryIfSome "name" .text name
      ++ (if children.isEmpty then [] else [("children", .array (toJsons children))])
      ++ [("range", range.toJson)] ++ Json.entryIfNonempty "attributes" .text attributes)

/-- Trees as data. -/
def toJsons : List SyntaxTree → List Json
  | [] => []
  | tree :: rest => toJson tree :: toJsons rest

end

/-- Reads a tree that is at most `height` nodes high. -/
def decoderWithin : Nat → Decoder SyntaxTree
  | 0 => fun _ => .error .shape
  | height + 1 =>
    Field.decoder ["kind", "name", "children", "range", "attributes"]
      (mk <$> .required "kind" SyntaxKind.decoder <*> .optional "name" Decoder.text
        <*> .defaulted "children" (Decoder.list (decoderWithin height)) []
        <*> .required "range" SourceRange.decoder
        <*> .defaulted "attributes" (Decoder.dict Decoder.text) ∅)

/-- How many nodes high a tree can be: each takes two levels of nesting, and the lowest one two
more for the ends of its range. -/
def maxHeight : Nat := (Json.maxDepth - 1) / 2

/-- Reads a tree. -/
def decoder : Decoder SyntaxTree := decoderWithin maxHeight

/-- The tree that a text of data denotes. -/
def ofJsonText (text : String) : Except Failure SyntaxTree :=
  match (Json.read? text).map decoder with
  | some (.ok tree) => .ok tree
  | _ => .error .json

end SyntaxTree

/-- A parsed source as data. -/
def ParsedSource.toJson (parsed : ParsedSource) : Json :=
  .object [("ast", parsed.tree.toJson), ("diagnostics", .array (parsed.diagnostics.map (·.toJson)))]

end Transcode
