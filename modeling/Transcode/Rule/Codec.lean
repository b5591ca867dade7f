import Transcode.Graph.Data
import Transcode.Rule.Basic

/-!
# Rules as data

How rules and their parts are written as JSON and read back. A list of rules is an array, or an
object with an array at `rules`; a failure names the rule that cannot be read.
-/

namespace Transcode

namespace Template

/-- Reads a template. -/
def decoder : Decoder Template := .refine fun source => (read source).mapError (·.message)

/-- A template as JSON. -/
def toJson (template : Template) : Json := .text template.source

end Template

namespace TextPattern

/-- Reads a pattern for texts. -/
def decoder : Decoder TextPattern := .refine fun source =>
  match ofSource? source with
  | some pattern => .ok pattern
  | none => .error ("invalid regex '" ++ source ++ "'")

/-- A pattern for texts as JSON. -/
def toJson (pattern : TextPattern) : Json := .text pattern.source

end TextPattern

namespace Role

/-- The roles by name. -/
def names : List (String × Role) := [("rewrite", .replaced), ("context", .context)]

/-- Reads a role. -/
def decoder : Decoder Role := .choice names

/-- A role as JSON. -/
def toJson : Role → Json
  | .replaced => .text "rewrite"
  | .context => .text "context"

end Role

namespace AttributeTest

/-- Reads a test of an attribute. -/
def decoder : Decoder AttributeTest := .tagged [
  ("equals", fun value => (Decoder.text value).map .equals),
  ("hasWord", fun value => (Decoder.text value).map .hasWord),
  ("lacksWord", fun value => (Decoder.text value).map .lacksWord),
  ("matches", fun value => (TextPattern.decoder value).map .matching),
  ("present", fun value => (Decoder.bool value).map .present),
  ("absent", fun value => (Decoder.bool value).map .absent)]

/-- A test of an attribute as JSON. -/
def toJson : AttributeTest → Json
  | .equals text => .object [("equals", .text text)]
  | .hasWord word => .object [("hasWord", .text word)]
  | .lacksWord word => .object [("lacksWord", .text word)]
  | .matching pattern => .object [("matches", pattern.toJson)]
  | .present expected => .object [("present", .bool expected)]
  | .absent expected => .object [("absent", .bool expected)]

end AttributeTest

namespace NodeFilter

/-- The fields of a filter, given how a kind is read. -/
def fields (kind : Decoder NodeKind) : Field NodeFilter :=
  mk <$> .defaulted "kinds" kind.list []
    <*> .optional "label" TextPattern.decoder
    <*> .defaulted "attributes" (Decoder.dict AttributeTest.decoder) ∅

/-- Reads a filter. -/
def decoder : Decoder NodeFilter :=
  Field.decoder ["kinds", "label", "attributes"] (fields NodeKind.decoder)

/-- The entries of a filter. -/
def entries (filter : NodeFilter) : List (String × Json) :=
  Json.entryIfAny "kinds" (fun kind => .text kind.name) filter.kinds
    ++ Json.entryIfSome "label" TextPattern.toJson filter.label
    ++ Json.entryIfNonempty "attributes" AttributeTest.toJson filter.attributes

/-- A filter as JSON. -/
def toJson (filter : NodeFilter) : Json := .object filter.entries

end NodeFilter

namespace ChildrenTest

/-- Reads a test of children. -/
def decoder : Decoder ChildrenTest :=
  Field.decoder ["edge", "all", "min", "max"]
    (mk <$> .defaulted "edge" EdgeKind.decoder .contains
      <*> .optional "all" NodeFilter.decoder
      <*> .defaulted "min" Decoder.natural 0
      <*> .optional "max" Decoder.natural)

/-- A test of children as JSON. -/
def toJson (test : ChildrenTest) : Json :=
  .object ([("edge", .text test.edge.name)]
    ++ Json.entryIfSome "all" NodeFilter.toJson test.all
    ++ [("min", .natural test.min)]
    ++ Json.entryIfSome "max" .natural test.max)

end ChildrenTest

namespace PatternNode

/-- Reads a node of a pattern, among whose fields those of its filter stand. There a kind may also
be the name of an object without entries. -/
def decoder : Decoder PatternNode :=
  Field.objectDecoder
    (mk <$> .required "name" Decoder.text
      <*> .defaulted "role" Role.decoder .context
      <*> .flattened (NodeFilter.fields (.looseChoice NodeKind.names))
      <*> .optional "children" ChildrenTest.decoder)

/-- A node of a pattern as JSON. -/
def toJson (node : PatternNode) : Json :=
  .object ([("name", .text node.name), ("role", node.role.toJson)] ++ node.filter.entries
    ++ Json.entryIfSome "children" ChildrenTest.toJson node.children)

end PatternNode

namespace PatternEdge

/-- Reads an edge of a pattern. -/
def decoder : Decoder PatternEdge :=
  Field.decoder ["source", "target", "kind"]
    (mk <$> .required "source" Decoder.text <*> .required "target" Decoder.text
      <*> .required "kind" EdgeKind.decoder)

/-- An edge of a pattern as JSON. -/
def toJson (edge : PatternEdge) : Json :=
  .object [("source", .text edge.source), ("target", .text edge.target),
    ("kind", .text edge.kind.name)]

end PatternEdge

namespace Constraint

/-- Reads a condition. -/
def decoder : Decoder Constraint :=
  let both := Decoder.pair Template.decoder Template.decoder
  .tagged [
    ("equal", fun value => (both value).map fun (left, right) => .equal left right),
    ("differ", fun value => (both value).map fun (left, right) => .differ left right)]

/-- A condition as JSON. -/
def toJson : Constraint → Json
  | .equal left right => .object [("equal", .array [left.toJson, right.toJson])]
  | .differ left right => .object [("differ", .array [left.toJson, right.toJson])]

end Constraint

namespace SourcePattern

/-- Reads a source pattern. -/
def decoder : Decoder SourcePattern :=
  Field.decoder ["nodes", "edges", "constraints"]
    (mk <$> .required "nodes" (Decoder.list PatternNode.decoder)
      <*> .defaulted "edges" (Decoder.list PatternEdge.decoder) []
      <*> .defaulted "constraints" (Decoder.list Constraint.decoder) [])

/-- A source pattern as JSON. -/
def toJson (pattern : SourcePattern) : Json :=
  .object ([("nodes", .array (pattern.nodes.map (·.toJson)))]
    ++ Json.entryIfAny "edges" PatternEdge.toJson pattern.edges
    ++ Json.entryIfAny "constraints" Constraint.toJson pattern.constraints)

end SourcePattern

namespace TemplateNode

/-- Reads a node of a fragment. -/
def decoder : Decoder TemplateNode :=
  Field.decoder ["name", "copyFrom", "kind", "label", "set", "remove"]
    (mk <$> .required "name" Decoder.text
      <*> .optional "copyFrom" Decoder.text
      <*> .optional "kind" NodeKind.decoder
      <*> .optional "label" Template.decoder
      <*> .defaulted "set" (Decoder.dict Template.decoder) ∅
      <*> .defaulted "remove" (Decoder.list Decoder.text) [])

/-- A node of a fragment as JSON. -/
def toJson (node : TemplateNode) : Json :=
  .object ([("name", .text node.name)]
    ++ Json.entryIfSome "copyFrom" .text node.copyFrom
    ++ Json.entryIfSome "kind" (fun kind => .text kind.name) node.kind
    ++ Json.entryIfSome "label" Template.toJson node.label
    ++ Json.entryIfNonempty "set" Template.toJson node.set
    ++ Json.entryIfAny "remove" .text node.remove)

end TemplateNode

namespace TargetPattern

/-- Reads a target pattern. -/
def decoder : Decoder TargetPattern :=
  Field.decoder ["nodes", "edges", "root", "boundary"]
    (mk <$> .required "nodes" (Decoder.list TemplateNode.decoder)
      <*> .defaulted "edges" (Decoder.list PatternEdge.decoder) []
      <*> .optional "root" Decoder.text
      <*> .defaulted "boundary" (Decoder.dict Decoder.text) ∅)

/-- A target pattern as JSON. -/
def toJson (target : TargetPattern) : Json :=
  .object ([("nodes", .array (target.nodes.map (·.toJson)))]
    ++ Json.entryIfAny "edges" PatternEdge.toJson target.edges
    ++ Json.entryIfSome "root" .text target.root
    ++ Json.entryIfNonempty "boundary" .text target.boundary)

end TargetPattern

namespace Rule

/-- Reads a rule. -/
def decoder : Decoder Rule :=
  Field.decoder ["id", "name", "source", "target", "description", "confidence", "automated",
      "crossDeclaration", "sourcePattern", "targetPattern"]
    (mk <$> .required "id" Decoder.text <*> .required "name" Decoder.text
      <*> .defaulted "source" Decoder.text "" <*> .defaulted "target" Decoder.text ""
      <*> .defaulted "description" Decoder.text ""
      <*> .required "confidence" (Decoder.naturalBelow (Nat.pow 2 32))
      <*> .defaulted "automated" Decoder.bool true
      <*> .defaulted "crossDeclaration" Decoder.bool false
      <*> .required "sourcePattern" SourcePattern.decoder
      <*> .required "targetPattern" TargetPattern.decoder)

/-- A rule as JSON. -/
def toJson (rule : Rule) : Json :=
  .object [("id", .text rule.id), ("name", .text rule.name), ("source", .text rule.source),
    ("target", .text rule.target), ("description", .text rule.description),
    ("confidence", .natural rule.confidence), ("automated", .bool rule.automated),
    ("crossDeclaration", .bool rule.crossDeclaration),
    ("sourcePattern", rule.sourcePattern.toJson), ("targetPattern", rule.targetPattern.toJson)]

/-- What is shown of a rule in a list. -/
def summary (rule : Rule) : Json :=
  .object [("id", .text rule.id), ("name", .text rule.name), ("source", .text rule.source),
    ("target", .text rule.target), ("confidence", .natural rule.confidence),
    ("automated", .bool rule.automated)]

/-- What a rule is called when it cannot be read: its id, or its place in the list. -/
def label (index : Nat) (entry : Json) : String :=
  ((entry.valueAt? "id").bind Json.text?).getD ("#" ++ toString index)

/-- Reads a rule at a place of a list. -/
def ofEntry (index : Nat) (entry : Json) : Except Failure Rule :=
  match decoder entry with
  | .ok rule => .ok rule
  | .error .shape => .error (.ruleLoad (label index entry) none)
  | .error (.refused reason) => .error (refuse (label index entry) reason)

/-- Reads rules from a place of a list on. -/
def ofEntries (index : Nat) : List Json → Except Failure (List Rule)
  | [] => .ok []
  | entry :: rest => do
    let rule ← ofEntry index entry
    let others ← ofEntries (index + 1) rest
    return rule :: others

/-- The rules that JSON text denotes. -/
def listOfText (text : String) : Except Failure (List Rule) :=
  match (Json.read? text).bind Json.stored? with
  | none => .error (.ruleLoad "<file>" none)
  | some (.array entries) => ofEntries 0 entries
  | some (.object entries) =>
    match Dict.lookup "rules" entries with
    | some (.array entries) => ofEntries 0 entries
    | _ => .error (refuse "<file>" "expected an array of rules or \x7b\"rules\": [...]\x7d")
  | some _ => .error (refuse "<file>" "expected an array of rules")

end Rule

namespace Catalog

/-- The catalog that JSON text denotes. -/
def ofJsonText (text : String) : Except Failure Catalog := do ofRules (← Rule.listOfText text)

/-- The catalog with the rules that JSON text denotes after its own. -/
def appendJsonText (catalog : Catalog) (text : String) : Except Failure Catalog := do
  catalog.append (← Rule.listOfText text)

end Catalog

end Transcode
