import Transcode.Graph.Basic
import Transcode.Text.Naming
import Transcode.Text.Words

/-!
# Templates

Text with placeholders for labels and attributes of nodes: `{method.label}` or `{method.attr.type}`,
each followed by filters after bars, `{method.attr.modifiers|drop_word(static)}`. Braces without a
placeholder between them stand for themselves. A template carries the proof that its parts are what
its text reads as, so two templates with one text are equal (`ext_source`).
-/

namespace Transcode

open Text

/-- What a placeholder takes from a node. -/
inductive NodePart where
  | label
  | attribute (key : String)
  deriving DecidableEq, Repr

/-- A change of a placeholder's text. -/
inductive TextFilter where
  | propertyName
  | accessorKind
  | trimUnderscores
  | lowerFirst
  | upperFirst
  | dropWord (word : String)
  deriving DecidableEq, Repr

/-- A stretch of plain text, or a placeholder. -/
inductive TemplatePart where
  | plain (text : String)
  | value (node : String) (part : NodePart) (filters : List TextFilter)
  deriving DecidableEq, Repr

/-- Why a text is no template. -/
inductive TemplateFault where
  | unknownField (path : String)
  | malformedPlaceholder (path : String)
  | malformedFilter (text : String)
  | unknownFilter (text : String)
  deriving DecidableEq, Repr

/-- The wording of a template fault. -/
def TemplateFault.message : TemplateFault → String
  | .unknownField path => "unknown field in '\x7b" ++ path ++ "\x7d'"
  | .malformedPlaceholder path => "malformed placeholder '\x7b" ++ path ++ "\x7d'"
  | .malformedFilter text => "malformed filter '" ++ text ++ "'"
  | .unknownFilter text => "unknown filter '" ++ text ++ "'"

namespace TextFilter

/-- The text after a filter. -/
def apply (value : String) : TextFilter → String
  | .propertyName => Text.propertyName value
  | .accessorKind => Text.accessorKind value
  | .trimUnderscores => Text.trimUnderscores value
  | .lowerFirst => Text.lowerFirst value
  | .upperFirst => Text.upperFirst value
  | .dropWord word => Text.dropWord value word

/-- The filters without an argument, by name. -/
def plainNames : List (String × TextFilter) :=
  [("property_name", .propertyName), ("accessor_kind", .accessorKind),
   ("trim_underscore", .trimUnderscores), ("lower_first", .lowerFirst),
   ("upper_first", .upperFirst)]

/-- Whether a character can stand in a filter's name. -/
def isNameChar (c : Char) : Bool := isAsciiLower c || c = '_'

/-- A filter's name and the argument in parentheses after it, if it has one. -/
def call? (text : List Char) : Option (String × Option (List Char)) :=
  let name := String.ofList (text.takeWhile isNameChar)
  if name.isEmpty then none
  else match text.dropWhile isNameChar with
    | [] => some (name, none)
    | '(' :: rest =>
      match stripEnd? [')'] rest with
      | some argument =>
        if argument.contains '\n' then none else some (name, some (trimBoth argument))
      | none => none
    | _ => none

/-- The filter with a name and an argument. -/
def named? (name : String) : Option (List Char) → Option TextFilter
  | none => plainNames.lookup name
  | some argument =>
    if name = "drop_word" && !argument.isEmpty then some (.dropWord (String.ofList argument))
    else none

/-- Reads a filter. -/
def read (text : List Char) : Except TemplateFault TextFilter :=
  match call? (trimBoth text) with
  | none => .error (.malformedFilter (String.ofList text))
  | some (name, argument) =>
    match named? name argument with
    | some filter => .ok filter
    | none => .error (.unknownFilter (String.ofList text))

end TextFilter

namespace TemplatePart

/-- Reads the part of a node that a path names after its first dot. -/
def readNodePart (path rest : List Char) : Except TemplateFault NodePart :=
  if rest = "label".toList then .ok .label
  else match stripStart? "attr.".toList rest with
    | some (c :: key) => .ok (.attribute (String.ofList (c :: key)))
    | _ => .error (.unknownField (String.ofList path))

/-- Reads a path: a node's name, a dot and a part of the node. -/
def readPath (path : List Char) : Except TemplateFault (String × NodePart) :=
  match cutAt (· = '.') path with
  | (_, none) => .error (.malformedPlaceholder (String.ofList path))
  | (node, some rest) => (readNodePart path rest).map fun part => (String.ofList node, part)

/-- Reads what stands between the braces of a placeholder. -/
def readPlaceholder (inner : List Char) : Except TemplateFault TemplatePart :=
  match splitWhere (· = '|') inner with
  | [] => .error (.malformedPlaceholder "")
  | path :: filters => do
    let (node, part) ← readPath (trimBoth path)
    let filters ← filters.mapM TextFilter.read
    return .value node part filters

/-- Plain text, unless it is empty. -/
def plainIfAny (text : List Char) : List TemplatePart :=
  if text.isEmpty then [] else [.plain (String.ofList text)]

/-- Whether a character is a brace. -/
def isBrace (c : Char) : Bool := c = '\x7b' || c = '\x7d'

/-- The parts of the rest of a text, after plain text that is given last character first. Inside a
placeholder the characters since its opening brace are given too. -/
def readFrom : List Char → Option (List Char) → List Char → Except TemplateFault (List TemplatePart)
  | before, none, [] => .ok (plainIfAny before.reverse)
  | before, some inner, [] => .ok (plainIfAny (inner ++ '\x7b' :: before).reverse)
  | before, none, c :: rest =>
    if c = '\x7b' then readFrom before (some []) rest else readFrom (c :: before) none rest
  | before, some inner, c :: rest =>
    if c = '\x7d' then do
      let placeholder ← readPlaceholder inner.reverse
      let others ← readFrom [] none rest
      return plainIfAny before.reverse ++ placeholder :: others
    else if c = '\x7b' then readFrom (inner ++ '\x7b' :: before) (some []) rest
    else readFrom before (some (c :: inner)) rest

/-- The parts of a text. -/
def readAll (source : String) : Except TemplateFault (List TemplatePart) :=
  readFrom [] none source.toList

/-- Parts that are found at all were read. -/
theorem readAll_of_toOption {source : String} {parts : List TemplatePart}
    (h : (readAll source).toOption = some parts) : readAll source = .ok parts := by
  cases hread : readAll source with
  | ok value => simpa [hread, Except.toOption] using h
  | error fault => simp [hread, Except.toOption] at h

/-- The text of a part, with nodes looked up by name. What is missing is empty. -/
def render (lookup : String → Option Node) : TemplatePart → String
  | .plain text => text
  | .value name part filters =>
    let value := match lookup name, part with
      | some node, .label => node.label
      | some node, .attribute key => node.textAt key
      | none, _ => ""
    filters.foldl TextFilter.apply value

/-- The node that a part takes its text from. -/
def reference? : TemplatePart → Option String
  | .plain _ => none
  | .value node _ _ => some node

end TemplatePart

/-- A text with placeholders, and its parts. -/
structure Template where
  source : String
  parts : List TemplatePart
  reads : TemplatePart.readAll source = .ok parts
  deriving DecidableEq

namespace Template

instance : Repr Template := ⟨fun template n => reprPrec template.source n⟩

/-- Reads a template. -/
def read (source : String) : Except TemplateFault Template :=
  match h : TemplatePart.readAll source with
  | .ok parts => .ok ⟨source, parts, h⟩
  | .error fault => .error fault

/-- The template of a text that reads as given parts. -/
def ofParts (source : String) (parts : List TemplatePart)
    (h : (TemplatePart.readAll source).toOption = some parts) : Template :=
  ⟨source, parts, TemplatePart.readAll_of_toOption h⟩

/-- Templates with the same text are equal. -/
theorem ext_source {first second : Template} (h : first.source = second.source) :
    first = second := by
  cases first with
  | mk source parts reads =>
      cases second with
      | mk source' parts' reads' =>
          subst h
          have := Except.ok.inj (reads.symm.trans reads')
          subst this
          rfl

/-- Reading the text of a template gives the template. -/
theorem read_source (template : Template) : read template.source = .ok template := by
  unfold read
  split
  · exact congrArg Except.ok (ext_source rfl)
  · rename_i fault h
    exact absurd (h.symm.trans template.reads) (by simp)

/-- The names of the nodes that a template takes text from, in order. -/
def references (template : Template) : List String := template.parts.filterMap (·.reference?)

/-- The text of a template, with nodes looked up by name. -/
def render (lookup : String → Option Node) (template : Template) : String :=
  String.join (template.parts.map (·.render lookup))

end Template

end Transcode
