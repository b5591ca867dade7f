import Transcode.Graph.Kind
import Transcode.Source.Parser

/-!
# Outlines

An outline is the part of a syntax tree that becomes nodes of a graph: types, methods, constructors,
fields and loops, each with its label and attributes and with the outlines it contains.

The statements of a body are encoded as lines of text, two blanks of indentation a level. A loop
leaves a line with its slot, a number that counts the loops of one body, and becomes an outline with
that slot and a body of its own.
-/

namespace Transcode

/-- A construct with those it contains. `callees` are the names called in its body, if it has
one. -/
structure Outline where
  kind : NodeKind
  label : String
  attributes : Attributes
  callees : Option (List String) := none
  children : List Outline := []
  deriving Inhabited

/-- What marks a line that stands for a loop. -/
def loopMark : String := "@loop:"

/-- The attributes that a declaration's node takes over from its tree. -/
def declarationKeys : List String :=
  ["modifiers", "annotations", "typeParams", "extends", "implements", "returnType", "throws",
   "type", "init"]

/-- The attributes that a loop's node takes over from its tree. -/
def loopKeys : List String :=
  ["init", "condition", "update", "varType", "var", "iterable", "label"]

/-- The entries with the given names, and the location of the tree. -/
def takeOver (keys : List String) (attributes : Attributes) (range : SourceRange) : Attributes :=
  let kept := keys.foldl (fun kept key =>
    match attributes.get? key with
    | some value => kept.insert key value
    | none => kept) (∅ : Attributes)
  kept.insert "location" range.location

/-- The encoding of statements: lines, the loops among them, and the next free slot. -/
structure Encoded where
  lines : List String
  loops : List Outline
  slot : Nat

namespace Encoded

/-- No statements. -/
def none (slot : Nat) : Encoded := ⟨[], [], slot⟩

/-- Text around encoded statements. -/
def within (before after : List String) (encoded : Encoded) : Encoded :=
  { encoded with lines := before ++ encoded.lines ++ after }

/-- The encoding followed by one of further statements, which has the slots after it. -/
def append (encoded : Encoded) (further : Nat → Encoded) : Encoded :=
  let others := further encoded.slot
  ⟨encoded.lines ++ others.lines, encoded.loops ++ others.loops, others.slot⟩

/-- The lines as one text. -/
def text (encoded : Encoded) : String := "\n".intercalate encoded.lines

end Encoded

/-- The indentation of a level. -/
def bodyPad (depth : Nat) : String := String.ofList (List.replicate (2 * depth) ' ')

/-- The word that a loop is labelled with. -/
def loopWord (kind : SyntaxKind) (attributes : Attributes) : String :=
  match kind with
  | .whileLoop => "while"
  | .doLoop => "do"
  | _ => (attributes.get? "loop").getD "for"

/-- A label with its colon, empty if there is none. -/
def labelText (attributes : Attributes) : String :=
  match attributes.get? "label" with
  | some label => label ++ ": "
  | none => ""

/-- The node of a loop in a slot, with the encoding of what it repeats. -/
def loopOutline (kind : SyntaxKind) (range : SourceRange) (attributes : Attributes) (slot : Nat)
    (body : Encoded) : Outline :=
  let word := loopWord kind attributes
  let own := (((takeOver loopKeys attributes range).insert "loop" word).insert "slot"
    (toString slot)).insert "body" body.text
  { kind := .loop, label := word, attributes := own, children := body.loops }

mutual

/-- Encodes a statement at a depth; a block that is a branch stands without braces of its own. -/
def encodeStatement (isBranch : Bool) (depth slot : Nat) : SyntaxTree → Encoded
  | ⟨kind, _, children, range, attributes⟩ =>
    let pad := bodyPad depth
    match kind with
    | .statement | .returnStmt => ⟨[pad ++ attributes.textAt "text"], [], slot⟩
    | .block =>
      if isBranch then encodeStatements depth slot children
      else (encodeStatements (depth + 1) slot children).within
        [pad ++ labelText attributes ++ "\x7b"] [pad ++ "\x7d"]
    | .branch =>
      let opening :=
        pad ++ labelText attributes ++ "if (" ++ attributes.textAt "condition" ++ ") \x7b"
      let consequence :=
        ((encodeBranch 0 (depth + 1) slot children).getD (.none slot)).within [opening] []
      let both := consequence.append fun slot =>
        match encodeBranch 1 (depth + 1) slot children with
        | some alternative => alternative.within [pad ++ "\x7d else \x7b"] []
        | none => .none slot
      both.within [] [pad ++ "\x7d"]
    | .forLoop | .whileLoop | .doLoop =>
      let body := (encodeBranch 0 0 0 children).getD (.none 0)
      ⟨[pad ++ loopMark ++ toString slot], [loopOutline kind range attributes slot body], slot + 1⟩
    | _ => .none slot

/-- Encodes statements in order. -/
def encodeStatements (depth slot : Nat) : List SyntaxTree → Encoded
  | [] => .none slot
  | tree :: rest => (encodeStatement false depth slot tree).append fun slot =>
      encodeStatements depth slot rest

/-- Encodes the child with a given number among those that are no calls. -/
def encodeBranch (number depth slot : Nat) : List SyntaxTree → Option Encoded
  | [] => none
  | tree :: rest =>
    if tree.kind = .call then encodeBranch number depth slot rest
    else match number with
      | 0 => some (encodeStatement true depth slot tree)
      | number + 1 => encodeBranch number depth slot rest

end

namespace Outline

/-- The name of a declaration, which must not be empty. -/
def declaredName (tree : SyntaxTree) : Except GraphFault String :=
  match tree.name with
  | some name =>
    if name.isEmpty then .error (.namelessDeclaration tree.kind tree.range.location) else .ok name
  | none => .error (.namelessDeclaration tree.kind tree.range.location)

/-- A field. -/
def ofField (tree : SyntaxTree) : Except GraphFault Outline := do
  let name ← declaredName tree
  return { kind := .field, label := name
           attributes := takeOver declarationKeys tree.attributes tree.range }

/-- A parameter as `type name`. -/
def parameterText (tree : SyntaxTree) : Option String :=
  tree.name.map fun name => ((tree.get? "type").getD "Object") ++ " " ++ name

/-- A method or constructor with the loops in its body. -/
def ofCallable (kind : NodeKind) (tree : SyntaxTree) : Except GraphFault Outline := do
  let name ← declaredName tree
  let parameters := (tree.childrenOf .parameter).filterMap parameterText
  let own := takeOver declarationKeys tree.attributes tree.range
  let own := if parameters.isEmpty then own else own.insert "params" (", ".intercalate parameters)
  match (tree.childrenOf .block).head? with
  | none => return { kind, label := name, attributes := own }
  | some body =>
    let encoded := encodeStatements 0 0 body.children
    return { kind, label := name, attributes := own.insert "body" encoded.text
             callees := some body.calledNames, children := encoded.loops }

mutual

/-- The outlines of a declaration; what declares nothing has none. -/
def ofDeclaration : SyntaxTree → Except GraphFault (List Outline)
  | ⟨kind, name, children, range, attributes⟩ =>
    let tree : SyntaxTree := ⟨kind, name, children, range, attributes⟩
    match kind with
    | .classDecl | .interfaceDecl => do
      let label ← declaredName tree
      let members ← ofDeclarations children
      let nodeKind := if kind = .interfaceDecl then NodeKind.interfaceType else .classType
      return [{ kind := nodeKind, label, children := members
                attributes := takeOver declarationKeys attributes range }]
    | .method => return [← ofCallable .method tree]
    | .constructor => return [← ofCallable .constructor tree]
    | .field => return [← ofField tree]
    | .block => if (attributes.get? "declarators").isSome then children.mapM ofField else return []
    | _ => return []

/-- The outlines of several declarations. -/
def ofDeclarations : List SyntaxTree → Except GraphFault (List Outline)
  | [] => return []
  | tree :: rest => do
    let outlines ← ofDeclaration tree
    let others ← ofDeclarations rest
    return outlines ++ others

end

/-- The outlines of a syntax tree. -/
def ofTree (tree : SyntaxTree) : Except GraphFault (List Outline) :=
  if tree.kind = .program then ofDeclarations tree.children else ofDeclaration tree

end Outline

end Transcode
