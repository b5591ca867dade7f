import Transcode.Dict
import Transcode.Source.Position

/-!
# Syntax trees

A node of a syntax tree has a kind, perhaps a name, its place, texts by name, and children. Empty
texts are not kept by `SyntaxTree.put`.
-/

namespace Transcode

/-- The kinds of syntax nodes. -/
inductive SyntaxKind where
  | program
  | package
  | importDecl
  | classDecl
  | interfaceDecl
  | method
  | constructor
  | field
  | parameter
  | block
  | branch
  | forLoop
  | whileLoop
  | doLoop
  | returnStmt
  | statement
  | call
  | fault
  deriving DecidableEq, Repr, Inhabited

namespace SyntaxKind

/-- Every kind with its name in data and its title in messages. -/
def names : List (SyntaxKind × String × String) :=
  [(.program, "program", "Program"), (.package, "package", "Package"),
   (.importDecl, "import", "Import"), (.classDecl, "class", "Class"),
   (.interfaceDecl, "interface", "Interface"), (.method, "method", "Method"),
   (.constructor, "constructor", "Constructor"), (.field, "field", "Field"),
   (.parameter, "parameter", "Parameter"), (.block, "block", "Block"), (.branch, "if", "If"),
   (.forLoop, "for_loop", "ForLoop"), (.whileLoop, "while_loop", "WhileLoop"),
   (.doLoop, "do_loop", "DoLoop"), (.returnStmt, "return", "Return"),
   (.statement, "statement", "Statement"), (.call, "call", "Call"), (.fault, "error", "Error")]

/-- All kinds. -/
def all : List SyntaxKind := names.map (·.1)

/-- The name of a kind in data. -/
def name (kind : SyntaxKind) : String := ((names.lookup kind).map (·.1)).getD ""

/-- The title of a kind in messages. -/
def title (kind : SyntaxKind) : String := ((names.lookup kind).map (·.2)).getD ""

/-- Whether a kind is a loop. -/
def isLoop : SyntaxKind → Bool
  | .forLoop | .whileLoop | .doLoop => true
  | _ => false

end SyntaxKind

/-- A syntax tree. -/
structure SyntaxTree where
  kind : SyntaxKind
  name : Option String := none
  children : List SyntaxTree := []
  range : SourceRange
  attributes : Attributes := ∅
  deriving Inhabited

namespace SyntaxTree

/-- The tree with a text put at a name, unless the text is empty. -/
def put (tree : SyntaxTree) (name text : String) : SyntaxTree :=
  { tree with attributes := tree.attributes.insertNonempty name text }

/-- The text at a name. -/
def get? (tree : SyntaxTree) (name : String) : Option String := tree.attributes.get? name

/-- The text at a name, empty if there is none. -/
def textAt (tree : SyntaxTree) (name : String) : String := tree.attributes.textAt name

/-- The children of a kind, in order. -/
def childrenOf (tree : SyntaxTree) (kind : SyntaxKind) : List SyntaxTree :=
  tree.children.filter (·.kind = kind)

mutual

/-- The number of nodes. -/
def size : SyntaxTree → Nat
  | ⟨_, _, children, _, _⟩ => 1 + sizes children

/-- The number of nodes of several trees. -/
def sizes : List SyntaxTree → Nat
  | [] => 0
  | tree :: rest => size tree + sizes rest

end

mutual

/-- The number of nodes of a kind. -/
def count (kind : SyntaxKind) : SyntaxTree → Nat
  | ⟨own, _, children, _, _⟩ => (if own = kind then 1 else 0) + counts kind children

/-- The number of nodes of a kind in several trees. -/
def counts (kind : SyntaxKind) : List SyntaxTree → Nat
  | [] => 0
  | tree :: rest => count kind tree + counts kind rest

end

mutual

/-- The names of all call nodes, a node before its children. -/
def calledNames : SyntaxTree → List String
  | ⟨kind, name, children, _, _⟩ =>
    (if kind = .call then name.toList else []) ++ calledNamesOf children

/-- The names of all call nodes of several trees. -/
def calledNamesOf : List SyntaxTree → List String
  | [] => []
  | tree :: rest => calledNames tree ++ calledNamesOf rest

end

mutual

/-- The number of nodes on the longest path from the root. -/
def height : SyntaxTree → Nat
  | ⟨_, _, children, _, _⟩ => heights children + 1

/-- The height of the highest tree. -/
def heights : List SyntaxTree → Nat
  | [] => 0
  | tree :: rest => max (height tree) (heights rest)

end

/-- The range that covers the node's own and those of its children. -/
def coveredRange (tree : SyntaxTree) : SourceRange :=
  tree.children.foldl (fun range child => range.cover child.range) tree.range

end SyntaxTree

/-- A tree together with the problems found while reading it. -/
structure ParsedSource where
  tree : SyntaxTree
  diagnostics : List Diagnostic

end Transcode
