import Transcode.Graph.Basic
import Transcode.Output.Scope

/-!
# Signatures

How the declarations of types, members, variables and loops are written, without the lines inside
them.
-/

namespace Transcode.Output

open Text

/-- Whether a node has a modifier. -/
def hasModifier (node : Node) (modifier : String) : Bool :=
  hasWord (node.textAt "modifiers") modifier

/-- The words before a class member: its visibility, and what else of its modifiers is kept. -/
def memberWords (node : Node) : List String :=
  (["private", "protected", "public"].find? (hasModifier node)).toList
    ++ (if hasModifier node "static" then ["static"] else [])
    ++ (if node.kind.isCallable && hasModifier node "abstract" then ["abstract"] else [])
    ++ (if node.kind = .field && hasModifier node "final" then ["readonly"] else [])

/-- The words before a class member, each with a blank. -/
def memberPrefix (node : Node) : String := String.join ((memberWords node).map (· ++ " "))

/-- Whether a declaration is visible outside its module. -/
def isExported (node : Node) : Bool := hasModifier node "public"

/-- What stands before a declaration that may be exported. -/
def exportPrefix (node : Node) : String := if isExported node then "export " else ""

/-- A list with a word before it, or nothing for the empty list. -/
def clause (word : String) (items : List String) : String :=
  if items.isEmpty then "" else " " ++ word ++ " " ++ ", ".intercalate items

/-- A type's name with its parameters. -/
def declaredType (node : Node) : String := node.label ++ typeParameters (node.textAt "typeParams")

/-- A class and its supertypes. -/
def classSignature (node : Node) (base : Option String) (interfaces : List String) : String :=
  "class " ++ declaredType node ++ clause "extends" base.toList ++ clause "implements" interfaces

/-- An interface and its supertypes. -/
def interfaceSignature (node : Node) (bases : List String) : String :=
  "interface " ++ declaredType node ++ clause "extends" bases

/-- The initial value of a variable, if it has one. -/
def initializer (node : Node) (scope : Scope) : String :=
  let init := node.textAt "init"
  if isBlankText init then "" else " = " ++ scope.expression init

/-- A name with its type. -/
def typedName (node : Node) : String := node.label ++ ": " ++ typeName (node.textAt "type")

/-- A field of a class. -/
def classField (node : Node) (scope : Scope) : String :=
  memberPrefix node ++ typedName node ++ initializer node scope ++ ";"

/-- A field of an interface, which is a constant. -/
def interfaceField (node : Node) : String := "readonly " ++ typedName node ++ ";"

/-- A field outside all types. -/
def moduleVariable (node : Node) (scope : Scope) : String :=
  exportPrefix node ++ (if hasModifier node "final" then "const " else "let ") ++ typedName node ++
    initializer node scope ++ ";"

/-- The type of a callable's result, if it has one. -/
def returnAnnotation (node : Node) : String :=
  let type := node.textAt "returnType"
  if isBlankText type then "" else ": " ++ typeName type

/-- Whether an accessor sets its property. -/
def isSetter (node : Node) : Bool := node.get? "accessorKind" = some "set"

/-- A callable, without modifiers and body. -/
def callableSignature (node : Node) : String :=
  let parameters := "(" ++ parameterList (node.textAt "params") ++ ")"
  match node.kind with
  | .constructor => "constructor" ++ parameters
  | .accessor =>
    if isSetter node then "set " ++ node.label ++ parameters
    else "get " ++ node.label ++ "()" ++ returnAnnotation node
  | _ => declaredType node ++ parameters ++ returnAnnotation node

/-- The type of the property that an accessor belongs to. -/
def propertyType (node : Node) : String :=
  if isSetter node then
    match parameters (node.textAt "params") with
    | parameter :: _ => typeName parameter.type
    | [] => "any"
  else typeName (node.textAt "returnType")

/-- The property of an interface that an accessor stands for. -/
def interfaceProperty (node : Node) : String := node.label ++ ": " ++ propertyType node ++ ";"

/-- The lines before and after the body of a loop. -/
structure Frame where
  opening : String
  closing : String
  deriving DecidableEq, Repr

/-- The start of a counting loop, without a semicolon at its end. -/
def loopStart (node : Node) (scope : Scope) : String :=
  let init := node.textAt "init"
  if isBlankText init then ""
  else String.ofList
    ((scope.statement (init ++ ";")).toList.reverse.dropWhile (· = ';')).reverse

/-- The frame of a loop by its form. -/
def plainLoopFrame (node : Node) (scope : Scope) : Frame :=
  let part (key : String) := scope.expression (node.textAt key)
  match node.textAt "loop" with
  | "foreach" =>
    ⟨"for (const " ++ node.textAt "var" ++ " of " ++ part "iterable" ++ ") \x7b", "\x7d"⟩
  | "while" => ⟨"while (" ++ part "condition" ++ ") \x7b", "\x7d"⟩
  | "do" => ⟨"do \x7b", "\x7d while (" ++ part "condition" ++ ");"⟩
  | _ =>
    ⟨"for (" ++ loopStart node scope ++ "; " ++ part "condition" ++ "; " ++ part "update" ++
        ") \x7b",
      "\x7d"⟩

/-- The frame of a call that takes the body of a loop as a function. -/
def arrayMethodFrame (node : Node) (scope : Scope) : Frame :=
  ⟨scope.expression (node.textAt "iterable") ++ "." ++ (node.get? "method").getD "forEach" ++
      "((" ++ node.textAt "var" ++ ") => \x7b",
    "\x7d);"⟩

/-- The frame of a loop with its label, or of what stands for a loop. -/
def loopFrame (node : Node) (scope : Scope) : Frame :=
  if node.kind = .arrayMethod then arrayMethodFrame node scope
  else
    let frame := plainLoopFrame node scope
    match node.get? "label" with
    | some label => { frame with opening := label ++ ": " ++ frame.opening }
    | none => frame

end Transcode.Output
