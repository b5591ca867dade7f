import Transcode.Graph.Outline
import Transcode.Output.Layout
import Transcode.Output.Unit

/-!
# Programs

The text that a graph is written as: its units in order, each with the members and loops it holds.

The recursion follows containment, so where containment has no cycle it is no deeper than there are
nodes. The functions that recurse take such a bound as their fuel.
-/

namespace Transcode.Output

open Text

/-! ### Scopes of bodies -/

/-- The scope of all bodies: functions that have left their class are called by their bare names. -/
def programScope (graph : CodeGraph) : Scope :=
  (graph.nodesOf .function).foldl (fun scope function =>
    match function.get? "module" with
    | some module => scope.moduleFunction module function.label
    | none => scope) {}

/-- The scope in which a member of an owner is known. A property that is backed by a field stands
for that field inside its class. -/
def withMember (owner : Node) (scope : Scope) (member : Node) : Scope :=
  let isStatic := hasModifier member "static"
  let qualified := (if isStatic then owner.label else "this") ++ "." ++ member.label
  match member.kind, member.get? "backingField" with
  | .accessor, some backing =>
    if isStatic then scope.member member.label qualified
    else (scope.member member.label ("this." ++ backing)).rename member.label backing
  | .accessor, none => scope.member member.label qualified
  | .field, _ => scope.member member.label qualified
  | .method, _ => scope.method member.label qualified
  | _, _ => scope

/-- The members of an owner that a body can name: a function knows only the static ones. -/
def knownMembers (graph : CodeGraph) (node owner : Node) : List Node :=
  (graph.children owner.id).filter fun member =>
    node.kind ≠ .function || hasModifier member "static"

/-- The loops that a node contains directly. -/
def loopsOf (graph : CodeGraph) (node : Node) : List Node :=
  (graph.children node.id).filter (·.kind.isLoop)

/-- The loops that a node contains, also inside other loops. -/
def nestedLoops (graph : CodeGraph) : Nat → Node → List Node
  | 0, _ => []
  | fuel + 1, node => (loopsOf graph node).flatMap fun loop => loop :: nestedLoops graph fuel loop

/-- The names that a construct itself declares: locals of its body and variables of a loop's
header. -/
def ownLocals (node : Node) : List String :=
  (lines (node.textAt "body")).flatMap declaredNames ++ (node.get? "var").toList ++
    (if node.kind.isLoop then (declaredLocal (node.textAt "init" ++ ";")).toList else [])

/-- The scope of a construct's body. -/
def bodyScope (graph : CodeGraph) (node : Node) (owner : Option Node) : Scope :=
  let outer := match owner with
    | some owner => (knownMembers graph node owner).foldl (withMember owner) (programScope graph)
    | none => programScope graph
  (outer.hideAll ((parameters (node.textAt "params")).map (·.name))).hideAll
    ((node :: nestedLoops graph graph.nodeCount node).flatMap ownLocals)

/-! ### Bodies -/

/-- The lines of a loop, and the slot it is to be put at. -/
structure PlacedLoop where
  slot : String
  lines : List Line

/-- The first loop for a slot, and the others. -/
def takeSlot (slot : String) : List PlacedLoop → Option (PlacedLoop × List PlacedLoop)
  | [] => none
  | loop :: rest =>
    if loop.slot = slot then some (loop, rest)
    else (takeSlot slot rest).map fun (found, others) => (found, loop :: others)

/-- How deep a line of a body is indented: a level for two bytes of blanks. -/
def lineLevel (line : List Char) : Nat :=
  (String.ofList (line.takeWhile isBlank)).utf8ByteSize / Line.indent.length

/-- The slot that a line stands for, if it is a loop's. -/
def slotOf? (line : List Char) : Option String :=
  (stripStart? loopMark.toList (trimStart line)).map fun slot => String.ofList (trimBoth slot)

/-- The lines of a body with loops at their slots. Loops with one slot are put in order, and those
that are left over come at the end. -/
def placeLoops (scope : Scope) : List String → List PlacedLoop → List Line
  | [], loops => loops.flatMap (·.lines)
  | line :: rest, loops =>
    let cs := line.toList
    if isBlankText line then placeLoops scope rest loops
    else match slotOf? cs with
      | none =>
        .code (lineLevel cs) (scope.statement (String.ofList (trimStart cs)))
          :: placeLoops scope rest loops
      | some slot =>
        match takeSlot slot loops with
        | some (loop, others) =>
          loop.lines.map (.shift (lineLevel cs)) ++ placeLoops scope rest others
        | none => placeLoops scope rest loops

/-- The lines of a construct's body. -/
def bodyLines (graph : CodeGraph) (scope : Scope) : Nat → Node → List Line
  | 0, _ => []
  | fuel + 1, node =>
    placeLoops scope (lines (node.textAt "body")) ((loopsOf graph node).map fun loop =>
      ⟨loop.textAt "slot", block (loopFrame loop scope) (bodyLines graph scope fuel loop)⟩)

/-- A callable with its body after its header. -/
def bodyBlock (graph : CodeGraph) (header : String) (node : Node) (owner : Option Node) :
    List Line :=
  block ⟨header ++ " \x7b", "\x7d"⟩
    (bodyLines graph (bodyScope graph node owner) (graph.nodeCount + 1) node)

/-! ### Members -/

/-- The constructs written inside a construct: fields first, then the others, each in order of
creation. -/
def hostedMembers (graph : CodeGraph) (node : Node) : List Node :=
  let hosted := (graph.children node.id).filter fun child => hosts node.kind child.kind
  hosted.filter (·.kind = .field) ++ hosted.filter (·.kind ≠ .field)

/-- A callable of a class; an abstract one has no body. -/
def callableLines (graph : CodeGraph) (owner node : Node) : List Line :=
  let header := memberPrefix node ++ callableSignature node
  if hasModifier node "abstract" then [.code 0 (header ++ ";")]
  else bodyBlock graph header node (some owner)

/-- The supertypes of a class: what it extends and what it implements. -/
structure Heritage where
  base : Option String := none
  interfaces : List String := []
  deriving DecidableEq, Repr

/-- The name of a type without qualifiers and arguments. -/
def bareName (type : String) : String :=
  String.ofList (trimBoth (afterLast (· = '.') (cutAt (· = '<') type.toList).1))

/-- The supertypes of a class. It extends the first of its bases that is no interface now, and
implements all others. -/
def heritage (graph : CodeGraph) (node : Node) : Heritage :=
  let interfaces := ((graph.successors .extending node.id).filter (·.kind = .interfaceType)).map
    (·.label)
  let extended := (splitTopLevel (node.textAt "extends") ',').foldl (fun heritage type =>
    if interfaces.contains (bareName type) || heritage.base.isSome then
      { heritage with interfaces := heritage.interfaces ++ [typeName type] }
    else { heritage with base := some (typeName type) }) ({} : Heritage)
  { extended with interfaces := extended.interfaces ++ supertypes (node.textAt "implements") }

/-- The header of a class and what closes it; a class inside another is a static member of it. -/
def classFrame (graph : CodeGraph) (nested : Bool) (node : Node) : Frame :=
  let heritage := heritage graph node
  let signature := classSignature node heritage.base heritage.interfaces ++ " \x7b"
  if nested then ⟨"static " ++ node.label ++ " = " ++ signature, "\x7d;"⟩
  else
    ⟨exportPrefix node ++ (if hasModifier node "abstract" then "abstract " else "") ++ signature,
      "\x7d"⟩

/-- The lines of members, with an empty line before each member that is no field, except the
first. -/
def spacedMembers (render : Node → List Line) : List Node → List Line
  | [] => []
  | first :: rest =>
    render first ++ rest.flatMap fun member =>
      if member.kind = .field then render member else .empty :: render member

/-- The lines of a class. -/
def classLines (graph : CodeGraph) : Nat → Bool → Node → List Line
  | 0, _, _ => []
  | fuel + 1, nested, node =>
    block (classFrame graph nested node)
      (spacedMembers (fun member =>
        match member.kind with
        | .field => [.code 0 (classField member (bodyScope graph member (some node)))]
        | .classType => classLines graph fuel true member
        | _ => callableLines graph node member) (hostedMembers graph node))

/-- The members of an interface, with one property for all accessors of one name. -/
def interfaceMembers (named : List String) : List Node → List String
  | [] => []
  | member :: rest =>
    match member.kind with
    | .field => interfaceField member :: interfaceMembers named rest
    | .accessor =>
      if named.contains member.label then interfaceMembers named rest
      else interfaceProperty member :: interfaceMembers (member.label :: named) rest
    | _ => (callableSignature member ++ ";") :: interfaceMembers named rest

/-- The lines of an interface. -/
def interfaceLines (graph : CodeGraph) (node : Node) : List Line :=
  let bases := supertypes (node.textAt "extends") ++ supertypes (node.textAt "implements")
  block ⟨exportPrefix node ++ interfaceSignature node bases ++ " \x7b", "\x7d"⟩
    ((interfaceMembers [] (hostedMembers graph node)).map (.code 0))

/-! ### Units -/

/-- The class that a function has left, if it still exists. -/
def formerOwner? (graph : CodeGraph) (node : Node) : Option Node := do
  let module ← node.get? "module"
  (graph.nodesOf .classType).find? (·.label = module)

/-- The lines of a unit. -/
def unitLines (graph : CodeGraph) (node : Node) : List Line :=
  match node.kind with
  | .classType => classLines graph (graph.nodeCount + 1) false node
  | .interfaceType => interfaceLines graph node
  | .field => [.code 0 (moduleVariable node (programScope graph))]
  | .loop | .arrayMethod =>
    let scope := bodyScope graph node none
    block (loopFrame node scope) (bodyLines graph scope (graph.nodeCount + 1) node)
  | _ =>
    bodyBlock graph (exportPrefix node ++ "function " ++ callableSignature node) node
      (formerOwner? graph node)

/-- The text of units, with an empty line between them and a line break at the end. -/
def textOfUnits : List String → String
  | [] => ""
  | units => "\n\n".intercalate units ++ "\n"

/-- The text that a graph is written as. -/
def generate (graph : CodeGraph) : Except Failure String :=
  match graph.containmentCulprit? with
  | some node => .error (.cyclic node)
  | none => (orderedUnits graph).map fun ordered =>
    textOfUnits (ordered.map fun node => textOfLines (unitLines graph node))

end Transcode.Output
