import Transcode.Transform.Match

/-!
# Applying a match

The fragment of a rule takes the place of the replaced nodes of a match. Edges that cross the border
of the match keep their ids, attributes and places in the sequence; their ends at replaced nodes go
over to nodes of the fragment. Matched edges at replaced nodes go away with them.

A step that fails leaves the graph as the steps before it have made it, so each step gives back a
graph as well as its outcome.
-/

namespace Transcode

/-- The nodes of a fragment by name, each with its id. -/
abbrev Fragment := List (String × String)

namespace Rule

/-- Adds the nodes of a fragment, and notes in the history that the rule made them. -/
def buildNodes (rule : Rule) (lookup : String → Option Node) :
    List TemplateNode → CodeGraph → Except GraphFault Fragment × CodeGraph
  | [], graph => (.ok [], graph)
  | template :: rest, graph =>
    match template.instantiate lookup with
    | none => (.error (.unbuildableNode rule.id template.name), graph)
    | some spec =>
      let (id, graph) := graph.addNode spec.kind spec.label spec.attributes
      let (others, graph) := rule.buildNodes lookup rest (graph.record id rule.id)
      (others.map ((template.name, id) :: ·), graph)

/-- The node that a name in an edge of a fragment stands for: one of the fragment or a bound one. -/
def endOf? (fragment : Fragment) (found : Match) (name : String) : Option String :=
  (fragment.lookup name).or (found.node? name)

/-- Adds the edges of a fragment. -/
def buildEdges (rule : Rule) (fragment : Fragment) (found : Match) :
    List PatternEdge → CodeGraph → Except GraphFault Unit × CodeGraph
  | [], graph => (.ok (), graph)
  | edge :: rest, graph =>
    match endOf? fragment found edge.source, endOf? fragment found edge.target with
    | some source, some target =>
      match graph.addEdge source target edge.kind ∅ with
      | (.ok _, graph) => rule.buildEdges fragment found rest graph
      | (.error fault, graph) => (.error fault, graph)
    | _, _ => (.error (.danglingLink rule.id edge.source edge.target), graph)

/-- What takes the place of each replaced node of a match: the node that the boundary gives for it,
or the root. -/
def replacements (rule : Rule) (fragment : Fragment) (root : String) (found : Match) :
    List (String × String) :=
  found.replaced.map fun binding =>
    (binding.node,
      ((rule.targetPattern.boundary.get? binding.name).bind fun name =>
        fragment.lookup name).getD root)

end Rule

/-- An edge with its ends at replaced nodes moved to what replaces them. -/
def Edge.moved (replacements : List (String × String)) (edge : Edge) : Edge :=
  { edge with
    source := (replacements.lookup edge.source).getD edge.source
    target := (replacements.lookup edge.target).getD edge.target }

/-- Whether an edge says that a node contains itself. -/
def Edge.isContainmentLoop (edge : Edge) : Bool :=
  edge.kind = .contains && edge.source = edge.target

namespace CodeGraph

/-- The edges at given nodes in the order in which they are met from node to node, outgoing ones
first, each once. -/
def edgesAt (graph : CodeGraph) (ids : List String) : List Edge :=
  (ids.flatMap fun id => graph.outgoing id ++ graph.incoming id).foldl (fun met edge =>
    if met.any (·.id = edge.id) then met else met ++ [edge]) []

/-- The edges that cross the border of a match. -/
def borderEdges (graph : CodeGraph) (found : Match) : List Edge :=
  (graph.edgesAt (found.replaced.map (·.node))).filter fun edge =>
    !found.edges.any (·.edge = edge.id)

/-- The graph without nodes that have been replaced, each forwarded to what replaced it. -/
def dropReplaced (graph : CodeGraph) (replacements : List (String × String)) : CodeGraph :=
  replacements.foldl (fun graph (old, new) => (graph.removeNode old).forward old new) graph

/-- Puts edges at their places in the sequence. -/
def insertEdges : List Edge → CodeGraph → Except GraphFault Unit × CodeGraph
  | [], graph => (.ok (), graph)
  | edge :: rest, graph =>
    match graph.insertEdge edge with
    | .ok graph => insertEdges rest graph
    | .error fault => (.error fault, graph)

/-- Puts replacements in the place of the replaced nodes of a match. -/
def replaceNodes (graph : CodeGraph) (found : Match) (replacements : List (String × String)) :
    Except GraphFault Unit × CodeGraph :=
  let border := graph.borderEdges found
  let cleared := border.foldl (fun graph edge => graph.removeEdge edge.id) graph
  insertEdges ((border.map (·.moved replacements)).filter (!·.isContainmentLoop))
    (cleared.dropReplaced replacements)

/-- Applies a match of a rule once its fragment has its nodes. -/
def placeFragment (graph : CodeGraph) (rule : Rule) (found : Match) (fragment : Fragment) :
    Except GraphFault (List String) × CodeGraph :=
  match rule.targetPattern.rootName?.bind fun name => fragment.lookup name with
  | none => (.error (.missingRoot rule.id), graph)
  | some root =>
    match rule.buildEdges fragment found rule.targetPattern.edges graph with
    | (.error fault, graph) => (.error fault, graph)
    | (.ok (), graph) =>
      let (outcome, graph) :=
        graph.replaceNodes found (rule.replacements fragment root found)
      (outcome.map fun () => fragment.map (·.2), graph)

/-- The node that a match binds to a name. -/
def boundNode? (graph : CodeGraph) (found : Match) (name : String) : Option Node :=
  (found.node? name).bind graph.node?

/-- Applies a match of a rule, and gives the ids of the nodes of the fragment. -/
def applyMatch (graph : CodeGraph) (rule : Rule) (found : Match) :
    Except GraphFault (List String) × CodeGraph :=
  if !found.bindings.all fun binding => graph.hasNode binding.node then
    (.error (.lostBinding rule.id), graph)
  else
    match rule.buildNodes (graph.boundNode? found) rule.targetPattern.nodes graph with
    | (.error fault, graph) => (.error fault, graph)
    | (.ok fragment, graph) => graph.placeFragment rule found fragment

/-- Applies the best match of the rule with an id. -/
def applyRule (graph : CodeGraph) (catalog : Catalog) (id : String) :
    Except Failure (List String) × CodeGraph :=
  match catalog.rule? id with
  | none => (.error (.unknownRule id), graph)
  | some rule =>
    match graph.findMatchesOf rule with
    | [] => (.error (.notApplicable id), graph)
    | best :: _ =>
      let (outcome, graph) := graph.applyMatch rule best
      (outcome.mapError .invalidGraph, graph)

end CodeGraph

end Transcode
