import Transcode.Rule.Basic

/-!
# Embeddings of patterns

Where a rule's source pattern occurs in a graph. The nodes of the pattern are bound one after the
other, in order of declaration, each to a node of its own; a node that an edge ties to one bound
before is looked for among the neighbours of that one only. Of many embeddings the first ten
thousand are found.

Matches are ranked: higher confidence first, then earlier rules, then earlier nodes.
-/

namespace Transcode

/-- A node of a pattern and the node of a graph bound to it. -/
structure Binding where
  name : String
  node : String
  seq : Nat
  replaced : Bool
  deriving DecidableEq, Repr

/-- The edge of a graph that stands for an edge of a pattern. -/
structure MatchedEdge where
  edge : String
  source : String
  target : String
  deriving DecidableEq, Repr

/-- An embedding of a rule's source pattern: bindings in order of the pattern's nodes, edges in
order of its edges. -/
structure Match where
  rule : String
  ruleIndex : Nat
  confidence : Nat
  bindings : List Binding
  edges : List MatchedEdge
  /-- The sequence number of the first replaced node. -/
  rootSeq : Nat
  deriving DecidableEq, Repr

namespace Match

/-- The node bound to a name. -/
def node? (found : Match) (name : String) : Option String :=
  (found.bindings.find? (·.name = name)).map (·.node)

/-- The bindings whose nodes are replaced. -/
def replaced (found : Match) : List Binding := found.bindings.filter (·.replaced)

/-- Which of two matches goes first. -/
def compareRank (first second : Match) : Ordering :=
  (compare second.confidence first.confidence).then <|
  (compare first.ruleIndex second.ruleIndex).then <|
  (compare first.rootSeq second.rootSeq).then <|
  compare (first.bindings.map (·.seq)) (second.bindings.map (·.seq))

/-- Matches in order of rank. -/
def ranked (found : List Match) : List Match :=
  found.mergeSort fun first second => (compareRank first second).isLE

end Match

/-- How many embeddings of one rule are looked for. -/
def embeddingLimit : Nat := 10000

/-- An edge of a pattern by the places of its ends. -/
structure PlacedEdge where
  source : Nat
  target : Nat
  kind : EdgeKind
  deriving DecidableEq, Repr

namespace SourcePattern

/-- The edges of a pattern by the places of their ends. -/
def placedEdges (pattern : SourcePattern) : List PlacedEdge :=
  pattern.edges.filterMap fun edge => do
    return ⟨← pattern.position? edge.source, ← pattern.position? edge.target, edge.kind⟩

/-- The node bound to a name, by the places of names in the pattern. -/
def lookup (pattern : SourcePattern) (bound : List Node) (name : String) : Option Node := do
  bound[← pattern.position? name]?

/-- Whether the conditions of a pattern hold of bound nodes. -/
def constraintsHold (pattern : SourcePattern) (bound : List Node) : Bool :=
  pattern.constraints.all (·.holds (pattern.lookup bound))

end SourcePattern

namespace CodeGraph

/-- Whether a node can be bound to a node of a pattern, edges apart. -/
def accepts (graph : CodeGraph) (pattern : PatternNode) (node : Node) : Bool :=
  pattern.filter.accepts node
    && pattern.children.all fun test => test.accepts (graph.successors test.edge node.id)

/-- Whether an edge of a kind leads from one node to another. -/
def connects (graph : CodeGraph) (kind : EdgeKind) (source target : Node) : Bool :=
  (graph.outgoingOf kind source.id).any (·.target = target.id)

end CodeGraph

/-- Nodes in order of their sequence, each once. -/
def distinctBySeq (nodes : List Node) : List Node :=
  (nodes.mergeSort (·.seq ≤ ·.seq)).foldr (fun node kept =>
    if (kept.head?.map (·.id)) = some node.id then kept else node :: kept) []

/-- A search for a pattern in a graph. -/
structure Search where
  graph : CodeGraph
  pattern : SourcePattern
  edges : List PlacedEdge

namespace Search

/-- The neighbours that an edge allows for the next place, if it ties that place to one bound
before. -/
def anchored? (search : Search) (bound : List Node) (edge : PlacedEdge) : Option (List Node) :=
  let place := bound.length
  if edge.target = place && edge.source < place then
    bound[edge.source]?.map fun node => search.graph.successors edge.kind node.id
  else if edge.source = place && edge.target < place then
    bound[edge.target]?.map fun node => search.graph.predecessors edge.kind node.id
  else none

/-- The nodes to try at the next place, of those that its pattern node accepts. -/
def options (search : Search) (bound candidates : List Node) : List Node :=
  match search.edges.findSome? (search.anchored? bound) with
  | some neighbours =>
    distinctBySeq (neighbours.filter fun node => candidates.any (·.id = node.id))
  | none => candidates

/-- Whether the edges of the last place bound are there. -/
def edgesHold (search : Search) (bound : List Node) : Bool :=
  search.edges.all fun edge =>
    max edge.source edge.target + 1 ≠ bound.length ||
      match bound[edge.source]?, bound[edge.target]? with
      | some source, some target => search.graph.connects edge.kind source target
      | _, _ => false

/-- The embeddings found so far and those that extend bound nodes by one of the candidates for each
place left, in order, as long as the limit is not reached. -/
def extend (search : Search) : List (List Node) → List Node → Array (List Node) →
    Array (List Node)
  | [], bound, found =>
    if found.size < embeddingLimit && search.pattern.constraintsHold bound then found.push bound
    else found
  | candidates :: rest, bound, found =>
    (search.options bound candidates).foldl (fun found node =>
      if found.size < embeddingLimit && !bound.any (·.id = node.id)
          && search.edgesHold (bound ++ [node]) then
        search.extend rest (bound ++ [node]) found
      else found) found

/-- The nodes that each place accepts. -/
def candidates (search : Search) : List (List Node) :=
  search.pattern.nodes.map fun node => search.graph.nodes.filter (search.graph.accepts node)

/-- All embeddings, as the nodes bound to the places. -/
def embeddings (search : Search) : List (List Node) :=
  if search.candidates.any (·.isEmpty) then []
  else (search.extend search.candidates [] #[]).toList

/-- An edge for each edge of the pattern, none of those used before: each time the first one. -/
def assignEdges (search : Search) (bound : List Node) :
    List String → List PlacedEdge → Option (List MatchedEdge)
  | _, [] => some []
  | used, edge :: rest => do
    let source ← bound[edge.source]?
    let target ← bound[edge.target]?
    let chosen ← (search.graph.outgoingOf edge.kind source.id).find? fun candidate =>
      candidate.target = target.id && !used.contains candidate.id
    let others ← search.assignEdges bound (chosen.id :: used) rest
    return ⟨chosen.id, source.id, target.id⟩ :: others

end Search

namespace Rule

/-- The bindings of an embedding. -/
def bindings (rule : Rule) (bound : List Node) : List Binding :=
  (rule.sourcePattern.nodes.zip bound).map fun (pattern, node) =>
    ⟨pattern.name, node.id, node.seq, pattern.role = .replaced⟩

/-- The match of an embedding, if each edge of the pattern gets an edge of its own. -/
def matchOf? (rule : Rule) (index : Nat) (search : Search) (bound : List Node) : Option Match :=
  (search.assignEdges bound [] search.edges).map fun edges =>
    let bindings := rule.bindings bound
    { rule := rule.id
      ruleIndex := index
      confidence := rule.confidence
      bindings
      edges
      rootSeq := ((bindings.find? (·.replaced)).map (·.seq)).getD 0 }

/-- The matches of a rule at a place of a list, in the order in which they are found. -/
def matchesAt (rule : Rule) (index : Nat) (graph : CodeGraph) : List Match :=
  let search : Search := ⟨graph, rule.sourcePattern, rule.sourcePattern.placedEdges⟩
  search.embeddings.filterMap (rule.matchOf? index search)

end Rule

namespace CodeGraph

/-- The matches of a list of rules, by rank. -/
def findMatches (graph : CodeGraph) (rules : List Rule) : List Match :=
  Match.ranked (rules.zipIdx.flatMap fun (rule, index) => rule.matchesAt index graph)

/-- The matches of one rule, by rank. -/
def findMatchesOf (graph : CodeGraph) (rule : Rule) : List Match :=
  Match.ranked (rule.matchesAt 0 graph)

/-- The node of a binding, if it is there, has not been consumed and is still accepted. -/
def stillBound? (graph : CodeGraph) (consumed : List String) (pattern : PatternNode)
    (binding : Binding) : Option Node :=
  if consumed.contains binding.node then none
  else (graph.node? binding.node).filter (graph.accepts pattern)

/-- Whether a matched edge still connects the nodes that it did. -/
def stillConnects (graph : CodeGraph) (edge : MatchedEdge) : Bool :=
  (graph.edge? edge.edge).any fun current =>
    current.source = edge.source && current.target = edge.target

/-- Whether a match of a rule still is one, and binds no consumed node. -/
def stillValid (graph : CodeGraph) (rule : Rule) (found : Match) (consumed : List String) : Bool :=
  let pattern := rule.sourcePattern
  match (pattern.nodes.zip found.bindings).mapM fun (node, binding) =>
      graph.stillBound? consumed node binding with
  | some bound => found.edges.all graph.stillConnects && pattern.constraintsHold bound
  | none => false

end CodeGraph

end Transcode
