import Transcode.Graph.Basic

/-!
# Graphs with indexes

A graph as it is stored: its nodes and edges stand at numbered places, of which vacant ones are
taken again, and edges know the places of their ends. An index for nodes and one for edges tell the
place of each id, and whatever is asked or changed by id goes through them. The order of creation is
left to the sequence numbers.
-/

namespace Transcode

/-! ### Tables -/

/-- Things at places, some of them vacant, with an index of their places by id. -/
structure Table (α : Type) where
  slots : List (Option α) := []
  index : Dict Nat := ∅

namespace Table

variable {α : Type}

/-- What stands at a place. -/
def at? (table : Table α) (place : Nat) : Option α := table.slots[place]?.join

/-- What stands at the place that the index tells for an id. -/
def find? (table : Table α) (id : String) : Option α := (table.index.get? id).bind table.at?

/-- What stands in a table, in the order of the places. -/
def items (table : Table α) : List α := table.slots.filterMap id

/-- The first vacant place, and the places with something put there. -/
def fill (item : α) : List (Option α) → Nat × List (Option α)
  | [] => (0, [some item])
  | none :: rest => (0, some item :: rest)
  | some other :: rest =>
    let (place, rest) := fill item rest
    (place + 1, some other :: rest)

/-- Puts something at a vacant place and into the index. -/
def insert (table : Table α) (id : String) (item : α) : Table α :=
  let (place, slots) := fill item table.slots
  ⟨slots, table.index.insert id place⟩

/-- Takes what has an id from its place and from the index. -/
def erase (table : Table α) (id : String) : Table α :=
  match table.index.get? id with
  | none => table
  | some place => ⟨table.slots.set place none, table.index.erase id⟩

/-- Takes the ids of what passes a test from the index, and then what has them from its places. -/
def eraseAll (key : α → String) (goes : α → Bool) (table : Table α) : Table α where
  slots := table.slots.map (·.filter (!goes ·))
  index := ((table.items.filter goes).map key).foldl Dict.erase table.index

/-- Changes what has an id where it stands. -/
def update (table : Table α) (id : String) (change : α → α) : Table α :=
  match table.index.get? id with
  | none => table
  | some place => { table with slots := table.slots.modify place (·.map change) }

end Table

/-! ### Stored graphs -/

/-- An edge between the places of two nodes. -/
structure StoredEdge where
  id : String
  kind : EdgeKind
  source : Nat
  target : Nat
  attributes : Attributes
  seq : Nat

/-- A graph whose nodes and edges are stored at places and found by indexes. -/
structure IndexedGraph where
  nodes : Table Node := {}
  edges : Table StoredEdge := {}
  nextSeq : Nat := 0
  nextEdgeSeq : Nat := 0
  nextNodeId : Nat := 0
  nextEdgeId : Nat := 0
  namespaceText : String := ""
  history : List Provenance := []
  forwarding : Dict String := ∅

namespace IndexedGraph

/-! ### Looking up -/

/-- The node with an id. -/
def node? (store : IndexedGraph) (id : String) : Option Node := store.nodes.find? id

/-- Whether a node has an id. -/
def hasNode (store : IndexedGraph) (id : String) : Bool := store.nodes.index.contains id

/-- Whether an edge has an id. -/
def hasEdge (store : IndexedGraph) (id : String) : Bool := store.edges.index.contains id

/-- The id of the node at a place. -/
def idAt? (store : IndexedGraph) (place : Nat) : Option String :=
  (store.nodes.at? place).map (·.id)

/-- A stored edge with the ids of its ends. -/
def view? (store : IndexedGraph) (edge : StoredEdge) : Option Edge := do
  let source ← store.idAt? edge.source
  let target ← store.idAt? edge.target
  return ⟨edge.id, edge.kind, source, target, edge.attributes, edge.seq⟩

/-- The edge with an id. -/
def edge? (store : IndexedGraph) (id : String) : Option Edge :=
  (store.edges.find? id).bind store.view?

/-! ### Changing -/

/-- The store with one more node. -/
def pushNode (store : IndexedGraph) (id : String) (kind : NodeKind) (label : String)
    (attributes : Attributes) : IndexedGraph :=
  { store with
    nodes := store.nodes.insert id ⟨id, kind, label, attributes, store.nextSeq⟩
    nextSeq := store.nextSeq + 1 }

/-- The number of the next node id that is not in the index. -/
def freshNode (store : IndexedGraph) : Nat :=
  firstFree (store.namespaceText ++ "n" ++ toString ·) store.nodes.index.keys
    store.nodes.index.size store.nextNodeId

/-- The number of the next edge id that is not in the index. -/
def freshEdge (store : IndexedGraph) : Nat :=
  firstFree (store.namespaceText ++ "e" ++ toString ·) store.edges.index.keys
    store.edges.index.size store.nextEdgeId

/-- Adds a node under a fresh id. -/
def addNode (store : IndexedGraph) (kind : NodeKind) (label : String) (attributes : Attributes) :
    String × IndexedGraph :=
  let number := store.freshNode
  let id := store.namespaceText ++ "n" ++ toString number
  (id, { store with nextNodeId := number + 1 }.pushNode id kind label attributes)

/-- Adds a node under a given id, which must not be in the index. -/
def addNodeWithId (store : IndexedGraph) (id : String) (kind : NodeKind) (label : String)
    (attributes : Attributes) : Except GraphFault IndexedGraph :=
  if store.hasNode id then .error (.duplicateNode id)
  else .ok (store.pushNode id kind label attributes)

/-- Adds an edge. Its id must not be in the index of edges, and its ends must be in that of
nodes. -/
def insertEdge (store : IndexedGraph) (edge : Edge) : Except GraphFault IndexedGraph :=
  if store.hasEdge edge.id then .error (.duplicateEdge edge.id)
  else
    match store.nodes.index.get? edge.source, store.nodes.index.get? edge.target with
    | some source, some target => .ok { store with
        edges := store.edges.insert edge.id
          ⟨edge.id, edge.kind, source, target, edge.attributes, edge.seq⟩
        nextEdgeSeq := max store.nextEdgeSeq (edge.seq + 1) }
    | _, _ => .error (.missingEndpoint edge.id edge.source edge.target)

/-- Adds an edge under a given id. The sequence number is used up in any case. -/
def addEdgeWithId (store : IndexedGraph) (id source target : String) (kind : EdgeKind)
    (attributes : Attributes) : Except GraphFault Unit × IndexedGraph :=
  let counted := { store with nextEdgeSeq := store.nextEdgeSeq + 1 }
  match counted.insertEdge ⟨id, kind, source, target, attributes, store.nextEdgeSeq⟩ with
  | .ok store => (.ok (), store)
  | .error fault => (.error fault, counted)

/-- Adds an edge under a fresh id. The id and the sequence number are used up in any case. -/
def addEdge (store : IndexedGraph) (source target : String) (kind : EdgeKind)
    (attributes : Attributes) : Except GraphFault String × IndexedGraph :=
  let number := store.freshEdge
  let id := store.namespaceText ++ "e" ++ toString number
  let (outcome, store) :=
    { store with nextEdgeId := number + 1 }.addEdgeWithId id source target kind attributes
  (outcome.map fun _ => id, store)

/-- The store without a node and the edges at its place. -/
def removeNode (store : IndexedGraph) (id : String) : IndexedGraph :=
  match store.nodes.index.get? id with
  | none => store
  | some place =>
    { store with
      nodes := store.nodes.erase id
      edges := store.edges.eraseAll (·.id) fun edge =>
        edge.source = place || edge.target = place }

/-- The store without an edge. -/
def removeEdge (store : IndexedGraph) (id : String) : IndexedGraph :=
  { store with edges := store.edges.erase id }

/-- The store with a text put at an attribute of a node. -/
def setAttribute (store : IndexedGraph) (id key value : String) : IndexedGraph :=
  { store with
    nodes := store.nodes.update id fun node =>
      { node with attributes := node.attributes.insert key value } }

/-- The store with one more entry in its history. -/
def record (store : IndexedGraph) (node rule : String) : IndexedGraph :=
  { store with history := store.history ++ [⟨node, rule⟩] }

/-- The store that remembers that one node replaced another. -/
def forward (store : IndexedGraph) (old new : String) : IndexedGraph :=
  { store with forwarding := store.forwarding.insert old new }

end IndexedGraph

end Transcode
