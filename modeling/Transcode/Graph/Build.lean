import Transcode.Graph.Basic
import Transcode.Graph.Outline

/-!
# Graphs of source texts

The graph of a syntax tree has a node for each construct of its outline, numbered as they are met
from the root, and an edge from each construct to those it contains. Then names are resolved: calls
go to a method of the same owner if it has one of that name, else to the first method of that name,
and supertypes go to the first other type of that name.
-/

namespace Transcode

/-- A method that calls can go to. -/
structure MethodEntry where
  name : String
  id : String
  owner : Option String

/-- A body with the names it calls. -/
structure CallSite where
  caller : String
  owner : Option String
  callees : List String

/-- A graph under construction, with what the resolution of names needs. -/
structure Draft where
  graph : CodeGraph := {}
  types : List (String × String) := []
  methods : List MethodEntry := []
  sites : List CallSite := []

namespace Draft

/-- Adds an edge without attributes between nodes of the draft. -/
def link (draft : Draft) (source target : String) (kind : EdgeKind) : Except GraphFault Draft :=
  let (outcome, graph) := draft.graph.addEdge source target kind ∅
  outcome.map fun _ => { draft with graph }

/-- Adds the node of a construct, and the edge from what contains it. -/
def addConstruct (draft : Draft) (owner : Option String) (outline : Outline) :
    Except GraphFault (String × Draft) := do
  let (id, graph) := draft.graph.addNode outline.kind outline.label outline.attributes
  let grown := { draft with graph }
  let placed ← match owner with
    | some owner => grown.link owner id .contains
    | none => .ok grown
  return (id, { placed with
    types := if outline.kind.isType then placed.types ++ [(outline.label, id)] else placed.types
    methods := if outline.kind = .method then placed.methods ++ [⟨outline.label, id, owner⟩]
      else placed.methods
    sites := match outline.callees with
      | some callees => placed.sites ++ [⟨id, owner, callees⟩]
      | none => placed.sites })

mutual

/-- Adds a construct and those it contains. -/
def place (draft : Draft) (owner : Option String) : Outline → Except GraphFault Draft
  | ⟨kind, label, attributes, callees, children⟩ => do
    let (id, draft) ← draft.addConstruct owner ⟨kind, label, attributes, callees, []⟩
    draft.placeAll (some id) children

/-- Adds several constructs with one owner. -/
def placeAll (draft : Draft) (owner : Option String) : List Outline → Except GraphFault Draft
  | [] => .ok draft
  | outline :: rest => do
    let placed ← draft.place owner outline
    placed.placeAll owner rest

end

/-- The method that a call goes to. -/
def callee? (draft : Draft) (owner : Option String) (name : String) : Option String :=
  match draft.methods.find? fun entry => entry.name = name && entry.owner = owner with
  | some entry => some entry.id
  | none => (draft.methods.find? (·.name = name)).map (·.id)

/-- The list without repeated elements, first occurrences kept. -/
def distinct (ids : List String) : List String :=
  ids.foldl (fun kept id => if kept.contains id then kept else kept ++ [id]) []

/-- The calls of a body as pairs of caller and method, each once. -/
def callsOf (draft : Draft) (site : CallSite) : List (String × String) :=
  (distinct (site.callees.filterMap (draft.callee? site.owner))).map (site.caller, ·)

/-- A type's name without qualifiers and arguments. -/
def simpleName (type : String) : String :=
  String.ofList (Text.afterLast (· = '.')
    (Text.trimBoth (Text.cutAt (· = '<') type.toList).1))

/-- The supertypes of a type that are types of the draft, each with its relation. -/
def supertypesOf (draft : Draft) (id : String) : List (String × String × EdgeKind) :=
  match draft.graph.node? id with
  | none => []
  | some node =>
    [("extends", EdgeKind.extending), ("implements", .implementing)].flatMap fun (key, kind) =>
      (Text.splitTopLevel (node.textAt key) ',').filterMap fun base =>
        (draft.types.find? fun entry => entry.1 = simpleName base && entry.2 ≠ id).map
          fun entry => (id, entry.2, kind)

/-- Adds the calls of all bodies. -/
def linkCalls (draft : Draft) : Except GraphFault Draft :=
  (draft.sites.flatMap draft.callsOf).foldlM
    (fun linked call => linked.link call.1 call.2 .calls) draft

/-- Adds the relations of all types to their supertypes. -/
def linkSupertypes (draft : Draft) : Except GraphFault Draft :=
  (draft.types.flatMap fun entry => draft.supertypesOf entry.2).foldlM
    (fun linked (source, target, kind) => linked.link source target kind) draft

end Draft

/-- The graph of a syntax tree. -/
def buildGraph (tree : SyntaxTree) : Except Failure CodeGraph :=
  Except.mapError .invalidGraph do
    let outlines ← Outline.ofTree tree
    let placed ← ({} : Draft).placeAll none outlines
    let called ← placed.linkCalls
    return (← called.linkSupertypes).graph

end Transcode
