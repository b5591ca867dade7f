import Transcode.Proofs.Encoding
import Transcode.Proofs.Forest
import Transcode.Proofs.Numbering
import Transcode.Proofs.Tally
import Transcode.Proofs.Visits

/-!
# How graphs of syntax trees are built up

A syntax tree, however it was made, has a graph just if all its declarations have names, and else
the first one without a name is reported. The graph is then built up in order
(`CodeGraph.Constructed`, `buildGraph_constructed`): nodes and edges are numbered as they are made,
containers come before what they contain, calls come after all containment and supertypes after all
calls, and each relation joins nodes of the kinds it is for.
-/

namespace Transcode

/-! ### Faults -/

section Fault

variable {ε α β : Type}

/-- The error with which something fails. -/
def fault? : Except ε α → Option ε
  | .error error => some error
  | .ok _ => none

/-- Of two steps in a row the first that fails decides, if the second one fails in the same way
whatever the first one gives. -/
theorem fault?_bind {first : Except ε α} {next : α → Except ε β} {later : Option ε}
    (same : ∀ value, fault? (next value) = later) :
    fault? (first >>= next) = (fault? first).or later := by
  cases first with
  | error error => rfl
  | ok value => exact same value

/-- What is made of a first outcome without failing fails as that does. -/
theorem fault?_bind_of_none {first : Except ε α} {next : α → Except ε β}
    (always : ∀ value, fault? (next value) = none) : fault? (first >>= next) = fault? first :=
  (fault?_bind always).trans (Option.or_none ..)

end Fault

/-! ### Declarations -/

namespace SyntaxTree

/-- Whether a tree has a name that is not empty. -/
def hasName (tree : SyntaxTree) : Bool := tree.name.any (!·.isEmpty)

theorem hasName_iff {tree : SyntaxTree} : tree.hasName ↔ tree.IsNamed := by
  simp [hasName, IsNamed, Option.any_eq_true]

mutual

/-- The declarations in a tree that get nodes, in the order in which they are met: a type before
its members, and each of the fields that are declared together. -/
def declarations : SyntaxTree → List SyntaxTree
  | ⟨kind, name, children, range, attributes⟩ =>
    match kind with
    | .classDecl | .interfaceDecl =>
      ⟨kind, name, children, range, attributes⟩ :: declarationsOf children
    | .method | .constructor | .field => [⟨kind, name, children, range, attributes⟩]
    | .block => if (attributes.get? "declarators").isSome then children else []
    | _ => []

/-- The declarations in several trees that get nodes. -/
def declarationsOf : List SyntaxTree → List SyntaxTree
  | [] => []
  | tree :: rest => declarations tree ++ declarationsOf rest

end

/-- The declarations that the graph of a tree is built from: those of its parts if it is that of a
whole text. -/
def declared (tree : SyntaxTree) : List SyntaxTree :=
  if tree.kind = .program then declarationsOf tree.children else tree.declarations

/-- The fault of the first of several declarations that has no name. -/
def firstNameless? (trees : List SyntaxTree) : Option GraphFault :=
  (trees.find? (!·.hasName)).map fun tree => .namelessDeclaration tree.kind tree.range.location

/-- The first without a name is among the first ones, or else among the others. -/
theorem firstNameless?_append (first second : List SyntaxTree) :
    firstNameless? (first ++ second) = (firstNameless? first).or (firstNameless? second) := by
  rw [firstNameless?, List.find?_append, Option.map_or]
  rfl

theorem firstNameless?_isSome {trees : List SyntaxTree} :
    (firstNameless? trees).isSome ↔ ∃ tree ∈ trees, ¬tree.IsNamed := by
  simp [firstNameless?, ← hasName_iff]

end SyntaxTree

namespace Outline

open SyntaxTree

/-- What is declared fails only for want of a name. -/
theorem fault?_declaredName (tree : SyntaxTree) :
    fault? (declaredName tree) = firstNameless? [tree] := by
  unfold declaredName firstNameless? hasName
  cases named : tree.name with
  | none => simp [named, fault?]
  | some name => by_cases empty : name = "" <;> simp [named, fault?, empty]

theorem fault?_ofField (tree : SyntaxTree) : fault? (ofField tree) = firstNameless? [tree] :=
  (fault?_bind_of_none fun _ => rfl).trans (fault?_declaredName tree)

/-- A method or constructor fails only for want of a name. -/
theorem fault?_ofCallable (kind : NodeKind) (tree : SyntaxTree) :
    fault? (ofCallable kind tree) = firstNameless? [tree] := by
  refine (fault?_bind_of_none fun name => ?_).trans (fault?_declaredName tree)
  dsimp only
  split <;> rfl

/-- What is made of a tree and then of others fails with the first of all that has no name. -/
theorem fault?_bind_append {α β γ : Type} {first : Except GraphFault α}
    {second : Except GraphFault β} {next : α → β → Except GraphFault γ}
    {trees others : List SyntaxTree} (ofFirst : fault? first = firstNameless? trees)
    (ofSecond : fault? second = firstNameless? others)
    (always : ∀ value other, fault? (next value other) = none) :
    fault? (first >>= fun value => second >>= next value) = firstNameless? (trees ++ others) := by
  rw [fault?_bind fun value => (fault?_bind_of_none (always value)).trans ofSecond, ofFirst,
    firstNameless?_append]

/-- Fields fail at the first without a name. -/
theorem fault?_mapM_ofField (trees : List SyntaxTree) :
    fault? (trees.mapM ofField) = firstNameless? trees := by
  induction trees with
  | nil => rfl
  | cons tree rest ih =>
      rw [List.mapM_cons]
      exact fault?_bind_append (fault?_ofField tree) ih fun _ _ => rfl

mutual

/-- A declaration fails at the first in it without a name. -/
theorem fault?_ofDeclaration : ∀ tree : SyntaxTree,
    fault? (ofDeclaration tree) = firstNameless? tree.declarations
  | ⟨kind, name, children, range, attributes⟩ => by
    unfold ofDeclaration declarations
    cases kind
    case classDecl | interfaceDecl =>
      exact fault?_bind_append (fault?_declaredName _) (fault?_ofDeclarations children)
        fun _ _ => rfl
    case method | constructor =>
      exact (fault?_bind_of_none fun _ => rfl).trans (fault?_ofCallable _ _)
    case field => exact (fault?_bind_of_none fun _ => rfl).trans (fault?_ofField _)
    case block =>
      dsimp only
      split
      · exact fault?_mapM_ofField children
      · rfl
    all_goals rfl

/-- Declarations fail at the first in them without a name. -/
theorem fault?_ofDeclarations : ∀ trees : List SyntaxTree,
    fault? (ofDeclarations trees) = firstNameless? (declarationsOf trees)
  | [] => by
    unfold ofDeclarations declarationsOf
    rfl
  | tree :: rest => by
    unfold ofDeclarations declarationsOf
    exact fault?_bind_append (fault?_ofDeclaration tree) (fault?_ofDeclarations rest)
      fun _ _ => rfl

end

/-- The outlines of a tree fail with the first of its declarations that has no name. -/
theorem fault?_ofTree (tree : SyntaxTree) :
    fault? (ofTree tree) = firstNameless? tree.declared := by
  unfold ofTree declared
  split
  · exact fault?_ofDeclarations tree.children
  · exact fault?_ofDeclaration tree

end Outline

/-! ### Outlines -/

namespace Outline

/-- Only methods and constructors have bodies that call. -/
inductive CallsWell : Outline → Prop where
  | mk {outline : Outline}
    (calls : outline.callees.isSome → outline.kind = .method ∨ outline.kind = .constructor)
    (inside : ∀ child ∈ outline.children, child.CallsWell) : outline.CallsWell

/-- What makes an outline fit to stand by itself: it is no loop, and only methods and constructors
in it call. -/
structure IsMember (outline : Outline) : Prop where
  noLoop : outline.kind ≠ .loop
  callsWell : outline.CallsWell

mutual

/-- The loops of a statement call nothing by themselves. -/
theorem callsWell_encodeStatement : ∀ (isBranch : Bool) (depth slot : Nat) (tree : SyntaxTree),
    ∀ loop ∈ (encodeStatement isBranch depth slot tree).loops, loop.CallsWell
  | isBranch, depth, slot, ⟨kind, name, children, range, attributes⟩ => by
    have branch (number depth slot : Nat) :
        ∀ loop ∈ ((encodeBranch number depth slot children).getD (.none slot)).loops,
          loop.CallsWell := by
      cases made : encodeBranch number depth slot children with
      | none => exact List.forall_mem_nil _
      | some encoded => exact callsWell_encodeBranch number depth slot children encoded made
    unfold encodeStatement
    cases kind
    case block =>
      dsimp only
      split <;> exact callsWell_encodeStatements _ slot children
    case branch =>
      refine List.forall_mem_append.mpr ⟨branch 0 (depth + 1) slot, ?_⟩
      dsimp only
      split
      · rename_i alternative made
        exact callsWell_encodeBranch 1 (depth + 1) _ children alternative made
      · exact List.forall_mem_nil _
    case forLoop | whileLoop | doLoop =>
      exact List.forall_mem_singleton.mpr (.mk (fun calls => nomatch calls) (branch 0 0 0))
    all_goals exact List.forall_mem_nil _

/-- The loops of statements call nothing by themselves. -/
theorem callsWell_encodeStatements : ∀ (depth slot : Nat) (trees : List SyntaxTree),
    ∀ loop ∈ (encodeStatements depth slot trees).loops, loop.CallsWell
  | _, _, [] => by
    unfold encodeStatements
    exact List.forall_mem_nil _
  | depth, slot, tree :: rest => by
    unfold encodeStatements
    exact List.forall_mem_append.mpr ⟨callsWell_encodeStatement false depth slot tree,
      callsWell_encodeStatements depth _ rest⟩

/-- The loops of a branch call nothing by themselves. -/
theorem callsWell_encodeBranch : ∀ (number depth slot : Nat) (trees : List SyntaxTree),
    ∀ encoded ∈ encodeBranch number depth slot trees, ∀ loop ∈ encoded.loops, loop.CallsWell
  | _, _, _, [], encoded, made => by
    unfold encodeBranch at made
    cases made
  | number, depth, slot, tree :: rest, encoded, made => by
    unfold encodeBranch at made
    split at made
    · exact callsWell_encodeBranch number depth slot rest encoded made
    · cases number with
      | zero =>
          cases made
          exact callsWell_encodeStatement true depth slot tree
      | succ number => exact callsWell_encodeBranch number depth slot rest encoded made

end

/-- A field is a member. -/
theorem isMember_of_ofField {tree : SyntaxTree} {outline : Outline}
    (made : ofField tree = .ok outline) : outline.IsMember := by
  obtain ⟨name, _, made⟩ := bind_eq_ok_iff.mp made
  cases made
  exact ⟨by simp, .mk (fun calls => nomatch calls) (List.forall_mem_nil _)⟩

/-- A method or constructor is a member. -/
theorem isMember_of_ofCallable {kind : NodeKind} {tree : SyntaxTree} {outline : Outline}
    (isCallable : kind = .method ∨ kind = .constructor)
    (made : ofCallable kind tree = .ok outline) : outline.IsMember := by
  have noLoop : kind ≠ .loop := by
    rcases isCallable with rfl | rfl <;> decide
  obtain ⟨name, _, made⟩ := bind_eq_ok_iff.mp made
  dsimp only at made
  split at made
  · cases made
    exact ⟨noLoop, .mk (fun calls => nomatch calls) (List.forall_mem_nil _)⟩
  · cases made
    exact ⟨noLoop, .mk (fun _ => isCallable) (callsWell_encodeStatements 0 0 _)⟩

/-- All outlines of any tree are fit to stand by themselves. -/
theorem hereditary_isMember : Hereditary (fun _ => True) IsMember where
  below _ _ _ := trivial
  field := isMember_of_ofField
  callable isCallable _ := isMember_of_ofCallable isCallable
  type isType inside _ _ _ :=
    { noLoop := by
        rintro rfl
        cases isType
      callsWell := .mk (fun calls => nomatch calls) fun child member =>
        (inside child member).callsWell }

end Outline

/-! ### Graphs that are built up -/

/-- Whether a kind has calls in its body. -/
def NodeKind.mayCall (kind : NodeKind) : Prop := kind = .method ∨ kind = .constructor

/-- When edges of a kind are made: all containment first, then calls, supertypes last. -/
def EdgeKind.stage : EdgeKind → Nat
  | .contains => 0
  | .calls => 1
  | .extending | .implementing => 2

theorem EdgeKind.stage_of_isHeritage {kind : EdgeKind} (isHeritage : kind.isHeritage) :
    kind.stage = 2 := by
  cases kind <;> first | rfl | cases isHeritage

namespace CodeGraph

variable {graph : CodeGraph}

/-- The id of the node that is made after a number of others. -/
def nodeId (number : Nat) : String := "n" ++ toString number

/-- The id of the edge that is made after a number of others. -/
def edgeId (number : Nat) : String := "e" ++ toString number

/-- A node with a given id is there, of a kind that passes a test. -/
def HasKind (graph : CodeGraph) (test : NodeKind → Prop) (id : String) : Prop :=
  ∃ node ∈ graph.nodes, node.id = id ∧ test node.kind

/-- A graph as it is built up from a syntax tree. Sequence numbers and ids tell the order in which
nodes and edges were made. -/
structure Constructed (graph : CodeGraph) : Prop where
  nodeSeqs : graph.nodes.map (·.seq) = List.range graph.nodes.length
  nodeIds : graph.nodes.map (·.id) = (List.range graph.nodes.length).map nodeId
  edgeSeqs : graph.edges.map (·.seq) = List.range graph.edges.length
  edgeIds : graph.edges.map (·.id) = (List.range graph.edges.length).map edgeId
  oneContainer : ∀ node ∈ graph.nodes, (graph.incomingOf .contains node.id).length ≤ 1
  earlier : ∀ edge ∈ graph.edges, edge.kind = .contains → ∃ owner ∈ graph.nodes,
    ∃ child ∈ graph.nodes, owner.id = edge.source ∧ child.id = edge.target ∧ owner.seq < child.seq
  forest : graph.Forest
  stages : graph.edges.Pairwise fun first second => first.kind.stage ≤ second.kind.stage
  owned : ∀ node ∈ graph.nodes, node.kind = .loop →
    ∃ owner ∈ graph.nodes, graph.parent? node.id = some owner
  calls : ∀ edge ∈ graph.edges, edge.kind = .calls →
    graph.HasKind NodeKind.mayCall edge.source ∧ graph.HasKind (· = .method) edge.target
  calledOnce : ∀ first ∈ graph.edges, ∀ second ∈ graph.edges, first.kind = .calls →
    second.kind = .calls → first.source = second.source → first.target = second.target →
      first = second
  heritage : ∀ edge ∈ graph.edges, edge.kind.isHeritage → edge.source ≠ edge.target ∧
    graph.HasKind (·.isType) edge.source ∧ graph.HasKind (·.isType) edge.target

theorem HasKind.mono {test : NodeKind → Prop} {id : String} {after : CodeGraph}
    (there : graph.HasKind test id) (more : graph.nodes ⊆ after.nodes) : after.HasKind test id :=
  there.imp fun _ => And.imp_left (more ·)

theorem nodeId_injective : Function.Injective nodeId := append_toString_injective "n"

namespace Built

variable (built : graph.Built) (counted : graph.Counted)

include built counted

theorem nodeName_freshNode : graph.nodeName graph.freshNode = nodeId graph.nodes.length := by
  rw [nodeName, built.noNamespace, built.freshNode_eq, counted.nextNodeId, String.empty_append,
    nodeId]

theorem edgeName_freshEdge : graph.edgeName graph.freshEdge = edgeId graph.edges.length := by
  rw [edgeName, built.noNamespace, built.freshEdge_eq, counted.nextEdgeId, String.empty_append,
    edgeId]

/-- The nodes of a counted graph with one more. -/
theorem nodes_addNode (kind : NodeKind) (label : String) (attributes : Attributes) :
    (graph.addNode kind label attributes).2.nodes = graph.nodes ++
      [⟨nodeId graph.nodes.length, kind, label, attributes, graph.nodes.length⟩] := by
  rw [← built.nodeName_freshNode counted]
  exact congrArg (fun seq => graph.nodes ++ [Node.mk _ kind label attributes seq]) counted.nextSeq

/-- The edges of a counted graph with one more. -/
theorem edges_addEdge {source target : String} (hasSource : graph.hasNode source)
    (hasTarget : graph.hasNode target) (kind : EdgeKind) (attributes : Attributes) :
    (graph.addEdge source target kind attributes).2.edges = graph.edges ++
      [⟨edgeId graph.edges.length, kind, source, target, attributes, graph.edges.length⟩] := by
  rw [built.wellFormed.addEdge_eq hasSource hasTarget, ← built.edgeName_freshEdge counted,
    ← counted.nextEdgeSeq]

end Built

end CodeGraph

/-! ### Constructs one by one -/

namespace Draft

open CodeGraph (nodeId edgeId HasKind)

variable {draft : Draft} {owner : Option String} {outline : Outline}

/-- What a construct adds to a draft: a node, an edge from its owner, and its entries. -/
structure Adds (before : Draft) (owner : Option String) (outline : Outline) (after : Draft) :
    Prop where
  nodes : after.graph.nodes = before.graph.nodes ++ [⟨nodeId before.graph.nodes.length,
    outline.kind, outline.label, outline.attributes, before.graph.nodes.length⟩]
  edges : after.graph.edges = before.graph.edges ++ owner.toList.map fun owner =>
    ⟨edgeId before.graph.edges.length, .contains, owner, nodeId before.graph.nodes.length, ∅,
      before.graph.edges.length⟩
  types : after.types = before.types ++
    if outline.kind.isType then [(outline.label, nodeId before.graph.nodes.length)] else []
  methods : after.methods = before.methods ++
    if outline.kind = .method then [⟨outline.label, nodeId before.graph.nodes.length, owner⟩]
    else []
  sites : after.sites = before.sites ++ outline.callees.toList.map fun callees =>
    ⟨nodeId before.graph.nodes.length, owner, callees⟩

/-- A construct that may call is a site of calls. -/
theorem sites_withConstruct (draft : Draft) (owner : Option String) (outline : Outline) :
    (draft.withConstruct owner outline).2.sites = draft.sites ++ outline.callees.toList.map
      fun callees => ⟨(draft.withConstruct owner outline).1, owner, callees⟩ := by
  cases outline with
  | mk kind label attributes callees children =>
      cases owner <;> cases callees <;> first | rfl | exact (List.append_nil _).symm

/-- A construct is added with all that belongs to it. -/
theorem Sound.adds (sound : draft.Sound) (hasOwner : ∀ id ∈ owner, draft.graph.hasNode id)
    (outline : Outline) : draft.Adds owner outline (draft.withConstruct owner outline).2 := by
  have named := sound.built.nodeName_freshNode sound.counted
  have nodes := sound.built.nodes_addNode sound.counted outline.kind outline.label
    outline.attributes
  have entries {α : Type} {condition : Prop} [Decidable condition] (items : List α) (item : α) :
      (if condition then items ++ [item] else items) =
        items ++ if condition then [item] else [] := by
    split <;> simp
  cases owner with
  | none =>
      refine ⟨nodes, (List.append_nil _).symm, ?_, ?_, ?_⟩ <;> rw [← named]
      · exact entries draft.types _
      · exact entries draft.methods _
      · exact sites_withConstruct draft _ outline
  | some owner =>
      have built := sound.built.addNode outline.kind outline.label outline.attributes
      have counted :=
        sound.counted.addNode sound.built outline.kind outline.label outline.attributes
      have edges := built.edges_addEdge counted
        (CodeGraph.hasNode_addNode.mpr (.inl (hasOwner owner rfl)))
        (CodeGraph.hasNode_addNode.mpr (.inr rfl)) .contains ∅
      let placed := draft.graph.addNode outline.kind outline.label outline.attributes
      have same := nodes_linked { draft with graph := placed.2 } owner placed.1 .contains
      refine ⟨same.trans nodes, edges.trans ?_, ?_, ?_, ?_⟩ <;> rw [← named]
      · rfl
      · exact entries draft.types _
      · exact entries draft.methods _
      · exact sites_withConstruct draft _ outline

/-- A draft that is built up in order, as long as nothing but containment has been added: each loop
is owned, each entry is a node of the kind it is for, and no node has two entries of calls. -/
structure Regular (draft : Draft) : Prop extends draft.Sound where
  inOrder : draft.graph.InOrder
  nodeIds : draft.graph.nodes.map (·.id) = (List.range draft.graph.nodes.length).map nodeId
  edgeIds : draft.graph.edges.map (·.id) = (List.range draft.graph.edges.length).map edgeId
  contains : ∀ edge ∈ draft.graph.edges, edge.kind = .contains
  owned : ∀ node ∈ draft.graph.nodes, node.kind = .loop →
    ∃ edge ∈ draft.graph.edges, edge.target = node.id
  typeKinds : ∀ entry ∈ draft.types, draft.graph.HasKind (·.isType) entry.2
  methodKinds : ∀ entry ∈ draft.methods, draft.graph.HasKind (· = .method) entry.id
  siteKinds : ∀ site ∈ draft.sites, draft.graph.HasKind NodeKind.mayCall site.caller
  callers : (draft.sites.map (·.caller)).Nodup

/-- An empty draft is regular. -/
theorem Regular.empty : ({} : Draft).Regular where
  toSound := .empty
  inOrder := .empty
  nodeIds := rfl
  edgeIds := rfl
  contains := by simp
  owned := by simp
  typeKinds := by simp
  methodKinds := by simp
  siteKinds := by simp
  callers := .nil

/-- **One construct.** A construct that may stand where it is keeps the order. -/
theorem Regular.withConstruct (regular : draft.Regular)
    (hasOwner : ∀ id ∈ owner, draft.graph.hasNode id) (owned : outline.kind = .loop → owner.isSome)
    (calls : outline.callees.isSome → outline.kind.mayCall) :
    (draft.withConstruct owner outline).2.Regular := by
  have adds := regular.adds hasOwner outline
  generalize isAfter : (draft.withConstruct owner outline).2 = after at adds
  have more : draft.graph.nodes ⊆ after.graph.nodes := by
    rw [adds.nodes]
    exact List.subset_append_left _ _
  have new {test : NodeKind → Prop} (passes : test outline.kind) :
      after.graph.HasKind test (nodeId draft.graph.nodes.length) :=
    ⟨_, adds.nodes ▸ List.mem_append_right _ List.mem_cons_self, rfl, passes⟩
  have fresh : nodeId draft.graph.nodes.length ∉ draft.graph.nodes.map (·.id) := by
    rw [regular.nodeIds, List.mem_map_of_injective CodeGraph.nodeId_injective, List.mem_range]
    exact Nat.lt_irrefl _
  refine
    { toSound := isAfter ▸ regular.toSound.withConstruct hasOwner outline
      inOrder := isAfter ▸ (goesOn_withConstruct regular.inOrder hasOwner outline).1.inOrder
      nodeIds := ?_, edgeIds := ?_, contains := ?_, owned := ?_, typeKinds := ?_
      methodKinds := ?_, siteKinds := ?_, callers := ?_ }
  · rw [adds.nodes, List.map_append, regular.nodeIds, List.length_append, List.length_singleton,
      List.range_succ, List.map_append]
    rfl
  · rw [adds.edges, List.map_append, regular.edgeIds, List.length_append]
    cases owner with
    | none => simp
    | some owner => simp [List.range_succ]
  · rw [adds.edges]
    refine List.forall_mem_append.mpr ⟨regular.contains, fun edge member => ?_⟩
    obtain ⟨_, _, rfl⟩ := List.mem_map.mp member
    rfl
  · rw [adds.nodes, adds.edges]
    refine List.forall_mem_append.mpr ⟨fun node member isLoop => ?_,
      List.forall_mem_singleton.mpr fun isLoop => ?_⟩
    · obtain ⟨edge, there, same⟩ := regular.owned node member isLoop
      exact ⟨edge, List.mem_append_left _ there, same⟩
    · obtain ⟨id, rfl⟩ := Option.isSome_iff_exists.mp (owned isLoop)
      exact ⟨_, List.mem_append_right _ List.mem_cons_self, rfl⟩
  · rw [adds.types]
    refine List.forall_mem_append.mpr
      ⟨fun entry member => (regular.typeKinds entry member).mono more, fun entry member => ?_⟩
    split at member
    · obtain rfl := List.mem_singleton.mp member
      exact new ‹_›
    · cases member
  · rw [adds.methods]
    refine List.forall_mem_append.mpr
      ⟨fun entry member => (regular.methodKinds entry member).mono more, fun entry member => ?_⟩
    split at member
    · obtain rfl := List.mem_singleton.mp member
      exact new ‹_›
    · cases member
  · rw [adds.sites]
    refine List.forall_mem_append.mpr
      ⟨fun site member => (regular.siteKinds site member).mono more, fun site member => ?_⟩
    obtain ⟨callees, hasCallees, rfl⟩ := List.mem_map.mp member
    exact new (calls (Option.isSome_of_mem (Option.mem_toList.mp hasCallees)))
  · rw [adds.sites, List.map_append]
    refine List.nodup_append.mpr ⟨regular.callers, ?_, ?_⟩
    · cases outline.callees <;> simp
    · intro caller old other isNew same
      obtain ⟨site, member, rfl⟩ := List.mem_map.mp old
      obtain ⟨_, added, rfl⟩ := List.mem_map.mp isNew
      obtain ⟨_, _, rfl⟩ := List.mem_map.mp added
      obtain ⟨node, there, isCaller, _⟩ := regular.siteKinds site member
      exact fresh (List.mem_map.mpr ⟨node, there, isCaller.trans same⟩)

mutual

/-- A construct is placed in a regular draft with all that it contains. -/
theorem Regular.placed : ∀ (outline : Outline) {draft : Draft} {owner : Option String},
    draft.Regular → (∀ id ∈ owner, draft.graph.hasNode id) →
      (outline.kind = .loop → owner.isSome) → outline.CallsWell →
        (draft.placed owner outline).Regular
  | ⟨kind, label, attributes, callees, children⟩, draft, owner, regular, hasOwner, owned,
    .mk calls inside => by
    have added : (draft.withConstruct owner ⟨kind, label, attributes, callees, []⟩).2.Regular :=
      regular.withConstruct hasOwner owned calls
    unfold Draft.placed
    refine Regular.placedAll children added (fun id same => ?_) (fun _ _ _ => rfl) inside
    obtain rfl := Option.mem_some_iff.mp same
    exact (hasNode_withConstruct_iff ..).mpr (.inr rfl)

/-- Constructs are placed in a regular draft one by one. -/
theorem Regular.placedAll : ∀ (outlines : List Outline) {draft : Draft} {owner : Option String},
    draft.Regular → (∀ id ∈ owner, draft.graph.hasNode id) →
      (∀ outline ∈ outlines, outline.kind = .loop → owner.isSome) →
        (∀ outline ∈ outlines, outline.CallsWell) → (draft.placedAll owner outlines).Regular
  | [], _, _, regular, _, _, _ => by
    unfold Draft.placedAll
    exact regular
  | outline :: rest, _, owner, regular, hasOwner, owned, calls => by
    obtain ⟨firstOwned, othersOwned⟩ := List.forall_mem_cons.mp owned
    obtain ⟨firstCalls, othersCall⟩ := List.forall_mem_cons.mp calls
    have grown := regular.toAnchored.placed outline owner
    unfold Draft.placedAll
    exact Regular.placedAll rest (Regular.placed outline regular hasOwner firstOwned firstCalls)
      (fun id same => grown.kept id (hasOwner id same)) othersOwned othersCall

end

/-! ### Relations between constructs -/

/-- What an edge relates, and how. -/
abbrev Relation := String × String × EdgeKind

/-- What the edge `edge` relates, and how. -/
def relationOf (edge : Edge) : Relation := (edge.source, edge.target, edge.kind)

/-- Edges for some relations have been added to a draft, one after the other. -/
structure Draws (before : Draft) (relations : List Relation) (after : Draft) : Prop where
  sound : after.Sound
  nodes : after.graph.nodes = before.graph.nodes
  types : after.types = before.types
  edges : ∃ added, after.graph.edges = before.graph.edges ++ added ∧
    added.map relationOf = relations ∧
      added.map (·.id) = (List.range' before.graph.edges.length added.length).map edgeId

/-- A relation between nodes of a draft other than containment. -/
structure Drawable (draft : Draft) (relation : Relation) : Prop where
  other : relation.2.2 ≠ .contains
  hasSource : draft.graph.hasNode relation.1
  hasTarget : draft.graph.hasNode relation.2.1

/-- Relations between nodes of a draft are all drawn. -/
theorem Sound.draws (sound : draft.Sound) {relations : List Relation}
    (drawable : ∀ relation ∈ relations, draft.Drawable relation) :
    draft.Draws relations (relations.foldl
      (fun linked relation => linked.linked relation.1 relation.2.1 relation.2.2) draft) := by
  induction relations generalizing draft with
  | nil => exact ⟨sound, rfl, rfl, [], (List.append_nil _).symm, rfl, rfl⟩
  | cons relation rest ih =>
      obtain ⟨⟨other, hasSource, hasTarget⟩, later⟩ := List.forall_mem_cons.mp drawable
      let edge : Edge :=
        ⟨edgeId draft.graph.edges.length, relation.2.2, relation.1, relation.2.1, ∅,
        draft.graph.edges.length⟩
      have one : (draft.linked relation.1 relation.2.1 relation.2.2).graph.edges =
          draft.graph.edges ++ [edge] :=
        sound.built.edges_addEdge sound.counted hasSource hasTarget relation.2.2 ∅
      have others := ih (sound.linked other hasSource hasTarget) fun relation member =>
        ⟨(later relation member).other, (hasNode_linked ..).trans (later relation member).hasSource,
          (hasNode_linked ..).trans (later relation member).hasTarget⟩
      obtain ⟨added, edges, drawn, ids⟩ := others.edges
      rw [one] at edges ids
      refine ⟨others.sound, others.nodes.trans (nodes_linked ..), others.types,
        edge :: added, ?_, ?_, ?_⟩
      · rw [List.foldl_cons, edges, List.append_assoc]
        rfl
      · rw [List.map_cons, drawn]
        rfl
      · rw [List.map_cons, ids, List.length_append, List.length_singleton]
        rfl

/-- The calls of all bodies. -/
def calls (draft : Draft) : List Relation :=
  (draft.sites.flatMap draft.callsOf).map fun call => (call.1, call.2, .calls)

/-- The relations of all types to supertypes. -/
def supertypes (draft : Draft) : List Relation :=
  draft.types.flatMap fun entry => draft.supertypesOf entry.2

theorem withCalls_eq (draft : Draft) : draft.withCalls = draft.calls.foldl
    (fun linked relation => linked.linked relation.1 relation.2.1 relation.2.2) draft := by
  rw [withCalls, calls, List.foldl_map]

/-- A call leads from a site to a method. -/
theorem exists_of_mem_calls {relation : Relation} (member : relation ∈ draft.calls) :
    relation.2.2 = .calls ∧ (∃ site ∈ draft.sites, site.caller = relation.1) ∧
      ∃ entry ∈ draft.methods, entry.id = relation.2.1 := by
  obtain ⟨call, listed, rfl⟩ := List.mem_map.mp member
  obtain ⟨site, there, listed⟩ := List.mem_flatMap.mp listed
  obtain ⟨callee, called, rfl⟩ := List.mem_map.mp listed
  obtain ⟨name, _, found⟩ := List.mem_filterMap.mp (subset_of_distinct _ called)
  exact ⟨rfl, ⟨site, there, rfl⟩, exists_of_callee? found⟩

/-- Bodies of different callers share no call, and no body repeats one. -/
theorem nodup_calls (callers : (draft.sites.map (·.caller)).Nodup) : draft.calls.Nodup := by
  refine List.Nodup.map (fun first second same => by simpa [Prod.ext_iff] using same) ?_
  refine List.nodup_flatMap.mpr ⟨fun site _ => ?_, ?_⟩
  · exact (Stats.nodup_distinct _).map fun first second same => (Prod.mk.inj same).2
  · refine (List.pairwise_map.mp callers).imp fun {first second} apart call inFirst inSecond => ?_
    obtain ⟨_, _, rfl⟩ := List.mem_map.mp inFirst
    obtain ⟨_, _, same⟩ := List.mem_map.mp inSecond
    exact apart (congrArg Prod.fst same).symm

/-- Heritage leads from a type to another. -/
theorem exists_of_mem_supertypes {relation : Relation} (member : relation ∈ draft.supertypes) :
    relation.2.2.isHeritage ∧ relation.1 ≠ relation.2.1 ∧
      (∃ entry ∈ draft.types, entry.2 = relation.1) ∧
        ∃ entry ∈ draft.types, entry.2 = relation.2.1 := by
  obtain ⟨entry, listed, member⟩ := List.mem_flatMap.mp member
  unfold supertypesOf at member
  split at member
  · cases member
  · obtain ⟨⟨key, kind⟩, isKey, member⟩ := List.mem_flatMap.mp member
    obtain ⟨base, _, found⟩ := List.mem_filterMap.mp member
    obtain ⟨type, there, rfl⟩ := Option.map_eq_some_iff.mp found
    have passes := List.find?_some there
    simp only [Bool.and_eq_true, decide_eq_true_eq] at passes
    refine ⟨?_, passes.2.symm, ⟨entry, listed, rfl⟩, type, List.mem_of_find?_eq_some there, rfl⟩
    simp only [List.mem_cons, Prod.mk.injEq, List.not_mem_nil, or_false] at isKey
    rcases isKey with ⟨_, rfl⟩ | ⟨_, rfl⟩ <;> rfl

/-- Each call is drawn as an edge of its own. -/
theorem Sound.draws_calls (sound : draft.Sound) : draft.Draws draft.calls draft.withCalls := by
  rw [withCalls_eq]
  refine sound.draws fun relation member => ?_
  obtain ⟨isCall, ⟨site, there, isCaller⟩, entry, listed, isCallee⟩ := exists_of_mem_calls member
  exact ⟨by rw [isCall]; decide, isCaller ▸ sound.sites site there,
    isCallee ▸ sound.methods entry listed⟩

/-- Each relation of heritage is drawn as an edge of its own. -/
theorem Sound.draws_supertypes (sound : draft.Sound) :
    draft.Draws draft.supertypes draft.withSupertypes := by
  refine sound.draws fun relation member => ?_
  obtain ⟨isHeritage, _, ⟨type, there, isType⟩, base, listed, isBase⟩ :=
    exists_of_mem_supertypes member
  refine ⟨fun contains => ?_, isType ▸ sound.types type there, isBase ▸ sound.types base listed⟩
  rw [contains] at isHeritage
  cases isHeritage

/-- The edges that are drawn are numbered on. -/
theorem Draws.edgeIds {before after : Draft} {relations : List Relation}
    (draws : before.Draws relations after)
    (ids : before.graph.edges.map (·.id) = (List.range before.graph.edges.length).map edgeId) :
    after.graph.edges.map (·.id) = (List.range after.graph.edges.length).map edgeId := by
  obtain ⟨added, edges, _, addedIds⟩ := draws.edges
  have numbers := List.range'_append_1 (s := 0) (m := before.graph.edges.length)
    (n := added.length)
  rw [Nat.zero_add] at numbers
  rw [edges, List.map_append, ids, addedIds, ← List.map_append, List.length_append,
    List.range_eq_range', List.range_eq_range', numbers]

/-- What a regular draft has calls between. -/
theorem Regular.hasKind_of_mem_calls (regular : draft.Regular) {relation : Relation}
    (member : relation ∈ draft.calls) : draft.graph.HasKind NodeKind.mayCall relation.1 ∧
      draft.graph.HasKind (· = .method) relation.2.1 := by
  obtain ⟨_, ⟨site, there, isCaller⟩, entry, listed, isCallee⟩ := exists_of_mem_calls member
  exact ⟨isCaller ▸ regular.siteKinds site there, isCallee ▸ regular.methodKinds entry listed⟩

/-- What a draft with the types of a regular one has supertypes between. -/
theorem Regular.hasKind_of_mem_supertypes (regular : draft.Regular) {called : Draft}
    (types : called.types = draft.types) {relation : Relation}
    (member : relation ∈ called.supertypes) : draft.graph.HasKind (·.isType) relation.1 ∧
      draft.graph.HasKind (·.isType) relation.2.1 := by
  obtain ⟨_, _, ⟨type, there, isType⟩, base, listed, isBase⟩ := exists_of_mem_supertypes member
  rw [types] at there listed
  exact ⟨isType ▸ regular.typeKinds type there, isBase ▸ regular.typeKinds base listed⟩

end Draft

/-! ### The result -/

namespace CodeGraph

open Draft (relationOf)

variable {graph : CodeGraph} {placed called final : Draft}

/-- One edge of containment at most ends at a node. -/
theorem Built.length_incomingOf_le (built : graph.Built) (id : String) :
    (graph.incomingOf .contains id).length ≤ 1 := by
  have distinct : (graph.incomingOf .contains id).Nodup :=
    (List.Nodup.of_map _ built.wellFormed.edgeIds).filter _ |>.filter _
  match edges : graph.incomingOf .contains id with
  | [] => exact Nat.zero_le 1
  | [_] => exact Nat.le_refl 1
  | first :: second :: rest =>
      rw [edges] at distinct
      have isFirst := mem_incomingOf.mp (edges ▸ List.mem_cons_self :
        first ∈ graph.incomingOf .contains id)
      have isSecond := mem_incomingOf.mp (edges ▸ List.mem_cons_of_mem _ List.mem_cons_self :
        second ∈ graph.incomingOf .contains id)
      have same := built.oneContainer first isFirst.member second isSecond.member isFirst.kind
        isSecond.kind (isFirst.target.trans isSecond.target.symm)
      exact absurd (same ▸ List.mem_cons_self) (List.nodup_cons.mp distinct).1

/-- An edge has its ends among the nodes. -/
theorem WellFormed.exists_ends (wellFormed : graph.WellFormed) {edge : Edge}
    (member : edge ∈ graph.edges) : ∃ source ∈ graph.nodes, ∃ target ∈ graph.nodes,
      source.id = edge.source ∧ target.id = edge.target := by
  obtain ⟨hasSource, hasTarget⟩ := wellFormed.endpoints edge member
  obtain ⟨source, sourceThere, isSource⟩ := List.mem_map.mp (hasNode_iff.mp hasSource)
  obtain ⟨target, targetThere, isTarget⟩ := List.mem_map.mp (hasNode_iff.mp hasTarget)
  exact ⟨source, sourceThere, target, targetThere, isSource, isTarget⟩

/-- The edges of a graph in layers: containment, then calls, then supertypes. -/
structure Layered (graph : CodeGraph) (containment calls supertypes : List Edge) : Prop where
  edges : graph.edges = containment ++ (calls ++ supertypes)
  contains : ∀ edge ∈ containment, edge.kind = .contains
  calls : ∀ edge ∈ calls, edge.kind = .calls
  supertypes : ∀ edge ∈ supertypes, edge.kind.isHeritage

namespace Layered

variable {containment calls supertypes : List Edge} {edge : Edge}
  (layered : graph.Layered containment calls supertypes)

include layered

theorem mem_containment (member : edge ∈ containment) : edge ∈ graph.edges :=
  layered.edges ▸ List.mem_append_left _ member

/-- The kind of an edge tells its layer. -/
theorem mem_layer (member : edge ∈ graph.edges) :
    edge ∈ containment ∧ edge.kind = .contains ∨ edge ∈ calls ∧ edge.kind = .calls ∨
      edge ∈ supertypes ∧ edge.kind.isHeritage := by
  rw [layered.edges, List.mem_append, List.mem_append] at member
  exact member.imp (fun there => ⟨there, layered.contains edge there⟩)
    (Or.imp (fun there => ⟨there, layered.calls edge there⟩)
      fun there => ⟨there, layered.supertypes edge there⟩)

/-- A call is in the layer of calls. -/
theorem mem_calls (member : edge ∈ graph.edges) (kind : edge.kind = .calls) : edge ∈ calls := by
  rcases layered.mem_layer member with ⟨_, other⟩ | ⟨there, _⟩ | ⟨_, other⟩
  · cases kind.symm.trans other
  · exact there
  · rw [kind] at other
    cases other

/-- Heritage is in the layer of heritage. -/
theorem mem_supertypes (member : edge ∈ graph.edges) (isHeritage : edge.kind.isHeritage) :
    edge ∈ supertypes := by
  rcases layered.mem_layer member with ⟨_, other⟩ | ⟨_, other⟩ | ⟨there, _⟩
  · rw [other] at isHeritage
    cases isHeritage
  · rw [other] at isHeritage
    cases isHeritage
  · exact there

/-- Layers are made one after the other. -/
theorem stages : graph.edges.Pairwise fun first second => first.kind.stage ≤ second.kind.stage := by
  have first (edge : Edge) (member : edge ∈ containment) : edge.kind.stage = 0 := by
    rw [layered.contains edge member]
    rfl
  have second (edge : Edge) (member : edge ∈ calls) : edge.kind.stage = 1 := by
    rw [layered.calls edge member]
    rfl
  have third (edge : Edge) (member : edge ∈ supertypes) : edge.kind.stage = 2 :=
    EdgeKind.stage_of_isHeritage (layered.supertypes edge member)
  have level {edges : List Edge} {stage : Nat} (made : ∀ edge ∈ edges, edge.kind.stage = stage) :
      edges.Pairwise fun first second => first.kind.stage ≤ second.kind.stage :=
    List.pairwise_of_forall_mem_list fun one isOne other isOther =>
      ((made one isOne).trans (made other isOther).symm).le
  rw [layered.edges]
  refine List.pairwise_append.mpr ⟨level first, List.pairwise_append.mpr ⟨level second, level third,
    fun call isCall base isBase => ?_⟩, fun edge member other _ => ?_⟩
  · rw [second call isCall, third base isBase]
    exact Nat.le_succ 1
  · rw [first edge member]
    exact Nat.zero_le _

end Layered

/-- A draft in order, with calls and then supertypes drawn in it, is built up. -/
theorem constructed_of_draws (regular : placed.Regular) (inOrder : final.graph.InOrder)
    (calls : placed.Draws placed.calls called) (supertypes : called.Draws called.supertypes final) :
    final.graph.Constructed := by
  obtain ⟨callEdges, callsAdded, isCalls, _⟩ := calls.edges
  obtain ⟨baseEdges, basesAdded, isBases, _⟩ := supertypes.edges
  have nodes : final.graph.nodes = placed.graph.nodes := supertypes.nodes.trans calls.nodes
  have keeps {test : NodeKind → Prop} {id : String} (there : placed.graph.HasKind test id) :
      final.graph.HasKind test id := there.mono (nodes ▸ List.Subset.refl _)
  have call {edge : Edge} (member : edge ∈ callEdges) : relationOf edge ∈ placed.calls :=
    isCalls ▸ List.mem_map_of_mem member
  have base {edge : Edge} (member : edge ∈ baseEdges) : relationOf edge ∈ called.supertypes :=
    isBases ▸ List.mem_map_of_mem member
  have layered : final.graph.Layered placed.graph.edges callEdges baseEdges :=
    { edges := by rw [basesAdded, callsAdded, List.append_assoc]
      contains := regular.contains
      calls := fun edge member => (Draft.exists_of_mem_calls (call member)).1
      supertypes := fun edge member => (Draft.exists_of_mem_supertypes (base member)).1 }
  refine
    { nodeSeqs := supertypes.sound.counted.nodeSeqs
      nodeIds := nodes ▸ regular.nodeIds
      edgeSeqs := supertypes.sound.counted.edgeSeqs
      edgeIds := supertypes.edgeIds (calls.edgeIds regular.edgeIds)
      oneContainer := fun node _ => inOrder.toBuilt.length_incomingOf_le node.id
      earlier := fun edge member contains => ?_
      forest := inOrder.forest
      stages := layered.stages
      owned := fun node member isLoop => ?_
      calls := fun edge member kind => ?_
      calledOnce := ?_
      heritage := fun edge member isHeritage => ?_ }
  · obtain ⟨owner, ownerThere, child, childThere, isOwner, isChild⟩ :=
      inOrder.wellFormed.exists_ends member
    exact ⟨owner, ownerThere, child, childThere, isOwner, isChild,
      inOrder.earlier owner ownerThere child childThere
        ⟨edge, member, contains, isOwner.symm, isChild.symm⟩⟩
  · obtain ⟨edge, member, leads⟩ := regular.owned node (nodes ▸ member) isLoop
    have there := layered.mem_containment member
    obtain ⟨owner, ownerThere, _, _, isOwner, _⟩ := inOrder.wellFormed.exists_ends there
    exact ⟨owner, ownerThere, Output.parent?_eq_of_contains inOrder.wellFormed inOrder.forest
      ownerThere ⟨edge, there, regular.contains edge member, isOwner.symm, leads⟩⟩
  · have kinds := regular.hasKind_of_mem_calls (call (layered.mem_calls member kind))
    exact ⟨keeps kinds.1, keeps kinds.2⟩
  · intro first isFirst second isSecond firstCalls secondCalls sources targets
    have distinct : (callEdges.map relationOf).Nodup := isCalls ▸ Draft.nodup_calls regular.callers
    exact List.inj_on_of_nodup_map distinct (layered.mem_calls isFirst firstCalls)
      (layered.mem_calls isSecond secondCalls)
      (Prod.ext sources (Prod.ext targets (firstCalls.trans secondCalls.symm)))
  · have isBase := base (layered.mem_supertypes member isHeritage)
    have kinds := regular.hasKind_of_mem_supertypes calls.types isBase
    exact ⟨(Draft.exists_of_mem_supertypes isBase).2.1, keeps kinds.1, keeps kinds.2⟩

end CodeGraph

/-- Building fails with the first declaration that has no name, and in no other way. -/
theorem buildGraph_eq_error_iff {tree : SyntaxTree} {failure : Failure} :
    buildGraph tree = .error failure ↔
      ∃ fault, SyntaxTree.firstNameless? tree.declared = some fault ∧
        failure = .invalidGraph fault := by
  rw [← Outline.fault?_ofTree, buildGraph_eq]
  cases Outline.ofTree tree with
  | ok outlines => simp [fault?]
  | error fault => simp [fault?, eq_comm]

/-- What is placed of a syntax tree is built up in order. -/
theorem regular_of_ofTree {tree : SyntaxTree} {outlines : List Outline}
    (made : Outline.ofTree tree = .ok outlines) :
    (({} : Draft).placedAll none outlines).Regular := by
  have member := Outline.hereditary_isMember.forall_ofTree trivial made
  exact Draft.Regular.placedAll outlines .empty (by simp)
    (fun outline there isLoop => absurd isLoop (member outline there).noLoop)
    fun outline there => (member outline there).callsWell

/-- **Shape of built graphs.** A syntax tree has a graph unless some declaration that gets a node
has no name, and the graph is built up in order. -/
theorem buildGraph_constructed (tree : SyntaxTree) :
    ((∃ failure, buildGraph tree = .error failure) ↔
      ∃ declaration ∈ tree.declared, ¬declaration.IsNamed) ∧
    ∀ graph, buildGraph tree = .ok graph → graph.Constructed := by
  refine ⟨?_, fun graph built => ?_⟩
  · rw [← SyntaxTree.firstNameless?_isSome, Option.isSome_iff_exists]
    constructor
    · rintro ⟨failure, failed⟩
      obtain ⟨fault, first, _⟩ := buildGraph_eq_error_iff.mp failed
      exact ⟨fault, first⟩
    · rintro ⟨fault, first⟩
      exact ⟨_, buildGraph_eq_error_iff.mpr ⟨fault, first, rfl⟩⟩
  · rw [buildGraph_eq] at built
    split at built
    · rename_i outlines made
      cases built
      have regular := regular_of_ofTree made
      have calls := regular.toSound.draws_calls
      have supertypes := calls.sound.draws_supertypes
      refine CodeGraph.constructed_of_draws regular ?_ calls supertypes
      refine Draft.inOrder_foldl (fun linked relation member inOrder => ?_)
        (Draft.inOrder_foldl (fun linked call _ inOrder => ?_) regular.inOrder)
      · obtain ⟨entry, _, there⟩ := List.mem_flatMap.mp member
        exact Draft.inOrder_linked inOrder _ _ (Draft.ne_contains_of_mem_supertypesOf there)
      · exact Draft.inOrder_linked inOrder call.1 call.2 (by decide)
    · cases built

/-- A class with a constructor that calls a method of the class, and is not what a parser would make
of any text: the call stands below nothing, and a loop has nothing to repeat. -/
theorem buildGraph_constructed_call :
    let range : SourceRange := ⟨.first, .first⟩
    let body : SyntaxTree := ⟨.block, none,
      [⟨.call, some "f", [], range, ∅⟩, ⟨.doLoop, none, [], range, ∅⟩], range, ∅⟩
    let tree : SyntaxTree := ⟨.classDecl, some "A",
      [⟨.constructor, some "A", [body], range, ∅⟩, ⟨.method, some "f", [], range, ∅⟩], range, ∅⟩
    ∃ graph, buildGraph tree = .ok graph ∧ graph.nodes.map (·.id) = ["n0", "n1", "n2", "n3"] ∧
      graph.edges.map (·.kind) = [.contains, .contains, .contains, .calls] ∧ graph.Constructed := by
  intro range body tree
  obtain ⟨graph, built, shown⟩ : ∃ graph, buildGraph tree = .ok graph ∧
      decide (graph.nodes.map (·.id) = ["n0", "n1", "n2", "n3"] ∧
        graph.edges.map (·.kind) = [.contains, .contains, .contains, .calls]) :=
    exists_tested (by decide +kernel)
  obtain ⟨ids, kinds⟩ := of_decide_eq_true shown
  exact ⟨graph, built, ids, kinds, (buildGraph_constructed tree).2 graph built⟩

end Transcode
