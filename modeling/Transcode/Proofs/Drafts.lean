import Transcode.Graph.Build
import Transcode.Proofs.Outcome
import Transcode.Proofs.WellFormed

/-!
# Drafts are never refused an edge

The construction of a graph stops at the first edge that is refused. It never comes to that: an edge
between nodes is added (`CodeGraph.addEdge_fst_eq`), and whatever is linked in a draft is a node of
it, owners, callers and methods and types by name (`Draft.Anchored`). So each step that could fail
comes to the draft that it would without looking at the outcome (`Draft.Anchored.placeAll_eq`,
`Draft.Anchored.linkCalls_eq`, `Draft.Anchored.linkSupertypes_eq`), and a tree has a graph if it has
outlines (`buildGraph_eq`).
-/

namespace Transcode

/-! ### Nodes and edges of a graph -/

namespace CodeGraph

variable {graph : CodeGraph}

/-- Adding a node makes its id one of a node, and no other. -/
theorem hasNode_addNode {kind : NodeKind} {label : String} {attributes : Attributes} {id : String} :
    (graph.addNode kind label attributes).2.hasNode id ↔
      graph.hasNode id ∨ id = (graph.addNode kind label attributes).1 := by
  simp only [hasNode_iff, CodeGraph.addNode, pushNode, List.map_append, List.map_cons, List.map_nil,
    List.mem_append, List.mem_singleton]

/-- An edge between nodes is not refused, since its id is fresh. -/
theorem addEdge_fst_eq {source target : String} (hasSource : graph.hasNode source)
    (hasTarget : graph.hasNode target) (kind : EdgeKind) (attributes : Attributes) :
    (graph.addEdge source target kind attributes).1 = .ok (graph.edgeName graph.freshEdge) := by
  let counted : CodeGraph := { graph with
    nextEdgeId := graph.freshEdge + 1
    nextEdgeSeq := graph.nextEdgeSeq + 1 }
  let edge : Edge :=
    ⟨graph.edgeName graph.freshEdge, kind, source, target, attributes, graph.nextEdgeSeq⟩
  have inserted : ∃ after, counted.insertEdge edge = .ok after :=
    ⟨_, insertEdge_eq_ok_iff.mpr
      ⟨⟨graph.edgeName_freshEdge_not_mem, hasSource, hasTarget⟩, rfl⟩⟩
  obtain ⟨after, inserted⟩ := inserted
  unfold addEdge addEdgeWithId
  dsimp only
  rw [inserted]
  rfl

/-- An edge leaves the nodes as they are, whether it is added or refused. -/
theorem nodes_addEdge (source target : String) (kind : EdgeKind) (attributes : Attributes) :
    (graph.addEdge source target kind attributes).2.nodes = graph.nodes := by
  unfold addEdge addEdgeWithId
  dsimp only
  split
  · rename_i added
    obtain ⟨_, rfl⟩ := insertEdge_eq_ok_iff.mp added
    rfl
  · rfl

end CodeGraph

namespace Draft

variable {draft : Draft} {owner : Option String}

/-! ### Drafts without a look at the outcome -/

/-- The draft after an attempt to add an edge. -/
def linked (draft : Draft) (source target : String) (kind : EdgeKind) : Draft :=
  { draft with graph := (draft.graph.addEdge source target kind ∅).2 }

/-- The draft after a construct and the attempt to add the edge from its owner. -/
def withConstruct (draft : Draft) (owner : Option String) (outline : Outline) : String × Draft :=
  let (id, graph) := draft.graph.addNode outline.kind outline.label outline.attributes
  let placed := match owner with
    | some owner => { draft with graph }.linked owner id .contains
    | none => { draft with graph }
  (id, { placed with
    types := if outline.kind.isType then placed.types ++ [(outline.label, id)] else placed.types
    methods := if outline.kind = .method then placed.methods ++ [⟨outline.label, id, owner⟩]
      else placed.methods
    sites := match outline.callees with
      | some callees => placed.sites ++ [⟨id, owner, callees⟩]
      | none => placed.sites })

mutual

/-- The draft after a construct and those it contains. -/
def placed (draft : Draft) (owner : Option String) : Outline → Draft
  | ⟨kind, label, attributes, callees, children⟩ =>
    let (id, draft) := draft.withConstruct owner ⟨kind, label, attributes, callees, []⟩
    draft.placedAll (some id) children

/-- The draft after several constructs with one owner. -/
def placedAll (draft : Draft) (owner : Option String) : List Outline → Draft
  | [] => draft
  | outline :: rest => (draft.placed owner outline).placedAll owner rest

end

/-- The draft after the attempts to add its calls. -/
def withCalls (draft : Draft) : Draft :=
  (draft.sites.flatMap draft.callsOf).foldl
    (fun linked call => linked.linked call.1 call.2 .calls) draft

/-- The draft after the attempts to add its relations to supertypes. -/
def withSupertypes (draft : Draft) : Draft :=
  (draft.types.flatMap fun entry => draft.supertypesOf entry.2).foldl
    (fun linked (source, target, kind) => linked.linked source target kind) draft

/-! ### One step -/

@[simp] theorem nodes_linked (draft : Draft) (source target : String) (kind : EdgeKind) :
    (draft.linked source target kind).graph.nodes = draft.graph.nodes :=
  CodeGraph.nodes_addEdge source target kind ∅

theorem hasNode_linked (draft : Draft) (source target : String) (kind : EdgeKind) (id : String) :
    (draft.linked source target kind).graph.hasNode id = draft.graph.hasNode id := by
  rw [CodeGraph.hasNode, nodes_linked, CodeGraph.hasNode]

/-- An edge between nodes of a draft is added. -/
theorem link_eq {source target : String} (hasSource : draft.graph.hasNode source)
    (hasTarget : draft.graph.hasNode target) (kind : EdgeKind) :
    draft.link source target kind = .ok (draft.linked source target kind) := by
  have added := CodeGraph.addEdge_fst_eq hasSource hasTarget kind ∅
  change Except.map _ (draft.graph.addEdge source target kind ∅).1 = _
  rw [added]
  rfl

/-- The nodes of a draft with one more construct are those of the draft and the construct's. -/
theorem hasNode_withConstruct_iff (owner : Option String) (outline : Outline) (id : String) :
    (draft.withConstruct owner outline).2.graph.hasNode id ↔
      draft.graph.hasNode id ∨ id = (draft.withConstruct owner outline).1 := by
  have added : (draft.graph.addNode outline.kind outline.label outline.attributes).2.hasNode id ↔
      draft.graph.hasNode id ∨ id = draft.graph.nodeName draft.graph.freshNode :=
    CodeGraph.hasNode_addNode
  cases owner with
  | none => exact added
  | some owner =>
      refine Iff.trans ?_ added
      exact Bool.coe_iff_coe.mpr (hasNode_linked ..)

/-- A construct is added if its owner is a node. -/
theorem addConstruct_eq (hasOwner : ∀ id ∈ owner, draft.graph.hasNode id) (outline : Outline) :
    draft.addConstruct owner outline = .ok (draft.withConstruct owner outline) := by
  cases owner with
  | none => rfl
  | some owner =>
      let grown := { draft with
        graph := (draft.graph.addNode outline.kind outline.label outline.attributes).2 }
      -- The owner was there before and the other end was just added.
      have hasOwner : grown.graph.hasNode owner :=
        CodeGraph.hasNode_addNode.mpr (.inl (hasOwner owner rfl))
      have hasNew : grown.graph.hasNode (draft.graph.nodeName draft.graph.freshNode) :=
        CodeGraph.hasNode_addNode.mpr (.inr rfl)
      change grown.link owner _ .contains >>= _ = _
      rw [link_eq hasOwner hasNew]
      rfl

/-! ### Anchored drafts -/

/-- A draft whose entries are nodes of its graph. -/
structure Anchored (draft : Draft) : Prop where
  types : ∀ entry ∈ draft.types, draft.graph.hasNode entry.2
  methods : ∀ entry ∈ draft.methods, draft.graph.hasNode entry.id
  sites : ∀ site ∈ draft.sites, draft.graph.hasNode site.caller

/-- A later draft is anchored and has lost no node. -/
structure Grown (draft later : Draft) : Prop where
  anchored : later.Anchored
  kept : ∀ id, draft.graph.hasNode id → later.graph.hasNode id

/-- A draft grown from a grown one has grown from the first. -/
theorem Grown.trans {first second third : Draft} (left : first.Grown second)
    (right : second.Grown third) : first.Grown third :=
  ⟨right.anchored, fun id present => right.kept id (left.kept id present)⟩

/-- What holds of entries and of one more holds of all, whether or not that one is added. -/
theorem forall_mem_append_if {α : Type} {holds : α → Prop} {items : List α} {item : α}
    {condition : Prop} [Decidable condition] (old : ∀ entry ∈ items, holds entry)
    (new : holds item) :
    ∀ entry ∈ if condition then items ++ [item] else items, holds entry := by
  split
  · exact List.forall_mem_append.mpr ⟨old, List.forall_mem_singleton.mpr new⟩
  · exact old

namespace Anchored

/-- The empty draft is anchored. -/
theorem empty : ({} : Draft).Anchored where
  types := List.forall_mem_nil _
  methods := List.forall_mem_nil _
  sites := List.forall_mem_nil _

/-- Edges do not change what the entries of a draft name. -/
theorem linked (anchored : draft.Anchored) (source target : String) (kind : EdgeKind) :
    (draft.linked source target kind).Anchored where
  types entry member := (hasNode_linked ..).trans (anchored.types entry member)
  methods entry member := (hasNode_linked ..).trans (anchored.methods entry member)
  sites site member := (hasNode_linked ..).trans (anchored.sites site member)

/-- The entries that a construct adds name its own node. -/
theorem withConstruct (anchored : draft.Anchored) (owner : Option String) (outline : Outline) :
    draft.Grown (draft.withConstruct owner outline).2 := by
  have kept (id : String) (present : draft.graph.hasNode id) :
      (draft.withConstruct owner outline).2.graph.hasNode id :=
    (hasNode_withConstruct_iff owner outline id).mpr (.inl present)
  have new : (draft.withConstruct owner outline).2.graph.hasNode
      (draft.withConstruct owner outline).1 :=
    (hasNode_withConstruct_iff owner outline _).mpr (.inr rfl)
  have types := fun entry member => kept _ (anchored.types entry member)
  have methods := fun entry member => kept _ (anchored.methods entry member)
  have sites := fun site member => kept _ (anchored.sites site member)
  refine ⟨⟨?types, ?methods, ?sites⟩, kept⟩
  case types => cases owner <;> exact forall_mem_append_if types new
  case methods => cases owner <;> exact forall_mem_append_if methods new
  case sites =>
    obtain ⟨kind, label, attributes, callees, children⟩ := outline
    cases callees with
    | none => cases owner <;> exact sites
    | some callees =>
        cases owner <;>
          exact List.forall_mem_append.mpr ⟨sites, List.forall_mem_singleton.mpr new⟩

/-! ### Placing constructs -/

mutual

/-- No entry is lost while a construct and those in it are placed. -/
theorem placed : ∀ (outline : Outline) {draft : Draft} (owner : Option String),
    draft.Anchored → draft.Grown (draft.placed owner outline)
  | ⟨kind, label, attributes, callees, children⟩, draft, owner, anchored => by
    have added := anchored.withConstruct owner ⟨kind, label, attributes, callees, []⟩
    unfold Draft.placed
    exact added.trans (placedAll children _ added.anchored)

/-- No entry is lost while several constructs are placed. -/
theorem placedAll : ∀ (outlines : List Outline) {draft : Draft} (owner : Option String),
    draft.Anchored → draft.Grown (draft.placedAll owner outlines)
  | [], _, _, anchored => by
    unfold Draft.placedAll
    exact ⟨anchored, fun _ present => present⟩
  | outline :: rest, _, owner, anchored => by
    have first := placed outline owner anchored
    unfold Draft.placedAll
    exact first.trans (placedAll rest owner first.anchored)

end

mutual

/-- A construct is placed with all that are in it if its owner is a node. -/
theorem place_eq : ∀ (outline : Outline) {draft : Draft} {owner : Option String},
    draft.Anchored → (∀ id ∈ owner, draft.graph.hasNode id) →
      draft.place owner outline = .ok (draft.placed owner outline)
  | ⟨kind, label, attributes, callees, children⟩, draft, owner, anchored, hasOwner => by
    have added := anchored.withConstruct owner ⟨kind, label, attributes, callees, []⟩
    unfold Draft.place Draft.placed
    rw [addConstruct_eq hasOwner]
    refine placeAll_eq children added.anchored fun id same => ?_
    obtain rfl := Option.mem_some_iff.mp same
    exact (hasNode_withConstruct_iff ..).mpr (.inr rfl)

/-- Several constructs are placed if their owner is a node. -/
theorem placeAll_eq : ∀ (outlines : List Outline) {draft : Draft} {owner : Option String},
    draft.Anchored → (∀ id ∈ owner, draft.graph.hasNode id) →
      draft.placeAll owner outlines = .ok (draft.placedAll owner outlines)
  | [], _, _, _, _ => by
    unfold Draft.placeAll Draft.placedAll
    rfl
  | outline :: rest, _, owner, anchored, hasOwner => by
    have first := placed outline owner anchored
    unfold Draft.placeAll Draft.placedAll
    rw [place_eq outline anchored hasOwner]
    exact placeAll_eq rest first.anchored fun id same => first.kept id (hasOwner id same)

end

end Anchored

/-! ### Resolving names -/

/-- A call goes to one of the methods. -/
theorem exists_of_callee? {owner : Option String} {name id : String}
    (found : draft.callee? owner name = some id) : ∃ entry ∈ draft.methods, entry.id = id := by
  unfold callee? at found
  split at found
  · rename_i entry own
    exact ⟨entry, List.mem_of_find?_eq_some own, Option.some.inj found⟩
  · obtain ⟨entry, first, same⟩ := Option.map_eq_some_iff.mp found
    exact ⟨entry, List.mem_of_find?_eq_some first, same⟩

/-- Distinct ids are among the ids. -/
theorem subset_of_distinct (ids : List String) : distinct ids ⊆ ids := by
  refine List.foldlRecOn (motive := (· ⊆ ids)) ids _ (List.nil_subset ids)
    fun kept old id listed => ?_
  split
  · exact old
  · exact List.append_subset.mpr ⟨old, List.cons_subset.mpr ⟨listed, List.nil_subset ids⟩⟩

/-- Calls join nodes. -/
theorem Anchored.hasNode_calls (anchored : draft.Anchored) {call : String × String}
    (member : call ∈ draft.sites.flatMap draft.callsOf) :
    draft.graph.hasNode call.1 ∧ draft.graph.hasNode call.2 := by
  obtain ⟨site, listed, member⟩ := List.mem_flatMap.mp member
  obtain ⟨callee, called, rfl⟩ := List.mem_map.mp member
  obtain ⟨name, _, found⟩ := List.mem_filterMap.mp (subset_of_distinct _ called)
  obtain ⟨entry, there, rfl⟩ := exists_of_callee? found
  exact ⟨anchored.sites site listed, anchored.methods entry there⟩

/-- Relations to supertypes join nodes. -/
theorem Anchored.hasNode_supertypes (anchored : draft.Anchored)
    {relation : String × String × EdgeKind}
    (member : relation ∈ draft.types.flatMap fun entry => draft.supertypesOf entry.2) :
    draft.graph.hasNode relation.1 ∧ draft.graph.hasNode relation.2.1 := by
  obtain ⟨entry, listed, member⟩ := List.mem_flatMap.mp member
  unfold supertypesOf at member
  split at member
  · cases member
  · obtain ⟨key, _, member⟩ := List.mem_flatMap.mp member
    obtain ⟨base, _, found⟩ := List.mem_filterMap.mp member
    obtain ⟨type, there, rfl⟩ := Option.map_eq_some_iff.mp found
    exact ⟨anchored.types entry listed, anchored.types type (List.mem_of_find?_eq_some there)⟩

/-- Edges between nodes of a draft are all added, since no node is lost on the way. -/
theorem foldlM_link_eq {α : Type} (items : List α) (source target : α → String)
    (kind : α → EdgeKind) (each : ∀ item ∈ items,
      draft.graph.hasNode (source item) ∧ draft.graph.hasNode (target item)) :
    items.foldlM (fun linked item => linked.link (source item) (target item) (kind item)) draft =
      .ok (items.foldl (fun linked item => linked.linked (source item) (target item) (kind item))
        draft) := by
  induction items generalizing draft with
  | nil => rfl
  | cons item rest ih =>
      obtain ⟨⟨hasSource, hasTarget⟩, later⟩ := List.forall_mem_cons.mp each
      rw [List.foldlM_cons, link_eq hasSource hasTarget]
      refine ih fun item member => ?_
      rw [hasNode_linked, hasNode_linked]
      exact later item member

namespace Anchored

/-- Edges drawn one after the other keep a draft anchored. -/
theorem foldl_linked {α : Type} (anchored : draft.Anchored) (items : List α)
    (source target : α → String) (kind : α → EdgeKind) :
    (items.foldl (fun linked item => linked.linked (source item) (target item) (kind item))
      draft).Anchored :=
  List.foldlRecOn (motive := Anchored) items _ anchored fun _ anchored item _ =>
    anchored.linked (source item) (target item) (kind item)

theorem withCalls (anchored : draft.Anchored) : draft.withCalls.Anchored :=
  anchored.foldl_linked _ Prod.fst Prod.snd fun _ => .calls

theorem linkCalls_eq (anchored : draft.Anchored) : draft.linkCalls = .ok draft.withCalls :=
  foldlM_link_eq _ Prod.fst Prod.snd (fun _ => .calls) fun _ => anchored.hasNode_calls

/-- All relations to supertypes are added. -/
theorem linkSupertypes_eq (anchored : draft.Anchored) :
    draft.linkSupertypes = .ok draft.withSupertypes :=
  foldlM_link_eq _ Prod.fst (Prod.fst ∘ Prod.snd) (Prod.snd ∘ Prod.snd) fun _ =>
    anchored.hasNode_supertypes

end Anchored

end Draft

/-- **A tree has a graph if it has outlines.** No edge is refused, so nothing but a declaration
without a name makes it fail. -/
theorem buildGraph_eq (tree : SyntaxTree) :
    buildGraph tree = match Outline.ofTree tree with
      | .ok outlines =>
        .ok ((({} : Draft).placedAll none outlines).withCalls.withSupertypes).graph
      | .error fault => .error (.invalidGraph fault) := by
  unfold buildGraph
  cases made : Outline.ofTree tree with
  | error fault => rfl
  | ok outlines =>
      have placed := Draft.Anchored.placedAll outlines none .empty
      have calls := placed.anchored.linkCalls_eq
      have supertypes := placed.anchored.withCalls.linkSupertypes_eq
      have all : ({} : Draft).placeAll none outlines = .ok (({} : Draft).placedAll none outlines) :=
        Draft.Anchored.placeAll_eq outlines .empty fun _ member => nomatch member
      change Except.mapError _ (({} : Draft).placeAll none outlines >>= fun placed =>
        placed.linkCalls >>= fun called => called.linkSupertypes >>= _) = _
      rw [all]
      change Except.mapError _ (Draft.linkCalls _ >>= fun called => called.linkSupertypes >>= _) = _
      rw [calls]
      change Except.mapError _ (Draft.linkSupertypes _ >>= _) = _
      rw [supertypes]
      rfl

end Transcode
