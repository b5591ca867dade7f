import Transcode.Proofs.Encoding
import Transcode.Proofs.Forest

/-!
# Placeholders of loops

In a graph that is built from a tree whose statements make plain lines, the body of every node
stands for the loops that the node contains, for each of them once and for nothing else
(`buildGraph_loopsPlaced`).
-/

namespace Transcode

open Output (slotsIn)

/-- The slots that the lines of a node's body stand for, in order. -/
def Node.placeholders (node : Node) : List String := slotsIn (node.textAt "body")

namespace CodeGraph

variable {graph after : CodeGraph} {id : String}

/-- The slots of the loops that a node contains. -/
def loopSlots (graph : CodeGraph) (id : String) : List (Option String) :=
  ((graph.children id).filter (·.kind.isLoop)).map (·.get? "slot")

/-- The body of a node stands for the loops that the node contains, once for each. -/
structure PlacesLoops (graph : CodeGraph) (node : Node) : Prop where
  nodup : node.placeholders.Nodup
  perm : (graph.loopSlots node.id).Perm (node.placeholders.map some)

/-- All bodies stand for the loops that their nodes contain. -/
def LoopsPlaced (graph : CodeGraph) : Prop := ∀ node ∈ graph.nodes, graph.PlacesLoops node

/-- The slots of a node are those of the loops that it contains. -/
theorem loopSlots_perm (graph : CodeGraph) (id : String) : (graph.loopSlots id).Perm
    (((graph.successors .contains id).filter (·.kind.isLoop)).map (·.get? "slot")) :=
  ((List.mergeSort_perm _ _).filter _).map _

/-- A node that contains the same has the same slots. -/
theorem loopSlots_of_successors
    (same : after.successors .contains id = graph.successors .contains id) :
    after.loopSlots id = graph.loopSlots id := by
  rw [loopSlots, loopSlots, children, children, same]

theorem loopSlots_of_nil (none : graph.successors .contains id = []) : graph.loopSlots id = [] := by
  rw [loopSlots, children, none, List.mergeSort_nil]
  rfl

namespace WellFormed

variable (wellFormed : graph.WellFormed)

include wellFormed

/-- A new node is contained in nothing and contains nothing. -/
theorem successors_addNode (kind : NodeKind) (label : String) (attributes : Attributes)
    (id : String) : (graph.addNode kind label attributes).2.successors .contains id =
      graph.successors .contains id := by
  refine List.filterMap_congr fun edge member => ?_
  obtain ⟨node, found⟩ := Option.isSome_iff_exists.mp
    (node?_isSome.trans (wellFormed.endpoints edge (mem_outgoingOf.mp member).member).2)
  rw [found]
  exact List.find?_append.trans (by rw [show graph.nodes.find? _ = some node from found]; rfl)

/-- A new node contains nothing. -/
theorem successors_new (kind : NodeKind) (label : String) (attributes : Attributes) :
    (graph.addNode kind label attributes).2.successors .contains
      (graph.addNode kind label attributes).1 = [] := by
  rw [wellFormed.successors_addNode, successors, List.filterMap_eq_nil_iff]
  intro edge member
  have leads := mem_outgoingOf.mp member
  have there := hasNode_iff.mp (wellFormed.endpoints edge leads.member).1
  rw [leads.source] at there
  exact absurd there graph.nodeName_freshNode_not_mem

/-- An edge between nodes is followed last. -/
theorem successors_addEdge_eq {source target : String} (hasSource : graph.hasNode source)
    (hasTarget : graph.hasNode target) (kind : EdgeKind) (attributes : Attributes) (id : String) :
    (graph.addEdge source target kind attributes).2.successors .contains id =
      graph.successors .contains id ++
        if source = id ∧ kind = .contains then (graph.node? target).toList else [] := by
  rw [wellFormed.addEdge_eq hasSource hasTarget]
  change (((graph.edges ++ [_]).filter _).filter _).filterMap
    (fun edge : Edge => graph.node? edge.target) = _
  rw [List.filter_append, List.filter_append, List.filterMap_append]
  refine congrArg (graph.successors .contains id ++ ·) ?_
  by_cases here : source = id <;> by_cases contains : kind = .contains
  · cases found : graph.node? target <;> simp [here, contains, found]
  · simp [here, contains]
  · simp [here]
  · simp [here]

/-- Edges other than of containment add nothing. -/
theorem successors_addEdge_of_ne (source target : String) {kind : EdgeKind}
    (other : kind ≠ .contains) (attributes : Attributes) (id : String) :
    (graph.addEdge source target kind attributes).2.successors .contains id =
      graph.successors .contains id := by
  by_cases present : graph.hasNode source ∧ graph.hasNode target
  · rw [wellFormed.successors_addEdge_eq present.1 present.2, if_neg (fun both => other both.2),
      List.append_nil]
  · rw [addEdge_of_missing present]
    rfl

/-- Adding an edge changes no node. -/
theorem nodes_addEdge (source target : String) (kind : EdgeKind) (attributes : Attributes) :
    (graph.addEdge source target kind attributes).2.nodes = graph.nodes := by
  by_cases present : graph.hasNode source ∧ graph.hasNode target
  · rw [wellFormed.addEdge_eq present.1 present.2]
  · rw [addEdge_of_missing present]

end WellFormed

end CodeGraph

/-! ### Drafts -/

namespace Draft

open CodeGraph

variable {draft before between after : Draft} {owner : Option String} {outline : Outline}
  {outlines others : List Outline}

/-- The slots that outlines bring to a node, if that is their owner. -/
def broughtTo (id : String) (owner : Option String) (outlines : List Outline) :
    List (Option String) :=
  if owner = some id then Outline.slots outlines else []

/-- The outlines of an owner have been added: their slots to its own and to those of no other node.
All new bodies stand for their loops. -/
structure Houses (before : Draft) (owner : Option String) (outlines : List Outline)
    (after : Draft) : Prop where
  stays : ∀ node ∈ before.graph.nodes, node ∈ after.graph.nodes
  slots : ∀ node ∈ before.graph.nodes, (after.graph.loopSlots node.id).Perm
    (before.graph.loopSlots node.id ++ broughtTo node.id owner outlines)
  placed : ∀ node ∈ after.graph.nodes, node ∈ before.graph.nodes ∨ after.graph.PlacesLoops node

theorem broughtTo_of_ne {id : String} (other : owner ≠ some id) (outlines : List Outline) :
    broughtTo id owner outlines = [] := if_neg other

/-- Nothing is housed where nothing is placed. -/
theorem Houses.nil (draft : Draft) (owner : Option String) : draft.Houses owner [] draft where
  stays _ member := member
  slots node _ := by
    unfold broughtTo
    split <;> simp [Outline.slots]
  placed _ member := .inl member

/-- Outlines of one owner after others. -/
theorem Houses.append (betweenFormed : between.graph.WellFormed)
    (there : ∀ id ∈ owner, before.graph.hasNode id) (first : before.Houses owner outlines between)
    (second : between.Houses owner others after) :
    before.Houses owner (outlines ++ others) after where
  stays node member := second.stays node (first.stays node member)
  slots node member := by
    have both : broughtTo node.id owner (outlines ++ others) =
        broughtTo node.id owner outlines ++ broughtTo node.id owner others := by
      unfold broughtTo
      split <;> simp [Outline.slots]
    rw [both, ← List.append_assoc]
    exact (second.slots node (first.stays node member)).trans
      ((first.slots node member).append_right _)
  placed node member := by
    rcases second.placed node member with earlier | places
    · rcases first.placed node earlier with old | places
      · exact .inl old
      · by_cases isOwner : owner = some node.id
        · -- The owner was there before, so this is no new node.
          obtain ⟨other, old, same⟩ :=
            List.mem_map.mp (hasNode_iff.mp (there node.id isOwner))
          obtain rfl := betweenFormed.eq_of_id (first.stays other old) earlier same
          exact .inl old
        · have slots := second.slots node earlier
          rw [broughtTo_of_ne isOwner, List.append_nil] at slots
          exact .inr ⟨places.nodup, slots.trans places.perm⟩
    · exact .inr places

/-- A loop has its slot, and nothing else has one. -/
theorem slots_singleton (outline : Outline) : Outline.slots [outline] =
    if outline.kind.isLoop then [outline.attributes.get? "slot"] else [] := by
  unfold Outline.slots
  split <;> simp [*]

/-- A construct that is added contains nothing yet, and its slot goes to its owner. -/
theorem exists_withConstruct (formed : draft.graph.WellFormed)
    (there : ∀ id ∈ owner, draft.graph.hasNode id) (outline : Outline) :
    ∃ node : Node, (draft.withConstruct owner outline).1 = node.id ∧
      node.attributes = outline.attributes ∧ ¬draft.graph.hasNode node.id ∧
      (draft.withConstruct owner outline).2.graph.nodes = draft.graph.nodes ++ [node] ∧
      (draft.withConstruct owner outline).2.graph.loopSlots node.id = [] ∧
      ∀ id, draft.graph.hasNode id →
        ((draft.withConstruct owner outline).2.graph.loopSlots id).Perm
          (draft.graph.loopSlots id ++ broughtTo id owner [outline]) := by
  let number := draft.graph.freshNode
  let node : Node := ⟨draft.graph.nodeName number, outline.kind, outline.label, outline.attributes,
    draft.graph.nextSeq⟩
  let added := (draft.graph.addNode outline.kind outline.label outline.attributes).2
  have fresh : ¬draft.graph.hasNode node.id := fun used =>
    draft.graph.nodeName_freshNode_not_mem (hasNode_iff.mp used)
  have addedFormed : added.WellFormed := formed.addNode ..
  have same (id : String) : added.successors .contains id = draft.graph.successors .contains id :=
    formed.successors_addNode ..
  have new : added.successors .contains node.id = [] := formed.successors_new ..
  refine ⟨node, rfl, rfl, fresh, ?_⟩
  cases owner with
  | none =>
      refine ⟨rfl, loopSlots_of_nil new, fun id _ => ?_⟩
      rw [broughtTo_of_ne (by simp), List.append_nil]
      exact .of_eq (loopSlots_of_successors (same id))
  | some owner =>
      have hasOwner : added.hasNode owner :=
        hasNode_addNode.mpr (.inl (there owner rfl))
      have found : added.node? node.id = some node :=
        addedFormed.node?_of_mem (List.mem_append_right _ List.mem_cons_self)
      have hasNew : added.hasNode node.id := hasNode_addNode.mpr (.inr rfl)
      have linked := addedFormed.successors_addEdge_eq hasOwner hasNew .contains ∅
      refine ⟨addedFormed.nodes_addEdge .., loopSlots_of_nil ?_, fun id _ => ?_⟩
      · have apart : ¬(owner = node.id ∧ EdgeKind.contains = .contains) := fun both =>
          fresh (both.1 ▸ there owner rfl)
        exact (linked node.id).trans (by rw [new, if_neg apart, List.append_nil])
      · refine (loopSlots_perm _ id).trans ?_
        have followed := linked id
        rw [same, found] at followed
        change (List.map _ (List.filter _ ((added.addEdge owner node.id .contains ∅).2.successors
          .contains id))).Perm _
        rw [followed, List.filter_append, List.map_append]
        refine (loopSlots_perm draft.graph id).symm.append (.of_eq ?_)
        by_cases here : owner = id
        · rw [broughtTo, if_pos ⟨here, rfl⟩, if_pos (congrArg some here), slots_singleton]
          by_cases isLoop : outline.kind.isLoop <;> simp [node, isLoop, Node.get?]
        · rw [broughtTo_of_ne (fun same => here (Option.some.inj same)),
            if_neg (fun both => here both.1)]
          rfl

mutual

/-- A construct is housed with its loops. -/
theorem houses_placed : ∀ (outline : Outline) {draft : Draft} {owner : Option String},
    draft.graph.InOrder → (∀ id ∈ owner, draft.graph.hasNode id) → outline.Placed →
      draft.Houses owner [outline] (draft.placed owner outline)
  | ⟨kind, label, attributes, callees, children⟩, draft, owner, inOrder, there, placed => by
    let outline : Outline := ⟨kind, label, attributes, callees, []⟩
    obtain ⟨goesOn, added⟩ := goesOn_withConstruct inOrder there outline
    obtain ⟨node, isNew, own, fresh, nodes, none, slots⟩ :=
      exists_withConstruct inOrder.wellFormed there outline
    obtain ⟨distinct, taken, below⟩ := placed
    let between := (draft.withConstruct owner outline).2
    have inside :
        between.Houses (some node.id) children (between.placedAll (some node.id) children) :=
      houses_placedAll children goesOn.inOrder (fun id same => by
        cases same
        rwa [isNew] at added) below
    unfold placed
    change draft.Houses owner _ (between.placedAll
      (some (draft.withConstruct owner outline).1) children)
    rw [isNew]
    have old {other : Node} (member : other ∈ draft.graph.nodes) : other ∈ between.graph.nodes := by
      rw [nodes]
      exact List.mem_append_left _ member
    refine ⟨fun other member => inside.stays other (old member), fun other member => ?_,
      fun other member => ?_⟩
    · have apart : some node.id ≠ some other.id := fun same =>
        fresh (Option.some.inj same ▸ hasNode_of_mem member)
      have later := inside.slots other (old member)
      rw [broughtTo_of_ne apart, List.append_nil] at later
      have one : broughtTo other.id owner [⟨kind, label, attributes, callees, children⟩] =
          broughtTo other.id owner [outline] := by
        rw [broughtTo, broughtTo, slots_singleton, slots_singleton]
      rw [one]
      exact later.trans (slots other.id (hasNode_of_mem member))
    · rcases inside.placed other member with earlier | places
      · rw [nodes] at earlier
        rcases List.mem_append.mp earlier with old | new
        · exact .inl old
        · rw [List.mem_singleton.mp new]
          have body : node.placeholders = slotsIn (attributes.textAt "body") :=
            congrArg (fun kept : Attributes => slotsIn (kept.textAt "body")) own
          have held := inside.slots node (nodes ▸ List.mem_append_right _ List.mem_cons_self)
          rw [none, List.nil_append, broughtTo, if_pos rfl, taken] at held
          exact .inr ⟨body ▸ distinct, body ▸ held⟩
      · exact .inr places

/-- Constructs are housed with their loops. -/
theorem houses_placedAll : ∀ (outlines : List Outline) {draft : Draft} {owner : Option String},
    draft.graph.InOrder → (∀ id ∈ owner, draft.graph.hasNode id) → Outline.AllPlaced outlines →
      draft.Houses owner outlines (draft.placedAll owner outlines)
  | [], draft, owner, _, _, _ => by
    unfold placedAll
    exact .nil draft owner
  | outline :: rest, draft, owner, inOrder, there, ⟨placed, others⟩ => by
    have goesOn := goesOn_placed outline inOrder there
    unfold placedAll
    exact (houses_placed outline inOrder there placed).append goesOn.inOrder.wellFormed there
      (houses_placedAll rest goesOn.inOrder
        (fun id isOwner => goesOn.stays id (there id isOwner)) others)

end

/-- An edge other than of containment changes no loops. -/
theorem loopsPlaced_linked (both : draft.graph.InOrder ∧ draft.graph.LoopsPlaced)
    (source target : String) {kind : EdgeKind} (other : kind ≠ .contains) :
    (draft.linked source target kind).graph.InOrder ∧
      (draft.linked source target kind).graph.LoopsPlaced := by
  obtain ⟨inOrder, placed⟩ := both
  have formed := inOrder.wellFormed
  refine ⟨inOrder_linked inOrder source target other, fun node member => ?_⟩
  have places := placed node (formed.nodes_addEdge source target kind ∅ ▸ member)
  have same : (draft.linked source target kind).graph.loopSlots node.id =
      draft.graph.loopSlots node.id :=
    loopSlots_of_successors (formed.successors_addEdge_of_ne source target other ∅ node.id)
  exact ⟨places.nodup, same ▸ places.perm⟩

/-- Steps that keep loops placed do so in a loop. -/
theorem loopsPlaced_foldl {α : Type} {step : Draft → α → Draft} {items : List α}
    (kept : ∀ draft : Draft, ∀ item ∈ items, draft.graph.InOrder ∧ draft.graph.LoopsPlaced →
      (step draft item).graph.InOrder ∧ (step draft item).graph.LoopsPlaced)
    (both : draft.graph.InOrder ∧ draft.graph.LoopsPlaced) :
    (items.foldl step draft).graph.InOrder ∧ (items.foldl step draft).graph.LoopsPlaced :=
  List.foldlRecOn items step both fun draft both item member => kept draft item member both

end Draft

/-- **Graphs of source texts.** If all statements in a tree make plain lines, the bodies of its
graph stand for the loops that their nodes contain. -/
theorem buildGraph_loopsPlaced {tree : SyntaxTree} {graph : CodeGraph}
    (texts : tree.Everywhere SyntaxTree.MakesPlainLines) (ok : buildGraph tree = .ok graph) :
    graph.LoopsPlaced := by
  rw [buildGraph_eq] at ok
  split at ok
  · rename_i outlines made
    cases ok
    have each := Outline.placed_of_ofTree texts made
    have inOrder : (({} : Draft).placedAll none outlines).graph.InOrder :=
      (Draft.goesOn_placedAll outlines .empty (by simp)).inOrder
    have houses : ({} : Draft).Houses none outlines (({} : Draft).placedAll none outlines) :=
      Draft.houses_placedAll outlines .empty (by simp)
        (Outline.allPlaced_iff.mpr fun outline member => (each outline member).1)
    have placed : (({} : Draft).placedAll none outlines).graph.LoopsPlaced := fun node member =>
      (houses.placed node member).resolve_left List.not_mem_nil
    refine (Draft.loopsPlaced_foldl (fun linked relation member both => ?_)
      (Draft.loopsPlaced_foldl (fun linked call _ both => ?_) ⟨inOrder, placed⟩)).2
    · obtain ⟨entry, _, there⟩ := List.mem_flatMap.mp member
      exact Draft.loopsPlaced_linked both _ _ (Draft.ne_contains_of_mem_supertypesOf there)
    · exact Draft.loopsPlaced_linked both call.1 call.2 (by decide)
  · cases ok

end Transcode
