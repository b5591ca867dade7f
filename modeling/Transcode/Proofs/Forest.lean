import Mathlib.Data.List.Perm.Subperm
import Mathlib.Logic.Relation
import Transcode.Proofs.Containment

/-!
# Forests

The nodes of a graph form a forest if none is contained twice and none contains itself, directly or
through others (`CodeGraph.Forest`). A built graph is a forest, since a container is always created
before what it contains (`CodeGraph.InOrder.forest`).

Containment that consists of pairs of a forest under other names, some of them perhaps left out, is
that of a forest again (`IsForest.of_subperm`).
-/

namespace Transcode

/-! ### Forests of pairs -/

/-- In pairs of a container and what it contains, nothing is contained twice, and nothing contains
itself, directly or through others. -/
structure IsForest {α : Type} (pairs : List (α × α)) : Prop where
  oneContainer : (pairs.map Prod.snd).Nodup
  acyclic : ∀ item, ¬Relation.TransGen (fun owner child => (owner, child) ∈ pairs) item item

namespace IsForest

variable {α β : Type} {pairs : List (α × α)} {others : List (β × β)} {place : α → β}
  {known : α → Prop}

/-- A chain of pairs under names that tell the ends of pairs apart comes from a chain of pairs. -/
theorem exists_transGen (ends : ∀ pair ∈ pairs, known pair.1 ∧ known pair.2)
    (apart : ∀ first, known first → ∀ second, known second → place first = place second →
      first = second)
    (origin : others ⊆ pairs.map (Prod.map place place)) {first last : β}
    (chain : Relation.TransGen (fun owner child => (owner, child) ∈ others) first last) :
    ∃ start stop, known start ∧ known stop ∧ place start = first ∧ place stop = last ∧
      Relation.TransGen (fun owner child => (owner, child) ∈ pairs) start stop := by
  have before {owner child : β} (member : (owner, child) ∈ others) : ∃ start stop,
      (start, stop) ∈ pairs ∧ place start = owner ∧ place stop = child := by
    obtain ⟨⟨start, stop⟩, there, same⟩ := List.mem_map.mp (origin member)
    exact ⟨start, stop, there, congrArg Prod.fst same, congrArg Prod.snd same⟩
  induction chain with
  | single member =>
      obtain ⟨start, stop, there, isFirst, isLast⟩ := before member
      exact ⟨start, stop, (ends _ there).1, (ends _ there).2, isFirst, isLast, .single there⟩
  | tail _ member ih =>
      obtain ⟨start, between, startKnown, betweenKnown, isFirst, isBetween, chain⟩ := ih
      obtain ⟨next, stop, there, isNext, isLast⟩ := before member
      obtain rfl := apart next (ends _ there).1 between betweenKnown (isNext.trans isBetween.symm)
      exact ⟨start, stop, startKnown, (ends _ there).2, isFirst, isLast, chain.tail there⟩

/-- Pairs of a forest under names that tell the ends of pairs apart, of which some may be left out,
form a forest. -/
theorem of_subperm (forest : IsForest pairs)
    (ends : ∀ pair ∈ pairs, known pair.1 ∧ known pair.2)
    (apart : ∀ first, known first → ∀ second, known second → place first = place second →
      first = second)
    (fewer : others.Subperm (pairs.map (Prod.map place place))) : IsForest others where
  oneContainer := by
    have targets := subperm_map Prod.snd fewer
    rw [List.map_map] at targets
    refine nodup_of_subperm targets ?_
    change (pairs.map (place ∘ Prod.snd)).Nodup
    rw [← List.map_map]
    refine List.Nodup.map_on (fun first firstMember second secondMember same => ?_)
      forest.oneContainer
    obtain ⟨pair, member, rfl⟩ := List.mem_map.mp firstMember
    obtain ⟨other, otherMember, rfl⟩ := List.mem_map.mp secondMember
    exact apart _ (ends pair member).2 _ (ends other otherMember).2 same
  acyclic item cycle := by
    obtain ⟨start, stop, startKnown, stopKnown, isStart, isStop, chain⟩ :=
      exists_transGen ends apart fewer.subset cycle
    obtain rfl := apart start startKnown stop stopKnown (isStart.trans isStop.symm)
    exact forest.acyclic start chain

end IsForest

/-! ### Graphs -/

/-- The container and what it contains, if an edge of a kind between two nodes tells of that. -/
def EdgeKind.containment? (kind : EdgeKind) (source target : String) : Option (String × String) :=
  if kind = .contains then some (source, target) else none

/-- Only edges of containment contain anything. -/
theorem EdgeKind.containment?_eq_some_iff {kind : EdgeKind} {source target owner child : String} :
    kind.containment? source target = some (owner, child) ↔
      kind = .contains ∧ source = owner ∧ target = child := by
  simp [containment?]

/-- What an edge tells of containment. -/
def Edge.containment? (edge : Edge) : Option (String × String) :=
  edge.kind.containment? edge.source edge.target

namespace CodeGraph

variable {graph : CodeGraph}

/-- What contains what, once for every edge. -/
def containments (graph : CodeGraph) : List (String × String) :=
  graph.edges.filterMap Edge.containment?

/-- No node contains itself, directly or through others. -/
def Acyclic (graph : CodeGraph) : Prop := ∀ id, ¬Relation.TransGen graph.Contains id id

/-- No node is contained in two places, and none contains itself, directly or through others. -/
structure Forest (graph : CodeGraph) : Prop where
  oneContainer : ∀ first ∈ graph.edges, ∀ second ∈ graph.edges, first.kind = .contains →
    second.kind = .contains → first.target = second.target → first = second
  acyclic : graph.Acyclic

/-- The pairs of a graph are those of which one contains the other. -/
theorem mem_containments_iff {owner child : String} :
    (owner, child) ∈ graph.containments ↔ graph.Contains owner child := by
  rw [containments, List.mem_filterMap]
  constructor
  · rintro ⟨edge, member, contains⟩
    obtain ⟨kind, source, target⟩ := EdgeKind.containment?_eq_some_iff.mp contains
    exact ⟨edge, member, kind, source, target⟩
  · rintro ⟨edge, leads⟩
    exact ⟨edge, leads.member,
      EdgeKind.containment?_eq_some_iff.mpr ⟨leads.kind, leads.source, leads.target⟩⟩

/-- A graph is a forest if what its edges tell is one. -/
theorem WellFormed.forest_iff (wellFormed : graph.WellFormed) :
    graph.Forest ↔ IsForest graph.containments := by
  have same : (fun owner child => (owner, child) ∈ graph.containments) = graph.Contains := by
    funext owner child
    exact propext mem_containments_iff
  have acyclic : graph.Acyclic ↔
      ∀ id, ¬Relation.TransGen (fun owner child => (owner, child) ∈ graph.containments) id id := by
    rw [same, Acyclic]
  have targets : graph.containments.map Prod.snd =
      (graph.edges.filter (·.kind = .contains)).map (·.target) := by
    rw [containments, List.map_filterMap, ← List.filterMap_eq_map, List.filterMap_filter]
    refine List.filterMap_congr fun edge _ => ?_
    by_cases contains : edge.kind = .contains <;>
      simp [Edge.containment?, EdgeKind.containment?, contains]
  constructor
  · intro forest
    refine ⟨?_, acyclic.mp forest.acyclic⟩
    rw [targets]
    refine List.Nodup.map_on (fun first firstMember second secondMember ends => ?_)
      ((wellFormed.edgeIds.of_map _).filter _)
    obtain ⟨firstMember, firstContains⟩ := List.mem_filter.mp firstMember
    obtain ⟨secondMember, secondContains⟩ := List.mem_filter.mp secondMember
    exact forest.oneContainer first firstMember second secondMember
      (of_decide_eq_true firstContains) (of_decide_eq_true secondContains) ends
  · intro forest
    have distinct := targets ▸ forest.oneContainer
    refine ⟨fun first firstMember second secondMember firstContains secondContains ends => ?_,
      acyclic.mpr forest.acyclic⟩
    exact List.inj_on_of_nodup_map distinct
      (List.mem_filter.mpr ⟨firstMember, decide_eq_true firstContains⟩)
      (List.mem_filter.mpr ⟨secondMember, decide_eq_true secondContains⟩) ends

theorem WellFormed.hasNode_of_mem_containments (wellFormed : graph.WellFormed) :
    ∀ pair ∈ graph.containments, graph.hasNode pair.1 ∧ graph.hasNode pair.2 :=
  fun _ member => wellFormed.hasNode_of_contains (mem_containments_iff.mp member)

/-- With fewer edges nodes contain less. -/
theorem contains_of_subset {after : CodeGraph} (fewer : after.edges ⊆ graph.edges)
    {owner child : String} (contains : after.Contains owner child) :
    graph.Contains owner child := by
  obtain ⟨edge, leads⟩ := contains
  exact ⟨edge, fewer leads.member, leads.kind, leads.source, leads.target⟩

/-- With fewer edges a forest is one. -/
theorem Forest.of_subset {after : CodeGraph} (forest : graph.Forest)
    (fewer : after.edges ⊆ graph.edges) : after.Forest where
  oneContainer first firstMember second secondMember :=
    forest.oneContainer first (fewer firstMember) second (fewer secondMember)
  acyclic id cycle :=
    forest.acyclic id (Relation.TransGen.mono (fun _ _ => contains_of_subset fewer) id id cycle)

/-! ### Graphs of source texts -/

/-- A node with the id of a node that was there before is that node. -/
theorem WellFormed.mem_of_mem_addNode (wellFormed : graph.WellFormed) {kind : NodeKind}
    {label : String} {attributes : Attributes} {node : Node}
    (member : node ∈ (graph.addNode kind label attributes).2.nodes)
    (there : graph.hasNode node.id) : node ∈ graph.nodes := by
  obtain ⟨other, otherMember, same⟩ := List.mem_map.mp (hasNode_iff.mp there)
  obtain rfl := (wellFormed.addNode kind label attributes).eq_of_id
    (List.mem_append_left _ otherMember) member same
  exact otherMember

/-- Adding an edge adds no node. -/
theorem WellFormed.hasNode_addEdge (wellFormed : graph.WellFormed) (source target : String)
    (kind : EdgeKind) (attributes : Attributes) :
    (graph.addEdge source target kind attributes).2.hasNode = graph.hasNode := by
  by_cases present : graph.hasNode source ∧ graph.hasNode target
  · rw [wellFormed.addEdge_eq present.1 present.2]
    rfl
  · rw [addEdge_of_missing present]
    rfl

/-- A built graph in which what contains a node was created before it. -/
structure InOrder (graph : CodeGraph) : Prop extends graph.Built where
  earlier : ∀ owner ∈ graph.nodes, ∀ child ∈ graph.nodes, graph.Contains owner.id child.id →
    owner.seq < child.seq

namespace InOrder

theorem empty : ({} : CodeGraph).InOrder where
  toBuilt := .empty
  earlier := by simp

/-- What is further inside comes later. -/
theorem exists_seq_lt (inOrder : graph.InOrder) {owner child : String}
    (chain : Relation.TransGen graph.Contains owner child) :
    ∃ first ∈ graph.nodes, ∃ last ∈ graph.nodes, first.id = owner ∧ last.id = child ∧
      first.seq < last.seq := by
  have step {owner child : String} (contains : graph.Contains owner child) :
      ∃ first ∈ graph.nodes, ∃ last ∈ graph.nodes, first.id = owner ∧ last.id = child ∧
        first.seq < last.seq := by
    obtain ⟨ownerThere, childThere⟩ := inOrder.wellFormed.hasNode_of_contains contains
    obtain ⟨first, firstMember, rfl⟩ := List.mem_map.mp (hasNode_iff.mp ownerThere)
    obtain ⟨last, lastMember, rfl⟩ := List.mem_map.mp (hasNode_iff.mp childThere)
    exact ⟨first, firstMember, last, lastMember, rfl, rfl,
      inOrder.earlier first firstMember last lastMember contains⟩
  induction chain with
  | single contains => exact step contains
  | tail _ contains ih =>
      obtain ⟨first, firstMember, between, betweenMember, rfl, rfl, before⟩ := ih
      obtain ⟨other, otherMember, last, lastMember, same, rfl, after⟩ := step contains
      obtain rfl := inOrder.wellFormed.eq_of_id otherMember betweenMember same
      exact ⟨first, firstMember, last, lastMember, rfl, rfl, Nat.lt_trans before after⟩

/-- Containers that are created first make a forest. -/
theorem forest (inOrder : graph.InOrder) : graph.Forest where
  oneContainer := inOrder.oneContainer
  acyclic id cycle := by
    obtain ⟨first, firstMember, last, lastMember, isFirst, isLast, before⟩ :=
      inOrder.exists_seq_lt cycle
    obtain rfl := inOrder.wellFormed.eq_of_id firstMember lastMember (isFirst.trans isLast.symm)
    exact Nat.lt_irrefl _ before

/-- A node that is added last is in order. -/
theorem addNode (inOrder : graph.InOrder) (kind : NodeKind) (label : String)
    (attributes : Attributes) : (graph.addNode kind label attributes).2.InOrder where
  toBuilt := inOrder.toBuilt.addNode kind label attributes
  earlier owner ownerMember child childMember contains := by
    obtain ⟨edge, leads⟩ := contains
    have before : graph.Contains owner.id child.id :=
      ⟨edge, leads.member, leads.kind, leads.source, leads.target⟩
    have ends := inOrder.wellFormed.hasNode_of_contains before
    exact inOrder.earlier owner (inOrder.wellFormed.mem_of_mem_addNode ownerMember ends.1)
      child (inOrder.wellFormed.mem_of_mem_addNode childMember ends.2) before

/-- An edge is added that contains nothing, or that contains what nothing has contained yet and was
created later. -/
theorem addEdge (inOrder : graph.InOrder) (source target : String) (kind : EdgeKind)
    (attributes : Attributes)
    (first : kind = .contains → ∀ edge ∈ graph.edges, edge.kind = .contains →
      edge.target ≠ target)
    (later : kind = .contains → ∀ owner ∈ graph.nodes, ∀ child ∈ graph.nodes, owner.id = source →
      child.id = target → owner.seq < child.seq) :
    (graph.addEdge source target kind attributes).2.InOrder where
  toBuilt := inOrder.toBuilt.addEdge source target kind attributes first
  earlier owner ownerMember child childMember contains := by
    by_cases present : graph.hasNode source ∧ graph.hasNode target
    · rw [inOrder.wellFormed.addEdge_eq present.1 present.2] at ownerMember childMember contains
      obtain ⟨edge, leads⟩ := contains
      rcases List.mem_append.mp leads.member with old | new
      · exact inOrder.earlier owner ownerMember child childMember
          ⟨edge, old, leads.kind, leads.source, leads.target⟩
      · obtain rfl := List.mem_singleton.mp new
        exact later leads.kind owner ownerMember child childMember leads.source.symm
          leads.target.symm
    · rw [addEdge_of_missing present] at ownerMember childMember contains
      obtain ⟨edge, leads⟩ := contains
      exact inOrder.earlier owner ownerMember child childMember
        ⟨edge, leads.member, leads.kind, leads.source, leads.target⟩

end InOrder

end CodeGraph

namespace Draft

variable {draft : Draft}

/-- A draft goes on to a later one. -/
structure GoesOn (before after : Draft) : Prop where
  inOrder : after.graph.InOrder
  stays : ∀ id, before.graph.hasNode id → after.graph.hasNode id

/-- A draft goes on step by step. -/
theorem GoesOn.trans {before between after : Draft} (first : before.GoesOn between)
    (second : between.GoesOn after) : before.GoesOn after where
  inOrder := second.inOrder
  stays id there := second.stays id (first.stays id there)

theorem GoesOn.refl (inOrder : draft.graph.InOrder) : draft.GoesOn draft := ⟨inOrder, fun _ => id⟩

/-- A construct is added after what contains it. -/
theorem goesOn_withConstruct (inOrder : draft.graph.InOrder) {owner : Option String}
    (there : ∀ id ∈ owner, draft.graph.hasNode id) (outline : Outline) :
    draft.GoesOn (draft.withConstruct owner outline).2 ∧
      (draft.withConstruct owner outline).2.graph.hasNode
        (draft.withConstruct owner outline).1 := by
  have added := inOrder.addNode outline.kind outline.label outline.attributes
  cases owner with
  | none =>
      exact ⟨⟨added, fun id old => CodeGraph.hasNode_addNode.mpr (.inl old)⟩,
        CodeGraph.hasNode_addNode.mpr (.inr rfl)⟩
  | some owner =>
      have stays {id : String} (old : (draft.graph.addNode outline.kind outline.label
          outline.attributes).2.hasNode id) :
          (draft.withConstruct (some owner) outline).2.graph.hasNode id :=
        (congrFun (added.wellFormed.hasNode_addEdge owner _ .contains ∅) id).trans old
      refine ⟨⟨?_, fun id old => stays (CodeGraph.hasNode_addNode.mpr (.inl old))⟩,
        stays (CodeGraph.hasNode_addNode.mpr (.inr rfl))⟩
      refine added.addEdge owner _ .contains ∅ (fun _ edge member _ same => ?_) fun _ => ?_
      · -- No edge ends at the new node, since edges end at nodes and its id is fresh.
        have ending := CodeGraph.hasNode_iff.mp (inOrder.wellFormed.endpoints edge member).2
        rw [same] at ending
        exact draft.graph.nodeName_freshNode_not_mem ending
      · intro first firstMember last lastMember isOwner isNew
        have fresh := draft.graph.nodeName_freshNode_not_mem
        have old := inOrder.wellFormed.mem_of_mem_addNode firstMember (isOwner ▸ there owner rfl)
        rcases List.mem_append.mp lastMember with lastOld | lastNew
        · exact absurd (List.mem_map.mpr ⟨last, lastOld, isNew⟩) fresh
        · obtain rfl := List.mem_singleton.mp lastNew
          exact inOrder.wellFormed.nodeBound first old

mutual

/-- Placing a construct goes on with a draft. -/
theorem goesOn_placed : ∀ (outline : Outline) {draft : Draft} {owner : Option String},
    draft.graph.InOrder → (∀ id ∈ owner, draft.graph.hasNode id) →
      draft.GoesOn (draft.placed owner outline)
  | ⟨kind, label, attributes, callees, children⟩, _, owner, inOrder, there => by
    obtain ⟨added, placed⟩ :=
      goesOn_withConstruct inOrder there ⟨kind, label, attributes, callees, []⟩
    unfold Draft.placed
    exact added.trans (goesOn_placedAll children added.inOrder fun id same => by
      cases same
      exact placed)

/-- Placing constructs goes on with a draft. -/
theorem goesOn_placedAll : ∀ (outlines : List Outline) {draft : Draft} {owner : Option String},
    draft.graph.InOrder → (∀ id ∈ owner, draft.graph.hasNode id) →
      draft.GoesOn (draft.placedAll owner outlines)
  | [], _, _, inOrder, _ => by
    unfold placedAll
    exact .refl inOrder
  | outline :: rest, _, _, inOrder, there => by
    have first := goesOn_placed outline inOrder there
    unfold placedAll
    exact first.trans
      (goesOn_placedAll rest first.inOrder fun id isOwner => first.stays id (there id isOwner))

end

/-- Other links than containment keep the order. -/
theorem inOrder_linked (inOrder : draft.graph.InOrder) (source target : String) {kind : EdgeKind}
    (other : kind ≠ .contains) : (draft.linked source target kind).graph.InOrder :=
  inOrder.addEdge source target kind ∅ (fun contains => absurd contains other)
    fun contains => absurd contains other

/-- Steps that keep the order do so in a loop. -/
theorem inOrder_foldl {α : Type} {step : Draft → α → Draft} {items : List α}
    (kept : ∀ draft : Draft, ∀ item ∈ items, draft.graph.InOrder → (step draft item).graph.InOrder)
    (inOrder : draft.graph.InOrder) : (items.foldl step draft).graph.InOrder :=
  List.foldlRecOn items step inOrder fun draft inOrder item member => kept draft item member inOrder

end Draft

/-- **Graphs of source texts are forests.** -/
theorem buildGraph_forest {tree : SyntaxTree} {graph : CodeGraph}
    (ok : buildGraph tree = .ok graph) : graph.Forest := by
  rw [buildGraph_eq] at ok
  split at ok
  · rename_i outlines _
    cases ok
    have placed : (({} : Draft).placedAll none outlines).graph.InOrder :=
      (Draft.goesOn_placedAll outlines .empty (by simp)).inOrder
    refine (Draft.inOrder_foldl (fun linked relation member inOrder => ?_)
      (Draft.inOrder_foldl (fun linked call _ inOrder => ?_) placed)).forest
    · obtain ⟨entry, _, there⟩ := List.mem_flatMap.mp member
      exact Draft.inOrder_linked inOrder _ _ (Draft.ne_contains_of_mem_supertypesOf there)
    · exact Draft.inOrder_linked inOrder call.1 call.2 (by decide)
  · cases ok

end Transcode
