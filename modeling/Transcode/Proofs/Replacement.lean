import Transcode.Proofs.WellFormed
import Transcode.Transform.Apply

/-!
# Putting nodes in the place of others

When nodes are replaced, the edges at them are taken out, moved and put back at their places in the
sequence. In the end every edge has stayed, moved or gone, and none has changed its place:
`CodeGraph.replaceNodes_eq` gives the result as one pass of `Edge.rewritten?` over the edges.
-/

namespace Transcode

/-- Whether an edge starts or ends at one of the given nodes. -/
def Edge.touches (ids : List String) (edge : Edge) : Bool :=
  ids.contains edge.source || ids.contains edge.target

/-- What becomes of an edge when nodes are replaced: one elsewhere stays, one of the match goes, and
any other moves unless it then says that a node contains itself. -/
def Edge.rewritten? (found : Match) (replacements : List (String × String)) (edge : Edge) :
    Option Edge :=
  if !edge.touches (replacements.map (·.1)) then some edge
  else if found.edges.any (·.edge = edge.id) ||
    (edge.moved replacements).isContainmentLoop then none
  else some (edge.moved replacements)

namespace Edge

variable {edge other : Edge} {ids : List String} {replacements : List (String × String)}

theorem touches_iff : edge.touches ids ↔ edge.source ∈ ids ∨ edge.target ∈ ids := by
  simp [touches]

theorem touches_eq_false_iff :
    edge.touches ids = false ↔ edge.source ∉ ids ∧ edge.target ∉ ids := by
  simp [touches]

@[simp] theorem moved_id : (edge.moved replacements).id = edge.id := rfl

@[simp] theorem moved_kind : (edge.moved replacements).kind = edge.kind := rfl

/-- An edge is kept where it touches nothing, and moved where it is no edge of the match and does
not become a loop of containment. -/
theorem rewritten?_eq_some_iff {found : Match} :
    edge.rewritten? found replacements = some other ↔
      (edge.touches (replacements.map (·.1)) = false ∧ edge = other) ∨
        (edge.touches (replacements.map (·.1)) = true ∧
          found.edges.any (·.edge = edge.id) = false ∧
          (edge.moved replacements).isContainmentLoop = false ∧
          edge.moved replacements = other) := by
  unfold rewritten?
  by_cases touched : edge.touches (replacements.map (·.1)) = true
  · by_cases matched : found.edges.any (·.edge = edge.id) = true
    · simp [touched, matched]
    · by_cases loop : (edge.moved replacements).isContainmentLoop = true
      · simp [touched, matched, loop]
      · simp [touched, matched, loop]
  · simp [touched]

/-- An edge that is rewritten keeps its id. -/
theorem id_of_rewritten? {found : Match}
    (rewritten : edge.rewritten? found replacements = some other) :
    other.id = edge.id := by
  rcases rewritten?_eq_some_iff.mp rewritten with ⟨_, rfl⟩ | ⟨_, _, _, rfl⟩ <;> rfl

/-- An edge that is rewritten keeps its place. -/
theorem seq_of_rewritten? {found : Match}
    (rewritten : edge.rewritten? found replacements = some other) :
    other.seq = edge.seq := by
  rcases rewritten?_eq_some_iff.mp rewritten with ⟨_, rfl⟩ | ⟨_, _, _, rfl⟩ <;> rfl

end Edge

namespace CodeGraph

variable {graph : CodeGraph}

/-! ### The edges at the nodes -/

/-- Edges met earlier, then those of a list whose ids have not been met. -/
private def meet (met : List Edge) (edge : Edge) : List Edge :=
  if met.any (·.id = edge.id) then met else met ++ [edge]

/-- No edge is met twice. -/
private theorem nodup_meet (edges met : List Edge) (distinct : (met.map (·.id)).Nodup) :
    ((edges.foldl meet met).map (·.id)).Nodup := by
  induction edges generalizing met with
  | nil => exact distinct
  | cons edge rest ih =>
      refine ih (meet met edge) ?_
      unfold meet
      split
      · exact distinct
      · rename_i unmet
        simp only [List.any_eq_true, decide_eq_true_eq, not_exists, not_and] at unmet
        rw [List.map_append, List.nodup_append]
        refine ⟨distinct, List.nodup_singleton _, ?_⟩
        intro first firstMember second secondMember
        obtain ⟨old, oldMember, rfl⟩ := List.mem_map.mp firstMember
        rw [List.map_singleton, List.mem_singleton] at secondMember
        exact secondMember ▸ unmet old oldMember

/-- What is met was met before or is among the edges. -/
private theorem mem_or_mem_of_mem_meet (edges met : List Edge) {edge : Edge}
    (member : edge ∈ edges.foldl meet met) : edge ∈ met ∨ edge ∈ edges := by
  induction edges generalizing met with
  | nil => exact .inl member
  | cons head rest ih =>
      rcases ih (meet met head) member with old | new
      · unfold meet at old
        split at old
        · exact .inl old
        · rcases List.mem_append.mp old with old | head
          · exact .inl old
          · exact .inr (List.mem_cons.mpr (.inl (List.mem_singleton.mp head)))
      · exact .inr (List.mem_cons_of_mem head new)

/-- Each edge is met, by its id. -/
private theorem exists_mem_meet (edges met : List Edge) (id : String)
    (known : id ∈ met.map (·.id) ∨ id ∈ edges.map (·.id)) :
    id ∈ (edges.foldl meet met).map (·.id) := by
  induction edges generalizing met with
  | nil => simpa using known
  | cons head rest ih =>
      refine ih (meet met head) ?_
      rw [List.map_cons, List.mem_cons, ← or_assoc] at known
      refine known.imp_left ?_
      unfold meet
      split
      · rename_i seen
        rintro (old | rfl)
        · exact old
        · simpa using seen
      · rintro (old | rfl)
        · rw [List.map_append]
          exact List.mem_append_left _ old
        · simp

theorem nodup_edgesAt (graph : CodeGraph) (ids : List String) :
    ((graph.edgesAt ids).map (·.id)).Nodup :=
  nodup_meet _ [] List.nodup_nil

/-- The edges from and to some nodes are those that touch them. -/
theorem mem_flatMap_incident {ids : List String} {edge : Edge} :
    (edge ∈ ids.flatMap fun id => graph.outgoing id ++ graph.incoming id) ↔
      edge ∈ graph.edges ∧ edge.touches ids := by
  rw [Edge.touches_iff]
  simp only [List.mem_flatMap, List.mem_append, outgoing, incoming, List.mem_filter,
    decide_eq_true_eq]
  constructor
  · rintro ⟨id, known, ⟨member, rfl⟩ | ⟨member, rfl⟩⟩
    · exact ⟨member, .inl known⟩
    · exact ⟨member, .inr known⟩
  · rintro ⟨member, known | known⟩
    · exact ⟨edge.source, known, .inl ⟨member, rfl⟩⟩
    · exact ⟨edge.target, known, .inr ⟨member, rfl⟩⟩

/-- The edges at some nodes are edges that touch them. -/
theorem mem_edges_of_mem_edgesAt {ids : List String} {edge : Edge}
    (member : edge ∈ graph.edgesAt ids) : edge ∈ graph.edges ∧ edge.touches ids := by
  rcases mem_or_mem_of_mem_meet _ [] member with none | some
  · cases none
  · exact mem_flatMap_incident.mp some

/-- The edges at some nodes are those that touch them. -/
theorem WellFormed.mem_edgesAt_iff (wellFormed : graph.WellFormed) {ids : List String}
    {edge : Edge} : edge ∈ graph.edgesAt ids ↔ edge ∈ graph.edges ∧ edge.touches ids := by
  refine ⟨mem_edges_of_mem_edgesAt, fun there => ?_⟩
  have known := exists_mem_meet (ids.flatMap fun id => graph.outgoing id ++ graph.incoming id) []
    edge.id (.inr (List.mem_map_of_mem (mem_flatMap_incident.mpr there)))
  obtain ⟨other, member, same⟩ := List.mem_map.mp known
  have otherThere : other ∈ graph.edges ∧ other.touches ids := mem_edges_of_mem_edgesAt member
  rwa [← wellFormed.edge_eq_of_id otherThere.1 there.1 same]

/-! ### Taking out and putting back -/

/-- Removing edges one by one. -/
theorem foldl_removeEdge (edges : List Edge) (graph : CodeGraph) :
    edges.foldl (fun graph edge => graph.removeEdge edge.id) graph =
      { graph with edges := graph.edges.filter (·.id ∉ edges.map (·.id)) } := by
  induction edges generalizing graph with
  | nil => simp
  | cons edge rest ih =>
      rw [List.foldl_cons, ih]
      simp only [removeEdge, List.filter_filter, List.map_cons, List.mem_cons, not_or]
      congr 2
      funext other
      simp [Bool.and_comm]

/-- Removing replaced nodes one by one. -/
theorem dropReplaced_eq (replacements : List (String × String)) (graph : CodeGraph) :
    graph.dropReplaced replacements =
      { graph with
        nodes := graph.nodes.filter (·.id ∉ replacements.map (·.1))
        edges := graph.edges.filter (!·.touches (replacements.map (·.1)))
        forwarding := replacements.foldl (fun forwarding replacement =>
          forwarding.insert replacement.1 replacement.2) graph.forwarding } := by
  unfold dropReplaced
  induction replacements generalizing graph with
  | nil => simp [Edge.touches]
  | cons replacement rest ih =>
      rw [List.foldl_cons, ih]
      simp only [removeNode, forward, List.filter_filter, List.map_cons, List.mem_cons, not_or,
        List.foldl_cons]
      congr 2
      · funext node
        simp [Bool.and_comm]
      · funext edge
        simp only [Edge.touches, List.contains_cons]
        grind

/-- Putting an edge at its place does not change what there is in all. -/
theorem append_insertBySeq_perm (edges placed : List Edge) (edge : Edge) :
    (edges ++ insertBySeq edge placed).Perm (edge :: (edges ++ placed)) :=
  ((insertBySeq_perm edge placed).append_left edges).trans List.perm_middle

/-- Edges put one by one at their places. -/
def insertAllBySeq (edges placed : List Edge) : List Edge :=
  edges.foldl (fun placed edge => insertBySeq edge placed) placed

/-- Edges that are put at their places are added. -/
theorem insertAllBySeq_perm (edges placed : List Edge) :
    (insertAllBySeq edges placed).Perm (edges ++ placed) := by
  induction edges generalizing placed with
  | nil => exact .refl _
  | cons edge rest ih =>
      exact (ih (insertBySeq edge placed)).trans (append_insertBySeq_perm rest placed edge)

/-- Edges that are put at their places are in order. -/
theorem pairwise_insertAllBySeq {edges placed : List Edge}
    (order : placed.Pairwise (·.seq < ·.seq))
    (distinct : ((edges ++ placed).map (·.seq)).Nodup) :
    (insertAllBySeq edges placed).Pairwise (·.seq < ·.seq) := by
  induction edges generalizing placed with
  | nil => exact order
  | cons edge rest ih =>
      rw [List.cons_append, List.map_cons, List.nodup_cons] at distinct
      obtain ⟨own, later⟩ := distinct
      refine ih (pairwise_insertBySeq order ?_) ?_
      · intro other member same
        exact own (same ▸ List.mem_map_of_mem (List.mem_append_right rest member))
      · rw [((append_insertBySeq_perm rest placed edge).map _).nodup_iff]
        exact List.nodup_cons.mpr ⟨own, later⟩

/-- Edges with ids of their own whose ends are nodes can all be added. -/
theorem insertEdges_eq (edges : List Edge) (graph : CodeGraph)
    (distinct : ((edges ++ graph.edges).map (·.id)).Nodup)
    (ends : ∀ edge ∈ edges, graph.hasNode edge.source ∧ graph.hasNode edge.target) :
    insertEdges edges graph = (.ok (), { graph with
      edges := insertAllBySeq edges graph.edges
      nextEdgeSeq :=
        edges.foldl (fun next edge => max next (edge.seq + 1)) graph.nextEdgeSeq }) := by
  induction edges generalizing graph with
  | nil => rfl
  | cons edge rest ih =>
      rw [List.cons_append, List.map_cons, List.nodup_cons, List.map_append, List.mem_append,
        not_or] at distinct
      obtain ⟨⟨other, unused⟩, later⟩ := distinct
      have added := insertEdge_eq_ok_iff.mpr
        ⟨⟨unused, ends edge List.mem_cons_self⟩, rfl⟩
      unfold insertEdges
      rw [added]
      dsimp only
      rw [ih]
      · rfl
      · rw [((append_insertBySeq_perm rest graph.edges edge).map _).nodup_iff, List.map_cons,
          List.map_append]
        refine List.nodup_cons.mpr ⟨?_, later⟩
        rw [List.mem_append, not_or]
        exact ⟨other, unused⟩
      · exact fun other member => ends other (List.mem_cons_of_mem edge member)

/-- Adding edges with sequence numbers of their own, as far as it goes. -/
theorem WellFormed.insertEdges (wellFormed : graph.WellFormed) {edges : List Edge}
    (distinct : ((edges ++ graph.edges).map (·.seq)).Nodup) :
    (insertEdges edges graph).2.WellFormed := by
  induction edges generalizing graph with
  | nil => exact wellFormed
  | cons edge rest ih =>
      rw [List.cons_append, List.map_cons, List.nodup_cons] at distinct
      obtain ⟨own, later⟩ := distinct
      unfold CodeGraph.insertEdges
      split
      · rename_i after added
        refine ih (wellFormed.insertEdge ?_ added) ?_
        · intro other member same
          exact own (same ▸ List.mem_map_of_mem (List.mem_append_right rest member))
        · obtain ⟨_, rfl⟩ := insertEdge_eq_ok_iff.mp added
          rw [((append_insertBySeq_perm rest graph.edges edge).map _).nodup_iff]
          exact List.nodup_cons.mpr ⟨own, later⟩
      · exact wellFormed

/-! ### The border of a match -/

/-- The graph without replaced nodes and the edges at them. -/
def without (graph : CodeGraph) (replacements : List (String × String)) : CodeGraph :=
  { graph with
    nodes := graph.nodes.filter (·.id ∉ replacements.map (·.1))
    edges := graph.edges.filter (!·.touches (replacements.map (·.1)))
    forwarding := replacements.foldl (fun forwarding replacement =>
      forwarding.insert replacement.1 replacement.2) graph.forwarding }

variable {found : Match} {replacements : List (String × String)}

/-- Removing what is replaced keeps a graph well-formed. -/
theorem WellFormed.without (wellFormed : graph.WellFormed) (replacements : List (String × String)) :
    (graph.without replacements).WellFormed := by
  refine wellFormed.of_sublist List.filter_sublist List.filter_sublist ?_
    (Nat.le_refl _) (Nat.le_refl _)
  intro edge member
  obtain ⟨member, apart⟩ := List.mem_filter.mp member
  rw [Bool.not_eq_true', Edge.touches_eq_false_iff] at apart
  have ends := wellFormed.endpoints edge member
  simp only [hasNode_iff, List.mem_map, CodeGraph.without, List.mem_filter] at ends ⊢
  grind

/-- The border edges of a match touch what is replaced, and are no edges of the match. -/
theorem WellFormed.mem_borderEdges_iff (wellFormed : graph.WellFormed) {edge : Edge} :
    edge ∈ graph.borderEdges found ↔
      edge ∈ graph.edges ∧ edge.touches (found.replaced.map (·.node)) ∧
        found.edges.any (·.edge = edge.id) = false := by
  rw [borderEdges, List.mem_filter, wellFormed.mem_edgesAt_iff, and_assoc, Bool.not_eq_true']

theorem nodup_borderEdges (graph : CodeGraph) (found : Match) :
    ((graph.borderEdges found).map (·.id)).Nodup :=
  (nodup_edgesAt graph _).sublist (List.filter_sublist.map _)

/-- The border is taken out and put back, moved, into the graph without the replaced nodes. -/
theorem WellFormed.replaceNodes_eq_insertEdges (wellFormed : graph.WellFormed)
    (keys : replacements.map (·.1) = found.replaced.map (·.node)) :
    graph.replaceNodes found replacements =
      CodeGraph.insertEdges (((graph.borderEdges found).map (·.moved replacements)).filter
        (!·.isContainmentLoop)) (graph.without replacements) := by
  unfold replaceNodes
  dsimp only
  rw [foldl_removeEdge, dropReplaced_eq]
  congr 1
  unfold CodeGraph.without
  congr 1
  rw [List.filter_filter]
  refine List.filter_congr fun edge member => ?_
  by_cases touched : edge.touches (replacements.map (·.1)) = true
  · simp [touched]
  · have outside : edge.id ∉ (graph.borderEdges found).map (·.id) := by
      intro listed
      obtain ⟨other, otherMember, same⟩ := List.mem_map.mp listed
      obtain ⟨otherThere, otherTouches, _⟩ := wellFormed.mem_borderEdges_iff.mp otherMember
      rw [wellFormed.edge_eq_of_id otherThere member same, ← keys] at otherTouches
      exact touched otherTouches
    simp [touched, outside]

/-- The edges of the border and those left are different edges of the graph. -/
theorem WellFormed.nodup_border_append (wellFormed : graph.WellFormed)
    (keys : replacements.map (·.1) = found.replaced.map (·.node)) :
    (graph.borderEdges found ++ (graph.without replacements).edges).Nodup := by
  rw [List.nodup_append]
  refine ⟨(nodup_borderEdges graph found).of_map _,
    (wellFormed.edgeIds.of_map _).sublist List.filter_sublist, ?_⟩
  rintro edge border other left rfl
  obtain ⟨_, touches, _⟩ := wellFormed.mem_borderEdges_iff.mp border
  obtain ⟨_, apart⟩ := List.mem_filter.mp left
  rw [keys, touches] at apart
  cases apart

/-- Border edges and what is left are edges of the graph. -/
theorem WellFormed.mem_edges_of_mem_border_append (wellFormed : graph.WellFormed) {edge : Edge}
    (member : edge ∈ graph.borderEdges found ++ (graph.without replacements).edges) :
    edge ∈ graph.edges := by
  rcases List.mem_append.mp member with border | left
  · exact (wellFormed.mem_borderEdges_iff.mp border).1
  · exact (List.mem_filter.mp left).1

/-- Moving edges of the border keeps whatever tells edges of the graph apart and does not depend on
their ends. -/
theorem WellFormed.nodup_moved_append {α : Type} (wellFormed : graph.WellFormed)
    (keys : replacements.map (·.1) = found.replaced.map (·.node)) (mark : Edge → α)
    (moved : ∀ edge : Edge, mark (edge.moved replacements) = mark edge)
    (apart : ∀ first ∈ graph.edges, ∀ second ∈ graph.edges, mark first = mark second →
      first = second) :
    ((((graph.borderEdges found).map (·.moved replacements)).filter (!·.isContainmentLoop) ++
      (graph.without replacements).edges).map mark).Nodup := by
  have whole : ((graph.borderEdges found ++ (graph.without replacements).edges).map mark).Nodup :=
    (wellFormed.nodup_border_append keys).map_on fun first firstMember second secondMember =>
      apart first (wellFormed.mem_edges_of_mem_border_append firstMember) second
        (wellFormed.mem_edges_of_mem_border_append secondMember)
  rw [List.map_append] at whole ⊢
  refine whole.sublist (List.Sublist.append ?_ (.refl _))
  have same : ((graph.borderEdges found).map (·.moved replacements)).map mark =
      (graph.borderEdges found).map mark := by
    rw [List.map_map]
    exact List.map_congr_left fun edge _ => moved edge
  rw [← same]
  exact List.filter_sublist.map mark

/-- The nodes that are left are those that are not replaced. -/
theorem hasNode_without {id : String} :
    (graph.without replacements).hasNode id ↔
      graph.hasNode id ∧ id ∉ replacements.map (·.1) := by
  simp only [hasNode_iff, CodeGraph.without, List.mem_map, List.mem_filter, decide_eq_true_eq]
  grind

/-- An end is moved to what replaces it, or stays if nothing does. -/
theorem lookup_getD_cases (replacements : List (String × String)) (id : String) :
    id ∉ replacements.map (·.1) ∧ (replacements.lookup id).getD id = id ∨
      (id, (replacements.lookup id).getD id) ∈ replacements := by
  cases found : replacements.lookup id with
  | none =>
      refine .inl ⟨?_, rfl⟩
      have absent := List.lookup_eq_none_iff.mp found
      rw [List.mem_map]
      rintro ⟨replacement, member, rfl⟩
      simpa using absent replacement member
  | some target =>
      obtain ⟨before, after, rfl, _⟩ := List.lookup_eq_some_iff.mp found
      exact .inr (by simp)

/-- A number above all sequence numbers stays as it is. -/
theorem foldl_max_eq {edges : List Edge} {next : Nat} (below : ∀ edge ∈ edges, edge.seq < next) :
    edges.foldl (fun next edge => max next (edge.seq + 1)) next = next := by
  induction edges with
  | nil => rfl
  | cons edge rest ih =>
      rw [List.foldl_cons, Nat.max_eq_left (below edge List.mem_cons_self)]
      exact ih fun other member => below other (List.mem_cons_of_mem edge member)

/-- **Replacing nodes.** If what replaces them is there and is not itself replaced, each edge stays,
moves or goes, and those that stay or move keep their places. -/
theorem WellFormed.replaceNodes_eq (wellFormed : graph.WellFormed)
    (keys : replacements.map (·.1) = found.replaced.map (·.node))
    (targets : ∀ replacement ∈ replacements,
      graph.hasNode replacement.2 ∧ replacement.2 ∉ replacements.map (·.1)) :
    graph.replaceNodes found replacements = (.ok (), { graph.without replacements with
      edges := graph.edges.filterMap (·.rewritten? found replacements) }) := by
  have border : ∀ edge ∈ ((graph.borderEdges found).map (·.moved replacements)).filter
      (!·.isContainmentLoop), ∃ before ∈ graph.borderEdges found,
        before.moved replacements = edge ∧ edge.isContainmentLoop = false := by
    intro edge member
    obtain ⟨listed, stays⟩ := List.mem_filter.mp member
    obtain ⟨before, there, rfl⟩ := List.mem_map.mp listed
    exact ⟨before, there, rfl, Bool.not_eq_true' _ ▸ stays⟩
  have ending (id : String) (there : graph.hasNode id) :
      (graph.without replacements).hasNode ((replacements.lookup id).getD id) := by
    rw [hasNode_without]
    rcases lookup_getD_cases replacements id with ⟨apart, stays⟩ | moves
    · exact stays.symm ▸ ⟨there, apart⟩
    · exact targets _ moves
  have ends : ∀ edge ∈ ((graph.borderEdges found).map (·.moved replacements)).filter
      (!·.isContainmentLoop), (graph.without replacements).hasNode edge.source ∧
        (graph.without replacements).hasNode edge.target := by
    intro edge member
    obtain ⟨before, there, rfl, _⟩ := border edge member
    have both := wellFormed.endpoints before (wellFormed.mem_borderEdges_iff.mp there).1
    exact ⟨ending before.source both.1, ending before.target both.2⟩
  rw [wellFormed.replaceNodes_eq_insertEdges keys, insertEdges_eq _ _
    (wellFormed.nodup_moved_append keys (·.id) (fun _ => rfl)
      fun first firstMember second secondMember =>
        wellFormed.edge_eq_of_id firstMember secondMember)
    ends]
  have bounded : ∀ edge ∈ ((graph.borderEdges found).map (·.moved replacements)).filter
      (!·.isContainmentLoop), edge.seq < (graph.without replacements).nextEdgeSeq := by
    intro edge member
    obtain ⟨before, there, rfl, _⟩ := border edge member
    exact wellFormed.edgeBound before (wellFormed.mem_borderEdges_iff.mp there).1
  rw [foldl_max_eq bounded]
  congr 2
  -- Both lists are in order of sequence, so it is enough that they have the same edges.
  refine eq_of_pairwise_lt Edge.seq
    (pairwise_insertAllBySeq (wellFormed.without replacements).edgeOrder
      (wellFormed.nodup_moved_append keys (·.seq) (fun _ => rfl) fun first firstMember second
        secondMember => wellFormed.edge_eq_of_seq firstMember secondMember)) ?_ ?_
  · refine wellFormed.edgeOrder.filterMap _ fun first second before left leftEq right rightEq => ?_
    rw [Edge.seq_of_rewritten? leftEq, Edge.seq_of_rewritten? rightEq]
    exact before
  · intro edge
    rw [(insertAllBySeq_perm _ _).mem_iff, List.mem_append, List.mem_filterMap]
    constructor
    · rintro (member | left)
      · obtain ⟨before, there, rfl, stays⟩ := border edge member
        obtain ⟨present, touches, unmatched⟩ := wellFormed.mem_borderEdges_iff.mp there
        exact ⟨before, present, Edge.rewritten?_eq_some_iff.mpr
          (.inr ⟨keys ▸ touches, unmatched, stays, rfl⟩)⟩
      · obtain ⟨present, apart⟩ := List.mem_filter.mp left
        exact ⟨edge, present, Edge.rewritten?_eq_some_iff.mpr
          (.inl ⟨Bool.not_eq_true' _ ▸ apart, rfl⟩)⟩
    · rintro ⟨before, present, rewritten⟩
      rcases Edge.rewritten?_eq_some_iff.mp rewritten with
        ⟨apart, rfl⟩ | ⟨touches, unmatched, stays, rfl⟩
      · exact .inr (List.mem_filter.mpr ⟨present, by rw [apart]; rfl⟩)
      · refine .inl (List.mem_filter.mpr ⟨List.mem_map_of_mem ?_, by rw [stays]; rfl⟩)
        exact wellFormed.mem_borderEdges_iff.mpr ⟨present, keys ▸ touches, unmatched⟩

/-- Replacing nodes keeps a graph well-formed, also when it stops on the way. -/
theorem WellFormed.replaceNodes (wellFormed : graph.WellFormed)
    (keys : replacements.map (·.1) = found.replaced.map (·.node)) :
    (graph.replaceNodes found replacements).2.WellFormed := by
  rw [wellFormed.replaceNodes_eq_insertEdges keys]
  exact (wellFormed.without replacements).insertEdges
    (wellFormed.nodup_moved_append keys (·.seq) (fun _ => rfl)
      fun first firstMember second secondMember =>
        wellFormed.edge_eq_of_seq firstMember secondMember)

end CodeGraph

end Transcode
