import Transcode.Proofs.WellFormed
import Transcode.Transform.Match

/-!
# The search for embeddings

The search without its limit (`Search.all`) gives each list of nodes that the places accept, with
different nodes that the edges connect and of which the constraints hold
(`Search.mem_all_iff`), once (`Search.nodup_all`). The limited search gives the first of them
(`Search.embeddings_eq_take`).
-/

namespace Transcode

/-! ### Nodes in order, each once -/

section DistinctBySeq

variable {graph : CodeGraph} {nodes : List Node}

/-- Leaving out a node before another with its id. -/
private def keepFirst (node : Node) (kept : List Node) : List Node :=
  if (kept.head?.map (·.id)) = some node.id then kept else node :: kept

/-- Each node is kept once. -/
private theorem mem_foldr_keepFirst (wellFormed : graph.WellFormed)
    (within : ∀ node ∈ nodes, node ∈ graph.nodes) {node : Node} :
    node ∈ nodes.foldr keepFirst [] ↔ node ∈ nodes := by
  induction nodes generalizing node with
  | nil => exact Iff.rfl
  | cons first rest ih =>
      obtain ⟨there, others⟩ := List.forall_mem_cons.mp within
      rw [List.foldr_cons, keepFirst]
      split
      · rename_i repeated
        rw [ih others, List.mem_cons]
        refine ⟨.inr, fun member => member.elim ?_ id⟩
        rintro rfl
        obtain ⟨head, isHead, same⟩ := Option.map_eq_some_iff.mp repeated
        have kept : head ∈ rest := (ih others).mp (List.mem_of_head? isHead)
        rwa [← wellFormed.eq_of_id (others head kept) there same]
      · rw [List.mem_cons, List.mem_cons, ih others]

/-- Nodes that are kept are in order. -/
private theorem pairwise_foldr_keepFirst (wellFormed : graph.WellFormed)
    (within : ∀ node ∈ nodes, node ∈ graph.nodes) (order : nodes.Pairwise (·.seq ≤ ·.seq)) :
    (nodes.foldr keepFirst []).Pairwise (·.seq < ·.seq) := by
  induction nodes with
  | nil => exact .nil
  | cons first rest ih =>
      obtain ⟨there, others⟩ := List.forall_mem_cons.mp within
      obtain ⟨before, later⟩ := List.pairwise_cons.mp order
      have kept := ih others later
      rw [List.foldr_cons, keepFirst]
      split
      · exact kept
      · rename_i new
        refine List.pairwise_cons.mpr ⟨fun node member => ?_, kept⟩
        have mem_rest (node : Node) (member : node ∈ rest.foldr keepFirst []) : node ∈ rest :=
          (mem_foldr_keepFirst wellFormed others).mp member
        -- The first of those kept is another node, and the rest come after it.
        generalize rest.foldr keepFirst [] = list at *
        cases list with
        | nil => cases member
        | cons head tail =>
            have ahead : first.seq < head.seq := by
              refine Nat.lt_of_le_of_ne (before head (mem_rest head List.mem_cons_self)) ?_
              intro same
              have equal := wellFormed.eq_of_seq there
                (others head (mem_rest head List.mem_cons_self)) same
              exact new (by rw [equal]; rfl)
            rcases List.mem_cons.mp member with rfl | member
            · exact ahead
            · exact Nat.lt_trans ahead ((List.pairwise_cons.mp kept).1 node member)

/-- Nodes that are put in order are the same nodes. -/
theorem mem_distinctBySeq (wellFormed : graph.WellFormed)
    (within : ∀ node ∈ nodes, node ∈ graph.nodes) {node : Node} :
    node ∈ distinctBySeq nodes ↔ node ∈ nodes := by
  have sorted := List.mergeSort_perm nodes (fun first second => first.seq ≤ second.seq)
  rw [← sorted.mem_iff]
  exact mem_foldr_keepFirst wellFormed fun other member => within other (sorted.mem_iff.mp member)

/-- Nodes that are put in order come once each. -/
theorem pairwise_distinctBySeq (wellFormed : graph.WellFormed)
    (within : ∀ node ∈ nodes, node ∈ graph.nodes) :
    (distinctBySeq nodes).Pairwise (·.seq < ·.seq) := by
  have sorted := List.mergeSort_perm nodes (fun first second => first.seq ≤ second.seq)
  exact pairwise_foldr_keepFirst wellFormed
    (fun other member => within other (sorted.mem_iff.mp member))
    (pairwise_mergeSort_number Node.seq nodes)

end DistinctBySeq

/-! ### Neighbours -/

namespace CodeGraph

variable {graph : CodeGraph} {kind : EdgeKind}

/-- The edge `there` is one of a graph, of a kind and between two ids. -/
structure Leads (graph : CodeGraph) (kind : EdgeKind) (source target : String) (there : Edge) :
    Prop where
  member : there ∈ graph.edges
  kind : there.kind = kind
  source : there.source = source
  target : there.target = target

/-- The edges of a kind from a node lead from it. -/
theorem mem_outgoingOf {id : String} {there : Edge} :
    there ∈ graph.outgoingOf kind id ↔ graph.Leads kind id there.target there := by
  simp only [outgoingOf, outgoing, List.mem_filter, decide_eq_true_eq]
  exact ⟨fun ⟨⟨member, source⟩, same⟩ => ⟨member, same, source, rfl⟩,
    fun leads => ⟨⟨leads.member, leads.source⟩, leads.kind⟩⟩

/-- The edges of a kind to a node lead to it. -/
theorem mem_incomingOf {id : String} {there : Edge} :
    there ∈ graph.incomingOf kind id ↔ graph.Leads kind there.source id there := by
  simp only [incomingOf, incoming, List.mem_filter, decide_eq_true_eq]
  exact ⟨fun ⟨⟨member, target⟩, same⟩ => ⟨member, same, rfl, target⟩,
    fun leads => ⟨⟨leads.member, leads.target⟩, leads.kind⟩⟩

/-- Two nodes are connected if an edge leads from one to the other. -/
theorem connects_iff {source target : Node} :
    graph.connects kind source target ↔ ∃ there, graph.Leads kind source.id target.id there := by
  simp only [connects, List.any_eq_true, mem_outgoingOf, decide_eq_true_eq]
  exact exists_congr fun there =>
    ⟨fun ⟨leads, same⟩ => same ▸ leads, fun leads => ⟨leads.target.symm ▸ leads, leads.target⟩⟩

/-- Successors are nodes that an edge leads to. -/
theorem WellFormed.mem_successors (wellFormed : graph.WellFormed) {id : String} {node : Node} :
    node ∈ graph.successors kind id ↔
      node ∈ graph.nodes ∧ ∃ there, graph.Leads kind id node.id there := by
  simp only [successors, List.mem_filterMap, mem_outgoingOf, wellFormed.node?_eq_some_iff]
  constructor
  · rintro ⟨there, leads, member, same⟩
    exact ⟨member, there, same ▸ leads⟩
  · rintro ⟨member, there, leads⟩
    exact ⟨there, leads.target.symm ▸ leads, member, leads.target.symm⟩

/-- Predecessors are nodes that an edge leads from. -/
theorem WellFormed.mem_predecessors (wellFormed : graph.WellFormed) {id : String} {node : Node} :
    node ∈ graph.predecessors kind id ↔
      node ∈ graph.nodes ∧ ∃ there, graph.Leads kind node.id id there := by
  simp only [predecessors, List.mem_filterMap, mem_incomingOf, wellFormed.node?_eq_some_iff]
  constructor
  · rintro ⟨there, leads, member, same⟩
    exact ⟨member, there, same ▸ leads⟩
  · rintro ⟨member, there, leads⟩
    exact ⟨there, leads.source.symm ▸ leads, member, leads.source.symm⟩

end CodeGraph

namespace Search

variable {search : Search} {bound full : List Node} {places : List (List Node)}

/-! ### The search without its limit -/

/-- Everything that extends bound nodes by one of the candidates for each place left. -/
def all (search : Search) : List (List Node) → List Node → List (List Node)
  | [], bound => if search.pattern.constraintsHold bound then [bound] else []
  | candidates :: rest, bound =>
    (search.options bound candidates).flatMap fun node =>
      if !bound.any (·.id = node.id) && search.edgesHold (bound ++ [node]) then
        search.all rest (bound ++ [node])
      else []

/-- Only so many of the first are needed for so many of all. -/
theorem take_append_take {α : Type} (limit : Nat) (first second : List α) :
    (first.take limit ++ second).take limit = (first ++ second).take limit := by
  rw [List.take_append, List.take_append, List.take_take, Nat.min_self, List.length_take]
  congr 2
  omega

/-- Steps that each find the first of what they are to find find the first of all of it. -/
theorem toList_foldl_eq_take {α β : Type} {limit : Nat} {step : Array β → α → Array β}
    {results : α → List β}
    (each : ∀ found item, found.size ≤ limit →
      (step found item).toList = (found.toList ++ results item).take limit)
    (items : List α) (found : Array β) (bound : found.size ≤ limit) :
    (items.foldl step found).toList = (found.toList ++ items.flatMap results).take limit := by
  induction items generalizing found with
  | nil =>
      rw [List.foldl_nil, List.flatMap_nil, List.append_nil,
        List.take_of_length_le (by simpa using bound)]
  | cons item rest ih =>
      have first := each found item bound
      have bound' : (step found item).size ≤ limit := by
        rw [← Array.length_toList, first, List.length_take]
        exact Nat.min_le_left _ _
      rw [List.foldl_cons, ih _ bound', first, List.flatMap_cons, ← List.append_assoc,
        take_append_take]

/-- The limited search gives the first of what there is to find. -/
theorem toList_extend (places : List (List Node)) (bound : List Node) (found : Array (List Node))
    (size : found.size ≤ embeddingLimit) :
    (search.extend places bound found).toList =
      (found.toList ++ search.all places bound).take embeddingLimit := by
  have atLimit {found : Array (List Node)} (others : List (List Node))
      (full : found.size = embeddingLimit) :
      found.toList = (found.toList ++ others).take embeddingLimit := by
    rw [← full, ← Array.length_toList, List.take_left]
  induction places generalizing bound found with
  | nil =>
      unfold extend all
      by_cases full : found.size = embeddingLimit
      · rw [if_neg (by simp [full])]
        exact atLimit _ full
      · have room : found.size < embeddingLimit := Nat.lt_of_le_of_ne size full
        by_cases holds : search.pattern.constraintsHold bound = true
        · rw [if_pos (by simp [room, holds]), if_pos holds, Array.toList_push,
            List.take_of_length_le (by simpa using Nat.succ_le_of_lt room)]
        · rw [if_neg (by simp [holds]), if_neg holds, List.append_nil,
            List.take_of_length_le (by simpa using size)]
  | cons candidates rest ih =>
      unfold extend all
      refine toList_foldl_eq_take (fun found node size => ?_) _ found size
      by_cases full : found.size = embeddingLimit
      · rw [if_neg (by simp [full])]
        exact atLimit _ full
      · have room : found.size < embeddingLimit := Nat.lt_of_le_of_ne size full
        rw [decide_eq_true room, Bool.true_and]
        split
        · exact ih (bound ++ [node]) found size
        · rw [List.append_nil, List.take_of_length_le (by simpa using size)]

/-! ### What the search finds -/

/-- An edge of the pattern has its ends among bound nodes, and an edge of the graph between
them. -/
def Holds (search : Search) (bound : List Node) (edge : PlacedEdge) : Prop :=
  ∃ source target, bound[edge.source]? = some source ∧ bound[edge.target]? = some target ∧
    ∃ there, search.graph.Leads edge.kind source.id target.id there

/-- The edges hold that end at the node bound last. -/
theorem edgesHold_iff : search.edgesHold bound ↔ ∀ edge ∈ search.edges,
    max edge.source edge.target + 1 = bound.length → search.Holds bound edge := by
  simp only [edgesHold, List.all_eq_true, Bool.or_eq_true, decide_eq_true_eq, Holds,
    ← CodeGraph.connects_iff]
  refine forall_congr' fun edge => forall_congr' fun _ => ?_
  rw [ne_eq, ← Decidable.imp_iff_not_or]
  refine forall_congr' fun _ => ?_
  cases bound[edge.source]? <;> cases bound[edge.target]? <;> simp

/-- The neighbours that an edge allows are nodes of the graph. -/
theorem mem_nodes_of_anchored? (wellFormed : search.graph.WellFormed) {edge : PlacedEdge}
    {neighbours : List Node} (anchored : search.anchored? bound edge = some neighbours) :
    ∀ node ∈ neighbours, node ∈ search.graph.nodes := by
  unfold anchored? at anchored
  dsimp only at anchored
  split at anchored
  · obtain ⟨source, _, rfl⟩ := Option.map_eq_some_iff.mp anchored
    exact fun node member => (wellFormed.mem_successors.mp member).1
  · split at anchored
    · obtain ⟨target, _, rfl⟩ := Option.map_eq_some_iff.mp anchored
      exact fun node member => (wellFormed.mem_predecessors.mp member).1
    · cases anchored

/-- A node that an edge connects to one bound before is among the neighbours that it allows. -/
theorem mem_of_anchored? (wellFormed : search.graph.WellFormed) {edge : PlacedEdge}
    {neighbours : List Node} {node : Node}
    (anchored : search.anchored? bound edge = some neighbours)
    (holds : max edge.source edge.target + 1 = (bound ++ [node]).length →
      search.Holds (bound ++ [node]) edge)
    (member : node ∈ search.graph.nodes) : node ∈ neighbours := by
  unfold anchored? at anchored
  dsimp only at anchored
  rw [List.length_append, List.length_singleton] at holds
  split at anchored
  · rename_i places
    simp only [Bool.and_eq_true, decide_eq_true_eq] at places
    obtain ⟨source, target, sourceEq, targetEq, leads⟩ := holds (by omega)
    rw [List.getElem?_append_left places.2] at sourceEq
    rw [places.1, List.getElem?_concat_length] at targetEq
    cases targetEq
    rw [sourceEq] at anchored
    cases anchored
    exact wellFormed.mem_successors.mpr ⟨member, leads⟩
  · split at anchored
    · rename_i places
      simp only [Bool.and_eq_true, decide_eq_true_eq] at places
      obtain ⟨source, target, sourceEq, targetEq, leads⟩ := holds (by omega)
      rw [List.getElem?_append_left places.2] at targetEq
      rw [places.1, List.getElem?_concat_length] at sourceEq
      cases sourceEq
      rw [targetEq] at anchored
      cases anchored
      exact wellFormed.mem_predecessors.mpr ⟨member, leads⟩
    · cases anchored

/-- Of nodes that are candidates, an edge to a node bound before leaves out only such that it does
not connect. -/
theorem mem_options_iff (wellFormed : search.graph.WellFormed) {candidates : List Node}
    (within : ∀ node ∈ candidates, node ∈ search.graph.nodes) {node : Node}
    (holds : search.edgesHold (bound ++ [node])) :
    node ∈ search.options bound candidates ↔ node ∈ candidates := by
  unfold options
  split
  · rename_i neighbours anchored
    obtain ⟨edge, edgeMember, anchored⟩ := List.exists_of_findSome?_eq_some anchored
    have within_nodes := mem_nodes_of_anchored? wellFormed anchored
    rw [mem_distinctBySeq wellFormed
      fun other member => within_nodes other (List.mem_filter.mp member).1, List.mem_filter]
    simp only [List.any_eq_true, decide_eq_true_eq]
    constructor
    · rintro ⟨member, candidate, candidateMember, same⟩
      rwa [← wellFormed.eq_of_id (within candidate candidateMember) (within_nodes node member) same]
    · exact fun member => ⟨mem_of_anchored? wellFormed anchored
        (edgesHold_iff.mp holds edge edgeMember) (within node member), node, member, rfl⟩
  · exact Iff.rfl

/-- No option comes twice. -/
theorem nodup_options (wellFormed : search.graph.WellFormed) {candidates : List Node}
    (distinct : candidates.Nodup) : (search.options bound candidates).Nodup := by
  unfold options
  split
  · rename_i neighbours anchored
    obtain ⟨edge, _, anchored⟩ := List.exists_of_findSome?_eq_some anchored
    have order := pairwise_distinctBySeq wellFormed
      fun node (member : node ∈ neighbours.filter fun node => candidates.any (·.id = node.id)) =>
        mem_nodes_of_anchored? wellFormed anchored node (List.mem_filter.mp member).1
    exact (nodup_map_of_pairwise order).of_map _
  · exact distinct

/-- The last node of an extension is another than those before. -/
theorem any_id_eq_false_iff {node : Node} :
    (!bound.any (·.id = node.id)) = true ↔ node.id ∉ bound.map (·.id) := by
  simp

/-- A node that is admitted is not bound yet. -/
theorem nodup_concat {node : Node} {holds : Bool} (distinct : (bound.map (·.id)).Nodup)
    (admitted : (!bound.any (·.id = node.id) && holds) = true) :
    ((bound ++ [node]).map (·.id)).Nodup := by
  rw [Bool.and_eq_true, any_id_eq_false_iff] at admitted
  rw [List.map_append]
  exact List.nodup_append.mpr ⟨distinct, List.nodup_singleton _, by simpa using admitted.1⟩

/-- **What the search finds** are the extensions of bound nodes by candidates that are different
nodes, with an edge wherever there must be one and the constraints holding. -/
theorem mem_all_iff (wellFormed : search.graph.WellFormed)
    (within : ∀ candidates ∈ places, ∀ node ∈ candidates, node ∈ search.graph.nodes)
    (distinct : (bound.map (·.id)).Nodup) :
    full ∈ search.all places bound ↔
      ∃ tail, full = bound ++ tail ∧ List.Forall₂ (· ∈ ·) tail places ∧
        (full.map (·.id)).Nodup ∧
        (∀ size, bound.length < size → size ≤ full.length → search.edgesHold (full.take size)) ∧
        search.pattern.constraintsHold full := by
  induction places generalizing bound with
  | nil =>
      unfold all
      simp only [List.forall₂_nil_right_iff]
      split
      · rename_i holds
        rw [List.mem_singleton]
        constructor
        · rintro rfl
          exact ⟨[], by simp, rfl, distinct, fun size low high => by omega, holds⟩
        · rintro ⟨tail, split, rfl, _⟩
          simpa using split
      · rename_i fails
        simp only [List.not_mem_nil, false_iff]
        rintro ⟨tail, split, rfl, _, _, holds⟩
        rw [List.append_nil] at split
        exact fails (split ▸ holds)
  | cons candidates rest ih =>
      obtain ⟨here, later⟩ := List.forall_mem_cons.mp within
      unfold all
      rw [List.mem_flatMap]
      constructor
      · rintro ⟨node, option, found⟩
        split at found
        · rename_i admitted
          have extended := nodup_concat distinct admitted
          rw [Bool.and_eq_true, any_id_eq_false_iff] at admitted
          have holds := admitted.2
          have candidate := (mem_options_iff wellFormed here holds).mp option
          obtain ⟨tail, rfl, fits, ids, edges, constraints⟩ := (ih later extended).mp found
          refine ⟨node :: tail, by simp, .cons candidate fits, ids, fun size low high => ?_,
            constraints⟩
          by_cases last : size = bound.length + 1
          · have first : (bound ++ [node] ++ tail).take size = bound ++ [node] := by
              rw [last, List.take_append_of_le_length (by simp), List.take_of_length_le (by simp)]
            rwa [first]
          · refine edges size ?_ high
            rw [List.length_append, List.length_singleton]
            omega
        · cases found
      · rintro ⟨_, rfl, fits, ids, edges, constraints⟩
        cases fits with
        | @cons node _ tail _ candidate fits =>
          have regroup : bound ++ node :: tail = bound ++ [node] ++ tail := by simp
          have first : (bound ++ node :: tail).take (bound.length + 1) = bound ++ [node] := by
            rw [regroup, List.take_append_of_le_length (by simp), List.take_of_length_le (by simp)]
          have holds := edges (bound.length + 1) (Nat.lt_succ_self _) (by simp)
          rw [first] at holds
          have extended : ((bound ++ [node]).map (·.id)).Nodup := by
            rw [regroup, List.map_append] at ids
            exact (List.nodup_append.mp ids).1
          have new : node.id ∉ bound.map (·.id) := by
            rw [List.map_append, List.nodup_append] at extended
            exact fun old => extended.2.2 _ old _ (List.mem_singleton.mpr rfl) rfl
          refine ⟨node, (mem_options_iff wellFormed here holds).mpr candidate, ?_⟩
          rw [if_pos (by rw [Bool.and_eq_true, any_id_eq_false_iff]; exact ⟨new, holds⟩),
            ih later extended]
          refine ⟨tail, regroup, fits, ids, fun size low high => edges size ?_ high, constraints⟩
          rw [List.length_append, List.length_singleton] at low
          omega

/-- In any graph, what is found binds different nodes to the places left. -/
theorem exists_tail_of_mem_all (distinct : (bound.map (·.id)).Nodup)
    (found : full ∈ search.all places bound) :
    ∃ tail, full = bound ++ tail ∧ tail.length = places.length ∧ (full.map (·.id)).Nodup := by
  induction places generalizing bound with
  | nil =>
      unfold all at found
      split at found
      · obtain rfl := List.mem_singleton.mp found
        exact ⟨[], by simp, rfl, distinct⟩
      · cases found
  | cons candidates rest ih =>
      unfold all at found
      obtain ⟨node, _, found⟩ := List.mem_flatMap.mp found
      split at found
      · rename_i admitted
        obtain ⟨tail, rfl, length, ids⟩ := ih (nodup_concat distinct admitted) found
        exact ⟨node :: tail, by simp, by simp [length], ids⟩
      · cases found

/-- **The search finds nothing twice.** -/
theorem nodup_all (wellFormed : search.graph.WellFormed)
    (each : ∀ candidates ∈ places, candidates.Nodup) (distinct : (bound.map (·.id)).Nodup) :
    (search.all places bound).Nodup := by
  induction places generalizing bound with
  | nil =>
      unfold all
      split
      · exact List.nodup_singleton _
      · exact List.nodup_nil
  | cons candidates rest ih =>
      obtain ⟨here, later⟩ := List.forall_mem_cons.mp each
      unfold all
      refine List.nodup_flatMap.mpr ⟨fun node _ => ?_, ?_⟩
      · split
        · rename_i admitted
          exact ih later (nodup_concat distinct admitted)
        · exact List.nodup_nil
      · refine (nodup_options wellFormed here).imp_of_mem fun {first second} _ _ other => ?_
        -- What extends different nodes differs at their place.
        intro full inFirst inSecond
        have last {node : Node} (found : full ∈ if !bound.any (·.id = node.id) &&
            search.edgesHold (bound ++ [node]) then search.all rest (bound ++ [node]) else []) :
            full[bound.length]? = some node := by
          split at found
          · rename_i admitted
            obtain ⟨tail, rfl, _⟩ := exists_tail_of_mem_all (nodup_concat distinct admitted) found
            rw [List.getElem?_append_left (by simp), List.getElem?_concat_length]
          · cases found
        exact other (Option.some.inj ((last inFirst).symm.trans (last inSecond)))

/-! ### Embeddings -/

theorem nodup_nothing : (([] : List Node).map (·.id)).Nodup := List.nodup_nil

/-- Candidates are nodes of the graph. -/
theorem mem_nodes_of_candidates {candidates : List Node} (place : candidates ∈ search.candidates) :
    ∀ node ∈ candidates, node ∈ search.graph.nodes := by
  obtain ⟨pattern, _, rfl⟩ := List.mem_map.mp place
  exact fun node member => (List.mem_filter.mp member).1

/-- An edge of the pattern is tried when the second of its ends is bound, so in the end all have
been tried. -/
theorem forall_edgesHold_take_iff
    (places : ∀ edge ∈ search.edges, max edge.source edge.target < full.length) :
    (∀ size, 0 < size → size ≤ full.length → search.edgesHold (full.take size)) ↔
      ∀ edge ∈ search.edges, search.Holds full edge := by
  have same {size : Nat} {edge : PlacedEdge} (inside : max edge.source edge.target < size) :
      search.Holds (full.take size) edge ↔ search.Holds full edge := by
    rw [Holds, Holds, List.getElem?_take_of_lt (by omega), List.getElem?_take_of_lt (by omega)]
  constructor
  · intro tried edge member
    have bound := places edge member
    have holds := edgesHold_iff.mp (tried (max edge.source edge.target + 1) (Nat.succ_pos _) bound)
      edge member (by rw [List.length_take]; omega)
    exact (same (Nat.lt_succ_self _)).mp holds
  · intro all size _ bound
    refine edgesHold_iff.mpr fun edge member last => (same ?_).mpr (all edge member)
    rw [List.length_take] at last
    omega

/-- The search without its limit finds exactly the embeddings. -/
theorem mem_all_candidates_iff (wellFormed : search.graph.WellFormed)
    (places : ∀ edge ∈ search.edges, max edge.source edge.target < search.pattern.nodes.length) :
    full ∈ search.all search.candidates [] ↔
      List.Forall₂ (fun node place => node ∈ search.graph.nodes ∧ search.graph.accepts place node)
        full search.pattern.nodes ∧
      (full.map (·.id)).Nodup ∧ (∀ edge ∈ search.edges, search.Holds full edge) ∧
      search.pattern.constraintsHold full := by
  rw [mem_all_iff wellFormed (fun _ => mem_nodes_of_candidates) nodup_nothing]
  simp only [List.nil_append, exists_eq_left', List.length_nil, candidates,
    List.forall₂_map_right_iff, List.mem_filter]
  refine and_congr_right fun fits => and_congr_right fun _ => and_congr_left fun _ => ?_
  exact forall_edgesHold_take_iff (fits.length_eq ▸ places)

/-- The embeddings found are the first of all there are. -/
theorem embeddings_eq_take (wellFormed : search.graph.WellFormed) :
    search.embeddings = (search.all search.candidates []).take embeddingLimit := by
  unfold embeddings
  split
  · rename_i hopeless
    obtain ⟨candidates, place, isEmpty⟩ := List.any_eq_true.mp hopeless
    have none : search.all search.candidates [] = [] := by
      refine List.eq_nil_iff_forall_not_mem.mpr fun full found => ?_
      obtain ⟨tail, _, fits, _⟩ := (mem_all_iff wellFormed (fun _ => mem_nodes_of_candidates)
        nodup_nothing).mp found
      obtain ⟨node, _, member⟩ := exists_left_of_forall₂ fits candidates place
      rw [List.isEmpty_iff.mp isEmpty] at member
      cases member
    rw [none, List.take_nil]
  · rw [toList_extend _ _ _ (Nat.zero_le _), List.nil_append]

/-- The search finds no embedding twice. -/
theorem nodup_all_candidates (wellFormed : search.graph.WellFormed) :
    (search.all search.candidates []).Nodup := by
  refine nodup_all wellFormed (fun candidates place => ?_) nodup_nothing
  obtain ⟨pattern, _, rfl⟩ := List.mem_map.mp place
  exact (wellFormed.nodeIds.of_map _).filter _

end Search

end Transcode
