import Mathlib.Data.List.Lattice
import Mathlib.Data.List.Pairwise
import Transcode.Proofs.Building
import Transcode.Proofs.Splitting

/-!
# Groups of nodes

The groups by which a graph is split have every node in one of them
(`CodeGraph.WellFormed.sharing`), and no edge of containment leads from one to another if no node
has several containers (`CodeGraph.WellFormed.grouping`). For the groups of single roots this is
because a walk gathers all that a root contains and nothing else
(`CodeGraph.WellFormed.exists_gather`).
-/

namespace Transcode

namespace CodeGraph

variable {graph : CodeGraph} {gathered : List String} {id : String}

/-- A node contains another directly. -/
def Contains (graph : CodeGraph) (owner id : String) : Prop :=
  ∃ there, graph.Leads .contains owner id there

/-- The children of a node are what it contains. -/
theorem WellFormed.mem_children (wellFormed : graph.WellFormed) {owner : String} :
    id ∈ (graph.children owner).map (·.id) ↔ graph.Contains owner id := by
  have sorted := List.mergeSort_perm (graph.successors .contains owner)
    (fun first second => first.seq ≤ second.seq)
  rw [children, (sorted.map _).mem_iff, List.mem_map]
  constructor
  · rintro ⟨node, member, rfl⟩
    exact (wellFormed.mem_successors.mp member).2
  · rintro ⟨there, leads⟩
    have ending := hasNode_iff.mp (wellFormed.endpoints there leads.member).2
    obtain ⟨node, member, named⟩ := List.mem_map.mp ending
    rw [leads.target] at named
    exact ⟨node, wellFormed.mem_successors.mpr ⟨member, there, named ▸ leads⟩, named⟩

/-- What contains and what is contained are nodes. -/
theorem WellFormed.hasNode_of_contains (wellFormed : graph.WellFormed) {owner : String}
    (contains : graph.Contains owner id) : graph.hasNode owner ∧ graph.hasNode id := by
  obtain ⟨there, leads⟩ := contains
  exact leads.source ▸ leads.target ▸ wellFormed.endpoints there leads.member

/-! ### Gathering -/

/-- The number of nodes not gathered yet. -/
def missing (graph : CodeGraph) (gathered : List String) : Nat :=
  (graph.nodes.filter (·.id ∉ gathered)).length

/-- The more is gathered the less is missing. -/
theorem missing_le_of_subset {later : List String} (subset : gathered ⊆ later) :
    graph.missing later ≤ graph.missing gathered := by
  refine (List.monotone_filter_right graph.nodes fun node absent => ?_).length_le
  rw [decide_eq_true_eq] at absent ⊢
  exact fun old => absent (subset old)

/-- Gathering something new leaves less missing. -/
theorem missing_cons_lt (there : graph.hasNode id) (new : id ∉ gathered) :
    graph.missing (id :: gathered) < graph.missing gathered := by
  obtain ⟨node, member, rfl⟩ := List.mem_map.mp (hasNode_iff.mp there)
  have fewer : graph.nodes.filter (·.id ∉ node.id :: gathered) =
      (graph.nodes.filter (·.id ∉ gathered)).filter (·.id ≠ node.id) := by
    rw [List.filter_filter]
    refine List.filter_congr fun other _ => ?_
    simp [not_or]
  rw [missing, fewer]
  refine List.length_filter_lt_length_iff_exists.mpr ⟨node, List.mem_filter.mpr ⟨member, ?_⟩, ?_⟩
  · exact decide_eq_true new
  · simp

/-- What a walk from some nodes adds to the nodes gathered before. -/
structure Gathers (graph : CodeGraph) (gathered starts added : List String) : Prop where
  reached : ∀ id ∈ starts, id ∈ added ++ gathered
  closed : ∀ owner ∈ added, ∀ id, graph.Contains owner id → id ∈ added ++ gathered
  origin : ∀ id ∈ added, id ∈ starts ∨ ∃ owner ∈ added, graph.Contains owner id
  new : ∀ id ∈ added, id ∉ gathered

namespace Gathers

variable {first second rest : List String}

/-- A walk from one node and then one from further nodes. -/
theorem append (one : graph.Gathers gathered [id] first)
    (others : graph.Gathers (first ++ gathered) rest second) :
    graph.Gathers gathered (id :: rest) (second ++ first) where
  reached := by
    rw [List.append_assoc]
    refine List.forall_mem_cons.mpr ⟨?_, others.reached⟩
    exact List.mem_append_right second (one.reached id List.mem_cons_self)
  closed owner member other contains := by
    rw [List.append_assoc]
    rcases List.mem_append.mp member with late | early
    · exact others.closed owner late other contains
    · exact List.mem_append_right second (one.closed owner early other contains)
  origin other member := by
    rcases List.mem_append.mp member with late | early
    · rcases others.origin other late with start | ⟨owner, there, contains⟩
      · exact .inl (List.mem_cons_of_mem id start)
      · exact .inr ⟨owner, List.mem_append_left first there, contains⟩
    · rcases one.origin other early with start | ⟨owner, there, contains⟩
      · exact .inl (List.mem_singleton.mp start ▸ List.mem_cons_self)
      · exact .inr ⟨owner, List.mem_append_right second there, contains⟩
  new other member := by
    rcases List.mem_append.mp member with late | early
    · exact fun old => others.new other late (List.mem_append_right first old)
    · exact one.new other early

/-- A walk from a node goes on to all that it contains. -/
theorem ofContained (unmet : id ∉ gathered)
    (walk : graph.Gathers (id :: gathered) rest second)
    (contained : ∀ other, other ∈ rest ↔ graph.Contains id other) :
    graph.Gathers gathered [id] (second ++ [id]) where
  reached := by simp
  closed owner member other contains := by
    rw [List.append_assoc, List.singleton_append]
    rcases List.mem_append.mp member with late | own
    · exact walk.closed owner late other contains
    · obtain rfl := List.mem_singleton.mp own
      exact walk.reached other ((contained other).mpr contains)
  origin other member := by
    rcases List.mem_append.mp member with late | own
    · rcases walk.origin other late with start | ⟨owner, there, contains⟩
      · exact .inr ⟨id, by simp, (contained other).mp start⟩
      · exact .inr ⟨owner, List.mem_append_left _ there, contains⟩
    · exact .inl own
  new other member := by
    rcases List.mem_append.mp member with late | own
    · exact fun old => walk.new other late (List.mem_cons_of_mem id old)
    · exact List.mem_singleton.mp own ▸ unmet

end Gathers

/-- A walk from each of several nodes in turn, if each walk has fuel for what is missing. -/
theorem exists_foldl_gather {fuel : Nat} {step : List String → String → List String}
    (each : ∀ gathered id, graph.hasNode id → graph.missing gathered < fuel →
      ∃ added, step gathered id = added ++ gathered ∧ graph.Gathers gathered [id] added)
    {starts : List String} (there : ∀ id ∈ starts, graph.hasNode id)
    (enough : graph.missing gathered < fuel) :
    ∃ added, starts.foldl step gathered = added ++ gathered ∧
      graph.Gathers gathered starts added := by
  induction starts generalizing gathered with
  | nil => exact ⟨[], rfl, by constructor <;> simp⟩
  | cons id rest ih =>
      obtain ⟨here, later⟩ := List.forall_mem_cons.mp there
      obtain ⟨first, stepped, one⟩ := each gathered id here enough
      have fewer : graph.missing (first ++ gathered) ≤ graph.missing gathered :=
        missing_le_of_subset (List.subset_append_right first gathered)
      obtain ⟨second, walked, others⟩ := ih later (Nat.lt_of_le_of_lt fewer enough)
      refine ⟨second ++ first, ?_, one.append others⟩
      rw [List.foldl_cons, stepped, walked, List.append_assoc]

/-- **Gathering.** With fuel for the nodes that are missing, a walk adds a node that is new with all
that it contains and is new, and nothing else. -/
theorem WellFormed.exists_gather (wellFormed : graph.WellFormed) {fuel : Nat}
    (there : graph.hasNode id) (enough : graph.missing gathered < fuel) :
    ∃ added, graph.gather fuel gathered id = added ++ gathered ∧
      graph.Gathers gathered [id] added := by
  induction fuel generalizing gathered id with
  | zero => exact absurd enough (Nat.not_lt_zero _)
  | succ fuel ih =>
      unfold gather
      split
      · rename_i met
        refine ⟨[], rfl, ?_, by simp, by simp, by simp⟩
        simpa using met
      · rename_i unmet
        rw [List.contains_iff_mem] at unmet
        have less := missing_cons_lt there unmet
        have children : ∀ other, other ∈ (graph.children id).map (·.id) ↔
            graph.Contains id other := fun _ => wellFormed.mem_children
        have each (gathered : List String) (id : String) (here : graph.hasNode id)
            (enough : graph.missing gathered < fuel) := ih here enough
        obtain ⟨added, walked, walk⟩ := exists_foldl_gather each
          (fun other member => (wellFormed.hasNode_of_contains ((children other).mp member)).2)
          (show graph.missing (id :: gathered) < fuel by omega)
        refine ⟨added ++ [id], ?_, walk.ofContained unmet children⟩
        rw [walked, List.append_assoc, List.singleton_append]

/-! ### Groups -/

/-- The groups of roots, with what earlier roots have left for them. -/
structure RootGroups (graph : CodeGraph) (grouped : List String) (roots : List Node)
    (groups : List (List String)) : Prop where
  reached : ∀ root ∈ roots, root.id ∈ groups.flatten ++ grouped
  closed : ∀ owner ∈ groups.flatten, ∀ id, graph.Contains owner id → id ∈ groups.flatten ++ grouped
  origin : ∀ group ∈ groups, ∀ id ∈ group,
    id ∈ roots.map (·.id) ∨ ∃ owner ∈ group, graph.Contains owner id
  apart : groups.Pairwise List.Disjoint
  new : ∀ group ∈ groups, group.Disjoint grouped

theorem missing_lt_succ (graph : CodeGraph) (gathered : List String) :
    graph.missing gathered < graph.nodeCount + 1 :=
  Nat.lt_succ_of_le (List.length_filter_le _ _)

/-- Each root is grouped with what it contains. -/
theorem WellFormed.rootGroups (wellFormed : graph.WellFormed) {roots : List Node}
    (there : ∀ root ∈ roots, root ∈ graph.nodes) (grouped : List String) :
    graph.RootGroups grouped roots (graph.groupsOf grouped roots) := by
  induction roots generalizing grouped with
  | nil => constructor <;> simp [groupsOf]
  | cons root rest ih =>
      obtain ⟨here, later⟩ := List.forall_mem_cons.mp there
      obtain ⟨group, gathered, walk⟩ := wellFormed.exists_gather (hasNode_of_mem here)
        (graph.missing_lt_succ grouped)
      have others := ih later (group ++ grouped)
      have split : graph.groupsOf grouped (root :: rest) =
          group :: graph.groupsOf (group ++ grouped) rest := by
        rw [groupsOf, gathered]
        simp
      rw [split]
      -- What is in a later group or was there before is so for the first group, too.
      have known {id : String}
          (member : id ∈ (graph.groupsOf (group ++ grouped) rest).flatten ++ (group ++ grouped)) :
          id ∈ (group :: graph.groupsOf (group ++ grouped) rest).flatten ++ grouped := by
        simp only [List.flatten_cons, List.mem_append] at member ⊢
        tauto
      refine ⟨?_, ?_, ?_, ?_, ?_⟩
      · refine List.forall_mem_cons.mpr ⟨?_,
          fun other member => known (others.reached other member)⟩
        exact known (List.mem_append_right _ (walk.reached root.id List.mem_cons_self))
      · intro owner member id contains
        rw [List.flatten_cons, List.mem_append] at member
        rcases member with first | late
        · exact known (List.mem_append_right _ (walk.closed owner first id contains))
        · exact known (others.closed owner late id contains)
      · refine List.forall_mem_cons.mpr ⟨fun id member => ?_, fun other otherMember id member => ?_⟩
        · refine (walk.origin id member).imp_left fun start => ?_
          exact List.mem_singleton.mp start ▸ List.mem_cons_self
        · exact (others.origin other otherMember id member).imp_left (List.mem_cons_of_mem _)
      · refine List.pairwise_cons.mpr ⟨fun other member => ?_, others.apart⟩
        exact List.Disjoint.symm (List.disjoint_of_subset_right (List.subset_append_left _ _)
          (others.new other member))
      · refine List.forall_mem_cons.mpr ⟨fun id member old => walk.new id member old, ?_⟩
        intro other member
        exact List.disjoint_of_subset_right (List.subset_append_right _ _) (others.new other member)

/-- Groups with every node in one of them. -/
structure Sharing (graph : CodeGraph) (groups : List (List String)) : Prop where
  cover : ∀ id, graph.hasNode id → ∃ group ∈ groups, id ∈ group
  apart : groups.Pairwise List.Disjoint

/-- Groups with every node in one of them, between which nothing is contained. -/
structure Grouping (graph : CodeGraph) (groups : List (List String)) : Prop where
  cover : ∀ id, graph.hasNode id → ∃ group ∈ groups, id ∈ group
  apart : groups.Pairwise List.Disjoint
  closed : ∀ group ∈ groups, ∀ owner id, graph.Contains owner id → (owner ∈ group ↔ id ∈ group)

/-- A root is contained in nothing. -/
theorem not_contains_root {root : Node} (isRoot : root ∈ graph.roots) (owner : String) :
    ¬graph.Contains owner root.id := by
  rintro ⟨there, leads⟩
  have none := (List.mem_filter.mp isRoot).2
  rw [List.isEmpty_iff] at none
  have incoming : there ∈ graph.incomingOf .contains root.id :=
    mem_incomingOf.mpr (leads.source.symm ▸ leads)
  rw [none] at incoming
  cases incoming

/-- Groups without common ids are the same if they have an id in common. -/
theorem eq_of_mem_groups {groups : List (List String)} (apart : groups.Pairwise List.Disjoint)
    {first second : List String} (firstMember : first ∈ groups) (secondMember : second ∈ groups)
    (inFirst : id ∈ first) (inSecond : id ∈ second) : first = second := by
  have : Std.Symm (List.Disjoint : List String → List String → Prop) :=
    ⟨fun _ _ disjoint => disjoint.symm⟩
  by_contra other
  exact apart.forall firstMember secondMember other inFirst inSecond

/-- No node has several containers, nor one container by several edges. -/
def OneContainer (graph : CodeGraph) : Prop :=
  ∀ first ∈ graph.edges, ∀ second ∈ graph.edges, first.kind = .contains →
    second.kind = .contains → first.target = second.target → first = second

/-- Nothing is contained in two nodes. -/
theorem OneContainer.eq_of_contains (oneContainer : graph.OneContainer) {first second : String}
    (left : graph.Contains first id) (right : graph.Contains second id) : first = second := by
  obtain ⟨one, oneLeads⟩ := left
  obtain ⟨other, otherLeads⟩ := right
  have same := oneContainer one oneLeads.member other otherLeads.member oneLeads.kind
    otherLeads.kind (oneLeads.target.trans otherLeads.target.symm)
  rw [← oneLeads.source, ← otherLeads.source, same]

/-- If nothing has several containers, what is contained is in the group of its container. -/
theorem OneContainer.mem_rootGroup_iff (oneContainer : graph.OneContainer)
    {groups : List (List String)} (rooted : graph.RootGroups [] graph.roots groups)
    {group : List String} (member : group ∈ groups) {owner : String}
    (contains : graph.Contains owner id) :
    owner ∈ group ↔ id ∈ group := by
  have ownerOf {other : List String} (otherMember : other ∈ groups) (inOther : id ∈ other) :
      owner ∈ other := by
    rcases rooted.origin other otherMember id inOther with isRoot | ⟨holder, there, holds⟩
    · obtain ⟨root, rootMember, rfl⟩ := List.mem_map.mp isRoot
      exact absurd contains (not_contains_root rootMember owner)
    · exact oneContainer.eq_of_contains contains holds ▸ there
  refine ⟨fun inGroup => ?_, ownerOf member⟩
  have reached := rooted.closed owner (List.mem_flatten.mpr ⟨group, member, inGroup⟩) id contains
  rw [List.append_nil] at reached
  obtain ⟨other, otherMember, inOther⟩ := List.mem_flatten.mp reached
  rwa [eq_of_mem_groups rooted.apart member otherMember inGroup (ownerOf otherMember inOther)]

/-- The nodes that are in no group. -/
def ungrouped (graph : CodeGraph) (groups : List (List String)) : List String :=
  (graph.nodes.filter fun node => !groups.any (·.contains node.id)).map (·.id)

/-- What is left is in no group. -/
theorem mem_ungrouped {groups : List (List String)} :
    id ∈ graph.ungrouped groups ↔ graph.hasNode id ∧ ∀ group ∈ groups, id ∉ group := by
  rw [ungrouped, hasNode_iff]
  simp only [List.mem_map, List.mem_filter, Bool.not_eq_true', List.any_eq_false,
    List.contains_iff_mem]
  grind

/-- The groups of a graph are those of its roots and, last, what is in none of these. -/
theorem partGroups_eq (graph : CodeGraph) :
    graph.partGroups = graph.groupsOf [] graph.roots ++
      if (graph.ungrouped (graph.groupsOf [] graph.roots)).isEmpty then []
      else [graph.ungrouped (graph.groupsOf [] graph.roots)] := by
  unfold partGroups
  dsimp only
  change (if (graph.ungrouped _).isEmpty then _ else _) = _
  split <;> simp [ungrouped]

/-- The roots of a graph are grouped with what they contain. -/
theorem WellFormed.groupsOf_roots (wellFormed : graph.WellFormed) :
    graph.RootGroups [] graph.roots (graph.groupsOf [] graph.roots) :=
  wellFormed.rootGroups (fun _ isRoot => (List.mem_filter.mp isRoot).1) []

/-- **Sharing.** Every node is in one of the groups. -/
theorem WellFormed.sharing (wellFormed : graph.WellFormed) : graph.Sharing graph.partGroups := by
  have rooted := wellFormed.groupsOf_roots
  rw [partGroups_eq]
  generalize graph.groupsOf [] graph.roots = groups at rooted ⊢
  refine ⟨fun id there => ?_, ?_⟩
  · by_cases grouped : ∃ group ∈ groups, id ∈ group
    · obtain ⟨group, member, inGroup⟩ := grouped
      exact ⟨group, List.mem_append_left _ member, inGroup⟩
    · have left : id ∈ graph.ungrouped groups :=
        mem_ungrouped.mpr ⟨there, fun group member inGroup => grouped ⟨group, member, inGroup⟩⟩
      refine ⟨graph.ungrouped groups, List.mem_append_right _ ?_, left⟩
      rw [if_neg (by simpa using List.ne_nil_of_mem left)]
      exact List.mem_singleton_self _
  · refine List.pairwise_append.mpr ⟨rooted.apart, ?_, ?_⟩
    · split
      · exact .nil
      · exact List.pairwise_singleton _ _
    · intro group member last isLast id inGroup inLast
      split at isLast
      · cases isLast
      · obtain rfl := List.mem_singleton.mp isLast
        exact (mem_ungrouped.mp inLast).2 group member inGroup

/-- **Grouping.** If nothing has several containers, nothing is contained across the groups. -/
theorem WellFormed.grouping (wellFormed : graph.WellFormed) (oneContainer : graph.OneContainer) :
    graph.Grouping graph.partGroups := by
  obtain ⟨cover, apart⟩ := wellFormed.sharing
  refine ⟨cover, apart, ?_⟩
  have rooted := wellFormed.groupsOf_roots
  rw [partGroups_eq]
  generalize graph.groupsOf [] graph.roots = groups at rooted ⊢
  intro group member owner id contains
  rcases List.mem_append.mp member with ofRoot | last
  · exact oneContainer.mem_rootGroup_iff rooted ofRoot contains
  · split at last
    · cases last
    · obtain rfl := List.mem_singleton.mp last
      have ends := wellFormed.hasNode_of_contains contains
      rw [mem_ungrouped, mem_ungrouped]
      exact and_congr (iff_of_true ends.1 ends.2) (forall₂_congr fun other otherMember =>
        not_congr (oneContainer.mem_rootGroup_iff rooted otherMember contains))

theorem Built.grouping (built : graph.Built) : graph.Grouping graph.partGroups :=
  built.wellFormed.grouping built.oneContainer

/-! ### The part of a node -/

variable {groups : List (List String)}

namespace Sharing

/-- The part of a node is that of the group in which it is. -/
theorem partOf?_eq_some_iff (sharing : graph.Sharing groups) {index : Nat} :
    partOf? groups id = some index ↔ ∃ group, groups[index]? = some group ∧ id ∈ group := by
  constructor
  · intro found
    obtain ⟨bound, _⟩ := List.findIdx?_eq_some_iff_getElem.mp found
    exact ⟨groups[index], List.getElem?_eq_getElem bound,
      mem_of_partOf? found (List.getElem?_eq_getElem bound)⟩
  · rintro ⟨group, at_, inGroup⟩
    obtain ⟨bound, rfl⟩ := List.getElem?_eq_some_iff.mp at_
    refine List.findIdx?_eq_some_iff_getElem.mpr ⟨bound, List.contains_iff_mem.mpr inGroup, ?_⟩
    intro earlier before contains
    have disjoint := List.pairwise_iff_getElem.mp sharing.apart earlier index
      (Nat.lt_trans before bound) bound before
    exact disjoint (List.contains_iff_mem.mp contains) inGroup

/-- Each node is in some group. -/
theorem exists_partOf? (sharing : graph.Sharing groups) (there : graph.hasNode id) :
    ∃ index, partOf? groups id = some index := by
  obtain ⟨group, member, inGroup⟩ := sharing.cover id there
  obtain ⟨index, at_⟩ := List.mem_iff_getElem?.mp member
  exact ⟨index, sharing.partOf?_eq_some_iff.mpr ⟨group, at_, inGroup⟩⟩

end Sharing

namespace Grouping

theorem sharing (grouping : graph.Grouping groups) : graph.Sharing groups :=
  ⟨grouping.cover, grouping.apart⟩

/-- What is contained is in the same group. -/
theorem partOf?_of_contains (grouping : graph.Grouping groups) {owner : String}
    (contains : graph.Contains owner id) : partOf? groups owner = partOf? groups id := by
  refine Option.ext fun index => ?_
  rw [grouping.sharing.partOf?_eq_some_iff, grouping.sharing.partOf?_eq_some_iff]
  refine exists_congr fun group => and_congr_right fun at_ => ?_
  exact grouping.closed group (List.mem_of_getElem? at_) owner id contains

end Grouping

end CodeGraph

end Transcode
