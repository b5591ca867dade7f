import Mathlib.Algebra.BigOperators.Group.Finset.Basic
import Mathlib.Algebra.Order.BigOperators.Group.Finset
import Mathlib.Logic.Relation
import Transcode.Proofs.Lockstep

/-!
# Parts that make up a whole graph

The parts of a graph agree with it if each mirrors it and their territories share it out
(`Agrees`). Applying a match in its part and in the whole graph keeps this so (`Agrees.step`). What
the merge of the parts needs is kept as well: where original nodes and edges are (`Traces`), what
has been recorded, and where edges between parts lead (`Joins`).

If the nodes of a pattern are connected by containment, then all that one of its matches binds is in
the same part (`Agrees.exists_owner`), so every match of the whole graph is one of exactly one part.
-/

namespace Transcode

variable {ι : Type}

/-- Parts that each mirror a whole graph and together make up its nodes. -/
structure Agrees (naming : ι → Naming) (part : ι → CodeGraph) (whole : CodeGraph) : Prop where
  formed : whole.WellFormed
  mirrors : ∀ index, Mirrors (naming index) (part index) whole
  apart : ∀ first second, first ≠ second →
    (naming first).territory.Disjoint (naming second).territory
  routesApart : ∀ first second, first ≠ second →
    (naming first).routes.Disjoint (naming second).routes
  cover : ∀ node ∈ whole.nodes, ∃ index, node.id ∈ (naming index).territory

/-- What is the same at all places but one is so after a change there. -/
theorem update_induction [DecidableEq ι] {α β : Type} {motive : ι → α → β → Prop} {first : ι → α}
    {second : ι → β} {index : ι} {one : α} {other : β} (here : motive index one other)
    (elsewhere : ∀ place ≠ index, motive place (first place) (second place)) (place : ι) :
    motive place (Function.update first index one place)
      (Function.update second index other place) := by
  by_cases same : place = index
  · subst same
    rwa [Function.update_self, Function.update_self]
  · rw [Function.update_of_ne same, Function.update_of_ne same]
    exact elsewhere place same

/-- What is so of any two things is so after a change of one. -/
theorem update_pairwise [DecidableEq ι] {α : Type} {motive : α → α → Prop}
    (symmetric : ∀ first second, motive first second → motive second first) {items : ι → α}
    {index : ι} {one : α}
    (each : ∀ first second, first ≠ second → motive (items first) (items second))
    (new : ∀ place ≠ index, motive one (items place)) (first second : ι)
    (different : first ≠ second) :
    motive (Function.update items index one first) (Function.update items index one second) := by
  by_cases isFirst : first = index
  · subst isFirst
    rw [Function.update_self, Function.update_of_ne different.symm]
    exact new second different.symm
  · rw [Function.update_of_ne isFirst]
    by_cases isSecond : second = index
    · subst isSecond
      rw [Function.update_self]
      exact symmetric _ _ (new first isFirst)
    · rw [Function.update_of_ne isSecond]
      exact each first second different

namespace Naming.Adds

variable [DecidableEq ι] {naming : ι → Naming} {index : ι} {further : Naming}
  {addition wholeAddition : Addition} (adds : (naming index).Adds further addition wholeAddition)
  {id : String} {place : ι}

include adds

/-- A further naming of one part loses nothing of the territory of any. -/
theorem mem_territory_update (inside : id ∈ (naming place).territory) :
    id ∈ (Function.update naming index further place).territory := by
  by_cases same : place = index
  · subst same
    rw [Function.update_self, adds.territory]
    exact List.mem_append_left _ inside
  · rwa [Function.update_of_ne same]

/-- A further naming of one part loses none of the routes of any. -/
theorem mem_routes_update (inside : id ∈ (naming place).routes) :
    id ∈ (Function.update naming index further place).routes := by
  by_cases same : place = index
  · subst same
    rw [Function.update_self, adds.routes]
    exact List.mem_append_left _ inside
  · rwa [Function.update_of_ne same]

end Naming.Adds

namespace Agrees

variable [DecidableEq ι] {naming : ι → Naming} {part : ι → CodeGraph} {whole : CodeGraph}
  (agrees : Agrees naming part whole) {index : ι} {rule : Rule} {found other : Match}
  {addition wholeAddition : Addition} {further : Naming}

include agrees

omit [DecidableEq ι] in
/-- A match of one part binds nothing of another. -/
theorem elsewhere (relates : (naming index).Relates found other) {place : ι}
    (different : place ≠ index) :
    ∀ binding ∈ other.bindings, binding.node ∉ (naming place).territory :=
  fun _ member inside => agrees.apart place index different inside (relates.mem_territory member)

/-- **Applying a match in its part.** The parts still agree with the whole graph after a match of
one of them is applied there and in the whole graph. -/
theorem step (relates : (naming index).Relates found other)
    (applies : (part index).Applies rule found addition)
    (wholeApplies : whole.Applies rule other wholeAddition)
    (adds : (naming index).Adds further addition wholeAddition) :
    Agrees (Function.update naming index further)
      (Function.update part index (addition.result (part index) rule found))
      (wholeAddition.result whole rule other) where
  formed := wholeApplies.formed
  mirrors := by
    refine update_induction (motive := fun _ naming part =>
      Mirrors naming part (wholeAddition.result whole rule other)) ?_ fun place different => ?_
    · exact (agrees.mirrors index).inside relates applies wholeApplies adds
    · exact (agrees.mirrors place).outside wholeApplies (agrees.elsewhere relates different)
  apart := by
    refine update_pairwise (motive := fun first second : Naming =>
      first.territory.Disjoint second.territory) (fun _ _ => List.Disjoint.symm) agrees.apart
      fun place different => ?_
    rw [adds.territory]
    refine List.disjoint_append_left.mpr ⟨agrees.apart index place different.symm, ?_⟩
    exact fun id new => (agrees.mirrors place).not_mem_territory wholeApplies new
  routesApart := by
    refine update_pairwise (motive := fun first second : Naming =>
      first.routes.Disjoint second.routes) (fun _ _ => List.Disjoint.symm) agrees.routesApart
      fun place different => ?_
    rw [adds.routes]
    refine List.disjoint_append_left.mpr ⟨agrees.routesApart index place different.symm, ?_⟩
    exact fun id new => (agrees.mirrors place).not_mem_routes wholeApplies new
  cover node member := by
    rcases List.mem_append.mp member with old | new
    · obtain ⟨place, inside⟩ := agrees.cover node (List.mem_filter.mp old).1
      exact ⟨place, adds.mem_territory_update inside⟩
    · refine ⟨index, ?_⟩
      rw [Function.update_self, adds.territory]
      exact List.mem_append_right _ (List.mem_map_of_mem new)

end Agrees

/-! ### Original nodes and edges -/

/-- What is known of a part that started as another graph: original nodes and edges have the same
ids in the whole graph, original nodes can be followed to what is in their place, and what has been
recorded has ids that the part has made. -/
structure Traces (start : CodeGraph) (naming : Naming) (part : CodeGraph) : Prop where
  namespaceText : part.namespaceText = start.namespaceText
  nodes : ∀ id, start.hasNode id → id ∈ naming.nodeIds ∧ naming.node id = id ∧
    ∃ place, part.resolved? id = some place
  edges : ∀ id, start.hasEdge id → id ∈ naming.edgeIds ∧ naming.edge id = id
  recorded : ∀ entry ∈ part.history, entry.node ∈ naming.nodeIds ∧
    ∃ number, entry.node = start.nodeName number

namespace CodeGraph

/-- What is in the place of a node is there. -/
theorem hasNode_of_survivor? {graph : CodeGraph} {fuel : Nat} {id place : String}
    (found : graph.survivor? fuel id = some place) : graph.hasNode place := by
  induction fuel generalizing id with
  | zero =>
      unfold survivor? at found
      split at found
      · cases found
        assumption
      · cases found
  | succ fuel ih =>
      unfold survivor? at found
      split at found
      · cases found
        assumption
      · obtain ⟨next, _, later⟩ := Option.bind_eq_some_iff.mp found
        exact ih later

theorem hasNode_of_resolved? {graph : CodeGraph} {id place : String}
    (resolved : graph.resolved? id = some place) : graph.hasNode place :=
  hasNode_of_survivor? resolved

end CodeGraph

namespace Traces

variable {start part whole : CodeGraph} {naming further : Naming} {rule : Rule} {found : Match}
  {addition wholeAddition : Addition}

/-- A node added in a part carries a made name. -/
theorem nodeName_of_mem (traces : Traces start naming part)
    (applies : part.Applies rule found addition) {id : String}
    (new : id ∈ addition.nodes.map (·.id)) : ∃ number, id = start.nodeName number := by
  obtain ⟨node, member, rfl⟩ := List.mem_map.mp new
  obtain ⟨number, _, _, named⟩ := applies.added.nodeNames node member
  exact ⟨number, by rw [named, CodeGraph.nodeName, CodeGraph.nodeName, traces.namespaceText]⟩

/-- A part traces its start also behind a rewrite. -/
theorem inside (traces : Traces start naming part) (mirrors : Mirrors naming part whole)
    (applies : part.Applies rule found addition)
    (adds : naming.Adds further addition wholeAddition) (nonempty : found.replaced ≠ []) :
    Traces start further (addition.result part rule found) where
  namespaceText := traces.namespaceText
  nodes id there := by
    obtain ⟨known, named, place, resolved⟩ := traces.nodes id there
    have spent := (mirrors.nodesSpent id known).1
    exact ⟨adds.known known, (adds.node id known).trans named, _,
      applies.resolved?_eq mirrors.partSettled nonempty spent resolved⟩
  edges id there := by
    obtain ⟨known, named⟩ := traces.edges id there
    exact ⟨adds.knownEdge known, (adds.edge id known).trans named⟩
  recorded entry member := by
    rcases List.mem_append.mp member with old | new
    · obtain ⟨known, made⟩ := traces.recorded entry old
      exact ⟨adds.known known, made⟩
    · obtain ⟨node, nodeMember, rfl⟩ := List.mem_map.mp new
      have isNew : node.id ∈ addition.nodes.map (·.id) := List.mem_map_of_mem nodeMember
      exact ⟨adds.new isNew, traces.nodeName_of_mem applies isNew⟩

end Traces

/-! ### History and edges between parts -/

/-- The entry of a history under the name of its node in the whole graph. -/
def Naming.provenance (naming : Naming) (entry : Provenance) : Provenance :=
  ⟨naming.node entry.node, entry.rule⟩

/-- An id of the whole graph is that of what is in the place of an original node of a part. -/
def StandsFor (start : ι → CodeGraph) (naming : ι → Naming) (part : ι → CodeGraph)
    (id other : String) : Prop :=
  ∃ index place, (start index).hasNode id ∧ (part index).resolved? id = some place ∧
    other = (naming index).node place

/-- The whole graph has recorded what the parts have, and has the edges between parts at what is in
the place of their ends. -/
structure Joins [Fintype ι] (between : List Edge) (start : ι → CodeGraph) (naming : ι → Naming)
    (part : ι → CodeGraph) (whole : CodeGraph) : Prop where
  history : (whole.history : Multiset Provenance) =
    ∑ index, ((part index).history.map (naming index).provenance : Multiset Provenance)
  links : ∀ edge ∈ between, ∃ other ∈ whole.edges, other.id = edge.id ∧ other.kind = edge.kind ∧
    other.attributes = edge.attributes ∧
    StandsFor start naming part edge.source other.source ∧
    StandsFor start naming part edge.target other.target
  routed : ∀ edge ∈ whole.edges, (∃ index, edge.id ∈ (naming index).routes) ∨
    edge.id ∈ between.map (·.id)
  unrouted : ∀ edge ∈ between, ∀ index, edge.id ∉ (naming index).routes

/-- A sum after one of the things that are added up has grown. -/
theorem sum_update_add [Fintype ι] [DecidableEq ι] {M : Type} [AddCommMonoid M] (parts : ι → M)
    (index : ι) (added : M) :
    ∑ place, Function.update parts index (parts index + added) place =
      ∑ place, parts place + added := by
  have here := Finset.mem_univ index
  rw [Finset.sum_update_of_mem here, Finset.sum_eq_add_sum_sdiff_singleton_of_mem here parts,
    add_right_comm]

section Step

variable [Fintype ι] [DecidableEq ι] {between : List Edge} {start : ι → CodeGraph}
  {naming : ι → Naming} {part : ι → CodeGraph} {whole : CodeGraph} {index : ι} {rule : Rule}
  {found other : Match} {addition wholeAddition : Addition} {further : Naming}
  (agrees : Agrees naming part whole)
  (traces : ∀ index, Traces (start index) (naming index) (part index))
  (relates : (naming index).Relates found other)
  (applies : (part index).Applies rule found addition)
  (wholeApplies : whole.Applies rule other wholeAddition)
  (adds : (naming index).Adds further addition wholeAddition)

include agrees traces relates applies wholeApplies adds

omit [Fintype ι] in
/-- What is in the place of an original node moves alike in the part and in the whole graph. -/
theorem StandsFor.step (nonempty : found.replaced ≠ []) {id there : String}
    (stands : StandsFor start naming part id there) :
    StandsFor start (Function.update naming index further)
      (Function.update part index (addition.result (part index) rule found)) id
      (wholeAddition.inPlace rule other there) := by
  obtain ⟨place, own, original, resolved, rfl⟩ := stands
  have isThere := CodeGraph.hasNode_of_resolved? resolved
  obtain ⟨node, member, rfl⟩ := List.mem_map.mp (CodeGraph.hasNode_iff.mp isThere)
  have known := (agrees.mirrors place).nodesKnown node member
  by_cases same : place = index
  · subst same
    have spent := ((agrees.mirrors place).nodesSpent id ((traces place).nodes id original).1).1
    refine ⟨place, addition.inPlace rule found node.id, original, ?_, ?_⟩
    · rw [Function.update_self]
      exact applies.resolved?_eq (agrees.mirrors place).partSettled nonempty spent resolved
    · rw [Function.update_self]
      exact (agrees.mirrors place).inPlace_eq relates applies wholeApplies adds known
  · refine ⟨place, node.id, original, ?_, ?_⟩
    · rwa [Function.update_of_ne same]
    · rw [Function.update_of_ne same]
      exact Addition.inPlace_of_not_mem (Naming.not_mem_replaced (agrees.elsewhere relates same)
        (List.mem_map_of_mem known))

/-- **What is recorded and what joins the parts** stays the same in the parts and in the whole graph
when a match is applied in both. -/
theorem Joins.step (joins : Joins between start naming part whole)
    (noContainment : ∀ edge ∈ between, edge.kind ≠ .contains) (nonempty : found.replaced ≠ []) :
    Joins between start (Function.update naming index further)
      (Function.update part index (addition.result (part index) rule found))
      (wholeAddition.result whole rule other) where
  history := by
    have recorded : ((part index).history.map further.provenance : Multiset Provenance) =
        (part index).history.map (naming index).provenance := by
      refine congrArg _ (List.map_congr_left fun entry member => ?_)
      rw [Naming.provenance, adds.node _ ((traces index).recorded entry member).1]
      rfl
    have new : (addition.nodes.map fun node => (⟨node.id, rule.id⟩ : Provenance)).map
        further.provenance = wholeAddition.nodes.map fun node => ⟨node.id, rule.id⟩ := by
      have ids := congrArg (List.map fun id => (⟨id, rule.id⟩ : Provenance)) adds.nodes
      rw [List.map_map, List.map_map, List.map_map] at ids
      rw [List.map_map]
      exact ids
    have each : (fun place => ((Function.update part index (addition.result (part index) rule found)
        place).history.map (Function.update naming index further place).provenance :
          Multiset Provenance)) =
        Function.update (fun place => ((part place).history.map (naming place).provenance :
          Multiset Provenance)) index
          ((part index).history.map (naming index).provenance +
            (wholeAddition.nodes.map fun node => (⟨node.id, rule.id⟩ : Provenance))) := by
      funext place
      by_cases same : place = index
      · subst same
        simp only [Function.update_self]
        rw [← recorded, ← new, Multiset.coe_add, ← List.map_append]
        rfl
      · simp only [Function.update_of_ne same]
    rw [each, sum_update_add, ← joins.history, Multiset.coe_add]
    rfl
  links edge member := by
    obtain ⟨there, thereMember, id, kind, attributes, source, target⟩ := joins.links edge member
    have unmatched : other.edges.any (·.edge = there.id) = false := by
      refine List.any_eq_false.mpr fun matched matchedMember => ?_
      obtain ⟨own, _, carries⟩ := exists_left_of_forall₂ relates.edges matched matchedMember
      rw [decide_eq_true_eq, carries.edge, id]
      intro same
      exact joins.unrouted edge member index (same ▸ List.mem_map_of_mem carries.known)
    have noLoop : (there.moved (wholeAddition.replacements rule other)).isContainmentLoop =
        false := by
      have other : there.kind ≠ .contains := kind ▸ noContainment edge member
      simp [Edge.isContainmentLoop, other]
    have rewritten : there.rewritten? other (wholeAddition.replacements rule other) =
        some (there.moved (wholeAddition.replacements rule other)) := by
      rw [Addition.rewritten?_eq, unmatched, noLoop, Bool.or_false, Bool.and_false,
        if_neg Bool.false_ne_true]
    refine ⟨_, List.mem_append_left _ (List.mem_filterMap.mpr ⟨there, thereMember, rewritten⟩), id,
      kind, attributes, ?_, ?_⟩
    · exact source.step agrees traces relates applies wholeApplies adds nonempty
    · exact target.step agrees traces relates applies wholeApplies adds nonempty
  routed edge member := by
    rcases List.mem_append.mp member with old | new
    · obtain ⟨before, there, rewritten⟩ := List.mem_filterMap.mp old
      rw [Edge.id_of_rewritten? rewritten]
      exact (joins.routed before there).imp_left fun ⟨place, inside⟩ =>
        ⟨place, adds.mem_routes_update inside⟩
    · refine .inl ⟨index, ?_⟩
      rw [Function.update_self, adds.routes]
      exact List.mem_append_right _ (List.mem_map_of_mem new)
  unrouted edge member place := by
    by_cases same : place = index
    · subst same
      obtain ⟨there, thereMember, id, _⟩ := joins.links edge member
      rw [Function.update_self, adds.routes, List.mem_append, not_or]
      refine ⟨joins.unrouted edge member place, ?_⟩
      exact id ▸ wholeApplies.added.not_mem_of_edgeSpent
        ((agrees.mirrors place).wholeSettled.edges there thereMember)
    · rw [Function.update_of_ne same]
      exact joins.unrouted edge member place

end Step

/-- Parts that agree with a whole graph, with what the merge needs to know of them. -/
structure Accord [Fintype ι] (between : List Edge) (start : ι → CodeGraph) (naming : ι → Naming)
    (part : ι → CodeGraph) (whole : CodeGraph) : Prop where
  agrees : Agrees naming part whole
  traces : ∀ index, Traces (start index) (naming index) (part index)
  joins : Joins between start naming part whole

/-- **Accord** is kept when a match is applied in its part and in the whole graph. -/
theorem Accord.step [Fintype ι] [DecidableEq ι] {between : List Edge} {start : ι → CodeGraph}
    {naming : ι → Naming} {part : ι → CodeGraph} {whole : CodeGraph}
    (accord : Accord between start naming part whole)
    (noContainment : ∀ edge ∈ between, edge.kind ≠ .contains) {index : ι} {rule : Rule}
    {found other : Match} {addition wholeAddition : Addition} {further : Naming}
    (relates : (naming index).Relates found other)
    (applies : (part index).Applies rule found addition)
    (wholeApplies : whole.Applies rule other wholeAddition)
    (adds : (naming index).Adds further addition wholeAddition) (nonempty : found.replaced ≠ []) :
    Accord between start (Function.update naming index further)
      (Function.update part index (addition.result (part index) rule found))
      (wholeAddition.result whole rule other) where
  agrees := accord.agrees.step relates applies wholeApplies adds
  traces := by
    refine update_induction (motive := fun place naming part => Traces (start place) naming part)
      ?_ fun place _ => accord.traces place
    exact (accord.traces index).inside (accord.agrees.mirrors index) applies adds nonempty
  joins := accord.joins.step accord.agrees accord.traces relates applies wholeApplies adds
    noContainment nonempty

/-! ### Rules that stay within a declaration -/

/-- An edge of a pattern says that one node contains another. -/
def SourcePattern.Contains (pattern : SourcePattern) (owner name : String) : Prop :=
  ⟨owner, name, .contains⟩ ∈ pattern.edges

/-- A pattern whose nodes are connected by containment, and which tests only what nodes contain. -/
structure SourcePattern.Local (pattern : SourcePattern) : Prop where
  connected : ∀ first ∈ pattern.names, ∀ second ∈ pattern.names,
    Relation.EqvGen pattern.Contains first second
  tests : ∀ node ∈ pattern.nodes, ∀ test ∈ node.children, test.edge = .contains

/-- A pattern with a node that contains all others is connected. -/
theorem SourcePattern.connected_of_hub {pattern : SourcePattern} (hub : String)
    (each : ∀ name ∈ pattern.names, name = hub ∨ pattern.Contains hub name) :
    ∀ first ∈ pattern.names, ∀ second ∈ pattern.names,
      Relation.EqvGen pattern.Contains first second := by
  have fromHub : ∀ name ∈ pattern.names, Relation.EqvGen pattern.Contains hub name := by
    intro name known
    rcases each name known with rfl | contains
    · exact .refl _
    · exact .rel _ _ contains
  exact fun first firstKnown second secondKnown =>
    ((fromHub first firstKnown).symm).trans _ _ _ (fromHub second secondKnown)

/-- What the name of a binding looks up. -/
theorem Rule.lookup_of_mem_bindings {rule : Rule} (valid : rule.Valid) {bound : List Node}
    {binding : Binding} (member : binding ∈ rule.bindings bound) :
    (rule.sourcePattern.lookup bound binding.name).map (·.id) = some binding.node := by
  obtain ⟨⟨place, node⟩, paired, rfl⟩ := List.mem_map.mp member
  obtain ⟨number, bounds, same⟩ := List.mem_iff_getElem.mp paired
  rw [List.getElem_zip, Prod.mk.injEq] at same
  obtain ⟨rfl, rfl⟩ := same
  rw [List.length_zip, Nat.lt_min] at bounds
  have at_ : rule.sourcePattern.position? rule.sourcePattern.nodes[number].name = some number := by
    refine List.findIdx?_eq_some_iff_getElem.mpr ⟨bounds.1, by simp, fun earlier before => ?_⟩
    have distinct := List.pairwise_iff_getElem.mp (List.pairwise_map.mp valid.names)
    simpa using distinct earlier number (Nat.lt_trans before bounds.1) bounds.1 before
  rw [SourcePattern.lookup_of_position? at_, List.getElem?_eq_getElem bounds.2]
  rfl

/-- A binding carries a name of the pattern. -/
theorem Rule.name_of_mem_bindings {rule : Rule} {bound : List Node} {binding : Binding}
    (member : binding ∈ rule.bindings bound) : binding.name ∈ rule.sourcePattern.names := by
  obtain ⟨⟨place, node⟩, paired, rfl⟩ := List.mem_map.mp member
  exact List.mem_map_of_mem (List.of_mem_zip paired).1

/-- All that a match of a connected pattern binds is in a territory, or nothing is. -/
theorem Mirrors.mem_territory_of_local {naming : Naming} {part whole : CodeGraph}
    (mirrors : Mirrors naming part whole) {rule : Rule} (valid : rule.Valid)
    (isLocal : rule.sourcePattern.Local) {index : Nat} {found : Match}
    (member : found ∈ rule.matchesAt index whole) {first second : Binding}
    (firstMember : first ∈ found.bindings) (secondMember : second ∈ found.bindings) :
    first.node ∈ naming.territory ↔ second.node ∈ naming.territory := by
  obtain ⟨bound, mapped, embeds, _, rfl⟩ := mirrors.wholeFormed.exists_embeds valid member
  let Inside (name : String) : Prop :=
    ∃ id ∈ (rule.sourcePattern.lookup bound name).map (·.id), id ∈ naming.territory
  have joined {one other : String}
      (connected : Relation.EqvGen rule.sourcePattern.Contains one other) :
      Inside one ↔ Inside other := by
    induction connected with
    | rel owner name contains =>
        obtain ⟨there, stands⟩ := embeds.connected _ contains
        have ends := mirrors.contained there stands.member stands.kind
        simp only [Inside, stands.source, stands.target, Option.mem_some_iff, exists_eq_left', ends]
    | refl => exact Iff.rfl
    | symm _ _ _ ih => exact ih.symm
    | trans _ _ _ _ _ ih later => exact ih.trans later
  have inside {binding : Binding} (bindingMember : binding ∈ rule.bindings bound) :
      Inside binding.name ↔ binding.node ∈ naming.territory := by
    simp only [Inside, rule.lookup_of_mem_bindings valid bindingMember, Option.mem_some_iff,
      exists_eq_left']
  have connected := isLocal.connected _ (rule.name_of_mem_bindings firstMember) _
    (rule.name_of_mem_bindings secondMember)
  exact (inside firstMember).symm.trans ((joined connected).trans (inside secondMember))

/-- **Locality.** A match of connected patterns is one of exactly one part. -/
theorem Agrees.exists_owner {ι : Type} [DecidableEq ι] {naming : ι → Naming}
    {part : ι → CodeGraph} {whole : CodeGraph} (agrees : Agrees naming part whole)
    {rules : List Rule} (valid : ∀ rule ∈ rules, rule.Valid)
    (isLocal : ∀ rule ∈ rules, rule.sourcePattern.Local) {found : Match}
    (member : found ∈ whole.findMatches rules) :
    ∃ index, ∀ place, (naming place).covers found = decide (place = index) := by
  obtain ⟨rule, number, at_, member⟩ := CodeGraph.mem_findMatches_iff.mp member
  have listed := List.mem_of_getElem? at_
  obtain ⟨bound, assignment, made⟩ := Rule.exists_of_mem_matchesAt member
  obtain ⟨matched, _, rfl⟩ := Rule.matchOf?_eq_some_iff.mp made
  obtain ⟨size, _⟩ := Rule.length_of_mem_assignments assignment
  obtain ⟨first, isFirst⟩ := rule.exists_replaced_binding (valid rule listed) size
  have firstMember := List.mem_of_find?_eq_some isFirst
  -- The node of one binding decides the part of all.
  have covers (place : ι) : (naming place).covers (rule.matchOf number bound matched) ↔
      first.node ∈ (naming place).territory := by
    rw [Naming.covers_iff]
    refine ⟨fun inside => inside _ (List.mem_map_of_mem firstMember), fun inside id boundTo => ?_⟩
    obtain ⟨binding, bindingMember, rfl⟩ := List.mem_map.mp boundTo
    exact ((agrees.mirrors place).mem_territory_of_local (valid rule listed) (isLocal rule listed)
      member firstMember bindingMember).mp inside
  obtain ⟨index, inside⟩ : ∃ index, first.node ∈ (naming index).territory := by
    have boundTo : first.node ∈ (rule.bindings bound).map (·.node) :=
      List.mem_map_of_mem firstMember
    rw [Rule.map_node_bindings size] at boundTo
    obtain ⟨node, nodeMember, same⟩ := List.mem_map.mp boundTo
    obtain ⟨index, inside⟩ := agrees.cover node
      (Rule.mem_nodes_of_mem_assignments agrees.formed assignment node nodeMember)
    exact ⟨index, same ▸ inside⟩
  refine ⟨index, fun place => ?_⟩
  rw [Bool.eq_iff_iff, covers, decide_eq_true_eq]
  refine ⟨fun other => ?_, fun same => same ▸ inside⟩
  by_contra different
  exact agrees.apart place index different other inside

end Transcode
