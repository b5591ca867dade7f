import Transcode.Proofs.Standing

/-!
# Applying a match in a part

Applying a match in a part and the same match in the whole graph adds the same to both, under other
ids (`Naming.Adds`). The part still mirrors the whole graph after it, with names for what is new
(`Mirrors.inside`), and so it does after a match of the whole graph is applied elsewhere
(`Mirrors.outside`).
-/

namespace Transcode

/-! ### Applications -/

/-- A match is applied with an addition. -/
structure CodeGraph.Applies (graph : CodeGraph) (rule : Rule) (found : Match)
    (addition : Addition) : Prop where
  added : addition.For graph rule found
  fits : found.Fits rule
  live : ∀ binding ∈ found.bindings, graph.hasNode binding.node
  formed : (addition.result graph rule found).WellFormed
  outcome : graph.applyMatch rule found =
    (.ok (addition.nodes.map (·.id)), addition.result graph rule found)

namespace CodeGraph

variable {graph : CodeGraph} {rule : Rule} {found : Match} {addition : Addition}

/-- A match with live nodes can be applied, and what it adds has new ids. -/
theorem WellFormed.exists_applies_new (wellFormed : graph.WellFormed) (valid : rule.Valid)
    (fits : found.Fits rule) (live : ∀ binding ∈ found.bindings, graph.hasNode binding.node) :
    ∃ addition, graph.Applies rule found addition ∧ addition.New graph rule := by
  obtain ⟨addition, added, new, outcome⟩ := wellFormed.applyMatch_eq valid fits live
  have formed := wellFormed.applyMatch rule found
  rw [outcome] at formed
  exact ⟨addition, ⟨added, fits, live, formed, outcome⟩, new⟩

/-- A match with live nodes can be applied. -/
theorem WellFormed.exists_applies (wellFormed : graph.WellFormed) (valid : rule.Valid)
    (fits : found.Fits rule) (live : ∀ binding ∈ found.bindings, graph.hasNode binding.node) :
    ∃ addition, graph.Applies rule found addition :=
  let ⟨addition, applies, _⟩ := wellFormed.exists_applies_new valid fits live
  ⟨addition, applies⟩

/-- The ends of edges are used up. -/
theorem Settled.endsSpent (settled : graph.Settled) (wellFormed : graph.WellFormed) {edge : Edge}
    (member : edge ∈ graph.edges) : graph.NodeSpent edge.source ∧ graph.NodeSpent edge.target := by
  have spent {id : String} (there : graph.hasNode id) : graph.NodeSpent id := by
    obtain ⟨node, nodeMember, rfl⟩ := List.mem_map.mp (hasNode_iff.mp there)
    exact settled.nodes node nodeMember
  have ends := wellFormed.endpoints edge member
  exact ⟨spent ends.1, spent ends.2⟩

namespace Applies

variable (applies : graph.Applies rule found addition)

include applies

theorem distinct : (found.replaced.map (·.node)).Nodup :=
  applies.fits.distinct.sublist (List.filter_sublist.map _)

/-- What is replaced is there. -/
theorem live_replaced : ∀ id ∈ found.replaced.map (·.node), graph.hasNode id := by
  intro id listed
  obtain ⟨binding, member, rfl⟩ := List.mem_map.mp listed
  exact applies.live binding (List.mem_filter.mp member).1

theorem settled (settled : graph.Settled) : (addition.result graph rule found).Settled :=
  settled.result applies.added applies.distinct applies.live_replaced

/-- New nodes have ids of their own. -/
theorem nodup_nodes : (addition.nodes.map (·.id)).Nodup := by
  have ids := applies.formed.nodeIds
  rw [Addition.result, List.map_append, List.nodup_append] at ids
  exact ids.2.1

/-- New links have ids of their own. -/
theorem nodup_links : (addition.links.map (·.id)).Nodup := by
  have ids := applies.formed.edgeIds
  rw [Addition.result, List.map_append, List.nodup_append] at ids
  exact ids.2.1

end Applies

end CodeGraph

/-! ### Names for what is new -/

/-- Names keep apart what is known and what is new if they keep the new apart from each other and
from the known. -/
theorem apart_append {name further : String → String} {known new : List String}
    (apart : ∀ first ∈ known, ∀ second ∈ known, name first = name second → first = second)
    (keeps : ∀ id ∈ known, further id = name id) (distinct : (new.map further).Nodup)
    (fresh : ∀ id ∈ known, name id ∉ new.map further) :
    ∀ first ∈ known ++ new, ∀ second ∈ known ++ new, further first = further second →
      first = second := by
  have clash {old other : String} (isKnown : old ∈ known) (isNew : other ∈ new) :
      further old ≠ further other := by
    rw [keeps old isKnown]
    exact fun same => fresh old isKnown (same ▸ List.mem_map_of_mem isNew)
  intro first firstMember second secondMember same
  rcases List.mem_append.mp firstMember with firstOld | firstNew <;>
    rcases List.mem_append.mp secondMember with secondOld | secondNew
  · rw [keeps first firstOld, keeps second secondOld] at same
    exact apart first firstOld second secondOld same
  · exact absurd same (clash firstOld secondNew)
  · exact absurd same.symm (clash secondOld firstNew)
  · exact List.inj_on_of_nodup_map distinct firstNew secondNew same

/-- A naming names also what is added to a part, after what is added to the whole graph. -/
structure Naming.Adds (naming further : Naming) (addition wholeAddition : Addition) : Prop where
  nodeIds : further.nodeIds = naming.nodeIds ++ addition.nodes.map (·.id)
  edgeIds : further.edgeIds = naming.edgeIds ++ addition.links.map (·.id)
  node : ∀ id ∈ naming.nodeIds, further.node id = naming.node id
  edge : ∀ id ∈ naming.edgeIds, further.edge id = naming.edge id
  nodes : (addition.nodes.map (·.id)).map further.node = wholeAddition.nodes.map (·.id)
  links : (addition.links.map (·.id)).map further.edge = wholeAddition.links.map (·.id)

namespace Naming.Adds

variable {naming further : Naming} {addition wholeAddition : Addition}
  (adds : naming.Adds further addition wholeAddition)

include adds

theorem known {id : String} (isKnown : id ∈ naming.nodeIds) : id ∈ further.nodeIds := by
  rw [adds.nodeIds]
  exact List.mem_append_left _ isKnown

theorem knownEdge {id : String} (isKnown : id ∈ naming.edgeIds) : id ∈ further.edgeIds := by
  rw [adds.edgeIds]
  exact List.mem_append_left _ isKnown

theorem new {id : String} (isNew : id ∈ addition.nodes.map (·.id)) : id ∈ further.nodeIds := by
  rw [adds.nodeIds]
  exact List.mem_append_right _ isNew

theorem newLink {id : String} (isNew : id ∈ addition.links.map (·.id)) : id ∈ further.edgeIds := by
  rw [adds.edgeIds]
  exact List.mem_append_right _ isNew

theorem territory : further.territory = naming.territory ++ wholeAddition.nodes.map (·.id) := by
  rw [Naming.territory, adds.nodeIds, List.map_append, adds.nodes]
  exact congrArg (· ++ _) (List.map_congr_left adds.node)

theorem routes : further.routes = naming.routes ++ wholeAddition.links.map (·.id) := by
  rw [Naming.routes, adds.edgeIds, List.map_append, adds.links]
  exact congrArg (· ++ _) (List.map_congr_left adds.edge)

/-- What is related by fewer names is related by more. -/
theorem relates {found other : Match} (relates : naming.Relates found other) :
    further.Relates found other where
  rule := relates.rule
  bindings := relates.bindings.imp fun _ _ binds =>
    ⟨adds.known binds.known, by rw [binds.node, adds.node _ binds.known], binds.name,
      binds.replaced⟩
  edges := relates.edges.imp fun _ _ carries =>
    ⟨adds.knownEdge carries.known, adds.known carries.sourceKnown, adds.known carries.targetKnown,
      by rw [carries.source, adds.node _ carries.sourceKnown],
      by rw [carries.target, adds.node _ carries.targetKnown],
      by rw [carries.edge, adds.edge _ carries.known]⟩

/-- The nodes of a fragment by name. -/
theorem lookup_fragment (rule : Rule) (name : String) :
    (wholeAddition.fragment rule).lookup name =
      ((addition.fragment rule).lookup name).map further.node := by
  unfold Addition.fragment
  rw [← adds.nodes]
  generalize addition.nodes.map (·.id) = ids
  generalize rule.targetPattern.names = names
  induction names generalizing ids with
  | nil => rfl
  | cons head rest ih =>
      cases ids with
      | nil => rfl
      | cons id others =>
          rw [List.map_cons, List.zip_cons_cons, List.zip_cons_cons, List.lookup_cons,
            List.lookup_cons, ih]
          split <;> rfl

/-- The ends of the edges of a fragment. -/
theorem endOf?_eq {found other : Match} (relates : naming.Relates found other) (rule : Rule)
    (name : String) :
    Rule.endOf? (wholeAddition.fragment rule) other name =
      (Rule.endOf? (addition.fragment rule) found name).map further.node := by
  rw [Rule.endOf?, Rule.endOf?, adds.lookup_fragment, (adds.relates relates).node?_eq,
    Option.map_or]

/-- The ends of a new link are known. -/
theorem known_of_endOf? {found other : Match} (relates : naming.Relates found other) {rule : Rule}
    {name id : String} (isEnd : Rule.endOf? (addition.fragment rule) found name = some id) :
    id ∈ further.nodeIds := by
  rcases Option.or_eq_some_iff.mp isEnd with new | ⟨_, bound⟩
  · exact adds.new (mem_of_lookup_zip new)
  · exact adds.known (relates.known_of_node? bound)

end Naming.Adds

/-- Nodes that are called so and show the same have the same data. -/
theorem Naming.map_data_of_spec {naming : Naming} {nodes others : List Node}
    (ids : others.map (·.id) = (nodes.map (·.id)).map naming.node)
    (specs : others.map Node.spec = nodes.map Node.spec) :
    others.map Node.data = nodes.map naming.nodeData := by
  induction nodes generalizing others with
  | nil => rw [List.map_eq_nil_iff.mp specs, List.map_nil, List.map_nil]
  | cons node rest ih =>
      cases others with
      | nil => cases specs
      | cons other later =>
          obtain ⟨id, ids⟩ := List.cons.inj ids
          obtain ⟨spec, specs⟩ := List.cons.inj specs
          obtain ⟨kind, label, attributes⟩ := NodeSpec.mk.inj spec
          rw [List.map_cons, List.map_cons, ih ids specs]
          exact congrArg (· :: _) (NodeData.mk.injEq .. ▸ ⟨id, label, kind, attributes⟩)

/-- Looking up in pairs under other names that tell the keys apart. -/
theorem lookup_map_pairs {name : String → String} {pairs : List (String × String)} {id : String}
    (apart : ∀ key ∈ pairs.map (·.1), name id = name key → id = key) :
    (pairs.map fun pair => (name pair.1, name pair.2)).lookup (name id) =
      (pairs.lookup id).map name := by
  induction pairs with
  | nil => rfl
  | cons pair rest ih =>
      obtain ⟨here, later⟩ := List.forall_mem_cons.mp apart
      have same : (name id == name pair.1) = (id == pair.1) := by
        rw [Bool.eq_iff_iff, beq_iff_eq, beq_iff_eq]
        exact ⟨here, congrArg name⟩
      rw [List.map_cons, List.lookup_cons, List.lookup_cons, ih later, same]
      split <;> rfl

/-- The node that is in the place of a node after an application. -/
def Addition.inPlace (addition : Addition) (rule : Rule) (found : Match) (id : String) : String :=
  ((addition.replacements rule found).lookup id).getD id

namespace Addition

variable {addition : Addition} {rule : Rule} {found : Match} {id : String}

/-- Only what is replaced has a replacement. -/
theorem lookup_eq_none_iff :
    (addition.replacements rule found).lookup id = none ↔ id ∉ found.replaced.map (·.node) := by
  rw [← CodeGraph.lookup_replacements_isSome_iff, Bool.not_eq_true, Option.isSome_eq_false_iff,
    Option.isNone_iff_eq_none]

theorem inPlace_of_not_mem (stays : id ∉ found.replaced.map (·.node)) :
    addition.inPlace rule found id = id := by
  rw [inPlace, lookup_eq_none_iff.mpr stays, Option.getD_none]

/-- What is replaced has a new node in its place. -/
theorem For.inPlace_mem {graph : CodeGraph} (added : addition.For graph rule found)
    (listed : id ∈ found.replaced.map (·.node)) :
    addition.inPlace rule found id ∈ addition.nodes.map (·.id) := by
  obtain ⟨new, lookedUp⟩ := Option.isSome_iff_exists.mp
    (CodeGraph.lookup_replacements_isSome_iff.mpr listed)
  rw [inPlace, lookedUp, Option.getD_some]
  exact added.targets _ (CodeGraph.mem_of_lookup_eq_some lookedUp)

/-- An edge that touches nothing replaced stays as it is. -/
theorem moved_of_not_touches {edge : Edge}
    (untouched : edge.touches (found.replaced.map (·.node)) = false) :
    edge.moved (addition.replacements rule found) = edge := by
  rw [Edge.touches_eq_false_iff] at untouched
  have source : addition.inPlace rule found edge.source = edge.source :=
    inPlace_of_not_mem untouched.1
  have target : addition.inPlace rule found edge.target = edge.target :=
    inPlace_of_not_mem untouched.2
  cases edge
  exact Edge.mk.injEq .. ▸ ⟨rfl, rfl, source, target, rfl, rfl⟩

/-- An edge goes away, or leads to what is in the place of its ends. -/
theorem rewritten?_eq (edge : Edge) :
    edge.rewritten? found (addition.replacements rule found) =
      if edge.touches (found.replaced.map (·.node)) &&
          (found.edges.any (·.edge = edge.id) ||
            (edge.moved (addition.replacements rule found)).isContainmentLoop) then none
      else some (edge.moved (addition.replacements rule found)) := by
  have keys : (addition.replacements rule found).map (·.1) = found.replaced.map (·.node) :=
    CodeGraph.map_fst_additionReplacements addition
  unfold Edge.rewritten?
  rw [keys]
  cases touched : edge.touches (found.replaced.map (·.node))
  · rw [moved_of_not_touches touched]
    rfl
  · rfl

/-- An edge that is rewritten is moved. -/
theorem moved_of_rewritten? {edge other : Edge}
    (rewritten : edge.rewritten? found (addition.replacements rule found) = some other) :
    edge.moved (addition.replacements rule found) = other := by
  rw [rewritten?_eq] at rewritten
  split at rewritten
  · cases rewritten
  · exact Option.some.inj rewritten

end Addition

/-- A match elsewhere replaces nothing within a territory. -/
theorem Naming.not_mem_replaced {naming : Naming} {other : Match}
    (elsewhere : ∀ binding ∈ other.bindings, binding.node ∉ naming.territory) {id : String}
    (inside : id ∈ naming.territory) :
    id ∉ other.replaced.map (·.node) := by
  intro listed
  obtain ⟨binding, member, rfl⟩ := List.mem_map.mp listed
  exact elsewhere binding (List.mem_filter.mp member).1 inside

namespace Naming.Adds

variable {naming further : Naming} {part whole : CodeGraph} {rule : Rule} {found other : Match}
  {addition wholeAddition : Addition} (adds : naming.Adds further addition wholeAddition)

include adds

section Fragment

variable (applies : part.Applies rule found addition)
  (wholeApplies : whole.Applies rule other wholeAddition)

include applies wholeApplies

/-- The first new node of the whole graph is that of the part under its name. -/
theorem root_eq : wholeAddition.root = further.node addition.root := by
  have root := wholeApplies.added.root
  obtain ⟨name, named, rooted⟩ := Option.bind_eq_some_iff.mp applies.added.root
  rw [named, Option.bind_some, adds.lookup_fragment, rooted] at root
  exact (Option.some.inj root).symm

variable (relates : naming.Relates found other)

include relates

/-- **The edges of the fragments show the same.** -/
theorem map_data_links :
    wholeAddition.links.map Edge.data = addition.links.map further.edgeData := by
  have linked := applies.added.linked
  have wholeLinked := wholeApplies.added.linked
  have ids := adds.links
  have ends := adds.endOf?_eq relates rule
  generalize rule.targetPattern.edges = links at linked wholeLinked
  generalize addition.links = edges at linked ids ⊢
  generalize wholeAddition.links = others at wholeLinked ids ⊢
  induction linked generalizing others with
  | nil =>
      cases wholeLinked
      rfl
  | cons first _ ih =>
      cases wholeLinked with
      | cons here later =>
          obtain ⟨id, ids⟩ := List.cons.inj ids
          rw [List.map_cons, List.map_cons, ih _ later ids]
          refine congrArg (· :: _) (EdgeData.mk.injEq .. ▸ ⟨id.symm, ?_, ?_, ?_, ?_⟩)
          · have source := ends _ ▸ here.source
            rw [first.source] at source
            exact (Option.some.inj source).symm
          · have target := ends _ ▸ here.target
            rw [first.target] at target
            exact (Option.some.inj target).symm
          · exact here.kind.trans first.kind.symm
          · exact here.attributes.trans first.attributes.symm

/-- What replaces the nodes of the match. -/
theorem replacements_eq : wholeAddition.replacements rule other =
    (addition.replacements rule found).map fun pair =>
      (further.node pair.1, further.node pair.2) := by
  have binds := (adds.relates relates).replaced
  have root := adds.root_eq applies wholeApplies
  unfold Addition.replacements Rule.replacements
  generalize found.replaced = bindings at binds ⊢
  generalize other.replaced = others at binds ⊢
  induction binds with
  | nil => rfl
  | @cons binding another _ _ first _ ih =>
      rw [List.map_cons, List.map_cons, List.map_cons, ih, first.name, first.node, root]
      refine congrArg (fun new => (further.node binding.node, new) :: _) ?_
      cases rule.targetPattern.boundary.get? binding.name with
      | none => rfl
      | some name =>
          rw [Option.bind_some, Option.bind_some, adds.lookup_fragment]
          cases (addition.fragment rule).lookup name <;> rfl

end Fragment

/-- What stands in a known place is known. -/
theorem known_of_inPlace (applies : part.Applies rule found addition) {id : String}
    (known : id ∈ naming.nodeIds) :
    addition.inPlace rule found id ∈ further.nodeIds := by
  by_cases listed : id ∈ found.replaced.map (·.node)
  · exact adds.new (applies.added.inPlace_mem listed)
  · rw [Addition.inPlace_of_not_mem listed]
    exact adds.known known

section Territory

variable (wholeApplies : whole.Applies rule other wholeAddition)

include wholeApplies

/-- An id that was in use is in the territory if it was before. -/
theorem mem_territory_iff {id : String} (spent : whole.NodeSpent id) :
    id ∈ further.territory ↔ id ∈ naming.territory := by
  rw [adds.territory, List.mem_append, or_iff_left (wholeApplies.added.not_mem_of_nodeSpent spent)]

/-- An edge id that was in use is on the routes if it was before. -/
theorem mem_routes_iff {id : String} (spent : whole.EdgeSpent id) :
    id ∈ further.routes ↔ id ∈ naming.routes := by
  rw [adds.routes, List.mem_append, or_iff_left (wholeApplies.added.not_mem_of_edgeSpent spent)]

/-- What was in the territory stays there, and nothing else comes into it. -/
theorem inPlace_mem_territory_iff (relates : naming.Relates found other) {id : String}
    (spent : whole.NodeSpent id) :
    wholeAddition.inPlace rule other id ∈ further.territory ↔ id ∈ naming.territory := by
  by_cases listed : id ∈ other.replaced.map (·.node)
  · refine iff_of_true ?_ ?_
    · rw [adds.territory]
      exact List.mem_append_right _ (wholeApplies.added.inPlace_mem listed)
    · obtain ⟨binding, member, rfl⟩ := List.mem_map.mp listed
      exact relates.mem_territory (List.mem_filter.mp member).1
  · rw [Addition.inPlace_of_not_mem listed, adds.mem_territory_iff wholeApplies spent]

/-- Both ends of a new edge are in the territory. -/
theorem ends_of_mem_links (relates : naming.Relates found other) {link : Edge}
    (member : link ∈ wholeAddition.links) :
    link.source ∈ further.territory ∧ link.target ∈ further.territory := by
  have inside {name id : String}
      (isEnd : Rule.endOf? (wholeAddition.fragment rule) other name = some id) :
      id ∈ further.territory := by
    rw [adds.endOf?_eq relates rule] at isEnd
    obtain ⟨own, ownEnd, rfl⟩ := Option.map_eq_some_iff.mp isEnd
    exact List.mem_map_of_mem (adds.known_of_endOf? relates ownEnd)
  obtain ⟨template, _, links⟩ := exists_left_of_forall₂ wholeApplies.added.linked link member
  exact ⟨inside links.source, inside links.target⟩

end Territory

end Naming.Adds

/-- **The nodes of the fragments show the same** if what the matches bind does. -/
theorem CodeGraph.Applies.map_spec_nodes {first second : CodeGraph} {rule : Rule}
    {found other : Match} {addition secondAddition : Addition}
    (applies : first.Applies rule found addition)
    (secondApplies : second.Applies rule other secondAddition)
    (same : ∀ name, (second.boundNode? other name).map Node.spec =
      (first.boundNode? found name).map Node.spec) :
    secondAddition.nodes.map Node.spec = addition.nodes.map Node.spec := by
  have filled := applies.added.filled
  have secondFilled := secondApplies.added.filled
  simp only [TemplateNode.instantiate_of_spec same] at secondFilled
  refine List.map_injective_iff.mpr (Option.some_injective NodeSpec) ?_
  rw [List.map_map, List.map_map, ← forall₂_iff_map_eq]
  generalize rule.targetPattern.nodes = templates at filled secondFilled
  generalize addition.nodes = nodes at filled ⊢
  generalize secondAddition.nodes = others at secondFilled ⊢
  induction filled generalizing others with
  | nil =>
      cases secondFilled
      exact .nil
  | cons first _ ih =>
      cases secondFilled with
      | cons here later => exact .cons (here.symm.trans first) (ih _ later)

/-- What an id resolves to goes over to what takes its place. -/
theorem CodeGraph.Applies.resolved?_eq {graph : CodeGraph} {rule : Rule} {found : Match}
    {addition : Addition} (applies : graph.Applies rule found addition) (settled : graph.Settled)
    (nonempty : found.replaced ≠ []) {id place : String} (spent : graph.NodeSpent id)
    (resolved : graph.resolved? id = some place) :
    (addition.result graph rule found).resolved? id = some (addition.inPlace rule found place) :=
  resolved?_result settled applies.added applies.distinct applies.live_replaced nonempty spent
    resolved

namespace Mirrors

variable {naming further : Naming} {part whole : CodeGraph} {rule : Rule} {found other : Match}
  {addition wholeAddition : Addition} (mirrors : Mirrors naming part whole)

include mirrors

/-- There are names for all that a match adds. -/
theorem exists_adds (applies : part.Applies rule found addition)
    (wholeApplies : whole.Applies rule other wholeAddition) :
    ∃ further, naming.Adds further addition wholeAddition := by
  have nodeSize : (addition.nodes.map (·.id)).length = (wholeAddition.nodes.map (·.id)).length := by
    rw [List.length_map, List.length_map, ← applies.added.filled.length_eq,
      wholeApplies.added.filled.length_eq]
  have linkSize : (addition.links.map (·.id)).length = (wholeAddition.links.map (·.id)).length := by
    rw [List.length_map, List.length_map, ← applies.added.linked.length_eq,
      wholeApplies.added.linked.length_eq]
  obtain ⟨node, nodes, keeps⟩ := exists_extension naming.node applies.nodup_nodes nodeSize
  obtain ⟨edge, links, keepsEdge⟩ := exists_extension naming.edge applies.nodup_links linkSize
  refine ⟨⟨node, edge, naming.nodeIds ++ addition.nodes.map (·.id),
    naming.edgeIds ++ addition.links.map (·.id)⟩, rfl, rfl, fun id known => ?_, fun id known => ?_,
    nodes, links⟩
  · exact keeps id (applies.added.not_mem_of_nodeSpent (mirrors.nodesSpent id known).1)
  · exact keepsEdge id (applies.added.not_mem_of_edgeSpent (mirrors.edgesSpent id known).1)

/-- Names stay apart with those of new nodes. -/
theorem apart_of_adds (wholeApplies : whole.Applies rule other wholeAddition)
    (adds : naming.Adds further addition wholeAddition) :
    ∀ first ∈ further.nodeIds, ∀ second ∈ further.nodeIds,
      further.node first = further.node second → first = second := by
  rw [adds.nodeIds]
  refine apart_append mirrors.nodesApart adds.node (adds.nodes ▸ wholeApplies.nodup_nodes) ?_
  rw [adds.nodes]
  exact fun id known => wholeApplies.added.not_mem_of_nodeSpent (mirrors.nodesSpent id known).2

/-- Names of edges stay apart with those of new links. -/
theorem edgesApart_of_adds (wholeApplies : whole.Applies rule other wholeAddition)
    (adds : naming.Adds further addition wholeAddition) :
    ∀ first ∈ further.edgeIds, ∀ second ∈ further.edgeIds,
      further.edge first = further.edge second → first = second := by
  rw [adds.edgeIds]
  refine apart_append mirrors.edgesApart adds.edge (adds.links ▸ wholeApplies.nodup_links) ?_
  rw [adds.links]
  exact fun id known => wholeApplies.added.not_mem_of_edgeSpent (mirrors.edgesSpent id known).2

section Both

variable (relates : naming.Relates found other) (applies : part.Applies rule found addition)
  (wholeApplies : whole.Applies rule other wholeAddition)
  (adds : naming.Adds further addition wholeAddition)

include relates

/-- A node is replaced in the part if it is so under its name in the whole graph. -/
theorem mem_replaced_iff {id : String} (known : id ∈ naming.nodeIds) :
    naming.node id ∈ other.replaced.map (·.node) ↔ id ∈ found.replaced.map (·.node) := by
  rw [Naming.map_node relates.replaced]
  refine ⟨fun listed => ?_, List.mem_map_of_mem⟩
  obtain ⟨key, keyListed, equal⟩ := List.mem_map.mp listed
  rwa [← mirrors.nodesApart _ (relates.known_of_mem_replaced keyListed) _ known equal]

/-- What a name is bound to shows the same. -/
theorem boundNode?_eq (name : String) :
    (whole.boundNode? other name).map Node.spec = (part.boundNode? found name).map Node.spec := by
  rw [CodeGraph.boundNode?, CodeGraph.boundNode?, relates.node?_eq]
  cases bound : found.node? name with
  | none => rfl
  | some id =>
      have looked := mirrors.node?_eq (relates.known_of_node? bound)
      rw [Option.map_some, Option.bind_some, Option.bind_some]
      cases left : whole.node? (naming.node id) <;> cases right : part.node? id <;>
        rw [left, right] at looked
      · cases looked
      · cases looked
      · exact congrArg some (Naming.spec_of_data (Option.some.inj looked))

include applies wholeApplies

theorem map_spec_nodes : wholeAddition.nodes.map Node.spec = addition.nodes.map Node.spec :=
  applies.map_spec_nodes wholeApplies (mirrors.boundNode?_eq relates)

include adds

theorem map_data_nodes : wholeAddition.nodes.map Node.data = addition.nodes.map further.nodeData :=
  Naming.map_data_of_spec adds.nodes.symm (mirrors.map_spec_nodes relates applies wholeApplies)

/-- What is in the place of a node of the part. -/
theorem inPlace_eq {id : String} (known : id ∈ naming.nodeIds) :
    wholeAddition.inPlace rule other (naming.node id) =
      further.node (addition.inPlace rule found id) := by
  have keys : (addition.replacements rule found).map (·.1) = found.replaced.map (·.node) :=
    CodeGraph.map_fst_additionReplacements addition
  have same : (wholeAddition.replacements rule other).lookup (further.node id) =
      ((addition.replacements rule found).lookup id).map further.node := by
    rw [adds.replacements_eq applies wholeApplies relates]
    refine lookup_map_pairs fun key listed equal => ?_
    have keyKnown := relates.known_of_mem_replaced (keys ▸ listed)
    rw [adds.node id known, adds.node key keyKnown] at equal
    exact mirrors.nodesApart id known key keyKnown equal
  rw [Addition.inPlace, Addition.inPlace, ← adds.node id known, same]
  cases (addition.replacements rule found).lookup id <;> rfl

/-- What becomes of an edge of the part. -/
theorem rewritten?_eq {before there : Edge} (member : before ∈ part.edges)
    (same : there.data = naming.edgeData before) :
    (there.rewritten? other (wholeAddition.replacements rule other)).map Edge.data =
      (before.rewritten? found (addition.replacements rule found)).map further.edgeData := by
  obtain ⟨id, source, target, kind, attributes⟩ := EdgeData.mk.inj same
  have ends := mirrors.endsKnown member
  have touched : there.touches (other.replaced.map (·.node)) =
      before.touches (found.replaced.map (·.node)) := by
    rw [Bool.eq_iff_iff, Edge.touches_iff, Edge.touches_iff, source, target,
      mirrors.mem_replaced_iff relates ends.1, mirrors.mem_replaced_iff relates ends.2]
  have matched : other.edges.any (·.edge = there.id) = found.edges.any (·.edge = before.id) := by
    have aligned := relates.edges
    have idKnown := mirrors.edgesKnown before member
    generalize found.edges = edges at aligned ⊢
    generalize other.edges = others at aligned ⊢
    induction aligned with
    | nil => rfl
    | @cons edge another _ _ carries _ ih =>
        have equal : naming.edge edge.edge = naming.edge before.id ↔ edge.edge = before.id :=
          ⟨mirrors.edgesApart _ carries.known _ idKnown, congrArg naming.edge⟩
        rw [List.any_cons, List.any_cons, ih, carries.edge, id, decide_eq_decide.mpr equal]
  have moved : (there.moved (wholeAddition.replacements rule other)).data =
      further.edgeData (before.moved (addition.replacements rule found)) := by
    refine EdgeData.mk.injEq .. ▸ ⟨?_, ?_, ?_, kind, attributes⟩
    · exact id.trans (adds.edge _ (mirrors.edgesKnown before member)).symm
    · change wholeAddition.inPlace rule other there.source = _
      rw [source, mirrors.inPlace_eq relates applies wholeApplies adds ends.1]
      rfl
    · change wholeAddition.inPlace rule other there.target = _
      rw [target, mirrors.inPlace_eq relates applies wholeApplies adds ends.2]
      rfl
  have loop : (there.moved (wholeAddition.replacements rule other)).isContainmentLoop =
      (before.moved (addition.replacements rule found)).isContainmentLoop := by
    obtain ⟨_, source, target, kind, _⟩ := EdgeData.mk.inj moved
    have equal := mirrors.apart_of_adds wholeApplies adds
      _ (adds.known_of_inPlace applies ends.1) _ (adds.known_of_inPlace applies ends.2)
    unfold Edge.isContainmentLoop
    rw [kind, source, target]
    exact congrArg _ (decide_eq_decide.mpr ⟨equal, congrArg further.node⟩)
  rw [Addition.rewritten?_eq, Addition.rewritten?_eq, touched, matched, loop]
  split
  · rfl
  · exact congrArg some moved

omit applies in
/-- The nodes that stay in a territory are those of the part under their names. -/
theorem keptNodes_eq :
    ((whole.nodes.filter (·.id ∉ other.replaced.map (·.node))).filter
        (·.id ∈ further.territory)).map Node.data =
      (part.nodes.filter (·.id ∉ found.replaced.map (·.node))).map further.nodeData := by
  have kept : (whole.nodes.filter (·.id ∉ other.replaced.map (·.node))).filter
        (·.id ∈ further.territory) =
      (whole.nodes.filter (·.id ∈ naming.territory)).filter
        (·.id ∉ other.replaced.map (·.node)) := by
    rw [List.filter_filter, List.filter_filter]
    refine List.filter_congr fun node member => ?_
    have spent := mirrors.wholeSettled.nodes node member
    rw [decide_eq_decide.mpr (adds.mem_territory_iff wholeApplies spent), Bool.and_comm]
  rw [kept]
  have aligned := ((List.forall₂_and_left _ _).mpr
    ⟨mirrors.nodesKnown, (forall₂_iff_map_eq.mpr mirrors.nodes).flip⟩).flip
  refine map_filter_eq (aligned.imp fun there node ⟨known, same⟩ => ⟨?_, ?_⟩)
  · have named : there.id = naming.node node.id := congrArg NodeData.id same
    have replaced := mirrors.mem_replaced_iff relates known
    rw [named, decide_not, decide_not, decide_eq_decide.mpr replaced]
  · rw [same, Naming.nodeData, Naming.nodeData, adds.node _ known]

/-- The edges that stay on the routes are those of the part under their names. -/
theorem keptEdges_eq :
    ((whole.edges.filterMap (·.rewritten? other (wholeAddition.replacements rule other))).filter
        (·.id ∈ further.routes)).map Edge.data =
      (part.edges.filterMap (·.rewritten? found (addition.replacements rule found))).map
        further.edgeData := by
  have kept : (whole.edges.filterMap
        (·.rewritten? other (wholeAddition.replacements rule other))).filter
        (·.id ∈ further.routes) =
      (whole.edges.filter (·.id ∈ naming.routes)).filterMap
        (·.rewritten? other (wholeAddition.replacements rule other)) := by
    rw [List.filter_filterMap, List.filterMap_filter]
    refine List.filterMap_congr fun edge member => ?_
    have routed := adds.mem_routes_iff wholeApplies (mirrors.wholeSettled.edges edge member)
    cases rewritten : edge.rewritten? other (wholeAddition.replacements rule other) with
    | none => simp
    | some after =>
        rw [Option.filter_some, Edge.id_of_rewritten? rewritten, decide_eq_decide.mpr routed]
  rw [kept]
  have aligned := ((List.forall₂_and_left _ _).mpr
    ⟨fun edge (member : edge ∈ part.edges) => member,
      (forall₂_iff_map_eq.mpr mirrors.edges).flip⟩).flip
  exact map_filterMap_eq (aligned.imp fun there edge ⟨member, same⟩ =>
    mirrors.rewritten?_eq relates applies wholeApplies adds member same)

/-- **Applying a match in its part.** After a match of the part and the same match of the whole
graph are applied, the part mirrors the whole graph, with names for what is new. -/
theorem inside :
    Mirrors further (addition.result part rule found) (wholeAddition.result whole rule other) where
  partFormed := applies.formed
  wholeFormed := wholeApplies.formed
  partSettled := applies.settled mirrors.partSettled
  wholeSettled := wholeApplies.settled mirrors.wholeSettled
  nodes := by
    have new : wholeAddition.nodes.filter (·.id ∈ further.territory) = wholeAddition.nodes := by
      refine List.filter_eq_self.mpr fun node member => decide_eq_true ?_
      rw [adds.territory]
      exact List.mem_append_right _ (List.mem_map_of_mem member)
    rw [Addition.result, Addition.result, List.filter_append, List.map_append, List.map_append, new,
      mirrors.keptNodes_eq relates wholeApplies adds,
      mirrors.map_data_nodes relates applies wholeApplies adds]
  edges := by
    have new : wholeAddition.links.filter (·.id ∈ further.routes) = wholeAddition.links := by
      refine List.filter_eq_self.mpr fun link member => decide_eq_true ?_
      rw [adds.routes]
      exact List.mem_append_right _ (List.mem_map_of_mem member)
    rw [Addition.result, Addition.result, List.filter_append, List.map_append, List.map_append, new,
      mirrors.keptEdges_eq relates applies wholeApplies adds,
      adds.map_data_links applies wholeApplies relates]
  nodesKnown node member := by
    rcases List.mem_append.mp member with old | new
    · exact adds.known (mirrors.nodesKnown node (List.mem_filter.mp old).1)
    · exact adds.new (List.mem_map_of_mem new)
  edgesKnown edge member := by
    rcases List.mem_append.mp member with old | new
    · obtain ⟨before, there, rewritten⟩ := List.mem_filterMap.mp old
      rw [Edge.id_of_rewritten? rewritten]
      exact adds.knownEdge (mirrors.edgesKnown before there)
    · exact adds.newLink (List.mem_map_of_mem new)
  nodesApart := mirrors.apart_of_adds wholeApplies adds
  edgesApart := mirrors.edgesApart_of_adds wholeApplies adds
  nodesSpent id known := by
    rw [adds.nodeIds] at known
    rcases List.mem_append.mp known with old | new
    · obtain ⟨spent, wholeSpent⟩ := mirrors.nodesSpent id old
      rw [adds.node id old]
      exact ⟨applies.added.nodeSpent_result spent, wholeApplies.added.nodeSpent_result wholeSpent⟩
    · have wholeNew : further.node id ∈ wholeAddition.nodes.map (·.id) :=
        adds.nodes ▸ List.mem_map_of_mem new
      obtain ⟨node, member, rfl⟩ := List.mem_map.mp new
      obtain ⟨there, thereMember, same⟩ := List.mem_map.mp wholeNew
      rw [← same]
      exact ⟨applies.added.nodeSpent_result_of_mem member,
        wholeApplies.added.nodeSpent_result_of_mem thereMember⟩
  edgesSpent id known := by
    rw [adds.edgeIds] at known
    rcases List.mem_append.mp known with old | new
    · obtain ⟨spent, wholeSpent⟩ := mirrors.edgesSpent id old
      rw [adds.edge id old]
      exact ⟨applies.added.edgeSpent_result spent, wholeApplies.added.edgeSpent_result wholeSpent⟩
    · have wholeNew : further.edge id ∈ wholeAddition.links.map (·.id) :=
        adds.links ▸ List.mem_map_of_mem new
      obtain ⟨link, member, rfl⟩ := List.mem_map.mp new
      obtain ⟨there, thereMember, same⟩ := List.mem_map.mp wholeNew
      rw [← same]
      exact ⟨applies.added.edgeSpent_result_of_mem member,
        wholeApplies.added.edgeSpent_result_of_mem thereMember⟩
  enclosed edge member := by
    rcases List.mem_append.mp member with old | new
    · obtain ⟨before, there, rewritten⟩ := List.mem_filterMap.mp old
      obtain rfl := Addition.moved_of_rewritten? rewritten
      obtain ⟨source, target⟩ := mirrors.wholeSettled.endsSpent mirrors.wholeFormed there
      intro fromInside toInside
      rw [adds.routes]
      refine List.mem_append_left _ (mirrors.enclosed before there ?_ ?_)
      · exact (adds.inPlace_mem_territory_iff wholeApplies relates source).mp fromInside
      · exact (adds.inPlace_mem_territory_iff wholeApplies relates target).mp toInside
    · intro _ _
      rw [adds.routes]
      exact List.mem_append_right _ (List.mem_map_of_mem new)
  contained edge member contains := by
    rcases List.mem_append.mp member with old | new
    · obtain ⟨before, there, rewritten⟩ := List.mem_filterMap.mp old
      obtain rfl := Addition.moved_of_rewritten? rewritten
      obtain ⟨source, target⟩ := mirrors.wholeSettled.endsSpent mirrors.wholeFormed there
      have before := mirrors.contained before there contains
      exact (adds.inPlace_mem_territory_iff wholeApplies relates source).trans
        (before.trans (adds.inPlace_mem_territory_iff wholeApplies relates target).symm)
    · have ends := adds.ends_of_mem_links wholeApplies relates new
      exact iff_of_true ends.1 ends.2

end Both

/-! ### Elsewhere -/

/-- Edges that are called so in the whole graph have their ends in the territory. -/
theorem ends_of_mem_routes {edge : Edge} (member : edge ∈ whole.edges)
    (inside : edge.id ∈ naming.routes) :
    edge.source ∈ naming.territory ∧ edge.target ∈ naming.territory := by
  obtain ⟨there, thereMember, same⟩ := mirrors.exists_showsEdge member inside
  obtain ⟨_, source, target, _, _⟩ := EdgeData.mk.inj same
  have known := mirrors.endsKnown thereMember
  exact ⟨source ▸ List.mem_map_of_mem known.1, target ▸ List.mem_map_of_mem known.2⟩

section Elsewhere

variable (wholeApplies : whole.Applies rule other wholeAddition)
  (elsewhere : ∀ binding ∈ other.bindings, binding.node ∉ naming.territory)

include wholeApplies

/-- What is added elsewhere is outside a territory. -/
theorem not_mem_territory {id : String} (new : id ∈ wholeAddition.nodes.map (·.id)) :
    id ∉ naming.territory := by
  intro listed
  obtain ⟨own, known, rfl⟩ := List.mem_map.mp listed
  exact wholeApplies.added.not_mem_of_nodeSpent (mirrors.nodesSpent own known).2 new

/-- Links that are added elsewhere are off the routes. -/
theorem not_mem_routes {id : String} (new : id ∈ wholeAddition.links.map (·.id)) :
    id ∉ naming.routes := by
  intro listed
  obtain ⟨own, known, rfl⟩ := List.mem_map.mp listed
  exact wholeApplies.added.not_mem_of_edgeSpent (mirrors.edgesSpent own known).2 new

include elsewhere

/-- What stands in a place elsewhere is outside a territory. -/
theorem mem_territory_of_inPlace_iff (id : String) :
    wholeAddition.inPlace rule other id ∈ naming.territory ↔ id ∈ naming.territory := by
  by_cases listed : id ∈ other.replaced.map (·.node)
  · refine iff_of_false ?_ ?_
    · exact mirrors.not_mem_territory wholeApplies (wholeApplies.added.inPlace_mem listed)
    · exact fun inside => Naming.not_mem_replaced elsewhere inside listed
  · rw [Addition.inPlace_of_not_mem listed]

/-- Neither end of a new edge is in the territory. -/
theorem not_mem_of_mem_links {link : Edge} (member : link ∈ wholeAddition.links) :
    link.source ∉ naming.territory ∧ link.target ∉ naming.territory := by
  have outside {name id : String}
      (isEnd : Rule.endOf? (wholeAddition.fragment rule) other name = some id) :
      id ∉ naming.territory := by
    rcases Option.or_eq_some_iff.mp isEnd with new | ⟨_, bound⟩
    · exact mirrors.not_mem_territory wholeApplies (mem_of_lookup_zip new)
    · obtain ⟨binding, first, rfl⟩ := Option.map_eq_some_iff.mp bound
      exact elsewhere binding (List.mem_of_find?_eq_some first)
  obtain ⟨template, _, links⟩ := exists_left_of_forall₂ wholeApplies.added.linked link member
  exact ⟨outside links.source, outside links.target⟩

/-- **Applying a match elsewhere.** A part still mirrors the whole graph after a match that binds
nothing of its territory is applied there. -/
theorem outside : Mirrors naming part (wholeAddition.result whole rule other) where
  partFormed := mirrors.partFormed
  wholeFormed := wholeApplies.formed
  partSettled := mirrors.partSettled
  wholeSettled := wholeApplies.settled mirrors.wholeSettled
  nodes := by
    have new : wholeAddition.nodes.filter (·.id ∈ naming.territory) = [] := by
      refine List.filter_eq_nil_iff.mpr fun node member => ?_
      rw [decide_eq_true_eq]
      exact mirrors.not_mem_territory wholeApplies (List.mem_map_of_mem member)
    rw [Addition.result, List.filter_append, new, List.append_nil, List.filter_filter,
      ← mirrors.nodes]
    refine congrArg _ (List.filter_congr fun node _ => ?_)
    by_cases inside : node.id ∈ naming.territory
    · rw [decide_eq_true (Naming.not_mem_replaced elsewhere inside), Bool.and_true]
    · rw [decide_eq_false inside, Bool.false_and]
  edges := by
    have new : wholeAddition.links.filter (·.id ∈ naming.routes) = [] := by
      refine List.filter_eq_nil_iff.mpr fun link member => ?_
      rw [decide_eq_true_eq]
      exact mirrors.not_mem_routes wholeApplies (List.mem_map_of_mem member)
    rw [Addition.result, List.filter_append, new, List.append_nil, List.filter_filterMap,
      ← mirrors.edges, ← List.filterMap_eq_filter]
    refine congrArg _ (List.filterMap_congr fun edge member => ?_)
    by_cases inside : edge.id ∈ naming.routes
    · have untouched : edge.touches (other.replaced.map (·.node)) = false := by
        have ends := mirrors.ends_of_mem_routes member inside
        exact Edge.touches_eq_false_iff.mpr ⟨Naming.not_mem_replaced elsewhere ends.1,
          Naming.not_mem_replaced elsewhere ends.2⟩
      rw [Addition.rewritten?_eq, untouched, Bool.false_and, if_neg Bool.false_ne_true,
        Addition.moved_of_not_touches untouched]
      simp [Option.guard, inside]
    · cases rewritten : edge.rewritten? other (wholeAddition.replacements rule other) with
      | none => simp [Option.guard, inside]
      | some after => simp [Option.guard, inside, Edge.id_of_rewritten? rewritten]
  nodesKnown := mirrors.nodesKnown
  edgesKnown := mirrors.edgesKnown
  nodesApart := mirrors.nodesApart
  edgesApart := mirrors.edgesApart
  nodesSpent id known := by
    obtain ⟨spent, wholeSpent⟩ := mirrors.nodesSpent id known
    exact ⟨spent, wholeApplies.added.nodeSpent_result wholeSpent⟩
  edgesSpent id known := by
    obtain ⟨spent, wholeSpent⟩ := mirrors.edgesSpent id known
    exact ⟨spent, wholeApplies.added.edgeSpent_result wholeSpent⟩
  enclosed edge member fromInside toInside := by
    rcases List.mem_append.mp member with old | new
    · obtain ⟨before, there, rewritten⟩ := List.mem_filterMap.mp old
      obtain rfl := Addition.moved_of_rewritten? rewritten
      refine mirrors.enclosed before there ?_ ?_
      · exact (mirrors.mem_territory_of_inPlace_iff wholeApplies elsewhere _).mp fromInside
      · exact (mirrors.mem_territory_of_inPlace_iff wholeApplies elsewhere _).mp toInside
    · exact absurd fromInside (mirrors.not_mem_of_mem_links wholeApplies elsewhere new).1
  contained edge member contains := by
    rcases List.mem_append.mp member with old | new
    · obtain ⟨before, there, rewritten⟩ := List.mem_filterMap.mp old
      obtain rfl := Addition.moved_of_rewritten? rewritten
      have before := mirrors.contained before there contains
      exact (mirrors.mem_territory_of_inPlace_iff wholeApplies elsewhere _).trans
        (before.trans (mirrors.mem_territory_of_inPlace_iff wholeApplies elsewhere _).symm)
    · have ends := mirrors.not_mem_of_mem_links wholeApplies elsewhere new
      exact iff_of_false ends.1 ends.2

end Elsewhere

end Mirrors

end Transcode
