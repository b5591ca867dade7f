import Transcode.Proofs.Replacement
import Transcode.Proofs.Validity

/-!
# Applying a match

Applying a match adds the nodes and edges of a fragment and puts them in the place of the replaced
nodes. Whatever the rule and the match, the graph stays well-formed, also where the application
stops on the way (`CodeGraph.WellFormed.applyMatch`). `CodeGraph.WellFormed.applyMatch_eq` says when
it does not stop, and gives the graph that it makes.
-/

namespace Transcode

/-- What a node is apart from its place in a graph. -/
def Node.spec (node : Node) : NodeSpec := ⟨node.kind, node.label, node.attributes⟩

namespace CodeGraph

variable {graph : CodeGraph} {rule : Rule} {found : Match} {lookup : String → Option Node}

/-! ### Well-formedness -/

/-- Building the nodes of a target leaves a well-formed graph. -/
theorem WellFormed.buildNodes (wellFormed : graph.WellFormed) (rule : Rule)
    (lookup : String → Option Node) (templates : List TemplateNode) :
    (rule.buildNodes lookup templates graph).2.WellFormed := by
  induction templates generalizing graph with
  | nil => exact wellFormed
  | cons template rest ih =>
      unfold Rule.buildNodes
      split
      · exact wellFormed
      · rename_i spec _
        exact ih ((wellFormed.addNode spec.kind spec.label spec.attributes).record _ _)

/-- Building the edges of a target leaves a well-formed graph. -/
theorem WellFormed.buildEdges (wellFormed : graph.WellFormed) (rule : Rule) (found : Match)
    (fragment : Fragment) (edges : List PatternEdge) :
    (rule.buildEdges fragment found edges graph).2.WellFormed := by
  induction edges generalizing graph with
  | nil => exact wellFormed
  | cons edge rest ih =>
      unfold Rule.buildEdges
      split
      · rename_i source target _ _
        have kept := wellFormed.addEdge source target edge.kind ∅
        split
        · rename_i after step
          rw [step] at kept
          exact ih kept
        · rename_i fault after step
          rw [step] at kept
          exact kept
      · exact wellFormed

/-- The replaced ids are those of the replaced bindings. -/
theorem map_fst_replacements (rule : Rule) (fragment : Fragment) (root : String) (found : Match) :
    (rule.replacements fragment root found).map (·.1) = found.replaced.map (·.node) := by
  simp [Rule.replacements]

/-- Putting a fragment in place leaves a well-formed graph. -/
theorem WellFormed.placeFragment (wellFormed : graph.WellFormed) (fragment : Fragment) :
    (graph.placeFragment rule found fragment).2.WellFormed := by
  unfold CodeGraph.placeFragment
  split
  · exact wellFormed
  · rename_i root _
    have kept := wellFormed.buildEdges rule found fragment rule.targetPattern.edges
    split
    · rename_i fault after step
      rw [step] at kept
      exact kept
    · rename_i after step
      rw [step] at kept
      exact kept.replaceNodes (map_fst_replacements rule fragment root found)

/-- Applying any match of any rule keeps a graph well-formed, also when it stops on the way. -/
theorem WellFormed.applyMatch (wellFormed : graph.WellFormed) (rule : Rule) (found : Match) :
    (graph.applyMatch rule found).2.WellFormed := by
  unfold CodeGraph.applyMatch
  split
  · exact wellFormed
  · have kept := wellFormed.buildNodes rule (graph.boundNode? found) rule.targetPattern.nodes
    split
    · rename_i fault after step
      rw [step] at kept
      exact kept
    · rename_i fragment after step
      rw [step] at kept
      exact kept.placeFragment fragment

/-! ### The fragment -/

/-- **The nodes of a fragment.** If every template can be filled in, each gives a node with a fresh
id at the end of the sequence, and the history says which rule made it. -/
theorem buildNodes_eq {templates : List TemplateNode} {specs : List NodeSpec}
    (filled : List.Forall₂ (fun template spec => template.instantiate lookup = some spec)
      templates specs) (graph : CodeGraph) :
    ∃ added last,
      rule.buildNodes lookup templates graph =
        (.ok ((templates.map (·.name)).zip (added.map (·.id))), { graph with
          nodes := graph.nodes ++ added
          nextSeq := graph.nextSeq + added.length
          nextNodeId := last
          history := graph.history ++ added.map fun node => ⟨node.id, rule.id⟩ }) ∧
      added.map Node.spec = specs ∧ graph.nextNodeId ≤ last ∧
      ∀ node ∈ added, graph.nextSeq ≤ node.seq ∧ ∃ number, graph.nextNodeId ≤ number ∧
        number < last ∧ node.id = graph.nodeName number := by
  induction filled generalizing graph with
  | nil => exact ⟨[], graph.nextNodeId, by simp [Rule.buildNodes], rfl, Nat.le_refl _, by simp⟩
  | @cons template spec templates specs first _ ih =>
      let node : Node :=
        ⟨graph.nodeName graph.freshNode, spec.kind, spec.label, spec.attributes, graph.nextSeq⟩
      let next := ((graph.addNode spec.kind spec.label spec.attributes).2).record node.id rule.id
      obtain ⟨added, last, built, specsEq, later, names⟩ := ih next
      have nextNumber : next.nextNodeId = graph.freshNode + 1 := rfl
      have start := graph.nextNodeId_le_freshNode
      refine ⟨node :: added, last, ?_, by rw [List.map_cons, specsEq]; rfl, by omega, ?_⟩
      · have step : rule.buildNodes lookup (template :: templates) graph =
            ((rule.buildNodes lookup templates next).1.map ((template.name, node.id) :: ·),
              (rule.buildNodes lookup templates next).2) := by
          rw [Rule.buildNodes, first]
          rfl
        rw [step, built]
        refine Prod.ext rfl ?_
        simp only [next, record, addNode, pushNode, List.append_assoc, List.map_cons,
          List.singleton_append, List.length_cons, mk.injEq, and_true, true_and]
        exact ⟨rfl, by omega⟩
      · intro other member
        rcases List.mem_cons.mp member with rfl | member
        · exact ⟨Nat.le_refl _, graph.freshNode, start, by omega, rfl⟩
        · obtain ⟨place, number, low, high, name⟩ := names other member
          exact ⟨Nat.le_of_succ_le place, number, by omega, high, name⟩

/-- An edge of a fragment as it is added: between the nodes that its names stand for. -/
structure Links (fragment : Fragment) (found : Match) (link : PatternEdge) (edge : Edge) :
    Prop where
  source : Rule.endOf? fragment found link.source = some edge.source
  target : Rule.endOf? fragment found link.target = some edge.target
  kind : edge.kind = link.kind
  attributes : edge.attributes = ∅

/-- **The edges of a fragment.** If the ends of all edges are there, each gives an edge with a fresh
id at the end of the sequence. -/
theorem WellFormed.buildEdges_eq (wellFormed : graph.WellFormed) (rule : Rule) {fragment : Fragment}
    {links : List PatternEdge}
    (ends : ∀ link ∈ links, ∀ name, name = link.source ∨ name = link.target →
      ∃ id, Rule.endOf? fragment found name = some id ∧ graph.hasNode id) :
    ∃ added last,
      rule.buildEdges fragment found links graph = (.ok (), { graph with
        edges := graph.edges ++ added
        nextEdgeSeq := graph.nextEdgeSeq + added.length
        nextEdgeId := last }) ∧
      List.Forall₂ (Links fragment found) links added ∧ graph.nextEdgeId ≤ last ∧
      ∀ edge ∈ added, graph.nextEdgeSeq ≤ edge.seq ∧ ∃ number, graph.nextEdgeId ≤ number ∧
        number < last ∧ edge.id = graph.edgeName number := by
  induction links generalizing graph with
  | nil => exact ⟨[], graph.nextEdgeId, by simp [Rule.buildEdges], .nil, Nat.le_refl _, by simp⟩
  | cons link rest ih =>
      obtain ⟨source, sourceEq, hasSource⟩ := ends link List.mem_cons_self link.source (.inl rfl)
      obtain ⟨target, targetEq, hasTarget⟩ := ends link List.mem_cons_self link.target (.inr rfl)
      let edge : Edge :=
        ⟨graph.edgeName graph.freshEdge, link.kind, source, target, ∅, graph.nextEdgeSeq⟩
      let next : CodeGraph := { graph with
        edges := graph.edges ++ [edge]
        nextEdgeSeq := graph.nextEdgeSeq + 1
        nextEdgeId := graph.freshEdge + 1 }
      have step : graph.addEdge source target link.kind ∅ = (.ok edge.id, next) :=
        wellFormed.addEdge_eq hasSource hasTarget link.kind ∅
      have nextWellFormed : next.WellFormed := by
        have kept := wellFormed.addEdge source target link.kind ∅
        rwa [step] at kept
      obtain ⟨added, last, built, linked, later, names⟩ := ih nextWellFormed
        fun other member => ends other (List.mem_cons_of_mem link member)
      have nextNumber : next.nextEdgeId = graph.freshEdge + 1 := rfl
      have start := graph.nextEdgeId_le_freshEdge
      refine ⟨edge :: added, last, ?_, .cons ⟨sourceEq, targetEq, rfl, rfl⟩ linked, by omega, ?_⟩
      · unfold Rule.buildEdges
        rw [sourceEq, targetEq]
        dsimp only
        rw [step]
        dsimp only
        rw [built]
        simp only [next, List.append_assoc, List.singleton_append, List.length_cons,
          Prod.mk.injEq, mk.injEq, and_true, true_and]
        omega
      · intro other member
        rcases List.mem_cons.mp member with rfl | member
        · exact ⟨Nat.le_refl _, graph.freshEdge, start, by omega, rfl⟩
        · obtain ⟨place, number, low, high, name⟩ := names other member
          exact ⟨Nat.le_of_succ_le place, number, by omega, high, name⟩

end CodeGraph

/-! ### Names of a fragment -/

/-- A name is looked up in names paired with as many ids. -/
theorem exists_lookup_zip {names ids : List String} (size : names.length = ids.length)
    {name : String} (known : name ∈ names) : ∃ id ∈ ids, (names.zip ids).lookup name = some id := by
  induction names generalizing ids with
  | nil => cases known
  | cons head rest ih =>
      cases ids with
      | nil => cases size
      | cons id others =>
          rw [List.zip_cons_cons, List.lookup_cons]
          by_cases same : name = head
          · exact ⟨id, List.mem_cons_self, by simp [same]⟩
          · have later := (List.mem_cons.mp known).resolve_left same
            obtain ⟨found, member, lookedUp⟩ := ih (Nat.succ.inj size) later
            refine ⟨found, List.mem_cons_of_mem id member, ?_⟩
            simpa [beq_eq_false_iff_ne.mpr same] using lookedUp

/-- An id looked up by a name is one of the ids. -/
theorem mem_of_lookup_zip {names ids : List String} {name id : String}
    (lookedUp : (names.zip ids).lookup name = some id) : id ∈ ids := by
  obtain ⟨before, after, split, _⟩ := List.lookup_eq_some_iff.mp lookedUp
  exact (List.of_mem_zip (split ▸ List.mem_append_right before List.mem_cons_self :
    (name, id) ∈ names.zip ids)).2

/-! ### Matches that fit their rules -/

/-- The bindings of a match are those of a rule's pattern nodes, each to a node of its own. -/
structure Match.Fits (found : Match) (rule : Rule) : Prop where
  bindings : List.Forall₂ (fun (node : PatternNode) (binding : Binding) =>
    binding.name = node.name ∧ binding.replaced = decide (node.role = .replaced))
    rule.sourcePattern.nodes found.bindings
  distinct : (found.bindings.map (·.node)).Nodup

namespace Match.Fits

variable {rule : Rule} {found : Match}

/-- A match that fits binds the names of the pattern. -/
theorem map_name (fits : found.Fits rule) :
    found.bindings.map (·.name) = rule.sourcePattern.names := by
  have aligned := fits.bindings
  unfold SourcePattern.names
  generalize rule.sourcePattern.nodes = nodes at aligned
  generalize found.bindings = bindings at aligned
  induction aligned with
  | nil => rfl
  | cons same _ ih => rw [List.map_cons, List.map_cons, same.1, ih]

/-- Every name of the pattern is bound. -/
theorem exists_binding (fits : found.Fits rule) {name : String}
    (known : name ∈ rule.sourcePattern.names) :
    ∃ binding ∈ found.bindings, binding.name = name ∧ found.node? name = some binding.node := by
  rw [← fits.map_name] at known
  obtain ⟨other, member, named⟩ := List.mem_map.mp known
  have present : (found.bindings.find? (·.name = name)).isSome := by
    rw [List.find?_isSome]
    exact ⟨other, member, by simpa using named⟩
  obtain ⟨binding, first⟩ := Option.isSome_iff_exists.mp present
  exact ⟨binding, List.mem_of_find?_eq_some first, by simpa using List.find?_some first,
    by rw [Match.node?, first]; rfl⟩

/-- A binding is to a replaced node if its name is that of a replaced pattern node. -/
theorem replaced_eq (fits : found.Fits rule) (valid : rule.Valid) {binding : Binding}
    (member : binding ∈ found.bindings) :
    binding.replaced = rule.sourcePattern.isReplaced binding.name := by
  obtain ⟨node, nodeMember, named, role⟩ := exists_left_of_forall₂ fits.bindings binding member
  have lookedUp : rule.sourcePattern.node? binding.name = some node :=
    (find?_key_eq_some_iff PatternNode.name valid.names).mpr ⟨nodeMember, named.symm⟩
  rw [role, SourcePattern.isReplaced, lookedUp]
  rfl

/-- What is bound to a context node is not replaced. -/
theorem context_not_replaced (fits : found.Fits rule) (valid : rule.Valid) {name : String}
    (known : name ∈ rule.sourcePattern.names)
    (context : rule.sourcePattern.isReplaced name = false) :
    ∃ binding ∈ found.bindings, found.node? name = some binding.node ∧
      binding.node ∉ found.replaced.map (·.node) := by
  obtain ⟨binding, member, rfl, bound⟩ := fits.exists_binding known
  refine ⟨binding, member, bound, fun listed => ?_⟩
  obtain ⟨other, otherMember, same⟩ := List.mem_map.mp listed
  obtain ⟨otherMember, replaced⟩ := List.mem_filter.mp otherMember
  obtain rfl := List.inj_on_of_nodup_map fits.distinct otherMember member same
  rw [fits.replaced_eq valid member, context] at replaced
  cases replaced

end Match.Fits

/-! ### The result -/

/-- What the application of a match adds to a graph: the nodes and links of the fragment and the
root among the nodes, and how far the numbers for fresh ids have come. -/
structure Addition where
  nodes : List Node
  links : List Edge
  root : String
  nextNodeId : Nat
  nextEdgeId : Nat

namespace Addition

/-- The nodes of the fragment by name. -/
def fragment (addition : Addition) (rule : Rule) : Fragment :=
  rule.targetPattern.names.zip (addition.nodes.map (·.id))

/-- What takes the place of each replaced node. -/
def replacements (addition : Addition) (rule : Rule) (found : Match) : List (String × String) :=
  rule.replacements (addition.fragment rule) addition.root found

/-- The graph with the fragment beside the nodes that it replaces. -/
def placed (addition : Addition) (graph : CodeGraph) (rule : Rule) : CodeGraph where
  nodes := graph.nodes ++ addition.nodes
  edges := graph.edges ++ addition.links
  nextSeq := graph.nextSeq + addition.nodes.length
  nextEdgeSeq := graph.nextEdgeSeq + addition.links.length
  nextNodeId := addition.nextNodeId
  nextEdgeId := addition.nextEdgeId
  namespaceText := graph.namespaceText
  history := graph.history ++ addition.nodes.map fun node => ⟨node.id, rule.id⟩
  forwarding := graph.forwarding

/-- The graph after the application. -/
def result (addition : Addition) (graph : CodeGraph) (rule : Rule) (found : Match) : CodeGraph where
  nodes := graph.nodes.filter (·.id ∉ found.replaced.map (·.node)) ++ addition.nodes
  edges := graph.edges.filterMap (·.rewritten? found (addition.replacements rule found)) ++
    addition.links
  nextSeq := graph.nextSeq + addition.nodes.length
  nextEdgeSeq := graph.nextEdgeSeq + addition.links.length
  nextNodeId := addition.nextNodeId
  nextEdgeId := addition.nextEdgeId
  namespaceText := graph.namespaceText
  history := graph.history ++ addition.nodes.map fun node => ⟨node.id, rule.id⟩
  forwarding := (addition.replacements rule found).foldl (fun forwarding replacement =>
    forwarding.insert replacement.1 replacement.2) graph.forwarding

/-- The addition is what a rule and a match ask for in a graph. -/
structure For (addition : Addition) (graph : CodeGraph) (rule : Rule) (found : Match) : Prop where
  filled : List.Forall₂ (fun template node =>
    template.instantiate (graph.boundNode? found) = some node.spec)
    rule.targetPattern.nodes addition.nodes
  linked : List.Forall₂ (CodeGraph.Links (addition.fragment rule) found)
    rule.targetPattern.edges addition.links
  root : (rule.targetPattern.rootName?.bind fun name => (addition.fragment rule).lookup name) =
    some addition.root
  nodeNames : ∀ node ∈ addition.nodes, ∃ number, graph.nextNodeId ≤ number ∧
    number < addition.nextNodeId ∧ node.id = graph.nodeName number
  edgeNames : ∀ edge ∈ addition.links, ∃ number, graph.nextEdgeId ≤ number ∧
    number < addition.nextEdgeId ∧ edge.id = graph.edgeName number
  laterNodes : graph.nextNodeId ≤ addition.nextNodeId
  laterEdges : graph.nextEdgeId ≤ addition.nextEdgeId

/-- Nothing in a graph has an id of the addition, and all in it comes before the addition. -/
structure New (addition : Addition) (graph : CodeGraph) (rule : Rule) : Prop where
  placed : (addition.placed graph rule).WellFormed
  nodeSeqs : ∀ node ∈ addition.nodes, graph.nextSeq ≤ node.seq
  linkSeqs : ∀ link ∈ addition.links, graph.nextEdgeSeq ≤ link.seq

end Addition

namespace CodeGraph

variable {graph : CodeGraph} {rule : Rule} {found : Match}

/-- Every template of a valid rule can be filled in while the bound nodes are there. -/
theorem exists_instantiate (valid : rule.Valid) (fits : found.Fits rule)
    (live : ∀ binding ∈ found.bindings, graph.hasNode binding.node) {template : TemplateNode}
    (member : template ∈ rule.targetPattern.nodes) :
    ∃ spec, template.instantiate (graph.boundNode? found) = some spec := by
  have complete := (valid.templates template member).2
  unfold TemplateNode.Complete at complete
  unfold TemplateNode.instantiate
  split at complete
  · rename_i origin copied
    obtain ⟨binding, bindingMember, _, bound⟩ := fits.exists_binding complete
    have present := live binding bindingMember
    rw [← node?_isSome] at present
    obtain ⟨node, there⟩ := Option.isSome_iff_exists.mp present
    have copy : graph.boundNode? found origin = some node := by
      rw [boundNode?, bound]
      exact there
    rw [copied, Option.bind_some, copy]
    cases template.kind <;> cases template.label <;> simp
  · rename_i copied
    obtain ⟨kind, kindEq⟩ := Option.isSome_iff_exists.mp complete.1
    obtain ⟨label, labelEq⟩ := Option.isSome_iff_exists.mp complete.2
    simp [copied, kindEq, labelEq]

/-- An edge of a fragment of a valid rule ends at nodes of the fragment or at bound nodes that
stay. -/
theorem exists_endOf? (valid : rule.Valid) (fits : found.Fits rule) {ids : List String}
    (size : rule.targetPattern.names.length = ids.length) {name : String}
    (possible : rule.targetPattern.canEnd rule.sourcePattern name = true) :
    ∃ id, Rule.endOf? (rule.targetPattern.names.zip ids) found name = some id ∧
      (id ∈ ids ∨ (∃ binding ∈ found.bindings, binding.node = id) ∧
        id ∉ found.replaced.map (·.node)) := by
  unfold Rule.endOf?
  cases lookedUp : (rule.targetPattern.names.zip ids).lookup name with
  | some id => exact ⟨id, rfl, .inl (mem_of_lookup_zip lookedUp)⟩
  | none =>
      have context : name ∈ rule.sourcePattern.names ∧
          rule.sourcePattern.isReplaced name = false := by
        by_cases own : name ∈ rule.targetPattern.names
        · obtain ⟨id, _, other⟩ := exists_lookup_zip size own
          rw [lookedUp] at other
          cases other
        · simpa [TargetPattern.canEnd, own] using possible
      obtain ⟨binding, member, bound, stays⟩ :=
        fits.context_not_replaced valid context.1 context.2
      exact ⟨binding.node, by rw [bound]; rfl, .inr ⟨⟨binding, member, rfl⟩, stays⟩⟩

/-- The root of a valid rule is one of its templates. -/
theorem exists_root (valid : rule.Valid) {ids : List String}
    (size : rule.targetPattern.names.length = ids.length) :
    ∃ root ∈ ids, (rule.targetPattern.rootName?.bind fun name =>
      (rule.targetPattern.names.zip ids).lookup name) = some root := by
  obtain ⟨name, named, known⟩ :
      ∃ name, rule.targetPattern.rootName? = some name ∧ name ∈ rule.targetPattern.names := by
    unfold TargetPattern.rootName?
    cases given : rule.targetPattern.root with
    | some name => exact ⟨name, rfl, valid.root name given⟩
    | none =>
        have nonempty : rule.targetPattern.names ≠ [] := by
          simpa [TargetPattern.names] using valid.hasTemplate
        obtain ⟨name, rest, split⟩ := List.exists_cons_of_ne_nil nonempty
        exact ⟨name, by rw [split]; rfl, by rw [split]; exact List.mem_cons_self⟩
  obtain ⟨root, member, lookedUp⟩ := exists_lookup_zip size known
  exact ⟨root, member, by rw [named]; exact lookedUp⟩

/-- What replaces a node is a node of the fragment. -/
theorem mem_of_mem_replacements {fragment : Fragment} {ids : List String} {root : String}
    (within : ∀ name id, fragment.lookup name = some id → id ∈ ids) (rooted : root ∈ ids)
    {replacement : String × String}
    (member : replacement ∈ rule.replacements fragment root found) : replacement.2 ∈ ids := by
  obtain ⟨binding, _, rfl⟩ := List.mem_map.mp member
  cases given : (rule.targetPattern.boundary.get? binding.name).bind
      fun name => fragment.lookup name with
  | none => simpa only [given, Option.getD_none] using rooted
  | some id =>
      obtain ⟨name, _, lookedUp⟩ := Option.bind_eq_some_iff.mp given
      simpa only [given, Option.getD_some] using within name id lookedUp

/-- The ids an addition replaces are those of the replaced bindings. -/
theorem map_fst_additionReplacements (addition : Addition) :
    (addition.replacements rule found).map (·.1) = found.replaced.map (·.node) :=
  map_fst_replacements ..

/-- The fragment takes the place of the replaced nodes if it was put beside them without touching
them. -/
theorem replaceNodes_placed {addition : Addition}
    (wellFormed : (addition.placed graph rule).WellFormed)
    (unreplaced : ∀ id ∈ addition.nodes.map (·.id), id ∉ found.replaced.map (·.node))
    (apart : ∀ link ∈ addition.links, link.touches (found.replaced.map (·.node)) = false)
    (rooted : addition.root ∈ addition.nodes.map (·.id)) :
    (addition.placed graph rule).replaceNodes found (addition.replacements rule found) =
      (.ok (), addition.result graph rule found) := by
  have keys : (addition.replacements rule found).map (·.1) = found.replaced.map (·.node) :=
    map_fst_additionReplacements addition
  rw [wellFormed.replaceNodes_eq keys]
  · have keptNodes : (graph.nodes ++ addition.nodes).filter (·.id ∉ found.replaced.map (·.node)) =
        graph.nodes.filter (·.id ∉ found.replaced.map (·.node)) ++ addition.nodes := by
      have kept : addition.nodes.filter (·.id ∉ found.replaced.map (·.node)) = addition.nodes :=
        List.filter_eq_self.mpr fun node member =>
          decide_eq_true (unreplaced node.id (List.mem_map_of_mem member))
      rw [List.filter_append, kept]
    have keptLinks : addition.links.filterMap
        (·.rewritten? found (addition.replacements rule found)) = addition.links := by
      have same : ∀ link ∈ addition.links,
          link.rewritten? found (addition.replacements rule found) = some link := by
        intro link member
        exact Edge.rewritten?_eq_some_iff.mpr (.inl ⟨keys ▸ apart link member, rfl⟩)
      rw [List.filterMap_congr same, List.filterMap_some]
    simp only [CodeGraph.without, Addition.placed, Addition.result, keys, keptNodes,
      List.filterMap_append, keptLinks]
  · intro replacement member
    have new := mem_of_mem_replacements (fun name id => mem_of_lookup_zip) rooted member
    refine ⟨hasNode_iff.mpr ?_, keys ▸ unreplaced _ new⟩
    rw [Addition.placed, List.map_append]
    exact List.mem_append_right _ new

/-- **Applying a match.** A match that fits its valid rule can be applied while all the nodes that
it binds are there. -/
theorem WellFormed.applyMatch_eq (wellFormed : graph.WellFormed) (valid : rule.Valid)
    (fits : found.Fits rule) (live : ∀ binding ∈ found.bindings, graph.hasNode binding.node) :
    ∃ addition : Addition, addition.For graph rule found ∧ addition.New graph rule ∧
      graph.applyMatch rule found =
        (.ok (addition.nodes.map (·.id)), addition.result graph rule found) := by
  obtain ⟨specs, filled⟩ := exists_forall₂ fun template
    (member : template ∈ rule.targetPattern.nodes) => exists_instantiate valid fits live member
  obtain ⟨added, nextNodeId, built, rfl, laterNodes, nodeNames⟩ := buildNodes_eq filled graph
  have size : rule.targetPattern.names.length = (added.map (·.id)).length := by
    have := filled.length_eq
    simpa [TargetPattern.names] using this
  -- The graph with the nodes of the fragment, and what is known of them.
  let withNodes : CodeGraph := { graph with
    nodes := graph.nodes ++ added
    nextSeq := graph.nextSeq + added.length
    nextNodeId
    history := graph.history ++ added.map fun node => ⟨node.id, rule.id⟩ }
  have withNodesWellFormed : withNodes.WellFormed := by
    have kept := wellFormed.buildNodes rule (graph.boundNode? found) rule.targetPattern.nodes
    rwa [built] at kept
  have distinct : (graph.nodes.map (·.id) ++ added.map (·.id)).Nodup := by
    have ids := withNodesWellFormed.nodeIds
    rwa [List.map_append] at ids
  have hasNode_withNodes (id : String) :
      withNodes.hasNode id ↔ graph.hasNode id ∨ id ∈ added.map (·.id) := by
    rw [hasNode_iff, hasNode_iff, ← List.mem_append, ← List.map_append]
  have bound : ∀ id ∈ found.replaced.map (·.node), id ∈ graph.nodes.map (·.id) := by
    intro id listed
    obtain ⟨binding, member, rfl⟩ := List.mem_map.mp listed
    exact hasNode_iff.mp (live binding (List.mem_filter.mp member).1)
  have unreplaced : ∀ id ∈ added.map (·.id), id ∉ found.replaced.map (·.node) :=
    fun id new listed => (List.nodup_append.mp distinct).2.2 id (bound id listed) id new rfl
  have ends : ∀ link ∈ rule.targetPattern.edges, ∀ name, name = link.source ∨ name = link.target →
      ∃ id, Rule.endOf? (rule.targetPattern.names.zip (added.map (·.id))) found name = some id ∧
        withNodes.hasNode id ∧ id ∉ found.replaced.map (·.node) := by
    intro link member name isEnd
    have possible : rule.targetPattern.canEnd rule.sourcePattern name := by
      rcases isEnd with rfl | rfl
      · exact (valid.fragmentEnds link member).1
      · exact (valid.fragmentEnds link member).2
    obtain ⟨id, named, new | ⟨⟨binding, there, rfl⟩, apart⟩⟩ :=
      exists_endOf? valid fits size possible
    · exact ⟨id, named, (hasNode_withNodes id).mpr (.inr new), unreplaced id new⟩
    · exact ⟨binding.node, named, (hasNode_withNodes _).mpr (.inl (live binding there)), apart⟩
  obtain ⟨links, nextEdgeId, linksBuilt, linked, laterEdges, edgeNames⟩ :=
    withNodesWellFormed.buildEdges_eq rule fun link member name isEnd =>
      let ⟨id, named, there, _⟩ := ends link member name isEnd
      ⟨id, named, there⟩
  obtain ⟨root, rooted, rootEq⟩ := exists_root valid size
  let addition : Addition := ⟨added, links, root, nextNodeId, nextEdgeId⟩
  have filledNodes : List.Forall₂ (fun template (node : Node) =>
      template.instantiate (graph.boundNode? found) = some node.spec)
      rule.targetPattern.nodes added := by
    simpa only [List.forall₂_map_right_iff] using filled
  have placedWellFormed : (addition.placed graph rule).WellFormed := by
    have kept := withNodesWellFormed.buildEdges rule found
      (rule.targetPattern.names.zip (added.map (·.id))) rule.targetPattern.edges
    rwa [linksBuilt] at kept
  refine ⟨addition, ⟨filledNodes, linked, rootEq, fun node member => (nodeNames node member).2,
    fun edge member => (edgeNames edge member).2, laterNodes, laterEdges⟩, ⟨placedWellFormed,
    fun node member => (nodeNames node member).1, fun edge member => (edgeNames edge member).1⟩, ?_⟩
  have apart : ∀ link ∈ links, link.touches (found.replaced.map (·.node)) = false := by
    intro link member
    obtain ⟨edge, there, linkOf⟩ := exists_left_of_forall₂ linked link member
    rw [Edge.touches_eq_false_iff]
    obtain ⟨source, sourceEq, _, sourceApart⟩ := ends edge there edge.source (.inl rfl)
    obtain ⟨target, targetEq, _, targetApart⟩ := ends edge there edge.target (.inr rfl)
    rw [linkOf.source] at sourceEq
    rw [linkOf.target] at targetEq
    cases sourceEq
    cases targetEq
    exact ⟨sourceApart, targetApart⟩
  have fragmentPlaced : withNodes.placeFragment rule found (addition.fragment rule) =
      (.ok (added.map (·.id)), addition.result graph rule found) := by
    have linksAdded : rule.buildEdges (addition.fragment rule) found rule.targetPattern.edges
        withNodes = (.ok (), addition.placed graph rule) := linksBuilt
    have replaced : (addition.placed graph rule).replaceNodes found
        (rule.replacements (addition.fragment rule) root found) =
          (.ok (), addition.result graph rule found) :=
      replaceNodes_placed placedWellFormed unreplaced apart rooted
    have ids : (addition.fragment rule).map (·.2) = added.map (·.id) :=
      List.map_snd_zip (Nat.le_of_eq size.symm)
    unfold CodeGraph.placeFragment
    rw [show (rule.targetPattern.rootName?.bind fun name =>
      (addition.fragment rule).lookup name) = some root from rootEq]
    dsimp only
    rw [linksAdded]
    dsimp only
    rw [replaced, ids]
    rfl
  unfold CodeGraph.applyMatch
  rw [if_neg (by simpa using live), built]
  exact fragmentPlaced

end CodeGraph

end Transcode
