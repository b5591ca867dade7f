import Transcode.Proofs.Fixpoint
import Transcode.Proofs.Staleness
import Transcode.Rule.Builtin

/-!
# Rules that come to an end

The burden of a graph (`CodeGraph.burden`) is a bound on what the automated built-in rules can still
do. No count of nodes alone would be one, since a nested class is replaced by a class: then there is
one edge less by which a class is contained.

Whether a rule lowers the burden of every graph can be read off its patterns (`Rule.Shrinks`,
`Rule.Shrinks.burden_result_lt`). Rules that do come to an end on every graph, also if nodes contain
each other (`automated_rules_terminate`).
-/

namespace Transcode

/-- Whether nodes of a kind are part of the burden of a graph. -/
def NodeKind.isBurden (kind : NodeKind) : Bool := kind = .method || kind = .classType

namespace CodeGraph

/-- Whether an edge says that a class is contained. -/
def containsClass (graph : CodeGraph) (edge : Edge) : Bool :=
  edge.kind = .contains && (graph.node? edge.target).any (·.kind = .classType)

/-- The methods, the classes and the edges by which classes are contained. -/
def burden (graph : CodeGraph) : Nat :=
  (graph.nodesOf .method).length + (graph.nodesOf .classType).length +
    (graph.edges.filter graph.containsClass).length

/-- The burden counts methods and classes, and the edges that contain a class. -/
theorem burden_eq (graph : CodeGraph) :
    graph.burden = graph.nodes.countP (·.kind.isBurden) +
      graph.edges.countP graph.containsClass := by
  have nodes (items : List Node) : (items.filter (·.kind = .method)).length +
      (items.filter (·.kind = .classType)).length = items.countP (·.kind.isBurden) := by
    induction items with
    | nil => rfl
    | cons node rest ih =>
        rw [List.countP_cons, ← ih]
        cases kind : node.kind <;> simp [kind, NodeKind.isBurden] <;> omega
  rw [burden, nodesOf, nodesOf, nodes, ← List.countP_eq_length_filter]

/-- An edge contains a class if that is its target. -/
theorem containsClass_iff {graph : CodeGraph} {edge : Edge} :
    graph.containsClass edge ↔ edge.kind = .contains ∧
      ∃ node, graph.node? edge.target = some node ∧ node.kind = .classType := by
  simp [containsClass, Option.any_eq_true]

end CodeGraph

/-! ### Rules that lower the burden -/

/-- The kind of all nodes that a pattern node accepts, if it accepts only one. -/
def PatternNode.kind? (place : PatternNode) : Option NodeKind :=
  match place.filter.kinds with
  | [kind] => some kind
  | _ => none

namespace Rule

/-- The kind of the node that a template makes, if the rule tells. -/
def templateKind? (rule : Rule) (template : TemplateNode) : Option NodeKind :=
  template.kind.or ((template.copyFrom.bind rule.sourcePattern.node?).bind (·.kind?))

/-- Whether a rule surely makes no class. -/
def makesNoClass (rule : Rule) : Bool :=
  rule.targetPattern.nodes.all fun template =>
    (rule.templateKind? template).any (· ≠ .classType)

/-- The nodes of a pattern that are replaced. -/
def replacedPlaces (rule : Rule) : List PatternNode :=
  rule.sourcePattern.nodes.filter (·.role = .replaced)

/-- How much of the burden the nodes that a rule replaces are at least. -/
def burdenTaken (rule : Rule) : Nat :=
  rule.replacedPlaces.countP fun place => place.kind?.any (·.isBurden)

/-- How much of the burden the nodes that a rule makes are at most. -/
def burdenGiven (rule : Rule) : Nat :=
  rule.targetPattern.nodes.countP fun template => (rule.templateKind? template).all (·.isBurden)

/-- What makes a rule lower the burden of every graph. It puts classes in the place of classes only
and lets no node contain a class that it makes. It takes more of the nodes than it gives, or as many
if an edge by which a class is contained goes away with them. -/
structure Shrinks (rule : Rule) : Prop where
  classes : ∀ place ∈ rule.replacedPlaces, place.kind? = some .classType ∨ rule.makesNoClass
  links : ∀ link ∈ rule.targetPattern.edges, link.kind = .contains →
    link.target ∈ rule.targetPattern.names ∧ rule.makesNoClass
  lighter : rule.burdenGiven < rule.burdenTaken ∨ rule.burdenGiven = rule.burdenTaken ∧
    ∃ edge ∈ rule.sourcePattern.edges, edge.kind = .contains ∧
      ∃ place ∈ rule.replacedPlaces, place.name = edge.target ∧ place.kind? = some .classType

end Rule

/-- A place for one kind accepts only that. -/
theorem PatternNode.kind_of_accepts {graph : CodeGraph} {place : PatternNode} {node : Node}
    {kind : NodeKind} (only : place.kind? = some kind) (accepts : graph.accepts place node) :
    node.kind = kind := by
  unfold kind? at only
  split at only
  · rename_i kinds
    cases only
    simp only [CodeGraph.accepts, NodeFilter.accepts, kinds, Bool.and_eq_true] at accepts
    simpa using accepts.1.1.1
  · cases only

/-! ### What a match takes and gives -/

/-- The replaced nodes of a pattern, each with the node bound to it. -/
def Rule.replacedPairs (rule : Rule) (bound : List Node) : List (PatternNode × Node) :=
  (rule.sourcePattern.nodes.zip bound).filter (·.1.role = .replaced)

section Binding

variable {rule : Rule} {graph : CodeGraph} {bound : List Node}
  (assigns : rule.sourcePattern.Assigns graph bound)

include assigns

/-- Each place is taken by a node that it accepts. -/
theorem Rule.of_mem_zip {pair : PatternNode × Node}
    (member : pair ∈ rule.sourcePattern.nodes.zip bound) :
    pair.1 ∈ rule.sourcePattern.nodes ∧ pair.2 ∈ graph.nodes ∧ graph.accepts pair.1 pair.2 :=
  ⟨(List.of_mem_zip member).1, List.forall₂_zip assigns.accepted.flip member⟩

/-- The places that are replaced are those with that role. -/
theorem Rule.map_fst_replacedPairs :
    (rule.replacedPairs bound).map (·.1) = rule.replacedPlaces := by
  have places := List.map_fst_zip (Nat.le_of_eq assigns.accepted.length_eq.symm)
  rw [replacedPlaces]
  conv_rhs => rw [← places]
  rw [replacedPairs, List.filter_map]
  rfl

/-- No node takes two places that are replaced. -/
theorem Rule.nodup_map_snd_replacedPairs : ((rule.replacedPairs bound).map (·.2)).Nodup := by
  have all : (rule.sourcePattern.nodes.zip bound).map (·.2) = bound :=
    List.map_snd_zip (Nat.le_of_eq assigns.accepted.length_eq)
  have distinct := assigns.distinct.of_map _
  rw [← all] at distinct
  exact distinct.sublist (List.filter_sublist.map _)

end Binding

section Matches

variable {rule : Rule} {graph : CodeGraph} {bound : List Node} {found : Match}
  (binds : found.bindings = rule.bindings bound)

include binds

/-- What a match replaces takes the places that are replaced. -/
theorem Rule.map_node_replaced :
    found.replaced.map (·.node) = (rule.replacedPairs bound).map (·.2.id) := by
  rw [Match.replaced, binds, bindings, replacedPairs, List.filter_map, List.map_map]
  rfl

variable (assigns : rule.sourcePattern.Assigns graph bound) (wellFormed : graph.WellFormed)

include assigns wellFormed

/-- The nodes that a match replaces are those bound to the replaced nodes of the pattern. -/
theorem Rule.filter_replaced_perm :
    (graph.nodes.filter (·.id ∈ found.replaced.map (·.node))).Perm
      ((rule.replacedPairs bound).map (·.2)) := by
  refine (List.perm_ext_iff_of_nodup ((wellFormed.nodeIds.of_map _).filter _)
    (nodup_map_snd_replacedPairs assigns)).mpr fun node => ?_
  rw [map_node_replaced binds, List.mem_filter, decide_eq_true_eq, List.mem_map, List.mem_map]
  constructor
  · rintro ⟨there, pair, member, same⟩
    obtain ⟨_, bindsThere, _⟩ := of_mem_zip assigns (List.mem_filter.mp member).1
    exact ⟨pair, member, wellFormed.eq_of_id bindsThere there same⟩
  · rintro ⟨pair, member, rfl⟩
    exact ⟨(of_mem_zip assigns (List.mem_filter.mp member).1).2.1, pair, member, rfl⟩

/-- A match takes as much of the burden as its rule says. -/
theorem Rule.burdenTaken_le : rule.burdenTaken ≤
    (graph.nodes.filter (·.id ∈ found.replaced.map (·.node))).countP (·.kind.isBurden) := by
  rw [(filter_replaced_perm binds assigns wellFormed).countP_eq, burdenTaken,
    ← map_fst_replacedPairs assigns, List.countP_map, List.countP_map]
  refine List.countP_mono_left fun pair member light => ?_
  obtain ⟨kind, only, burden⟩ := (Option.any_eq_true ..).mp light
  obtain ⟨_, _, accepts⟩ := of_mem_zip assigns (List.mem_filter.mp member).1
  rw [Function.comp_apply, PatternNode.kind_of_accepts only accepts]
  exact burden

variable (valid : rule.Valid)

include valid

/-- A bound node is of the kind that its name says. -/
theorem Rule.kind_of_boundNode? {name : String} {place : PatternNode} {kind : NodeKind}
    {node : Node} (named : rule.sourcePattern.node? name = some place)
    (only : place.kind? = some kind) (isBound : graph.boundNode? found name = some node) :
    node.kind = kind := by
  obtain ⟨id, looked, there⟩ := Option.bind_eq_some_iff.mp isBound
  obtain ⟨binding, first, rfl⟩ := Option.map_eq_some_iff.mp looked
  have same : binding.name = name := by simpa using List.find?_some first
  have member := List.mem_of_find?_eq_some first
  rw [binds] at member
  obtain ⟨pair, paired, rfl⟩ := List.mem_map.mp member
  obtain ⟨listed, bindsThere, accepts⟩ := of_mem_zip assigns paired
  have own : rule.sourcePattern.node? name = some pair.1 :=
    (find?_key_eq_some_iff PatternNode.name valid.names).mpr ⟨listed, same⟩
  obtain rfl : pair.1 = place := Option.some.inj (own.symm.trans named)
  rw [wellFormed.node?_of_mem bindsThere] at there
  cases there
  exact PatternNode.kind_of_accepts only accepts

/-- A template makes a node of the kind that the rule tells. -/
theorem Rule.kind_of_instantiate {template : TemplateNode} {kind : NodeKind} {spec : NodeSpec}
    (known : rule.templateKind? template = some kind)
    (made : template.instantiate (graph.boundNode? found) = some spec) : spec.kind = kind := by
  unfold TemplateNode.instantiate at made
  simp only [Option.bind_eq_bind, Option.bind_eq_some_iff, Option.pure_def, Option.some.injEq]
    at made
  obtain ⟨chosen, isKind, _, _, rfl⟩ := made
  cases own : template.kind with
  | some given =>
      rw [templateKind?, own, Option.some_or, Option.some.injEq] at known
      rw [own, Option.some_or, Option.some.injEq] at isKind
      exact isKind.symm.trans known
  | none =>
      rw [templateKind?, own, Option.none_or] at known
      rw [own, Option.none_or] at isKind
      obtain ⟨place, copied, only⟩ := Option.bind_eq_some_iff.mp known
      obtain ⟨name, origin, named⟩ := Option.bind_eq_some_iff.mp copied
      obtain ⟨node, copy, rfl⟩ := Option.map_eq_some_iff.mp isKind
      rw [origin, Option.bind_some] at copy
      exact kind_of_boundNode? binds assigns wellFormed valid named only copy

variable {addition : Addition} (added : addition.For graph rule found)

include added

/-- A match gives at most as much of the burden as its rule says. -/
theorem Rule.le_burdenGiven : addition.nodes.countP (·.kind.isBurden) ≤ rule.burdenGiven := by
  refine countP_le_of_forall₂ added.filled fun template node made burden => ?_
  rw [Option.all_eq_true]
  intro kind known
  exact kind_of_instantiate binds assigns wellFormed valid known made ▸ burden

/-- A rule that makes no class adds none. -/
theorem Rule.kind_ne_of_makesNoClass (none : rule.makesNoClass) :
    ∀ node ∈ addition.nodes, node.kind ≠ .classType := by
  intro node member
  obtain ⟨template, listed, made⟩ := exists_left_of_forall₂ added.filled node member
  obtain ⟨kind, known, other⟩ :=
    (Option.any_eq_true ..).mp (List.all_eq_true.mp none template listed)
  have same : node.kind = kind := kind_of_instantiate binds assigns wellFormed valid known made
  rw [same]
  exact of_decide_eq_true other

/-- The nodes of the burden after a match, and those that it took. -/
theorem Rule.countP_isBurden_add_le :
    (addition.result graph rule found).nodes.countP (·.kind.isBurden) + rule.burdenTaken ≤
      graph.nodes.countP (·.kind.isBurden) + rule.burdenGiven := by
  have taken := burdenTaken_le binds assigns wellFormed
  have given := le_burdenGiven binds assigns wellFormed valid added
  have split := graph.nodes.countP_eq_countP_filter_add (·.kind.isBurden)
    (·.id ∈ found.replaced.map (·.node))
  simp only [← decide_not] at split
  rw [Addition.result, List.countP_append]
  omega

end Matches

/-! ### The edges after a match -/

namespace CodeGraph.Applies

variable {graph : CodeGraph} {rule : Rule} {found : Match} {addition : Addition}
  (applies : graph.Applies rule found addition)

include applies

/-- A node that is not replaced stays what it is. -/
theorem mem_of_kept {id : String} (there : graph.hasNode id)
    (kept : id ∉ found.replaced.map (·.node)) {node : Node}
    (now : (addition.result graph rule found).node? id = some node) : node ∈ graph.nodes := by
  obtain ⟨member, rfl⟩ := applies.formed.node?_eq_some_iff.mp now
  obtain ⟨before, listed, same⟩ := List.mem_map.mp (hasNode_iff.mp there)
  have still : before ∈ (addition.result graph rule found).nodes :=
    List.mem_append_left _ (List.mem_filter.mpr ⟨listed, by rw [same]; exact decide_eq_true kept⟩)
  rwa [applies.formed.eq_of_id member still same.symm]

/-- The node with an id of the fragment is one that was added. -/
theorem mem_of_new {id : String} (new : id ∈ addition.nodes.map (·.id)) {node : Node}
    (now : (addition.result graph rule found).node? id = some node) : node ∈ addition.nodes := by
  obtain ⟨member, rfl⟩ := applies.formed.node?_eq_some_iff.mp now
  obtain ⟨other, listed, same⟩ := List.mem_map.mp new
  have there : other ∈ (addition.result graph rule found).nodes := List.mem_append_right _ listed
  rwa [applies.formed.eq_of_id member there same.symm]

end CodeGraph.Applies

namespace Rule.Shrinks

variable {rule : Rule} {graph : CodeGraph} {bound : List Node} {found : Match}
  {addition : Addition} (shrinks : rule.Shrinks) (binds : found.bindings = rule.bindings bound)
  (assigns : rule.sourcePattern.Assigns graph bound) (wellFormed : graph.WellFormed)
  (valid : rule.Valid) (applies : graph.Applies rule found addition)

include shrinks binds assigns wellFormed valid applies

/-- An edge by which a class is contained after a match was one before. -/
theorem containsClass_of_rewritten? {edge other : Edge} (member : edge ∈ graph.edges)
    (rewritten : edge.rewritten? found (addition.replacements rule found) = some other)
    (after : (addition.result graph rule found).containsClass other) :
    graph.containsClass edge := by
  rw [CodeGraph.containsClass_iff] at after ⊢
  obtain ⟨isContains, node, there, isClass⟩ := after
  have live := (wellFormed.endpoints edge member).2
  have kept (stays : other.target = edge.target)
      (apart : edge.target ∉ found.replaced.map (·.node)) :
      ∃ node, graph.node? edge.target = some node ∧ node.kind = .classType := by
    rw [stays] at there
    have before := applies.mem_of_kept live apart there
    have same := (applies.formed.node?_eq_some_iff.mp there).2
    exact ⟨node, wellFormed.node?_eq_some_iff.mpr ⟨before, same⟩, isClass⟩
  rcases Edge.rewritten?_eq_some_iff.mp rewritten with ⟨apart, rfl⟩ | ⟨_, _, _, rfl⟩
  · rw [CodeGraph.map_fst_additionReplacements] at apart
    exact ⟨isContains, kept rfl (Edge.touches_eq_false_iff.mp apart).2⟩
  · refine ⟨isContains, ?_⟩
    rcases CodeGraph.lookup_getD_cases (addition.replacements rule found) edge.target with
      ⟨apart, stays⟩ | moves
    · rw [CodeGraph.map_fst_additionReplacements] at apart
      exact kept stays apart
    · -- The class came into the place of another node, which must have been a class.
      have new := applies.mem_of_new (applies.added.targets _ moves) there
      have replaced : edge.target ∈ (addition.replacements rule found).map (·.1) :=
        List.mem_map.mpr ⟨_, moves, rfl⟩
      rw [CodeGraph.map_fst_additionReplacements, map_node_replaced binds] at replaced
      obtain ⟨pair, paired, same⟩ := List.mem_map.mp replaced
      obtain ⟨_, before, accepts⟩ := of_mem_zip assigns (List.mem_filter.mp paired).1
      have place : pair.1 ∈ rule.replacedPlaces :=
        map_fst_replacedPairs assigns ▸ List.mem_map_of_mem paired
      rcases shrinks.classes pair.1 place with only | none
      · exact ⟨pair.2, wellFormed.node?_eq_some_iff.mpr ⟨before, same⟩,
          PatternNode.kind_of_accepts only accepts⟩
      · exact absurd isClass
          (kind_ne_of_makesNoClass binds assigns wellFormed valid applies.added none node new)

/-- No edge that is added says that a class is contained. -/
theorem containsClass_link {link : Edge} (member : link ∈ addition.links) :
    (addition.result graph rule found).containsClass link = false := by
  rw [← Bool.not_eq_true, CodeGraph.containsClass_iff]
  rintro ⟨isContains, node, there, isClass⟩
  obtain ⟨edge, listed, links⟩ := exists_left_of_forall₂ applies.added.linked link member
  obtain ⟨known, none⟩ := shrinks.links edge listed (links.kind.symm.trans isContains)
  have size : rule.targetPattern.names.length = (addition.nodes.map (·.id)).length := by
    rw [TargetPattern.names, List.length_map, List.length_map, applies.added.filled.length_eq]
  obtain ⟨id, new, looked⟩ := exists_lookup_zip size known
  have target := links.target
  rw [endOf?, show (addition.fragment rule).lookup edge.target = some id from looked,
    Option.some_or, Option.some.injEq] at target
  rw [← target] at there
  exact kind_ne_of_makesNoClass binds assigns wellFormed valid applies.added none node
    (applies.mem_of_new new there) isClass

/-- The edges by which classes are contained after a match, and those that went away. -/
theorem countP_containsClass_add_le :
    (addition.result graph rule found).edges.countP
        (addition.result graph rule found).containsClass +
      graph.edges.countP (fun edge => graph.containsClass edge &&
        (edge.rewritten? found (addition.replacements rule found)).isNone) ≤
      graph.edges.countP graph.containsClass := by
  have links : addition.links.countP (addition.result graph rule found).containsClass = 0 :=
    List.countP_eq_zero.mpr fun link member => by
      rw [shrinks.containsClass_link binds assigns wellFormed valid applies member]
      exact Bool.false_ne_true
  have edges : (addition.result graph rule found).edges =
      graph.edges.filterMap (·.rewritten? found (addition.replacements rule found)) ++
        addition.links := rfl
  rw [edges, List.countP_append, links, Nat.add_zero]
  exact countP_filterMap_add_le fun edge member other rewritten after =>
    shrinks.containsClass_of_rewritten? binds assigns wellFormed valid applies member
      rewritten after

omit shrinks applies in
/-- An edge of the match by which a replaced class is contained goes away. -/
theorem exists_dropped {mapped : List Edge} (maps : rule.sourcePattern.Maps graph bound mapped)
    (mappedEdges : found.edges = mapped.map Search.matchedEdge) {edge : PatternEdge}
    (listed : edge ∈ rule.sourcePattern.edges) (isContains : edge.kind = .contains)
    {place : PatternNode} (replaced : place ∈ rule.replacedPlaces)
    (named : place.name = edge.target) (only : place.kind? = some .classType) :
    ∃ there ∈ graph.edges, graph.containsClass there ∧
      there.rewritten? found (addition.replacements rule found) = none := by
  obtain ⟨there, isMapped, stands⟩ := exists_left_of_forall₂ maps.stand.flip edge listed
  rw [← map_fst_replacedPairs assigns] at replaced
  obtain ⟨pair, paired, rfl⟩ := List.mem_map.mp replaced
  have isPair := (List.mem_filter.mp paired).1
  obtain ⟨_, bindsThere, accepts⟩ := of_mem_zip assigns isPair
  have target : there.target = pair.2.id := by
    have looked : (rule.sourcePattern.lookup bound pair.1.name).map (·.id) = some pair.2.id :=
      rule.lookup_of_mem_bindings valid (List.mem_map.mpr ⟨pair, isPair, rfl⟩)
    rw [named, stands.target] at looked
    exact Option.some.inj looked
  refine ⟨there, stands.member, ?_, ?_⟩
  · refine CodeGraph.containsClass_iff.mpr ⟨stands.kind.trans isContains, pair.2, ?_,
      PatternNode.kind_of_accepts only accepts⟩
    exact wellFormed.node?_eq_some_iff.mpr ⟨bindsThere, target.symm⟩
  · have touches : there.touches ((addition.replacements rule found).map (·.1)) := by
      rw [CodeGraph.map_fst_additionReplacements, map_node_replaced binds, Edge.touches_iff, target]
      exact .inr (List.mem_map.mpr ⟨pair, paired, rfl⟩)
    have isMatched : found.edges.any (·.edge = there.id) := by
      rw [mappedEdges, List.any_map, List.any_eq_true]
      exact ⟨there, isMapped, by simp [Search.matchedEdge]⟩
    simp [Edge.rewritten?, touches, isMatched]

/-- **The burden.** Applying a match of a rule that shrinks lowers it. -/
theorem burden_result_lt {mapped : List Edge} (maps : rule.sourcePattern.Maps graph bound mapped)
    (mappedEdges : found.edges = mapped.map Search.matchedEdge) :
    (addition.result graph rule found).burden < graph.burden := by
  have nodes := countP_isBurden_add_le binds assigns wellFormed valid applies.added
  have edges := shrinks.countP_containsClass_add_le binds assigns wellFormed valid applies
  rw [CodeGraph.burden_eq, CodeGraph.burden_eq]
  -- A rule that takes no more nodes than it gives takes away an edge instead.
  rcases shrinks.lighter with less | ⟨same, edge, listed, isContains, place, replaced, named, only⟩
  · omega
  · obtain ⟨there, member, contained, dropped⟩ := exists_dropped binds assigns wellFormed valid maps
      mappedEdges listed isContains replaced named only
    have gone : 0 < graph.edges.countP fun edge => graph.containsClass edge &&
        (edge.rewritten? found (addition.replacements rule found)).isNone :=
      List.countP_pos_iff.mpr ⟨there, member, by rw [contained, dropped]; rfl⟩
    omega

end Rule.Shrinks

/-! ### Runs -/

section Runs

variable {rules : List Rule} (valid : ∀ rule ∈ rules, rule.Valid)
  (shrink : ∀ rule ∈ rules, rule.Shrinks)

include valid shrink

/-- A step of a pass that does not skip its match lowers the burden. -/
theorem Pass.Applied.burden_lt {pass after : Pass} {found : Match}
    (applied : pass.Applied rules found after) (wellFormed : pass.graph.WellFormed) :
    after.graph.burden < pass.graph.burden := by
  obtain ⟨rule, bound, mapped, addition, at_, embeds, maps, same, applies, rfl⟩ := applied
  have listed := List.mem_of_getElem? at_
  exact (shrink rule listed).burden_result_lt (congrArg Match.bindings same) embeds.toAssigns
    wellFormed (valid rule listed) applies maps (congrArg Match.edges same)

namespace CodeGraph.WellFormed

variable {graph : CodeGraph} (wellFormed : graph.WellFormed)

include wellFormed

/-- Whatever a pass applies, it takes from the burden. -/
theorem applied_add_burden_le :
    (graph.onePass rules).applied + (graph.onePass rules).graph.burden ≤ graph.burden := by
  have kept : (graph.onePass rules).Since graph ∧
      (graph.onePass rules).applied + (graph.onePass rules).graph.burden ≤ graph.burden := by
    refine foldlM_induction (motive := fun pass : Pass =>
      pass.Since graph ∧ pass.applied + pass.graph.burden ≤ graph.burden) ?_
      ⟨.refl wellFormed, by simp⟩ (wellFormed.run_eq valid)
    rintro pass found member after ⟨since, le⟩ stepped
    obtain ⟨next, nextStepped, nextSince, same | applied⟩ := since.step wellFormed valid member
    · rw [stepped] at nextStepped
      cases nextStepped
      exact same ▸ ⟨since, le⟩
    · rw [stepped] at nextStepped
      cases nextStepped
      have less := applied.burden_lt valid shrink since.formed
      obtain ⟨_, _, _, _, _, _, _, _, _, rfl⟩ := applied
      refine ⟨nextSince, ?_⟩
      change pass.applied + 1 + _ ≤ _
      omega
  exact kept.2

/-- Whatever the passes of a run apply, they take from the burden. -/
theorem sum_appliedAt_add_burden_le (number : Nat) :
    ∑ earlier ∈ Finset.range number, graph.appliedAt rules earlier +
      (graph.stage rules number).burden ≤ graph.burden := by
  induction number with
  | zero => simp [CodeGraph.stage]
  | succ number ih =>
      have next := (wellFormed.stage valid number).applied_add_burden_le valid shrink
      rw [Finset.sum_range_succ, CodeGraph.appliedAt, CodeGraph.stage]
      omega

/-- After more passes than the burden was at the start, nothing is left to do. -/
theorem findMatches_stage_eq_nil {number : Nat} (less : graph.burden < number) :
    (graph.stage rules number).findMatches rules = [] := by
  obtain ⟨idle, before, none⟩ : ∃ idle < number, graph.appliedAt rules idle = 0 := by
    -- Were every pass to apply something, the run would apply more than the burden.
    by_contra busy
    push Not at busy
    have each : ∑ _earlier ∈ Finset.range number, 1 ≤
        ∑ earlier ∈ Finset.range number, graph.appliedAt rules earlier :=
      Finset.sum_le_sum fun earlier listed =>
        Nat.one_le_iff_ne_zero.mpr (busy earlier (Finset.mem_range.mp listed))
    have total := wellFormed.sum_appliedAt_add_burden_le valid shrink number
    rw [Finset.sum_const, Finset.card_range, nsmul_one, Nat.cast_id] at each
    omega
  exact (wellFormed.stage valid number).findMatches_eq_nil valid
    (wellFormed.appliedAt_eq_zero_of_le valid (Nat.le_of_lt before) none)

/-- A run that may make more passes than the burden is comes to a fixpoint. -/
theorem exists_transform_quiet {bound : Nat} (less : graph.burden < bound) :
    ∃ result, Transcode.transform graph rules (.fixpoint bound) = .ok result ∧
      result.warnings = [] ∧
      result.graph.findMatches rules = [] := by
  obtain ⟨result, ran, describes⟩ := exists_transform_describes valid wellFormed (.fixpoint bound)
  have none : result.graph.findMatches rules = [] := by
    rw [describes.last]
    exact wellFormed.findMatches_stage_eq_nil valid shrink less
  obtain ⟨other, otherRan, _, reported⟩ :=
    Transformed.exists_proceed_warnings valid wellFormed bound 0 0
  obtain rfl : other = result := Except.ok.inj (otherRan.symm.trans ran)
  exact ⟨other, ran, by rw [reported, leftWarnings_eq_nil_iff, none], none⟩

end CodeGraph.WellFormed

end Runs

/-! ### The automated built-in rules -/

namespace Builtin

theorem classToInterface_shrinks : classToInterface.Shrinks :=
  ⟨by decide, by decide, .inl (by decide)⟩

theorem staticToFunction_shrinks : staticToFunction.Shrinks :=
  ⟨by decide, by decide, .inl (by decide)⟩

theorem innerToStandalone_shrinks : innerToStandalone.Shrinks :=
  ⟨by decide, by decide, .inr (by decide)⟩

theorem accessorToProperty_shrinks : accessorToProperty.Shrinks :=
  ⟨by decide, by decide, .inl (by decide)⟩

theorem automated_eq : catalog.automated =
    [classToInterface, staticToFunction, innerToStandalone, accessorToProperty] := rfl

/-- Every automated rule lowers the burden. -/
theorem shrinks_of_mem : ∀ rule ∈ catalog.automated, rule.Shrinks := by
  rw [automated_eq]
  simp [classToInterface_shrinks, staticToFunction_shrinks, innerToStandalone_shrinks,
    accessorToProperty_shrinks]

theorem valid_of_mem : ∀ rule ∈ catalog.automated, rule.Valid := fun _ listed =>
  catalog.valid_of_mem (List.mem_filter.mp listed).1

end Builtin

/-- **The automated built-in rules end.** On every graph, each match that is found or comes up in a
pass lowers the burden when it is applied. So a run applies at most as many matches as the burden
is, and comes to a fixpoint if it may make more passes than that. -/
theorem automated_rules_terminate {graph : CodeGraph} (wellFormed : graph.WellFormed) :
    (∀ rule ∈ Builtin.catalog.automated, ∀ found ∈ graph.findMatchesOf rule,
      ∃ ids after, graph.applyMatch rule found = (.ok ids, after) ∧
        after.burden < graph.burden) ∧
    (∀ pass : Pass, pass.Since graph → ∀ found ∈ graph.findMatches Builtin.catalog.automated,
      ∃ after, pass.step Builtin.catalog.automated found = .ok after ∧
        (after = pass ∨ after.applied = pass.applied + 1 ∧
          after.graph.burden < pass.graph.burden)) ∧
    ∀ mode : RunMode, ∃ result,
      transform graph Builtin.catalog.automated mode = .ok result ∧
      result.applied + result.graph.burden ≤ graph.burden ∧
      ∀ bound, mode = .fixpoint bound → graph.burden < bound →
        result.warnings = [] ∧ result.graph.findMatches Builtin.catalog.automated = [] := by
  have valid := Builtin.valid_of_mem
  have shrink := Builtin.shrinks_of_mem
  refine ⟨fun rule listed found member => ?_, fun pass since found member => ?_, fun mode => ?_⟩
  · have atZero := CodeGraph.mem_findMatchesOf_iff.mp member
    obtain ⟨bound, mapped, embeds, maps, rfl⟩ := wellFormed.exists_embeds (valid rule listed) atZero
    have still := wellFormed.stillValid_of_mem (valid rule listed) atZero
    have fits := (Rule.fits_of_mem_matchesAt atZero).1
    obtain ⟨addition, applies⟩ := wellFormed.exists_applies (valid rule listed) fits
      (CodeGraph.hasNode_of_stillValid fits still)
    exact ⟨_, _, applies.outcome, (shrink rule listed).burden_result_lt rfl embeds.toAssigns
      wellFormed (valid rule listed) applies maps rfl⟩
  · obtain ⟨after, stepped, _, same | applied⟩ := since.step wellFormed valid member
    · exact ⟨after, stepped, .inl same⟩
    · have less := applied.burden_lt valid shrink since.formed
      obtain ⟨_, _, _, _, _, _, _, _, _, rfl⟩ := applied
      exact ⟨_, stepped, .inr ⟨rfl, less⟩⟩
  · obtain ⟨result, ran, describes⟩ := exists_transform_describes valid wellFormed mode
    refine ⟨result, ran, ?_, fun bound isFixpoint less => ?_⟩
    · rw [describes.applied, describes.last]
      exact wellFormed.sum_appliedAt_add_burden_le valid shrink mode.passes
    · subst isFixpoint
      obtain ⟨other, otherRan, quiet⟩ := wellFormed.exists_transform_quiet valid shrink less
      obtain rfl : other = result := Except.ok.inj (otherRan.symm.trans ran)
      exact quiet

/-- Two classes that contain each other come to an end after at most as many matches as there are
classes and edges by which they are contained. -/
theorem automated_rules_terminate_cycle :
    ∃ (graph : CodeGraph) (result : Transformed), graph.WellFormed ∧ graph.burden = 4 ∧
      transform graph Builtin.catalog.automated (.fixpoint 5) = .ok result ∧
      result.applied ≤ 4 ∧ result.warnings = [] ∧
      result.graph.findMatches Builtin.catalog.automated = [] := by
  obtain ⟨graph, wellFormed, tested⟩ := CodeGraph.WellFormed.exists_ofData {
      nodes := [⟨"n0", "A", .classType, ∅⟩, ⟨"n1", "B", .classType, ∅⟩]
      edges := [⟨"e0", "n0", "n1", .contains, ∅⟩, ⟨"e1", "n1", "n0", .contains, ∅⟩] }
    (fun graph => graph.burden = 4) (by decide +kernel)
  have burden : graph.burden = 4 := of_decide_eq_true tested
  obtain ⟨_, _, runs⟩ := automated_rules_terminate wellFormed
  obtain ⟨result, ran, bounded, ends⟩ := runs (.fixpoint 5)
  obtain ⟨quiet, none⟩ := ends 5 rfl (by omega)
  exact ⟨graph, result, wellFormed, burden, ran, by omega, quiet, none⟩

end Transcode
