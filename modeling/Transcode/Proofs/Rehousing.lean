import Transcode.Proofs.Placeholders
import Transcode.Proofs.Replanting
import Transcode.Proofs.Visits

/-!
# Loops under rewriting

A graph is rehoused in another if its nodes are there under other names, each with its body and its
slot, and contain the same loops (`CodeGraph.Rehouses`). A body stands for the loops of its node
before if and only if it does afterwards (`CodeGraph.Rehouses.placesLoops_iff`).

A rewrite rehouses the graph if its rule copies what it replaces, with body and slot, makes loops of
loops and of nothing else, and matches no loop as what something contains (`Rule.KeepsLoops`,
`Rewrite.Genuine.rehouses`).
-/

namespace Transcode

/-! ### Rehousing -/

/-- A node has the body and the slot of another, and is a loop if the other is one. -/
structure Node.Resembles (node other : Node) : Prop where
  isLoop : other.kind.isLoop = node.kind.isLoop
  body : other.get? "body" = node.get? "body"
  slot : other.get? "slot" = node.get? "slot"

theorem Node.Resembles.refl (node : Node) : node.Resembles node := ⟨rfl, rfl, rfl⟩

/-- Nodes that resemble each other have the same placeholders. -/
theorem Node.Resembles.placeholders {node other : Node} (resembles : node.Resembles other) :
    other.placeholders = node.placeholders :=
  congrArg (fun body : Option String => Output.slotsIn (body.getD "")) resembles.body

namespace CodeGraph

/-- The nodes of a graph are in another one, under names that tell them apart, and contain the same
loops there and nothing but what they have contained. -/
structure Rehouses (before : CodeGraph) (place : String → String) (after : CodeGraph) : Prop where
  shown : ∀ node ∈ before.nodes, ∃ other ∈ after.nodes, other.id = place node.id ∧
    node.Resembles other
  apart : ∀ first, before.hasNode first → ∀ second, before.hasNode second →
    place first = place second → first = second
  held : ∀ loop ∈ before.nodes, loop.kind.isLoop → ∀ owner, before.Contains owner loop.id →
    after.Contains (place owner) (place loop.id)
  only : ∀ owner, before.hasNode owner → ∀ child, after.Contains (place owner) child →
    ∃ earlier, before.Contains owner earlier ∧ place earlier = child

/-- A graph that is well-formed and a forest, and whose bodies stand for the loops of their
nodes. -/
structure Housed (graph : CodeGraph) : Prop where
  wellFormed : graph.WellFormed
  forest : graph.Forest
  placed : graph.LoopsPlaced

namespace Rehouses

variable {before after : CodeGraph} {place : String → String}
  (rehouses : before.Rehouses place after) (formed : before.WellFormed) (forest : before.Forest)
  (afterFormed : after.WellFormed) (afterForest : after.Forest)

include rehouses afterFormed

/-- The node under the new name of a node. -/
theorem resembles {node other : Node} (member : node ∈ before.nodes)
    (otherMember : other ∈ after.nodes)
    (named : other.id = place node.id) : node.Resembles other := by
  obtain ⟨there, thereMember, same, resembles⟩ := rehouses.shown node member
  exact afterFormed.eq_of_id thereMember otherMember (same.trans named.symm) ▸ resembles

include formed forest afterForest

/-- The ids of the loops of a node are those of its loops before, under their new names. -/
theorem loopIds_perm {owner : String} (there : before.hasNode owner) :
    (((after.children (place owner)).filter (·.kind.isLoop)).map (·.id)).Perm
      (((before.children owner).filter (·.kind.isLoop)).map fun loop => place loop.id) := by
  have distinct := Output.nodup_children formed forest owner
  have afterDistinct := Output.nodup_children afterFormed afterForest (place owner)
  have mem {graph : CodeGraph} (graphFormed : graph.WellFormed) {id : String} {loop : Node} :
      loop ∈ (graph.children id).filter (·.kind.isLoop) ↔
        (loop ∈ graph.nodes ∧ graph.Contains id loop.id) ∧ loop.kind.isLoop := by
    rw [List.mem_filter, Output.mem_children_iff graphFormed]
  refine (List.perm_ext_iff_of_nodup ?_ ?_).mpr fun id => ?_
  · refine (afterDistinct.filter _).map_on fun first isFirst second isSecond same => ?_
    exact afterFormed.eq_of_id ((mem afterFormed).mp isFirst).1.1
      ((mem afterFormed).mp isSecond).1.1 same
  · refine (distinct.filter _).map_on fun first isFirst second isSecond same => ?_
    have one := ((mem formed).mp isFirst).1.1
    have other := ((mem formed).mp isSecond).1.1
    exact formed.eq_of_id one other
      (rehouses.apart _ (hasNode_of_mem one) _ (hasNode_of_mem other) same)
  · simp only [List.mem_map, mem formed, mem afterFormed]
    constructor
    · rintro ⟨later, ⟨⟨laterMember, contains⟩, isLoop⟩, rfl⟩
      obtain ⟨earlier, contained, named⟩ := rehouses.only owner there later.id contains
      obtain ⟨loop, member, rfl⟩ :=
        List.mem_map.mp (hasNode_iff.mp (formed.hasNode_of_contains contained).2)
      have resembles := rehouses.resembles afterFormed member laterMember named.symm
      exact ⟨loop, ⟨⟨member, contained⟩, resembles.isLoop ▸ isLoop⟩, named⟩
    · rintro ⟨loop, ⟨⟨member, contains⟩, isLoop⟩, rfl⟩
      obtain ⟨later, laterMember, named, resembles⟩ := rehouses.shown loop member
      refine ⟨later, ⟨⟨laterMember, ?_⟩, resembles.isLoop.trans isLoop⟩, named⟩
      rw [named]
      exact rehouses.held loop member isLoop owner contains

/-- The loops of a node have the slots that its loops had before. -/
theorem loopSlots_perm {owner : String} (there : before.hasNode owner) :
    (after.loopSlots (place owner)).Perm (before.loopSlots owner) := by
  -- Both are the slots in the graph afterwards, looked up by the ids of the loops there.
  let slotAt (id : String) : Option String := (after.node? id).bind (·.get? "slot")
  have ids := (rehouses.loopIds_perm formed forest afterFormed afterForest there).map slotAt
  rw [List.map_map, List.map_map] at ids
  refine (List.Perm.of_eq ?_).trans (ids.trans (List.Perm.of_eq ?_))
  · refine List.map_congr_left fun loop isLoop => ?_
    have member := ((Output.mem_children_iff afterFormed).mp (List.mem_filter.mp isLoop).1).1
    simp [slotAt, afterFormed.node?_of_mem member]
  · refine List.map_congr_left fun loop isLoop => ?_
    have member := ((Output.mem_children_iff formed).mp (List.mem_filter.mp isLoop).1).1
    obtain ⟨later, laterMember, named, resembles⟩ := rehouses.shown loop member
    simp [slotAt, ← named, afterFormed.node?_of_mem laterMember, resembles.slot]

/-- A body stands for the loops of its node if and only if it did before. -/
theorem placesLoops_iff {node other : Node} (member : node ∈ before.nodes)
    (otherMember : other ∈ after.nodes) (named : other.id = place node.id) :
    after.PlacesLoops other ↔ before.PlacesLoops node := by
  have body := (rehouses.resembles afterFormed member otherMember named).placeholders
  have slots :=
    rehouses.loopSlots_perm formed forest afterFormed afterForest (hasNode_of_mem member)
  rw [← named] at slots
  constructor
  · rintro ⟨nodup, perm⟩
    exact ⟨body ▸ nodup, slots.symm.trans (body ▸ perm)⟩
  · rintro ⟨nodup, perm⟩
    exact ⟨body ▸ nodup, slots.trans (body ▸ perm)⟩

end Rehouses

/-- Graphs are rehoused in one all of whose nodes come from them. Its bodies stand for their loops
if theirs do. -/
theorem Housed.of_rehouses {ι : Type} {before : ι → CodeGraph} {place : ι → String → String}
    {after : CodeGraph} (housed : ∀ index, (before index).Housed)
    (rehouses : ∀ index, (before index).Rehouses (place index) after)
    (afterFormed : after.WellFormed) (afterForest : after.Forest)
    (origin : ∀ node ∈ after.nodes, ∃ index, ∃ earlier ∈ (before index).nodes,
      node.id = place index earlier.id) : after.Housed where
  wellFormed := afterFormed
  forest := afterForest
  placed node member := by
    obtain ⟨index, earlier, there, named⟩ := origin node member
    exact ((rehouses index).placesLoops_iff (housed index).wellFormed (housed index).forest
      afterFormed afterForest there member named).mpr ((housed index).placed earlier there)

end CodeGraph

/-! ### Rules -/

namespace Rule

/-- What a body and its loops are matched by. -/
def placeKeys : List String := ["body", "slot"]

/-- A template for what is in the place of a node of the source pattern: a copy with the same body
and slot, and a loop if that node is one. -/
structure CopiesPlace (rule : Rule) (place : PatternNode) (template : TemplateNode) : Prop where
  name : template.name = rule.standIn place.name
  copied : template.copyFrom = some place.name
  kept : ∀ key ∈ placeKeys, key ∉ template.remove ∧ key ∉ template.set.keys
  told : place.kind?.isSome
  isLoop : (rule.templateKind? template).map (·.isLoop) = place.kind?.map (·.isLoop)

instance (rule : Rule) (place : PatternNode) (template : TemplateNode) :
    Decidable (rule.CopiesPlace place template) :=
  decidable_of_iff (_ ∧ _ ∧ _ ∧ _ ∧ _)
    ⟨fun ⟨name, copied, kept, told, isLoop⟩ => ⟨name, copied, kept, told, isLoop⟩,
      fun ⟨name, copied, kept, told, isLoop⟩ => ⟨name, copied, kept, told, isLoop⟩⟩

/-- A rule that keeps forests and puts a copy in the place of each node that it replaces, with its
body and slot, and that takes no loop from its container. -/
structure KeepsLoops (rule : Rule) : Prop where
  forests : rule.KeepsForests
  copies : ∀ place ∈ rule.replacedPlaces, ∃ template ∈ rule.targetPattern.nodes,
    rule.CopiesPlace place template
  origins : ∀ template ∈ rule.targetPattern.nodes, ∃ place ∈ rule.replacedPlaces,
    rule.CopiesPlace place template
  leaves : ∀ edge ∈ rule.sourcePattern.edges, edge.kind = .contains →
    ((rule.sourcePattern.node? edge.target).bind (·.kind?)).any (!·.isLoop)

instance (rule : Rule) : Decidable rule.KeepsLoops :=
  decidable_of_iff (_ ∧ _ ∧ _ ∧ _)
    ⟨fun ⟨forests, copies, origins, leaves⟩ => ⟨forests, copies, origins, leaves⟩,
      fun ⟨forests, copies, origins, leaves⟩ => ⟨forests, copies, origins, leaves⟩⟩

end Rule

theorem Builtin.keepsLoops_of_mem : ∀ rule ∈ rules, rule.KeepsLoops := by
  decide

/-! ### Templates -/

/-- A template changes only the attributes that it removes or sets. -/
theorem TemplateNode.get?_change {template : TemplateNode} {key : String}
    (kept : key ∉ template.remove ∧ key ∉ template.set.keys) (lookup : String → Option Node)
    (attributes : Attributes) :
    (template.change lookup attributes).get? key = attributes.get? key := by
  have erased : (template.remove.foldl Dict.erase attributes).get? key = attributes.get? key := by
    refine List.foldlRecOn (motive := fun changed : Attributes => changed.get? key = _)
      template.remove _ rfl fun changed same name listed => ?_
    have other : name ≠ key := fun isKey => kept.1 (isKey ▸ listed)
    rw [Dict.get?_erase, if_neg other, same]
  refine List.foldlRecOn (motive := fun changed : Attributes => changed.get? key = _)
    template.set.entries _ erased fun changed same entry listed => ?_
  have other : entry.1 ≠ key := fun isKey =>
    kept.2 (isKey ▸ List.mem_map_of_mem (f := Prod.fst) listed)
  dsimp only
  split
  · rw [Dict.get?_erase, if_neg other, same]
  · rw [Dict.get?_insert, if_neg other, same]

/-- A template that copies a node makes one with the attributes that it keeps. -/
theorem TemplateNode.get?_of_instantiate {template : TemplateNode} {key name : String}
    {lookup : String → Option Node} {node : Node} {spec : NodeSpec}
    (copied : template.copyFrom = some name) (isNode : lookup name = some node)
    (kept : key ∉ template.remove ∧ key ∉ template.set.keys)
    (made : template.instantiate lookup = some spec) :
    spec.attributes.get? key = node.get? key := by
  unfold instantiate at made
  simp only [copied, Option.bind_some, isNode, Option.bind_eq_bind, Option.bind_eq_some_iff,
    Option.pure_def, Option.some.injEq] at made
  obtain ⟨_, _, _, _, rfl⟩ := made
  exact get?_change kept lookup node.attributes

/-- The node that a fragment has under the name of a template is the one that is made by it. -/
theorem Addition.exists_of_lookup {addition : Addition} {rule : Rule} (valid : rule.Valid)
    {template : TemplateNode} (listed : template ∈ rule.targetPattern.nodes) {id : String}
    (looked : (addition.fragment rule).lookup template.name = some id) :
    ∃ node, (template, node) ∈ rule.targetPattern.nodes.zip addition.nodes ∧ node.id = id := by
  have paired := CodeGraph.mem_of_lookup_eq_some looked
  rw [Addition.fragment, TargetPattern.names, List.zip_map, List.mem_map] at paired
  obtain ⟨⟨other, node⟩, member, same⟩ := paired
  obtain ⟨name, rfl⟩ := Prod.mk.inj same
  obtain rfl := List.inj_on_of_nodup_map valid.fragmentNames (List.of_mem_zip member).1 listed name
  exact ⟨node, member, rfl⟩

/-! ### One rewrite -/

namespace CodeGraph.Applies

variable {graph : CodeGraph} {rule : Rule} {found : Match} {addition : Addition}
  (applies : graph.Applies rule found addition)

include applies

/-- A node that is replaced is bound to a place of the pattern. -/
theorem exists_place (valid : rule.Valid) {binding : Binding} (member : binding ∈ found.replaced) :
    ∃ place ∈ rule.replacedPlaces, rule.sourcePattern.node? binding.name = some place := by
  obtain ⟨listed, replaced⟩ := List.mem_filter.mp member
  obtain ⟨place, placeListed, named, role⟩ :=
    exists_left_of_forall₂ applies.fits.bindings binding listed
  rw [role] at replaced
  exact ⟨place, List.mem_filter.mpr ⟨placeListed, replaced⟩,
    (find?_key_eq_some_iff PatternNode.name valid.names).mpr ⟨placeListed, named.symm⟩⟩

/-- Some node that is replaced is bound to each place that the pattern replaces. -/
theorem exists_replaced {place : PatternNode} (listed : place ∈ rule.replacedPlaces) :
    ∃ binding ∈ found.replaced, binding.name = place.name := by
  obtain ⟨placeListed, replaced⟩ := List.mem_filter.mp listed
  obtain ⟨binding, member, same, role⟩ :=
    exists_left_of_forall₂ applies.fits.bindings.flip place placeListed
  exact ⟨binding, List.mem_filter.mpr ⟨member, role.trans replaced⟩, same⟩

/-- The node that is bound to the name of a binding is the one of that binding. -/
theorem boundNode?_of_mem (valid : rule.Valid) {binding : Binding}
    (member : binding ∈ found.bindings) :
    graph.boundNode? found binding.name = graph.node? binding.node := by
  have known := applies.fits.map_name ▸ List.mem_map_of_mem (f := Binding.name) member
  obtain ⟨same, sameMember, sameName, looked⟩ := applies.fits.exists_binding known
  have names : (found.bindings.map (·.name)).Nodup := applies.fits.map_name ▸ valid.names
  obtain rfl := List.inj_on_of_nodup_map names sameMember member sameName
  rw [CodeGraph.boundNode?, looked, Option.bind_some]

end CodeGraph.Applies

namespace Rewrite

variable {rules : List Rule} {rewrite : Rewrite}

section Genuine

variable (genuine : rewrite.Genuine rules) (valid : rewrite.rule.Valid)
  {addition : Addition}
  (applies : rewrite.before.graph.Applies rewrite.rule rewrite.found addition)

include genuine

/-- The match of a rewrite binds nodes of the graph that its rule accepts. -/
theorem Genuine.exists_assigns : ∃ bound, rewrite.found.bindings = rewrite.rule.bindings bound ∧
    rewrite.rule.sourcePattern.Assigns rewrite.before.graph bound := by
  obtain ⟨bound, _, embeds, _, made⟩ := genuine.embedding
  exact ⟨bound, by rw [made]; rfl, embeds.toAssigns⟩

include valid

/-- What contains a loop does not match an edge of the pattern. -/
theorem Genuine.unmatched_of_isLoop (keeps : rewrite.rule.KeepsLoops) {loop : Node}
    (member : loop ∈ rewrite.before.graph.nodes) (isLoop : loop.kind.isLoop) {owner : String}
    {edge : Edge} (leads : rewrite.before.graph.Leads .contains owner loop.id edge) :
    rewrite.found.edges.any (·.edge = edge.id) = false := by
  refine Bool.eq_false_iff.mpr fun matched => ?_
  obtain ⟨asked, askedMember, kind, _, isBound⟩ :=
    genuine.embedding.exists_asked genuine.formed leads.member matched
  obtain ⟨only, told, noLoop⟩ := (Option.any_eq_true ..).mp
    (keeps.leaves asked askedMember (kind.symm.trans leads.kind))
  obtain ⟨place, named, isOnly⟩ := Option.bind_eq_some_iff.mp told
  obtain ⟨bound, binds, assigns⟩ := genuine.exists_assigns
  have found : rewrite.before.graph.boundNode? rewrite.found asked.target = some loop := by
    rw [CodeGraph.boundNode?, isBound, leads.target]
    exact genuine.formed.node?_of_mem member
  have isKind := Rule.kind_of_boundNode? binds assigns genuine.formed valid named isOnly found
  rw [← isKind, isLoop] at noLoop
  cases noLoop

include applies

/-- What is made by the template that copies a place of the pattern is in the place of the node that
is bound there, and resembles it. -/
theorem Genuine.resembles_of_copies {binding : Binding} (member : binding ∈ rewrite.found.replaced)
    {place : PatternNode} (named : rewrite.rule.sourcePattern.node? binding.name = some place)
    {template : TemplateNode} (listed : template ∈ rewrite.rule.targetPattern.nodes)
    (copies : rewrite.rule.CopiesPlace place template) {node : Node}
    (isNode : rewrite.before.graph.node? binding.node = some node) :
    ∃ other, (template, other) ∈ rewrite.rule.targetPattern.nodes.zip addition.nodes ∧
      other.id = rewrite.inPlace binding.node ∧ node.Resembles other := by
  obtain ⟨bound, binds, assigns⟩ := genuine.exists_assigns
  have formed := genuine.formed
  have name : place.name = binding.name :=
    ((find?_key_eq_some_iff PatternNode.name valid.names).mp named).2
  have looked := applies.lookup_standIn valid member
  rw [← name, ← copies.name, ← inPlace_eq applies] at looked
  obtain ⟨other, paired, isOther⟩ := Addition.exists_of_lookup valid listed looked
  have made := List.forall₂_zip applies.added.filled paired
  have isBound : rewrite.before.graph.boundNode? rewrite.found place.name = some node := by
    rw [name, applies.boundNode?_of_mem valid (List.mem_filter.mp member).1, isNode]
  have kept (key : String) (isKey : key ∈ Rule.placeKeys) : other.get? key = node.get? key :=
    TemplateNode.get?_of_instantiate copies.copied isBound (copies.kept key isKey) made
  refine ⟨other, paired, isOther, ?_, kept "body" (by decide), kept "slot" (by decide)⟩
  obtain ⟨kind, told⟩ := Option.isSome_iff_exists.mp copies.told
  have isKind := Rule.kind_of_boundNode? binds assigns formed valid (name ▸ named) told isBound
  have loops := copies.isLoop
  rw [told, Option.map_some] at loops
  obtain ⟨new, newKnown, sameLoop⟩ := Option.map_eq_some_iff.mp loops
  have isNew := Rule.kind_of_instantiate binds assigns formed valid newKnown made
  rw [isKind, show other.kind = new from isNew, sameLoop]

/-- Every node is shown by what is in its place. -/
theorem Genuine.exists_resembling (keeps : rewrite.rule.KeepsLoops) {node : Node}
    (member : node ∈ rewrite.before.graph.nodes) :
    ∃ other ∈ (addition.result rewrite.before.graph rewrite.rule rewrite.found).nodes,
      other.id = rewrite.inPlace node.id ∧ node.Resembles other := by
  by_cases replaced : node.id ∈ rewrite.found.replaced.map (·.node)
  · obtain ⟨binding, listed, same⟩ := List.mem_map.mp replaced
    obtain ⟨place, placeListed, named⟩ := applies.exists_place valid listed
    obtain ⟨template, templateListed, copies⟩ := keeps.copies place placeListed
    obtain ⟨other, paired, isOther, resembles⟩ := genuine.resembles_of_copies valid applies listed
      named templateListed copies (same ▸ genuine.formed.node?_of_mem member)
    exact ⟨other, List.mem_append_right _ (List.of_mem_zip paired).2, same ▸ isOther, resembles⟩
  · refine ⟨node, List.mem_append_left _ (List.mem_filter.mpr ⟨member, decide_eq_true replaced⟩),
      ?_, .refl node⟩
    rw [inPlace_eq applies, Addition.inPlace_of_not_mem replaced]

omit genuine in
/-- A new node is a copy of the node in whose place it is. -/
theorem exists_copied (keeps : rewrite.rule.KeepsLoops) {node : Node}
    (new : node ∈ addition.nodes) : ∃ template place, ∃ earlier ∈ rewrite.before.graph.nodes,
      (template, node) ∈ rewrite.rule.targetPattern.nodes.zip addition.nodes ∧
      rewrite.rule.CopiesPlace place template ∧
      rewrite.before.graph.boundNode? rewrite.found place.name =
        rewrite.before.graph.node? earlier.id ∧
      node.id = rewrite.inPlace earlier.id := by
  obtain ⟨template, paired⟩ : ∃ template, (template, node) ∈
      rewrite.rule.targetPattern.nodes.zip addition.nodes := by
    rw [← List.map_snd_zip (Nat.le_of_eq applies.added.filled.length_eq.symm)] at new
    obtain ⟨⟨template, _⟩, paired, rfl⟩ := List.mem_map.mp new
    exact ⟨template, paired⟩
  obtain ⟨place, placeListed, copies⟩ := keeps.origins template (List.of_mem_zip paired).1
  obtain ⟨binding, listed, name⟩ := applies.exists_replaced placeListed
  obtain ⟨earlier, there, isEarlier⟩ := List.mem_map.mp (CodeGraph.hasNode_iff.mp
    (applies.live_replaced _ (List.mem_map_of_mem listed)))
  have looked := applies.lookup_standIn valid listed
  rw [name, ← copies.name] at looked
  obtain ⟨other, otherPaired, isOther⟩ :=
    Addition.exists_of_lookup valid (List.of_mem_zip paired).1 looked
  have templates : ((rewrite.rule.targetPattern.nodes.zip addition.nodes).map (·.1)).Nodup := by
    rw [List.map_fst_zip (Nat.le_of_eq applies.added.filled.length_eq)]
    exact valid.fragmentNames.of_map _
  obtain ⟨_, rfl⟩ := Prod.mk.inj (List.inj_on_of_nodup_map templates paired otherPaired rfl)
  refine ⟨template, place, earlier, there, paired, copies, ?_, ?_⟩
  · rw [← name, applies.boundNode?_of_mem valid (List.mem_filter.mp listed).1, isEarlier]
  · rw [isOther, isEarlier, inPlace_eq applies]

omit genuine in
/-- All nodes are in the place of nodes that were there before. -/
theorem exists_earlier (keeps : rewrite.rule.KeepsLoops) {node : Node}
    (member : node ∈ (addition.result rewrite.before.graph rewrite.rule rewrite.found).nodes) :
    ∃ earlier ∈ rewrite.before.graph.nodes, node.id = rewrite.inPlace earlier.id := by
  rcases List.mem_append.mp member with kept | new
  · obtain ⟨there, stays⟩ := List.mem_filter.mp kept
    refine ⟨node, there, ?_⟩
    rw [inPlace_eq applies, Addition.inPlace_of_not_mem (of_decide_eq_true stays)]
  · obtain ⟨_, _, earlier, there, _, _, _, named⟩ := exists_copied valid applies keeps new
    exact ⟨earlier, there, named⟩

/-- What contains a loop contains what is in the place of the loop afterwards. -/
theorem Genuine.contains_loop (keeps : rewrite.rule.KeepsLoops)
    (forest : rewrite.before.graph.Forest) {loop : Node}
    (member : loop ∈ rewrite.before.graph.nodes) (isLoop : loop.kind.isLoop) {owner : String}
    (contained : rewrite.before.graph.Contains owner loop.id) :
    (addition.result rewrite.before.graph rewrite.rule rewrite.found).Contains
      (rewrite.inPlace owner) (rewrite.inPlace loop.id) := by
  obtain ⟨edge, leads⟩ := id contained
  rw [inPlace_eq applies]
  let moved := edge.moved (addition.replacements rewrite.rule rewrite.found)
  have source : moved.source = addition.inPlace rewrite.rule rewrite.found owner :=
    congrArg (addition.inPlace rewrite.rule rewrite.found) leads.source
  have target : moved.target = addition.inPlace rewrite.rule rewrite.found loop.id :=
    congrArg (addition.inPlace rewrite.rule rewrite.found) leads.target
  have unmatched := genuine.unmatched_of_isLoop valid keeps member isLoop leads
  have noLoop : moved.isContainmentLoop = false := by
    rw [Edge.isContainmentLoop, Bool.and_eq_false_imp]
    intro _
    rw [decide_eq_false_iff_not, source, target]
    intro same
    have ends := genuine.formed.hasNode_of_contains contained
    have self := applies.inPlace_apart valid keeps.forests _ ends.1 _ ends.2 same
    rw [self] at contained
    exact forest.acyclic loop.id (.single contained)
  have rewritten : edge.rewritten? rewrite.found
      (addition.replacements rewrite.rule rewrite.found) = some moved := by
    rw [Addition.rewritten?_eq, unmatched, noLoop, Bool.or_self, Bool.and_false, if_neg (by decide)]
  refine ⟨moved, List.mem_append_left _ (List.mem_filterMap.mpr ⟨edge, leads.member, rewritten⟩),
    ?_, source, target⟩
  exact Edge.moved_kind.trans leads.kind

end Genuine

section Runs

variable (genuine : rewrite.Genuine rules) (valid : rewrite.rule.Valid)
  (keeps : rewrite.rule.KeepsLoops)

include genuine valid keeps

/-- **One rewrite** leaves every node with its body, its slot and its loops. -/
theorem Genuine.rehouses (forest : rewrite.before.graph.Forest) :
    rewrite.before.graph.Rehouses rewrite.inPlace rewrite.after.graph := by
  have only := (genuine.containments_subperm valid keeps.forests).subset
  obtain ⟨addition, applies, made⟩ := genuine.applies
  have apart := applies.inPlace_apart valid keeps.forests
  rw [← inPlace_eq applies] at apart
  rw [made] at only ⊢
  refine ⟨fun node => genuine.exists_resembling valid applies keeps, apart,
    fun loop member isLoop owner => genuine.contains_loop valid applies keeps forest member isLoop,
    fun owner there child contains => ?_⟩
  obtain ⟨⟨start, stop⟩, member, same⟩ :=
    List.mem_map.mp (only (CodeGraph.mem_containments_iff.mpr contains))
  obtain ⟨isOwner, isChild⟩ := Prod.mk.inj same
  have contained := CodeGraph.mem_containments_iff.mp member
  obtain rfl := apart start (genuine.formed.hasNode_of_contains contained).1 owner there isOwner
  exact ⟨stop, contained, isChild⟩

/-- After a rewrite the bodies stand for their loops if they did before. -/
theorem Genuine.housed (housed : rewrite.before.graph.Housed) : rewrite.after.graph.Housed := by
  refine .of_rehouses (fun _ : Unit => housed)
    (fun _ => genuine.rehouses valid keeps housed.forest) genuine.formed_after
    (genuine.forest valid keeps.forests genuine.formed_after housed.forest)
    fun node member => ⟨(), ?_⟩
  obtain ⟨addition, applies, made⟩ := genuine.applies
  rw [made] at member
  exact exists_earlier valid applies keeps member

end Runs

end Rewrite

/-- **Any number of passes** with rules that keep loops leave the bodies standing for their
loops. -/
theorem CodeGraph.Housed.stage {graph : CodeGraph} {rules : List Rule} (housed : graph.Housed)
    (valid : ∀ rule ∈ rules, rule.Valid) (keeps : ∀ rule ∈ rules, rule.KeepsLoops)
    (passes : Nat) : (graph.stage rules passes).Housed := by
  refine housed.wellFormed.stage_induction valid (fun rewrite genuine housed => ?_) housed passes
  have listed := List.mem_of_getElem? genuine.listed
  exact genuine.housed (valid _ listed) (keeps _ listed) housed

/-! ### One match -/

/-- A match is one of a rule in a graph: found there, or found elsewhere and still an embedding. -/
def Match.OccursIn (found : Match) (rule : Rule) (graph : CodeGraph) : Prop :=
  ∃ bound mapped, rule.sourcePattern.Embeds graph bound ∧
    rule.sourcePattern.Maps graph bound mapped ∧
    found = rule.matchOf found.ruleIndex bound (mapped.map Search.matchedEdge)

namespace CodeGraph

variable {graph : CodeGraph} {rules : List Rule} {rule : Rule} {found : Match}

/-- The matches that are found in a graph are there. -/
theorem WellFormed.occursIn_of_mem (wellFormed : graph.WellFormed)
    (valid : rule.Valid) {index : Nat}
    (member : found ∈ rule.matchesAt index graph) : found.OccursIn rule graph := by
  obtain ⟨bound, mapped, embeds, maps, rfl⟩ := wellFormed.exists_embeds valid member
  exact ⟨bound, mapped, embeds, maps, rfl⟩

/-- **One match** of a rule that keeps loops leaves the bodies standing for their loops. -/
theorem Housed.applyMatch (housed : graph.Housed) (valid : rule.Valid) (keeps : rule.KeepsLoops)
    (occurs : found.OccursIn rule graph) : (graph.applyMatch rule found).2.Housed := by
  obtain ⟨bound, mapped, embeds, maps, made⟩ := occurs
  have size := embeds.accepted.length_eq
  have bindings : found.bindings = rule.bindings bound := by
    rw [made]
    rfl
  have ids : found.bindings.map (·.node) = bound.map (·.id) := by
    rw [bindings, Rule.map_node_bindings size]
  have fits : found.Fits rule :=
    ⟨bindings ▸ Rule.forall₂_bindings size, ids ▸ embeds.distinct⟩
  have live (binding : Binding) (member : binding ∈ found.bindings) :
      graph.hasNode binding.node := by
    have listed : binding.node ∈ bound.map (·.id) := ids ▸ List.mem_map_of_mem member
    obtain ⟨node, nodeMember, same⟩ := List.mem_map.mp listed
    obtain ⟨_, _, there, _⟩ := exists_left_of_forall₂ embeds.accepted.flip node nodeMember
    exact same ▸ hasNode_of_mem there
  obtain ⟨addition, applies⟩ := housed.wellFormed.exists_applies valid fits live
  let before : Pass := { graph }
  let rewrite : Rewrite := ⟨rule, found, before, before.afterMatch rule found addition⟩
  have genuine : rewrite.Genuine (List.replicate (found.ruleIndex + 1) rule) :=
    ⟨housed.wellFormed, by simp [rewrite], ⟨bound, mapped, embeds, maps, made⟩,
      fun _ _ => List.not_mem_nil, addition, applies, rfl⟩
  rw [applies.outcome]
  exact genuine.housed valid keeps housed

end CodeGraph

end Transcode
