import Transcode.Proofs.Forest
import Transcode.Proofs.NormalForm
import Transcode.Proofs.Relations

/-!
# Forests under rewriting

A rule keeps forests if it puts a node of its own in the place of each node that it replaces, and
makes no containment but those that it drops (`Rule.KeepsForests`). After a rewrite by such a rule
the graph contains what is in the place of what was contained, some of it perhaps left out. So the
rewrite makes a forest of one (`Rewrite.Genuine.forest`), and so do any number of passes
(`CodeGraph.Forest.stage`).
-/

namespace Transcode

/-! ### Rules -/

/-- What an edge of a pattern tells of containment. -/
def PatternEdge.containment? (edge : PatternEdge) : Option (String × String) :=
  edge.kind.containment? edge.source edge.target

namespace Rule

/-- The name of what is in the place of a node of the source pattern: its own name if the node is
not replaced. -/
def standIn (rule : Rule) (name : String) : String :=
  if rule.sourcePattern.isReplaced name then
    (rule.targetPattern.boundary.get? name).getD (rule.targetPattern.rootName?.getD "")
  else name

/-- The edges of the source pattern that go away with the nodes that are replaced. -/
def droppedEdges (rule : Rule) : List PatternEdge :=
  rule.sourcePattern.edges.filter fun edge =>
    rule.sourcePattern.isReplaced edge.source || rule.sourcePattern.isReplaced edge.target

/-- A rule that puts a node of its own in the place of each node that it replaces, and makes no
containment but those that it has dropped, between what is in the place of their ends. -/
structure KeepsForests (rule : Rule) : Prop where
  apart : ((rule.sourcePattern.names.filter rule.sourcePattern.isReplaced).map rule.standIn).Nodup
  linked : (rule.targetPattern.edges.filterMap PatternEdge.containment?).Subperm
    ((rule.droppedEdges.filterMap PatternEdge.containment?).map
      (Prod.map rule.standIn rule.standIn))

instance (rule : Rule) : Decidable rule.KeepsForests :=
  decidable_of_iff (_ ∧ _)
    ⟨fun ⟨apart, linked⟩ => ⟨apart, linked⟩, fun keeps => ⟨keeps.apart, keeps.linked⟩⟩

end Rule

theorem Builtin.keepsForests_of_mem : ∀ rule ∈ catalog.automated, rule.KeepsForests := by
  rw [automated_eq]
  decide

/-! ### What is in the place of a node -/

/-- A name that is bound is one of the pattern. -/
theorem Match.Fits.known_of_node? {rule : Rule} {found : Match} (fits : found.Fits rule)
    {name id : String} (bound : found.node? name = some id) : name ∈ rule.sourcePattern.names := by
  obtain ⟨binding, first, _⟩ := Option.map_eq_some_iff.mp bound
  have named : binding.name = name := by simpa using List.find?_some first
  rw [← fits.map_name, ← named]
  exact List.mem_map_of_mem (List.mem_of_find?_eq_some first)

/-- What is bound to a name is replaced if the pattern says so of the name. -/
theorem Match.Fits.mem_replaced_iff {rule : Rule} {found : Match} (fits : found.Fits rule)
    (valid : rule.Valid) {name id : String} (bound : found.node? name = some id) :
    id ∈ found.replaced.map (·.node) ↔ rule.sourcePattern.isReplaced name := by
  have known := fits.known_of_node? bound
  constructor
  · intro listed
    by_contra context
    obtain ⟨binding, _, isBound, stays⟩ :=
      fits.context_not_replaced valid known (Bool.eq_false_iff.mpr context)
    obtain rfl := Option.some.inj (isBound.symm.trans bound)
    exact stays listed
  · intro replaced
    obtain ⟨binding, member, rfl, isBound⟩ := fits.exists_binding known
    obtain rfl := Option.some.inj (isBound.symm.trans bound)
    exact List.mem_map_of_mem (List.mem_filter.mpr ⟨member, by
      rw [fits.replaced_eq valid member, replaced]⟩)

/-- Names of the same thing are the same. -/
theorem eq_of_lookup_zip {names ids : List String} (size : names.length = ids.length)
    (distinct : ids.Nodup) {first second id : String}
    (isFirst : (names.zip ids).lookup first = some id)
    (isSecond : (names.zip ids).lookup second = some id) : first = second := by
  have ofIds : ((names.zip ids).map Prod.snd).Nodup := by
    rwa [List.map_snd_zip (Nat.le_of_eq size.symm)]
  exact congrArg Prod.fst (List.inj_on_of_nodup_map ofIds
    (CodeGraph.mem_of_lookup_eq_some isFirst) (CodeGraph.mem_of_lookup_eq_some isSecond) rfl)

namespace CodeGraph.Applies

variable {graph : CodeGraph} {rule : Rule} {found : Match} {addition : Addition}
  (applies : graph.Applies rule found addition)

include applies

theorem length_names : rule.targetPattern.names.length = (addition.nodes.map (·.id)).length := by
  rw [TargetPattern.names, List.length_map, List.length_map, applies.added.filled.length_eq]

/-- What stays has the id of no node of the fragment. -/
theorem not_mem_nodes {id : String} (there : graph.hasNode id)
    (stays : id ∉ found.replaced.map (·.node)) : id ∉ addition.nodes.map (·.id) := by
  have ids := applies.formed.nodeIds
  rw [Addition.result, List.map_append, List.nodup_append] at ids
  obtain ⟨node, member, rfl⟩ := List.mem_map.mp (hasNode_iff.mp there)
  intro isNew
  exact ids.2.2 node.id (List.mem_map_of_mem (List.mem_filter.mpr
    ⟨member, decide_eq_true stays⟩)) node.id isNew rfl

variable (valid : rule.Valid)

include valid

/-- The node in the place of a replaced node is one of the fragment, under the name of its
stand-in. -/
theorem lookup_standIn {binding : Binding} (member : binding ∈ found.replaced) :
    (addition.fragment rule).lookup (rule.standIn binding.name) =
      some (addition.inPlace rule found binding.node) := by
  obtain ⟨listed, replaced⟩ := List.mem_filter.mp member
  rw [applies.fits.replaced_eq valid listed] at replaced
  have place : addition.inPlace rule found binding.node =
      ((rule.targetPattern.boundary.get? binding.name).bind fun name =>
        (addition.fragment rule).lookup name).getD addition.root := by
    obtain ⟨new, lookedUp⟩ := Option.isSome_iff_exists.mp
      (lookup_replacements_isSome_iff.mpr (List.mem_map_of_mem member))
    rw [Addition.inPlace, lookedUp, Option.getD_some]
    obtain ⟨other, otherMember, same⟩ := List.mem_map.mp (mem_of_lookup_eq_some lookedUp)
    obtain ⟨node, rfl⟩ := Prod.mk.inj same
    rw [List.inj_on_of_nodup_map applies.distinct otherMember member node]
  rw [place, Rule.standIn, if_pos replaced]
  cases given : rule.targetPattern.boundary.get? binding.name with
  | none =>
      obtain ⟨name, isRoot, rooted⟩ := Option.bind_eq_some_iff.mp applies.added.root
      rw [isRoot]
      exact rooted
  | some name =>
      have known := (valid.boundary _ (Dict.mem_entries_of_get? given)).2
      obtain ⟨id, _, lookedUp⟩ := exists_lookup_zip applies.length_names known
      have inFragment : (addition.fragment rule).lookup name = some id := lookedUp
      rw [Option.getD_some, Option.bind_some, inFragment, Option.getD_some]

/-- The node in the place of a bound node is the one that the name of its stand-in is for. -/
theorem endOf?_standIn {name id : String} (bound : found.node? name = some id) :
    Rule.endOf? (addition.fragment rule) found (rule.standIn name) =
      some (addition.inPlace rule found id) := by
  have known := applies.fits.known_of_node? bound
  by_cases replaced : rule.sourcePattern.isReplaced name
  · obtain ⟨binding, member, rfl, isBound⟩ := applies.fits.exists_binding known
    obtain rfl : binding.node = id := Option.some.inj (isBound.symm.trans bound)
    have listed : binding ∈ found.replaced :=
      List.mem_filter.mpr ⟨member, (applies.fits.replaced_eq valid member).trans replaced⟩
    rw [Rule.endOf?, applies.lookup_standIn valid listed]
    rfl
  · obtain ⟨binding, _, isBound, stays⟩ :=
      applies.fits.context_not_replaced valid known (Bool.eq_false_iff.mpr replaced)
    obtain rfl : binding.node = id := Option.some.inj (isBound.symm.trans bound)
    have apart : (addition.fragment rule).lookup name = none := by
      rw [List.lookup_eq_none_iff]
      intro entry listed
      have inNames := (List.of_mem_zip listed).1
      obtain ⟨template, templateMember, same⟩ := List.mem_map.mp inNames
      have other := (valid.templates template templateMember).1
      rw [same] at other
      exact bne_iff_ne.mpr fun isName => other (isName ▸ known)
    rw [Rule.standIn, if_neg replaced, Rule.endOf?, apart, Addition.inPlace_of_not_mem stays]
    exact bound

/-- Different nodes have different nodes in their places. -/
theorem inPlace_apart (keeps : rule.KeepsForests) :
    ∀ first, graph.hasNode first → ∀ second, graph.hasNode second →
      addition.inPlace rule found first = addition.inPlace rule found second → first = second := by
  have standIns {binding other : Binding} (member : binding ∈ found.replaced)
      (otherMember : other ∈ found.replaced) (same : addition.inPlace rule found binding.node =
        addition.inPlace rule found other.node) : binding = other := by
    have named {binding : Binding} (member : binding ∈ found.replaced) :
        binding.name ∈ rule.sourcePattern.names.filter rule.sourcePattern.isReplaced := by
      obtain ⟨listed, replaced⟩ := List.mem_filter.mp member
      refine List.mem_filter.mpr ⟨?_, ?_⟩
      · rw [← applies.fits.map_name]
        exact List.mem_map_of_mem listed
      · rw [← applies.fits.replaced_eq valid listed, replaced]
    have looked := applies.lookup_standIn valid member
    rw [same] at looked
    have standIn := eq_of_lookup_zip applies.length_names applies.nodup_nodes looked
      (applies.lookup_standIn valid otherMember)
    have name := List.inj_on_of_nodup_map keeps.apart (named member) (named otherMember) standIn
    have names : (found.bindings.map (·.name)).Nodup := applies.fits.map_name ▸ valid.names
    exact List.inj_on_of_nodup_map names (List.mem_filter.mp member).1
      (List.mem_filter.mp otherMember).1 name
  intro first firstThere second secondThere same
  by_cases firstListed : first ∈ found.replaced.map (·.node) <;>
    by_cases secondListed : second ∈ found.replaced.map (·.node)
  · obtain ⟨binding, member, rfl⟩ := List.mem_map.mp firstListed
    obtain ⟨other, otherMember, rfl⟩ := List.mem_map.mp secondListed
    rw [standIns member otherMember same]
  · rw [Addition.inPlace_of_not_mem secondListed] at same
    exact absurd (same ▸ applies.added.inPlace_mem firstListed)
      (applies.not_mem_nodes secondThere secondListed)
  · rw [Addition.inPlace_of_not_mem firstListed] at same
    exact absurd (same ▸ applies.added.inPlace_mem secondListed)
      (applies.not_mem_nodes firstThere firstListed)
  · rwa [Addition.inPlace_of_not_mem firstListed, Addition.inPlace_of_not_mem secondListed] at same

end CodeGraph.Applies

/-! ### One rewrite -/

namespace Rewrite

variable {rules : List Rule} {rewrite : Rewrite}

/-- The edges of a match go away with the nodes that are replaced. -/
def gone (rewrite : Rewrite) (edge : Edge) : Bool :=
  edge.touches rewrite.replaced && rewrite.found.edges.any (·.edge = edge.id)

/-- The node that a name of the fragment, or of the pattern if it stays, is for. -/
def idFor (rewrite : Rewrite) (addition : Addition) (name : String) : String :=
  (Rule.endOf? (addition.fragment rewrite.rule) rewrite.found name).getD ""

section Genuine

variable {addition : Addition}
  (applies : rewrite.before.graph.Applies rewrite.rule rewrite.found addition)

include applies

/-- What stays of the edges contains what is in the place of what it has contained. -/
theorem staying_sublist :
    ((rewrite.before.graph.edges.filterMap
      (·.rewritten? rewrite.found (addition.replacements rewrite.rule rewrite.found))).filterMap
        Edge.containment?).Sublist
      (((rewrite.before.graph.edges.filter fun edge => !rewrite.gone edge).filterMap
        Edge.containment?).map (Prod.map rewrite.inPlace rewrite.inPlace)) := by
  rw [List.filterMap_filterMap, List.filterMap_filter, List.map_filterMap, inPlace_eq applies]
  refine sublist_filterMap fun edge _ pair taken => ?_
  obtain ⟨after, rewritten, contains⟩ := Option.bind_eq_some_iff.mp taken
  obtain ⟨kind, source, target⟩ := EdgeKind.containment?_eq_some_iff.mp contains
  rw [Addition.rewritten?_eq] at rewritten
  split at rewritten
  · cases rewritten
  · rename_i stays
    cases rewritten
    have staying : (!rewrite.gone edge) = true := by
      rw [Bool.and_eq_true, Bool.or_eq_true] at stays
      rw [Bool.not_eq_true', gone, Bool.and_eq_false_imp]
      intro touches
      exact Bool.eq_false_iff.mpr fun matched => stays ⟨touches, .inl matched⟩
    rw [if_pos staying, Edge.containment?, Edge.moved_kind.symm.trans kind]
    exact congrArg some (Prod.ext source target)

/-- The new edges contain what the target pattern says. -/
theorem containments_links : addition.links.filterMap Edge.containment? =
    (rewrite.rule.targetPattern.edges.filterMap PatternEdge.containment?).map
      (Prod.map (rewrite.idFor addition) (rewrite.idFor addition)) := by
  have each : List.Forall₂ (fun (link : PatternEdge) (edge : Edge) =>
      link.containment?.map (Prod.map (rewrite.idFor addition) (rewrite.idFor addition)) =
        edge.containment?.map id)
      rewrite.rule.targetPattern.edges addition.links :=
    applies.added.linked.imp fun link edge links => by
      simp [PatternEdge.containment?, Edge.containment?, EdgeKind.containment?, links.kind, idFor,
        links.source, links.target, apply_ite]
  rw [map_filterMap_eq each, List.map_id]

variable (genuine : rewrite.Genuine rules) (valid : rewrite.rule.Valid)

include genuine valid

/-- The edges that stand for the dropped edges of the source pattern go away. What is in the place
of their ends are the nodes that stand in for those. -/
theorem exists_dropped : ∃ dropped : List Edge,
    dropped.Subperm (rewrite.before.graph.edges.filter rewrite.gone) ∧
    ((rewrite.rule.droppedEdges.filterMap PatternEdge.containment?).map
      (Prod.map rewrite.rule.standIn rewrite.rule.standIn)).map
        (Prod.map (rewrite.idFor addition) (rewrite.idFor addition)) =
      (dropped.filterMap Edge.containment?).map (Prod.map rewrite.inPlace rewrite.inPlace) := by
  obtain ⟨bound, mapped, embeds, maps, made⟩ := genuine.embedding
  have node (name : String) : rewrite.found.node? name =
      (rewrite.rule.sourcePattern.lookup bound name).map (·.id) := by
    rw [made]
    exact Rule.node?_matchOf embeds.accepted.length_eq ..
  refine ⟨mapped.filter (·.touches rewrite.replaced), ?_, ?_⟩
  · refine List.Nodup.subperm ((maps.distinct.of_map _).filter _) fun edge member => ?_
    obtain ⟨listed, touches⟩ := List.mem_filter.mp member
    obtain ⟨asked, _, stands⟩ := exists_left_of_forall₂ maps.stand edge listed
    refine List.mem_filter.mpr ⟨stands.member, ?_⟩
    rw [gone, touches, Bool.true_and, made, List.any_eq_true]
    exact ⟨_, List.mem_map_of_mem listed, decide_eq_true rfl⟩
  · rw [Rule.droppedEdges, List.filterMap_filter, List.filterMap_filter, List.map_map]
    refine map_filterMap_eq (maps.stand.imp fun asked there stands => ?_)
    have source := (node _).trans stands.source
    have target := (node _).trans stands.target
    have touches : there.touches rewrite.replaced =
        (rewrite.rule.sourcePattern.isReplaced asked.source ||
          rewrite.rule.sourcePattern.isReplaced asked.target) := by
      rw [Bool.eq_iff_iff, Edge.touches_iff, Bool.or_eq_true]
      exact or_congr (applies.fits.mem_replaced_iff valid source)
        (applies.fits.mem_replaced_iff valid target)
    have place {name id : String} (bound : rewrite.found.node? name = some id) :
        rewrite.idFor addition (rewrite.rule.standIn name) = rewrite.inPlace id := by
      rw [inPlace_eq applies]
      exact congrArg (·.getD "") (applies.endOf?_standIn valid bound)
    rw [touches, Edge.containment?, stands.kind, PatternEdge.containment?, EdgeKind.containment?,
      EdgeKind.containment?]
    split
    · split
      · simp [place source, place target]
      · rfl
    · rfl

/-- The containments that a rewrite makes are those that have gone, between what is in the place of
their ends. -/
theorem made_subperm (keeps : rewrite.rule.KeepsForests) :
    (addition.links.filterMap Edge.containment?).Subperm
      (((rewrite.before.graph.edges.filter rewrite.gone).filterMap Edge.containment?).map
        (Prod.map rewrite.inPlace rewrite.inPlace)) := by
  obtain ⟨dropped, going, same⟩ := exists_dropped applies genuine valid
  rw [containments_links applies]
  refine (subperm_map _ keeps.linked).trans ?_
  rw [same]
  exact subperm_map _ (subperm_filterMap _ going)

end Genuine

/-- **One rewrite** contains nothing but what is in the place of what was contained, no more often
than it was. -/
theorem Genuine.containments_subperm (genuine : rewrite.Genuine rules)
    (valid : rewrite.rule.Valid) (keeps : rewrite.rule.KeepsForests) :
    rewrite.after.graph.containments.Subperm
      (rewrite.before.graph.containments.map (Prod.map rewrite.inPlace rewrite.inPlace)) := by
  obtain ⟨addition, applies, made⟩ := genuine.applies
  have parts := List.filter_append_perm rewrite.gone rewrite.before.graph.edges
  have after : rewrite.after.graph.containments =
      (rewrite.before.graph.edges.filterMap (·.rewritten? rewrite.found
        (addition.replacements rewrite.rule rewrite.found))).filterMap Edge.containment? ++
          addition.links.filterMap Edge.containment? := by
    rw [made, CodeGraph.containments]
    exact List.filterMap_append
  rw [after]
  have both := (staying_sublist applies).subperm.append (made_subperm applies genuine valid keeps)
  rw [← List.map_append] at both
  have all := (List.perm_append_comm.trans parts).filterMap Edge.containment?
  rw [List.filterMap_append] at all
  exact both.trans (all.map _).subperm

/-- A genuine rewrite leaves a well-formed graph. -/
theorem Genuine.formed_after (genuine : rewrite.Genuine rules) :
    rewrite.after.graph.WellFormed := by
  obtain ⟨addition, applies, made⟩ := genuine.applies
  rw [made]
  exact applies.formed

/-- A rewrite by a rule that keeps forests makes a forest of one. -/
theorem Genuine.forest (genuine : rewrite.Genuine rules) (valid : rewrite.rule.Valid)
    (keeps : rewrite.rule.KeepsForests) (afterFormed : rewrite.after.graph.WellFormed)
    (forest : rewrite.before.graph.Forest) : rewrite.after.graph.Forest := by
  obtain ⟨addition, applies, _⟩ := genuine.applies
  have fewer := genuine.containments_subperm valid keeps
  rw [inPlace_eq applies] at fewer
  rw [afterFormed.forest_iff]
  exact (genuine.formed.forest_iff.mp forest).of_subperm
    genuine.formed.hasNode_of_mem_containments (applies.inPlace_apart valid keeps) fewer

end Rewrite

/-- **Any number of passes** with rules that keep forests make a forest of one. -/
theorem CodeGraph.Forest.stage {graph : CodeGraph} {rules : List Rule} (forest : graph.Forest)
    (wellFormed : graph.WellFormed) (valid : ∀ rule ∈ rules, rule.Valid)
    (keeps : ∀ rule ∈ rules, rule.KeepsForests) (passes : Nat) :
    (graph.stage rules passes).Forest := by
  refine wellFormed.stage_induction valid (fun rewrite genuine forest => ?_) forest passes
  have listed := List.mem_of_getElem? genuine.listed
  exact genuine.forest (valid _ listed) (keeps _ listed) genuine.formed_after forest

end Transcode
