import Transcode.Proofs.Reattachment
import Transcode.Proofs.Replanting

/-!
# Forests that are transformed in parts

The merge of parts that are forests is a forest: it contains what the parts contain, under names
that tell the nodes of all parts apart, and the edges between parts contain nothing.
-/

namespace Transcode

/-! ### Forests side by side -/

section Beside

variable {ι α : Type} {pairs : ι → List (α × α)} {indices : List ι}

/-- Pairs of many lists, each with the index of its list at both ends. -/
def pairsBeside (indices : List ι) (pairs : ι → List (α × α)) : List ((ι × α) × (ι × α)) :=
  indices.flatMap fun index => (pairs index).map (Prod.map (Prod.mk index) (Prod.mk index))

/-- Pairs of the parts stand side by side under the number of their part. -/
theorem mem_pairsBeside_iff {first second : ι × α} :
    (first, second) ∈ pairsBeside indices pairs ↔
      first.1 ∈ indices ∧ first.1 = second.1 ∧ (first.2, second.2) ∈ pairs first.1 := by
  obtain ⟨index, owner⟩ := first
  obtain ⟨other, child⟩ := second
  simp only [pairsBeside, List.mem_flatMap, List.mem_map, Prod.exists, Prod.map_apply,
    Prod.mk.injEq]
  constructor
  · rintro ⟨_, listed, _, _, member, ⟨rfl, rfl⟩, rfl, rfl⟩
    exact ⟨listed, rfl, member⟩
  · rintro ⟨listed, rfl, member⟩
    exact ⟨index, listed, owner, child, member, ⟨rfl, rfl⟩, rfl, rfl⟩

/-- Forests side by side are a forest. -/
theorem IsForest.beside (distinct : indices.Nodup)
    (forests : ∀ index ∈ indices, IsForest (pairs index)) :
    IsForest (pairsBeside indices pairs) where
  oneContainer := by
    have targets : (pairsBeside indices pairs).map Prod.snd =
        indices.flatMap fun index => ((pairs index).map Prod.snd).map (Prod.mk index) := by
      rw [pairsBeside, List.map_flatMap]
      refine List.flatMap_congr fun index _ => ?_
      rw [List.map_map, List.map_map]
      rfl
    rw [targets, List.nodup_flatMap]
    refine ⟨fun index listed => ?_, distinct.imp fun {first second} different item inFirst
      inSecond => ?_⟩
    · exact (forests index listed).oneContainer.map (Prod.mk_right_injective index)
    · obtain ⟨_, _, rfl⟩ := List.mem_map.mp inFirst
      obtain ⟨_, _, same⟩ := List.mem_map.mp inSecond
      exact different (Prod.mk.inj same).1.symm
  acyclic item cycle := by
    -- A chain does not leave the list that it starts in.
    have stays {last : ι × α} (chain : Relation.TransGen (fun owner child =>
        (owner, child) ∈ pairsBeside indices pairs) item last) :
        item.1 ∈ indices ∧ item.1 = last.1 ∧
          Relation.TransGen (fun owner child => (owner, child) ∈ pairs item.1) item.2 last.2 := by
      induction chain with
      | single member =>
          obtain ⟨listed, same, member⟩ := mem_pairsBeside_iff.mp member
          exact ⟨listed, same, .single member⟩
      | tail _ member ih =>
          obtain ⟨listed, same, chain⟩ := ih
          obtain ⟨_, next, member⟩ := mem_pairsBeside_iff.mp member
          exact ⟨listed, same.trans next, chain.tail (same ▸ member)⟩
    obtain ⟨listed, _, chain⟩ := stays cycle
    exact (forests item.1 listed).acyclic item.2 chain

end Beside

/-! ### Merging -/

namespace Merge

variable {merge : Merge}

/-- What a planned edge tells of containment. -/
def containment? (edge : PlannedEdge) : Option (String × String) :=
  edge.kind.containment? edge.source edge.target

/-- Numbering planned edges keeps their containments. -/
theorem filterMap_containment_edgesFrom (ids : IdSource) (seq : Nat) (planned : List PlannedEdge) :
    (edgesFrom ids seq planned).filterMap Edge.containment? =
      planned.filterMap containment? := by
  induction planned generalizing ids seq with
  | nil => rfl
  | cons edge rest ih =>
      rw [edgesFrom, List.filterMap_cons, List.filterMap_cons, ih]
      rfl

end Merge

namespace CodeGraph

variable {graph : CodeGraph} {part : Fin graph.partGroups.length → CodeGraph}

/-- What a node of a part is called in the merged graph. -/
def nameInReunion (graph : CodeGraph) (part : Fin graph.partGroups.length → CodeGraph)
    (item : Fin graph.partGroups.length × String) : String :=
  (Merge.renamed? (graph.reunion part).namedNodes item.1.val item.2).getD ""

/-- The merged graph contains what the parts contain, under the names of the merge. -/
theorem containments_reunion_subperm
    (noContainment : ∀ edge ∈ graph.between, edge.kind ≠ .contains) :
    (graph.reunion part).result.containments.Subperm
      ((pairsBeside (List.finRange graph.partGroups.length) fun index =>
        (part index).containments).map
          (Prod.map (graph.nameInReunion part) (graph.nameInReunion part))) := by
  let named := (graph.reunion part).namedNodes
  have crossing : (graph.between.filterMap ((graph.reunion part).plannedCross? named)).filterMap
      Merge.containment? = [] := by
    rw [List.filterMap_filterMap, List.filterMap_eq_nil_iff]
    intro edge member
    cases planned : (graph.reunion part).plannedCross? named edge with
    | none => rfl
    | some plan =>
        obtain ⟨_, _, _, _, rfl⟩ := Merge.plannedCross?_eq_some_iff.mp planned
        exact if_neg (noContainment edge member)
  have perm := ((graph.reunion part).plannedEdges_perm named).filterMap Merge.containment?
  rw [show (graph.reunion part).crossEdges = graph.between from rfl, List.filterMap_append,
    crossing, List.append_nil, ← Merge.filterMap_containment_edgesFrom
      (graph.reunion part).edgeIds 0] at perm
  refine perm.subperm.trans (List.Sublist.subperm ?_)
  rw [plannedInParts_reunion, List.filterMap_flatMap, pairsBeside, List.map_flatMap]
  refine List.Sublist.flatMap_right _ fun index _ => ?_
  rw [List.map_map, List.filterMap_filterMap, containments, List.map_filterMap]
  refine sublist_filterMap fun edge _ pair taken => ?_
  obtain ⟨plan, planned, contains⟩ := Option.bind_eq_some_iff.mp taken
  obtain ⟨source, target, sourceNamed, targetNamed, rfl⟩ := Merge.planned?_eq_some_iff.mp planned
  obtain ⟨kind, rfl, rfl⟩ := EdgeKind.containment?_eq_some_iff.mp contains
  have isContained : edge.containment? = some (edge.source, edge.target) :=
    EdgeKind.containment?_eq_some_iff.mpr ⟨kind, rfl, rfl⟩
  simp [isContained, nameInReunion, sourceNamed, targetNamed, named]

/-- A node of a part is given its name in the reunion. -/
theorem WellFormed.renamed?_reunion (wellFormed : graph.WellFormed)
    (formed : ∀ index, (part index).WellFormed) {index : Fin graph.partGroups.length} {id : String}
    (there : (part index).hasNode id) :
    Merge.renamed? (graph.reunion part).namedNodes index.val id =
      some (graph.nameInReunion part (index, id)) := by
  obtain ⟨new, renamed⟩ := (wellFormed.sound_reunion formed).exists_renamed?
    (parts_reunion_eq_some_iff.mpr ⟨index, rfl, rfl⟩) there
  rw [nameInReunion, renamed, Option.getD_some]

/-- What the nodes of the parts are called tells them apart. -/
theorem WellFormed.eq_of_nameInReunion (wellFormed : graph.WellFormed)
    (formed : ∀ index, (part index).WellFormed) {index other : Fin graph.partGroups.length}
    {first second : String} (firstThere : (part index).hasNode first)
    (secondThere : (part other).hasNode second)
    (same : graph.nameInReunion part (index, first) = graph.nameInReunion part (other, second)) :
    index = other ∧ first = second := by
  have named := wellFormed.renamed?_reunion formed firstThere
  rw [same] at named
  obtain ⟨samePart, sameId⟩ := (wellFormed.sound_reunion formed).eq_of_renamed? named
    (wellFormed.renamed?_reunion formed secondThere)
  exact ⟨Fin.ext samePart, sameId⟩

/-- **The merge** of parts that are forests is a forest. -/
theorem WellFormed.forest_reunion (wellFormed : graph.WellFormed)
    (noContainment : ∀ edge ∈ graph.between, edge.kind ≠ .contains)
    (formed : ∀ index, (part index).WellFormed) (forests : ∀ index, (part index).Forest) :
    (graph.reunion part).result.Forest := by
  have sound := wellFormed.sound_reunion formed
  let known (item : Fin graph.partGroups.length × String) : Prop := (part item.1).hasNode item.2
  have ends : ∀ pair ∈ pairsBeside (List.finRange graph.partGroups.length)
      (fun index => (part index).containments), known pair.1 ∧ known pair.2 := by
    intro pair member
    obtain ⟨_, same, contained⟩ := mem_pairsBeside_iff.mp member
    have both := (formed _).hasNode_of_mem_containments _ contained
    refine ⟨both.1, ?_⟩
    change (part pair.2.1).hasNode pair.2.2
    rw [← same]
    exact both.2
  have apart : ∀ first, known first → ∀ second, known second →
      graph.nameInReunion part first = graph.nameInReunion part second → first = second := by
    intro first firstThere second secondThere same
    obtain ⟨samePart, sameId⟩ := wellFormed.eq_of_nameInReunion formed firstThere secondThere same
    exact Prod.ext samePart sameId
  have beside := IsForest.beside (List.nodup_finRange graph.partGroups.length) fun index _ =>
    (formed index).forest_iff.mp (forests index)
  rw [sound.formed.forest_iff]
  exact beside.of_subperm ends apart (containments_reunion_subperm noContainment)

/-! ### Transforming -/

variable {rules : List Rule}

theorem Forest.partAt (forest : graph.Forest) (index : Fin graph.partGroups.length) :
    (graph.partAt index).Forest :=
  forest.of_subset fun _ member => (mem_edges_partAt.mp member).1

/-- **Transforming.** With valid rules that keep forests and stay within declarations, a built graph
that is a forest can be transformed, as a whole and in parts, and each time it becomes a forest. -/
theorem Built.exists_forest (built : graph.Built) (forest : graph.Forest)
    (valid : ∀ rule ∈ rules, rule.Valid) (keeps : ∀ rule ∈ rules, rule.KeepsForests)
    (separate : rules.any (·.crossDeclaration) = false) (mode : RunMode) :
    (∃ result, transform graph rules mode = .ok result ∧
      result.graph.WellFormed ∧ result.graph.Forest) ∧
    ∃ result, transformApart graph rules mode = .ok result ∧
      result.graph.WellFormed ∧ result.graph.Forest := by
  obtain ⟨⟨whole, ran, last⟩, apart, apartRan, apartLast⟩ :=
    exists_transform_stage valid built.wellFormed separate mode
  have partFormed := built.wellFormed.partAt
  refine ⟨⟨whole, ran, built.wellFormed.transform ran, ?_⟩,
    apart, apartRan, built.wellFormed.transformApart apartRan, ?_⟩
  · rw [last]
    exact forest.stage built.wellFormed valid keeps mode.passes
  · rw [apartLast]
    exact built.wellFormed.forest_reunion built.noContainment
      (fun index => (partFormed index).stage valid mode.passes)
      fun index => (forest.partAt index).stage (partFormed index) valid keeps mode.passes

end CodeGraph

end Transcode
