import Mathlib.Algebra.Order.Floor.Semifield
import Mathlib.Data.Rat.Floor
import Transcode.Proofs.Declarations
import Transcode.Proofs.Growth
import Transcode.Proofs.Reattachment
import Transcode.Stats

/-!
# Statistics of a run

The statistics of a graph are read off its history, in which nodes are listed that later rewrites
have replaced. They tell nevertheless what the run has made (`Stats.Tells`): an entry counts if its
node is there, and then it is the one entry of this node. This holds along the passes over a whole
graph (`CodeGraph.Built.records_stage`) and under the names that a merge gives to what the parts
have made (`CodeGraph.Built.records_reunion`).
-/

namespace Transcode

/-! ### Lists and means -/

namespace Stats

/-- A name that comes last is added if it is new. -/
theorem distinct_append_singleton (names : List String) (last : String) :
    distinct (names ++ [last]) =
      if last ∈ distinct names then distinct names else distinct names ++ [last] := by
  rw [distinct, List.foldl_append, List.foldl_cons, List.foldl_nil]
  simp [distinct]

@[simp] theorem mem_distinct {names : List String} {name : String} :
    name ∈ distinct names ↔ name ∈ names := by
  induction names using List.reverseRecOn with
  | nil => rfl
  | append_singleton names last ih =>
      rw [distinct_append_singleton, List.mem_append, List.mem_singleton]
      split
      · rename_i known
        rw [ih, iff_self_or]
        rintro rfl
        exact ih.mp known
      · rw [List.mem_append, List.mem_singleton, ih]

/-- No name is kept twice. -/
theorem nodup_distinct (names : List String) : (distinct names).Nodup := by
  induction names using List.reverseRecOn with
  | nil => exact List.nodup_nil
  | append_singleton names last ih =>
      rw [distinct_append_singleton]
      split
      · exact ih
      · rename_i new
        refine List.nodup_append.mpr ⟨ih, List.nodup_singleton _,
          fun name old other isLast same => ?_⟩
        exact new (List.mem_singleton.mp isLast ▸ same ▸ old)

/-- Different names are all kept. -/
theorem distinct_of_nodup {names : List String} (nodup : names.Nodup) : distinct names = names := by
  induction names using List.reverseRecOn with
  | nil => rfl
  | append_singleton names last ih =>
      obtain ⟨distinctNames, _, apart⟩ := List.nodup_append.mp nodup
      have new : last ∉ names := fun old => apart last old last (List.mem_singleton_self _) rfl
      rw [distinct_append_singleton, ih distinctNames, if_neg new]

/-- Names without repetitions are in the order of their first occurrences. -/
theorem pairwise_distinct (names : List String) :
    (distinct names).Pairwise fun first second => names.idxOf first < names.idxOf second := by
  induction names using List.reverseRecOn with
  | nil => exact .nil
  | append_singleton names last ih =>
      have kept : (distinct names).Pairwise fun first second =>
          (names ++ [last]).idxOf first < (names ++ [last]).idxOf second := by
        refine ih.imp_of_mem fun firstMember secondMember before => ?_
        rwa [List.idxOf_append_of_mem (mem_distinct.mp firstMember),
          List.idxOf_append_of_mem (mem_distinct.mp secondMember)]
      rw [distinct_append_singleton]
      split
      · exact kept
      · rename_i new
        rw [mem_distinct] at new
        refine List.pairwise_append.mpr ⟨kept, List.pairwise_singleton _ _, ?_⟩
        intro name old other isLast
        obtain rfl := List.mem_singleton.mp isLast
        rw [List.idxOf_append_of_mem (mem_distinct.mp old), List.idxOf_append_of_notMem new]
        have := List.idxOf_lt_length_of_mem (mem_distinct.mp old)
        omega

/-- The mean of numbers. -/
def mean (numbers : List Nat) : ℚ := numbers.sum / numbers.length

/-- A mean is rounded to the nearest number, a half up. -/
theorem roundedMean_eq {numbers : List Nat} (some : numbers ≠ []) :
    roundedMean numbers = ⌊mean numbers + 1 / 2⌋₊ := by
  have positive : (numbers.length : ℚ) ≠ 0 :=
    Nat.cast_ne_zero.mpr (List.length_pos_iff.mpr some).ne'
  have doubled : mean numbers + 1 / 2 =
      ((2 * numbers.sum + numbers.length : Nat) : ℚ) / ((2 * numbers.length : Nat) : ℚ) := by
    rw [mean]
    push_cast
    field_simp
  rw [roundedMean, if_neg (by simpa using some), doubled, Nat.floor_div_eq_div, List.sum]

/-- The mean of percentages is at most a hundred. -/
theorem roundedMean_le_hundred {numbers : List Nat} (atMost : ∀ number ∈ numbers, number ≤ 100) :
    roundedMean numbers ≤ 100 := by
  unfold roundedMean
  split
  · exact Nat.le_refl _
  · rename_i some
    have positive : 0 < numbers.length := List.length_pos_iff.mpr (by simpa using some)
    have total : numbers.foldr (· + ·) 0 ≤ numbers.length * 100 :=
      List.sum_le_card_nsmul numbers 100 atMost
    refine Nat.le_of_lt_succ ((Nat.div_lt_iff_lt_mul (by omega)).mpr ?_)
    omega

end Stats

/-! ### What a run has done -/

/-- What a run does to a graph: the rules that it applies, one for each rewrite, and what it makes
that is there in the end, under the ids that it has then. -/
structure Chronicle where
  applied : List Rule
  created : List Creation

namespace CodeGraph

/-- The chronicle of a number of passes. -/
def chronicle (graph : CodeGraph) (rules : List Rule) (passes : Nat) : Chronicle where
  applied := (graph.rewritesOver rules passes).map (·.rule)
  created := (graph.creationsOver rules passes).filter fun creation =>
    (graph.stage rules passes).hasNode creation.node

/-- The chronicle of a number of passes over a graph that is split and merged again, or over the
whole graph if a rule can span several declarations. -/
def chronicleApart (graph : CodeGraph) (rules : List Rule) (passes : Nat) : Chronicle :=
  if rules.any (·.crossDeclaration) then graph.chronicle rules passes
  else
    let named := (graph.mergeOf (graph.parts.map (·.stage rules passes))).namedNodes
    { applied := graph.parts.flatMap fun part => (part.rewritesOver rules passes).map (·.rule)
      created := graph.parts.zipIdx.flatMap fun (part, index) =>
        (part.creationsOver rules passes).filterMap fun creation =>
          (Merge.renamed? named index creation.node).map (⟨·, creation.rule⟩) }

/-- The nodes of a graph that are not nodes of an earlier one. -/
def nodesSince (before after : CodeGraph) : List Node :=
  after.nodes.filter fun node => !before.hasNode node.id

/-- A graph has recorded what a run has made of a graph without history. -/
structure Records (before : CodeGraph) (run : Chronicle) (after : CodeGraph) : Prop where
  live : Stats.liveEntries after = run.created.map Creation.entry
  distinct : (run.created.map (·.node)).Nodup
  created : ∀ id, id ∈ run.created.map (·.node) ↔ after.hasNode id ∧ ¬before.hasNode id
  kept : ∀ node ∈ after.nodes, before.hasNode node.id → node.data ∈ before.nodes.map Node.data
  rules : ∀ id, id ∈ after.history.map (·.rule) ↔ ∃ rule ∈ run.applied, rule.id = id
  known : ∀ creation ∈ run.created, creation.rule ∈ run.applied

end CodeGraph

/-- Statistics tell what a run has made of a graph. The nodes since are those that it has created,
each by one rule; its rules are listed in the order of their first entries; and the confidence is
the mean of that of the rules over the nodes since. -/
structure Stats.Tells (stats : Stats) (before after : CodeGraph) (run : Chronicle) : Prop where
  total : stats.totalNodes = after.nodes.length
  transformed : stats.transformedNodes = (before.nodesSince after).length
  bounded : stats.transformedNodes ≤ stats.totalNodes
  kept : ∀ node ∈ after.nodes, before.hasNode node.id → node.data ∈ before.nodes.map Node.data
  created : (run.created.map (·.node)).Perm ((before.nodesSince after).map (·.id))
  nodupRules : stats.rulesApplied.Nodup
  rules : ∀ id, id ∈ stats.rulesApplied ↔ ∃ rule ∈ run.applied, rule.id = id
  inOrder : stats.rulesApplied.Pairwise fun first second =>
    (after.history.map (·.rule)).idxOf first < (after.history.map (·.rule)).idxOf second
  confidence : stats.confidence =
    if run.created = [] then 100
    else ⌊mean (run.created.map (·.rule.confidence)) + 1 / 2⌋₊
  atMost : stats.confidence ≤ 100

namespace CodeGraph

/-! ### Reading the history -/

/-- Statistics of a graph that has recorded a run by rules of a catalog. -/
theorem Records.tells {before after : CodeGraph} {run : Chronicle}
    (records : before.Records run after)
    (wellFormed : after.WellFormed) {catalog : Catalog}
    (listed : ∀ rule ∈ run.applied, rule ∈ catalog.rules) :
    (Stats.ofGraph catalog after).Tells before after run := by
  have nodes : (Stats.liveEntries after).map (·.node) = run.created.map (·.node) := by
    rw [records.live, List.map_map]
    rfl
  have confidences : (Stats.liveEntries after).filterMap
      (fun entry => (catalog.rule? entry.rule).map (·.confidence)) =
        run.created.map (·.rule.confidence) := by
    rw [records.live, List.filterMap_map, ← List.filterMap_eq_map]
    refine List.filterMap_congr fun creation member => ?_
    have found := catalog.rule?_of_mem (listed _ (records.known creation member))
    simp [Creation.entry, found]
  have since : ((before.nodesSince after).map (·.id)).Nodup :=
    wellFormed.nodeIds.sublist (List.filter_sublist.map _)
  have perm : (run.created.map (·.node)).Perm ((before.nodesSince after).map (·.id)) := by
    refine (List.perm_ext_iff_of_nodup records.distinct since).mpr fun id => ?_
    rw [records.created, hasNode_iff]
    simp only [nodesSince, List.mem_map, List.mem_filter, Bool.not_eq_true']
    grind
  have transformed : (Stats.ofGraph catalog after).transformedNodes =
      (before.nodesSince after).length := by
    change (Stats.distinct ((Stats.liveEntries after).map (·.node))).length = _
    rw [nodes, Stats.distinct_of_nodup records.distinct, perm.length_eq, List.length_map]
  have hundred : ∀ number ∈ run.created.map (·.rule.confidence), number ≤ 100 := by
    intro number member
    obtain ⟨creation, isCreated, rfl⟩ := List.mem_map.mp member
    exact catalog.confidence_le_of_mem (listed _ (records.known creation isCreated))
  refine ⟨rfl, transformed, ?_, records.kept, perm, Stats.nodup_distinct _, fun id => ?_,
    Stats.pairwise_distinct _, ?_, ?_⟩
  · rw [transformed]
    exact List.length_filter_le _ _
  · exact Stats.mem_distinct.trans (records.rules id)
  · change Stats.roundedMean ((Stats.liveEntries after).filterMap _) = _
    rw [confidences]
    split
    · rename_i none
      rw [none]
      rfl
    · rename_i some
      exact Stats.roundedMean_eq (by simpa using some)
  · change Stats.roundedMean ((Stats.liveEntries after).filterMap _) ≤ _
    rw [confidences]
    exact Stats.roundedMean_le_hundred hundred

/-! ### Runs over a whole graph -/

variable {graph : CodeGraph} {rules : List Rule}

/-- The rules of rewrites are those of the entries for what they make. -/
theorem exists_rule_of_entries_iff {log : List Rewrite} (made : ∀ rewrite ∈ log, rewrite.made ≠ [])
    {id : String} :
    (∃ creation ∈ log.flatMap Rewrite.creations, creation.rule.id = id) ↔
      ∃ rule ∈ log.map (·.rule), rule.id = id := by
  constructor
  · rintro ⟨creation, member, rfl⟩
    obtain ⟨rewrite, listed, isMade⟩ := List.mem_flatMap.mp member
    obtain ⟨_, _, rfl⟩ := List.mem_map.mp isMade
    exact ⟨_, List.mem_map_of_mem listed, rfl⟩
  · rintro ⟨_, member, rfl⟩
    obtain ⟨rewrite, listed, rfl⟩ := List.mem_map.mp member
    obtain ⟨node, isMade⟩ := List.exists_mem_of_ne_nil _ (made rewrite listed)
    exact ⟨⟨node, rewrite.rule⟩,
      List.mem_flatMap.mpr ⟨rewrite, listed, List.mem_map_of_mem isMade⟩, rfl⟩

/-- What was created was so by a rule that was applied. -/
theorem rule_mem_of_mem_creationsOver {passes : Nat} {creation : Creation}
    (member : creation ∈ graph.creationsOver rules passes) :
    creation.rule ∈ (graph.rewritesOver rules passes).map (·.rule) := by
  obtain ⟨rewrite, listed, isMade⟩ := List.mem_flatMap.mp member
  obtain ⟨_, _, rfl⟩ := List.mem_map.mp isMade
  exact List.mem_map_of_mem listed

section Valid

variable (valid : ∀ rule ∈ rules, rule.Valid)

include valid

/-- Each rewrite makes something. -/
theorem WellFormed.made_ne_nil (wellFormed : graph.WellFormed) {passes : Nat} :
    ∀ rewrite ∈ graph.rewritesOver rules passes, rewrite.made ≠ [] := by
  intro rewrite member
  have genuine := wellFormed.genuine_of_mem_rewritesOver valid rewrite member
  exact genuine.made_ne_nil (valid _ (List.mem_of_getElem? genuine.listed))

/-- **Passes over a whole graph.** -/
theorem Built.records_stage (built : graph.Built) (passes : Nat) :
    graph.Records (graph.chronicle rules passes) (graph.stage rules passes) := by
  have grows := built.wellFormed.grows_stage valid passes
  have history : (graph.stage rules passes).history =
      (graph.creationsOver rules passes).map Creation.entry := by
    rw [grows.history, built.noHistory, List.nil_append]
  have new : ∀ creation ∈ graph.creationsOver rules passes, ¬graph.hasNode creation.node := by
    intro creation member there
    obtain ⟨node, listed, same⟩ := List.mem_map.mp (hasNode_iff.mp there)
    exact grows.fresh creation member (same ▸ built.settled.nodes node listed)
  refine ⟨?_, grows.distinct.sublist (List.filter_sublist.map _), fun id => ?_,
    fun node member old => ?_, fun id => ?_, fun creation member => ?_⟩
  · rw [Stats.liveEntries, history, List.filter_map]
    rfl
  · constructor
    · intro listed
      obtain ⟨creation, member, rfl⟩ := List.mem_map.mp listed
      obtain ⟨made, there⟩ := List.mem_filter.mp member
      exact ⟨there, new creation made⟩
    · rintro ⟨there, isNew⟩
      obtain ⟨node, member, rfl⟩ := List.mem_map.mp (hasNode_iff.mp there)
      have made := (grows.nodes node member).resolve_left fun old => isNew (hasNode_of_mem old)
      obtain ⟨creation, isMade, same⟩ := List.mem_map.mp made
      exact List.mem_map.mpr ⟨creation, List.mem_filter.mpr ⟨isMade, same ▸ there⟩, same⟩
  · rcases grows.nodes node member with before | made
    · exact List.mem_map_of_mem before
    · obtain ⟨creation, isMade, same⟩ := List.mem_map.mp made
      exact absurd (same ▸ old) (new creation isMade)
  · rw [history, List.map_map, List.mem_map]
    exact exists_rule_of_entries_iff (built.wellFormed.made_ne_nil valid)
  · exact rule_mem_of_mem_creationsOver (List.mem_filter.mp member).1

end Valid

end CodeGraph

/-! ### Runs over parts -/

/-- The parts of a built graph have become others, in which some creations are new. -/
structure Regrown (graph : CodeGraph) (part : Fin graph.partGroups.length → CodeGraph)
    (created : Fin graph.partGroups.length → List Creation) : Prop where
  built : graph.Built
  formed : ∀ index, (part index).WellFormed
  grows : ∀ index, (graph.partAt index).Grows (created index) (part index)

namespace Regrown

variable {graph : CodeGraph} {part : Fin graph.partGroups.length → CodeGraph}
  {created : Fin graph.partGroups.length → List Creation} {index : Fin graph.partGroups.length}
  {creation : Creation} {id : String}

/-- A creation of a part under the name that the merge has for its node. -/
def merged? (graph : CodeGraph) (part : Fin graph.partGroups.length → CodeGraph)
    (index : Fin graph.partGroups.length) (creation : Creation) : Option Creation :=
  (Merge.renamed? (graph.reunion part).namedNodes index.val creation.node).map (⟨·, creation.rule⟩)

/-- What was created in a part is merged under its name. -/
theorem exists_renamed?_of_merged? {made : Creation}
    (given : merged? graph part index creation = some made) :
    Merge.renamed? (graph.reunion part).namedNodes index.val creation.node = some made.node ∧
      made.rule = creation.rule := by
  obtain ⟨id, renamed, rfl⟩ := Option.map_eq_some_iff.mp given
  exact ⟨renamed, rfl⟩

variable (regrown : Regrown graph part created)

include regrown

theorem sound : (graph.reunion part).Sound :=
  regrown.built.wellFormed.sound_reunion regrown.formed

/-- What is made in a part has no id of the whole graph. -/
theorem not_hasNode_of_mem (member : creation ∈ created index) : ¬graph.hasNode creation.node :=
  fun there => (regrown.grows index).fresh creation member
    (regrown.built.nodeSpent_partAt there index)

/-- What is made in a part has no id of the whole graph in the merged graph either. -/
theorem not_hasNode_of_renamed? (member : creation ∈ created index)
    (named : Merge.renamed? (graph.reunion part).namedNodes index.val creation.node = some id) :
    ¬graph.hasNode id := by
  obtain ⟨before, node, calls, same, rfl⟩ := Merge.exists_calls_of_renamed? named
  rcases List.mem_append.mp calls.named with old | new
  · obtain ⟨item, isOld, equal⟩ := List.mem_map.mp old
    have sameItem : item = ⟨index.val, before⟩ := (Prod.mk.inj equal).1
    subst sameItem
    have original := (Merge.mem_oldNodes_iff.mp isOld).2.2
    exact absurd (same ▸ original) (regrown.not_hasNode_of_mem member)
  · have unused := (Merge.gives_of_mem_nameNew new).1
    exact fun there => unused (List.mem_append_left _ (CodeGraph.hasNode_iff.mp there))

/-- The name by which a part has made a node is not a name in the merged graph. -/
theorem not_hasNode_result_of_mem (member : creation ∈ created index) :
    ¬(graph.reunion part).result.hasNode creation.node := by
  intro there
  have unspent := (regrown.grows index).fresh creation member
  exact CodeGraph.not_isPartName_reunion (fun _ => regrown.built.not_isPartName) there
    (CodeGraph.isPartName_of_not_nodeSpent unspent)

/-- A node of the merged graph is one of the whole graph, or is made in a part. -/
theorem cases_of_mem_namedNodes {entry : PartNode × String}
    (member : entry ∈ (graph.reunion part).namedNodes) :
    (∃ node ∈ graph.nodes, node.data = ⟨entry.2, entry.1.node.label, entry.1.node.kind,
      entry.1.node.attributes⟩) ∨
    ∃ index, ∃ creation ∈ created index,
      Merge.renamed? (graph.reunion part).namedNodes index.val creation.node = some entry.2 := by
  obtain ⟨⟨number, node⟩, id⟩ := entry
  have listed :=
    (graph.reunion part).map_fst_namedNodes_perm.mem_iff.mp (List.mem_map_of_mem member)
  obtain ⟨index, same, there⟩ := CodeGraph.mem_partNodes_reunion_iff.mp listed
  dsimp only at same there
  subst same
  have named := regrown.sound.renamed?_of_named member
  rcases (regrown.grows index).nodes node there with old | made
  · have inPart := CodeGraph.hasNode_of_mem old
    obtain ⟨original, partOf⟩ := regrown.built.hasNode_partAt_iff.mp inPart
    have stays := regrown.sound.renamed?_of_old
      (CodeGraph.parts_reunion_eq_some_iff.mpr ⟨index, rfl, rfl⟩)
      (CodeGraph.hasNode_of_mem there) partOf original
    obtain rfl : id = node.id := Option.some.inj (named.symm.trans stays)
    have data := regrown.built.wellFormed.nodes_perm.mem_iff.mp
      (List.mem_flatMap.mpr ⟨index, List.mem_finRange index, List.mem_map_of_mem old⟩)
    exact .inl (List.mem_map.mp data)
  · obtain ⟨creation, isMade, same⟩ := List.mem_map.mp made
    exact .inr ⟨index, creation, isMade, same ▸ named⟩

/-- What the history of a part comes to in the merged graph. -/
theorem filter_partHistory (index : Fin graph.partGroups.length) :
    (NamesNodes.partHistory graph part index).filter
        (fun entry => (graph.reunion part).result.hasNode entry.node) =
      ((created index).filterMap (merged? graph part index)).map Creation.entry := by
  have history : (part index).history = (created index).map Creation.entry :=
    ((regrown.grows index).history).trans (List.nil_append _)
  rw [NamesNodes.partHistory, history, List.map_map, ← List.filterMap_eq_filter,
    List.filterMap_map, List.map_filterMap]
  refine List.filterMap_congr fun creation member => ?_
  cases named : Merge.renamed? (graph.reunion part).namedNodes index.val creation.node with
  | none =>
      have gone := regrown.not_hasNode_result_of_mem member
      simp [merged?, Creation.entry, named, Option.guard, gone]
  | some id =>
      have there : (graph.reunion part).result.hasNode id :=
        Merge.hasNode_result_iff.mpr (Merge.mem_of_renamed? named)
      simp [merged?, Creation.entry, named, Option.guard, there]

/-- What is made in parts has names of its own in the merged graph. -/
theorem nodup_merged :
    (((List.finRange graph.partGroups.length).flatMap fun index =>
      (created index).filterMap (merged? graph part index)).map (·.node)).Nodup := by
  rw [List.map_flatMap]
  refine List.nodup_flatMap.mpr ⟨fun index _ => ?_, ?_⟩
  · have apart := List.pairwise_map.mp (regrown.grows index).distinct
    refine List.pairwise_map.mpr (List.pairwise_filterMap.mpr (apart.imp ?_))
    intro first second other one oneGiven another anotherGiven same
    have oneNamed := (exists_renamed?_of_merged? oneGiven).1
    have anotherNamed := (exists_renamed?_of_merged? anotherGiven).1
    exact other (regrown.sound.eq_of_renamed? oneNamed (same ▸ anotherNamed)).2
  · refine (List.nodup_finRange _).imp fun {first second} different id inFirst inSecond => ?_
    obtain ⟨_, listed, rfl⟩ := List.mem_map.mp inFirst
    obtain ⟨_, _, oneGiven⟩ := List.mem_filterMap.mp listed
    obtain ⟨_, otherListed, same⟩ := List.mem_map.mp inSecond
    obtain ⟨_, _, otherGiven⟩ := List.mem_filterMap.mp otherListed
    have oneNamed := (exists_renamed?_of_merged? oneGiven).1
    have otherNamed := (exists_renamed?_of_merged? otherGiven).1
    exact different (Fin.ext (regrown.sound.eq_of_renamed? oneNamed (same ▸ otherNamed)).1)

/-- **The merged graph** has recorded what was made in the parts. -/
theorem records {applied : List Rule}
    (rules : ∀ id, (∃ index, ∃ creation ∈ created index, creation.rule.id = id) ↔
      ∃ rule ∈ applied, rule.id = id)
    (known : ∀ index, ∀ creation ∈ created index, creation.rule ∈ applied) :
    graph.Records ⟨applied, (List.finRange graph.partGroups.length).flatMap fun index =>
      (created index).filterMap (merged? graph part index)⟩ (graph.reunion part).result := by
  have history : (graph.reunion part).result.history =
      (List.finRange graph.partGroups.length).flatMap (NamesNodes.partHistory graph part) := by
    rw [NamesNodes.history_reunion, regrown.built.noHistory, List.nil_append]
  have partRules (index : Fin graph.partGroups.length) :
      (NamesNodes.partHistory graph part index).map (·.rule) =
        (created index).map (·.rule.id) := by
    rw [NamesNodes.partHistory, (regrown.grows index).history, List.map_map, List.map_append]
    exact List.map_map
  have ofCreated {id : String} : (id ∈ ((List.finRange graph.partGroups.length).flatMap fun index =>
      (created index).filterMap (merged? graph part index)).map (·.node)) ↔
      ∃ index, ∃ creation ∈ created index,
        Merge.renamed? (graph.reunion part).namedNodes index.val creation.node = some id := by
    simp only [List.mem_map, List.mem_flatMap, List.mem_finRange, true_and, List.mem_filterMap]
    constructor
    · rintro ⟨_, ⟨index, creation, member, given⟩, rfl⟩
      exact ⟨index, creation, member, (exists_renamed?_of_merged? given).1⟩
    · rintro ⟨index, creation, member, named⟩
      exact ⟨⟨id, creation.rule⟩,
        ⟨index, creation, member, Option.map_eq_some_iff.mpr ⟨id, named, rfl⟩⟩, rfl⟩
  refine ⟨?_, regrown.nodup_merged, fun id => ofCreated.trans ?_, fun node member old => ?_,
    fun id => ?_, fun creation member => ?_⟩
  · rw [Stats.liveEntries, history, List.filter_flatMap, List.map_flatMap]
    exact List.flatMap_congr fun index _ => regrown.filter_partHistory index
  · constructor
    · rintro ⟨index, creation, member, named⟩
      exact ⟨Merge.hasNode_result_iff.mpr (Merge.mem_of_renamed? named),
        regrown.not_hasNode_of_renamed? member named⟩
    · rintro ⟨there, isNew⟩
      obtain ⟨entry, member, rfl⟩ := List.mem_map.mp (Merge.hasNode_result_iff.mp there)
      refine (regrown.cases_of_mem_namedNodes member).resolve_left ?_
      rintro ⟨node, original, data⟩
      have sameId : node.id = entry.2 := congrArg NodeData.id data
      exact isNew (sameId ▸ CodeGraph.hasNode_of_mem original)
  · have data := List.mem_map_of_mem (f := Node.data) member
    rw [Merge.map_data_result] at data
    obtain ⟨⟨item, id⟩, named, shown⟩ := List.mem_map.mp data
    dsimp only at shown
    have sameId : id = node.id := congrArg NodeData.id shown
    rcases regrown.cases_of_mem_namedNodes named with ⟨other, original, same⟩ | made
    · rw [← shown, ← same]
      exact List.mem_map_of_mem original
    · obtain ⟨index, creation, isMade, renamed⟩ := made
      exact absurd old (regrown.not_hasNode_of_renamed? isMade (sameId ▸ renamed))
  · rw [history, List.map_flatMap, ← rules id]
    simp only [partRules, List.mem_flatMap, List.mem_finRange, true_and, List.mem_map]
  · obtain ⟨index, _, listed⟩ := List.mem_flatMap.mp member
    obtain ⟨before, isMade, given⟩ := List.mem_filterMap.mp listed
    rw [(exists_renamed?_of_merged? given).2]
    exact known index before isMade

end Regrown

/-! ### Runs -/

namespace CodeGraph

variable {graph : CodeGraph} {rules : List Rule}

/-- A run in parts applies the rules of its parts one after another. -/
theorem chronicleApart_of_separate (separate : rules.any (·.crossDeclaration) = false)
    (passes : Nat) :
    graph.chronicleApart rules passes =
      { applied := graph.parts.flatMap fun part => (part.rewritesOver rules passes).map (·.rule)
        created := (List.finRange graph.partGroups.length).flatMap fun index =>
          ((graph.partAt index).creationsOver rules passes).filterMap
            (Regrown.merged? graph (fun index =>
              (graph.partAt index).stage rules passes) index) } := by
  have sameParts := graph.mergeOf_stage rules passes
  unfold chronicleApart
  rw [if_neg (by simp [separate])]
  dsimp only
  rw [sameParts]
  congr 1
  rw [parts_eq, zipIdx_map_finRange, List.flatMap_map]
  rfl

section Valid

variable (valid : ∀ rule ∈ rules, rule.Valid)

include valid

/-- Only rules of the list are applied. -/
theorem WellFormed.mem_of_applied (wellFormed : graph.WellFormed) {passes : Nat} {rule : Rule}
    (member : rule ∈ (graph.rewritesOver rules passes).map (·.rule)) : rule ∈ rules := by
  obtain ⟨rewrite, listed, rfl⟩ := List.mem_map.mp member
  exact List.mem_of_getElem? (wellFormed.genuine_of_mem_rewritesOver valid rewrite listed).listed

/-- **Passes over parts.** -/
theorem Built.records_reunion (built : graph.Built)
    (separate : rules.any (·.crossDeclaration) = false) (passes : Nat) :
    graph.Records (graph.chronicleApart rules passes)
      (graph.reunion fun index => (graph.partAt index).stage rules passes).result := by
  have formed := built.wellFormed.partAt
  have regrown : Regrown graph (fun index => (graph.partAt index).stage rules passes)
      (fun index => (graph.partAt index).creationsOver rules passes) :=
    ⟨built, fun index => (formed index).stage valid passes,
      fun index => (formed index).grows_stage valid passes⟩
  have applied {rule : Rule} :
      (rule ∈ graph.parts.flatMap fun part => (part.rewritesOver rules passes).map (·.rule)) ↔
        ∃ index, rule ∈ ((graph.partAt index).rewritesOver rules passes).map (·.rule) := by
    simp only [parts_eq, List.mem_flatMap, List.mem_map, List.mem_finRange, true_and,
      exists_exists_eq_and]
  rw [chronicleApart_of_separate separate]
  refine regrown.records (fun id => ?_) fun index creation member => ?_
  · have ofPart (index : Fin graph.partGroups.length) :
        (∃ creation ∈ (graph.partAt index).creationsOver rules passes, creation.rule.id = id) ↔
          ∃ rule ∈ ((graph.partAt index).rewritesOver rules passes).map (·.rule), rule.id = id :=
      exists_rule_of_entries_iff ((formed index).made_ne_nil valid)
    refine (exists_congr ofPart).trans ?_
    simp only [applied]
    constructor
    · rintro ⟨index, rule, member, same⟩
      exact ⟨rule, ⟨index, member⟩, same⟩
    · rintro ⟨rule, ⟨index, member⟩, same⟩
      exact ⟨index, rule, member, same⟩
  · exact applied.mpr ⟨index, rule_mem_of_mem_creationsOver member⟩

/-- Only rules of the list are applied in parts. -/
theorem WellFormed.mem_of_appliedApart (wellFormed : graph.WellFormed) {passes : Nat} {rule : Rule}
    (member : rule ∈ (graph.chronicleApart rules passes).applied) : rule ∈ rules := by
  cases separate : rules.any (·.crossDeclaration) with
  | true =>
      rw [chronicleApart, if_pos separate] at member
      exact wellFormed.mem_of_applied valid member
  | false =>
      rw [chronicleApart_of_separate separate] at member
      obtain ⟨part, listed, member⟩ := List.mem_flatMap.mp member
      exact (wellFormed.parts part listed).mem_of_applied valid member

/-- A run applies as many matches as there are rewrites. -/
theorem WellFormed.applied_transform (wellFormed : graph.WellFormed) {mode : RunMode}
    {result : Transformed} (ran : Transcode.transform graph rules mode = .ok result) :
    result.applied = (graph.rewritesOver rules mode.passes).length := by
  obtain ⟨other, otherRan, describes⟩ := exists_transform_describes valid wellFormed mode
  obtain rfl : result = other := Except.ok.inj (ran.symm.trans otherRan)
  have each (number : Nat) :
      graph.appliedAt rules number = ((graph.stage rules number).rewrites rules).length := by
    obtain ⟨last, passed, linked, genuine⟩ := (wellFormed.stage valid number).exists_rewrites valid
    rw [appliedAt, onePass_eq passed, linked.applied_eq genuine, Nat.zero_add]
  rw [describes.applied]
  induction mode.passes with
  | zero => rfl
  | succ passes ih =>
      rw [Finset.sum_range_succ, ih, each, rewritesOver_succ, List.length_append]

/-- A run in parts counts the matches that it applies. -/
theorem WellFormed.applied_transformApart (wellFormed : graph.WellFormed) {mode : RunMode}
    {result : Transformed} (ran : Transcode.transformApart graph rules mode = .ok result) :
    result.applied = (graph.chronicleApart rules mode.passes).applied.length := by
  unfold Transcode.transformApart at ran
  split at ran
  · rename_i spanning
    rw [chronicleApart, if_pos spanning, wellFormed.applied_transform valid ran, chronicle,
      List.length_map]
  · rename_i separate
    obtain ⟨split, isSplit, ran⟩ := bind_eq_ok_iff.mp ran
    obtain ⟨results, transformed, ran⟩ := bind_eq_ok_iff.mp ran
    obtain ⟨merged, _, ran⟩ := bind_eq_ok_iff.mp ran
    cases ran
    rw [mapError_eq_ok_iff, wellFormed.split_eq] at isSplit
    cases isSplit
    rw [chronicleApart_of_separate (by simpa using separate)]
    change ((results.map (·.applied)).foldr (· + ·) 0) = _
    have counted : List.Forall₂ (fun (part : CodeGraph) (result : Transformed) =>
        ((part.rewritesOver rules mode.passes).map (·.rule)).length = result.applied)
        graph.parts results := by
      refine List.Forall₂.imp ?_ ((List.forall₂_and_left ..).mpr
        ⟨wellFormed.parts, mapM_eq_ok_iff.mp transformed⟩)
      intro part result ⟨partFormed, partRan⟩
      rw [List.length_map, partFormed.applied_transform valid partRan]
    rw [List.length_flatMap, forall₂_iff_map_eq.mp counted]
    rfl

end Valid

/-- A built graph that is transformed with the rules of a catalog. -/
theorem Built.exists_tells (built : graph.Built) (catalog : Catalog) (mode : RunMode) :
    (∃ result, transform graph catalog.automated mode = .ok result ∧
      result.applied = (graph.chronicle catalog.automated mode.passes).applied.length ∧
      (Stats.ofGraph catalog result.graph).Tells graph result.graph
        (graph.chronicle catalog.automated mode.passes)) ∧
    ∃ result, transformApart graph catalog.automated mode = .ok result ∧
      result.applied = (graph.chronicleApart catalog.automated mode.passes).applied.length ∧
      (Stats.ofGraph catalog result.graph).Tells graph result.graph
        (graph.chronicleApart catalog.automated mode.passes) := by
  have valid : ∀ rule ∈ catalog.automated, rule.Valid := fun _ => catalog.valid_of_mem_automated
  have listed : ∀ rule ∈ catalog.automated, rule ∈ catalog.rules := fun _ =>
    catalog.mem_of_mem_automated
  have whole : ∃ result, transform graph catalog.automated mode = .ok result ∧
      result.applied = (graph.chronicle catalog.automated mode.passes).applied.length ∧
      (Stats.ofGraph catalog result.graph).Tells graph result.graph
        (graph.chronicle catalog.automated mode.passes) := by
    obtain ⟨result, ran, describes⟩ := exists_transform_describes valid built.wellFormed mode
    refine ⟨result, ran, ?_, ?_⟩
    · rw [chronicle, List.length_map, built.wellFormed.applied_transform valid ran]
    · rw [describes.last]
      exact (built.records_stage valid mode.passes).tells (built.wellFormed.stage valid mode.passes)
        fun rule member => listed rule (built.wellFormed.mem_of_applied valid member)
  refine ⟨whole, ?_⟩
  cases separate : catalog.automated.any (·.crossDeclaration) with
  | true =>
      rw [transformApart, if_pos separate, chronicleApart, if_pos separate]
      exact whole
  | false =>
      obtain ⟨_, result, ran, last⟩ :=
        exists_transform_stage valid built.wellFormed separate mode
      refine ⟨result, ran, built.wellFormed.applied_transformApart valid ran, ?_⟩
      have records := built.records_reunion valid separate mode.passes
      have formed := built.wellFormed.transformApart ran
      rw [last] at formed ⊢
      exact records.tells formed fun rule member =>
        listed rule (built.wellFormed.mem_of_appliedApart valid member)

end CodeGraph

/-- **Statistics of a run.** A text that does not hold blanks only has a graph, which is transformed
by the automated rules of any catalog, in any mode, as a whole and in parts; and the statistics of
what comes of it tell what the run has made. -/
theorem stats_tell {source : String} (filled : ¬Text.isBlankText source) :
    ∃ parsed graph, parseSource source = .ok parsed ∧ buildGraph parsed.tree = .ok graph ∧
      ∀ (catalog : Catalog) (mode : RunMode),
        (∃ result, transform graph catalog.automated mode = .ok result ∧
          result.applied = (graph.chronicle catalog.automated mode.passes).applied.length ∧
          (Stats.ofGraph catalog result.graph).Tells graph result.graph
            (graph.chronicle catalog.automated mode.passes)) ∧
        ∃ result, transformApart graph catalog.automated mode = .ok result ∧
          result.applied = (graph.chronicleApart catalog.automated mode.passes).applied.length ∧
          (Stats.ofGraph catalog result.graph).Tells graph result.graph
            (graph.chronicleApart catalog.automated mode.passes) := by
  obtain ⟨parsed, read⟩ := exists_parseSource filled
  obtain ⟨graph, built⟩ := exists_buildGraph read
  exact ⟨parsed, graph, read, built, fun catalog mode =>
    (buildGraph_built built).exists_tells catalog mode⟩

/-- A static method is made a function, in the one part of the graph. -/
theorem stats_tell_staticMethod :
    let catalog : Catalog := ⟨[Builtin.staticToFunction], by rfl⟩
    ∃ parsed graph result,
      parseSource "class A \x7b static void f() \x7b\x7d \x7d" = .ok parsed ∧
      buildGraph parsed.tree = .ok graph ∧
      transformApart graph catalog.automated (.fixpoint 5) = .ok result ∧
      (Stats.ofGraph catalog result.graph).Tells graph result.graph
        (graph.chronicleApart catalog.automated 5) ∧
      Stats.ofGraph catalog result.graph = ⟨2, 1, ["rule-2"], 90⟩ := by
  intro catalog
  have filled : ¬Text.isBlankText "class A \x7b static void f() \x7b\x7d \x7d" := by decide +kernel
  obtain ⟨parsed, graph, read, built, runs⟩ := stats_tell filled
  obtain ⟨_, result, ran, _, tells⟩ := runs catalog (.fixpoint 5)
  obtain ⟨other, same, otherRead, sameBuilt, tested⟩ : ∃ parsed graph,
      parseSource "class A \x7b static void f() \x7b\x7d \x7d" = .ok parsed ∧
      buildGraph parsed.tree = .ok graph ∧
      (transformApart graph catalog.automated (.fixpoint 5)).toOption.all fun result =>
        decide (Stats.ofGraph catalog result.graph = ⟨2, 1, ["rule-2"], 90⟩) :=
    exists_tested_graph (by decide +kernel)
  obtain rfl : parsed = other := Except.ok.inj (read.symm.trans otherRead)
  obtain rfl : graph = same := Except.ok.inj (built.symm.trans sameBuilt)
  rw [ran, Except.toOption, Option.all_some] at tested
  exact ⟨parsed, graph, result, read, built, ran, tells, of_decide_eq_true tested⟩

end Transcode
