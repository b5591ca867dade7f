import Transcode.Proofs.Declarations
import Transcode.Proofs.Growth
import Transcode.Proofs.Loading
import Transcode.Proofs.Reattachment
import Transcode.Proofs.Revalidation
import Transcode.Stats

/-!
# Identities of nodes

A history goes on speaking of nodes that are gone. A graph that counts on makes no id again, so no
node takes over the id of one that is gone (`CodeGraph.Grows.deadEntries_subset`). But loading a
graph and merging parts set the numbers of nodes back, and rewrites after that can make an id of the
history again (`dead_entry_revived`), unless the history speaks of no id that can still be made
(`dead_entries_stay_dead`).
-/

namespace Transcode

/-! ### Entries for nodes that are gone -/

/-- The entries of a history that statistics do not count: their nodes are gone. -/
def Stats.deadEntries (graph : CodeGraph) : List Provenance :=
  graph.history.filter fun entry => entry ∉ liveEntries graph

/-- An entry is dead if its node is gone. -/
theorem Stats.mem_deadEntries_iff {graph : CodeGraph} {entry : Provenance} :
    entry ∈ deadEntries graph ↔ entry ∈ graph.history ∧ ¬graph.hasNode entry.node := by
  rw [deadEntries, List.mem_filter, decide_eq_true_eq, liveEntries, List.mem_filter, not_and]
  exact and_congr_right fun recorded => ⟨fun dead => dead recorded, fun gone _ => gone⟩

namespace CodeGraph

/-- A graph does not make an id any more of which its history speaks. -/
def HistorySpent (graph : CodeGraph) : Prop :=
  ∀ entry ∈ graph.history, graph.NodeSpent entry.node

/-- A graph that makes no id of its history, in which no node has an id as parts make them. -/
structure KeepsIdentities (graph : CodeGraph) : Prop where
  wellFormed : graph.WellFormed
  noNamespace : graph.namespaceText = ""
  noPartName : ∀ id, graph.hasNode id → ¬IsPartName id
  historySpent : graph.HistorySpent

/-- Rewrites on the way from a graph to a later one make no id of which the history speaks, and what
is gone, in the beginning or along the way, is gone in the end. -/
structure KeepsDead (before : CodeGraph) (log : List Rewrite) (after : CodeGraph) : Prop where
  dead : Stats.deadEntries before ⊆ Stats.deadEntries after
  fresh : ∀ rewrite ∈ log, ∀ id ∈ rewrite.made, id ∉ rewrite.before.graph.history.map (·.node)
  deadAlong : ∀ rewrite ∈ log, Stats.deadEntries rewrite.after.graph ⊆ Stats.deadEntries after

/-- A graph grows by rewrites to a later one. -/
structure GrowsBy (before : CodeGraph) (log : List Rewrite) (after : CodeGraph) : Prop where
  whole : ∃ created, before.Grows created after
  each : ∀ rewrite ∈ log, rewrite.before.graph.Grows rewrite.creations rewrite.after.graph ∧
    (∃ created, before.Grows created rewrite.before.graph) ∧
    ∃ created, rewrite.after.graph.Grows created after

variable {graph before after : CodeGraph} {created : List Creation} {log : List Rewrite}
  {rules : List Rule}

/-! ### Growing graphs -/

/-- A graph that grows has spent the ids in its history. -/
theorem Grows.historySpent (grows : before.Grows created after) (spent : before.HistorySpent) :
    after.HistorySpent := by
  unfold HistorySpent
  rw [grows.history]
  refine List.forall_mem_append.mpr
    ⟨fun entry member => grows.spent _ (spent entry member), fun entry member => ?_⟩
  obtain ⟨creation, isMade, rfl⟩ := List.mem_map.mp member
  exact grows.used creation isMade

/-- **Growing.** What is made is not what is gone. -/
theorem Grows.deadEntries_subset (grows : before.Grows created after)
    (spent : before.HistorySpent) : Stats.deadEntries before ⊆ Stats.deadEntries after := by
  intro entry member
  obtain ⟨recorded, gone⟩ := Stats.mem_deadEntries_iff.mp member
  refine Stats.mem_deadEntries_iff.mpr
    ⟨grows.history ▸ List.mem_append_left _ recorded, fun there => ?_⟩
  obtain ⟨node, isNode, same⟩ := List.mem_map.mp (hasNode_iff.mp there)
  rcases grows.nodes node isNode with old | new
  · exact gone (same ▸ hasNode_of_mem old)
  · obtain ⟨creation, isMade, named⟩ := List.mem_map.mp new
    exact grows.fresh creation isMade (named.trans same ▸ spent entry recorded)

/-- A graph that grows keeps its dead entries dead. -/
theorem GrowsBy.keepsDead (grows : before.GrowsBy log after) (spent : before.HistorySpent) :
    before.KeepsDead log after where
  dead := by
    obtain ⟨_, whole⟩ := grows.whole
    exact whole.deadEntries_subset spent
  fresh rewrite member id isMade recorded := by
    obtain ⟨here, ⟨_, earlier⟩, _⟩ := grows.each rewrite member
    obtain ⟨entry, listed, rfl⟩ := List.mem_map.mp recorded
    exact here.fresh _ (List.mem_map_of_mem isMade) (earlier.historySpent spent entry listed)
  deadAlong rewrite member := by
    obtain ⟨here, ⟨_, earlier⟩, _, later⟩ := grows.each rewrite member
    exact later.deadEntries_subset (here.historySpent (earlier.historySpent spent))

/-- A graph that grows keeps its identities. -/
theorem GrowsBy.keepsIdentities (grows : before.GrowsBy log after)
    (keeps : before.KeepsIdentities) (formed : after.WellFormed) : after.KeepsIdentities := by
  obtain ⟨_, whole⟩ := grows.whole
  refine ⟨formed, whole.namespaceText.trans keeps.noNamespace, fun id there => ?_,
    whole.historySpent keeps.historySpent⟩
  obtain ⟨node, isNode, rfl⟩ := List.mem_map.mp (hasNode_iff.mp there)
  rcases whole.nodes node isNode with old | new
  · exact keeps.noPartName _ (hasNode_of_mem old)
  · obtain ⟨creation, isMade, named⟩ := List.mem_map.mp new
    obtain ⟨number, _, made⟩ :=
      exists_nodeName_of_not_nodeSpent (whole.fresh creation isMade)
    rw [← named, made]
    exact not_isPartName_nodeName keeps.noNamespace number

/-- Any number of passes. -/
theorem WellFormed.growsBy_stage (wellFormed : graph.WellFormed)
    (valid : ∀ rule ∈ rules, rule.Valid)
    (passes : Nat) :
    graph.GrowsBy (graph.rewritesOver rules passes) (graph.stage rules passes) where
  whole := ⟨_, wellFormed.grows_stage valid passes⟩
  each rewrite member := by
    have genuine := wellFormed.genuine_of_mem_rewritesOver valid rewrite member
    have ruleValid := valid _ (List.mem_of_getElem? genuine.listed)
    exact ⟨genuine.grows ruleValid, wellFormed.grows_around valid member⟩

end CodeGraph

/-! ### Runs on a graph -/

namespace Operation

/-- What can be done with a graph besides editing it by hand. -/
def IsRun : Operation → Prop
  | .applyRule .. | .reload => True
  | .transform rules _ | .transformApart rules _ => ∃ catalog : Catalog, rules = catalog.automated
  | _ => False

/-- Whether an operation sets the numbers of nodes back. -/
def Restarts : Operation → Prop
  | .reload => True
  | .transformApart rules _ => rules.any (·.crossDeclaration) = false
  | _ => False

/-- The rewrites that an operation makes of a graph, or of its parts. -/
def rewrites (graph : CodeGraph) : Operation → List Rewrite
  | .applyRule catalog id =>
    (catalog.rule? id).toList.flatMap fun rule => (graph.rewrites [rule]).take 1
  | .transform rules mode => graph.rewritesOver rules mode.passes
  | .transformApart rules mode =>
    if rules.any (·.crossDeclaration) then graph.rewritesOver rules mode.passes
    else graph.parts.flatMap (·.rewritesOver rules mode.passes)
  | _ => []

end Operation

namespace CodeGraph

variable {graph after : CodeGraph} {rules : List Rule}

/-- The best match of a rule. -/
theorem WellFormed.growsBy_applyRule (wellFormed : graph.WellFormed) (catalog : Catalog)
    (id : String) :
    graph.GrowsBy ((Operation.applyRule catalog id).rewrites graph)
      ((Operation.applyRule catalog id).run graph).2 := by
  have idle : graph.GrowsBy [] graph := ⟨⟨_, .refl graph⟩, List.forall_mem_nil _⟩
  change graph.GrowsBy ((catalog.rule? id).toList.flatMap _) (graph.applyRule catalog id).2
  unfold CodeGraph.applyRule
  cases named : catalog.rule? id with
  | none => exact idle
  | some rule =>
      have valid := catalog.valid_of_mem (List.mem_of_find?_eq_some named)
      rw [Option.toList_some, List.flatMap_singleton]
      cases listed : graph.findMatchesOf rule with
      | nil =>
          rw [CodeGraph.rewrites, findMatches_one, listed]
          dsimp only
          rw [listed]
          exact idle
      | cons best rest =>
          have member := mem_findMatchesOf_iff.mp (listed ▸ List.mem_cons_self)
          obtain ⟨fits, first⟩ := Rule.fits_of_mem_matchesAt member
          have still := wellFormed.stillValid_of_mem valid member
          obtain ⟨addition, applies⟩ :=
            wellFormed.exists_applies valid fits (hasNode_of_stillValid fits still)
          have at_ : [rule][best.ruleIndex]? = some rule := by
            rw [first]
            rfl
          have stepped : ({ graph } : Pass).step [rule] best = _ :=
            Pass.step_of_applies at_ still applies
          obtain ⟨_, _, _, genuine⟩ :=
            wellFormed.exists_rewrites (List.forall_mem_singleton.mpr valid)
          rw [CodeGraph.rewrites, findMatches_one, listed,
            Pass.rewrites_of_applied at_ stepped (Nat.succ_ne_self _)] at genuine ⊢
          have grows := (genuine _ List.mem_cons_self).grows valid
          dsimp only
          rw [listed]
          dsimp only
          rw [applies.outcome]
          exact ⟨⟨_, grows⟩, List.forall_mem_singleton.mpr ⟨grows, ⟨_, .refl _⟩, _, .refl _⟩⟩

/-! ### Loading and merging -/

theorem hasNode_reloaded_iff {id : String} : graph.reloaded.hasNode id ↔ graph.hasNode id := by
  rw [hasNode_iff, hasNode_iff, reloaded, map_id_numbered, toData, List.map_map]
  rfl

/-- Dead entries stay dead when a graph is loaded. -/
theorem keepsDead_reloaded (graph : CodeGraph) : graph.KeepsDead [] graph.reloaded where
  dead entry member := by
    rw [Stats.mem_deadEntries_iff] at member ⊢
    rwa [hasNode_reloaded_iff]
  fresh := List.forall_mem_nil _
  deadAlong := List.forall_mem_nil _

section Merging

variable {part : Fin graph.partGroups.length → CodeGraph}

/-- The ids that a merge makes are not in the history of the whole graph. -/
theorem deadEntries_subset_reunion (part : Fin graph.partGroups.length → CodeGraph) :
    Stats.deadEntries graph ⊆ Stats.deadEntries (graph.reunion part).result := by
  intro entry member
  obtain ⟨recorded, gone⟩ := Stats.mem_deadEntries_iff.mp member
  refine Stats.mem_deadEntries_iff.mpr ⟨?_, fun there => ?_⟩
  · rw [NamesNodes.history_reunion]
    exact List.mem_append_left _ recorded
  · rcases Merge.hasNode_or_gives there with old | ⟨unused, _⟩
    · exact gone old
    · exact unused (List.mem_append_right _ (List.mem_map_of_mem recorded))

/-- What is gone in a part has kept the id that it had there. -/
theorem KeepsIdentities.deadEntries_subset_of_part (keeps : graph.KeepsIdentities)
    (part : Fin graph.partGroups.length → CodeGraph) {index : Fin graph.partGroups.length}
    {created : List Creation} (grows : (graph.partAt index).Grows created (part index)) :
    Stats.deadEntries (part index) ⊆ Stats.deadEntries (graph.reunion part).result := by
  intro entry member
  obtain ⟨recorded, gone⟩ := Stats.mem_deadEntries_iff.mp member
  -- The merge has names for what is there, so the entry keeps the id that the part has made.
  have nameless : Merge.renamed? (graph.reunion part).namedNodes index.val entry.node = none := by
    refine Option.eq_none_iff_forall_ne_some.mpr fun id renamed => ?_
    obtain ⟨before, _, calls, same, _⟩ := Merge.exists_calls_of_renamed? renamed
    obtain ⟨other, isIndex, there⟩ := mem_partNodes_reunion_iff.mp calls.mem_partNodes
    obtain rfl : index = other := Fin.ext isIndex
    exact gone (same ▸ hasNode_of_mem there)
  refine Stats.mem_deadEntries_iff.mpr ⟨?_, fun there => ?_⟩
  · rw [NamesNodes.history_reunion]
    refine List.mem_append_right _ (List.mem_flatMap.mpr ⟨index, List.mem_finRange index, ?_⟩)
    refine List.mem_map.mpr ⟨entry, recorded, ?_⟩
    rw [nameless]
    rfl
  · rw [grows.history] at recorded
    obtain ⟨creation, isMade, rfl⟩ := List.mem_map.mp (List.nil_append _ ▸ recorded)
    exact not_isPartName_reunion keeps.noPartName there
      (isPartName_of_not_nodeSpent (grows.fresh creation isMade))

/-- **Merging.** What is gone in the whole graph or in a part is gone in the merged graph. -/
theorem KeepsIdentities.keepsDead_reunion (keeps : graph.KeepsIdentities)
    (valid : ∀ rule ∈ rules, rule.Valid) (passes : Nat) :
    graph.KeepsDead (graph.parts.flatMap (·.rewritesOver rules passes))
      (graph.reunion fun index => (graph.partAt index).stage rules passes).result := by
  have inPart (index : Fin graph.partGroups.length) :=
    ((keeps.wellFormed.partAt index).growsBy_stage valid passes).keepsDead (List.forall_mem_nil _)
  have exists_part : ∀ rewrite ∈ graph.parts.flatMap (·.rewritesOver rules passes),
      ∃ index, rewrite ∈ (graph.partAt index).rewritesOver rules passes := by
    intro rewrite member
    obtain ⟨_, isPart, listed⟩ := List.mem_flatMap.mp member
    rw [parts_eq] at isPart
    obtain ⟨index, _, rfl⟩ := List.mem_map.mp isPart
    exact ⟨index, listed⟩
  refine ⟨deadEntries_subset_reunion _, fun rewrite member => ?_, fun rewrite member => ?_⟩
  · obtain ⟨index, listed⟩ := exists_part rewrite member
    exact (inPart index).fresh rewrite listed
  · obtain ⟨index, listed⟩ := exists_part rewrite member
    exact List.Subset.trans ((inPart index).deadAlong rewrite listed)
      (keeps.deadEntries_subset_of_part (fun index => (graph.partAt index).stage rules passes)
        ((keeps.wellFormed.partAt index).grows_stage valid passes))

end Merging

end CodeGraph

/-! ### Runs one after the other -/

namespace Operation

variable {graph : CodeGraph} {operation : Operation}

/-- What an operation does to a graph: it grows, is loaded again, or is merged of its parts. -/
theorem run_cases (wellFormed : graph.WellFormed) (isRun : operation.IsRun) :
    graph.GrowsBy (operation.rewrites graph) (operation.run graph).2 ∨
    operation.Restarts ∧ operation.rewrites graph = [] ∧
      (operation.run graph).2 = graph.reloaded ∨
    operation.Restarts ∧ ∃ rules passes, (∀ rule ∈ rules, rule.Valid) ∧
      operation.rewrites graph = graph.parts.flatMap (·.rewritesOver rules passes) ∧
      (operation.run graph).2 =
        (graph.reunion fun index => (graph.partAt index).stage rules passes).result := by
  cases operation with
  | applyRule catalog id => exact .inl (wellFormed.growsBy_applyRule catalog id)
  | transform rules mode =>
      obtain ⟨catalog, rfl⟩ := isRun
      have valid : ∀ rule ∈ catalog.automated, rule.Valid := fun _ => catalog.valid_of_mem_automated
      obtain ⟨result, ran, describes⟩ := exists_transform_describes valid wellFormed mode
      have after : ((transform catalog.automated mode).run graph).2 = result.graph := by
        rw [run, ran]
        rfl
      rw [after, describes.last]
      exact .inl (wellFormed.growsBy_stage valid mode.passes)
  | transformApart rules mode =>
      obtain ⟨catalog, rfl⟩ := isRun
      have valid : ∀ rule ∈ catalog.automated, rule.Valid := fun _ => catalog.valid_of_mem_automated
      cases separate : catalog.automated.any (·.crossDeclaration) with
      | true =>
          obtain ⟨result, ran, describes⟩ := exists_transform_describes valid wellFormed mode
          have after : ((transformApart catalog.automated mode).run graph).2 = result.graph := by
            rw [run, Transcode.transformApart, if_pos separate, ran]
            rfl
          rw [after, describes.last, rewrites, if_pos separate]
          exact .inl (wellFormed.growsBy_stage valid mode.passes)
      | false =>
          obtain ⟨_, result, ran, last⟩ :=
            CodeGraph.exists_transform_stage valid wellFormed separate mode
          refine .inr (.inr ⟨separate, _, mode.passes, valid, ?_, ?_⟩)
          · rw [rewrites, if_neg (by simp [separate])]
          · rw [run, ran]
            exact last
  | reload =>
      refine .inr (.inl ⟨trivial, rfl, ?_⟩)
      rw [run_reload wellFormed]
  | _ => cases isRun

/-- **One operation.** -/
theorem keepsDead_run (keeps : graph.KeepsIdentities) (isRun : operation.IsRun) :
    graph.KeepsDead (operation.rewrites graph) (operation.run graph).2 := by
  rcases run_cases keeps.wellFormed isRun with
    grows | ⟨_, none, after⟩ | ⟨_, rules, passes, valid, log, after⟩
  · exact grows.keepsDead keeps.historySpent
  · rw [none, after]
    exact graph.keepsDead_reloaded
  · rw [log, after]
    exact keeps.keepsDead_reunion valid passes

/-- An operation that does not set numbers back keeps identities. -/
theorem keepsIdentities_run (keeps : graph.KeepsIdentities) (isRun : operation.IsRun)
    (spent : operation.Restarts → (operation.run graph).2.HistorySpent) :
    (operation.run graph).2.KeepsIdentities := by
  have formed := operation.wellFormed_run keeps.wellFormed
  rcases run_cases keeps.wellFormed isRun with
    grows | ⟨restarts, _, after⟩ | ⟨restarts, rules, passes, _, _, after⟩
  · exact grows.keepsIdentities keeps formed
  · have spentAfter := spent restarts
    rw [after] at formed spentAfter ⊢
    refine ⟨formed, rfl, fun id there => ?_, spentAfter⟩
    exact keeps.noPartName id (CodeGraph.hasNode_reloaded_iff.mp there)
  · have spentAfter := spent restarts
    rw [after] at formed spentAfter ⊢
    exact ⟨formed, rfl, fun _ => CodeGraph.not_isPartName_reunion keeps.noPartName, spentAfter⟩

end Operation

namespace CodeGraph

/-- A graph to start with: that of a syntax tree, or a loaded one that makes no id of its history
and has no node with an id as parts make them. -/
inductive Starts : CodeGraph → Prop where
  | built {tree : SyntaxTree} {graph : CodeGraph} (built : buildGraph tree = .ok graph) :
    Starts graph
  | loaded {text : String} {graph : CodeGraph} (loaded : CodeGraph.ofJsonText text = .ok graph)
    (spent : graph.HistorySpent) (noPartName : ∀ id, graph.hasNode id → ¬IsPartName id) :
    Starts graph

/-- What a graph becomes by operations one after the other, as long as none that sets the numbers of
nodes back leaves an id in the history that can be made again. -/
inductive Advances (start : CodeGraph) : CodeGraph → Prop where
  | refl : start.Advances start
  | step {graph : CodeGraph} (before : start.Advances graph) (operation : Operation)
    (isRun : operation.IsRun)
    (spent : operation.Restarts → (operation.run graph).2.HistorySpent) :
    start.Advances (operation.run graph).2

variable {start graph : CodeGraph}

/-- Identities are kept at the start. -/
theorem Starts.keepsIdentities (starts : start.Starts) : start.KeepsIdentities := by
  cases starts with
  | built ok =>
      have built := buildGraph_built ok
      refine ⟨built.wellFormed, built.noNamespace, fun _ => built.not_isPartName, ?_⟩
      rw [HistorySpent, built.noHistory]
      exact List.forall_mem_nil _
  | loaded loaded spent noPartName =>
      obtain ⟨data, ofData⟩ := WellFormed.exists_data_of_ofJsonText loaded
      obtain ⟨_, rfl⟩ := ofData_eq_ok_iff.mp ofData
      exact ⟨.ofJsonText loaded, rfl, noPartName, spent⟩

/-- Identities are kept as a graph advances. -/
theorem Advances.keepsIdentities (advances : start.Advances graph) (keeps : start.KeepsIdentities) :
    graph.KeepsIdentities := by
  induction advances with
  | refl => exact keeps
  | step _ _ isRun spent ih => exact Operation.keepsIdentities_run ih isRun spent

/-- Entries that are dead stay so as a graph advances. -/
theorem Advances.deadEntries_subset (advances : start.Advances graph)
    (keeps : start.KeepsIdentities) : Stats.deadEntries start ⊆ Stats.deadEntries graph := by
  induction advances with
  | refl => exact List.Subset.refl _
  | step before _ isRun _ ih =>
      exact List.Subset.trans ih
        (Operation.keepsDead_run (before.keepsIdentities keeps) isRun).dead

end CodeGraph

/-- **Entries for nodes that are gone.** Take the graph of a syntax tree or a loaded one, and
whatever becomes of it by operations of which none sets the numbers of nodes back and leaves an id
in the history that can be made again. Any operation then makes no id, in any of its rewrites, of
which the history speaks at that moment; and an entry that statistics do not count, at the start,
between operations or between rewrites, is not counted later on. -/
theorem dead_entries_stay_dead {start graph : CodeGraph} (starts : start.Starts)
    (advances : start.Advances graph) :
    Stats.deadEntries start ⊆ Stats.deadEntries graph ∧
    ∀ operation : Operation, operation.IsRun →
      graph.KeepsDead (operation.rewrites graph) (operation.run graph).2 :=
  ⟨advances.deadEntries_subset starts.keepsIdentities, fun _ =>
    Operation.keepsDead_run (advances.keepsIdentities starts.keepsIdentities)⟩

/-- A class with an inner class, which can be made an interface, and a static method. -/
def innerAndStatic : String :=
  "class A \x7b class B \x7b abstract void m(); \x7d static void f() \x7b \x7d \x7d"

/-- The inner class is made a class of its own, `n4`, and then an interface. -/
def innerSteps : List Operation :=
  [.applyRule Builtin.catalog "rule-3", .applyRule Builtin.catalog "rule-1"]

/-- The graph is loaded before it has a history: `n4` is gone, and stays so when the static method
is replaced. -/
theorem dead_entries_stay_dead_innerClass :
    ∃ parsed start graph, parseSource innerAndStatic = .ok parsed ∧
      buildGraph parsed.tree = .ok start ∧ start.Starts ∧
      graph = Operation.runAll innerSteps (Operation.reload.run start).2 ∧
      start.Advances graph ∧ ⟨"n4", "rule-3"⟩ ∈ Stats.deadEntries graph ∧
      ⟨"n4", "rule-3"⟩ ∈ Stats.deadEntries
        ((Operation.applyRule Builtin.catalog "rule-2").run graph).2 := by
  obtain ⟨parsed, start, read, ok, tested⟩ : ∃ parsed start,
      parseSource innerAndStatic = .ok parsed ∧ buildGraph parsed.tree = .ok start ∧
      decide (⟨"n4", "rule-3"⟩ ∈ Stats.deadEntries
        (Operation.runAll innerSteps start.reloaded)) :=
    exists_tested_graph (by decide +kernel)
  have built := buildGraph_built ok
  have loaded : (Operation.reload.run start).2 = start.reloaded := by
    rw [Operation.run_reload built.wellFormed]
  rw [← loaded] at tested
  have spent : (Operation.reload.run start).2.HistorySpent := by
    rw [loaded, CodeGraph.HistorySpent, CodeGraph.reloaded, built.noHistory]
    exact List.forall_mem_nil _
  have first : start.Advances (Operation.reload.run start).2 :=
    CodeGraph.Advances.refl.step .reload trivial fun _ => spent
  have advances := (first.step (.applyRule Builtin.catalog "rule-3") trivial False.elim).step
    (.applyRule Builtin.catalog "rule-1") trivial False.elim
  have keeps := (dead_entries_stay_dead (.built ok) advances).2
    (.applyRule Builtin.catalog "rule-2") trivial
  have dead := of_decide_eq_true tested
  exact ⟨parsed, start, _, read, ok, .built ok, rfl, advances, dead, keeps.dead dead⟩

/-- The graph is loaded after `n4` is gone: the static method becomes `n4`, and statistics count the
entry for the inner class with it. -/
theorem dead_entry_revived :
    ∃ parsed start graph, parseSource innerAndStatic = .ok parsed ∧
      buildGraph parsed.tree = .ok start ∧
      graph = (Operation.reload.run (Operation.runAll innerSteps start)).2 ∧
      ⟨"n4", "rule-3"⟩ ∈ Stats.deadEntries graph ∧
      let last := Operation.applyRule Builtin.catalog "rule-2"
      (∃ rewrite ∈ last.rewrites graph, "n4" ∈ rewrite.made ∧
        "n4" ∈ rewrite.before.graph.history.map (·.node)) ∧
      ⟨"n4", "rule-3"⟩ ∈ Stats.liveEntries (last.run graph).2 ∧
      Stats.ofGraph Builtin.catalog (last.run graph).2 =
        ⟨4, 2, ["rule-3", "rule-1", "rule-2"], 92⟩ := by
  obtain ⟨parsed, start, read, ok, tested⟩ : ∃ parsed start,
      parseSource innerAndStatic = .ok parsed ∧ buildGraph parsed.tree = .ok start ∧
      let graph := (Operation.runAll innerSteps start).reloaded
      let last := Operation.applyRule Builtin.catalog "rule-2"
      decide (⟨"n4", "rule-3"⟩ ∈ Stats.deadEntries graph ∧
        (∃ rewrite ∈ last.rewrites graph, "n4" ∈ rewrite.made ∧
          "n4" ∈ rewrite.before.graph.history.map (·.node)) ∧
        ⟨"n4", "rule-3"⟩ ∈ Stats.liveEntries (last.run graph).2 ∧
        Stats.ofGraph Builtin.catalog (last.run graph).2 =
          ⟨4, 2, ["rule-3", "rule-1", "rule-2"], 92⟩) :=
    exists_tested_graph (by decide +kernel)
  have formed := Operation.wellFormed_runAll (buildGraph_built ok).wellFormed innerSteps
  have loaded : (Operation.reload.run (Operation.runAll innerSteps start)).2 =
      (Operation.runAll innerSteps start).reloaded := by
    rw [Operation.run_reload formed]
  exact ⟨parsed, start, _, read, ok, loaded.symm, of_decide_eq_true tested⟩

end Transcode
