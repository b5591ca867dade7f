import Mathlib.Algebra.BigOperators.Fin
import Transcode.Proofs.Relinking
import Transcode.Proofs.Rounds

/-!
# Transforming a graph whole and in parts

Rules that stay within a declaration give the same on a whole graph and on its parts, up to the ids
of what is new (`transformApart_agrees`): the stages of the parts agree with those of the whole
graph, and the merge of the last stages is the last stage of the whole graph.
-/

namespace Transcode

/-! ### History -/

namespace CodeGraph

/-- What is recorded of nodes that are there. -/
def liveHistory (graph : CodeGraph) : List Provenance :=
  graph.history.filter fun entry => graph.hasNode entry.node

/-- The ids that a merge makes are not such as parts make. -/
theorem not_isPartName_reunion {graph : CodeGraph}
    (noPartName : ∀ id, graph.hasNode id → ¬IsPartName id)
    {part : Fin graph.partGroups.length → CodeGraph} {id : String}
    (there : (graph.reunion part).result.hasNode id) : ¬IsPartName id := by
  rcases Merge.hasNode_or_gives there with old | ⟨_, number, _, named⟩
  · exact noPartName id old
  · rw [named]
    exact not_isPartName_nodeName (show ({} : CodeGraph).namespaceText = "" from rfl) number

end CodeGraph

/-- The entry of a history under another id of its node. -/
def Provenance.renamed (name : String → String) (entry : Provenance) : Provenance :=
  ⟨name entry.node, entry.rule⟩

/-- Lists that are joined over the parts make up the sum of them without their order. -/
theorem coe_flatMap_finRange {α : Type} {n : Nat} (lists : Fin n → List α) :
    ((List.finRange n).flatMap lists : Multiset α) = ∑ index, (lists index : Multiset α) :=
  (Multiset.coe_bind _ _).symm

namespace NamesNodes

variable {graph : CodeGraph} {naming : Fin graph.partGroups.length → Naming}
  {part : Fin graph.partGroups.length → CodeGraph} {whole : CodeGraph} {name : String → String}
  (names : NamesNodes graph naming part whole name) (built : graph.Built)
  (accord : Accord graph.between graph.partAt naming part whole)

/-- The history of a part as it is merged. -/
def partHistory (graph : CodeGraph) (part : Fin graph.partGroups.length → CodeGraph)
    (index : Fin graph.partGroups.length) : List Provenance :=
  (part index).history.map fun entry => { entry with
    node := (Merge.renamed? (graph.reunion part).namedNodes index.val entry.node).getD entry.node }

/-- The history of a merged graph is that of the whole graph and those of the parts. -/
theorem history_reunion (graph : CodeGraph) (part : Fin graph.partGroups.length → CodeGraph) :
    (graph.reunion part).result.history =
      graph.history ++ (List.finRange graph.partGroups.length).flatMap
        (partHistory graph part) := by
  change graph.history ++ _ = _
  rw [show (graph.reunion part).parts = (List.finRange graph.partGroups.length).map part from rfl,
    CodeGraph.zipIdx_map_finRange, List.flatMap_map]
  rfl

include names built accord

/-- The history of a part is merged to what the whole graph has recorded, as far as it is of nodes
that are there. -/
theorem filter_partHistory (index : Fin graph.partGroups.length) :
    (partHistory graph part index).filter
        (fun entry => (graph.reunion part).result.hasNode entry.node) =
      (((part index).history.map (naming index).provenance).filter
        fun entry => whole.hasNode entry.node).map (Provenance.renamed name) := by
  have mirrors := accord.agrees.mirrors index
  rw [partHistory, List.filter_map, List.filter_map, List.map_map]
  have kept : ∀ entry ∈ (part index).history,
      (part index).hasNode entry.node = whole.hasNode ((naming index).node entry.node) ∧
      (part index).hasNode entry.node = (graph.reunion part).result.hasNode
        ((Merge.renamed? (graph.reunion part).namedNodes index.val entry.node).getD
          entry.node) := by
    intro entry member
    obtain ⟨known, number, named⟩ := (accord.traces index).recorded entry member
    have inWhole := mirrors.hasNode_iff known
    refine ⟨Bool.eq_iff_iff.mpr inWhole.symm, Bool.eq_iff_iff.mpr ?_⟩
    rw [names.renamed?_eq]
    split
    · rename_i there
      exact iff_of_true there (names.bijection.mapsTo (inWhole.mpr there))
    · rename_i gone
      refine iff_of_false gone fun there => ?_
      exact CodeGraph.not_isPartName_reunion (fun _ => built.not_isPartName) there
        ⟨index.val, number, named⟩
  have live : (part index).history.filter (fun entry => (graph.reunion part).result.hasNode
      ((Merge.renamed? (graph.reunion part).namedNodes index.val entry.node).getD entry.node)) =
      (part index).history.filter fun entry => (part index).hasNode entry.node :=
    List.filter_congr fun entry member => (kept entry member).2.symm
  have liveInWhole : (part index).history.filter
      (fun entry => whole.hasNode ((naming index).node entry.node)) =
      (part index).history.filter fun entry => (part index).hasNode entry.node :=
    List.filter_congr fun entry member => (kept entry member).1.symm
  refine (congrArg _ live).trans (Eq.trans ?_ (congrArg _ liveInWhole).symm)
  refine List.map_congr_left fun entry member => ?_
  rw [names.renamed?_of_hasNode (List.mem_filter.mp member).2]
  rfl

/-- **The histories** say the same of the nodes that are there. -/
theorem liveHistory_perm :
    (whole.liveHistory.map (Provenance.renamed name)).Perm
      (graph.reunion part).result.liveHistory := by
  have recorded : whole.history.Perm ((List.finRange graph.partGroups.length).flatMap fun index =>
      (part index).history.map (naming index).provenance) := by
    rw [← Multiset.coe_eq_coe, coe_flatMap_finRange]
    exact accord.joins.history
  have merged : (graph.reunion part).result.history =
      (List.finRange graph.partGroups.length).flatMap (partHistory graph part) := by
    rw [history_reunion, built.noHistory, List.nil_append]
  refine ((recorded.filter _).map _).trans (List.Perm.of_eq ?_)
  rw [CodeGraph.liveHistory, merged, List.filter_flatMap, List.map_flatMap, List.filter_flatMap]
  exact List.flatMap_congr fun index _ => (names.filter_partHistory built accord index).symm

end NamesNodes

/-! ### Runs -/

/-- How many graphs of a run are searched for matches at most. -/
def RunMode.searches : RunMode → Nat
  | .singlePass => 1
  | .fixpoint bound => bound + 1

variable {graph : CodeGraph} {rules : List Rule} {mode : RunMode}

/-- No search of a run reaches its limit. -/
def WithinLimit (graph : CodeGraph) (rules : List Rule) (mode : RunMode) : Prop :=
  ∀ number < mode.searches, ∀ rule ∈ rules,
    (rule.search (graph.stage rules number)).embeddings.length < embeddingLimit

instance : Decidable (WithinLimit graph rules mode) :=
  inferInstanceAs (Decidable (∀ number < mode.searches, ∀ rule ∈ rules,
    (rule.search (graph.stage rules number)).embeddings.length < embeddingLimit))

/-- A rule that stays within a declaration. -/
structure Rule.Separate (rule : Rule) : Prop where
  valid : rule.validate = .ok ()
  inDeclaration : rule.crossDeclaration = false
  isLocal : rule.sourcePattern.Local

/-- Two runs on a graph give the same, up to the ids of what is new. -/
structure Transformed.SameUpTo (original : CodeGraph) (first second : Transformed) : Prop where
  graphs : ∃ node edge, Transcode.SameUpTo original first.graph second.graph node edge ∧
    (first.graph.liveHistory.map (Provenance.renamed node)).Perm second.graph.liveHistory
  applied : first.applied = second.applied
  passes : original.nodes ≠ [] → first.passes = second.passes
  pending : (first.warnings.map Warning.pending).sum = (second.warnings.map Warning.pending).sum

/-- A number is below the greatest when it is below one of them. -/
theorem lt_foldl_max_iff {items : List Nat} {first number : Nat} :
    number < items.foldl max first ↔ number < first ∨ ∃ item ∈ items, number < item := by
  induction items generalizing first with
  | nil => simp
  | cons item rest ih => rw [List.foldl_cons, ih, lt_max_iff, List.exists_mem_cons_iff, or_assoc]

section Apart

variable (built : graph.Built) (valid : ∀ rule ∈ rules, rule.Valid)
  (isLocal : ∀ rule ∈ rules, rule.sourcePattern.Local)
  (within : WithinLimit graph rules mode)

include built valid within

/-- A search that has not reached its limit has found all there is. -/
theorem length_assignments_le {number : Nat} (searched : number < mode.searches) :
    ∀ rule ∈ rules, (rule.assignments (graph.stage rules number)).length ≤ embeddingLimit := by
  intro rule listed
  have less := within number searched rule listed
  rw [Search.embeddings_eq_take (built.wellFormed.stage valid number), List.length_take] at less
  exact Nat.le_of_lt ((min_lt_iff.mp less).resolve_left (Nat.lt_irrefl _))

include isLocal

/-- The last stages agree, and each pass applies as many matches to the parts as to the graph. -/
theorem exists_lastStage :
    (∃ naming, Accord graph.between graph.partAt naming
        (fun index => (graph.partAt index).stage rules mode.passes)
        (graph.stage rules mode.passes)) ∧
      ∀ earlier < mode.passes, graph.appliedAt rules earlier =
        ∑ index, (graph.partAt index).appliedAt rules earlier := by
  refine built.accord.exists_stage valid isLocal built.noContainment fun earlier before => ?_
  refine length_assignments_le built valid within (Nat.lt_of_lt_of_le before ?_)
  cases mode
  · exact Nat.le_refl _
  · exact Nat.le_succ _

variable {whole : Transformed} (describes : whole.Describes graph rules mode)
  {result : Fin graph.partGroups.length → Transformed}
  (parts : ∀ index, (result index).Describes (graph.partAt index) rules mode)

include describes parts

/-- A run over the whole applies what the parts do together. -/
theorem applied_eq_sum :
    whole.applied = (((List.finRange graph.partGroups.length).map result).map (·.applied)).sum := by
  have counts := (exists_lastStage built valid isLocal within).2
  rw [List.map_map, ← Fin.sum_univ_def, describes.applied,
    Finset.sum_congr rfl fun earlier before => counts earlier (Finset.mem_range.mp before),
    Finset.sum_comm]
  exact Finset.sum_congr rfl fun index _ => (parts index).applied.symm

/-- A run over the whole leaves as many matches as the parts together. -/
theorem pending_eq_sum :
    (whole.warnings.map Warning.pending).sum =
      ((((List.finRange graph.partGroups.length).map result).flatMap (·.warnings)).map
        Warning.pending).sum := by
  rw [describes.pending, List.flatMap_map, List.map_flatMap, List.flatMap_def, List.sum_flatten,
    List.map_map, ← Fin.sum_univ_def]
  refine Eq.trans ?_ (Finset.sum_congr rfl fun index _ => (parts index).pending.symm)
  cases mode with
  | singlePass => exact Finset.sum_const_zero.symm
  | fixpoint bound =>
      obtain ⟨_, accord⟩ := (exists_lastStage built valid isLocal within).1
      exact accord.length_findMatches valid isLocal
        (length_assignments_le built valid within (Nat.lt_succ_self bound))

/-- A run over the whole takes as many passes as the part that takes most. -/
theorem passes_eq_max (nonempty : graph.nodes ≠ []) :
    whole.passes =
      (((List.finRange graph.partGroups.length).map result).map (·.passes)).foldl max 0 := by
  have counts := (exists_lastStage built valid isLocal within).2
  have inParts (number : Nat) : number <
      (((List.finRange graph.partGroups.length).map result).map (·.passes)).foldl max 0 ↔
      ∃ index, number < mode.passes ∧
        ∀ earlier < number, (graph.partAt index).appliedAt rules earlier ≠ 0 := by
    rw [lt_foldl_max_iff, List.map_map]
    simp [(parts _).passes]
  refine eq_of_forall_lt_iff fun number => ?_
  rw [describes.passes, inParts, exists_and_left]
  refine and_congr_right fun bound => ⟨fun active => ?_, fun ⟨index, active⟩ earlier before => ?_⟩
  · -- Some part is still active in the last pass before, so it was active all along.
    cases number with
    | zero =>
        obtain ⟨node, member⟩ := List.exists_mem_of_ne_nil _ nonempty
        obtain ⟨index, _⟩ := built.exists_partAt (CodeGraph.hasNode_of_mem member)
        exact ⟨index, fun _ before => absurd before (Nat.not_lt_zero _)⟩
    | succ last =>
        have some := active last (Nat.lt_succ_self last)
        rw [counts last (Nat.lt_of_succ_lt bound)] at some
        obtain ⟨index, _, inPart⟩ := Finset.exists_ne_zero_of_sum_ne_zero some
        refine ⟨index, fun earlier before none => inPart ?_⟩
        exact (built.mirrors index).partFormed.appliedAt_eq_zero_of_le valid
          (Nat.le_of_lt_succ before) none
  · rw [counts earlier (Nat.lt_trans before bound)]
    intro none
    exact active earlier before (Finset.sum_eq_zero_iff.mp none index (Finset.mem_univ index))

/-- The merge of what runs on the parts give. -/
theorem exists_sameUpTo_reunion :
    ∃ node edge, SameUpTo graph whole.graph
      (graph.reunion fun index => (result index).graph).result node edge ∧
      (whole.graph.liveHistory.map (Provenance.renamed node)).Perm
        (graph.reunion fun index => (result index).graph).result.liveHistory := by
  obtain ⟨naming, accord⟩ := (exists_lastStage built valid isLocal within).1
  simp only [describes.last, (parts _).last]
  obtain ⟨node, names⟩ := accord.exists_namesNodes built
  obtain ⟨edge, same⟩ := names.exists_sameUpTo built accord
  exact ⟨node, edge, same, names.liveHistory_perm built accord⟩

end Apart

/-- The built-in rules that take part when a whole graph is transformed stay within a
declaration. -/
theorem Builtin.separate_automated : ∀ rule ∈ Builtin.catalog.automated, rule.Separate := by
  have inDeclaration {rule : Rule} (hub : String) (valid : rule.validate = .ok ())
      (within : rule.crossDeclaration = false)
      (each : ∀ name ∈ rule.sourcePattern.names,
        name = hub ∨ ⟨hub, name, .contains⟩ ∈ rule.sourcePattern.edges)
      (tests : ∀ node ∈ rule.sourcePattern.nodes, ∀ test ∈ node.children, test.edge = .contains) :
      rule.Separate :=
    ⟨valid, within, SourcePattern.connected_of_hub hub each, tests⟩
  intro rule member
  have listed :
      rule ∈ [classToInterface, staticToFunction, innerToStandalone, accessorToProperty] :=
    member
  simp only [List.mem_cons, List.not_mem_nil, or_false] at listed
  rcases listed with rfl | rfl | rfl | rfl
  · exact inDeclaration "cls" (by decide +kernel) rfl (by decide +kernel) (by decide +kernel)
  · exact inDeclaration "owner" (by decide +kernel) rfl (by decide +kernel) (by decide +kernel)
  · exact inDeclaration "outer" (by decide +kernel) rfl (by decide +kernel) (by decide +kernel)
  · exact inDeclaration "owner" (by decide +kernel) rfl (by decide +kernel) (by decide +kernel)

/-- **A graph can be transformed whole or in parts.** For a graph of a syntax tree and valid rules
that stay within a declaration, as the built-in ones do, both ways succeed and give the same up to
the ids of what is new, in any mode, as long as no search reaches its limit. -/
theorem transformApart_agrees :
    (∀ rule ∈ Builtin.catalog.automated, rule.Separate) ∧
    ∀ {tree : SyntaxTree} {graph : CodeGraph} {rules : List Rule} {mode : RunMode},
      buildGraph tree = .ok graph → (∀ rule ∈ rules, rule.Separate) →
      WithinLimit graph rules mode →
      ∃ whole apart, transform graph rules mode = .ok whole ∧
        transformApart graph rules mode = .ok apart ∧ whole.SameUpTo graph apart := by
  refine ⟨Builtin.separate_automated, fun {tree graph rules mode} ok separate within => ?_⟩
  have built := buildGraph_built ok
  have valid : ∀ rule ∈ rules, rule.Valid := fun rule listed =>
    Rule.valid_of_validate (separate rule listed).valid
  have isLocal : ∀ rule ∈ rules, rule.sourcePattern.Local := fun rule listed =>
    (separate rule listed).isLocal
  obtain ⟨whole, ran, describes⟩ := exists_transform_describes valid built.wellFormed mode
  choose result partRan parts using fun index : Fin graph.partGroups.length =>
    exists_transform_describes valid (built.mirrors index).partFormed mode
  have transformed : List.Forall₂ (fun part result => transform part rules mode = .ok result)
      graph.parts ((List.finRange graph.partGroups.length).map result) := by
    rw [graph.parts_eq, List.forall₂_map_left_iff, List.forall₂_map_right_iff, List.forall₂_same]
    exact fun index _ => partRan index
  have merged := (transformParts_eq built.wellFormed transformed).2
  rw [List.map_map] at merged
  have apartRan : transformApart graph rules mode = transformParts graph rules mode := by
    refine if_neg ?_
    rw [Bool.not_eq_true, List.any_eq_false]
    exact fun rule listed => by simp [(separate rule listed).inDeclaration]
  refine ⟨whole, _, ran, apartRan.trans merged, ?_⟩
  exact ⟨exists_sameUpTo_reunion built valid isLocal within describes parts,
    applied_eq_sum built valid isLocal within describes parts,
    passes_eq_max built valid isLocal within describes parts,
    pending_eq_sum built valid isLocal within describes parts⟩

/-- A static method of one class that a method of another one calls. -/
def staticCall : SyntaxTree where
  kind := .program
  range := default
  children := [
    { kind := .classDecl, name := some "A", range := default
      children := [{ kind := .method, name := some "f", range := default
                     attributes := Dict.empty.insert "modifiers" "static" }] },
    { kind := .classDecl, name := some "B", range := default
      children := [{ kind := .method, name := some "g", range := default
                     children := [{ kind := .block, range := default
                                    children := [{ kind := .call, name := some "f"
                                                   range := default }] }] }] }]

/-- A static method becomes a function, and the call from another class goes to the function. -/
theorem transformApart_agrees_staticCall :
    let rules := [Builtin.classToInterface, Builtin.staticToFunction, Builtin.innerToStandalone]
    ∃ graph whole apart, buildGraph staticCall = .ok graph ∧ graph.appliedAt rules 0 = 1 ∧
      transform graph rules (.fixpoint 3) = .ok whole ∧
      transformApart graph rules (.fixpoint 3) = .ok apart ∧ whole.SameUpTo graph apart := by
  intro rules
  obtain ⟨separate, runs⟩ := transformApart_agrees
  have listed : ∀ rule ∈ rules, rule ∈ Builtin.catalog.automated := by
    intro rule member
    exact List.mem_append_left [Builtin.accessorToProperty] member
  have checked : (buildGraph staticCall).toOption.any (fun graph =>
      decide (WithinLimit graph rules (.fixpoint 3) ∧ graph.appliedAt rules 0 = 1)) = true := by
    decide +kernel
  cases ok : buildGraph staticCall with
  | error _ =>
      rw [ok] at checked
      cases checked
  | ok graph =>
      rw [ok] at checked
      obtain ⟨within, applied⟩ := of_decide_eq_true checked
      obtain ⟨whole, apart, ran, apartRan, same⟩ := runs ok
        (fun rule member => separate rule (listed rule member)) within
      exact ⟨graph, whole, apart, rfl, applied, ran, apartRan, same⟩

end Transcode
