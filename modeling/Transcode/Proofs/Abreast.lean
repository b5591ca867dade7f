import Transcode.Proofs.Staleness
import Transcode.Proofs.Tandem

/-!
# Transforming a graph under other names

A pass over a graph and a pass over the same graph under other names apply corresponding matches one
by one (`Pass.Abreast.step`). An id may be used again after its node is gone, and then it stands for
one node in the matches of the pass and for another in the graph; but such matches are skipped in
both passes. So runs in both graphs count the same and end with one graph under two names
(`Renamed.exists_transform`).
-/

namespace Transcode

namespace CodeGraph

variable {graph : CodeGraph} {rule : Rule} {found : Match} {consumed : List String}

/-- A match that binds what has been consumed is stale. -/
theorem stillValid_of_consumed (fits : found.Fits rule) {binding : Binding}
    (member : binding ∈ found.bindings) (gone : binding.node ∈ consumed) :
    graph.stillValid rule found consumed = false := by
  rw [← Bool.not_eq_true]
  intro still
  obtain ⟨place, node, isBound⟩ := exists_stillBound? fits still binding member
  exact (stillBound?_eq_some_iff.mp isBound).1 gone

/-- What has been consumed elsewhere does not matter to a match. -/
theorem stillValid_of_apart (apart : ∀ binding ∈ found.bindings, binding.node ∉ consumed) :
    graph.stillValid rule found consumed = graph.stillValid rule found [] := by
  have same : ∀ entry ∈ rule.sourcePattern.nodes.zip found.bindings,
      graph.stillBound? consumed entry.1 entry.2 = graph.stillBound? [] entry.1 entry.2 := by
    intro entry member
    have unconsumed := apart entry.2 (List.of_mem_zip member).2
    rw [stillBound?, if_neg (mt List.contains_iff_mem.mp unconsumed)]
    rfl
  unfold stillValid
  dsimp only
  rw [mapM_congr_of_mem same]

end CodeGraph

namespace Renamed

variable {first second : CodeGraph} {names : Renaming} (renamed : Renamed first names second)

include renamed

/-- A binding is still there in the second graph when its counterpart is in the first. -/
theorem stillBound?_eq {binding other : Binding} (binds : (names.naming first).Binds binding other)
    (place : PatternNode) :
    second.stillBound? [] place other = (first.stillBound? [] place binding).map names.onNode := by
  have same : other.node = names.node binding.node := binds.node
  change (second.node? other.node).filter (second.accepts place) =
    ((first.node? binding.node).filter (first.accepts place)).map names.onNode
  rw [same, renamed.node?_eq]
  cases first.node? binding.node with
  | none => rfl
  | some node =>
      rw [Option.map_some, Option.filter_some, Option.filter_some, renamed.accepts_eq]
      split <;> rfl

/-- An edge still connects in the second graph when its counterpart does in the first. -/
theorem stillConnects_eq {edge other : MatchedEdge}
    (carries : (names.naming first).Carries edge other) :
    second.stillConnects other = first.stillConnects edge := by
  obtain ⟨_, _, _, source, target, id⟩ := carries
  unfold CodeGraph.stillConnects
  rw [id, source, target]
  change (second.edge? (names.edge edge.edge)).any (fun current =>
    current.source = names.node edge.source && current.target = names.node edge.target) = _
  rw [renamed.edge?_eq]
  cases first.edge? edge.edge <;> simp

/-- **The same match is valid in both graphs or in neither.** -/
theorem stillValid_eq {found other : Match} (relates : (names.naming first).Relates found other)
    (rule : Rule) : second.stillValid rule other [] = first.stillValid rule found [] := by
  have bound : ((rule.sourcePattern.nodes.zip other.bindings).mapM fun entry =>
        second.stillBound? [] entry.1 entry.2) =
      ((rule.sourcePattern.nodes.zip found.bindings).mapM fun entry =>
        first.stillBound? [] entry.1 entry.2).map (List.map names.onNode) := by
    have aligned : List.Forall₂ (fun entry another : PatternNode × Binding =>
          (second.stillBound? [] entry.1 entry.2).map id =
            (first.stillBound? [] another.1 another.2).map names.onNode)
        (rule.sourcePattern.nodes.zip other.bindings)
        (rule.sourcePattern.nodes.zip found.bindings) := by
      have binds := relates.bindings
      generalize found.bindings = bindings at binds ⊢
      generalize other.bindings = others at binds ⊢
      generalize rule.sourcePattern.nodes = places
      induction binds generalizing places with
      | nil =>
          rw [List.zip_nil_right]
          exact .nil
      | cons here _ ih =>
          cases places with
          | nil => exact .nil
          | cons place rest =>
              exact .cons ((Option.map_id_apply ..).trans (renamed.stillBound?_eq here place))
                (ih rest)
    have all := map_mapM_eq aligned
    rwa [List.map_id_fun, Option.map_id] at all
  have edges : other.edges.all second.stillConnects = found.edges.all first.stillConnects := by
    have carried := relates.edges
    generalize found.edges = edges at carried ⊢
    generalize other.edges = others at carried ⊢
    induction carried with
    | nil => rfl
    | cons carries _ ih =>
        rw [List.all_cons, List.all_cons, renamed.stillConnects_eq carries, ih]
  unfold CodeGraph.stillValid
  dsimp only
  rw [bound, edges]
  cases (rule.sourcePattern.nodes.zip found.bindings).mapM fun entry =>
      first.stillBound? [] entry.1 entry.2 with
  | none => rfl
  | some bound => exact congrArg (_ && ·) constraintsHold_eq

end Renamed

/-! ### Passes -/

/-- Passes over a graph and over the same graph under other names have come to the same point. The
names that the pass has come to may differ from those at the start where an id is used again. -/
structure Pass.Abreast (first second : CodeGraph) (start : Renaming) (names : Renaming)
    (pass other : Pass) : Prop where
  since : pass.Since first
  otherSince : other.Since second
  renamed : Renamed pass.graph names other.graph
  continues : Renaming.Continues first start pass.graph names
  consumed : other.consumed = pass.consumed.map start.node
  applied : other.applied = pass.applied

section Passes

variable {first second : CodeGraph} {start : Renaming} {rules : List Rule}

/-- Matches of a graph as those of the graph under other names. -/
def Renaming.onMatch (names : Renaming) (graph : CodeGraph) : Match → Match :=
  (names.naming graph).matchAt names.place

namespace Pass.Abreast

variable {names : Renaming} {pass other : Pass} {found : Match}
  (abreast : Abreast first second start names pass other) (firstFormed : first.WellFormed)

include abreast firstFormed

/-- A node of the start that has not been consumed keeps its name. -/
theorem named_of_apart {node : Node} (member : node ∈ first.nodes)
    (apart : node.id ∉ pass.consumed) :
    pass.graph.hasNode node.id ∧ start.node node.id = names.node node.id := by
  have there := abreast.since.untouched.nodes node member apart
  refine ⟨CodeGraph.hasNode_of_mem there, ?_⟩
  rcases abreast.continues.nodes node there with ⟨_, kept⟩ | new
  · exact (congrArg Node.id kept).symm
  · exact absurd (firstFormed.nodeBound node member) (Nat.not_lt.mpr new)

/-- An edge of the start between nodes that have not been consumed keeps its name. -/
theorem edgeNamed_of_apart {edge : Edge} (member : edge ∈ first.edges)
    (apart : edge.touches pass.consumed = false) :
    edge.id ∈ pass.graph.edges.map (·.id) ∧ start.edge edge.id = names.edge edge.id := by
  have there := abreast.since.untouched.edges edge member apart
  refine ⟨List.mem_map_of_mem there, ?_⟩
  rcases abreast.continues.edges edge there with ⟨_, _, _, _, kept, _⟩ | new
  · exact kept.symm
  · exact absurd (firstFormed.edgeBound edge member) (Nat.not_lt.mpr new)

/-- **A match that binds nothing consumed** is the same match in the graphs that the passes have
come to. -/
theorem relates (within : found.Within first)
    (apart : ∀ binding ∈ found.bindings, binding.node ∉ pass.consumed) :
    (names.naming pass.graph).Relates found (start.onMatch first found) := by
  refine Naming.relates_matchAt start.place (fun binding member => ?_) (fun matched member => ?_)
    within.ends
  · obtain ⟨node, there, same, _⟩ := within.bindings binding member
    have unconsumed := apart binding member
    rw [← same] at unconsumed ⊢
    obtain ⟨known, named⟩ := abreast.named_of_apart firstFormed there unconsumed
    exact ⟨CodeGraph.hasNode_iff.mp known, named⟩
  · obtain ⟨edge, there, rfl⟩ := within.edges matched member
    obtain ⟨⟨source, sourceMember, sourceEq⟩, target, targetMember, targetEq⟩ :=
      within.ends _ member
    change source.node = edge.source at sourceEq
    change target.node = edge.target at targetEq
    refine abreast.edgeNamed_of_apart firstFormed there (Edge.touches_eq_false_iff.mpr ⟨?_, ?_⟩)
    · exact sourceEq ▸ apart source sourceMember
    · exact targetEq ▸ apart target targetMember

/-- **A step with the same match.** Both passes skip it, or both apply it. -/
theorem step (secondFormed : second.WellFormed) (renamed : Renamed first start second)
    (valid : ∀ rule ∈ rules, rule.Valid) (member : found ∈ first.findMatches rules) :
    ∃ later after otherAfter, pass.step rules found = .ok after ∧
      other.step rules (start.onMatch first found) = .ok otherAfter ∧
      Abreast first second start later after otherAfter := by
  have within := firstFormed.within_of_mem valid member
  have twinMember : start.onMatch first found ∈ second.findMatches rules := by
    rw [renamed.findMatches_eq firstFormed secondFormed valid]
    exact List.mem_map_of_mem member
  obtain ⟨rule, at_, fits⟩ := CodeGraph.fits_of_mem_findMatches member
  obtain ⟨_, twinAt, twinFits⟩ := CodeGraph.fits_of_mem_findMatches twinMember
  obtain rfl : rule = _ := Option.some.inj (at_.symm.trans twinAt)
  have ruleValid := valid rule (List.mem_of_getElem? at_)
  have skipped (stale : pass.graph.stillValid rule found pass.consumed = false)
      (twinStale : other.graph.stillValid rule (start.onMatch first found) other.consumed = false) :
      ∃ later after otherAfter, pass.step rules found = .ok after ∧
        other.step rules (start.onMatch first found) = .ok otherAfter ∧
        Abreast first second start later after otherAfter :=
    ⟨names, pass, other, step_of_stale at_ stale, step_of_stale twinAt twinStale, abreast⟩
  by_cases apart : ∀ binding ∈ found.bindings, binding.node ∉ pass.consumed
  · have twinApart : ∀ binding ∈ (start.onMatch first found).bindings,
        binding.node ∉ other.consumed := by
      rw [abreast.consumed]
      refine List.forall_mem_map.mpr fun binding bindingMember => ?_
      exact mt (List.mem_map_of_injective start.node.injective).mp (apart binding bindingMember)
    have relates := abreast.relates firstFormed within apart
    have same : other.graph.stillValid rule (start.onMatch first found) other.consumed =
        pass.graph.stillValid rule found pass.consumed := by
      rw [CodeGraph.stillValid_of_apart twinApart, CodeGraph.stillValid_of_apart apart]
      exact abreast.renamed.stillValid_eq relates rule
    cases still : pass.graph.stillValid rule found pass.consumed with
    | false => exact skipped still (same.trans still)
    | true =>
        have twinStill := same.trans still
        obtain ⟨addition, applies, new⟩ := abreast.since.formed.exists_applies_new ruleValid fits
          (CodeGraph.hasNode_of_stillValid fits still)
        obtain ⟨twinAddition, twinApplies, twinNew⟩ :=
          abreast.otherSince.formed.exists_applies_new ruleValid twinFits
            (CodeGraph.hasNode_of_stillValid twinFits twinStill)
        obtain ⟨later, result, continues⟩ := abreast.renamed.exists_result abreast.since.formed
          relates applies twinApplies new twinNew
        have replaced : (start.onMatch first found).replaced.map (·.node) =
            (found.replaced.map (·.node)).map start.node := by
          rw [Match.replaced, Renaming.onMatch, Naming.matchAt, List.filter_map, List.map_map,
            List.map_map]
          rfl
        refine ⟨later, _, _, step_of_applies at_ still applies,
          step_of_applies twinAt twinStill twinApplies, ⟨?_, ?_, result, ?_, ?_, ?_⟩⟩
        · exact ⟨applies.formed, abreast.since.untouched.result addition⟩
        · exact ⟨twinApplies.formed, abreast.otherSince.untouched.result twinAddition⟩
        · exact abreast.continues.trans continues
        · simp only [afterMatch, List.map_append, replaced, abreast.consumed]
        · exact congrArg (· + 1) abreast.applied
  · obtain ⟨binding, bindingMember, gone⟩ : ∃ binding ∈ found.bindings,
        binding.node ∈ pass.consumed := by simpa using apart
    refine skipped (CodeGraph.stillValid_of_consumed fits bindingMember gone) ?_
    refine CodeGraph.stillValid_of_consumed twinFits (List.mem_map_of_mem bindingMember) ?_
    rw [abreast.consumed]
    exact List.mem_map_of_mem gone

end Pass.Abreast

variable (firstFormed : first.WellFormed) (secondFormed : second.WellFormed)
  (renamed : Renamed first start second) (valid : ∀ rule ∈ rules, rule.Valid)

include firstFormed secondFormed renamed valid

/-- Passes that go on with the same matches stay abreast. -/
theorem Pass.Abreast.foldlM {names : Renaming} {pass other : Pass}
    (abreast : Abreast first second start names pass other) {items : List Match}
    (listed : ∀ found ∈ items, found ∈ first.findMatches rules) :
    ∃ later after otherAfter, items.foldlM (Pass.step rules) pass = .ok after ∧
      (items.map (start.onMatch first)).foldlM (Pass.step rules) other = .ok otherAfter ∧
      Abreast first second start later after otherAfter := by
  induction items generalizing names pass other with
  | nil => exact ⟨names, pass, other, rfl, rfl, abreast⟩
  | cons found rest ih =>
      obtain ⟨member, rest⟩ := List.forall_mem_cons.mp listed
      obtain ⟨between, next, otherNext, stepped, otherStepped, nextAbreast⟩ :=
        abreast.step firstFormed secondFormed renamed valid member
      obtain ⟨later, after, otherAfter, done, otherDone, last⟩ := ih nextAbreast rest
      refine ⟨later, after, otherAfter, ?_, ?_, last⟩
      · exact bind_eq_ok_iff.mpr ⟨next, stepped, done⟩
      · exact bind_eq_ok_iff.mpr ⟨otherNext, otherStepped, otherDone⟩

/-- **A pass under other names** applies as many matches and ends with the same graph under other
names. -/
theorem Renamed.exists_run : ∃ later pass other, Pass.run rules first = .ok pass ∧
    Pass.run rules second = .ok other ∧ Pass.Abreast first second start later pass other := by
  have abreast : Pass.Abreast first second start start { graph := first } { graph := second } :=
    ⟨.refl firstFormed, .refl secondFormed, renamed, .refl _ _, rfl, rfl⟩
  have done := abreast.foldlM firstFormed secondFormed renamed valid fun _ member => member
  rw [Pass.run, Pass.run, renamed.findMatches_eq firstFormed secondFormed valid]
  exact done

end Passes

/-! ### Runs -/

/-- Results of runs that count the same, with one graph under two names. -/
structure Transformed.Alike (names : Renaming) (result other : Transformed) : Prop where
  formed : result.graph.WellFormed
  otherFormed : other.graph.WellFormed
  renamed : Renamed result.graph names other.graph
  passes : other.passes = result.passes
  applied : other.applied = result.applied
  warnings : other.warnings = result.warnings

section Runs

variable {rules : List Rule} (valid : ∀ rule ∈ rules, rule.Valid)

include valid

/-- Passes until one applies nothing. -/
theorem Transformed.Alike.exists_proceed {names : Renaming} {result other : Transformed}
    (alike : result.Alike names other) (bound : Nat) :
    ∃ later last otherLast, result.proceed rules bound = .ok last ∧
      other.proceed rules bound = .ok otherLast ∧ last.Alike later otherLast ∧
      Renaming.Continues result.graph names last.graph later := by
  induction bound generalizing names result other with
  | zero =>
      refine ⟨names, _, _, rfl, rfl, ?_⟩
      unfold atBound
      rw [alike.renamed.length_findMatches]
      split
      · exact ⟨alike, .refl _ _⟩
      · exact ⟨⟨alike.formed, alike.otherFormed, alike.renamed, alike.passes, alike.applied,
          by rw [alike.passes]⟩, .refl _ _⟩
  | succ bound ih =>
      obtain ⟨between, pass, otherPass, ran, otherRan, abreast⟩ :=
        alike.renamed.exists_run alike.formed alike.otherFormed valid
      let next : Transformed :=
        { graph := pass.graph
          passes := result.passes + 1
          applied := result.applied + pass.applied }
      let otherNext : Transformed :=
        { graph := otherPass.graph
          passes := other.passes + 1
          applied := other.applied + otherPass.applied }
      have nextAlike : next.Alike between otherNext :=
        ⟨abreast.since.formed, abreast.otherSince.formed, abreast.renamed,
          congrArg (· + 1) alike.passes, congrArg₂ (· + ·) alike.applied abreast.applied, rfl⟩
      unfold proceed
      rw [ran, otherRan]
      change ∃ later last otherLast,
        (if pass.applied = 0 then .ok next else next.proceed rules bound) = .ok last ∧
        (if otherPass.applied = 0 then .ok otherNext else otherNext.proceed rules bound) =
          .ok otherLast ∧ _
      rw [abreast.applied]
      split
      · exact ⟨between, next, otherNext, rfl, rfl, nextAlike, abreast.continues⟩
      · obtain ⟨later, last, otherLast, done, otherDone, lastAlike, continues⟩ := ih nextAlike
        exact ⟨later, last, otherLast, done, otherDone, lastAlike,
          abreast.continues.trans continues⟩

/-- **A run under other names** counts the same and ends with the same graph under other names. -/
theorem Renamed.exists_transform {first second : CodeGraph} {names : Renaming}
    (renamed : Renamed first names second) (firstFormed : first.WellFormed)
    (secondFormed : second.WellFormed) (mode : RunMode) :
    ∃ later result other, transform first rules mode = .ok result ∧
      transform second rules mode = .ok other ∧ result.Alike later other ∧
      Renaming.Continues first names result.graph later := by
  cases mode with
  | singlePass =>
      obtain ⟨later, pass, other, ran, otherRan, abreast⟩ :=
        renamed.exists_run firstFormed secondFormed valid
      unfold transform
      rw [ran, otherRan]
      exact ⟨later, _, _, rfl, rfl, ⟨abreast.since.formed, abreast.otherSince.formed,
        abreast.renamed, rfl, abreast.applied, rfl⟩, abreast.continues⟩
  | fixpoint bound =>
      have alike : (⟨first, 0, 0, []⟩ : Transformed).Alike names ⟨second, 0, 0, []⟩ :=
        ⟨firstFormed, secondFormed, renamed, rfl, rfl, rfl⟩
      exact alike.exists_proceed valid bound

end Runs

end Transcode
