import Transcode.Proofs.Precedence

/-!
# Whom a cycle of units is reported with

Where the units of a graph cannot be put in order, what is left over is every unit from which the
dependencies lead to a cycle, also those that lie on none. The earliest created of them is reported
(`Output.orderedUnits_culprit`), so that the report names a unit of a cycle exactly if no unit that
only leads to one was created before all of these.
-/

namespace Transcode

/-- In a finite set in which everything has something below it, the way down from anywhere leads to
something that is below itself. -/
theorem exists_transGen_self_below {α : Type} {relation : α → α → Prop} {items : List α} {start : α}
    (each : ∀ item ∈ items, ∃ below ∈ items, relation item below) (member : start ∈ items) :
    ∃ item, Relation.ReflTransGen relation start item ∧ Relation.TransGen relation item item := by
  classical
  let reached := items.filter (Relation.ReflTransGen relation start ·)
  have mem_reached {item : α} : item ∈ reached ↔
      item ∈ items ∧ Relation.ReflTransGen relation start item := by simp [reached]
  have further : ∀ item ∈ reached, ∃ below ∈ reached, relation item below := by
    intro item isReached
    obtain ⟨here, way⟩ := mem_reached.mp isReached
    obtain ⟨below, there, related⟩ := each item here
    exact ⟨below, mem_reached.mpr ⟨there, way.tail related⟩, related⟩
  have nonempty : reached ≠ [] := List.ne_nil_of_mem (mem_reached.mpr ⟨member, .refl⟩)
  obtain ⟨item, isReached, cycle⟩ := exists_transGen_self nonempty further
  exact ⟨item, (mem_reached.mp isReached).2, cycle⟩

namespace Output

/-! ### What leads to a cycle -/

/-- Something leads to itself, directly or through others. -/
def IsCyclic (relation : String → String → Prop) (id : String) : Prop :=
  Relation.TransGen relation id id

/-- Something leads to a cycle, on which it need not be. -/
def LeadsToCycle (relation : String → String → Prop) (id : String) : Prop :=
  ∃ culprit, Relation.ReflTransGen relation id culprit ∧ IsCyclic relation culprit

section Relations

variable {relation : String → String → Prop} {id : String}

theorem IsCyclic.leadsToCycle (cyclic : IsCyclic relation id) : LeadsToCycle relation id :=
  ⟨id, .refl, cyclic⟩

/-- What leads to a cycle does so through something that it is related to. -/
theorem LeadsToCycle.exists_next (leads : LeadsToCycle relation id) :
    ∃ next, relation id next ∧ LeadsToCycle relation next := by
  obtain ⟨culprit, way, cyclic⟩ := leads
  obtain rfl | ⟨next, related, later⟩ := way.cases_head
  · obtain ⟨next, related, back⟩ := Relation.TransGen.head'_iff.mp cyclic
    exact ⟨next, related, id, back, cyclic⟩
  · exact ⟨next, related, culprit, later, cyclic⟩

end Relations

/-! ### What is left over -/

section Arrangements

variable {required : List Requirement} {out : List String} {left : List Node}
  {outcome : Except Failure (List Node)} {failure : Failure}

/-- Units that cannot be put in order are reported with the earliest of those that lead to a cycle.
Each unit that comes out leads to none, as it needs only units that are out. -/
theorem Arranges.exists_culprit (arranges : Arranges required out left outcome)
    (fails : outcome = .error failure)
    (known : ∀ node ∈ left, ∀ base, Needs required node.id base →
      base ∈ out ∨ base ∈ left.map (·.id))
    (sorted : left.Pairwise (·.seq < ·.seq))
    (straight : ∀ id ∈ out, ¬LeadsToCycle (Needs required) id) :
    ∃ culprit ∈ left, failure = .cyclic culprit.id ∧
      LeadsToCycle (Needs required) culprit.id ∧
      ∀ node ∈ left, LeadsToCycle (Needs required) node.id → culprit.seq ≤ node.seq := by
  induction arranges with
  | done => cases fails
  | @stuck out first rest none =>
      cases fails
      have each : ∀ id ∈ (first :: rest).map (·.id), ∃ base ∈ (first :: rest).map (·.id),
          Needs required id base := by
        intro id member
        obtain ⟨node, there, rfl⟩ := List.mem_map.mp member
        have waits := none node there
        rw [isReady_iff] at waits
        push Not at waits
        obtain ⟨base, needs, missing⟩ := waits
        exact ⟨base, (known node there base needs).resolve_left missing, needs⟩
      have leads := exists_transGen_self_below each (List.mem_map_of_mem List.mem_cons_self)
      refine ⟨first, List.mem_cons_self, rfl, leads, fun node there _ => ?_⟩
      rcases List.mem_cons.mp there with rfl | later
      · exact Nat.le_refl _
      · exact Nat.le_of_lt ((List.pairwise_cons.mp sorted).1 node later)
  | @next out left next outcome first _ ih =>
      cases outcome with
      | ok _ => cases fails
      | error fault =>
          cases fails
          have nextStraight : ¬LeadsToCycle (Needs required) next.id := fun leads => by
            obtain ⟨base, needs, leads⟩ := leads.exists_next
            exact straight base (isReady_iff.mp (List.find?_some first) base needs) leads
          obtain ⟨culprit, there, reported, leads, least⟩ := ih rfl
            (known_filter_ne known) (sorted.filter _)
            (List.forall_mem_cons.mpr ⟨nextStraight, straight⟩)
          refine ⟨culprit, (List.mem_filter.mp there).1, reported, leads,
            fun node member leads => ?_⟩
          have other : node.id ≠ next.id := fun same => nextStraight (same ▸ leads)
          exact least node (List.mem_filter.mpr ⟨member, decide_eq_true other⟩) leads

end Arrangements

/-! ### The unit reported -/

variable {graph : CodeGraph}

/-- **Whom a failure names.** Where nothing contains itself and the units still cannot be put in
order, the failure names the earliest created of the units from which the dependencies lead to a
cycle. So it names a unit of a cycle if and only if one of these was created before all units
that only lead to a cycle. -/
theorem orderedUnits_culprit {failure : Failure} (wellFormed : graph.WellFormed)
    (acyclic : graph.Acyclic) (fails : orderedUnits graph = .error failure) :
    ∃ unit ∈ units graph, failure = .cyclic unit.id ∧ LeadsToCycle (DependsOn graph) unit.id ∧
      (∀ other ∈ units graph, LeadsToCycle (DependsOn graph) other.id → unit.seq ≤ other.seq) ∧
      (IsCyclic (DependsOn graph) unit.id ↔
        ∃ culprit ∈ units graph, IsCyclic (DependsOn graph) culprit.id ∧
          ∀ other ∈ units graph, LeadsToCycle (DependsOn graph) other.id →
            ¬IsCyclic (DependsOn graph) other.id → culprit.seq < other.seq) := by
  have needs : Needs (requirements graph) = DependsOn graph := by
    funext unit base
    exact propext (needs_requirements_iff wellFormed acyclic)
  have known : ∀ node ∈ units graph, ∀ base, Needs (requirements graph) node.id base →
      base ∈ [] ∨ base ∈ (units graph).map (·.id) := by
    intro node _ base needed
    obtain ⟨_, _, _, _, _, written⟩ := (needs_requirements_iff wellFormed acyclic).mp needed
    exact .inr written.mem_units
  have sorted : (units graph).Pairwise (·.seq < ·.seq) := wellFormed.nodeOrder.filter _
  have arranges := arranges_orderedUnits wellFormed
  obtain ⟨unit, member, reported, leads, least⟩ :=
    arranges.exists_culprit fails known sorted (by simp)
  rw [needs] at leads least
  refine ⟨unit, member, reported, leads, least, fun cyclic => ?_, fun found => ?_⟩
  · refine ⟨unit, member, cyclic, fun other there leads straight => ?_⟩
    refine Nat.lt_of_le_of_ne (least other there leads) fun same => ?_
    exact straight (wellFormed.eq_of_seq (List.mem_filter.mp member).1 (List.mem_filter.mp there).1
      same ▸ cyclic)
  · obtain ⟨culprit, there, cyclic, before⟩ := found
    by_contra straight
    exact Nat.lt_irrefl _ (Nat.lt_of_lt_of_le (before unit member leads straight)
      (least culprit there cyclic.leadsToCycle))

/-- Two classes that extend each other and a later one that extends the second: the first is named,
and it is one of the two. -/
theorem orderedUnits_culprit_laterClass :
    ∃ graph : CodeGraph, graph.WellFormed ∧ graph.Acyclic ∧
      orderedUnits graph = .error (.cyclic "n0") ∧ LeadsToCycle (DependsOn graph) "n0" := by
  obtain ⟨graph, wellFormed, tested⟩ := CodeGraph.WellFormed.exists_ofData {
      nodes := [⟨"n0", "A", .classType, ∅⟩, ⟨"n1", "B", .classType, ∅⟩, ⟨"n2", "C", .classType, ∅⟩]
      edges := [⟨"e0", "n0", "n1", .extending, ∅⟩, ⟨"e1", "n1", "n0", .extending, ∅⟩,
        ⟨"e2", "n2", "n1", .extending, ∅⟩] }
    (fun graph => graph.containmentCulprit?.isNone && orderedUnits graph = .error (.cyclic "n0"))
    (by decide +kernel)
  simp only [Bool.and_eq_true, Option.isNone_iff_eq_none, decide_eq_true_eq] at tested
  have acyclic := wellFormed.containmentCulprit?_eq_none_iff.mp tested.1
  obtain ⟨unit, _, reported, leads, _⟩ := orderedUnits_culprit wellFormed acyclic tested.2
  have named : "n0" = unit.id := by injection reported
  exact ⟨graph, wellFormed, acyclic, tested.2, named ▸ leads⟩

/-- A class that extends one of two classes that extend each other, and is declared before them, is
named, although nothing depends on it. -/
theorem orderedUnits_earlierClass :
    let source := "class C extends A {} class A extends B {} class B extends A {}"
    ∃ parsed graph, parseSource source = .ok parsed ∧ buildGraph parsed.tree = .ok graph ∧
      graph.Acyclic ∧ orderedUnits graph = .error (.cyclic "n0") ∧
      ¬IsCyclic (DependsOn graph) "n0" := by
  intro source
  obtain ⟨parsed, graph, read, ok, tested⟩ : ∃ parsed graph, parseSource source = .ok parsed ∧
      buildGraph parsed.tree = .ok graph ∧
      decide (graph.containmentCulprit? = none ∧ orderedUnits graph = .error (.cyclic "n0") ∧
        ∀ requirement ∈ requirements graph, requirement.base ≠ "n0") :=
    exists_tested_graph (by decide +kernel)
  obtain ⟨apart, failed, unneeded⟩ := of_decide_eq_true tested
  have wellFormed := (buildGraph_built ok).wellFormed
  have acyclic := wellFormed.containmentCulprit?_eq_none_iff.mp apart
  refine ⟨parsed, graph, read, ok, acyclic, failed, fun cyclic => ?_⟩
  obtain ⟨unit, _, depends⟩ := Relation.TransGen.tail'_iff.mp cyclic
  exact unneeded _ ((needs_requirements_iff wellFormed acyclic).mpr depends) rfl

end Output

end Transcode
