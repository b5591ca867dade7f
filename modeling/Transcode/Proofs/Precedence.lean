import Transcode.Proofs.Failures

/-!
# Bases before what builds on them

Units come in the order in which they can (`Output.Precedence`): all of them, each after the units
that it depends on, and at each place the earliest created of those that can come there. The order
exists unless a unit depends on itself, and a graph is written out exactly if it does and nothing
contains itself (`Output.orderedUnits_precedence`).
-/

namespace Transcode

namespace Output

variable {graph : CodeGraph} {required : List Requirement} {out : List String}
  {left ordered : List Node} {outcome : Except Failure (List Node)}

/-! ### Arrangements -/

/-- All units that are left are put in order. -/
theorem Arranges.perm (arranges : Arranges required out left outcome)
    (complete : outcome = .ok ordered) (distinct : (left.map (·.id)).Nodup) :
    ordered.Perm left := by
  induction arranges generalizing ordered with
  | done =>
      cases complete
      exact .refl _
  | stuck => cases complete
  | @next out left next outcome first _ ih =>
      cases outcome with
      | error _ => cases complete
      | ok others =>
          cases complete
          have fewer : ((left.filter (·.id ≠ next.id)).map (·.id)).Nodup :=
            distinct.sublist (List.filter_sublist.map _)
          exact ((ih rfl fewer).cons next).trans
            (perm_cons_filter_ne distinct (List.mem_of_find?_eq_some first))

/-- At each place of an order is the first of the units that are left and ready there. -/
theorem Arranges.earliest (arranges : Arranges required out left outcome)
    (complete : outcome = .ok ordered) (distinct : (left.map (·.id)).Nodup)
    (sorted : left.Pairwise (·.seq < ·.seq)) {before after : List Node} {node : Node}
    (split : ordered = before ++ node :: after) :
    isReady required (before.reverse.map (·.id) ++ out) node ∧
      ∀ other ∈ left, other ∉ before → isReady required (before.reverse.map (·.id) ++ out) other →
        node.seq ≤ other.seq := by
  induction arranges generalizing ordered before with
  | done =>
      cases complete
      cases before <;> cases split
  | stuck => cases complete
  | @next out left next outcome first _ ih =>
      cases outcome with
      | error _ => cases complete
      | ok others =>
          cases complete
          cases before with
          | nil =>
              cases split
              obtain ⟨ready, earlier, later, rfl, unready⟩ := List.find?_eq_some_iff_append.mp first
              refine ⟨ready, fun other member _ otherReady => ?_⟩
              rcases List.mem_append.mp member with skipped | here
              · have waits := unready other skipped
                rw [Bool.not_eq_true'] at waits
                exact absurd otherReady (Bool.eq_false_iff.mp waits)
              · rcases List.mem_cons.mp here with rfl | behind
                · exact Nat.le_refl _
                · exact Nat.le_of_lt
                    ((List.pairwise_cons.mp (List.pairwise_append.mp sorted).2.1).1 other behind)
          | cons head before =>
              cases split
              have fewer : ((left.filter (·.id ≠ next.id)).map (·.id)).Nodup :=
                distinct.sublist (List.filter_sublist.map _)
              -- The units before the node now include the one that has just come out.
              have outs : (next :: before).reverse.map (·.id) ++ out =
                  before.reverse.map (·.id) ++ next.id :: out := by simp
              obtain ⟨ready, least⟩ := ih rfl fewer (sorted.filter _) rfl
              rw [outs]
              refine ⟨ready, fun other member apart otherReady => ?_⟩
              rw [List.mem_cons, not_or] at apart
              refine least other (List.mem_filter.mpr ⟨member, decide_eq_true fun same => ?_⟩)
                apart.2 otherReady
              exact apart.1 (List.inj_on_of_nodup_map distinct member
                (List.mem_of_find?_eq_some first) same)

/-! ### Orders of units -/

/-- A unit that has not come yet and depends on none but units that have. -/
structure CanFollow (graph : CodeGraph) (before : List Node) (unit : Node) : Prop where
  isUnit : unit ∈ units graph
  new : unit ∉ before
  based : ∀ base, DependsOn graph unit.id base → base ∈ before.map (·.id)

/-- An order of all units in which each comes after those that it depends on, and at each place the
earliest created unit that can come there. -/
structure Precedence (graph : CodeGraph) (ordered : List Node) : Prop where
  perm : ordered.Perm (units graph)
  basesFirst : ∀ unit base, DependsOn graph unit base →
    (ordered.map (·.id)).idxOf base < (ordered.map (·.id)).idxOf unit
  earliest : ∀ before unit after, ordered = before ++ unit :: after →
    CanFollow graph before unit ∧
      ∀ other, CanFollow graph before other → unit.seq ≤ other.seq

section WellFormed

variable (wellFormed : graph.WellFormed)

include wellFormed

variable (acyclic : graph.Acyclic)

include acyclic

/-- A unit is ready when every unit it depends on is out. -/
theorem isReady_requirements_iff {node : Node} :
    isReady (requirements graph) out node ↔ ∀ base, DependsOn graph node.id base → base ∈ out := by
  rw [isReady_iff]
  exact forall_congr' fun base => imp_congr_left (needs_requirements_iff wellFormed acyclic)

/-- **The order of units** is one in which bases come first. -/
theorem precedence_of_orderedUnits (complete : orderedUnits graph = .ok ordered) :
    Precedence graph ordered := by
  have arranges := arranges_orderedUnits wellFormed
  have distinct := nodup_units wellFormed
  have perm := arranges.perm complete distinct
  have orderedDistinct : (ordered.map (·.id)).Nodup := (perm.map _).nodup_iff.mpr distinct
  have earliest : ∀ before unit after, ordered = before ++ unit :: after →
      CanFollow graph before unit ∧
        ∀ other, CanFollow graph before other → unit.seq ≤ other.seq := by
    intro before unit after split
    obtain ⟨ready, least⟩ :=
      arranges.earliest complete distinct (wellFormed.nodeOrder.filter _) split
    simp only [List.append_nil, isReady_requirements_iff wellFormed acyclic, List.map_reverse,
      List.mem_reverse] at ready least
    have member : unit ∈ ordered := by simp [split]
    refine ⟨⟨perm.mem_iff.mp member, fun again => ?_, ready⟩, fun other follows =>
      least other follows.isUnit follows.new follows.based⟩
    have apart := List.Nodup.of_map _ orderedDistinct
    rw [split, List.nodup_append] at apart
    exact apart.2.2 unit again unit List.mem_cons_self rfl
  refine ⟨perm, fun unit base depends => ?_, earliest⟩
  obtain ⟨_, edge, _, _, written, _⟩ := id depends
  obtain ⟨node, member, rfl⟩ := List.mem_map.mp written.mem_units
  obtain ⟨before, after, split⟩ := List.append_of_mem (perm.mem_iff.mpr member)
  have based := (earliest before node after split).1.based base depends
  rw [split, List.map_append, List.map_cons] at orderedDistinct ⊢
  have fresh : node.id ∉ before.map (·.id) := fun again =>
    (List.nodup_append.mp orderedDistinct).2.2 _ again _ List.mem_cons_self rfl
  rw [List.idxOf_append_of_mem based, List.idxOf_append_of_notMem fresh]
  exact Nat.lt_of_lt_of_le (List.idxOf_lt_length_of_mem based) (Nat.le_add_right _ _)

end WellFormed

/-- **Declared before use.** Where nothing contains itself, the units of a graph are put in an order
in which bases come first, or a unit is reported; that happens if and only if there is a cycle of
units that depend on each other. So a graph cannot be written out if and only if there is such a
cycle or a cycle of containment. -/
theorem orderedUnits_precedence (wellFormed : graph.WellFormed) :
    (graph.Acyclic →
      ((∃ ordered, orderedUnits graph = .ok ordered ∧ Precedence graph ordered) ∨
        ∃ unit ∈ units graph, orderedUnits graph = .error (.cyclic unit.id)) ∧
      ((∃ failure, orderedUnits graph = .error failure) ↔
        ∃ unit, Relation.TransGen (DependsOn graph) unit unit)) ∧
    ((∃ failure, generate graph = .error failure) ↔
      (∃ id, Relation.TransGen graph.Contains id id) ∨
        ∃ unit, Relation.TransGen (DependsOn graph) unit unit) := by
  refine ⟨fun acyclic => ?_, ?_⟩
  · obtain ⟨named, cyclic⟩ := orderedUnits_fails_iff wellFormed acyclic
    refine ⟨?_, cyclic⟩
    cases ran : orderedUnits graph with
    | ok ordered => exact .inl ⟨ordered, rfl, precedence_of_orderedUnits wellFormed acyclic ran⟩
    | error failure =>
        obtain ⟨unit, member, rfl⟩ := named failure ran
        exact .inr ⟨unit, member, rfl⟩
  · by_cases acyclic : graph.Acyclic
    · have none : ¬∃ id, Relation.TransGen graph.Contains id id := fun ⟨id, cycle⟩ =>
        acyclic id cycle
      rw [or_iff_right none, ← (orderedUnits_fails_iff wellFormed acyclic).2]
      exact exists_congr (generate_eq_error_iff wellFormed acyclic)
    · have found : ∃ id, Relation.TransGen graph.Contains id id := by
        simpa only [CodeGraph.Acyclic, not_forall, not_not] using acyclic
      refine iff_of_true ?_ (.inl found)
      obtain ⟨culprit, reported⟩ := Option.ne_none_iff_exists'.mp
        (mt wellFormed.containmentCulprit?_eq_none_iff.mp acyclic)
      exact ⟨.cyclic culprit, by rw [generate, reported]⟩

/-- A class that was created before its base comes after it. -/
theorem orderedUnits_precedence_laterBase :
    ∃ graph : CodeGraph, graph.WellFormed ∧ (units graph).map (·.id) = ["n0", "n1"] ∧
      ∃ ordered, orderedUnits graph = .ok ordered ∧ Precedence graph ordered ∧
        ordered.map (·.id) = ["n1", "n0"] := by
  obtain ⟨graph, wellFormed, tested⟩ := CodeGraph.WellFormed.exists_ofData {
      nodes := [⟨"n0", "B", .classType, ∅⟩, ⟨"n1", "A", .classType, ∅⟩]
      edges := [⟨"e0", "n0", "n1", .extending, ∅⟩] }
    (fun graph => graph.containmentCulprit?.isNone && (units graph).map (·.id) = ["n0", "n1"] &&
      (orderedUnits graph).toOption.any fun ordered => ordered.map (·.id) = ["n1", "n0"])
    (by decide +kernel)
  simp only [Bool.and_eq_true, Option.isNone_iff_eq_none, decide_eq_true_eq] at tested
  obtain ⟨⟨apart, created⟩, inOrder⟩ := tested
  have acyclic := wellFormed.containmentCulprit?_eq_none_iff.mp apart
  rcases ((orderedUnits_precedence wellFormed).1 acyclic).1 with ⟨ordered, ran, precedence⟩ | failed
  · rw [ran] at inOrder
    exact ⟨graph, wellFormed, created, ordered, ran, precedence, of_decide_eq_true inOrder⟩
  · obtain ⟨unit, _, failed⟩ := failed
    rw [failed] at inOrder
    cases inOrder

end Output

end Transcode
