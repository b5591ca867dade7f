import Mathlib.Data.Fintype.Card
import Mathlib.Data.Set.Finite.Basic
import Transcode.Proofs.Forest
import Transcode.Proofs.UnitQueue

/-!
# The order of units

Units are put in order unless one depends on itself, directly or through others
(`Output.orderedUnits_fails_iff`). An arrangement that is complete has each unit after those that
it needs, so that needs can be followed back to an end. Where it gets stuck each unit that is left
needs another one that is left, and since there are finitely many of them some need each other in a
circle.
-/

namespace Transcode

/-- An accessible item is not related to itself. -/
theorem not_rel_self_of_acc {α : Type} {relation : α → α → Prop} {item : α}
    (accessible : Acc relation item) : ¬relation item item := by
  induction accessible with
  | intro item _ ih => exact fun itself => ih item itself itself

/-- In a finite set in which everything has something below it, something is below itself. -/
theorem exists_transGen_self {α : Type} {relation : α → α → Prop} {items : List α}
    (nonempty : items ≠ []) (each : ∀ item ∈ items, ∃ below ∈ items, relation item below) :
    ∃ item ∈ items, Relation.TransGen relation item item := by
  by_contra none
  let Below (first second : {item // item ∈ items}) : Prop :=
    Relation.TransGen relation second.val first.val
  have : Finite {item // item ∈ items} := List.finite_toSet items
  have : IsTrans _ Below := ⟨fun _ _ _ lower higher => higher.trans lower⟩
  have : Std.Irrefl Below := ⟨fun item itself => none ⟨item.val, item.property, itself⟩⟩
  have wellFounded : WellFounded Below := Finite.wellFounded_of_trans_of_irrefl Below
  obtain ⟨first, member⟩ := List.exists_mem_of_ne_nil items nonempty
  exact wellFounded.induction ⟨first, member⟩ fun item ih =>
    have ⟨below, belowMember, related⟩ := each item.val item.property
    ih ⟨below, belowMember⟩ (.single related)

namespace Output

/-! ### Arrangements -/

variable {required : List Requirement} {out : List String} {left : List Node} {node : Node}
  {outcome : Except Failure (List Node)}

/-- The needs of units that are put in order come to an end. -/
theorem Arranges.acc {ordered : List Node} (arranges : Arranges required out left outcome)
    (complete : outcome = .ok ordered)
    (start : ∀ id ∈ out, Acc (fun base unit => Needs required unit base) id) :
    ∀ node ∈ left, Acc (fun base unit => Needs required unit base) node.id := by
  induction arranges generalizing ordered with
  | done => simp
  | stuck => cases complete
  | @next out left next outcome first _ ih =>
      cases outcome with
      | error _ => cases complete
      | ok others =>
          have ready := isReady_iff.mp (List.find?_some first)
          have here : Acc (fun base unit => Needs required unit base) next.id :=
            ⟨_, fun base needs => start base (ready base needs)⟩
          intro node member
          by_cases same : node.id = next.id
          · exact same ▸ here
          · exact ih rfl (List.forall_mem_cons.mpr ⟨here, start⟩) node
              (List.mem_filter.mpr ⟨member, decide_eq_true same⟩)

/-- What units need stays out or left over when one of those left comes out. -/
theorem known_filter_ne {next : Node} (known : ∀ node ∈ left, ∀ base,
      Needs required node.id base → base ∈ out ∨ base ∈ left.map (·.id)) :
    ∀ node ∈ left.filter (·.id ≠ next.id), ∀ base, Needs required node.id base →
      base ∈ next.id :: out ∨ base ∈ (left.filter (·.id ≠ next.id)).map (·.id) := by
  intro node member base needs
  rcases known node (List.mem_filter.mp member).1 base needs with isOut | isLeft
  · exact .inl (List.mem_cons_of_mem _ isOut)
  · obtain ⟨other, there, rfl⟩ := List.mem_map.mp isLeft
    by_cases same : other.id = next.id
    · exact .inl (same ▸ List.mem_cons_self)
    · exact .inr (List.mem_map_of_mem (List.mem_filter.mpr ⟨there, decide_eq_true same⟩))

/-- Units that cannot be put in order are left with each other. The first of them is reported. -/
theorem Arranges.exists_stuck {failure : Failure} (arranges : Arranges required out left outcome)
    (fails : outcome = .error failure)
    (known : ∀ node ∈ left, ∀ base, Needs required node.id base →
      base ∈ out ∨ base ∈ left.map (·.id)) :
    ∃ first rest, failure = .cyclic first.id ∧ (∀ node ∈ first :: rest, node ∈ left) ∧
      ∀ node ∈ first :: rest, ∃ other ∈ first :: rest, Needs required node.id other.id := by
  induction arranges with
  | done => cases fails
  | @stuck out first rest none =>
      cases fails
      refine ⟨first, rest, rfl, fun _ => id, fun node member => ?_⟩
      have waits := none node member
      rw [isReady_iff] at waits
      push Not at waits
      obtain ⟨base, needs, missing⟩ := waits
      have isLeft := (known node member base needs).resolve_left missing
      obtain ⟨other, there, rfl⟩ := List.mem_map.mp isLeft
      exact ⟨other, there, needs⟩
  | @next out left next outcome _ _ ih =>
      cases outcome with
      | ok _ => cases fails
      | error fault =>
          cases fails
          obtain ⟨first, rest, reported, within, stuck⟩ := ih rfl (known_filter_ne known)
          exact ⟨first, rest, reported,
            fun node member => (List.mem_filter.mp (within node member)).1, stuck⟩

/-- **Arranging** fails if and only if there is a cycle of needs. -/
theorem Arranges.fails_iff {units : List Node} (arranges : Arranges required [] units outcome)
    (known : ∀ requirement ∈ required,
      requirement.unit ∈ units.map (·.id) ∧ requirement.base ∈ units.map (·.id)) :
    (∀ failure, outcome = .error failure → ∃ unit ∈ units, failure = .cyclic unit.id) ∧
    ((∃ failure, outcome = .error failure) ↔
      ∃ unit, Relation.TransGen (Needs required) unit unit) := by
  have within : ∀ node ∈ units, ∀ base, Needs required node.id base →
      base ∈ [] ∨ base ∈ units.map (·.id) := fun _ _ _ needs => .inr (known _ needs).2
  constructor
  · intro failure fails
    obtain ⟨first, rest, reported, inUnits, _⟩ := arranges.exists_stuck fails within
    exact ⟨first, inUnits first List.mem_cons_self, reported⟩
  · constructor
    · rintro ⟨failure, fails⟩
      obtain ⟨first, rest, _, _, stuck⟩ := arranges.exists_stuck fails within
      have each : ∀ id ∈ (first :: rest).map (·.id), ∃ base ∈ (first :: rest).map (·.id),
          Needs required id base := by
        intro id member
        obtain ⟨node, there, rfl⟩ := List.mem_map.mp member
        obtain ⟨other, otherThere, needs⟩ := stuck node there
        exact ⟨other.id, List.mem_map_of_mem otherThere, needs⟩
      obtain ⟨id, _, cycle⟩ := exists_transGen_self (by simp) each
      exact ⟨id, cycle⟩
    · rintro ⟨unit, cycle⟩
      cases complete : outcome with
      | error failure => exact ⟨failure, rfl⟩
      | ok ordered =>
          obtain ⟨base, needs, _⟩ := Relation.TransGen.head'_iff.mp cycle
          obtain ⟨node, member, rfl⟩ := List.mem_map.mp (known _ needs).1
          have ends := arranges.acc complete (by simp) node member
          refine absurd ?_ (not_rel_self_of_acc ends.transGen)
          exact Relation.transGen_swap.mpr cycle

/-! ### Units -/

variable {graph : CodeGraph} {id unit base : String}

/-- A node is written in a unit: it is the unit, or what contains it is written there. -/
inductive WrittenIn (graph : CodeGraph) : String → String → Prop
  | unit {node : Node} (there : node ∈ graph.nodes) (top : isUnit graph node) :
      WrittenIn graph node.id node.id
  | hosted {node owner : Node} {unit : String} (there : node ∈ graph.nodes)
      (inner : ¬isUnit graph node) (contained : graph.parent? node.id = some owner)
      (within : WrittenIn graph owner.id unit) : WrittenIn graph node.id unit

/-- What is written in a unit extends or implements something that is written in another one. -/
structure DependsOn (graph : CodeGraph) (unit base : String) : Prop where
  apart : unit ≠ base
  related : ∃ edge ∈ graph.edges, edge.kind.isHeritage ∧ WrittenIn graph edge.source unit ∧
    WrittenIn graph edge.target base

/-- A node is written in a unit. -/
theorem WrittenIn.mem_units (written : WrittenIn graph id unit) :
    unit ∈ (units graph).map (·.id) := by
  induction written with
  | unit there top => exact List.mem_map_of_mem (List.mem_filter.mpr ⟨there, top⟩)
  | hosted _ _ _ _ ih => exact ih

/-- The parent of a node contains it. -/
theorem contains_of_parent? {owner : Node} (contained : graph.parent? id = some owner) :
    owner ∈ graph.nodes ∧ graph.Contains owner.id id := by
  obtain ⟨edge, first, found⟩ := Option.bind_eq_some_iff.mp contained
  have member := List.mem_of_head? first
  simp only [CodeGraph.incomingOf, CodeGraph.incoming, List.mem_filter, decide_eq_true_eq] at member
  have named : owner.id = edge.source := by simpa using List.find?_some found
  exact ⟨List.mem_of_find?_eq_some found, edge, member.1.1, member.2, named.symm, member.1.2⟩

/-- A node that is no unit has a parent. -/
theorem exists_parent?_of_not_isUnit (inner : ¬isUnit graph node) :
    ∃ owner, graph.parent? node.id = some owner := by
  unfold isUnit at inner
  split at inner
  · exact absurd rfl inner
  · exact ⟨_, ‹_›⟩

section WellFormed

variable (wellFormed : graph.WellFormed) (acyclic : graph.Acyclic)

section Unique

include wellFormed

/-- A node is written in one unit. -/
theorem WrittenIn.eq (first : WrittenIn graph id unit) (second : WrittenIn graph id base) :
    unit = base := by
  induction first with
  | @unit node there top =>
      generalize same : node.id = id at second
      cases second with
      | unit => rfl
      | hosted otherThere inner =>
          exact absurd (wellFormed.eq_of_id there otherThere same ▸ top) inner
  | @hosted node owner unit there inner contained within ih =>
      generalize same : node.id = id at second
      cases second with
      | unit otherThere top =>
          exact absurd (wellFormed.eq_of_id otherThere there same.symm ▸ top) inner
      | hosted otherThere _ otherContained otherWithin =>
          rw [← same, contained] at otherContained
          cases otherContained
          exact ih otherWithin

end Unique

section Depth

include acyclic

/-- The way from a node to its unit is no longer than there are nodes that are not on it yet. -/
theorem exists_unitWithin {fuel : Nat} {visited : List String} (there : node ∈ graph.nodes)
    (leading : ∀ id ∈ visited, Relation.TransGen graph.Contains node.id id)
    (enough : graph.missing visited < fuel) :
    ∃ unit, unitWithin graph fuel node = some unit ∧ WrittenIn graph node.id unit.id := by
  induction fuel generalizing node visited with
  | zero => exact absurd enough (Nat.not_lt_zero _)
  | succ fuel ih =>
      unfold unitWithin
      split
      · rename_i top
        exact ⟨node, rfl, .unit there top⟩
      · rename_i inner
        obtain ⟨owner, contained⟩ := exists_parent?_of_not_isUnit inner
        obtain ⟨ownerThere, contains⟩ := contains_of_parent? contained
        have new : node.id ∉ visited := fun again => acyclic node.id (leading node.id again)
        have less := CodeGraph.missing_cons_lt (CodeGraph.hasNode_of_mem there) new
        have leadingOn : ∀ id ∈ node.id :: visited, Relation.TransGen graph.Contains owner.id id :=
          List.forall_mem_cons.mpr
            ⟨.single contains, fun id before => .head contains (leading id before)⟩
        obtain ⟨unit, found, within⟩ := ih ownerThere leadingOn
          (Nat.lt_of_lt_of_le less (Nat.le_of_lt_succ enough))
        rw [contained]
        exact ⟨unit, found, .hosted there inner contained within⟩

end Depth

include wellFormed acyclic

/-- The unit found for a node is the one it is written in. -/
theorem unitOf?_eq_some_iff (there : graph.hasNode id) :
    unitOf? graph id = some unit ↔ WrittenIn graph id unit := by
  obtain ⟨node, member, rfl⟩ := List.mem_map.mp (CodeGraph.hasNode_iff.mp there)
  obtain ⟨own, found, written⟩ := exists_unitWithin acyclic member (by simp)
    (graph.missing_lt_succ [])
  have looked : unitOf? graph node.id = some own.id := by
    rw [unitOf?, wellFormed.node?_of_mem member, Option.bind_some, found, Option.map_some]
  rw [looked, Option.some.injEq]
  exact ⟨fun same => same ▸ written, fun other => WrittenIn.eq wellFormed written other⟩

/-- What a graph requires of the order of its units. -/
theorem needs_requirements_iff :
    Needs (requirements graph) unit base ↔ DependsOn graph unit base := by
  rw [Needs, requirements, List.mem_filterMap]
  constructor
  · rintro ⟨edge, member, required⟩
    obtain ⟨source, target⟩ := wellFormed.endpoints edge member
    unfold requirementOf? at required
    split at required
    · rename_i heritage
      split at required
      · rename_i own other ownUnit otherUnit
        split at required
        · cases required
        · rename_i apart
          cases required
          exact ⟨apart, edge, member, heritage,
            (unitOf?_eq_some_iff wellFormed acyclic source).mp ownUnit,
            (unitOf?_eq_some_iff wellFormed acyclic target).mp otherUnit⟩
      · cases required
    · cases required
  · rintro ⟨apart, edge, member, heritage, ownUnit, otherUnit⟩
    obtain ⟨source, target⟩ := wellFormed.endpoints edge member
    rw [← unitOf?_eq_some_iff wellFormed acyclic source] at ownUnit
    rw [← unitOf?_eq_some_iff wellFormed acyclic target] at otherUnit
    refine ⟨edge, member, ?_⟩
    rw [requirementOf?, if_pos heritage, ownUnit, otherUnit]
    exact if_neg apart

/-- **The order of units.** Where nothing contains itself, the units can be put in order unless one
of them depends on itself. A failure names a unit. -/
theorem orderedUnits_fails_iff :
    (∀ failure, orderedUnits graph = .error failure →
      ∃ unit ∈ units graph, failure = .cyclic unit.id) ∧
    ((∃ failure, orderedUnits graph = .error failure) ↔
      ∃ unit, Relation.TransGen (DependsOn graph) unit unit) := by
  have same : Needs (requirements graph) = DependsOn graph := by
    funext unit base
    exact propext (needs_requirements_iff wellFormed acyclic)
  have known : ∀ requirement ∈ requirements graph, requirement.unit ∈ (units graph).map (·.id) ∧
      requirement.base ∈ (units graph).map (·.id) := by
    intro requirement member
    obtain ⟨_, _, _, _, unit, base⟩ := (needs_requirements_iff wellFormed acyclic).mp member
    exact ⟨unit.mem_units, base.mem_units⟩
  have arranged := (arranges_orderedUnits wellFormed).fails_iff known
  rwa [same] at arranged

end WellFormed

end Output

end Transcode
