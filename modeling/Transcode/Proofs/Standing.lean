import Transcode.Proofs.Counterparts
import Transcode.Proofs.Success

/-!
# Matches of a part that are still valid

A match of a part stays valid as long as the same match of the whole graph
(`Mirrors.stillValid_eq`): what a match needs is in the territory of the part, and there both graphs
have the same.
-/

namespace Transcode

namespace Naming

variable {naming : Naming}

/-- The nodes that bindings of the whole graph bind. -/
theorem map_node {bindings others : List Binding}
    (binds : List.Forall₂ naming.Binds bindings others) :
    others.map (·.node) = (bindings.map (·.node)).map naming.node := by
  rw [List.map_map, ← forall₂_iff_map_eq]
  exact binds.flip.imp fun _ _ binds => binds.node

namespace Relates

variable {found other : Match} (relates : naming.Relates found other)

include relates

/-- The same bindings are to replaced nodes. -/
theorem replaced : List.Forall₂ naming.Binds found.replaced other.replaced := by
  have aligned := relates.bindings
  unfold Match.replaced
  generalize found.bindings = bindings at aligned ⊢
  generalize other.bindings = others at aligned ⊢
  induction aligned with
  | nil => exact .nil
  | @cons binding other _ _ binds _ ih =>
      rw [List.filter_cons, List.filter_cons, binds.replaced]
      split
      · exact .cons binds ih
      · exact ih

/-- The match in the part fits the rule that the match in the whole graph fits. -/
theorem fits {rule : Rule} (whole : other.Fits rule) : found.Fits rule where
  bindings := by
    have binds := relates.bindings
    have aligned := whole.bindings
    generalize rule.sourcePattern.nodes = places at aligned ⊢
    generalize found.bindings = bindings at binds ⊢
    generalize other.bindings = others at binds aligned
    induction binds generalizing places with
    | nil =>
        cases aligned
        exact .nil
    | cons first _ ih =>
        cases aligned with
        | cons same later =>
            exact .cons ⟨first.name.symm.trans same.1, first.replaced.symm.trans same.2⟩
              (ih _ later)
  distinct := List.Nodup.of_map naming.node (map_node relates.bindings ▸ whole.distinct)

/-- What a name is bound to. -/
theorem node?_eq (name : String) : other.node? name = (found.node? name).map naming.node := by
  have aligned := relates.bindings
  unfold Match.node?
  generalize found.bindings = bindings at aligned ⊢
  generalize other.bindings = others at aligned ⊢
  induction aligned with
  | nil => rfl
  | @cons binding other _ _ binds _ ih =>
      rw [List.find?_cons, List.find?_cons, binds.name]
      split
      · exact congrArg some binds.node
      · exact ih

/-- A bound node is known to the naming. -/
theorem known_of_mem {binding : Binding} (member : binding ∈ found.bindings) :
    binding.node ∈ naming.nodeIds := by
  obtain ⟨_, _, binds⟩ := exists_left_of_forall₂ relates.bindings.flip binding member
  exact binds.known

/-- A replaced node is known to the naming. -/
theorem known_of_mem_replaced {id : String} (listed : id ∈ found.replaced.map (·.node)) :
    id ∈ naming.nodeIds := by
  obtain ⟨binding, member, rfl⟩ := List.mem_map.mp listed
  exact relates.known_of_mem (List.mem_filter.mp member).1

/-- A node bound to a name is known to the naming. -/
theorem known_of_node? {name id : String} (bound : found.node? name = some id) :
    id ∈ naming.nodeIds := by
  obtain ⟨binding, first, rfl⟩ := Option.map_eq_some_iff.mp bound
  exact relates.known_of_mem (List.mem_of_find?_eq_some first)

/-- All that the match binds in the whole graph is in the territory. -/
theorem mem_territory {binding : Binding} (member : binding ∈ other.bindings) :
    binding.node ∈ naming.territory := by
  obtain ⟨_, _, binds⟩ := exists_left_of_forall₂ relates.bindings binding member
  exact binds.node ▸ List.mem_map_of_mem binds.known

end Relates

end Naming

/-- Conditions hold of nodes that show the same. -/
theorem SourcePattern.constraintsHold_of_spec (pattern : SourcePattern) {bound others : List Node}
    (same : bound.map Node.spec = others.map Node.spec) :
    pattern.constraintsHold bound = pattern.constraintsHold others := by
  have seen (name : String) :
      (pattern.lookup bound name).map Node.spec = (pattern.lookup others name).map Node.spec := by
    unfold lookup
    cases pattern.position? name with
    | none => rfl
    | some place =>
        change bound[place]?.map Node.spec = others[place]?.map Node.spec
        rw [← List.getElem?_map, ← List.getElem?_map, same]
  simp only [constraintsHold, Constraint.holds_of_spec seen]

namespace CodeGraph

/-- Nodes that a pass has consumed and that are gone need not be looked for. -/
theorem stillBound?_of_gone {graph : CodeGraph} {consumed : List String}
    (gone : ∀ id ∈ consumed, graph.hasNode id = false) (place : PatternNode) (binding : Binding) :
    graph.stillBound? consumed place binding =
      (graph.node? binding.node).filter (graph.accepts place) := by
  unfold stillBound?
  split
  · rename_i isConsumed
    have absent := gone _ (List.contains_iff_mem.mp isConsumed)
    rw [← node?_isSome, Option.isSome_eq_false_iff, Option.isNone_iff_eq_none] at absent
    rw [absent]
    rfl
  · rfl

end CodeGraph

namespace Mirrors

variable {naming : Naming} {part whole : CodeGraph} (mirrors : Mirrors naming part whole)

include mirrors

/-! ### Matches that are still valid -/

/-- A binding is still there in the whole when it is in the part, and for the counterpart. -/
theorem stillBound?_eq {place : PatternNode} {binding other : Binding}
    (tests : ∀ test ∈ place.children, test.edge = .contains) (binds : naming.Binds binding other)
    {consumed wholeConsumed : List String} (gone : ∀ id ∈ consumed, part.hasNode id = false)
    (wholeGone : ∀ id ∈ wholeConsumed, whole.hasNode id = false) :
    (whole.stillBound? wholeConsumed place other).map Node.data =
      (part.stillBound? consumed place binding).map naming.nodeData := by
  have looked := mirrors.node?_eq binds.known
  rw [CodeGraph.stillBound?_of_gone gone, CodeGraph.stillBound?_of_gone wholeGone, binds.node]
  cases left : whole.node? (naming.node binding.node) <;> cases right : part.node? binding.node <;>
    rw [left, right] at looked
  · rfl
  · cases looked
  · cases looked
  · have same := Option.some.inj looked
    have member := (mirrors.partFormed.node?_eq_some_iff.mp right).1
    rw [Option.filter_some, Option.filter_some, mirrors.accepts_eq tests member same]
    split
    · exact looked
    · rfl

/-- An edge still connects in the whole when it does in the part. -/
theorem stillConnects_eq {edge other : MatchedEdge} (carries : naming.Carries edge other) :
    whole.stillConnects other = part.stillConnects edge := by
  have looked := mirrors.edge?_eq carries.known
  unfold CodeGraph.stillConnects
  rw [carries.edge, carries.source, carries.target]
  cases left : whole.edge? (naming.edge edge.edge) <;> cases right : part.edge? edge.edge <;>
    rw [left, right] at looked
  · rfl
  · cases looked
  · cases looked
  · obtain ⟨_, source, target, _, _⟩ := EdgeData.mk.inj (Option.some.inj looked)
    have known := mirrors.endsKnown (mirrors.partFormed.edge?_eq_some_iff.mp right).1
    simp only [Option.any_some, source, target, mirrors.node_eq_iff known.1 carries.sourceKnown,
      mirrors.node_eq_iff known.2 carries.targetKnown]

/-- The nodes bound in the part show what the nodes bound in the whole graph do. -/
theorem stillBound?_mapM_eq {bindings others : List Binding}
    (binds : List.Forall₂ naming.Binds bindings others) {places : List PatternNode}
    (tests : ∀ place ∈ places, ∀ test ∈ place.children, test.edge = .contains)
    {consumed wholeConsumed : List String} (gone : ∀ id ∈ consumed, part.hasNode id = false)
    (wholeGone : ∀ id ∈ wholeConsumed, whole.hasNode id = false) :
    ((places.zip others).mapM fun entry =>
        whole.stillBound? wholeConsumed entry.1 entry.2).map (List.map Node.data) =
      ((places.zip bindings).mapM fun entry =>
        part.stillBound? consumed entry.1 entry.2).map (List.map naming.nodeData) := by
  refine map_mapM_eq ?_
  induction binds generalizing places with
  | nil =>
      rw [List.zip_nil_right]
      exact .nil
  | cons first _ ih =>
      cases places with
      | nil => exact .nil
      | cons place rest =>
          obtain ⟨here, later⟩ := List.forall_mem_cons.mp tests
          exact .cons (mirrors.stillBound?_eq here first gone wholeGone) (ih later)

/-- **A match of the part stays valid as long as the same match of the whole graph.** -/
theorem stillValid_eq {found other : Match} (relates : naming.Relates found other) {rule : Rule}
    (tests : ∀ node ∈ rule.sourcePattern.nodes, ∀ test ∈ node.children, test.edge = .contains)
    {consumed wholeConsumed : List String} (gone : ∀ id ∈ consumed, part.hasNode id = false)
    (wholeGone : ∀ id ∈ wholeConsumed, whole.hasNode id = false) :
    whole.stillValid rule other wholeConsumed = part.stillValid rule found consumed := by
  have bound := mirrors.stillBound?_mapM_eq relates.bindings tests gone wholeGone
  have edges : other.edges.all whole.stillConnects = found.edges.all part.stillConnects := by
    have aligned := relates.edges
    generalize found.edges = edges at aligned ⊢
    generalize other.edges = others at aligned ⊢
    induction aligned with
    | nil => rfl
    | cons carries _ ih => rw [List.all_cons, List.all_cons, mirrors.stillConnects_eq carries, ih]
  unfold CodeGraph.stillValid
  dsimp only
  rw [edges]
  generalize (rule.sourcePattern.nodes.zip other.bindings).mapM (fun entry =>
    whole.stillBound? wholeConsumed entry.1 entry.2) = left at bound ⊢
  generalize (rule.sourcePattern.nodes.zip found.bindings).mapM (fun entry =>
    part.stillBound? consumed entry.1 entry.2) = right at bound ⊢
  cases left <;> cases right
  · rfl
  · cases bound
  · cases bound
  · have same := Naming.map_spec_of_data (Option.some.inj bound)
    dsimp only
    rw [SourcePattern.constraintsHold_of_spec _ same]

end Mirrors

end Transcode
