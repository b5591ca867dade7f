import Transcode.Proofs.Partitioned
import Transcode.Proofs.Termination

/-!
# Normal forms

What the automated built-in rules bring about: a graph without matches of them has none of the
constructs that they replace (`normalForm_of_findMatches_eq_nil`). That holds whether or not a
search stops at its limit, since the first assignments of these patterns are matches already.

If nothing is contained across parts, then a merge of parts in normal form is in normal form
(`Merge.normalForm_result`), so the same is true of graphs that are transformed in parts.
-/

namespace Transcode

namespace Node

/-- Whether a word is among the modifiers of a node. -/
def hasModifier (node : Node) (word : String) : Bool :=
  (node.get? "modifiers").any (Text.hasWord · word)

/-- A method that only an interface should have. -/
def IsAbstractMethod (node : Node) : Prop := node.kind = .method ∧ node.hasModifier "abstract"

/-- A method and a field that make up a property: the method has the name of an accessor, the field
that of its property, and neither is static. -/
structure IsAccessorOf (accessor field : Node) : Prop where
  isMethod : accessor.kind = .method
  ofInstance : accessor.hasModifier "static" = false
  name : Builtin.accessorNames.accepts accessor.label
  isField : field.kind = .field
  fieldOfInstance : field.hasModifier "static" = false
  property : Text.trimUnderscores field.label = Text.propertyName accessor.label

end Node

/-- A graph without the constructs that the automated built-in rules replace. -/
structure CodeGraph.NormalForm (graph : CodeGraph) : Prop where
  /-- A class with members has one that is no abstract method. -/
  concrete : ∀ owner ∈ graph.nodes, owner.kind = .classType → ∀ child ∈ graph.nodes,
    graph.Contains owner.id child.id →
      ∃ other ∈ graph.nodes, graph.Contains owner.id other.id ∧ ¬other.IsAbstractMethod
  /-- No method of a class is static. -/
  instances : ∀ owner ∈ graph.nodes, owner.kind = .classType → ∀ child ∈ graph.nodes,
    graph.Contains owner.id child.id → child.kind = .method → child.hasModifier "static" = false
  /-- No class or interface contains another class. -/
  flat : ∀ owner ∈ graph.nodes, owner.kind = .classType ∨ owner.kind = .interfaceType →
    ∀ child ∈ graph.nodes, graph.Contains owner.id child.id → child.kind = .classType →
      child = owner
  /-- No class has a method that is an accessor of one of its fields. -/
  properties : ∀ owner ∈ graph.nodes, owner.kind = .classType → ∀ method ∈ graph.nodes,
    graph.Contains owner.id method.id → ∀ field ∈ graph.nodes, graph.Contains owner.id field.id →
      ¬method.IsAccessorOf field

/-! ### Assignments that are matches -/

namespace SourcePattern

variable {pattern : SourcePattern} {graph : CodeGraph} {bound : List Node}

/-- Different names are bound to different nodes. -/
theorem eq_of_lookup (distinct : (bound.map (·.id)).Nodup) {first second id : String}
    (firstBound : (pattern.lookup bound first).map (·.id) = some id)
    (secondBound : (pattern.lookup bound second).map (·.id) = some id) : first = second := by
  obtain ⟨node, looked, rfl⟩ := Option.map_eq_some_iff.mp firstBound
  obtain ⟨other, otherLooked, same⟩ := Option.map_eq_some_iff.mp secondBound
  obtain ⟨place, at_, isNode⟩ := Option.bind_eq_some_iff.mp looked
  obtain ⟨otherPlace, otherAt, isOther⟩ := Option.bind_eq_some_iff.mp otherLooked
  obtain rfl : other = node := List.inj_on_of_nodup_map distinct (List.mem_of_getElem? isOther)
    (List.mem_of_getElem? isNode) same
  obtain rfl : place = otherPlace := (List.getElem?_inj (List.getElem?_eq_some_iff.mp isNode).1
    (distinct.of_map _)).mp (isNode.trans isOther.symm)
  obtain ⟨_, named, _⟩ := List.findIdx?_eq_some_iff_getElem.mp at_
  obtain ⟨_, otherNamed, _⟩ := List.findIdx?_eq_some_iff_getElem.mp otherAt
  exact (of_decide_eq_true named).symm.trans (of_decide_eq_true otherNamed)

/-- If the edges of a pattern end at different nodes, there are different edges for them. -/
theorem Assigns.exists_maps (assigns : pattern.Assigns graph bound) (wellFormed : graph.WellFormed)
    (ends : (pattern.edges.map (·.target)).Nodup) : ∃ mapped, pattern.Maps graph bound mapped := by
  obtain ⟨mapped, stand⟩ := exists_forall₂ assigns.connected
  refine ⟨mapped, stand, nodup_map_of_forall₂ stand ends ?_⟩
  intro first _ another _ there other stands otherStands same
  obtain rfl := wellFormed.edge_eq_of_id stands.member otherStands.member same
  exact eq_of_lookup assigns.distinct stands.target otherStands.target

end SourcePattern

/-- If nothing is found, then patterns whose edges end at different nodes have no assignment. That
is so also if there are more than a search looks for, since the first of them would be found. -/
theorem CodeGraph.WellFormed.not_assigns {graph : CodeGraph} {rules : List Rule}
    (wellFormed : graph.WellFormed) (none : graph.findMatches rules = []) (rule : Rule)
    (listed : rule ∈ rules) (valid : rule.Valid)
    (ends : (rule.sourcePattern.edges.map (·.target)).Nodup)
    (bound : List Node) : ¬rule.sourcePattern.Assigns graph bound := by
  intro assigns
  have some := (Rule.mem_assignments_iff wellFormed valid).mpr assigns
  obtain ⟨first, rest, split⟩ := List.exists_cons_of_ne_nil (List.ne_nil_of_mem some)
  have firstAssigns := (Rule.mem_assignments_iff wellFormed valid).mp
    (split ▸ List.mem_cons_self : first ∈ rule.assignments graph)
  obtain ⟨mapped, maps⟩ := firstAssigns.exists_maps wellFormed ends
  obtain ⟨index, at_⟩ := List.mem_iff_getElem?.mp listed
  obtain ⟨found, made⟩ := Rule.exists_match wellFormed valid maps index
  have member : found ∈ rule.matchesAt index graph := by
    rw [Rule.matchesAt_eq wellFormed, split]
    exact List.mem_filterMap.mpr ⟨first, List.mem_cons_self, made⟩
  have inAll : found ∈ graph.findMatches rules :=
    CodeGraph.mem_findMatches_iff.mpr ⟨rule, index, at_, member⟩
  rw [none] at inAll
  cases inAll

/-! ### Graphs without matches -/

/-- An edge by which a node contains another stands for an edge between their names. -/
theorem CodeGraph.Contains.exists_stands {graph : CodeGraph} {pattern : SourcePattern}
    {bound : List Node} {owner child : Node} (contains : graph.Contains owner.id child.id)
    {source target : String} (sourceBound : pattern.lookup bound source = some owner)
    (targetBound : pattern.lookup bound target = some child) :
    ∃ there, pattern.Stands graph bound ⟨source, target, .contains⟩ there := by
  obtain ⟨there, leads⟩ := contains
  refine ⟨there, leads.member, leads.kind, ?_, ?_⟩
  · rw [sourceBound, leads.source]
    rfl
  · rw [targetBound, leads.target]
    rfl

@[simp] theorem Builtin.entries_only (key : String) (test : AttributeTest) :
    (only key test).entries = [(key, test)] := rfl

/-- A filter that only asks for a kind accepts what is of it. -/
theorem NodeFilter.accepts_of_kind {node : Node} {kind : NodeKind} (same : node.kind = kind) :
    ({ kinds := [kind] } : NodeFilter).accepts node := by
  simp [accepts, same, show (∅ : Dict AttributeTest).entries = [] from rfl]

section Modifiers

variable {node : Node} {word : String}

@[simp] theorem AttributeTest.accepts_hasWord :
    (AttributeTest.hasWord word).accepts (node.get? "modifiers") = node.hasModifier word := rfl

@[simp] theorem AttributeTest.accepts_lacksWord :
    (AttributeTest.lacksWord word).accepts (node.get? "modifiers") = !node.hasModifier word := rfl

end Modifiers

namespace CodeGraph.WellFormed

variable {graph : CodeGraph} (wellFormed : graph.WellFormed)
  (none : graph.findMatches Builtin.catalog.automated = [])

include wellFormed none

/-- Without matches a class has something besides abstract methods. -/
theorem concrete_of_findMatches_eq_nil {owner child : Node} (there : owner ∈ graph.nodes)
    (isClass : owner.kind = .classType) (childThere : child ∈ graph.nodes)
    (contains : graph.Contains owner.id child.id) :
    ∃ other ∈ graph.nodes, graph.Contains owner.id other.id ∧ ¬other.IsAbstractMethod := by
  by_contra all
  push Not at all
  have listed : Builtin.classToInterface ∈ Builtin.catalog.automated := by
    simp [Builtin.automated_eq]
  refine wellFormed.not_assigns none Builtin.classToInterface listed (Builtin.valid_of_mem _ listed)
    (by decide) [owner] ⟨.cons ⟨there, ?_⟩ .nil, List.nodup_singleton _, ?_, rfl⟩
  · have some : 1 ≤ (graph.successors .contains owner.id).length :=
      List.length_pos_of_mem (wellFormed.mem_successors.mpr ⟨childThere, contains⟩)
    have each : ∀ other ∈ graph.successors .contains owner.id,
        other.kind = .method ∧ other.hasModifier "abstract" := fun other member =>
      all other (wellFormed.mem_successors.mp member).1 (wellFormed.mem_successors.mp member).2
    simp only [CodeGraph.accepts, Option.all_some, Bool.and_eq_true]
    refine ⟨NodeFilter.accepts_of_kind isClass, ?_⟩
    simpa [ChildrenTest.accepts, NodeFilter.accepts, some] using each
  · simp [Builtin.classToInterface]

/-- Without matches no class has a static method. -/
theorem instances_of_findMatches_eq_nil {owner child : Node} (there : owner ∈ graph.nodes)
    (isClass : owner.kind = .classType) (childThere : child ∈ graph.nodes)
    (contains : graph.Contains owner.id child.id) (isMethod : child.kind = .method) :
    child.hasModifier "static" = false := by
  rw [← Bool.not_eq_true]
  intro isStatic
  have listed : Builtin.staticToFunction ∈ Builtin.catalog.automated := by
    simp [Builtin.automated_eq]
  have different : owner.id ≠ child.id := fun same => by
    rw [wellFormed.eq_of_id there childThere same, isMethod] at isClass
    cases isClass
  refine wellFormed.not_assigns none Builtin.staticToFunction listed (Builtin.valid_of_mem _ listed)
    (by decide) [owner, child]
    ⟨.cons ⟨there, ?_⟩ (.cons ⟨childThere, ?_⟩ .nil), by simpa using different, ?_, rfl⟩
  · simp [CodeGraph.accepts, NodeFilter.accepts_of_kind isClass]
  · simp [CodeGraph.accepts, NodeFilter.accepts, isMethod, isStatic]
  · exact List.forall_mem_singleton.mpr (contains.exists_stands rfl rfl)

/-- Without matches no class is inside of a type. -/
theorem flat_of_findMatches_eq_nil {owner child : Node} (there : owner ∈ graph.nodes)
    (isType : owner.kind = .classType ∨ owner.kind = .interfaceType)
    (childThere : child ∈ graph.nodes) (contains : graph.Contains owner.id child.id)
    (isClass : child.kind = .classType) : child = owner := by
  by_contra other
  have listed : Builtin.innerToStandalone ∈ Builtin.catalog.automated := by
    simp [Builtin.automated_eq]
  have different : owner.id ≠ child.id := fun same =>
    other (wellFormed.eq_of_id there childThere same).symm
  refine wellFormed.not_assigns none Builtin.innerToStandalone listed
    (Builtin.valid_of_mem _ listed)
    (by decide) [owner, child]
    ⟨.cons ⟨there, ?_⟩ (.cons ⟨childThere, ?_⟩ .nil), by simpa using different, ?_, rfl⟩
  · rcases isType with kind | kind <;>
      simp [CodeGraph.accepts, NodeFilter.accepts, kind,
        show (∅ : Dict AttributeTest).entries = [] from rfl]
  · simp [CodeGraph.accepts, NodeFilter.accepts_of_kind isClass]
  · exact List.forall_mem_singleton.mpr (contains.exists_stands rfl rfl)

/-- Without matches no class has a field with an accessor. -/
theorem properties_of_findMatches_eq_nil {owner accessor field : Node} (there : owner ∈ graph.nodes)
    (isClass : owner.kind = .classType) (accessorThere : accessor ∈ graph.nodes)
    (contains : graph.Contains owner.id accessor.id) (fieldThere : field ∈ graph.nodes)
    (containsField : graph.Contains owner.id field.id) : ¬accessor.IsAccessorOf field := by
  intro pair
  have listed : Builtin.accessorToProperty ∈ Builtin.catalog.automated := by
    simp [Builtin.automated_eq]
  have different {first second : Node} (firstThere : first ∈ graph.nodes)
      (secondThere : second ∈ graph.nodes) (kinds : first.kind ≠ second.kind) :
      first.id ≠ second.id := fun same =>
    kinds (by rw [wellFormed.eq_of_id firstThere secondThere same])
  have ids : ([owner, accessor, field].map (·.id)).Nodup := by
    simp [different there accessorThere (by simp [isClass, pair.isMethod]),
      different there fieldThere (by simp [isClass, pair.isField]),
      different accessorThere fieldThere (by simp [pair.isMethod, pair.isField])]
  refine wellFormed.not_assigns none Builtin.accessorToProperty listed
    (Builtin.valid_of_mem _ listed)
    (by decide) [owner, accessor, field]
    ⟨.cons ⟨there, ?_⟩ (.cons ⟨accessorThere, ?_⟩ (.cons ⟨fieldThere, ?_⟩ .nil)), ids, ?_, ?_⟩
  · simp [CodeGraph.accepts, NodeFilter.accepts_of_kind isClass]
  · simp [CodeGraph.accepts, NodeFilter.accepts, pair.isMethod, pair.name, pair.ofInstance]
  · simp [CodeGraph.accepts, NodeFilter.accepts, pair.isField, pair.fieldOfInstance]
  · exact List.forall_mem_cons.mpr ⟨contains.exists_stands rfl rfl,
      List.forall_mem_singleton.mpr (containsField.exists_stands rfl rfl)⟩
  · have name :
        Builtin.accessorToProperty.sourcePattern.lookup [owner, accessor, field] "accessor" =
        some accessor := rfl
    have fieldName :
        Builtin.accessorToProperty.sourcePattern.lookup [owner, accessor, field] "field" =
        some field := rfl
    refine List.all_eq_true.mpr (List.forall_mem_singleton.mpr (decide_eq_true ?_))
    simp only [Template.render, Builtin.propertyOfAccessor, Builtin.plainField, Template.ofParts,
      List.map_cons, List.map_nil, TemplatePart.render, name, fieldName, List.foldl_cons,
      List.foldl_nil, TextFilter.apply, pair.property]

/-- **No matches.** A graph in which the automated built-in rules find nothing is in normal form. -/
theorem normalForm_of_findMatches_eq_nil : graph.NormalForm where
  concrete _ there isClass _ childThere contains :=
    wellFormed.concrete_of_findMatches_eq_nil none there isClass childThere contains
  instances _ there isClass _ childThere contains isMethod :=
    wellFormed.instances_of_findMatches_eq_nil none there isClass childThere contains isMethod
  flat _ there isType _ childThere contains isClass :=
    wellFormed.flat_of_findMatches_eq_nil none there isType childThere contains isClass
  properties _ there isClass _ accessorThere contains _ fieldThere containsField :=
    wellFormed.properties_of_findMatches_eq_nil none there isClass accessorThere contains fieldThere
      containsField

end CodeGraph.WellFormed

/-- What a run to a fixpoint gives is in normal form, unless it reports matches that are left. -/
theorem exists_transform_normalForm {graph : CodeGraph} (wellFormed : graph.WellFormed)
    (bound : Nat) :
    ∃ result, transform graph Builtin.catalog.automated (.fixpoint bound) = .ok result ∧
      (result.warnings = [] → result.graph.NormalForm) := by
  obtain ⟨result, ran, formed, reported⟩ :=
    Transformed.exists_proceed_warnings Builtin.valid_of_mem wellFormed bound 0 0
  refine ⟨result, ran, fun quiet => formed.normalForm_of_findMatches_eq_nil ?_⟩
  rwa [reported, leftWarnings_eq_nil_iff] at quiet

/-! ### Merged parts -/

namespace Merge

/-- A node of the merged graph is what a node of a part is called there. -/
structure Calls (merge : Merge) (index : Nat) (before node : Node) : Prop where
  named : (⟨index, before⟩, node.id) ∈ merge.namedNodes
  spec : node.spec = before.spec
  there : node ∈ merge.result.nodes

variable {merge : Merge} {index : Nat} {before node : Node}

/-- The nodes of a merge are those of the parts under their names. -/
theorem map_data_result (merge : Merge) : merge.result.nodes.map Node.data =
    merge.namedNodes.map fun (item, id) =>
      ⟨id, item.node.label, item.node.kind, item.node.attributes⟩ :=
  CodeGraph.map_data_numbered 0 _

/-- Every name that is given is that of a node of the merged graph. -/
theorem exists_calls_of_named {id : String} (named : (⟨index, before⟩, id) ∈ merge.namedNodes) :
    ∃ node, merge.Calls index before node ∧ node.id = id := by
  have listed : (⟨id, before.label, before.kind, before.attributes⟩ : NodeData) ∈
      merge.result.nodes.map Node.data := by
    rw [map_data_result]
    exact List.mem_map.mpr ⟨_, named, rfl⟩
  obtain ⟨node, there, same⟩ := List.mem_map.mp listed
  obtain ⟨rfl, label, kind, attributes⟩ := NodeData.mk.inj same
  exact ⟨node, ⟨named, by rw [Node.spec, Node.spec, label, kind, attributes], there⟩, rfl⟩

/-- What is renamed is a node of a part. -/
theorem exists_calls_of_renamed? {old new : String}
    (renamed : renamed? merge.namedNodes index old = some new) :
    ∃ before node, merge.Calls index before node ∧ before.id = old ∧ node.id = new := by
  obtain ⟨⟨⟨part, before⟩, id⟩, found, rfl⟩ := Option.map_eq_some_iff.mp renamed
  have isOwn := List.find?_some found
  simp only [Bool.and_eq_true, decide_eq_true_eq] at isOwn
  obtain ⟨rfl, rfl⟩ := isOwn
  obtain ⟨node, calls, same⟩ := exists_calls_of_named (List.mem_of_find?_eq_some found)
  exact ⟨before, node, calls, rfl, same⟩

/-- A node that is called something is one of a part. -/
theorem Calls.mem_partNodes (calls : merge.Calls index before node) :
    ⟨index, before⟩ ∈ merge.partNodes :=
  merge.map_fst_namedNodes_perm.mem_iff.mp (List.mem_map.mpr ⟨_, calls.named, rfl⟩)

/-- The part of a node that is called something is there. -/
theorem Calls.exists_part (calls : merge.Calls index before node) :
    ∃ part, merge.parts[index]? = some part ∧ before ∈ part.nodes :=
  mem_partNodes_iff.mp calls.mem_partNodes

/-- A node that is called something is one of its part. -/
theorem Calls.mem_nodes (calls : merge.Calls index before node) {part : CodeGraph}
    (at_ : merge.parts[index]? = some part) : before ∈ part.nodes := by
  obtain ⟨other, otherAt, there⟩ := calls.exists_part
  rw [at_] at otherAt
  cases otherAt
  exact there

section Spec

variable (calls : merge.Calls index before node)

include calls

theorem Calls.kind_eq : node.kind = before.kind := congrArg NodeSpec.kind calls.spec

theorem Calls.label_eq : node.label = before.label := congrArg NodeSpec.label calls.spec

/-- A node keeps its modifiers under another name. -/
theorem Calls.hasModifier_eq (word : String) : node.hasModifier word = before.hasModifier word := by
  have attributes : node.attributes = before.attributes := congrArg NodeSpec.attributes calls.spec
  rw [Node.hasModifier, Node.get?, attributes]
  rfl

theorem Calls.isAbstractMethod_iff : node.IsAbstractMethod ↔ before.IsAbstractMethod := by
  rw [Node.IsAbstractMethod, Node.IsAbstractMethod, calls.kind_eq, calls.hasModifier_eq]

/-- An accessor and its field are so under other names. -/
theorem Calls.isAccessorOf {other : Nat} {field fieldBefore : Node}
    (fieldCalls : merge.Calls other fieldBefore field) (pair : node.IsAccessorOf field) :
    before.IsAccessorOf fieldBefore where
  isMethod := calls.kind_eq ▸ pair.isMethod
  ofInstance := calls.hasModifier_eq _ ▸ pair.ofInstance
  name := calls.label_eq ▸ pair.name
  isField := fieldCalls.kind_eq ▸ pair.isField
  fieldOfInstance := fieldCalls.hasModifier_eq _ ▸ pair.fieldOfInstance
  property := calls.label_eq ▸ fieldCalls.label_eq ▸ pair.property

end Spec

/-- The edges that are made are those that are planned. -/
theorem mem_edgesFrom_iff {ids : IdSource} {seq : Nat} {planned : List PlannedEdge}
    {kind : EdgeKind} {source target : String} :
    (∃ edge ∈ edgesFrom ids seq planned, edge.kind = kind ∧ edge.source = source ∧
      edge.target = target) ↔
      ∃ plan ∈ planned, plan.kind = kind ∧ plan.source = source ∧ plan.target = target := by
  induction planned generalizing ids seq with
  | nil => simp [edgesFrom]
  | cons plan rest ih => simp only [edgesFrom, List.exists_mem_cons_iff, ih]

namespace Sound

variable (sound : merge.Sound)

include sound

theorem formed : merge.result.WellFormed := .merged sound.graph_eq

/-- A node of the merged graph is one of one part. -/
theorem eq_of_calls {other : Nat} {another : Node} (calls : merge.Calls index before node)
    (otherCalls : merge.Calls other another node) : index = other ∧ before = another := by
  have same := List.inj_on_of_nodup_map sound.nodup_namedNodes calls.named otherCalls.named rfl
  cases same
  exact ⟨rfl, rfl⟩

/-- A node of a part has one name. -/
theorem calls_eq {other : Node} (calls : merge.Calls index before node)
    (otherCalls : merge.Calls index before other) : node = other := by
  have distinct : (merge.namedNodes.map (·.1)).Nodup :=
    merge.map_fst_namedNodes_perm.nodup_iff.mpr sound.nodup_partNodes
  have same := List.inj_on_of_nodup_map distinct calls.named otherCalls.named rfl
  exact sound.formed.eq_of_id calls.there otherCalls.there (Prod.mk.inj same).2

/-- What a node of a part is called. -/
theorem renamed?_eq_some_iff {old new : String} :
    renamed? merge.namedNodes index old = some new ↔
      ∃ before node, merge.Calls index before node ∧ before.id = old ∧ node.id = new := by
  refine ⟨exists_calls_of_renamed?, ?_⟩
  rintro ⟨before, node, calls, rfl, rfl⟩
  cases renamed : renamed? merge.namedNodes index before.id with
  | none =>
      have absent := List.find?_eq_none.mp (Option.map_eq_none_iff.mp renamed) _ calls.named
      simp at absent
  | some id =>
      obtain ⟨other, again, otherCalls, same, rfl⟩ := exists_calls_of_renamed? renamed
      obtain ⟨-, rfl⟩ := PartNode.mk.inj
        (sound.eq_of_part_of_id otherCalls.mem_partNodes calls.mem_partNodes rfl same)
      rw [sound.calls_eq otherCalls calls]

/-- What a part contains is contained in the merged graph. -/
theorem exists_contains {part : CodeGraph} (at_ : merge.parts[index]? = some part)
    (calls : merge.Calls index before node) {child : Node} (childThere : child ∈ part.nodes)
    (contains : part.Contains before.id child.id) :
    ∃ other, merge.Calls index child other ∧ merge.result.Contains node.id other.id := by
  obtain ⟨edge, leads⟩ := contains
  have listed : (⟨index, child⟩ : PartNode) ∈ merge.namedNodes.map (·.1) :=
    merge.map_fst_namedNodes_perm.mem_iff.mpr (mem_partNodes_iff.mpr ⟨part, at_, childThere⟩)
  obtain ⟨⟨item, id⟩, named, rfl⟩ := List.mem_map.mp listed
  obtain ⟨other, otherCalls, rfl⟩ := exists_calls_of_named named
  refine ⟨other, otherCalls, ?_⟩
  have sourceEq := sound.renamed?_eq_some_iff.mpr ⟨before, node, calls, leads.source.symm, rfl⟩
  have targetEq := sound.renamed?_eq_some_iff.mpr ⟨child, other, otherCalls, leads.target.symm, rfl⟩
  obtain ⟨plan, planned, ends⟩ : ∃ plan, merge.planned? merge.namedNodes index edge = some plan ∧
      plan.kind = .contains ∧ plan.source = node.id ∧ plan.target = other.id :=
    ⟨_, planned?_eq_some_iff.mpr ⟨_, _, sourceEq, targetEq, rfl⟩, leads.kind, rfl, rfl⟩
  have inPart : plan ∈ merge.plannedInParts merge.namedNodes :=
    mem_plannedInParts_iff.mpr ⟨part, index, at_, edge, leads.member, planned⟩
  obtain ⟨there, member, kind, source, target⟩ := mem_edgesFrom_iff.mpr
    ⟨plan, (merge.plannedEdges_perm _).mem_iff.mpr (List.mem_append_left _ inPart), ends⟩
  exact ⟨there, member, kind, source, target⟩

/-- If nothing is contained across parts, then what the merged graph contains is contained in a
part. -/
theorem exists_contains_part (apart : ∀ edge ∈ merge.crossEdges, edge.kind ≠ .contains)
    {owner child : Node} (there : owner ∈ merge.result.nodes)
    (childThere : child ∈ merge.result.nodes)
    (contains : merge.result.Contains owner.id child.id) :
    ∃ index part before childBefore, merge.parts[index]? = some part ∧
      merge.Calls index before owner ∧ merge.Calls index childBefore child ∧
      part.Contains before.id childBefore.id := by
  obtain ⟨edge, leads⟩ := contains
  obtain ⟨plan, inPlan, kind, source, target⟩ :=
    mem_edgesFrom_iff.mp ⟨edge, leads.member, leads.kind, leads.source, leads.target⟩
  rcases List.mem_append.mp ((merge.plannedEdges_perm _).mem_iff.mp inPlan) with inPart | cross
  · obtain ⟨part, index, at_, beforeEdge, member, planned⟩ := mem_plannedInParts_iff.mp inPart
    obtain ⟨_, _, sourceEq, targetEq, rfl⟩ := planned?_eq_some_iff.mp planned
    obtain ⟨before, node, calls, sourceId, named⟩ := sound.renamed?_eq_some_iff.mp sourceEq
    obtain ⟨childBefore, other, childCalls, targetId, childNamed⟩ :=
      sound.renamed?_eq_some_iff.mp targetEq
    obtain rfl := sound.formed.eq_of_id calls.there there (named.trans source)
    obtain rfl := sound.formed.eq_of_id childCalls.there childThere (childNamed.trans target)
    exact ⟨index, part, before, childBefore, at_, calls, childCalls,
      beforeEdge, member, kind, sourceId.symm, targetId.symm⟩
  · obtain ⟨crossEdge, listed, planned⟩ := List.mem_filterMap.mp cross
    obtain ⟨_, _, _, _, rfl⟩ := plannedCross?_eq_some_iff.mp planned
    exact absurd kind (apart crossEdge listed)

/-- **Merging keeps normal forms**, if nothing is contained across parts. -/
theorem normalForm_result (apart : ∀ edge ∈ merge.crossEdges, edge.kind ≠ .contains)
    (parts : ∀ part ∈ merge.parts, part.NormalForm) : merge.result.NormalForm := by
  constructor
  case concrete =>
    intro owner there isClass child childThere contains
    obtain ⟨index, part, before, childBefore, at_, calls, childCalls, inside⟩ :=
      sound.exists_contains_part apart there childThere contains
    obtain ⟨other, otherThere, otherInside, notAbstract⟩ :=
      (parts part (List.mem_of_getElem? at_)).concrete before (calls.mem_nodes at_)
        (calls.kind_eq ▸ isClass) childBefore (childCalls.mem_nodes at_) inside
    obtain ⟨merged, mergedCalls, mergedInside⟩ :=
      sound.exists_contains at_ calls otherThere otherInside
    exact ⟨merged, mergedCalls.there, mergedInside,
      fun isAbstract => notAbstract (mergedCalls.isAbstractMethod_iff.mp isAbstract)⟩
  case instances =>
    intro owner there isClass child childThere contains isMethod
    obtain ⟨index, part, before, childBefore, at_, calls, childCalls, inside⟩ :=
      sound.exists_contains_part apart there childThere contains
    rw [childCalls.hasModifier_eq]
    exact (parts part (List.mem_of_getElem? at_)).instances before (calls.mem_nodes at_)
      (calls.kind_eq ▸ isClass) childBefore (childCalls.mem_nodes at_) inside
      (childCalls.kind_eq ▸ isMethod)
  case flat =>
    intro owner there isType child childThere contains isClass
    obtain ⟨index, part, before, childBefore, at_, calls, childCalls, inside⟩ :=
      sound.exists_contains_part apart there childThere contains
    have same := (parts part (List.mem_of_getElem? at_)).flat before (calls.mem_nodes at_)
      (calls.kind_eq ▸ isType) childBefore (childCalls.mem_nodes at_) inside
      (childCalls.kind_eq ▸ isClass)
    exact sound.calls_eq (same ▸ childCalls) calls
  case properties =>
    intro owner there isClass accessor accessorThere contains field fieldThere containsField pair
    obtain ⟨index, part, before, accessorBefore, at_, calls, accessorCalls, inside⟩ :=
      sound.exists_contains_part apart there accessorThere contains
    obtain ⟨other, otherPart, otherBefore, fieldBefore, otherAt, otherCalls, fieldCalls,
      fieldInside⟩ :=
      sound.exists_contains_part apart there fieldThere containsField
    -- Both are contained by one node of one part.
    obtain ⟨rfl, rfl⟩ := sound.eq_of_calls calls otherCalls
    rw [at_] at otherAt
    cases otherAt
    exact (parts part (List.mem_of_getElem? at_)).properties before (calls.mem_nodes at_)
      (calls.kind_eq ▸ isClass) accessorBefore (accessorCalls.mem_nodes at_) inside fieldBefore
      (fieldCalls.mem_nodes at_) fieldInside (accessorCalls.isAccessorOf fieldCalls pair)

end Sound

end Merge

/-- A graph of a syntax tree that is transformed in parts is in normal form, unless matches are
left. -/
theorem exists_transformApart_normalForm {tree : SyntaxTree} {graph : CodeGraph}
    (ok : buildGraph tree = .ok graph) (bound : Nat) :
    ∃ result, transformApart graph Builtin.catalog.automated (.fixpoint bound) = .ok result ∧
      (result.warnings = [] → result.graph.NormalForm) := by
  have built := buildGraph_built ok
  obtain ⟨results, transformed⟩ := exists_forall₂ fun part member =>
    exists_transform_normalForm (built.wellFormed.parts part member) bound
  obtain ⟨sound, merged⟩ := transformParts_eq built.wellFormed (transformed.imp fun _ _ => And.left)
  have apartRan : transformApart graph Builtin.catalog.automated (.fixpoint bound) =
      transformParts graph Builtin.catalog.automated (.fixpoint bound) := if_neg (by decide)
  refine ⟨_, apartRan.trans merged, fun quiet => sound.normalForm_result built.noContainment ?_⟩
  intro part member
  obtain ⟨result, listed, rfl⟩ := List.mem_map.mp member
  obtain ⟨_, _, _, normal⟩ := exists_left_of_forall₂ transformed result listed
  exact normal (List.flatMap_eq_nil_iff.mp quiet result listed)

/-- **Normal forms.** Runs to a fixpoint with the automated built-in rules, of any graph as a whole
or of the graph of a syntax tree in parts, give a normal form, unless they report matches that are
left. -/
theorem transform_gives_normalForm :
    (∀ {graph : CodeGraph}, graph.WellFormed → ∀ bound, ∃ result,
      transform graph Builtin.catalog.automated (.fixpoint bound) = .ok result ∧
        (result.warnings = [] → result.graph.NormalForm)) ∧
    ∀ {tree : SyntaxTree} {graph : CodeGraph}, buildGraph tree = .ok graph → ∀ bound, ∃ result,
      transformApart graph Builtin.catalog.automated (.fixpoint bound) = .ok result ∧
        (result.warnings = [] → result.graph.NormalForm) :=
  ⟨exists_transform_normalForm, exists_transformApart_normalForm⟩

/-- A class with a static method beside one that calls it comes to a normal form in either way. -/
theorem transform_gives_normalForm_staticCall :
    ∃ (graph : CodeGraph) (whole apart : Transformed), buildGraph staticCall = .ok graph ∧
      transform graph Builtin.catalog.automated (.fixpoint 5) = .ok whole ∧
      whole.warnings = [] ∧ whole.graph.NormalForm ∧
      transformApart graph Builtin.catalog.automated (.fixpoint 5) = .ok apart ∧
      apart.warnings = [] ∧ apart.graph.NormalForm := by
  obtain ⟨wholeRuns, apartRuns⟩ := transform_gives_normalForm
  have small : (buildGraph staticCall).toOption.any (fun graph =>
      decide (graph.burden < 5) && graph.parts.all (·.burden < 5)) = true := by
    decide +kernel
  cases ok : buildGraph staticCall with
  | error _ =>
      rw [ok] at small
      cases small
  | ok graph =>
      have wellFormed := (buildGraph_built ok).wellFormed
      rw [ok] at small
      obtain ⟨less, partsLess⟩ := Bool.and_eq_true_iff.mp small
      obtain ⟨whole, ran, normal⟩ := wholeRuns wellFormed 5
      obtain ⟨apart, apartRan, apartNormal⟩ := apartRuns ok 5
      obtain ⟨other, otherRan, quiet, _⟩ := wellFormed.exists_transform_quiet Builtin.valid_of_mem
        Builtin.shrinks_of_mem (of_decide_eq_true less)
      obtain rfl : other = whole := Except.ok.inj (otherRan.symm.trans ran)
      -- The parts come to fixpoints, so there is nothing to report of them.
      obtain ⟨results, transformed⟩ := exists_forall₂ fun part (member : part ∈ graph.parts) =>
        (wellFormed.parts part member).exists_transform_quiet Builtin.valid_of_mem
          Builtin.shrinks_of_mem (of_decide_eq_true (List.all_eq_true.mp partsLess part member))
      have merged := (transformParts_eq wellFormed (transformed.imp fun _ _ => And.left)).2
      rw [transformApart, if_neg (by decide), merged] at apartRan
      obtain rfl := Except.ok.inj apartRan
      have apartQuiet : results.flatMap (·.warnings) = [] := by
        refine List.flatMap_eq_nil_iff.mpr fun result listed => ?_
        obtain ⟨_, _, _, quiet, _⟩ := exists_left_of_forall₂ transformed result listed
        exact quiet
      refine ⟨graph, other, _, rfl, ran, quiet, normal quiet, ?_, apartQuiet,
        apartNormal apartQuiet⟩
      rw [transformApart, if_neg (by decide)]
      exact merged

end Transcode
