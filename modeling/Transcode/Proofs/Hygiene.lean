import Mathlib.Data.List.DropRight
import Transcode.Proofs.Failures
import Transcode.Proofs.Resettling

/-!
# Names under the built-in rules

Each node of a transformed graph is what one node of the source has become, under a name that it has
from that node (`CodeGraph.Traces`). Types and functions keep the names of types and static methods,
a field keeps its own name or is named after the property that it backs. So no names meet, at the
top level or among the fields of a class, unless those of the source do.
-/

namespace Transcode

/-- The name of a backing field is the field's own again without the underscore. -/
theorem Text.trimUnderscores_backing (text : String) :
    trimUnderscores ("_" ++ trimUnderscores text) = trimUnderscores text := by
  have chars : ("_" ++ trimUnderscores text).toList = '_' :: text.toList.dropWhile (· = '_') := by
    simp [trimUnderscores]
  rw [trimUnderscores, chars, List.dropWhile_cons_of_pos (by simp), List.dropWhile_idempotent]
  rfl

/-! ### What a class gives away -/

namespace CodeGraph

/-- A static method of a class, which becomes a function. -/
structure IsStaticMethod (graph : CodeGraph) (method : Node) : Prop where
  isMethod : method.kind = .method
  isStatic : method.hasModifier "static"
  owned : ∃ owner ∈ graph.nodes, owner.kind = .classType ∧ graph.Contains owner.id method.id

/-- A field of a class that also has an accessor of the field's property. -/
def BacksProperty (graph : CodeGraph) (field : Node) : Prop :=
  ∃ owner ∈ graph.nodes, owner.kind = .classType ∧ graph.Contains owner.id field.id ∧
    ∃ accessor ∈ graph.nodes, graph.Contains owner.id accessor.id ∧ accessor.IsAccessorOf field

/-- What a rewrite by an automated built-in rule makes of a node that it replaces. -/
inductive Turns (graph : CodeGraph) (origin node : Node) : Prop where
  | interface (was : origin.kind = .classType) (is : node.kind = .interfaceType)
    (label : node.label = origin.label)
  | function (was : graph.IsStaticMethod origin) (is : node.kind = .function)
    (label : node.label = origin.label)
  | standalone (was : origin.kind = .classType) (is : node.kind = .classType)
    (label : node.label = origin.label)
  | accessor (is : node.kind = .accessor)
  | backing (was : graph.BacksProperty origin) (is : node.kind = .field)
    (label : node.label = "_" ++ Text.trimUnderscores origin.label)
    (modifiers : node.get? "modifiers" = origin.get? "modifiers")

end CodeGraph

/-! ### The rules -/

/-- A copy of a node has its kind and label unless the template gives others. -/
theorem TemplateNode.spec_of_copy {template : TemplateNode} {name : String}
    {lookup : String → Option Node} {origin : Node} {spec : NodeSpec}
    (copied : template.copyFrom = some name) (isOrigin : lookup name = some origin)
    (made : template.instantiate lookup = some spec) :
    spec.kind = template.kind.getD origin.kind ∧
      spec.label = (template.label.map (·.render lookup)).getD origin.label := by
  unfold instantiate at made
  simp only [copied, Option.bind_some, isOrigin, Option.bind_eq_bind, Option.bind_eq_some_iff,
    Option.pure_def, Option.some.injEq, Option.map_some] at made
  obtain ⟨kind, isKind, label, isLabel, rfl⟩ := made
  cases given : template.kind <;> cases text : template.label <;>
    simp_all

/-- An edge that stands for containment tells that the one bound node contains the other. -/
theorem SourcePattern.Stands.contains {pattern : SourcePattern} {graph : CodeGraph}
    {bound : List Node} {source target : String} {there : Edge} {owner child : Node}
    (stands : pattern.Stands graph bound ⟨source, target, .contains⟩ there)
    (isOwner : pattern.lookup bound source = some owner)
    (isChild : pattern.lookup bound target = some child) : graph.Contains owner.id child.id := by
  have sources := stands.source
  have targets := stands.target
  rw [isOwner] at sources
  rw [isChild] at targets
  exact ⟨there, stands.member, stands.kind, (Option.some.inj sources).symm,
    (Option.some.inj targets).symm⟩

/-- A match of a rewrite looks up the nodes that it binds. -/
theorem Rewrite.Genuine.exists_lookup {rules : List Rule} {rewrite : Rewrite}
    (genuine : rewrite.Genuine rules) : ∃ bound,
      rewrite.rule.sourcePattern.Assigns rewrite.before.graph bound ∧
      rewrite.before.graph.boundNode? rewrite.found =
        rewrite.rule.sourcePattern.lookup bound := by
  obtain ⟨bound, mapped, embeds, maps, made⟩ := genuine.embedding
  refine ⟨bound, embeds.toAssigns, ?_⟩
  funext name
  have node : rewrite.found.node? name =
      (rewrite.rule.sourcePattern.lookup bound name).map (·.id) := by
    rw [made]
    exact Rule.node?_matchOf embeds.accepted.length_eq ..
  rw [CodeGraph.boundNode?, node]
  cases looked : rewrite.rule.sourcePattern.lookup bound name with
  | none => rfl
  | some node =>
      obtain ⟨place, _, isNode⟩ := Option.bind_eq_some_iff.mp looked
      obtain ⟨_, _, there, _⟩ :=
        exists_left_of_forall₂ embeds.accepted.flip node (List.mem_of_getElem? isNode)
      exact genuine.formed.node?_of_mem there

/-- Whatever is a match of the rule, each copy of a bound node is one of the things that automated
built-in rules make of nodes. -/
def Rule.OnlyTurns (rule : Rule) : Prop :=
  ∀ {graph : CodeGraph} {bound : List Node} {template : TemplateNode} {name : String}
    {origin node : Node}, rule.sourcePattern.Assigns graph bound →
    template ∈ rule.targetPattern.nodes → template.copyFrom = some name →
    rule.sourcePattern.lookup bound name = some origin →
    template.instantiate (rule.sourcePattern.lookup bound) = some node.spec →
    graph.Turns origin node

namespace Builtin

theorem classToInterface_onlyTurns : classToInterface.OnlyTurns := by
  intro graph bound template name origin node assigns listed copied isOrigin made
  obtain rfl := List.mem_singleton.mp listed
  obtain ⟨kind, label⟩ := TemplateNode.spec_of_copy copied isOrigin made
  obtain ⟨accepted, _, _, _⟩ := assigns
  cases accepted with
  | cons isClass rest =>
    cases rest
    cases copied
    cases isOrigin
    exact .interface (PatternNode.kind_of_accepts rfl isClass.2) kind label

theorem staticToFunction_onlyTurns : staticToFunction.OnlyTurns := by
  intro graph bound template name origin node assigns listed copied isOrigin made
  obtain rfl := List.mem_singleton.mp listed
  obtain ⟨kind, label⟩ := TemplateNode.spec_of_copy copied isOrigin made
  obtain ⟨accepted, _, connected, _⟩ := assigns
  obtain ⟨_, stands⟩ := connected _ List.mem_cons_self
  cases accepted with
  | @cons owner _ _ _ isOwner rest =>
    cases rest with
    | cons isMethod rest =>
      cases rest
      cases copied
      cases isOrigin
      have ownerIs : owner.kind = .classType := PatternNode.kind_of_accepts rfl isOwner.2
      have method : origin.kind = .method ∧ origin.hasModifier "static" := by
        simpa [CodeGraph.accepts, NodeFilter.accepts] using isMethod.2
      exact .function
        ⟨method.1, method.2, owner, isOwner.1, ownerIs, stands.contains rfl rfl⟩ kind label

theorem innerToStandalone_onlyTurns : innerToStandalone.OnlyTurns := by
  intro graph bound template name origin node assigns listed copied isOrigin made
  obtain rfl := List.mem_singleton.mp listed
  obtain ⟨kind, label⟩ := TemplateNode.spec_of_copy copied isOrigin made
  obtain ⟨accepted, _, _, _⟩ := assigns
  cases accepted with
  | cons isOuter rest =>
    cases rest with
    | cons isInner rest =>
      cases rest
      cases copied
      cases isOrigin
      have was : origin.kind = .classType := PatternNode.kind_of_accepts rfl isInner.2
      exact .standalone was (kind.trans was) label

/-- The property of an accessor, as the rule writes it. -/
theorem render_propertyOfAccessor {lookup : String → Option Node} {accessor : Node}
    (isAccessor : lookup "accessor" = some accessor) :
    propertyOfAccessor.render lookup = Text.propertyName accessor.label := by
  simp [Template.render, propertyOfAccessor, Template.ofParts, TemplatePart.render, isAccessor,
    TextFilter.apply]

/-- A property has the name of its field without underscores. -/
theorem render_plainField {lookup : String → Option Node} {field : Node}
    (isField : lookup "field" = some field) :
    plainField.render lookup = Text.trimUnderscores field.label := by
  simp [Template.render, plainField, Template.ofParts, TemplatePart.render, isField,
    TextFilter.apply]

/-- The field behind a property has an underscore before that name. -/
theorem render_backingField {lookup : String → Option Node} {field : Node}
    (isField : lookup "field" = some field) :
    backingField.render lookup = "_" ++ Text.trimUnderscores field.label := by
  simp [Template.render, backingField, Template.ofParts, TemplatePart.render, isField,
    TextFilter.apply]

theorem accessorToProperty_onlyTurns : accessorToProperty.OnlyTurns := by
  intro graph bound template name origin node assigns listed copied isOrigin made
  obtain ⟨kind, label⟩ := TemplateNode.spec_of_copy copied isOrigin made
  obtain ⟨accepted, _, connected, constraints⟩ := assigns
  obtain ⟨_, ofAccessor⟩ := connected _ List.mem_cons_self
  obtain ⟨_, ofField⟩ := connected _ (List.mem_cons_of_mem _ List.mem_cons_self)
  cases accepted with
  | @cons owner _ _ _ isOwner rest =>
    cases rest with
    | @cons accessor _ _ _ isAccessor rest =>
      cases rest with
      | @cons field _ _ _ isField rest =>
        cases rest
        have ownerIs : owner.kind = .classType := PatternNode.kind_of_accepts rfl isOwner.2
        rcases List.mem_cons.mp listed with rfl | listed
        · exact .accessor kind
        · obtain rfl := List.mem_singleton.mp listed
          have modifiers := TemplateNode.get?_of_instantiate copied isOrigin
            (show "modifiers" ∉ _ ∧ "modifiers" ∉ _ by decide) made
          cases copied
          cases isOrigin
          have method : accessor.kind = .method ∧ accessorNames.accepts accessor.label ∧
              accessor.hasModifier "static" = false := by
            simpa [CodeGraph.accepts, NodeFilter.accepts, and_assoc] using isAccessor.2
          have own : origin.kind = .field ∧ origin.hasModifier "static" = false := by
            simpa [CodeGraph.accepts, NodeFilter.accepts] using isField.2
          have same := of_decide_eq_true (List.all_eq_true.mp constraints _ List.mem_cons_self)
          rw [render_propertyOfAccessor rfl, render_plainField rfl] at same
          have isAccessorOf : accessor.IsAccessorOf origin :=
            ⟨method.1, method.2.2, method.2.1, own.1, own.2, same.symm⟩
          refine .backing ⟨owner, isOwner.1, ownerIs, ofField.contains rfl rfl, accessor,
            isAccessor.1, ofAccessor.contains rfl rfl, isAccessorOf⟩ (kind.trans own.1) ?_ modifiers
          exact label.trans (render_backingField rfl)

/-- The automated rules only turn nodes in the known ways. -/
theorem onlyTurns_of_mem : ∀ rule ∈ catalog.automated, rule.OnlyTurns := by
  rw [automated_eq]
  simp [classToInterface_onlyTurns, staticToFunction_onlyTurns, innerToStandalone_onlyTurns,
    accessorToProperty_onlyTurns]

end Builtin

/-- **What is new** after a rewrite by an automated built-in rule. -/
theorem Rewrite.Genuine.exists_turns {rewrite : Rewrite}
    (genuine : rewrite.Genuine Builtin.catalog.automated) {addition : Addition}
    (applies : rewrite.before.graph.Applies rewrite.rule rewrite.found addition) {node : Node}
    (new : node ∈ addition.nodes) : ∃ origin ∈ rewrite.before.graph.nodes,
      rewrite.before.graph.Turns origin node ∧ node.id = rewrite.inPlace origin.id := by
  have listed := List.mem_of_getElem? genuine.listed
  obtain ⟨template, place, origin, there, paired, copies, isBound, named⟩ :=
    exists_copied (Builtin.valid_of_mem _ listed) applies
      (Builtin.keepsLoops_of_mem _ (List.mem_filter.mp listed).1) new
  obtain ⟨bound, assigns, looked⟩ := genuine.exists_lookup
  have made := List.forall₂_zip applies.added.filled paired
  rw [genuine.formed.node?_of_mem there] at isBound
  rw [looked] at isBound made
  exact ⟨origin, there, Builtin.onlyTurns_of_mem _ listed assigns (List.of_mem_zip paired).1
    copies.copied isBound made, named⟩

/-! ### What becomes of the nodes of a graph -/

namespace CodeGraph

/-- A node of a later graph is what a node of a graph has become. -/
structure Continues (start : CodeGraph) (origin node : Node) : Prop where
  type : node.kind.isType → origin.kind.isType ∧ node.label = origin.label
  ofClass : node.kind = .classType → origin.kind = .classType
  method : node.kind = .method → origin.kind = .method ∧ node.label = origin.label ∧
    node.get? "modifiers" = origin.get? "modifiers"
  function : node.kind = .function →
    (origin.kind = .function ∨ start.IsStaticMethod origin) ∧ node.label = origin.label
  field : node.kind = .field → origin.kind = .field ∧
    node.get? "modifiers" = origin.get? "modifiers" ∧
    (node.label = origin.label ∨
      node.label = "_" ++ Text.trimUnderscores origin.label ∧ start.BacksProperty origin)

/-- The nodes of a later graph are those of a graph, each under a name of its own, and contain
nothing but what they have contained. -/
structure Traces (start : CodeGraph) (place : String → String) (after : CodeGraph) : Prop where
  live : ∀ id, start.hasNode id → after.hasNode (place id)
  apart : ∀ first, start.hasNode first → ∀ second, start.hasNode second →
    place first = place second → first = second
  origins : ∀ node ∈ after.nodes, ∃ origin ∈ start.nodes, node.id = place origin.id ∧
    start.Continues origin node
  contains : ∀ owner, start.hasNode owner → ∀ child, start.hasNode child →
    after.Contains (place owner) (place child) → start.Contains owner child

namespace Continues

variable {start : CodeGraph} {origin node accessor field other : Node}

/-- A node continues itself. -/
theorem refl (start : CodeGraph) (node : Node) : start.Continues node node where
  type isType := ⟨isType, rfl⟩
  ofClass isClass := isClass
  method isMethod := ⟨isMethod, rfl, rfl⟩
  function isFunction := ⟨.inl isFunction, rfl⟩
  field isField := ⟨isField, rfl, .inl rfl⟩

/-- Up to underscores a field keeps its name. -/
theorem trim_label (continues : start.Continues origin node) (isField : node.kind = .field) :
    Text.trimUnderscores node.label = Text.trimUnderscores origin.label := by
  obtain ⟨_, _, same | ⟨backing, _⟩⟩ := continues.field isField
  · rw [same]
  · rw [backing, Text.trimUnderscores_backing]

/-- What belong together as accessor and field have done so. -/
theorem isAccessorOf (continues : start.Continues origin accessor)
    (fieldContinues : start.Continues other field) (pair : accessor.IsAccessorOf field) :
    origin.IsAccessorOf other := by
  obtain ⟨isMethod, label, modifiers⟩ := continues.method pair.isMethod
  obtain ⟨isField, fieldModifiers, _⟩ := fieldContinues.field pair.isField
  refine ⟨isMethod, ?_, label ▸ pair.name, isField, ?_, ?_⟩
  · rw [Node.hasModifier, ← modifiers]
    exact pair.ofInstance
  · rw [Node.hasModifier, ← fieldModifiers]
    exact pair.fieldOfInstance
  · rw [← fieldContinues.trim_label pair.isField, ← label]
    exact pair.property

end Continues

namespace Traces

variable {start graph : CodeGraph} {place : String → String}

/-- A graph traces to itself. -/
theorem refl (start : CodeGraph) : start.Traces id start where
  live _ there := there
  apart _ _ _ _ same := same
  origins node member := ⟨node, member, rfl, .refl start node⟩
  contains _ _ _ _ contains := contains

variable (traces : start.Traces place graph) {origin node other : Node}

include traces

/-- What a class contains, a class has contained. -/
theorem exists_owner {owner : Node} (ownerThere : owner ∈ graph.nodes)
    (isClass : owner.kind = .classType) :
    ∃ holder ∈ start.nodes, holder.kind = .classType ∧ ∀ origin ∈ start.nodes, ∀ node : Node,
      node.id = place origin.id → graph.Contains owner.id node.id →
        start.Contains holder.id origin.id := by
  obtain ⟨holder, holderThere, ownerNamed, ownerContinues⟩ := traces.origins owner ownerThere
  refine ⟨holder, holderThere, ownerContinues.ofClass isClass,
    fun origin there node named contains => ?_⟩
  rw [named, ownerNamed] at contains
  exact traces.contains _ (hasNode_of_mem holderThere) _ (hasNode_of_mem there) contains

variable (there : origin ∈ start.nodes) (named : node.id = place origin.id)
  (continues : start.Continues origin node)

include there named continues

/-- What is a static method was one at the start. -/
theorem isStaticMethod (isStatic : graph.IsStaticMethod node) : start.IsStaticMethod origin := by
  obtain ⟨isMethod, static, owner, ownerThere, isClass, contains⟩ := isStatic
  obtain ⟨holder, holderThere, holderIs, held⟩ := traces.exists_owner ownerThere isClass
  obtain ⟨originIs, _, modifiers⟩ := continues.method isMethod
  refine ⟨originIs, ?_, holder, holderThere, holderIs, held origin there node named contains⟩
  rw [Node.hasModifier, ← modifiers]
  exact static

/-- What backs a property did so at the start. -/
theorem backsProperty (backs : graph.BacksProperty node) : start.BacksProperty origin := by
  obtain ⟨owner, ownerThere, isClass, contains, accessor, accessorThere, ofOwner, pair⟩ := backs
  obtain ⟨holder, holderThere, holderIs, held⟩ := traces.exists_owner ownerThere isClass
  obtain ⟨method, methodThere, methodNamed, methodContinues⟩ :=
    traces.origins accessor accessorThere
  exact ⟨holder, holderThere, holderIs, held origin there node named contains, method, methodThere,
    held method methodThere accessor methodNamed ofOwner,
    methodContinues.isAccessorOf continues pair⟩

/-- What a rewrite makes of a node is what the node's origin has become. -/
theorem turn (turns : graph.Turns node other) : start.Continues origin other := by
  cases turns with
  | interface was is label =>
    have type := continues.type (by rw [was]; rfl)
    refine ⟨fun _ => ⟨type.1, label.trans type.2⟩, ?_, ?_, ?_, ?_⟩ <;> simp [is]
  | function was is label =>
    have static := traces.isStaticMethod there named continues was
    have method := continues.method was.isMethod
    refine ⟨?_, ?_, ?_, fun _ => ⟨.inr static, label.trans method.2.1⟩, ?_⟩ <;>
      simp [is, NodeKind.isType]
  | standalone was is label =>
    have type := continues.type (by rw [was]; rfl)
    refine ⟨fun _ => ⟨type.1, label.trans type.2⟩, fun _ => continues.ofClass was, ?_, ?_, ?_⟩ <;>
      simp [is]
  | accessor is =>
    constructor <;> simp [is, NodeKind.isType]
  | backing was is label modifiers =>
    have backs := traces.backsProperty there named continues was
    obtain ⟨_, _, _, _, _, _, _, pair⟩ := was
    have field := continues.field pair.isField
    have backing := label.trans (congrArg ("_" ++ ·) (continues.trim_label pair.isField))
    refine ⟨?_, ?_, ?_, ?_, fun _ =>
      ⟨field.1, modifiers.trans field.2.1, .inr ⟨backing, backs⟩⟩⟩ <;> simp [is, NodeKind.isType]

end Traces

/-- What is contained under other names has been contained. -/
theorem Rehouses.contains {before after : CodeGraph} {place : String → String}
    (rehouses : before.Rehouses place after) (formed : before.WellFormed) {owner child : String}
    (ownerThere : before.hasNode owner) (childThere : before.hasNode child)
    (contains : after.Contains (place owner) (place child)) : before.Contains owner child := by
  obtain ⟨earlier, contained, same⟩ := rehouses.only owner ownerThere _ contains
  have isChild := rehouses.apart _ (formed.hasNode_of_contains contained).2 _ childThere same
  exact isChild ▸ contained

end CodeGraph

/-! ### Rewriting -/

namespace Rewrite

variable {rewrite : Rewrite} {first last : Pass} {log : List Rewrite} {start : CodeGraph}
  {place : String → String}

/-- **One rewrite** by an automated built-in rule. -/
theorem Genuine.traces (genuine : rewrite.Genuine Builtin.catalog.automated)
    (forest : rewrite.before.graph.Forest) (traces : start.Traces place rewrite.before.graph) :
    start.Traces (rewrite.inPlace ∘ place) rewrite.after.graph := by
  have listed := List.mem_of_getElem? genuine.listed
  have rehouses := genuine.rehouses (Builtin.valid_of_mem _ listed)
    (Builtin.keepsLoops_of_mem _ (List.mem_filter.mp listed).1) forest
  refine ⟨fun id there => ?_, fun one oneThere another anotherThere same => ?_,
    fun node member => ?_, fun owner ownerThere child childThere contains => ?_⟩
  · obtain ⟨node, member, named⟩ :=
      List.mem_map.mp (CodeGraph.hasNode_iff.mp (traces.live id there))
    obtain ⟨other, otherMember, isPlace, _⟩ := rehouses.shown node member
    have here := CodeGraph.hasNode_of_mem otherMember
    rwa [isPlace, named] at here
  · exact traces.apart _ oneThere _ anotherThere
      (rehouses.apart _ (traces.live _ oneThere) _ (traces.live _ anotherThere) same)
  · obtain ⟨addition, applies, made⟩ := genuine.applies
    rw [made] at member
    rcases List.mem_append.mp member with kept | new
    · obtain ⟨there, stays⟩ := List.mem_filter.mp kept
      obtain ⟨origin, originThere, named, continues⟩ := traces.origins node there
      refine ⟨origin, originThere, ?_, continues⟩
      rw [Function.comp_apply, ← named, inPlace_eq applies,
        Addition.inPlace_of_not_mem (of_decide_eq_true stays)]
    · obtain ⟨earlier, there, turns, isPlace⟩ := genuine.exists_turns applies new
      obtain ⟨origin, originThere, named, continues⟩ := traces.origins earlier there
      exact ⟨origin, originThere, isPlace.trans (congrArg rewrite.inPlace named),
        traces.turn originThere named continues turns⟩
  · exact traces.contains _ ownerThere _ childThere
      (rehouses.contains genuine.formed (traces.live _ ownerThere) (traces.live _ childThere)
        contains)

/-- The rewrites of a pass. -/
theorem Linked.traces (linked : Linked first log last)
    (genuine : ∀ rewrite ∈ log, rewrite.Genuine Builtin.catalog.automated)
    (forest : first.graph.Forest) (traces : start.Traces place first.graph) :
    start.Traces (placeAfter log ∘ place) last.graph := by
  induction linked, genuine using Linked.head_induction_on generalizing place with
  | ended => exact traces
  | step here _ _ ih =>
      have listed := List.mem_of_getElem? here.listed
      have after :=
        here.forest (Builtin.valid_of_mem _ listed) (Builtin.keepsForests_of_mem _ listed)
        here.formed_after forest
      exact ih after (here.traces forest traces)

end Rewrite

namespace CodeGraph

variable {graph : CodeGraph}

/-- **Any number of passes** with the automated built-in rules. -/
theorem WellFormed.traces_stage (wellFormed : graph.WellFormed) (forest : graph.Forest)
    (passes : Nat) :
    graph.Traces (Rewrite.placeAfter (graph.rewritesOver Builtin.catalog.automated passes))
      (graph.stage Builtin.catalog.automated passes) := by
  induction passes with
  | zero => exact .refl graph
  | succ passes ih =>
      have formed := wellFormed.stage Builtin.valid_of_mem passes
      obtain ⟨last, ran, linked, genuine⟩ := formed.exists_rewrites Builtin.valid_of_mem
      have after := linked.traces genuine
        (forest.stage wellFormed Builtin.valid_of_mem Builtin.keepsForests_of_mem passes) ih
      rw [← onePass_eq ran] at after
      rw [placeAfter_rewritesOver_succ]
      exact after

end CodeGraph

/-! ### Parts -/

/-- Whether an accessor is for a field is told by what they are. -/
theorem Node.IsAccessorOf.of_spec {accessor field other another : Node}
    (pair : accessor.IsAccessorOf field) (same : other.spec = accessor.spec)
    (fieldSame : another.spec = field.spec) : other.IsAccessorOf another := by
  obtain ⟨kind, label, attributes⟩ := NodeSpec.mk.inj same
  obtain ⟨fieldKind, fieldLabel, fieldAttributes⟩ := NodeSpec.mk.inj fieldSame
  refine ⟨kind.trans pair.isMethod, ?_, label ▸ pair.name, fieldKind.trans pair.isField, ?_, ?_⟩
  · rw [Node.hasModifier, Node.get?, attributes]
    exact pair.ofInstance
  · rw [Node.hasModifier, Node.get?, fieldAttributes]
    exact pair.fieldOfInstance
  · rw [label, fieldLabel]
    exact pair.property

namespace CodeGraph

variable {graph : CodeGraph} {index : Fin graph.partGroups.length} {origin other node called : Node}

/-- What a class of a part contains, a class of the graph does. -/
theorem exists_owner_of_partAt {owner : Node} (ownerThere : owner ∈ (graph.partAt index).nodes)
    (isClass : owner.kind = .classType) : ∃ holder ∈ graph.nodes, holder.id = owner.id ∧
      holder.kind = .classType ∧
      ∀ child, (graph.partAt index).Contains owner.id child → graph.Contains holder.id child := by
  obtain ⟨holder, there, named, same⟩ := exists_of_mem_partAt ownerThere
  refine ⟨holder, there, named, (congrArg NodeSpec.kind same).trans isClass,
    fun child contains => ?_⟩
  rw [named]
  exact contains_of_partAt contains

/-- A static method of a part is one of the graph. -/
theorem IsStaticMethod.of_partAt (isStatic : (graph.partAt index).IsStaticMethod origin)
    (named : other.id = origin.id) (same : other.spec = origin.spec) :
    graph.IsStaticMethod other := by
  obtain ⟨kind, -, attributes⟩ := NodeSpec.mk.inj same
  obtain ⟨isMethod, static, owner, ownerThere, isClass, contains⟩ := isStatic
  obtain ⟨holder, holderThere, _, holderIs, keeps⟩ := exists_owner_of_partAt ownerThere isClass
  refine ⟨kind.trans isMethod, ?_, holder, holderThere, holderIs, named ▸ keeps _ contains⟩
  rwa [Node.hasModifier, Node.get?, attributes]

/-- A field that backs a property in a part does so in the graph. -/
theorem BacksProperty.of_partAt (backs : (graph.partAt index).BacksProperty origin)
    (named : other.id = origin.id) (same : other.spec = origin.spec) :
    graph.BacksProperty other := by
  obtain ⟨owner, ownerThere, isClass, contains, accessor, accessorThere, ofOwner, pair⟩ := backs
  obtain ⟨holder, holderThere, _, holderIs, keeps⟩ := exists_owner_of_partAt ownerThere isClass
  obtain ⟨method, methodThere, methodNamed, methodSame⟩ := exists_of_mem_partAt accessorThere
  exact ⟨holder, holderThere, holderIs, named ▸ keeps _ contains, method, methodThere,
    methodNamed ▸ keeps _ ofOwner, pair.of_spec methodSame same⟩

/-- What a node of a part has become, the node of the graph has become, under whatever name. -/
theorem Continues.of_partAt (continues : (graph.partAt index).Continues origin node)
    (named : other.id = origin.id) (same : other.spec = origin.spec)
    (calledSame : called.spec = node.spec) : graph.Continues other called := by
  obtain ⟨kind, label, attributes⟩ := NodeSpec.mk.inj same
  obtain ⟨calledKind, calledLabel, calledAttributes⟩ := NodeSpec.mk.inj calledSame
  have value : other.get? "modifiers" = origin.get? "modifiers" :=
    congrArg (Dict.get? · "modifiers") attributes
  have calledValue : called.get? "modifiers" = node.get? "modifiers" :=
    congrArg (Dict.get? · "modifiers") calledAttributes
  constructor <;> rw [calledKind, kind] <;> try rw [calledLabel, label]
  · exact continues.type
  · exact continues.ofClass
  · rw [value, calledValue]
    exact continues.method
  · exact fun is => ⟨(continues.function is).1.imp id fun static => static.of_partAt named same,
      (continues.function is).2⟩
  · rw [value, calledValue]
    exact fun is => ⟨(continues.field is).1, (continues.field is).2.1,
      (continues.field is).2.2.imp id fun both => ⟨both.1, both.2.of_partAt named same⟩⟩

end CodeGraph

namespace Reattached

variable {graph : CodeGraph} {part : Fin graph.partGroups.length → CodeGraph}
  {place : Fin graph.partGroups.length → String → String} {final : String → String}
  {index : Fin graph.partGroups.length} {id : String}
  (reattached : Reattached graph part place final)

include reattached

/-- A node becomes what it has become in its part, as the merge calls that. -/
theorem final_eq (inPart : (graph.partAt index).hasNode id) :
    final id = graph.nameInReunion part (index, place index id) := by
  rw [CodeGraph.nameInReunion, reattached.named index id inPart, Option.getD_some]

/-- **The merge** of what the parts have become. -/
theorem traces (traces : ∀ index, (graph.partAt index).Traces (place index) (part index)) :
    graph.Traces final (graph.reunion part).result := by
  have built := reattached.built
  have formed := reattached.formed
  refine ⟨fun _ => reattached.hasNode_final, fun one oneThere another anotherThere same => ?_,
    fun node member => ?_, fun owner ownerThere child childThere contains => ?_⟩
  · obtain ⟨index, inPart⟩ := built.exists_partAt oneThere
    obtain ⟨other, inOther⟩ := built.exists_partAt anotherThere
    rw [reattached.final_eq inPart, reattached.final_eq inOther] at same
    obtain ⟨rfl, same⟩ := built.wellFormed.eq_of_nameInReunion formed
      ((traces index).live _ inPart) ((traces other).live _ inOther) same
    exact (traces index).apart _ inPart _ inOther same
  · obtain ⟨index, earlier, there, named⟩ := built.wellFormed.exists_part_of_reunion formed member
    obtain ⟨called, calls, isCalled⟩ := built.wellFormed.exists_calls_reunion formed there
    obtain rfl := reattached.sound.formed.eq_of_id calls.there member (isCalled.trans named.symm)
    obtain ⟨origin, inPart, isPlace, continues⟩ := (traces index).origins earlier there
    obtain ⟨other, otherThere, sameId, same⟩ := CodeGraph.exists_of_mem_partAt inPart
    refine ⟨other, otherThere, ?_, continues.of_partAt sameId same calls.spec⟩
    rw [named, isPlace, sameId, reattached.final_eq (CodeGraph.hasNode_of_mem inPart)]
  · obtain ⟨index, inPart⟩ := built.exists_partAt ownerThere
    obtain ⟨other, inOther⟩ := built.exists_partAt childThere
    rw [reattached.final_eq inPart, reattached.final_eq inOther] at contains
    obtain ⟨inner, contained, same⟩ := (built.wellFormed.rehouses_reunion formed
      built.noContainment index).only _ ((traces index).live _ inPart) _ contains
    obtain ⟨rfl, rfl⟩ := built.wellFormed.eq_of_nameInReunion formed
      ((formed index).hasNode_of_contains contained).2 ((traces other).live _ inOther) same
    exact CodeGraph.contains_of_partAt ((traces index).contains _ inPart _ inOther contained)

end Reattached

/-- **Transforming** the graph of a syntax tree by the built-in rules, in any configuration. -/
theorem Engine.exists_traces {tree : SyntaxTree} {graph : CodeGraph} (config : Config)
    (ok : buildGraph tree = .ok graph) :
    ∃ result, Engine.transform ⟨Builtin.catalog, config⟩ graph = .ok result ∧
      ∃ place, graph.Traces place result.graph := by
  have built := buildGraph_built ok
  have forest := buildGraph_forest ok
  obtain ⟨⟨whole, ran, last⟩, apart, apartRan, apartLast⟩ :=
    CodeGraph.exists_transform_stage Builtin.valid_of_mem built.wellFormed (by decide) config.mode
  unfold Engine.transform
  split
  · refine ⟨apart, apartRan,
      graph.placeApart Builtin.catalog.automated config.mode.passes, ?_⟩
    rw [apartLast]
    exact (built.reattached_stage Builtin.valid_of_mem Builtin.onlyContains_of_mem
      config.mode.passes).traces fun index =>
        (built.wellFormed.partAt index).traces_stage (forest.partAt index) config.mode.passes
  · exact ⟨whole, ran, _,
      last ▸ built.wellFormed.traces_stage forest config.mode.passes⟩

/-! ### Names that do not meet -/

namespace CodeGraph

variable {graph : CodeGraph}

instance (graph : CodeGraph) (owner id : String) : Decidable (graph.Contains owner id) :=
  decidable_of_iff (∃ edge ∈ graph.edges, edge.kind = .contains ∧ edge.source = owner ∧
      edge.target = id)
    ⟨fun ⟨edge, member, kind, source, target⟩ => ⟨edge, member, kind, source, target⟩,
      fun ⟨edge, member, kind, source, target⟩ => ⟨edge, member, kind, source, target⟩⟩

instance (accessor field : Node) : Decidable (accessor.IsAccessorOf field) :=
  decidable_of_iff (accessor.kind = .method ∧ accessor.hasModifier "static" = false ∧
      Builtin.accessorNames.accepts accessor.label ∧ field.kind = .field ∧
      field.hasModifier "static" = false ∧
      Text.trimUnderscores field.label = Text.propertyName accessor.label)
    ⟨fun ⟨method, instance_, name, field, fieldInstance, property⟩ =>
        ⟨method, instance_, name, field, fieldInstance, property⟩,
      fun ⟨method, instance_, name, field, fieldInstance, property⟩ =>
        ⟨method, instance_, name, field, fieldInstance, property⟩⟩

instance (graph : CodeGraph) (method : Node) : Decidable (graph.IsStaticMethod method) :=
  decidable_of_iff (method.kind = .method ∧ method.hasModifier "static" ∧
      ∃ owner ∈ graph.nodes, owner.kind = .classType ∧ graph.Contains owner.id method.id)
    ⟨fun ⟨kind, static, owned⟩ => ⟨kind, static, owned⟩,
      fun ⟨kind, static, owned⟩ => ⟨kind, static, owned⟩⟩

instance (graph : CodeGraph) (field : Node) : Decidable (graph.BacksProperty field) :=
  inferInstanceAs (Decidable (∃ owner ∈ graph.nodes, owner.kind = .classType ∧
    graph.Contains owner.id field.id ∧ ∃ accessor ∈ graph.nodes,
      graph.Contains owner.id accessor.id ∧ accessor.IsAccessorOf field))

/-- What may be declared at the top level: a type, a function, or what becomes one. -/
def IsDeclared (graph : CodeGraph) (node : Node) : Prop :=
  node.kind.isType ∨ node.kind = .function ∨ graph.IsStaticMethod node

instance (graph : CodeGraph) (node : Node) : Decidable (graph.IsDeclared node) :=
  inferInstanceAs (Decidable (_ ∨ _ ∨ _))

/-- The fields that a node contains, in order of creation. -/
def fieldsOf (graph : CodeGraph) (owner : String) : List Node :=
  (graph.children owner).filter (·.kind = .field)

/-- Names that do not meet, wherever the built-in rules take them. -/
structure DistinctNames (graph : CodeGraph) : Prop where
  /-- Types at every level, functions and static methods of classes have different names. -/
  declared : ((graph.nodes.filter (graph.IsDeclared ·)).map (·.label)).Nodup
  /-- The fields of a class have different names. -/
  fields : ∀ owner ∈ graph.nodes, owner.kind = .classType →
    ((graph.fieldsOf owner.id).map (·.label)).Nodup
  /-- The name that a field takes when it backs a property is neither that of another field of the
  class nor one that another field takes. -/
  backing : ∀ owner ∈ graph.nodes, owner.kind = .classType → ∀ field ∈ graph.fieldsOf owner.id,
    graph.BacksProperty field → ∀ other ∈ graph.fieldsOf owner.id, other.id ≠ field.id →
      other.label ≠ "_" ++ Text.trimUnderscores field.label ∧
        (graph.BacksProperty other →
          Text.trimUnderscores other.label ≠ Text.trimUnderscores field.label)

instance (graph : CodeGraph) : Decidable graph.DistinctNames :=
  decidable_of_iff (_ ∧ _ ∧ _)
    ⟨fun ⟨declared, fields, backing⟩ => ⟨declared, fields, backing⟩,
      fun ⟨declared, fields, backing⟩ => ⟨declared, fields, backing⟩⟩

/-- The fields of a class are the fields that it contains. -/
theorem WellFormed.mem_fieldsOf_iff (wellFormed : graph.WellFormed) {owner : String}
    {field : Node} :
    field ∈ graph.fieldsOf owner ↔
      field ∈ graph.nodes ∧ graph.Contains owner field.id ∧ field.kind = .field := by
  rw [fieldsOf, List.mem_filter, Output.mem_children_iff wellFormed, decide_eq_true_eq, and_assoc]

/-- What is declared at the top level was of use for it under the same name. -/
theorem Continues.isDeclared {origin node : Node} (continues : graph.Continues origin node)
    (declared : node.kind.isType ∨ node.kind = .function) :
    graph.IsDeclared origin ∧ node.label = origin.label := by
  rcases declared with isType | isFunction
  · exact ⟨.inl (continues.type isType).1, (continues.type isType).2⟩
  · exact ⟨.inr (continues.function isFunction).1, (continues.function isFunction).2⟩

namespace Traces

variable {after : CodeGraph} {place : String → String} (traces : graph.Traces place after)
  (afterFormed : after.WellFormed) (distinct : graph.DistinctNames) {first second : Node}

include traces afterFormed distinct

/-- Types and functions have different names. -/
theorem eq_of_declared (there : first ∈ after.nodes) (secondThere : second ∈ after.nodes)
    (declared : first.kind.isType ∨ first.kind = .function)
    (secondDeclared : second.kind.isType ∨ second.kind = .function)
    (same : first.label = second.label) : first = second := by
  obtain ⟨origin, originThere, named, continues⟩ := traces.origins first there
  obtain ⟨other, otherThere, otherNamed, otherContinues⟩ := traces.origins second secondThere
  obtain ⟨isDeclared, label⟩ := continues.isDeclared declared
  obtain ⟨otherDeclared, otherLabel⟩ := otherContinues.isDeclared secondDeclared
  have sameOrigin : origin = other := List.inj_on_of_nodup_map distinct.declared
    (List.mem_filter.mpr ⟨originThere, decide_eq_true isDeclared⟩)
    (List.mem_filter.mpr ⟨otherThere, decide_eq_true otherDeclared⟩)
    (label.symm.trans (same.trans otherLabel))
  exact afterFormed.eq_of_id there secondThere (by rw [named, otherNamed, sameOrigin])

/-- The fields of a class have different names. -/
theorem eq_of_field (formed : graph.WellFormed) {owner : Node} (ownerThere : owner ∈ after.nodes)
    (isClass : owner.kind = .classType) (isField : first ∈ after.fieldsOf owner.id)
    (secondField : second ∈ after.fieldsOf owner.id) (same : first.label = second.label) :
    first = second := by
  obtain ⟨holder, holderThere, holderIs, held⟩ := traces.exists_owner ownerThere isClass
  -- Each of the two was a field of the class, under a name that it may have now.
  have traced {field : Node} (isField : field ∈ after.fieldsOf owner.id) :
      ∃ origin ∈ graph.fieldsOf holder.id, field.id = place origin.id ∧
        (field.label = origin.label ∨
          field.label = "_" ++ Text.trimUnderscores origin.label ∧ graph.BacksProperty origin) := by
    obtain ⟨there, contains, kind⟩ := afterFormed.mem_fieldsOf_iff.mp isField
    obtain ⟨origin, originThere, named, continues⟩ := traces.origins field there
    obtain ⟨originIs, _, label⟩ := continues.field kind
    exact ⟨origin, formed.mem_fieldsOf_iff.mpr
      ⟨originThere, held origin originThere field named contains, originIs⟩, named, label⟩
  obtain ⟨origin, originField, named, label⟩ := traced isField
  obtain ⟨other, otherField, otherNamed, otherLabel⟩ := traced secondField
  have apart := distinct.backing holder holderThere holderIs
  have sameOrigin : origin.id = other.id := by
    by_contra different
    rcases label with kept | ⟨taken, backs⟩ <;>
      rcases otherLabel with otherKept | ⟨otherTaken, otherBacks⟩
    · have names := distinct.fields holder holderThere holderIs
      exact different (congrArg Node.id (List.inj_on_of_nodup_map names originField otherField
        (kept.symm.trans (same.trans otherKept))))
    · exact (apart other otherField otherBacks origin originField different).1
        (kept.symm.trans (same.trans otherTaken))
    · exact (apart origin originField backs other otherField (Ne.symm different)).1
        (otherKept.symm.trans (same.symm.trans taken))
    · refine (apart other otherField otherBacks origin originField different).2 backs ?_
      exact (String.append_right_inj "_").mp (taken.symm.trans (same.trans otherTaken))
  exact afterFormed.eq_of_id (afterFormed.mem_fieldsOf_iff.mp isField).1
    (afterFormed.mem_fieldsOf_iff.mp secondField).1 (by rw [named, otherNamed, sameOrigin])

end Traces

end CodeGraph

/-- **Names stay apart.** Where the names of a source are distinct wherever the built-in rules
take them, the transformed graph has no two classes, interfaces or functions of one name among
its units, and no two fields of one name in a class. This is so in any configuration, as a whole
or in parts. -/
theorem names_stay_apart {tree : SyntaxTree} {graph : CodeGraph} (ok : buildGraph tree = .ok graph)
    (distinct : graph.DistinctNames) (config : Config) :
    ∃ result, Engine.transform ⟨Builtin.catalog, config⟩ graph = .ok result ∧
      (((Output.units result.graph).filter fun node =>
        node.kind.isType ∨ node.kind = .function).map (·.label)).Nodup ∧
      ∀ owner ∈ result.graph.nodes, owner.kind = .classType →
        ((result.graph.fieldsOf owner.id).map (·.label)).Nodup := by
  obtain ⟨result, ran, formed, forest⟩ := Engine.exists_transform_forest config ok
  obtain ⟨_, again, place, traces⟩ := Engine.exists_traces config ok
  obtain rfl := Except.ok.inj (ran.symm.trans again)
  have wellFormed := (buildGraph_built ok).wellFormed
  refine ⟨result, ran, ?_, fun owner ownerThere isClass => ?_⟩
  · have nodes : result.graph.nodes.Nodup := formed.nodeIds.of_map
    refine ((nodes.filter _).filter _).map_on fun first isFirst second isSecond same => ?_
    obtain ⟨isUnit, declared⟩ := List.mem_filter.mp isFirst
    obtain ⟨secondUnit, secondDeclared⟩ := List.mem_filter.mp isSecond
    exact traces.eq_of_declared formed distinct (List.mem_filter.mp isUnit).1
      (List.mem_filter.mp secondUnit).1 (of_decide_eq_true declared)
      (of_decide_eq_true secondDeclared) same
  · refine ((Output.nodup_children formed forest owner.id).filter _).map_on
      fun first isFirst second isSecond same => ?_
    exact traces.eq_of_field formed distinct wellFormed ownerThere isClass isFirst isSecond same

/-- An inner class and a static method leave their classes, under names that nothing else has. -/
theorem names_stay_apart_innerClass :
    let source :=
      "class A \x7b class B \x7b int x; \x7d \x7d class C \x7b static void f() \x7b \x7d \x7d"
    ∃ parsed graph result, parseSource source = .ok parsed ∧ buildGraph parsed.tree = .ok graph ∧
      graph.DistinctNames ∧
      Engine.transform ⟨Builtin.catalog, { parallel := true }⟩ graph = .ok result ∧
      (((Output.units result.graph).filter fun node =>
        node.kind.isType ∨ node.kind = .function).map (·.label)).Nodup ∧
      ∀ owner ∈ result.graph.nodes, owner.kind = .classType →
        ((result.graph.fieldsOf owner.id).map (·.label)).Nodup := by
  intro source
  obtain ⟨parsed, graph, read, built, tested⟩ : ∃ parsed graph,
      parseSource source = .ok parsed ∧ buildGraph parsed.tree = .ok graph ∧
      decide graph.DistinctNames :=
    exists_tested_graph (by decide +kernel)
  have distinct := of_decide_eq_true tested
  obtain ⟨result, ran, units, fields⟩ := names_stay_apart built distinct { parallel := true }
  exact ⟨parsed, graph, result, read, built, distinct, ran, units, fields⟩

/-- Names that are distinct in each scope of a source: of the types at the top level, and of the
members of each type, with no method that is called like a type. -/
structure CodeGraph.DistinctInScopes (graph : CodeGraph) : Prop where
  top : ((graph.nodes.filter fun node =>
    node.kind.isType ∧ graph.parent? node.id = none).map (·.label)).Nodup
  members : ∀ owner ∈ graph.nodes, owner.kind.isType →
    ((graph.children owner.id).map (·.label)).Nodup
  methods : ∀ method ∈ graph.nodes, method.kind = .method → ∀ type ∈ graph.nodes,
    type.kind.isType → method.label ≠ type.label

instance (graph : CodeGraph) : Decidable graph.DistinctInScopes :=
  decidable_of_iff (_ ∧ _ ∧ _)
    ⟨fun ⟨top, members, methods⟩ => ⟨top, members, methods⟩,
      fun ⟨top, members, methods⟩ => ⟨top, members, methods⟩⟩

/-- It is not enough that names are distinct in each scope. An inner class leaves its class under
its own name, and a class at the top level has that name already. -/
theorem inner_class_meets_class :
    let source := "class A \x7b class B \x7b \x7d \x7d class B \x7b \x7d"
    ∃ parsed graph result, parseSource source = .ok parsed ∧ buildGraph parsed.tree = .ok graph ∧
      graph.DistinctInScopes ∧ Engine.transform ⟨Builtin.catalog, {}⟩ graph = .ok result ∧
      ((Output.units result.graph).filter fun node =>
        node.kind.isType ∨ node.kind = .function).map (·.label) = ["A", "B", "B"] := by
  intro source
  obtain ⟨parsed, graph, read, built, tested⟩ : ∃ parsed graph,
      parseSource source = .ok parsed ∧ buildGraph parsed.tree = .ok graph ∧
      (Engine.transform ⟨Builtin.catalog, {}⟩ graph).toOption.any fun result =>
        decide (graph.DistinctInScopes ∧ ((Output.units result.graph).filter fun node =>
          node.kind.isType ∨ node.kind = .function).map (·.label) = ["A", "B", "B"]) :=
    exists_tested_graph (by decide +kernel)
  obtain ⟨result, ran, _⟩ := Engine.exists_transform_forest {} built
  rw [ran, Except.toOption, Option.any_some] at tested
  obtain ⟨distinct, labels⟩ := of_decide_eq_true tested
  exact ⟨parsed, graph, result, read, built, distinct, ran, labels⟩

end Transcode
