import Transcode.Output.Program
import Transcode.Proofs.Renaming
import Transcode.Proofs.UnitQueue
import Transcode.Stats

/-!
# Writing graphs under other names

What a graph is written as depends on its nodes and edges and on their order, and neither on their
ids nor on their sequence numbers: each stage of the output, given a node under its other name,
gives the same lines (`Renamed.generate_eq`). Where only the numbers differ the statistics are the
same as well (`Relocated.stats_eq`).
-/

namespace Transcode

open Output

namespace Renaming

variable (names : Renaming)

/-- A walk over nodes under their other names. -/
def onWalk (walked : Walk) : Walk := ⟨walked.met.map names.node, walked.finished.map names.node⟩

/-- A failure under other names: only a cycle names a node. -/
def onFailure : Failure → Failure
  | .cyclic node => .cyclic (names.node node)
  | failure => failure

end Renaming

namespace Output

section Names

variable (names : Renaming)

/-! ### Members -/

/-- Members are spaced alike if each is written alike. -/
theorem spacedMembers_onNode {render other : Node → List Line} {members : List Node}
    (same : ∀ member ∈ members, other (names.onNode member) = render member) :
    spacedMembers other (members.map names.onNode) = spacedMembers render members := by
  cases members with
  | nil => rfl
  | cons first rest =>
      obtain ⟨here, later⟩ := List.forall_mem_cons.mp same
      rw [List.map_cons, spacedMembers, here, List.flatMap_map, spacedMembers]
      refine congrArg _ (List.flatMap_congr fun member listed => ?_)
      rw [later member listed]
      rfl

/-- Members of an interface are written alike. -/
theorem interfaceMembers_onNode (named : List String) (members : List Node) :
    interfaceMembers named (members.map names.onNode) = interfaceMembers named members := by
  induction members generalizing named with
  | nil => rfl
  | cons member rest ih =>
      rw [List.map_cons]
      unfold interfaceMembers
      simp only [ih, Renaming.onNode_kind, Renaming.onNode_label]
      rfl

/-! ### Order -/

/-- A requirement of the units under their other names. -/
def onRequirement (requirement : Requirement) : Requirement :=
  ⟨names.node requirement.unit, names.node requirement.base⟩

/-- A unit is ready when its bases are out, whatever they are called. -/
theorem isReady_onNode (required : List Requirement) (out : List String) (node : Node) :
    isReady (required.map (onRequirement names)) (out.map names.node) (names.onNode node) =
      isReady required out node := by
  simp [isReady, onRequirement, List.all_map, Function.comp_def]

/-- The next unit is found by what is out, so units under other names are arranged alike. -/
theorem Arranges.onNode {required : List Requirement} {out : List String} {left : List Node}
    {outcome : Except Failure (List Node)} (arranges : Arranges required out left outcome) :
    Arranges (required.map (onRequirement names)) (out.map names.node) (left.map names.onNode)
      (translate names.onFailure (List.map names.onNode) outcome) := by
  induction arranges with
  | done => exact .done
  | stuck none =>
      refine .stuck fun node member => ?_
      rw [← List.map_cons] at member
      obtain ⟨other, there, rfl⟩ := List.mem_map.mp member
      rw [isReady_onNode]
      exact none other there
  | @next out left node outcome first _ ih =>
      have next : (left.map names.onNode).find?
          (isReady (required.map (onRequirement names)) (out.map names.node)) =
          some (names.onNode node) := by
        rw [List.find?_map]
        simp only [Function.comp_def, isReady_onNode, first, Option.map_some]
      have others : (left.map names.onNode).filter (·.id ≠ (names.onNode node).id) =
          (left.filter (·.id ≠ node.id)).map names.onNode := by
        rw [List.filter_map]
        simp [Function.comp_def]
      rw [← others] at ih
      cases outcome <;> exact .next next ih

end Names

/-- Units are put in order, or there is a cycle. -/
theorem orderedUnits_cases (graph : CodeGraph) :
    (∃ ordered, orderedUnits graph = .ok ordered) ∨
      ∃ node, orderedUnits graph = .error (.cyclic node) := by
  unfold orderedUnits
  dsimp only
  split
  · exact .inr ⟨_, rfl⟩
  · exact .inl ⟨_, rfl⟩

/-- A graph is written out, or there is a cycle. -/
theorem generate_cases (graph : CodeGraph) :
    (∃ text, generate graph = .ok text) ∨ ∃ node, generate graph = .error (.cyclic node) := by
  unfold generate
  cases graph.containmentCulprit? with
  | some node => exact .inr ⟨node, rfl⟩
  | none =>
      obtain ⟨ordered, done⟩ | ⟨node, failed⟩ := orderedUnits_cases graph
      · rw [done]
        exact .inl ⟨_, rfl⟩
      · rw [failed]
        exact .inr ⟨node, rfl⟩

end Output

namespace Renamed

variable {first second : CodeGraph} {names : Renaming} (renamed : Renamed first names second)

include renamed

/-! ### Cycles of containment -/

/-- A node contains the same nodes. -/
theorem contained_eq (id : String) :
    second.contained (names.node id) = (first.contained id).map names.node := by
  rw [CodeGraph.contained, renamed.outgoingOf_eq, List.map_map, CodeGraph.contained, List.map_map]
  rfl

/-- A node is contained in the same nodes. -/
theorem containers_eq (id : String) :
    second.containers (names.node id) = (first.containers id).map names.node := by
  rw [CodeGraph.containers, renamed.incomingOf_eq, List.map_map, CodeGraph.containers, List.map_map]
  rfl

/-- A walk meets and finishes the same nodes. -/
theorem walk_eq (fuel : Nat) (walked : Walk) (id : String) :
    second.walk fuel (names.onWalk walked) (names.node id) =
      translate names.node names.onWalk (first.walk fuel walked id) := by
  induction fuel generalizing walked id with
  | zero => rfl
  | succ fuel ih =>
      have met : (names.onWalk walked).met.contains (names.node id) = walked.met.contains id := by
        simp [Renaming.onWalk]
      have itself : (second.contained (names.node id)).contains (names.node id) =
          (first.contained id).contains id := by
        simp [renamed.contained_eq]
      have inner := foldlM_translate ih (first.contained id)
        { walked with met := id :: walked.met }
      unfold CodeGraph.walk
      rw [met, itself]
      split
      · rfl
      · split
        · rfl
        · rw [renamed.contained_eq]
          refine (congrArg (· >>= _) inner).trans ?_
          cases (first.contained id).foldlM (first.walk fuel)
            { walked with met := id :: walked.met } <;> rfl

/-- The same node comes before one that contains it. -/
theorem misplaced?_eq (before ids : List String) :
    second.misplaced? (before.map names.node) (ids.map names.node) =
      (first.misplaced? before ids).map names.node := by
  induction ids generalizing before with
  | nil => rfl
  | cons id rest ih =>
      have later := ih (id :: before)
      rw [List.map_cons] at later
      have missing : (second.containers (names.node id)).find?
            (!(names.node id :: before.map names.node).contains ·) =
          ((first.containers id).find? (!(id :: before).contains ·)).map names.node := by
        rw [renamed.containers_eq, List.find?_map, ← List.map_cons]
        exact congrArg (Option.map _) (find?_congr_of_mem fun container _ => by simp)
      rw [List.map_cons, CodeGraph.misplaced?, missing, later, CodeGraph.misplaced?]
      cases (first.containers id).find? _ <;> rfl

/-- A cycle of containment is found at the same node. -/
theorem containmentCulprit?_eq :
    second.containmentCulprit? = first.containmentCulprit?.map names.node := by
  have walked : ((first.nodes.map (·.id)).map names.node).foldlM
        (second.walk (first.nodeCount + 1)) {} =
      translate names.node names.onWalk
        ((first.nodes.map (·.id)).foldlM (first.walk (first.nodeCount + 1)) {}) :=
    foldlM_translate (renamed.walk_eq (first.nodeCount + 1)) _ {}
  unfold CodeGraph.containmentCulprit?
  rw [renamed.map_id, renamed.nodeCount_eq, walked]
  cases (first.nodes.map (·.id)).foldlM (first.walk (first.nodeCount + 1)) {} with
  | error id => rfl
  | ok walked => exact renamed.misplaced?_eq [] walked.finished

/-! ### Units -/

/-- The same nodes are units. -/
theorem isUnit_eq (node : Node) : isUnit second (names.onNode node) = isUnit first node := by
  unfold isUnit
  rw [Renaming.onNode_id, renamed.parent?_eq]
  cases first.parent? node.id <;> rfl

theorem units_eq : units second = (units first).map names.onNode := by
  rw [units, renamed.nodes, List.filter_map]
  exact congrArg _ (List.filter_congr fun node _ => renamed.isUnit_eq node)

/-- A node is in the same unit, looked for so far up. -/
theorem unitWithin_eq (fuel : Nat) (node : Node) :
    unitWithin second fuel (names.onNode node) =
      (unitWithin first fuel node).map names.onNode := by
  induction fuel generalizing node with
  | zero => rfl
  | succ fuel ih =>
      rw [unitWithin, renamed.isUnit_eq, unitWithin, Renaming.onNode_id, renamed.parent?_eq]
      split
      · rfl
      · cases first.parent? node.id with
        | none => rfl
        | some parent => exact ih parent

/-- A node is in the same unit. -/
theorem unitOf?_eq (id : String) :
    unitOf? second (names.node id) = (unitOf? first id).map names.node := by
  rw [unitOf?, renamed.node?_eq, renamed.nodeCount_eq, unitOf?]
  cases first.node? id with
  | none => rfl
  | some node =>
      rw [Option.map_some, Option.bind_some, Option.bind_some, renamed.unitWithin_eq,
        Option.map_map, Option.map_map]
      rfl

/-- An edge asks for the same order. -/
theorem requirementOf?_eq (edge : Edge) :
    requirementOf? second (names.onEdge edge) =
      (requirementOf? first edge).map (onRequirement names) := by
  rw [requirementOf?, Renaming.onEdge_source, Renaming.onEdge_target, Renaming.onEdge_kind,
    renamed.unitOf?_eq, renamed.unitOf?_eq, requirementOf?]
  split
  · cases unitOf? first edge.source <;> cases unitOf? first edge.target
    · rfl
    · rfl
    · rfl
    · rename_i unit base
      simp only [Option.map_some, names.node_eq_iff]
      split <;> rfl
  · rfl

/-- All edges ask for the same order. -/
theorem requirements_eq :
    requirements second = (requirements first).map (onRequirement names) := by
  rw [requirements, renamed.edges, List.filterMap_map, requirements, List.map_filterMap]
  exact congrArg (List.filterMap · _) (funext renamed.requirementOf?_eq)

/-- Units are put in the same order, or fail for the same unit. -/
theorem orderedUnits_eq (firstFormed : first.WellFormed) (secondFormed : second.WellFormed) :
    orderedUnits second = translate names.onFailure (List.map names.onNode)
      (orderedUnits first) := by
  have arranges := arranges_orderedUnits secondFormed
  rw [renamed.requirements_eq, renamed.units_eq] at arranges
  exact arranges.eq (Arranges.onNode names (arranges_orderedUnits firstFormed))

/-! ### Bodies -/

theorem programScope_eq : programScope second = programScope first := by
  rw [programScope, renamed.nodesOf_eq, List.foldl_map]
  rfl

/-- Children that are chosen by what they are come in the same order. -/
theorem filter_children_eq (keeps : Node → Bool)
    (same : ∀ node : Node, keeps (names.onNode node) = keeps node) (id : String) :
    (second.children (names.node id)).filter keeps =
      ((first.children id).filter keeps).map names.onNode := by
  rw [renamed.children_eq, List.filter_map]
  exact congrArg _ (List.filter_congr fun node _ => same node)

/-- A node knows the same members. -/
theorem knownMembers_eq (node owner : Node) :
    knownMembers second (names.onNode node) (names.onNode owner) =
      (knownMembers first node owner).map names.onNode :=
  renamed.filter_children_eq _ (fun _ => rfl) owner.id

theorem loopsOf_eq (node : Node) :
    loopsOf second (names.onNode node) = (loopsOf first node).map names.onNode :=
  renamed.filter_children_eq _ (fun _ => rfl) node.id

/-- A node has the same loops inside, so far down. -/
theorem nestedLoops_eq (fuel : Nat) (node : Node) :
    nestedLoops second fuel (names.onNode node) =
      (nestedLoops first fuel node).map names.onNode := by
  induction fuel generalizing node with
  | zero => rfl
  | succ fuel ih =>
      rw [nestedLoops, renamed.loopsOf_eq, List.flatMap_map, nestedLoops, List.map_flatMap]
      exact List.flatMap_congr fun loop _ => by rw [ih, List.map_cons]

/-- A body has the same scope. -/
theorem bodyScope_eq (node : Node) (owner : Option Node) :
    bodyScope second (names.onNode node) (owner.map names.onNode) =
      bodyScope first node owner := by
  -- The numbers are neither in the names that bodies declare nor in how members are qualified.
  have locals : (names.onNode node ::
        nestedLoops second second.nodeCount (names.onNode node)).flatMap ownLocals =
      (node :: nestedLoops first first.nodeCount node).flatMap ownLocals := by
    rw [renamed.nodeCount_eq, renamed.nestedLoops_eq, ← List.map_cons, List.flatMap_map]
    rfl
  unfold bodyScope
  rw [locals, renamed.programScope_eq]
  cases owner with
  | none => rfl
  | some owner =>
      dsimp only [Option.map_some]
      rw [renamed.knownMembers_eq, List.foldl_map]
      rfl

/-- A body has the same lines. -/
theorem bodyLines_eq (scope : Scope) (fuel : Nat) (node : Node) :
    bodyLines second scope fuel (names.onNode node) = bodyLines first scope fuel node := by
  induction fuel generalizing node with
  | zero => rfl
  | succ fuel ih =>
      rw [bodyLines, renamed.loopsOf_eq, List.map_map, bodyLines]
      refine congrArg (placeLoops scope _) (List.map_congr_left fun loop _ => ?_)
      rw [Function.comp_apply, ih]
      rfl

/-- A body is put behind the same header. -/
theorem bodyBlock_eq (header : String) (node : Node) (owner : Option Node) :
    bodyBlock second header (names.onNode node) (owner.map names.onNode) =
      bodyBlock first header node owner := by
  rw [bodyBlock, renamed.bodyScope_eq, renamed.nodeCount_eq, renamed.bodyLines_eq, bodyBlock]

/-! ### Members -/

/-- A node hosts the same members. -/
theorem hostedMembers_eq (node : Node) :
    hostedMembers second (names.onNode node) =
      (hostedMembers first node).map names.onNode := by
  unfold hostedMembers
  dsimp only
  rw [Renaming.onNode_id, Renaming.onNode_kind,
    renamed.filter_children_eq (fun child => hosts node.kind child.kind) fun _ => rfl,
    List.filter_map, List.filter_map, List.map_append]
  rfl

/-- A callable has the same lines. -/
theorem callableLines_eq (owner node : Node) :
    callableLines second (names.onNode owner) (names.onNode node) =
      callableLines first owner node := by
  unfold callableLines
  dsimp only
  rw [← Option.map_some (f := names.onNode), renamed.bodyBlock_eq]
  rfl

/-- A type has the same heritage. -/
theorem heritage_eq (node : Node) : heritage second (names.onNode node) = heritage first node := by
  have interfaces : ((second.successors .extending (names.node node.id)).filter
        (·.kind = .interfaceType)).map (·.label) =
      ((first.successors .extending node.id).filter (·.kind = .interfaceType)).map (·.label) := by
    rw [renamed.successors_eq, List.filter_map, List.map_map]
    rfl
  unfold heritage
  rw [Renaming.onNode_id, interfaces]
  rfl

/-- A class has the same frame. -/
theorem classFrame_eq (nested : Bool) (node : Node) :
    classFrame second nested (names.onNode node) = classFrame first nested node := by
  unfold classFrame
  rw [renamed.heritage_eq]
  rfl

/-- A class has the same lines. -/
theorem classLines_eq (fuel : Nat) (nested : Bool) (node : Node) :
    classLines second fuel nested (names.onNode node) = classLines first fuel nested node := by
  induction fuel generalizing nested node with
  | zero => rfl
  | succ fuel ih =>
      rw [classLines, renamed.classFrame_eq, renamed.hostedMembers_eq, classLines]
      refine congrArg _ (spacedMembers_onNode names fun member _ => ?_)
      rw [ih, renamed.callableLines_eq, ← Option.map_some (f := names.onNode),
        renamed.bodyScope_eq]
      rfl

/-- An interface has the same lines. -/
theorem interfaceLines_eq (node : Node) :
    interfaceLines second (names.onNode node) = interfaceLines first node := by
  unfold interfaceLines
  rw [renamed.hostedMembers_eq, interfaceMembers_onNode]
  rfl

/-- A node has the same former owner. -/
theorem formerOwner?_eq (node : Node) :
    formerOwner? second (names.onNode node) =
      (formerOwner? first node).map names.onNode := by
  unfold formerOwner?
  change (node.get? "module").bind _ = ((node.get? "module").bind _).map _
  cases node.get? "module" with
  | none => rfl
  | some module =>
      rw [Option.bind_some, Option.bind_some, renamed.nodesOf_eq, List.find?_map]
      rfl

/-! ### Programs -/

/-- A unit has the same lines. -/
theorem unitLines_eq (node : Node) :
    unitLines second (names.onNode node) = unitLines first node := by
  have scope := renamed.bodyScope_eq node none
  rw [Option.map_none] at scope
  unfold unitLines
  dsimp only
  rw [renamed.formerOwner?_eq, renamed.bodyBlock_eq, renamed.classLines_eq,
    renamed.interfaceLines_eq, renamed.programScope_eq, scope, renamed.bodyLines_eq,
    renamed.nodeCount_eq]
  rfl

/-- **The same output.** A graph under other names is written as the same text, or cannot be
written for the same reason. -/
theorem generate_eq (firstFormed : first.WellFormed) (secondFormed : second.WellFormed) :
    generate second = translate names.onFailure id (generate first) := by
  unfold generate
  rw [renamed.containmentCulprit?_eq, renamed.orderedUnits_eq firstFormed secondFormed]
  cases first.containmentCulprit? with
  | some node => rfl
  | none =>
      dsimp only [Option.map_none]
      cases orderedUnits first with
      | error failure => rfl
      | ok ordered =>
          have texts : (ordered.map names.onNode).map
                (fun node => textOfLines (unitLines second node)) =
              ordered.map fun node => textOfLines (unitLines first node) := by
            rw [List.map_map]
            refine List.map_congr_left fun node _ => ?_
            rw [Function.comp_apply, renamed.unitLines_eq]
          exact congrArg (fun texts => Except.ok (textOfUnits texts)) texts

end Renamed

namespace Relocated

variable {first second : CodeGraph} {place edgePlace : Nat → Nat}
  (relocated : Relocated first place edgePlace second)

include relocated

theorem generate_eq (firstFormed : first.WellFormed) (secondFormed : second.WellFormed) :
    generate second = generate first := by
  rw [relocated.renamed.generate_eq firstFormed secondFormed]
  rcases generate first with ⟨_ | _⟩ | _ <;> rfl

/-- Other sequence numbers give the same statistics. -/
theorem stats_eq (catalog : Catalog) :
    Stats.ofGraph catalog second = Stats.ofGraph catalog first := by
  have live : Stats.liveEntries second = Stats.liveEntries first := by
    rw [Stats.liveEntries, relocated.history]
    exact List.filter_congr fun entry _ => relocated.renamed.hasNode_eq entry.node
  rw [Stats.ofGraph, live, relocated.history, relocated.renamed.nodeCount_eq, Stats.ofGraph]

end Relocated

end Transcode
