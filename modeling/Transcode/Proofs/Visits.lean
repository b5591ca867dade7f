import Transcode.Proofs.Courses
import Transcode.Proofs.Precedence

/-!
# What is visited

Where nothing contains itself and nothing is contained twice, the output visits a construct at most
once: as a unit, or inside its container. What it leaves out is below a member that stands there as
a signature only, or is an accessor that repeats the name of another (`Output.visited_once`).

Which constructs a construct is written with does not depend on how it was reached
(`Output.inside`), so a course visits what can be reached in that way, and since containers are
unique it reaches nothing twice.
-/

namespace Transcode.Output

variable {graph : CodeGraph} {scope : Scope} {depth : Nat} {node owner other : Node}
  {course : Course}

/-! ### Steps from a construct to those inside -/

/-- Whether a construct is written as a signature, without a body: a member of an interface, or an
abstract callable of a class. -/
def isSignature (graph : CodeGraph) (node : Node) : Bool :=
  match graph.parent? node.id with
  | none => false
  | some owner => hosts owner.kind node.kind && (owner.kind = .interfaceType ||
      owner.kind = .classType && node.kind.isCallable && hasModifier node "abstract")

/-- The constructs that are written directly inside a construct. -/
def inside (graph : CodeGraph) (node : Node) : List Node :=
  match node.kind with
  | .classType => hostedMembers graph node
  | .interfaceType => (signatures [] (hostedMembers graph node)).map (·.1)
  | .field => []
  | _ => if isSignature graph node then [] else loopsOf graph node

/-- A construct is written directly inside another. -/
def Enters (graph : CodeGraph) (owner node : Node) : Prop :=
  owner ∈ graph.nodes ∧ node ∈ inside graph owner

/-- A callable hosts its loops and nothing else. -/
theorem hosts_of_isLoop {parent child : NodeKind} (callable : parent ≠ .classType)
    (noInterface : parent ≠ .interfaceType) (noField : parent ≠ .field) :
    hosts parent child = child.isLoop := by
  cases parent <;> simp_all [hosts]

theorem mem_loopsOf_iff : other ∈ loopsOf graph node ↔
    other ∈ graph.children node.id ∧ other.kind.isLoop := List.mem_filter

/-- What is written inside a construct is contained in it and can be written there. -/
theorem Enters.hosted (enters : Enters graph owner node) :
    node ∈ graph.children owner.id ∧ hosts owner.kind node.kind := by
  obtain ⟨_, enters⟩ := enters
  unfold inside at enters
  split at enters
  · exact mem_hostedMembers_iff.mp enters
  · exact mem_hostedMembers_iff.mp ((map_fst_signatures [] _).subset enters)
  · cases enters
  · rename_i noClass noInterface noField
    split at enters
    · cases enters
    · rw [hosts_of_isLoop noClass noInterface noField]
      exact mem_loopsOf_iff.mp enters

theorem Enters.there (wellFormed : graph.WellFormed) (enters : Enters graph owner node) :
    node ∈ graph.nodes ∧ graph.Contains owner.id node.id :=
  (mem_children_iff wellFormed).mp enters.hosted.1

/-- What is reached from a construct is below it. -/
theorem transGen_contains (wellFormed : graph.WellFormed)
    (reached : Relation.TransGen (Enters graph) owner node) :
    Relation.TransGen graph.Contains owner.id node.id :=
  Relation.TransGen.lift Node.id (fun _ _ enters => (Enters.there wellFormed enters).2) _ _ reached

section Forest

variable (wellFormed : graph.WellFormed) (forest : graph.Forest)

include wellFormed forest

/-- What contains a node is its container. -/
theorem parent?_eq_of_contains (there : owner ∈ graph.nodes) {id : String}
    (contains : graph.Contains owner.id id) : graph.parent? id = some owner := by
  obtain ⟨edge, leads⟩ := contains
  have incoming : edge ∈ graph.incomingOf .contains id :=
    CodeGraph.mem_incomingOf.mpr ⟨leads.member, leads.kind, rfl, leads.target⟩
  obtain ⟨first, rest, edges⟩ := List.exists_cons_of_ne_nil (List.ne_nil_of_mem incoming)
  have isFirst := CodeGraph.mem_incomingOf.mp (edges ▸ List.mem_cons_self :
    first ∈ graph.incomingOf .contains id)
  obtain rfl := forest.oneContainer first isFirst.member edge leads.member isFirst.kind leads.kind
    (isFirst.target.trans leads.target.symm)
  rw [CodeGraph.parent?, edges, List.head?_cons, Option.bind_some, leads.source]
  exact wellFormed.node?_of_mem there

/-- No child comes twice. -/
theorem nodup_children (id : String) : (graph.children id).Nodup := by
  have distinct : graph.edges.Nodup := List.Nodup.of_map _ wellFormed.edgeIds
  have apart : (graph.outgoingOf .contains id).Pairwise (·.target ≠ ·.target) := by
    refine List.Pairwise.imp_of_mem ?_ ((distinct.filter _).filter _)
    intro first second member other different same
    have leads := CodeGraph.mem_outgoingOf.mp member
    have others := CodeGraph.mem_outgoingOf.mp other
    exact different (forest.oneContainer first leads.member second others.member leads.kind
      others.kind same)
  rw [CodeGraph.children, (List.mergeSort_perm _ _).nodup_iff]
  refine List.pairwise_filterMap.mpr (apart.imp fun different node found another again same => ?_)
  have foundId := (wellFormed.node?_eq_some_iff.mp found).2
  have againId := (wellFormed.node?_eq_some_iff.mp again).2
  exact different (foundId.symm.trans ((congrArg Node.id same).trans againId))

/-- No member comes twice. -/
theorem nodup_hostedMembers : (hostedMembers graph node).Nodup := by
  have distinct := (nodup_children wellFormed forest node.id).filter
    fun child => hosts node.kind child.kind
  refine List.nodup_append.mpr ⟨distinct.filter _, distinct.filter _, ?_⟩
  rintro field isField member isMember rfl
  simp only [List.mem_filter, decide_eq_true_eq] at isField isMember
  exact isMember.2 isField.2

/-- Nothing inside comes twice. -/
theorem nodup_inside : (inside graph node).Nodup := by
  unfold inside
  split
  · exact nodup_hostedMembers wellFormed forest
  · exact (nodup_hostedMembers wellFormed forest).sublist (map_fst_signatures [] _)
  · exact List.nodup_nil
  · split
    · exact List.nodup_nil
    · exact (nodup_children wellFormed forest node.id).filter _

end Forest

/-! ### What a course visits -/

/-- The visits of the course of a construct, apart from that of the construct itself: all that is
reached from it, once, and each inside of what it is reached from. -/
structure Covers (graph : CodeGraph) (start : Node) (visits : List Visit) : Prop where
  nodup : (visits.map (·.node)).Nodup
  mem : ∀ node, node ∈ visits.map (·.node) ↔ Relation.TransGen (Enters graph) start node
  owned : ∀ visit ∈ visits, ∃ owner, visit.owner = some owner ∧ Enters graph owner visit.node ∧
    Relation.ReflTransGen (Enters graph) start owner

/-- Visits of several constructs inside another, each followed by those of its course. -/
inductive Follows (graph : CodeGraph) (owner : Option Node) : List Node → List Visit → Prop
  | nil : Follows graph owner [] []
  | cons {node : Node} {nodes : List Node} {visits others : List Visit}
      (covers : Covers graph node visits) (rest : Follows graph owner nodes others) :
      Follows graph owner (node :: nodes) (⟨owner, node⟩ :: visits ++ others)

namespace Follows

variable {nodes : List Node} {visits : List Visit} {around : Option Node}

/-- What is visited is what can be come to from the nodes in question. -/
theorem mem_iff (follows : Follows graph around nodes visits) :
    other ∈ visits.map (·.node) ↔
      ∃ node ∈ nodes, Relation.ReflTransGen (Enters graph) node other := by
  induction follows with
  | nil => simp
  | @cons node nodes inner others covers _ ih =>
      simp only [List.cons_append, List.map_cons, List.map_append, List.mem_cons, List.mem_append,
        ih, covers.mem, exists_eq_or_imp, ← or_assoc, Relation.reflTransGen_iff_eq_or_transGen]

/-- Nothing is visited twice if nothing is reached from two of the constructs. -/
theorem nodup (follows : Follows graph around nodes visits) (distinct : nodes.Nodup)
    (acyclic : ∀ node ∈ nodes, ¬Relation.TransGen (Enters graph) node node)
    (apart : ∀ first ∈ nodes, ∀ second ∈ nodes, ∀ node,
      Relation.ReflTransGen (Enters graph) first node →
      Relation.ReflTransGen (Enters graph) second node → first = second) :
    (visits.map (·.node)).Nodup := by
  induction follows with
  | nil => exact List.nodup_nil
  | @cons node nodes inner others covers rest ih =>
      obtain ⟨own, distinct⟩ := List.nodup_cons.mp distinct
      obtain ⟨noCycle, acyclic⟩ := List.forall_mem_cons.mp acyclic
      have left : (node :: inner.map (·.node)).Nodup :=
        List.nodup_cons.mpr ⟨fun again => noCycle ((covers.mem node).mp again), covers.nodup⟩
      have right := ih distinct acyclic fun first firstMember second secondMember =>
        apart first (.tail _ firstMember) second (.tail _ secondMember)
      rw [List.map_append, List.map_cons]
      refine List.nodup_append.mpr ⟨left, right, fun reached member again there same => ?_⟩
      subst same
      obtain ⟨second, secondMember, leads⟩ := rest.mem_iff.mp there
      have here : Relation.ReflTransGen (Enters graph) node reached := by
        rw [Relation.reflTransGen_iff_eq_or_transGen, ← covers.mem]
        exact List.mem_cons.mp member
      exact own (apart node List.mem_cons_self second (.tail _ secondMember) reached here leads ▸
        secondMember)

/-- A visit is the first of one of the constructs, or inside of what it is reached from. -/
theorem owned (follows : Follows graph around nodes visits) :
    ∀ visit ∈ visits, (visit.node ∈ nodes ∧ visit.owner = around) ∨
      ∃ owner, visit.owner = some owner ∧ Enters graph owner visit.node ∧
        ∃ node ∈ nodes, Relation.ReflTransGen (Enters graph) node owner := by
  induction follows with
  | nil => simp
  | @cons node nodes inner others covers _ ih =>
      intro visit member
      rcases List.mem_append.mp member with here | later
      · rcases List.mem_cons.mp here with rfl | below
        · exact .inl ⟨List.mem_cons_self, rfl⟩
        · obtain ⟨owner, within, enters, reached⟩ := covers.owned visit below
          exact .inr ⟨owner, within, enters, node, List.mem_cons_self, reached⟩
      · rcases ih visit later with ⟨start, within⟩ | ⟨owner, within, enters, first, there, reached⟩
        · exact .inl ⟨.tail _ start, within⟩
        · exact .inr ⟨owner, within, enters, first, .tail _ there, reached⟩

end Follows

section Forest

variable (wellFormed : graph.WellFormed) (forest : graph.Forest)

include wellFormed forest

/-- What is entered has the node around it as its parent. -/
theorem Enters.parent? (enters : Enters graph owner node) :
    graph.parent? node.id = some owner :=
  parent?_eq_of_contains wellFormed forest enters.1 (enters.there wellFormed).2

/-- What is reached from one of the constructs inside of another is not reached from that other
without it. -/
theorem eq_of_reached {start first second : Node} (firstInside : Enters graph start first)
    (secondInside : Enters graph start second)
    (reached : Relation.ReflTransGen (Enters graph) first second) : first = second := by
  rcases Relation.reflTransGen_iff_eq_or_transGen.mp reached with same | later
  · exact same.symm
  · obtain ⟨last, leads, enters⟩ := Relation.TransGen.tail'_iff.mp later
    have isStart : last = start := Option.some.inj
      ((enters.parent? wellFormed forest).symm.trans (secondInside.parent? wellFormed forest))
    have cycle : Relation.TransGen (Enters graph) start start :=
      .head' firstInside (isStart ▸ leads)
    exact absurd (transGen_contains wellFormed cycle) (forest.acyclic start.id)

/-- A node is inside only one of those inside another. -/
theorem eq_of_enters {start first second : Node} (firstInside : Enters graph start first)
    (secondInside : Enters graph start second)
    (left : Relation.ReflTransGen (Enters graph) first node)
    (right : Relation.ReflTransGen (Enters graph) second node) : first = second := by
  -- Containers are unique, so the ways to a node are ends of one another.
  have unique : Relator.RightUnique (Function.swap (Enters graph)) := fun _ _ _ one another =>
    Option.some.inj ((one.parent? wellFormed forest).symm.trans (another.parent? wellFormed forest))
  rw [← Relation.reflTransGen_swap] at left right
  rcases left.total_of_right_unique unique right with later | earlier
  · rw [Relation.reflTransGen_swap] at later
    exact (eq_of_reached wellFormed forest secondInside firstInside later).symm
  · rw [Relation.reflTransGen_swap] at earlier
    exact eq_of_reached wellFormed forest firstInside secondInside earlier

/-- Visiting all that is inside covers a node. -/
theorem Follows.covers {start : Node} {nodes : List Node} {visits : List Visit}
    (follows : Follows graph (some start) nodes visits) (there : start ∈ graph.nodes)
    (all : nodes.Perm (inside graph start)) : Covers graph start visits := by
  have enters (node : Node) : node ∈ nodes ↔ Enters graph start node := by
    rw [all.mem_iff, Enters, and_iff_right there]
  refine ⟨?_, fun node => ?_, fun visit member => ?_⟩
  · refine follows.nodup (all.nodup_iff.mpr (nodup_inside wellFormed forest)) ?_ ?_
    · exact fun node _ cycle => forest.acyclic _ (transGen_contains wellFormed cycle)
    · exact fun first firstMember second secondMember node => eq_of_enters wellFormed forest
        ((enters first).mp firstMember) ((enters second).mp secondMember)
  · simp only [follows.mem_iff, Relation.TransGen.head'_iff, enters]
  · rcases follows.owned visit member with ⟨first, within⟩ | ⟨owner, within, inner, node, first,
      reached⟩
    · exact ⟨start, within, (enters _).mp first, .refl⟩
    · exact ⟨owner, within, inner, .head ((enters node).mp first) reached⟩

/-! ### Signatures -/

/-- Whether a member of a construct is a signature. -/
theorem isSignature_eq (there : owner ∈ graph.nodes) (child : node ∈ graph.children owner.id)
    (hosted : hosts owner.kind node.kind) : isSignature graph node =
      (owner.kind = .interfaceType ||
        owner.kind = .classType && node.kind.isCallable && hasModifier node "abstract") := by
  have contains := ((mem_children_iff wellFormed).mp child).2
  rw [isSignature, parent?_eq_of_contains wellFormed forest there contains]
  simp only [hosted, Bool.true_and]

omit wellFormed forest in
/-- A unit is no signature. -/
theorem isSignature_of_isUnit (top : isUnit graph node) : isSignature graph node = false := by
  unfold isUnit at top
  unfold isSignature
  split at top
  · simp [*]
  · simp_all

omit wellFormed forest in
/-- A loop is no signature. -/
theorem isSignature_of_isLoop (isLoop : node.kind.isLoop) : isSignature graph node = false := by
  unfold isSignature
  split
  · rfl
  · rename_i owner _
    cases ownerKind : owner.kind <;> cases nodeKind : node.kind <;>
      simp_all [hosts, NodeKind.isLoop]

omit wellFormed forest in
/-- A loop has its loops inside. -/
theorem inside_of_isLoop (isLoop : node.kind.isLoop) : inside graph node = loopsOf graph node := by
  have whole : isSignature graph node = false := isSignature_of_isLoop isLoop
  unfold inside
  split
  all_goals simp_all [NodeKind.isLoop]

omit wellFormed forest in
/-- A callable has its loops inside, unless only its signature is written. -/
theorem inside_of_isCallable (isCallable : node.kind.isCallable) :
    inside graph node = if isSignature graph node then [] else loopsOf graph node := by
  unfold inside
  split
  all_goals simp_all [NodeKind.isCallable]

/-! ### Courses -/

omit wellFormed forest in
/-- Where nothing is inside nothing is visited. -/
theorem Covers.nil (nothing : inside graph node = []) : Covers graph node [] where
  nodup := List.nodup_nil
  mem other := by
    simp [Relation.TransGen.head'_iff, Enters, nothing]
  owned := by simp

omit wellFormed forest in
/-- The loops of a body are visited piece by piece. -/
theorem follows_of_pieces {write : Node → Option Course} {items : List Piece} {parts : List Course}
    (aligned :
      List.Forall₂ (fun piece part => piece.course node scope write = some part) items parts)
    (each : ∀ loop ∈ items.filterMap (·.loop?), ∀ course, write loop = some course →
      Covers graph loop course.visits) :
    Follows graph (some node) (items.filterMap (·.loop?)) (parts.flatMap (·.visits)) := by
  induction aligned with
  | nil => exact .nil
  | @cons piece part rest others ended _ ih =>
      cases piece with
      | statement level text =>
          cases ended
          exact ih each
      | loop level loop =>
          obtain ⟨inner, within, rfl⟩ := Option.map_eq_some_iff.mp ended
          obtain ⟨here, later⟩ := List.forall_mem_cons.mp each
          exact .cons (here inner within) (ih later)

omit wellFormed forest in
/-- Members are visited one by one. -/
theorem follows_of_members {parts : List (Node × Course)}
    (each : ∀ part ∈ parts, Covers graph part.1 part.2.visits) :
    Follows graph (some owner) (parts.map (·.1)) (memberVisits owner parts) := by
  induction parts with
  | nil => exact .nil
  | cons part rest ih =>
      obtain ⟨here, later⟩ := List.forall_mem_cons.mp each
      exact .cons here (ih later)

/-- A body that is written covers its node. -/
theorem covers_of_bodyCourse (there : node ∈ graph.nodes)
    (whole : inside graph node = loopsOf graph node)
    (ran : bodyCourse graph scope depth node = some course) : Covers graph node course.visits := by
  induction depth generalizing node course with
  | zero => cases ran
  | succ depth ih =>
      obtain ⟨parts, written, ended⟩ := Option.bind_eq_some_iff.mp ran
      cases ended
      have all : ((bodyPieces graph node).filterMap (·.loop?)).Perm (loopsOf graph node) :=
        loops_pieces _ _
      refine Follows.covers wellFormed forest (follows_of_pieces (mapM_eq_some_iff.mp written) ?_)
        there (whole ▸ all)
      intro loop member course framed
      obtain ⟨inner, within, rfl⟩ := Option.map_eq_some_iff.mp framed
      obtain ⟨child, isLoop⟩ := mem_loopsOf_iff.mp (all.mem_iff.mp member)
      have loopThere := ((mem_children_iff wellFormed).mp child).1
      have covers : Covers graph loop inner.visits := ih loopThere (inside_of_isLoop isLoop) within
      exact covers

/-- A body that is put in a frame covers its node. -/
theorem covers_of_framed {change : List Line → List Line} (there : node ∈ graph.nodes)
    (whole : inside graph node = loopsOf graph node)
    (ran : (bodyCourse graph scope depth node).map (·.rewrite change) = some course) :
    Covers graph node course.visits := by
  obtain ⟨inner, ran, rfl⟩ := Option.map_eq_some_iff.mp ran
  have covers : Covers graph node inner.visits :=
    covers_of_bodyCourse wellFormed forest there whole ‹_›
  exact covers

/-- A callable that is written is covered. -/
theorem covers_of_callableCourse (ownerThere : owner ∈ graph.nodes)
    (isClass : owner.kind = .classType) (hosted : node ∈ hostedMembers graph owner)
    (isCallable : node.kind.isCallable)
    (ran : callableCourse graph depth owner node = some course) :
    Covers graph node course.visits := by
  obtain ⟨child, hosts⟩ := mem_hostedMembers_iff.mp hosted
  have signature := isSignature_eq wellFormed forest ownerThere child hosts
  simp only [isClass, isCallable, reduceCtorEq, decide_false, Bool.false_or, decide_true,
    Bool.true_and] at signature
  have inner : inside graph node = _ := inside_of_isCallable isCallable
  rw [signature] at inner
  unfold callableCourse at ran
  split at ran
  · rename_i isAbstract
    rw [Course.lines_of_leaf ran]
    exact .nil (inner.trans (if_pos isAbstract))
  · rename_i whole
    exact covers_of_framed wellFormed forest ((mem_children_iff wellFormed).mp child).1
      (inner.trans (if_neg whole)) ran

/-- A class that is written is covered. -/
theorem covers_of_classCourse {nested : Bool} (there : node ∈ graph.nodes)
    (isClass : node.kind = .classType)
    (ran : classCourse graph depth nested node = some course) :
    Covers graph node course.visits := by
  induction depth generalizing nested node course with
  | zero => cases ran
  | succ depth ih =>
      obtain ⟨parts, written, ended⟩ := Option.bind_eq_some_iff.mp ran
      cases ended
      obtain ⟨listed, each⟩ := members_of_mapM written
      have inner : inside graph node = hostedMembers graph node := by rw [inside, isClass]
      refine Follows.covers wellFormed forest (follows_of_members fun part member => ?_) there
        (by rw [inner, listed])
      have hosted : part.1 ∈ hostedMembers graph node := listed ▸ List.mem_map_of_mem member
      obtain ⟨child, hosts⟩ := mem_hostedMembers_iff.mp hosted
      have ended := each part member
      split at ended
      · rename_i isField
        rw [Course.lines_of_leaf ended]
        exact .nil (by rw [inside, isField])
      · rename_i isClass
        exact ih ((mem_children_iff wellFormed).mp child).1 isClass ended
      · rename_i noField noClass
        refine covers_of_callableCourse wellFormed forest there isClass hosted ?_ ended
        rw [isClass] at hosts
        cases kind : part.1.kind <;> simp_all [Output.hosts, NodeKind.isCallable]

/-- An interface that is written is covered. -/
theorem covers_of_interfaceCourse (there : node ∈ graph.nodes)
    (isInterface : node.kind = .interfaceType)
    (ran : interfaceCourse graph depth node = some course) :
    Covers graph node course.visits := by
  cases depth with
  | zero => cases ran
  | succ depth =>
      obtain ⟨parts, written, ended⟩ := Option.bind_eq_some_iff.mp ran
      cases ended
      have aligned := mapM_eq_some_iff.mp written
      have listed : parts.map (·.1) = (signatures [] (hostedMembers graph node)).map (·.1) := by
        refine (forall₂_iff_map_eq.mp (aligned.imp fun signature part ended => ?_)).symm
        obtain ⟨_, _, rfl⟩ := Option.map_eq_some_iff.mp ended
        rfl
      have inner : inside graph node = parts.map (·.1) := by rw [inside, isInterface, listed]
      refine Follows.covers wellFormed forest (follows_of_members fun part member => ?_) there
        (.of_eq inner.symm)
      have hosted : part.1 ∈ hostedMembers graph node :=
        (map_fst_signatures [] _).subset (listed ▸ List.mem_map_of_mem member)
      obtain ⟨child, hosts⟩ := mem_hostedMembers_iff.mp hosted
      obtain ⟨signature, _, ended⟩ := exists_left_of_forall₂ aligned part member
      obtain ⟨_, leaf, rfl⟩ := Option.map_eq_some_iff.mp ended
      rw [Course.lines_of_leaf leaf]
      have isSignature := isSignature_eq wellFormed forest there child hosts
      simp only [isInterface, decide_true, Bool.true_or] at isSignature
      refine .nil ?_
      rw [isInterface] at hosts
      cases kind : signature.1.kind <;> simp_all [Output.hosts, inside]

/-- **The course of a unit** visits all that is reached from the unit, once. -/
theorem covers_of_unitCourse (isUnit : node ∈ units graph)
    (ran : unitCourse graph depth node = some course) : Covers graph node course.visits := by
  obtain ⟨there, top⟩ := List.mem_filter.mp isUnit
  have whole := isSignature_of_isUnit top
  unfold unitCourse at ran
  split at ran
  · exact covers_of_classCourse wellFormed forest there ‹_› ran
  · exact covers_of_interfaceCourse wellFormed forest there ‹_› ran
  · rename_i isField
    rw [Course.lines_of_leaf ran]
    exact .nil (by rw [inside, isField])
  · rename_i isLoop
    exact covers_of_framed wellFormed forest there (inside_of_isLoop (by rw [isLoop]; rfl)) ran
  · rename_i isLoop
    exact covers_of_framed wellFormed forest there (inside_of_isLoop (by rw [isLoop]; rfl)) ran
  · refine covers_of_framed wellFormed forest there ?_ ran
    rw [inside_of_isCallable, whole]
    · rfl
    · cases kind : node.kind <;> simp_all [NodeKind.isCallable]

/-! ### Programs -/

omit wellFormed forest in
/-- Units are visited one by one. -/
theorem follows_of_units {units : List Node} {parts : List Course}
    (aligned : List.Forall₂ (fun unit part => (unitCourse graph depth unit).map
      (·.visiting ⟨none, unit⟩) = some part) units parts)
    (each : ∀ unit ∈ units, ∀ course, unitCourse graph depth unit = some course →
      Covers graph unit course.visits) :
    Follows graph none units (parts.flatMap (·.visits)) := by
  induction aligned with
  | nil => exact .nil
  | @cons unit part rest others ended _ ih =>
      obtain ⟨inner, within, rfl⟩ := Option.map_eq_some_iff.mp ended
      obtain ⟨here, later⟩ := List.forall_mem_cons.mp each
      exact .cons (here inner within) (ih later)

/-- What is written directly inside another construct is no unit. -/
theorem Enters.not_isUnit (enters : Enters graph owner node) : ¬isUnit graph node := by
  rw [isUnit, enters.parent? wellFormed forest]
  simpa using enters.hosted.2

/-- What is reached from a unit is written in it. -/
theorem writtenIn_of_reached (isUnit : owner ∈ units graph)
    (reached : Relation.ReflTransGen (Enters graph) owner node) :
    WrittenIn graph node.id owner.id := by
  induction reached with
  | refl => exact .unit (List.mem_filter.mp isUnit).1 (List.mem_filter.mp isUnit).2
  | tail _ enters ih =>
      exact .hosted (enters.there wellFormed).1 (enters.not_isUnit wellFormed forest)
        (enters.parent? wellFormed forest) ih

end Forest

/-- A course of writing several units: its visits, and the lines of each unit. -/
structure ProgramCourse where
  visits : List Visit
  units : List (List Line)

/-- The course of writing units in a row. -/
def programCourse (graph : CodeGraph) (depth : Nat) (ordered : List Node) :
    Option ProgramCourse := do
  let parts ← ordered.mapM fun unit =>
    (unitCourse graph depth unit).map (·.visiting ⟨none, unit⟩)
  return ⟨parts.flatMap (·.visits), parts.map (·.lines)⟩

/-- The constructs that a course visits, in order. -/
def ProgramCourse.visited (course : ProgramCourse) : List Node := course.visits.map (·.node)

/-- An accessor comes after another one with its name. -/
def ComesAgain (members : List Node) (accessor : Node) : Prop :=
  accessor.kind = .accessor ∧ ∃ earlier, [earlier, accessor].Sublist members ∧
    earlier.kind = .accessor ∧ earlier.label = accessor.label

/-- An accessor of an interface that comes after another one with its name. -/
structure Repeats (graph : CodeGraph) (accessor : Node) : Prop where
  there : accessor ∈ graph.nodes
  again : ∃ owner, graph.parent? accessor.id = some owner ∧ owner.kind = .interfaceType ∧
    ComesAgain (hostedMembers graph owner) accessor

/-- What the output may leave out, if it visits certain constructs: what is below a visited member
that is written as a signature, and what is, or is below, an accessor with the name of another. -/
inductive LeftOut (graph : CodeGraph) (visited : List Node) (node : Node) : Prop
  | body {member : Node} (seen : member ∈ visited) (signature : isSignature graph member)
      (below : Relation.TransGen graph.Contains member.id node.id)
  | repeated {accessor : Node} (repeats : Repeats graph accessor)
      (within : Relation.ReflTransGen graph.Contains accessor.id node.id)

/-- An accessor that comes again does so behind another member. -/
theorem ComesAgain.cons {members : List Node} (again : ComesAgain members node) (first : Node) :
    ComesAgain (first :: members) node := by
  obtain ⟨isAccessor, earlier, before, same⟩ := again
  exact ⟨isAccessor, earlier, before.cons first, same⟩

/-- A member of an interface without a line of its own is an accessor with a name that was there
before. -/
theorem mem_signatures {named : List String} {members : List Node} (there : node ∈ members) :
    node ∈ (signatures named members).map (·.1) ∨ (node.kind = .accessor ∧ node.label ∈ named) ∨
      ComesAgain members node := by
  fun_induction signatures named members with
  | case1 => cases there
  | case2 named first rest _ ih | case5 named first rest _ _ ih =>
      rcases List.mem_cons.mp there with rfl | later
      · exact .inl List.mem_cons_self
      · exact (ih later).imp (.tail _) (·.imp_right (·.cons first))
  | case3 named first rest isAccessor old ih =>
      rcases List.mem_cons.mp there with rfl | later
      · exact .inr (.inl ⟨isAccessor, List.contains_iff_mem.mp old⟩)
      · exact (ih later).imp_right (·.imp_right (·.cons first))
  | case4 named first rest isAccessor _ ih =>
      rcases List.mem_cons.mp there with rfl | later
      · exact .inl List.mem_cons_self
      rcases ih later with written | ⟨isOther, known⟩ | again
      · exact .inl (.tail _ written)
      · rcases List.mem_cons.mp known with same | old
        · have before := (List.singleton_sublist.mpr later).cons_cons first
          exact .inr (.inr ⟨isOther, first, before, isAccessor, same.symm⟩)
        · exact .inr (.inl ⟨isOther, old⟩)
      · exact .inr (.inr (again.cons first))

/-- What can be written inside of its container is, unless the container is a signature or another
accessor has its name. -/
theorem enters_or (wellFormed : graph.WellFormed) (there : node ∈ graph.nodes)
    (ownerThere : owner ∈ graph.nodes) (contained : graph.parent? node.id = some owner)
    (hosted : hosts owner.kind node.kind) :
    Enters graph owner node ∨ isSignature graph owner ∨ Repeats graph node := by
  have child : node ∈ graph.children owner.id :=
    (mem_children_iff wellFormed).mpr ⟨there, (contains_of_parent? contained).2⟩
  have member := mem_hostedMembers_iff.mpr ⟨child, hosted⟩
  have callable (isCallable : owner.kind ≠ .classType) (noInterface : owner.kind ≠ .interfaceType)
      (noField : owner.kind ≠ .field) : node ∈ loopsOf graph owner :=
    mem_loopsOf_iff.mpr ⟨child, hosts_of_isLoop isCallable noInterface noField ▸ hosted⟩
  rw [Enters, and_iff_right ownerThere]
  unfold inside
  split
  · exact .inl member
  · rename_i isInterface
    rcases mem_signatures member with written | ⟨_, known⟩ | again
    · exact .inl written
    · cases known
    · exact .inr (.inr ⟨there, owner, contained, isInterface, again⟩)
  · rename_i isField
    rw [isField] at hosted
    cases hosted
  · rename_i noClass noInterface noField
    split
    · exact .inr (.inl ‹_›)
    · exact .inl (callable noClass noInterface noField)

/-- What is written in a unit is reached from it, or may be left out. -/
theorem WrittenIn.reached_or (wellFormed : graph.WellFormed) {id unit : String}
    (written : WrittenIn graph id unit) (there : node ∈ graph.nodes) (named : node.id = id)
    {visited : List Node} (units : ∀ node ∈ units graph, node ∈ visited)
    (closed : ∀ owner ∈ visited, ∀ node, Enters graph owner node → node ∈ visited) :
    node ∈ visited ∨ LeftOut graph visited node := by
  induction written generalizing node with
  | @unit top topThere isTop =>
      obtain rfl := wellFormed.eq_of_id there topThere named
      exact .inl (units node (List.mem_filter.mpr ⟨there, isTop⟩))
  | @hosted inner owner unit innerThere isInner contained _ ih =>
      obtain rfl := wellFormed.eq_of_id there innerThere named
      obtain ⟨ownerThere, contains⟩ := contains_of_parent? contained
      have hosted : hosts owner.kind node.kind := by
        rw [isUnit, contained] at isInner
        simpa using isInner
      rcases ih ownerThere rfl with seen | leftOut
      · rcases enters_or wellFormed there ownerThere contained hosted with enters | signature |
          repeats
        · exact .inl (closed owner seen node enters)
        · exact .inr (.body seen signature (.single contains))
        · exact .inr (.repeated repeats .refl)
      · cases leftOut with
        | body seen signature below => exact .inr (.body seen signature (below.tail contains))
        | repeated repeats within => exact .inr (.repeated repeats (within.tail contains))

/-- **Nothing is written twice.** Where nothing contains itself and nothing is contained twice,
however the units are put in order, their writing goes no deeper than there are nodes, and so does
the search for the loops that a scope covers. A construct is visited at most once on the way, either
as a unit or while its container is being written. What is not visited is below a visited member
that is written as a signature, or at or below an accessor of an interface with the name of
another. -/
theorem visited_once (wellFormed : graph.WellFormed) (forest : graph.Forest) :
    (∀ ordered, orderedUnits graph = .ok ordered → ordered.Perm (units graph)) ∧
    generate graph = (orderedUnits graph).map (fun ordered =>
      textOfUnits (ordered.map fun unit => textOfLines (unitLines graph unit))) ∧
    (∀ node ∈ graph.nodes, ∀ depth, graph.nodeCount ≤ depth →
      nestedLoops graph depth node = nestedLoops graph graph.nodeCount node) ∧
    ∀ ordered, ordered.Perm (units graph) →
      ∃ course, programCourse graph graph.nodeCount ordered = some course ∧
        course.units = ordered.map (unitLines graph) ∧
        (course.visited.map (·.id)).Nodup ∧
        (∀ visit ∈ course.visits, visit.node ∈ graph.nodes ∧ match visit.owner with
          | none => isUnit graph visit.node
          | some owner => ¬isUnit graph visit.node ∧
            graph.parent? visit.node.id = some owner ∧ owner ∈ course.visited) ∧
        ∀ node ∈ graph.nodes, node ∉ course.visited → LeftOut graph course.visited node := by
  have acyclic := forest.acyclic
  have distinct := nodup_units wellFormed
  refine ⟨fun ordered ran => ?_, ?_, fun node there depth enough => ?_, fun ordered all => ?_⟩
  · have arranges := arranges_orderedUnits wellFormed
    exact arranges.perm ran distinct
  · rw [generate, wellFormed.containmentCulprit?_eq_none_iff.mpr acyclic]
  · exact (Room.start there).nestedLoops_eq wellFormed acyclic enough
  have isUnit {unit : Node} (member : unit ∈ ordered) : unit ∈ units graph := all.mem_iff.mp member
  have each : ∀ unit ∈ ordered, ∃ part,
      (unitCourse graph graph.nodeCount unit).map (·.visiting ⟨none, unit⟩) = some part := by
    intro unit member
    obtain ⟨course, ran⟩ := exists_unitCourse wellFormed acyclic
      (List.mem_filter.mp (isUnit member)).1
    exact ⟨_, by rw [ran]; rfl⟩
  obtain ⟨parts, aligned⟩ := exists_forall₂ each
  have follows := follows_of_units aligned fun unit member course ran =>
    covers_of_unitCourse wellFormed forest (isUnit member) ran
  have reached {node : Node} : node ∈ (parts.flatMap (·.visits)).map (·.node) ↔
      ∃ unit ∈ ordered, Relation.ReflTransGen (Enters graph) unit node := follows.mem_iff
  have there {node : Node} (seen : node ∈ (parts.flatMap (·.visits)).map (·.node)) :
      node ∈ graph.nodes := by
    obtain ⟨unit, member, leads⟩ := reached.mp seen
    rcases leads.cases_tail with rfl | ⟨_, _, enters⟩
    · exact (List.mem_filter.mp (isUnit member)).1
    · exact (enters.there wellFormed).1
  refine ⟨_, by rw [programCourse, mapM_eq_some_iff.mpr aligned]; rfl, ?_, ?_, ?_, ?_⟩
  · refine (forall₂_iff_map_eq.mp (aligned.imp fun unit part ended => ?_)).symm
    obtain ⟨course, ran, rfl⟩ := Option.map_eq_some_iff.mp ended
    exact (lines_of_unitCourse ran (Nat.le_succ _)).symm
  · have once : ((parts.flatMap (·.visits)).map (·.node)).Nodup := by
      refine follows.nodup (all.nodup_iff.mpr (List.Nodup.of_map _ distinct)) ?_ ?_
      · exact fun unit _ cycle => acyclic unit.id (transGen_contains wellFormed cycle)
      · intro first firstMember second secondMember node left right
        have inFirst := writtenIn_of_reached wellFormed forest (isUnit firstMember) left
        have inSecond := writtenIn_of_reached wellFormed forest (isUnit secondMember) right
        exact wellFormed.eq_of_id (List.mem_filter.mp (isUnit firstMember)).1
          (List.mem_filter.mp (isUnit secondMember)).1 (inFirst.eq wellFormed inSecond)
    refine once.map_on fun first firstSeen second secondSeen same => ?_
    exact wellFormed.eq_of_id (there firstSeen) (there secondSeen) same
  · intro visit member
    have seen := List.mem_map_of_mem (f := (·.node)) member
    refine ⟨there seen, ?_⟩
    rcases follows.owned visit member with ⟨start, top⟩ | ⟨owner, within, enters, unit, first,
      leads⟩
    · rw [top]
      exact (List.mem_filter.mp (isUnit start)).2
    · rw [within]
      exact ⟨enters.not_isUnit wellFormed forest, enters.parent? wellFormed forest,
        reached.mpr ⟨unit, first, leads⟩⟩
  · intro node nodeThere unseen
    obtain ⟨unit, _, written⟩ := exists_unitWithin acyclic nodeThere (by simp)
      (graph.missing_lt_succ [])
    refine (written.reached_or wellFormed nodeThere rfl (fun unit isUnit => ?_) ?_).resolve_left
      unseen
    · exact reached.mpr ⟨unit, all.mem_iff.mpr isUnit, .refl⟩
    · intro owner seen node enters
      obtain ⟨unit, member, leads⟩ := reached.mp seen
      exact reached.mpr ⟨unit, member, leads.tail enters⟩

/-- An abstract method is visited without the loop that it contains. -/
theorem visited_once_abstract :
    ∃ graph : CodeGraph, graph.WellFormed ∧ graph.Forest ∧ ∃ course,
      programCourse graph graph.nodeCount (units graph) = some course ∧
        course.visited.map (·.id) = ["n0", "n1"] ∧
        ∀ node ∈ graph.nodes, node ∉ course.visited → LeftOut graph course.visited node := by
  obtain ⟨graph, wellFormed, tested⟩ := CodeGraph.WellFormed.exists_ofData {
      nodes := [⟨"n0", "A", .classType, ∅⟩,
        ⟨"n1", "f", .method, Dict.empty.insert "modifiers" "abstract"⟩, ⟨"n2", "for", .loop, ∅⟩]
      edges := [⟨"e0", "n0", "n1", .contains, ∅⟩, ⟨"e1", "n1", "n2", .contains, ∅⟩] }
    (fun graph => graph.containmentCulprit?.isNone && graph.edges.all (fun first =>
        graph.edges.all fun second => first.target = second.target → first = second) &&
      (programCourse graph graph.nodeCount (units graph)).any fun course =>
        course.visited.map (·.id) = ["n0", "n1"])
    (by decide +kernel)
  simp only [Bool.and_eq_true, Option.isNone_iff_eq_none, List.all_eq_true, decide_eq_true_eq]
    at tested
  obtain ⟨⟨apart, once⟩, visits⟩ := tested
  have forest : graph.Forest :=
    ⟨fun first firstThere second secondThere _ _ => once first firstThere second secondThere,
      wellFormed.containmentCulprit?_eq_none_iff.mp apart⟩
  obtain ⟨_, _, _, courses⟩ := visited_once wellFormed forest
  obtain ⟨course, ran, _, _, _, leftOut⟩ := courses (units graph) (.refl _)
  rw [ran] at visits
  exact ⟨graph, wellFormed, forest, course, ran, of_decide_eq_true visits, leftOut⟩

end Transcode.Output
