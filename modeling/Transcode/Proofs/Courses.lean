import Transcode.Proofs.Forest
import Transcode.Proofs.Outcome
import Transcode.Proofs.Placement

/-!
# Courses of writing

What a graph is written as, together with a record of every visit of a construct. A course is cut
off where constructs are nested deeper than it may go. The lines of a course that is not cut off are
those of the output (`Output.lines_of_unitCourse`), and where nothing contains itself no course goes
deeper than there are nodes (`Output.exists_unitCourse`).
-/

namespace Transcode

namespace Output

/-! ### Courses -/

/-- A construct comes to be written: as a unit, or inside another construct that is being
written. -/
structure Visit where
  owner : Option Node
  node : Node

/-- A course of writing: the visits on the way, and what is written. -/
structure Course where
  visits : List Visit
  lines : List Line

namespace Course

/-- A course with a visit before all others. -/
def visiting (visit : Visit) (course : Course) : Course :=
  { course with visits := visit :: course.visits }

/-- A course with other lines. -/
def rewrite (change : List Line → List Line) (course : Course) : Course :=
  { course with lines := change course.lines }

/-- The course of writing a construct that nothing is written inside of. -/
def leaf (lines : List Line) : Nat → Option Course
  | 0 => none
  | _ + 1 => some ⟨[], lines⟩

end Course

/-- The course of writing a piece of the body of a construct. -/
def Piece.course (node : Node) (scope : Scope) (write : Node → Option Course) :
    Piece → Option Course
  | .statement level text => some ⟨[], [.code level (scope.statement text)]⟩
  | .loop level inner =>
    (write inner).map fun course =>
      (course.rewrite (·.map (.shift level))).visiting ⟨some node, inner⟩

/-- The course of writing the body of a construct. -/
def bodyCourse (graph : CodeGraph) (scope : Scope) : Nat → Node → Option Course
  | 0, _ => none
  | depth + 1, node => do
    let parts ← (bodyPieces graph node).mapM (·.course node scope fun loop =>
      (bodyCourse graph scope depth loop).map (·.rewrite (block (loopFrame loop scope))))
    return ⟨parts.flatMap (·.visits), parts.flatMap (·.lines)⟩

/-- The course of writing a callable after its header. -/
def blockCourse (graph : CodeGraph) (header : String) (depth : Nat) (node : Node)
    (owner : Option Node) : Option Course :=
  (bodyCourse graph (bodyScope graph node owner) depth node).map
    (·.rewrite (block ⟨header ++ " \x7b", "\x7d"⟩))

/-- The course of writing a callable of a class. -/
def callableCourse (graph : CodeGraph) (depth : Nat) (owner node : Node) : Option Course :=
  let header := memberPrefix node ++ callableSignature node
  if hasModifier node "abstract" then Course.leaf [.code 0 (header ++ ";")] depth
  else blockCourse graph header depth node (some owner)

/-- Lines of members, with an empty line before each member that is no field, except the first. -/
def spacedLines : List (Node × Course) → List Line
  | [] => []
  | (_, first) :: rest => first.lines ++ rest.flatMap fun (member, course) =>
    if member.kind = .field then course.lines else .empty :: course.lines

/-- The visits of members of a construct. -/
def memberVisits (owner : Node) (parts : List (Node × Course)) : List Visit :=
  parts.flatMap fun (member, course) => (course.visiting ⟨some owner, member⟩).visits

/-- The course of writing a class. -/
def classCourse (graph : CodeGraph) : Nat → Bool → Node → Option Course
  | 0, _, _ => none
  | depth + 1, nested, node => do
    let parts ← (hostedMembers graph node).mapM fun member =>
      (match member.kind with
        | .field => Course.leaf
          [.code 0 (classField member (bodyScope graph member (some node)))] depth
        | .classType => classCourse graph depth true member
        | _ => callableCourse graph depth node member).map (member, ·)
    return ⟨memberVisits node parts, block (classFrame graph nested node) (spacedLines parts)⟩

/-- The members of an interface that are written, each with its line: of accessors with one name,
the first. -/
def signatures (named : List String) : List Node → List (Node × String)
  | [] => []
  | member :: rest =>
    match member.kind with
    | .field => (member, interfaceField member) :: signatures named rest
    | .accessor =>
      if named.contains member.label then signatures named rest
      else (member, interfaceProperty member) :: signatures (member.label :: named) rest
    | _ => (member, callableSignature member ++ ";") :: signatures named rest

/-- The course of writing an interface. -/
def interfaceCourse (graph : CodeGraph) : Nat → Node → Option Course
  | 0, _ => none
  | depth + 1, node => do
    let bases := supertypes (node.textAt "extends") ++ supertypes (node.textAt "implements")
    let parts ← (signatures [] (hostedMembers graph node)).mapM fun (member, text) =>
      (Course.leaf [.code 0 text] depth).map (member, ·)
    return ⟨memberVisits node parts,
      block ⟨exportPrefix node ++ interfaceSignature node bases ++ " \x7b", "\x7d"⟩
        (parts.flatMap (·.2.lines))⟩

/-- The course of writing a unit. -/
def unitCourse (graph : CodeGraph) (depth : Nat) (node : Node) : Option Course :=
  match node.kind with
  | .classType => classCourse graph depth false node
  | .interfaceType => interfaceCourse graph depth node
  | .field => Course.leaf [.code 0 (moduleVariable node (programScope graph))] depth
  | .loop | .arrayMethod =>
    (bodyCourse graph (bodyScope graph node none) depth node).map
      (·.rewrite (block (loopFrame node (bodyScope graph node none))))
  | _ =>
    blockCourse graph (exportPrefix node ++ "function " ++ callableSignature node) depth node
      (formerOwner? graph node)

/-- The members that a node hosts are children of kinds that it may host. -/
theorem mem_hostedMembers_iff {graph : CodeGraph} {node member : Node} :
    member ∈ hostedMembers graph node ↔
      member ∈ graph.children node.id ∧ hosts node.kind member.kind := by
  by_cases isField : member.kind = .field <;> simp [hostedMembers, isField]

/-- Signatures are written for some of the members, in their order. -/
theorem map_fst_signatures (named : List String) (members : List Node) :
    ((signatures named members).map (·.1)).Sublist members := by
  fun_induction signatures named members with
  | case1 => exact .slnil
  | case2 _ _ _ _ ih => exact ih.cons_cons _
  | case3 _ _ _ _ _ ih => exact ih.cons _
  | case4 _ _ _ _ _ ih => exact ih.cons_cons _
  | case5 _ _ _ _ _ ih => exact ih.cons_cons _

/-! ### Lines -/

variable {graph : CodeGraph} {scope : Scope} {depth fuel : Nat} {node : Node} {course : Course}

/-- A leaf visits nothing inside. -/
theorem Course.lines_of_leaf {lines : List Line} (ran : leaf lines depth = some course) :
    course = ⟨[], lines⟩ := by
  cases depth with
  | zero => cases ran
  | succ depth => exact (Option.some.inj ran).symm

/-- The course of a body writes its lines. -/
theorem lines_of_bodyCourse (ran : bodyCourse graph scope depth node = some course)
    (enough : depth ≤ fuel) : course.lines = bodyLines graph scope fuel node := by
  induction depth generalizing fuel node course with
  | zero => cases ran
  | succ depth ih =>
      obtain ⟨fuel, rfl⟩ := Nat.exists_eq_add_of_le' (Nat.zero_lt_of_lt enough)
      obtain ⟨parts, written, ended⟩ := Option.bind_eq_some_iff.mp ran
      cases ended
      rw [bodyLines_succ]
      refine flatMap_eq_of_forall₂ (mapM_eq_some_iff.mp written) fun piece part ended => ?_
      cases piece with
      | statement level text => exact (Option.some.inj ended) ▸ rfl
      | loop level loop =>
          obtain ⟨_, framed, rfl⟩ := Option.map_eq_some_iff.mp ended
          obtain ⟨inner, within, rfl⟩ := Option.map_eq_some_iff.mp framed
          simp only [Course.visiting, Course.rewrite, Piece.written]
          rw [ih within (Nat.le_of_succ_le_succ enough)]

/-- The course of a block writes its lines. -/
theorem lines_of_blockCourse {header : String} {owner : Option Node}
    (ran : blockCourse graph header depth node owner = some course)
    (enough : depth ≤ graph.nodeCount + 1) : course.lines = bodyBlock graph header node owner := by
  obtain ⟨inner, ended, rfl⟩ := Option.map_eq_some_iff.mp ran
  rw [bodyBlock, ← lines_of_bodyCourse ended enough]
  rfl

/-- The course of a callable writes its lines. -/
theorem lines_of_callableCourse {owner : Node}
    (ran : callableCourse graph depth owner node = some course)
    (enough : depth ≤ graph.nodeCount + 1) : course.lines = callableLines graph owner node := by
  unfold callableCourse at ran
  unfold callableLines
  split at ran
  · rename_i isAbstract
    rw [if_pos isAbstract, Course.lines_of_leaf ran]
  · rename_i whole
    rw [if_neg whole, lines_of_blockCourse ran enough]

/-- Members with their courses are spaced as members. -/
theorem spacedLines_eq {render : Node → List Line} {parts : List (Node × Course)}
    (each : ∀ part ∈ parts, part.2.lines = render part.1) :
    spacedLines parts = spacedMembers render (parts.map (·.1)) := by
  cases parts with
  | nil => rfl
  | cons first rest =>
      obtain ⟨here, later⟩ := List.forall_mem_cons.mp each
      rw [List.map_cons, spacedLines, spacedMembers, here, List.flatMap_map]
      refine congrArg (render first.1 ++ ·) (List.flatMap_congr fun part member => ?_)
      rw [← later part member]

/-- Each of the members of a construct with its course. -/
theorem members_of_mapM {write : Node → Option Course} {members : List Node}
    {parts : List (Node × Course)}
    (ran : members.mapM (fun member => (write member).map (member, ·)) = some parts) :
    parts.map (·.1) = members ∧ ∀ part ∈ parts, write part.1 = some part.2 := by
  have aligned := mapM_eq_some_iff.mp ran
  constructor
  · have same := aligned.imp fun member part (ended : (write member).map (member, ·) = some part) =>
      show id member = part.1 by
        obtain ⟨_, _, rfl⟩ := Option.map_eq_some_iff.mp ended
        rfl
    simpa using (forall₂_iff_map_eq.mp same).symm
  · intro part there
    obtain ⟨member, _, ended⟩ := exists_left_of_forall₂ aligned part there
    obtain ⟨_, written, rfl⟩ := Option.map_eq_some_iff.mp ended
    exact written

/-- The course of a class writes its lines. -/
theorem lines_of_classCourse {nested : Bool}
    (ran : classCourse graph depth nested node = some course) (enough : depth ≤ fuel)
    (bounded : depth ≤ graph.nodeCount + 1) :
    course.lines = classLines graph fuel nested node := by
  induction depth generalizing fuel nested node course with
  | zero => cases ran
  | succ depth ih =>
      obtain ⟨fuel, rfl⟩ := Nat.exists_eq_add_of_le' (Nat.zero_lt_of_lt enough)
      obtain ⟨parts, written, ended⟩ := Option.bind_eq_some_iff.mp ran
      cases ended
      obtain ⟨listed, each⟩ := members_of_mapM written
      rw [classLines, ← listed]
      refine congrArg (block (classFrame graph nested node)) (spacedLines_eq fun part there => ?_)
      have ended := each part there
      have less : depth ≤ graph.nodeCount + 1 := Nat.le_of_succ_le bounded
      split at ended
      · simp only [*, Course.lines_of_leaf ended]
      · simp only [*, ih ended (Nat.le_of_succ_le_succ enough) less]
      · simp only [*, lines_of_callableCourse ended less]

/-- The texts of signatures are those of the members of an interface. -/
theorem map_signatures (named : List String) (members : List Node) :
    (signatures named members).map (·.2) = interfaceMembers named members := by
  fun_induction signatures named members with
  | case1 => rfl
  | case2 _ _ _ isField ih => simp [interfaceMembers, isField, ih]
  | case3 _ _ _ isAccessor again ih =>
      rw [interfaceMembers, isAccessor]
      exact ih.trans (if_pos again).symm
  | case4 _ _ _ isAccessor new ih =>
      rw [interfaceMembers, isAccessor]
      exact (congrArg (_ :: ·) ih).trans (if_neg new).symm
  | case5 _ _ _ noField noAccessor ih => simp [interfaceMembers, ih]

/-- The course of an interface writes its lines. -/
theorem lines_of_interfaceCourse (ran : interfaceCourse graph depth node = some course) :
    course.lines = interfaceLines graph node := by
  cases depth with
  | zero => cases ran
  | succ depth =>
      obtain ⟨parts, written, ended⟩ := Option.bind_eq_some_iff.mp ran
      cases ended
      rw [interfaceLines, ← map_signatures, List.map_map, List.map_eq_flatMap]
      refine congrArg (block _) (flatMap_eq_of_forall₂ (mapM_eq_some_iff.mp written) ?_)
      intro signature part ended
      obtain ⟨_, leaf, rfl⟩ := Option.map_eq_some_iff.mp ended
      rw [Course.lines_of_leaf leaf]
      rfl

/-- **The lines of a course** are those of the output. -/
theorem lines_of_unitCourse (ran : unitCourse graph depth node = some course)
    (enough : depth ≤ graph.nodeCount + 1) : course.lines = unitLines graph node := by
  unfold unitCourse at ran
  unfold unitLines
  split at ran
  · simp only [*, lines_of_classCourse ran enough enough]
  · simp only [*, lines_of_interfaceCourse ran]
  · simp only [*, Course.lines_of_leaf ran]
  · obtain ⟨inner, within, rfl⟩ := Option.map_eq_some_iff.mp ran
    simp only [*, ← lines_of_bodyCourse within enough, Course.rewrite]
  · obtain ⟨inner, within, rfl⟩ := Option.map_eq_some_iff.mp ran
    simp only [*, ← lines_of_bodyCourse within enough, Course.rewrite]
  · simp only [*, lines_of_blockCourse ran enough]

/-! ### Depth -/

section Depth

variable (wellFormed : graph.WellFormed) (acyclic : graph.Acyclic)

/-- There is depth left for a construct inside of others, if it is enough for all constructs but
those: they are around the construct, which is thus none of them. -/
structure Room (graph : CodeGraph) (depth : Nat) (node : Node) : Prop where
  there : node ∈ graph.nodes
  left : ∃ around : List String, (∀ id ∈ around, Relation.TransGen graph.Contains id node.id) ∧
    graph.missing around ≤ depth

theorem Room.start (there : node ∈ graph.nodes) : Room graph graph.nodeCount node :=
  ⟨there, [], by simp, by simp [CodeGraph.missing, CodeGraph.nodeCount]⟩

include acyclic in
/-- There is room for one level less inside of a node. -/
theorem Room.next (room : Room graph depth node) : ∃ less, depth = less + 1 ∧
    ∀ inner ∈ graph.nodes, graph.Contains node.id inner.id → Room graph less inner := by
  obtain ⟨there, around, outside, enough⟩ := room
  have new : node.id ∉ around := fun again => acyclic node.id (outside node.id again)
  have fewer := CodeGraph.missing_cons_lt (CodeGraph.hasNode_of_mem there) new
  obtain ⟨less, rfl⟩ := Nat.exists_eq_add_of_le'
    (Nat.lt_of_lt_of_le (Nat.zero_lt_of_lt fewer) enough)
  refine ⟨less, rfl, fun inner innerThere contains => ⟨innerThere, node.id :: around, ?_, ?_⟩⟩
  · exact List.forall_mem_cons.mpr ⟨.single contains, fun id before => (outside id before).tail
      contains⟩
  · exact Nat.le_of_lt_succ (Nat.lt_of_lt_of_le fewer enough)

include acyclic in
/-- A leaf needs no room. -/
theorem Room.leaf (room : Room graph depth node) (lines : List Line) :
    ∃ course, Course.leaf lines depth = some course := by
  obtain ⟨less, rfl, _⟩ := room.next acyclic
  exact ⟨_, rfl⟩

include wellFormed in
/-- The children of a node are those that it contains. -/
theorem mem_children_iff {owner : String} :
    node ∈ graph.children owner ↔ node ∈ graph.nodes ∧ graph.Contains owner node.id := by
  rw [CodeGraph.children, (List.mergeSort_perm _ _).mem_iff, wellFormed.mem_successors]
  rfl

include wellFormed acyclic

/-- With enough room a body is written to its end. -/
theorem Room.exists_bodyCourse (room : Room graph depth node) (scope : Scope) :
    ∃ course, bodyCourse graph scope depth node = some course := by
  induction depth generalizing node with
  | zero =>
      obtain ⟨_, none, _⟩ := room.next acyclic
      cases none
  | succ depth ih =>
      obtain ⟨_, same, inside⟩ := room.next acyclic
      obtain rfl := Nat.succ.inj same
      have each : ∀ piece ∈ bodyPieces graph node, ∃ part, piece.course node scope
          (fun loop => (bodyCourse graph scope depth loop).map
            (·.rewrite (block (loopFrame loop scope)))) = some part := by
        intro piece member
        cases piece with
        | statement level text => exact ⟨_, rfl⟩
        | loop level loop =>
            have isLoop : loop ∈ loopsOf graph node :=
              (loops_pieces _ _).mem_iff.mp (List.mem_filterMap.mpr ⟨_, member, rfl⟩)
            obtain ⟨loopThere, contains⟩ :=
              (mem_children_iff wellFormed).mp (List.mem_of_mem_filter isLoop)
            obtain ⟨course, ended⟩ := ih (inside loop loopThere contains)
            exact ⟨_, by rw [Piece.course, ended]; rfl⟩
      obtain ⟨parts, aligned⟩ := exists_forall₂ each
      exact ⟨_, by rw [bodyCourse, mapM_eq_some_iff.mpr aligned]; rfl⟩

/-- With enough room a callable is written to its end. -/
theorem Room.exists_callableCourse (room : Room graph depth node) (owner : Node) :
    ∃ course, callableCourse graph depth owner node = some course := by
  unfold callableCourse
  split
  · exact room.leaf acyclic _
  · obtain ⟨course, ended⟩ := room.exists_bodyCourse wellFormed acyclic
      (bodyScope graph node (some owner))
    exact ⟨_, by rw [blockCourse, ended]; rfl⟩

/-- With enough room a class is written to its end. -/
theorem Room.exists_classCourse (room : Room graph depth node) (nested : Bool) :
    ∃ course, classCourse graph depth nested node = some course := by
  induction depth generalizing nested node with
  | zero =>
      obtain ⟨_, none, _⟩ := room.next acyclic
      cases none
  | succ depth ih =>
      obtain ⟨_, same, inside⟩ := room.next acyclic
      obtain rfl := Nat.succ.inj same
      let write (member : Node) : Option Course := match member.kind with
        | .field => Course.leaf
          [.code 0 (classField member (bodyScope graph member (some node)))] depth
        | .classType => classCourse graph depth true member
        | _ => callableCourse graph depth node member
      have each : ∀ member ∈ hostedMembers graph node, ∃ part,
          (write member).map (member, ·) = some part := by
        intro member hosted
        have innerRoom := inside member
          ((mem_children_iff wellFormed).mp (mem_hostedMembers_iff.mp hosted).1).1
          ((mem_children_iff wellFormed).mp (mem_hostedMembers_iff.mp hosted).1).2
        suffices ∃ course, write member = some course by
          obtain ⟨course, ended⟩ := this
          exact ⟨_, by rw [ended]; rfl⟩
        dsimp only [write]
        split
        · exact innerRoom.leaf acyclic _
        · exact ih innerRoom true
        · exact innerRoom.exists_callableCourse wellFormed acyclic node
      obtain ⟨parts, aligned⟩ := exists_forall₂ each
      exact ⟨_, by rw [classCourse, mapM_eq_some_iff.mpr aligned]; rfl⟩

/-- With enough room an interface is written to its end. -/
theorem Room.exists_interfaceCourse (room : Room graph depth node) :
    ∃ course, interfaceCourse graph depth node = some course := by
  obtain ⟨less, rfl, inside⟩ := room.next acyclic
  have each : ∀ signature ∈ signatures [] (hostedMembers graph node), ∃ part,
      (Course.leaf [.code 0 signature.2] less).map (signature.1, ·) = some part := by
    intro signature member
    have hosted := (map_fst_signatures [] _).subset (List.mem_map_of_mem member)
    obtain ⟨there, contains⟩ := (mem_children_iff wellFormed).mp (mem_hostedMembers_iff.mp hosted).1
    obtain ⟨course, ended⟩ := (inside _ there contains).leaf acyclic [.code 0 signature.2]
    exact ⟨_, by rw [ended]; rfl⟩
  obtain ⟨parts, aligned⟩ := exists_forall₂ each
  exact ⟨_, by rw [interfaceCourse, mapM_eq_some_iff.mpr aligned]; rfl⟩

/-- **No course is deeper** than there are nodes. -/
theorem exists_unitCourse (there : node ∈ graph.nodes) :
    ∃ course, unitCourse graph graph.nodeCount node = some course := by
  have room := Room.start there
  have body (scope : Scope) (change : Course → Course) : ∃ course,
      (bodyCourse graph scope graph.nodeCount node).map change = some course := by
    obtain ⟨course, ended⟩ := room.exists_bodyCourse wellFormed acyclic scope
    exact ⟨change course, by rw [ended]; rfl⟩
  unfold unitCourse
  split
  · exact room.exists_classCourse wellFormed acyclic false
  · exact room.exists_interfaceCourse wellFormed acyclic
  · exact room.leaf acyclic _
  · exact body _ _
  · exact body _ _
  · exact body _ _

/-- The loops in a construct are found no deeper than there are nodes. -/
theorem Room.nestedLoops_eq (room : Room graph depth node) (enough : depth ≤ fuel) :
    nestedLoops graph fuel node = nestedLoops graph depth node := by
  induction depth generalizing fuel node with
  | zero =>
      obtain ⟨_, none, _⟩ := room.next acyclic
      cases none
  | succ depth ih =>
      obtain ⟨_, same, inside⟩ := room.next acyclic
      obtain rfl := Nat.succ.inj same
      obtain ⟨fuel, rfl⟩ := Nat.exists_eq_add_of_le' (Nat.zero_lt_of_lt enough)
      refine List.flatMap_congr fun loop member => congrArg (loop :: ·) ?_
      obtain ⟨loopThere, contains⟩ :=
        (mem_children_iff wellFormed).mp (List.mem_of_mem_filter member)
      exact ih (inside loop loopThere contains) (Nat.le_of_succ_le_succ enough)

end Depth

end Output

end Transcode
