import Transcode.Proofs.Placement
import Transcode.Proofs.Visits

/-!
# Loops in the order of their slots

Whatever stands in a body, and whatever slots the loops in it have, each loop is written once. A
body is read line by line (`Output.readBody`), and the loops of one slot wait in the order in which
they were created: each line that stands for the slot takes the next of them, and those that are
never taken come last (`Output.fillSlots_eq`, `Output.loops_written_once`).
-/

namespace Transcode.Output

open Text

/-! ### Bodies that are read -/

/-- What a line of a body is read as, at its level: code, or a slot. -/
inductive BodyLine where
  | code (level : Nat) (text : String)
  | slot (level : Nat) (name : String)
  deriving DecidableEq, Repr

/-- The slot that a line stands for. -/
def BodyLine.slot? : BodyLine → Option String
  | .code .. => none
  | .slot _ name => some name

/-- Reads a line of a body; a blank one is passed over. -/
def readLine? (line : String) : Option BodyLine :=
  if isBlankText line then none
  else some <| match slotOf? line.toList with
    | none => .code (lineLevel line.toList) (String.ofList (trimStart line.toList))
    | some name => .slot (lineLevel line.toList) name

/-- Reads a body. -/
def readBody (body : String) : List BodyLine := (lines body).filterMap readLine?

/-- The pieces of a body that is read, with its loops. -/
def fillSlots : List BodyLine → List Node → List Piece
  | [], loops => loops.map (.loop 0)
  | .code level text :: rest, loops => .statement level text :: fillSlots rest loops
  | .slot level name :: rest, loops =>
    match loops.find? (isAt name) with
    | some loop => .loop level loop :: fillSlots rest (loops.eraseP (isAt name))
    | none => fillSlots rest loops

/-- Only what is read of a body matters for its pieces. -/
theorem pieces_eq_fillSlots (body : List String) (loops : List Node) :
    pieces body loops = fillSlots (body.filterMap readLine?) loops := by
  fun_induction pieces body loops with
  | case1 => rfl
  | case2 line rest loops blank ih =>
      have here : readLine? line = none := if_pos blank
      rw [List.filterMap_cons_none here, ih]
  | case3 line rest loops cs filled statement ih =>
      have here : readLine? line =
          some (.code (lineLevel cs) (String.ofList (trimStart cs))) := by
        rw [readLine?, if_neg filled, statement]
      rw [List.filterMap_cons_some here, fillSlots, ih]
  | case4 line rest loops cs filled name named loop found ih =>
      have here : readLine? line = some (.slot (lineLevel cs) name) := by
        rw [readLine?, if_neg filled, named]
      rw [List.filterMap_cons_some here, fillSlots, found, ih]
  | case5 line rest loops cs filled name named none ih =>
      have here : readLine? line = some (.slot (lineLevel cs) name) := by
        rw [readLine?, if_neg filled, named]
      rw [List.filterMap_cons_some here, fillSlots, none, ih]

/-- The pieces of a body come from its lines and the loops of its node. -/
theorem bodyPieces_eq_fillSlots (graph : CodeGraph) (node : Node) :
    bodyPieces graph node = fillSlots (readBody (node.textAt "body")) (loopsOf graph node) :=
  pieces_eq_fillSlots _ _

/-! ### Queues -/

/-- The number of lines that stand for a slot. -/
def callsFor (name : String) (lines : List BodyLine) : Nat := (lines.filterMap (·.slot?)).count name

/-- The loops for a slot, in order. -/
def queue (loops : List Node) (name : String) : List Node := loops.filter (isAt name)

/-- The piece that a line is after some lines before it: of the loops for its slot, the one whose
number is that of the lines before it that stand for the slot. -/
def pieceAt? (loops : List Node) (before : List BodyLine) : BodyLine → Option Piece
  | .code level text => some (.statement level text)
  | .slot level name => (queue loops name)[callsFor name before]?.map (.loop level)

/-- Whether no line is left for a loop: there are no more lines for its slot than loops for it
before the loop. -/
def isLeftOver (loops : List Node) (lines : List BodyLine) (loop : Node) : Bool :=
  callsFor (loop.textAt "slot") lines ≤ (queue loops (loop.textAt "slot")).idxOf loop

section Queues

variable {loops : List Node} {name other : String} {lines before : List BodyLine} {loop : Node}

theorem isAt_iff : isAt name loop ↔ loop.textAt "slot" = name := decide_eq_true_iff

@[simp] theorem callsFor_cons_slot_self (level : Nat) :
    callsFor name (.slot level name :: lines) = callsFor name lines + 1 := List.count_cons_self

theorem callsFor_cons_slot_of_ne (level : Nat) (apart : name ≠ other) :
    callsFor other (.slot level name :: lines) = callsFor other lines := List.count_cons_of_ne apart

/-- The queue of a slot begins with the loop that is found for it. -/
theorem queue_eq_cons (found : loops.find? (isAt name) = some loop) :
    queue loops name = loop :: queue (loops.eraseP (isAt name)) name := by
  obtain ⟨passes, before, after, rfl, fails⟩ := List.find?_eq_some_iff_append.mp found
  have skipped : ∀ other ∈ before, ¬isAt name other := fun other member => by
    simpa using fails other member
  rw [List.eraseP_append_right _ skipped, List.eraseP_cons_of_pos passes, queue, queue,
    List.filter_append, List.filter_append, List.filter_eq_nil_iff.mpr skipped,
    List.filter_cons_of_pos passes, List.nil_append, List.nil_append]

/-- A loop taken from one slot leaves the queues of the others. -/
theorem queue_eraseP_of_ne (apart : name ≠ other) :
    queue (loops.eraseP (isAt name)) other = queue loops other := by
  induction loops with
  | nil => rfl
  | cons loop rest ih =>
      by_cases here : isAt name loop
      · have elsewhere : ¬isAt other loop := fun also =>
          apart ((isAt_iff.mp here).symm.trans (isAt_iff.mp also))
        rw [List.eraseP_cons_of_pos here, queue, queue, List.filter_cons_of_neg elsewhere]
      · rw [List.eraseP_cons_of_neg here, queue, queue, List.filter_cons, List.filter_cons]
        exact congrArg (fun others => if isAt other loop then loop :: others else others) ih

theorem queue_eq_nil (none : loops.find? (isAt name) = none) : queue loops name = [] :=
  List.filter_eq_nil_iff.mpr (List.find?_eq_none.mp none)

/-- A line for a slot takes a loop from the queue, as all later lines see it. -/
theorem pieceAt?_cons_slot (found : loops.find? (isAt name) = some loop) (level : Nat)
    (line : BodyLine) : pieceAt? loops (.slot level name :: before) line =
      pieceAt? (loops.eraseP (isAt name)) before line := by
  cases line with
  | code => rfl
  | slot deep other =>
      by_cases same : name = other
      · subst same
        rw [pieceAt?, pieceAt?, queue_eq_cons found, callsFor_cons_slot_self,
          List.getElem?_cons_succ]
      · rw [pieceAt?, pieceAt?, queue_eraseP_of_ne same, callsFor_cons_slot_of_ne _ same]

/-- A line for a slot without loops changes nothing for later lines. -/
theorem pieceAt?_cons_slot_of_none (none : loops.find? (isAt name) = none) (level : Nat)
    (line : BodyLine) :
    pieceAt? loops (.slot level name :: before) line = pieceAt? loops before line := by
  cases line with
  | code => rfl
  | slot deep other =>
      by_cases same : name = other
      · subst same
        rw [pieceAt?, pieceAt?, queue_eq_nil none, List.getElem?_nil, List.getElem?_nil]
      · rw [pieceAt?, pieceAt?, callsFor_cons_slot_of_ne _ same]

/-- Nor does it take a loop from those that are left over. -/
theorem isLeftOver_cons_slot_of_none (none : loops.find? (isAt name) = none) (level : Nat)
    (member : loop ∈ loops) :
    isLeftOver loops (.slot level name :: lines) loop = isLeftOver loops lines loop := by
  have apart : name ≠ loop.textAt "slot" := fun same =>
    List.find?_eq_none.mp none loop member (isAt_iff.mpr same.symm)
  rw [isLeftOver, isLeftOver, callsFor_cons_slot_of_ne _ apart]

/-- The loop that a line takes is not left over, and others are as they are without it. -/
theorem filter_isLeftOver_cons_slot (distinct : loops.Nodup)
    (found : loops.find? (isAt name) = some loop) (level : Nat) :
    loops.filter (isLeftOver loops (.slot level name :: lines)) =
      (loops.eraseP (isAt name)).filter (isLeftOver (loops.eraseP (isAt name)) lines) := by
  have first := queue_eq_cons found
  have isSlot : loop.textAt "slot" = name := isAt_iff.mp (List.find?_some found)
  have taken : ¬isLeftOver loops (.slot level name :: lines) loop := by
    simp [isLeftOver, isSlot, first]
  have kept : ∀ other ∈ loops, other ≠ loop →
      isLeftOver loops (.slot level name :: lines) other =
        isLeftOver (loops.eraseP (isAt name)) lines other := by
    intro other _ apart
    by_cases same : name = other.textAt "slot"
    · rw [isLeftOver, isLeftOver, ← same, callsFor_cons_slot_self, first,
        List.idxOf_cons_ne _ apart.symm, Nat.succ_eq_add_one]
      exact decide_eq_decide.mpr Nat.add_le_add_iff_right
    · rw [isLeftOver, isLeftOver, callsFor_cons_slot_of_ne _ same, queue_eraseP_of_ne same]
  obtain ⟨passes, before, after, rfl, fails⟩ := List.find?_eq_some_iff_append.mp found
  have skipped : ∀ other ∈ before, ¬isAt name other := fun other member => by
    simpa using fails other member
  rw [List.eraseP_append_right _ skipped, List.eraseP_cons_of_pos passes] at kept ⊢
  have away : ∀ other ∈ before ++ after, other ≠ loop := by
    rintro other member rfl
    exact (List.nodup_middle.mp distinct |> List.nodup_cons.mp).1 member
  rw [List.filter_append, List.filter_cons_of_neg taken, ← List.filter_append]
  refine List.filter_congr fun other member => kept other ?_ (away other member)
  exact List.perm_middle.mem_iff.mpr (List.mem_cons_of_mem _ member)

/-- The pieces of the lines of a body, each as it comes after the lines before it. -/
def linePieces (loops : List Node) (lines : List BodyLine) : List Piece :=
  lines.zipIdx.filterMap fun placed => pieceAt? loops (lines.take placed.2) placed.1

/-- The pieces of a body, told for each line by itself: first those of its lines, then the loops
that are left over. -/
def slotPieces (loops : List Node) (lines : List BodyLine) : List Piece :=
  linePieces loops lines ++ (loops.filter (isLeftOver loops lines)).map (.loop 0)

/-- The pieces of lines begin with that of the first. -/
theorem linePieces_cons (line : BodyLine) (rest : List BodyLine) :
    linePieces loops (line :: rest) = (pieceAt? loops [] line).toList ++
      rest.zipIdx.filterMap fun placed => pieceAt? loops (line :: rest.take placed.2) placed.1 := by
  rw [linePieces, List.zipIdx_cons, List.zipIdx_succ, List.filterMap_cons, List.filterMap_map]
  dsimp only
  rw [List.take_zero]
  cases pieceAt? loops [] line <;> rfl

/-- **A body is filled** line by line: each line is a piece as it comes after the lines before it,
and the loops that are left over come last. -/
theorem fillSlots_eq (distinct : loops.Nodup) :
    fillSlots lines loops = slotPieces loops lines := by
  unfold slotPieces
  induction lines generalizing loops with
  | nil =>
      have all : loops.filter (isLeftOver loops []) = loops :=
        List.filter_eq_self.mpr fun loop _ => decide_eq_true (Nat.zero_le _)
      rw [all]
      rfl
  | cons line rest ih =>
      rw [linePieces_cons]
      cases line with
      | code level text =>
          rw [fillSlots, ih distinct]
          rfl
      | slot level name =>
          rw [fillSlots]
          cases found : loops.find? (isAt name) with
          | some loop =>
              have here : pieceAt? loops [] (.slot level name) = some (.loop level loop) := by
                rw [pieceAt?, queue_eq_cons found]
                rfl
              simp only [here, pieceAt?_cons_slot found, filter_isLeftOver_cons_slot distinct found,
                ih (distinct.sublist List.eraseP_sublist)]
              rfl
          | none =>
              have here : pieceAt? loops [] (.slot level name) = none := by
                rw [pieceAt?, queue_eq_nil found]
                rfl
              have left : loops.filter (isLeftOver loops (.slot level name :: rest)) =
                  loops.filter (isLeftOver loops rest) :=
                List.filter_congr fun loop member => isLeftOver_cons_slot_of_none found level member
              simp only [here, pieceAt?_cons_slot_of_none found, left, ih distinct]
              rfl

end Queues

/-! ### Loops of a node -/

section Node

variable {graph : CodeGraph} {node : Node} (wellFormed : graph.WellFormed)
  (once : ∀ loop ∈ loopsOf graph node,
    (graph.incomingOf .contains loop.id).countP (·.source = node.id) = 1)

include wellFormed once

/-- Loops that a node contains by one edge each are different. -/
theorem nodup_loopsOf : (loopsOf graph node).Nodup := by
  have distinct : (graph.outgoingOf .contains node.id).Nodup :=
    ((List.Nodup.of_map _ wellFormed.edgeIds).filter _).filter _
  have perm : (loopsOf graph node).Perm
      ((graph.successors .contains node.id).filter (·.kind.isLoop)) :=
    (List.mergeSort_perm _ _).filter _
  rw [perm.nodup_iff]
  refine List.pairwise_filter.mpr (List.pairwise_filterMap.mpr
    (distinct.imp_of_mem
      fun {first second} isFirst isSecond apart loop found other again isLoop _ => ?_))
  rintro rfl
  have leads := CodeGraph.mem_outgoingOf.mp isFirst
  have others := CodeGraph.mem_outgoingOf.mp isSecond
  obtain ⟨there, isTarget⟩ := wellFormed.node?_eq_some_iff.mp found
  have alsoTarget := (wellFormed.node?_eq_some_iff.mp again).2
  have member : loop ∈ loopsOf graph node := mem_loopsOf_iff.mpr
    ⟨(mem_children_iff wellFormed).mpr ⟨there, first, isTarget ▸ leads⟩, isLoop⟩
  have one := once loop member
  rw [List.countP_eq_length_filter, List.length_eq_one_iff] at one
  obtain ⟨only, edges⟩ := one
  have isOnly {edge : Edge} (leads : graph.Leads .contains node.id edge.target edge)
      (isTarget : loop.id = edge.target) : edge = only := by
    refine List.mem_singleton.mp (edges ▸ List.mem_filter.mpr ⟨?_, decide_eq_true leads.source⟩)
    exact CodeGraph.mem_incomingOf.mpr ⟨leads.member, leads.kind, rfl, isTarget.symm⟩
  exact apart ((isOnly leads isTarget).trans (isOnly others alsoTarget).symm)

/-- They are in the order in which they were created. -/
theorem pairwise_loopsOf : (loopsOf graph node).Pairwise (·.seq < ·.seq) := by
  have order : (loopsOf graph node).Pairwise (·.seq ≤ ·.seq) :=
    (pairwise_mergeSort_number Node.seq _).filter _
  refine (order.and (nodup_loopsOf wellFormed once)).imp_of_mem
    fun {first second} isFirst isSecond ⟨inOrder, apart⟩ =>
      Nat.lt_of_le_of_ne inOrder fun same => ?_
  exact apart (wellFormed.eq_of_seq
    ((mem_children_iff wellFormed).mp (mem_loopsOf_iff.mp isFirst).1).1
    ((mem_children_iff wellFormed).mp (mem_loopsOf_iff.mp isSecond).1).1 same)

/-- **Every loop is written once,** whatever the body says. The loops that a node contains by one
edge each are written in its body, each of them once, and nothing else is written but the code of
the body. A line that stands for a slot is written as the loop for it whose number, in the order of
creation, is that of the lines for the slot before it, and not at all if there are fewer loops. The
loops that are left over come after the last line, in the order of creation. -/
theorem loops_written_once :
    (∀ loop, loop ∈ loopsOf graph node ↔ loop ∈ graph.nodes ∧ graph.Contains node.id loop.id ∧
      (loop.kind = .loop ∨ loop.kind = .arrayMethod)) ∧
    (loopsOf graph node).Pairwise (·.seq < ·.seq) ∧
    (∀ loop, ((slotPieces (loopsOf graph node) (readBody (node.textAt "body"))).filterMap
      (·.loop?)).count loop = if loop ∈ loopsOf graph node then 1 else 0) ∧
    ∀ scope fuel, bodyLines graph scope (fuel + 1) node =
      (slotPieces (loopsOf graph node) (readBody (node.textAt "body"))).flatMap (·.written scope
        fun loop => block (loopFrame loop scope) (bodyLines graph scope fuel loop)) := by
  have distinct := nodup_loopsOf wellFormed once
  have filled := (bodyPieces_eq_fillSlots graph node).trans (fillSlots_eq distinct)
  have written : ((bodyPieces graph node).filterMap (·.loop?)).Perm (loopsOf graph node) :=
    loops_pieces _ _
  refine ⟨fun loop => ?_, pairwise_loopsOf wellFormed once, fun loop => ?_, fun scope fuel => ?_⟩
  · rw [mem_loopsOf_iff, mem_children_iff wellFormed, and_assoc]
    cases loop.kind <;> simp [NodeKind.isLoop]
  · rw [← filled, written.count_eq]
    exact distinct.count
  · rw [bodyLines_succ, filled]

end Node

/-- Loops that their node came to contain in the order of their creation need no sorting. -/
theorem loopsOf_of_pairwise {graph : CodeGraph} {node : Node}
    (order : (graph.successors .contains node.id).Pairwise (·.seq ≤ ·.seq)) :
    loopsOf graph node = (graph.successors .contains node.id).filter (·.kind.isLoop) := by
  rw [loopsOf, CodeGraph.children, List.mergeSort_of_pairwise (order.imp decide_eq_true)]

/-- Lines for a slot with two loops, of which one has become a call, and for a slot without any; a
loop without a slot, and one whose slot no line stands for. -/
theorem loops_written_once_leftOver :
    ∃ (graph : CodeGraph) (node : Node), graph.WellFormed ∧
      (∀ loop ∈ loopsOf graph node,
        (graph.incomingOf .contains loop.id).countP (·.source = node.id) = 1) ∧
      (slotPieces (loopsOf graph node) (readBody (node.textAt "body"))).map
        (·.loop?.map (·.id)) = [some "n2", none, some "n4", some "n1", some "n3"] ∧
      ∀ scope fuel, bodyLines graph scope (fuel + 1) node =
        (slotPieces (loopsOf graph node) (readBody (node.textAt "body"))).flatMap (·.written scope
          fun loop => block (loopFrame loop scope) (bodyLines graph scope fuel loop)) := by
  obtain ⟨graph, wellFormed, tested⟩ := CodeGraph.WellFormed.exists_ofData {
      nodes := [⟨"n0", "f", .function,
          Dict.empty.insert "body" "@loop:0\n  z();\n\n@loop:7\n  @loop: 0\n@loop:0"⟩,
        ⟨"n1", "for", .loop, ∅⟩, ⟨"n2", "while", .loop, Dict.empty.insert "slot" "0"⟩,
        ⟨"n3", "do", .loop, Dict.empty.insert "slot" "1"⟩,
        ⟨"n4", "forEach", .arrayMethod, Dict.empty.insert "slot" "0"⟩]
      edges := [⟨"e0", "n0", "n1", .contains, ∅⟩, ⟨"e1", "n0", "n2", .contains, ∅⟩,
        ⟨"e2", "n0", "n3", .contains, ∅⟩, ⟨"e3", "n0", "n4", .contains, ∅⟩] }
    (fun graph => graph.nodes.any fun node =>
      let loops := (graph.successors .contains node.id).filter (·.kind.isLoop)
      decide ((graph.successors .contains node.id).Pairwise (fun (first second : Node) =>
          first.seq ≤ second.seq) ∧
        (∀ loop ∈ loops, (graph.incomingOf .contains loop.id).countP (·.source = node.id) = 1) ∧
        (slotPieces loops (readBody (node.textAt "body"))).map
          (fun piece => piece.loop?.map (·.id)) =
            [some "n2", none, some "n4", some "n1", some "n3"]))
    (by decide +kernel)
  obtain ⟨node, _, tested⟩ := List.any_eq_true.mp tested
  obtain ⟨order, once, shown⟩ := of_decide_eq_true tested
  rw [← loopsOf_of_pairwise order] at once shown
  obtain ⟨_, _, _, written⟩ := loops_written_once wellFormed once
  exact ⟨graph, node, wellFormed, once, shown, written⟩

end Transcode.Output
