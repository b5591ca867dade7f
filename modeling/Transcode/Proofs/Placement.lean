import Mathlib.Data.List.Perm.Basic
import Transcode.Output.Program

/-!
# What a body is made of

A body is written as a row of pieces, each of them a statement or a loop (`Output.bodyLines_succ`).
Whatever the lines of the body, every loop is one of them once (`Output.loops_pieces`).
-/

namespace Transcode.Output

open Text

/-- A part of a body, at its level of indentation. -/
inductive Piece where
  | statement (level : Nat) (text : String)
  | loop (level : Nat) (loop : Node)

namespace Piece

/-- The loop that a piece is. -/
def loop? : Piece → Option Node
  | .statement .. => none
  | .loop _ node => some node

@[simp] theorem loop?_statement (level : Nat) (text : String) :
    (statement level text).loop? = none := rfl

@[simp] theorem loop?_loop (level : Nat) (node : Node) : (loop level node).loop? = some node := rfl

/-- The lines of a piece. -/
def written (scope : Scope) (write : Node → List Line) : Piece → List Line
  | .statement level text => [.code level (scope.statement text)]
  | .loop level node => (write node).map (.shift level)

end Piece

/-- Whether a loop is for a slot. -/
def isAt (slot : String) (loop : Node) : Bool := loop.textAt "slot" = slot

/-- The pieces of a body that holds loops. A line that stands for a slot is replaced by the first
loop for it that is left, and loops that are left over come at the end. -/
def pieces : List String → List Node → List Piece
  | [], loops => loops.map (.loop 0)
  | line :: rest, loops =>
    let cs := line.toList
    if isBlankText line then pieces rest loops
    else match slotOf? cs with
      | none => .statement (lineLevel cs) (String.ofList (trimStart cs)) :: pieces rest loops
      | some slot =>
        match loops.find? (isAt slot) with
        | some loop => .loop (lineLevel cs) loop :: pieces rest (loops.eraseP (isAt slot))
        | none => pieces rest loops

/-- The pieces of the body of a construct. -/
def bodyPieces (graph : CodeGraph) (node : Node) : List Piece :=
  pieces (lines (node.textAt "body")) (loopsOf graph node)

theorem Line.shift_zero : Line.shift 0 = id := by
  funext line
  cases line <;> simp [Line.shift]

/-- The item found and the others are the items. -/
theorem perm_cons_eraseP {α : Type} {test : α → Bool} {items : List α} {item : α}
    (found : items.find? test = some item) : items.Perm (item :: items.eraseP test) := by
  obtain ⟨passes, before, after, rfl, fails⟩ := List.find?_eq_some_iff_append.mp found
  have skipped : ∀ other ∈ before, ¬test other := fun other member => by
    simpa using fails other member
  rw [List.eraseP_append_right _ skipped, List.eraseP_cons_of_pos passes]
  exact List.perm_middle

/-- **Every loop has a place** in a body, and only one. -/
theorem loops_pieces (body : List String) (loops : List Node) :
    ((pieces body loops).filterMap (·.loop?)).Perm loops := by
  fun_induction pieces body loops with
  | case1 loops => simp [List.filterMap_map, Function.comp_def]
  | case2 _ _ _ _ ih => exact ih
  | case3 _ _ _ _ _ _ ih => simpa [List.filterMap_cons] using ih
  | case4 _ _ _ _ _ _ _ loop found ih =>
      simpa [List.filterMap_cons] using (ih.cons loop).trans (perm_cons_eraseP found).symm
  | case5 _ _ _ _ _ _ _ _ ih => exact ih

section Lines

variable {write : Node → List Line}

/-- A loop and the lines that it is written as. -/
def placedLoop (write : Node → List Line) (loop : Node) : PlacedLoop :=
  ⟨loop.textAt "slot", write loop⟩

/-- A written loop is taken from a slot as the loop is. -/
theorem takeSlot_map (slot : String) (loops : List Node) :
    takeSlot slot (loops.map (placedLoop write)) = (loops.find? (isAt slot)).map fun loop =>
      (placedLoop write loop, (loops.eraseP (isAt slot)).map (placedLoop write)) := by
  induction loops with
  | nil => rfl
  | cons loop rest ih =>
      rw [List.map_cons, takeSlot, List.find?_cons, List.eraseP_cons]
      by_cases here : loop.textAt "slot" = slot
      · simp [placedLoop, isAt, here]
      · simp [placedLoop, isAt, here, ih, Function.comp_def]

/-- Loops are placed in a body as its pieces are written. -/
theorem placeLoops_map (scope : Scope) (body : List String) (loops : List Node) :
    placeLoops scope body (loops.map (placedLoop write)) =
      (pieces body loops).flatMap (·.written scope write) := by
  fun_induction pieces body loops with
  | case1 loops =>
      simp [placeLoops, placedLoop, Piece.written, List.flatMap_map, Line.shift_zero]
  | case2 line rest loops isBlank ih => simp [placeLoops, isBlank, ih]
  | case3 line rest loops cs filled statement ih =>
      simp [placeLoops, filled, cs, statement, ih, Piece.written]
  | case4 line rest loops cs filled slot named loop found ih =>
      simp [placeLoops, filled, cs, named, takeSlot_map, found, ih, Piece.written, placedLoop]
  | case5 line rest loops cs filled slot named none ih =>
      simp [placeLoops, filled, cs, named, takeSlot_map, none, ih]

end Lines

/-- **The lines of a body** are those of its pieces. -/
theorem bodyLines_succ (graph : CodeGraph) (scope : Scope) (fuel : Nat) (node : Node) :
    bodyLines graph scope (fuel + 1) node = (bodyPieces graph node).flatMap (·.written scope
      fun loop => block (loopFrame loop scope) (bodyLines graph scope fuel loop)) :=
  placeLoops_map scope _ _

end Transcode.Output
