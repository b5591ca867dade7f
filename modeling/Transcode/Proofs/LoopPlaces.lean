import Transcode.Proofs.Legibility
import Transcode.Proofs.Loading
import Transcode.Proofs.Resettling

/-!
# Loops at their placeholders

In every graph of a source text, and in every graph that built-in rules and loading make of it, the
lines of each body that stand for a loop and the loops that the node contains belong together one by
one (`loops_at_placeholders`). So the output writes a body line by line, with each loop at its own
placeholder.

The source may not say the mark of a loop at the start of a statement, since the mark would then be
read as a placeholder.
-/

namespace Transcode

open Text

namespace Output

/-! ### Bodies line by line -/

/-- The piece that a line of a body is, if there is a loop for every slot. -/
def linePiece? (loopAt : String → Node) (line : String) : Option Piece :=
  if isBlankText line then none
  else some ((slotOf? line.toList).elim
    (.statement (lineLevel line.toList) (String.ofList (trimStart line.toList)))
    fun slot => .loop (lineLevel line.toList) (loopAt slot))

/-- A blank line is no placeholder. -/
theorem slotOf?_of_isBlankText {line : String} (blank : isBlankText line) :
    slotOf? line.toList = none := by
  rw [slotOf?, trimStart_of_forall (List.all_eq_true.mp blank)]
  rfl

/-- If the slots of the loops are those of the lines, every line is a piece of its own. -/
theorem pieces_eq {loopAt : String → Node} {body : List String} {loops : List Node}
    (own : ∀ loop ∈ loops, loopAt (loop.textAt "slot") = loop)
    (slots : (loops.map (·.textAt "slot")).Perm (body.filterMap fun line => slotOf? line.toList)) :
    pieces body loops = body.filterMap (linePiece? loopAt) := by
  fun_induction pieces body loops with
  | case1 loops =>
      obtain rfl := List.map_eq_nil_iff.mp slots.eq_nil
      rfl
  | case2 line rest loops blank ih =>
      rw [List.filterMap_cons_none (f := fun line : String => slotOf? line.toList)
        (slotOf?_of_isBlankText blank)] at slots
      have here : linePiece? loopAt line = none := if_pos blank
      rw [List.filterMap_cons_none here, ih own slots]
  | case3 line rest loops cs filled statement ih =>
      rw [List.filterMap_cons_none (f := fun line : String =>
        slotOf? line.toList) statement] at slots
      have here : linePiece? loopAt line =
          some (.statement (lineLevel cs) (String.ofList (trimStart cs))) := by
        rw [linePiece?, if_neg filled, statement]
        rfl
      rw [List.filterMap_cons_some here, ih own slots]
  | case4 line rest loops cs filled slot named loop found ih =>
      have passes : isAt slot loop := List.find?_some found
      have isSlot : loop.textAt "slot" = slot := of_decide_eq_true passes
      have here : linePiece? loopAt line = some (.loop (lineLevel cs) loop) := by
        rw [linePiece?, if_neg filled, named, ← own loop (List.mem_of_find?_eq_some found), isSlot]
        rfl
      have left := ((perm_cons_eraseP found).map (·.textAt "slot")).symm.trans slots
      rw [List.map_cons, isSlot,
        List.filterMap_cons_some (f := fun line : String => slotOf? line.toList) named] at left
      rw [List.filterMap_cons_some here, ih (fun other member =>
        own other (List.mem_of_mem_eraseP member)) left.cons_inv]
  | case5 line rest loops cs filled slot named none ih =>
      rw [List.filterMap_cons_some (f := fun line : String => slotOf? line.toList) named] at slots
      obtain ⟨loop, member, isSlot⟩ := List.mem_map.mp (slots.mem_iff.mpr List.mem_cons_self)
      exact absurd (decide_eq_true isSlot) (List.find?_eq_none.mp none loop member)

/-- More depth than there are nodes makes no difference to a body. -/
theorem bodyLines_eq {graph : CodeGraph} {node : Node} {fuel : Nat} (wellFormed : graph.WellFormed)
    (acyclic : graph.Acyclic) (there : node ∈ graph.nodes) (enough : graph.nodeCount ≤ fuel)
    (scope : Scope) :
    bodyLines graph scope fuel node = bodyLines graph scope graph.nodeCount node := by
  obtain ⟨course, ran⟩ := (Room.start there).exists_bodyCourse wellFormed acyclic scope
  rw [← lines_of_bodyCourse ran enough, ← lines_of_bodyCourse ran (Nat.le_refl _)]

/-- **A body** is written as its pieces, and the loops in it as loops with their whole bodies. -/
theorem bodyLines_full {graph : CodeGraph} {node : Node} (wellFormed : graph.WellFormed)
    (acyclic : graph.Acyclic) (scope : Scope) :
    bodyLines graph scope (graph.nodeCount + 1) node =
      (bodyPieces graph node).flatMap (·.written scope fun loop =>
        block (loopFrame loop scope) (bodyLines graph scope (graph.nodeCount + 1) loop)) := by
  rw [bodyLines_succ]
  refine List.flatMap_congr fun piece member => ?_
  cases piece with
  | statement level text => rfl
  | loop level loop =>
      have isLoop : loop ∈ loopsOf graph node :=
        (loops_pieces _ _).mem_iff.mp (List.mem_filterMap.mpr ⟨_, member, rfl⟩)
      have there := ((mem_children_iff wellFormed).mp (List.mem_of_mem_filter isLoop)).1
      rw [Piece.written, Piece.written,
        bodyLines_eq wellFormed acyclic there (Nat.le_succ _) scope]

end Output

/-! ### The loops of a body -/

namespace CodeGraph.PlacesLoops

variable {graph : CodeGraph} {node : Node} (places : graph.PlacesLoops node)

include places

/-- The slots of the loops of a node are its placeholders. -/
theorem map_slot_perm :
    ((Output.loopsOf graph node).map (·.textAt "slot")).Perm node.placeholders := by
  have slots := places.perm.map fun slot : Option String => slot.getD ""
  rw [loopSlots, List.map_map, List.map_map] at slots
  exact slots.trans (.of_eq (List.map_id _))

/-- There is a loop for each placeholder, and the body is written with it there. -/
theorem exists_loopAt : ∃ loopAt : String → Node,
    (Output.loopsOf graph node).Perm (node.placeholders.map loopAt) ∧
    (∀ slot ∈ node.placeholders, (loopAt slot).get? "slot" = some slot) ∧
    Output.bodyPieces graph node =
      (lines (node.textAt "body")).filterMap (Output.linePiece? loopAt) := by
  let loopAt (slot : String) : Node :=
    ((Output.loopsOf graph node).find? (Output.isAt slot)).getD node
  have distinct : ((Output.loopsOf graph node).map (·.textAt "slot")).Nodup :=
    places.map_slot_perm.nodup_iff.mpr places.nodup
  have isAt : ∀ loop ∈ Output.loopsOf graph node, loopAt (loop.textAt "slot") = loop := by
    intro loop member
    have found : (Output.loopsOf graph node).find? (Output.isAt (loop.textAt "slot")) = some loop :=
      (find?_key_eq_some_iff (fun loop : Node => loop.textAt "slot") distinct).mpr ⟨member, rfl⟩
    simp only [loopAt, found, Option.getD_some]
  have loops : (node.placeholders.map loopAt).Perm (Output.loopsOf graph node) := by
    refine (places.map_slot_perm.symm.map loopAt).trans (.of_eq ?_)
    rw [List.map_map]
    exact List.map_congr_left isAt |>.trans (List.map_id _)
  refine ⟨loopAt, loops.symm, fun slot member => ?_, Output.pieces_eq isAt places.map_slot_perm⟩
  obtain ⟨loop, isLoop, named⟩ :=
    List.mem_map.mp (places.perm.mem_iff.mpr (List.mem_map_of_mem member))
  have isSlot : loop.textAt "slot" = slot := congrArg (·.getD "") named
  rw [← isSlot, isAt loop isLoop, isSlot]
  exact named

end CodeGraph.PlacesLoops

/-! ### Sessions with built-in rules -/

theorem Builtin.valid_of_mem_rules : ∀ rule ∈ rules, rule.Valid := fun _ => catalog.valid_of_mem

namespace Operation

variable {graph : CodeGraph}

/-- An operation rewrites a graph by built-in rules, or loads it as it was written. -/
def IsBuiltin (graph : CodeGraph) : Operation → Prop
  | .applyMatch rule found => rule ∈ Builtin.rules ∧ found.OccursIn rule graph
  | .applyRule catalog id => ∀ rule, catalog.rule? id = some rule → rule ∈ Builtin.rules
  | .transform rules _ => rules ⊆ Builtin.rules
  | .transformApart rules _ => rules ⊆ Builtin.rules
  | .reload => True
  | _ => False

/-- **One operation** with built-in rules leaves the bodies standing for their loops. -/
theorem housed_run (housed : graph.Housed) {operation : Operation}
    (builtin : operation.IsBuiltin graph) : (operation.run graph).2.Housed := by
  have valid {rules : List Rule} (known : rules ⊆ Builtin.rules) : ∀ rule ∈ rules, rule.Valid :=
    fun rule member => Builtin.valid_of_mem_rules rule (known member)
  have keeps {rules : List Rule} (known : rules ⊆ Builtin.rules) :
      ∀ rule ∈ rules, rule.KeepsLoops :=
    fun rule member => Builtin.keepsLoops_of_mem rule (known member)
  have separate {rules : List Rule} (known : rules ⊆ Builtin.rules) :
      rules.any (·.crossDeclaration) = false := by
    have local_ : ∀ rule ∈ Builtin.rules, rule.crossDeclaration = false := by decide
    exact List.any_eq_false.mpr fun rule member => by simp [local_ rule (known member)]
  cases operation with
  | applyMatch rule found =>
      obtain ⟨known, occurs⟩ := builtin
      exact housed.applyMatch (Builtin.valid_of_mem_rules rule known)
        (Builtin.keepsLoops_of_mem rule known) occurs
  | applyRule catalog id =>
      change (graph.applyRule catalog id).2.Housed
      unfold CodeGraph.applyRule
      split
      · exact housed
      · rename_i rule named
        split
        · exact housed
        · rename_i best rest matches_
          have valid := catalog.valid_of_mem (List.mem_of_find?_eq_some named)
          have member := CodeGraph.mem_findMatchesOf_iff.mp (matches_ ▸ List.mem_cons_self)
          exact housed.applyMatch valid (Builtin.keepsLoops_of_mem rule (builtin rule named))
            (housed.wellFormed.occursIn_of_mem valid member)
  | transform rules mode =>
      obtain ⟨result, ran, after⟩ :=
        (housed.exists_transform (valid builtin) (keeps builtin) (separate builtin) mode).1
      rw [run, ran]
      exact after
  | transformApart rules mode =>
      obtain ⟨result, ran, after⟩ :=
        (housed.exists_transform (valid builtin) (keeps builtin) (separate builtin) mode).2
      rw [run, ran]
      exact after
  | reload =>
      have after := wellFormed_run housed.wellFormed .reload
      rw [run_reload housed.wellFormed] at after ⊢
      exact housed.reloaded after
  | _ => cases builtin

end Operation

/-- What becomes of a graph by operations with built-in rules, one after the other. -/
inductive CodeGraph.Becomes (start : CodeGraph) : CodeGraph → Prop where
  | refl : start.Becomes start
  | step {graph : CodeGraph} (before : start.Becomes graph) (operation : Operation)
    (builtin : operation.IsBuiltin graph) : start.Becomes (operation.run graph).2

/-- A graph that becomes another one keeps its loops housed. -/
theorem CodeGraph.Becomes.housed {start graph : CodeGraph} (becomes : start.Becomes graph)
    (housed : start.Housed) : graph.Housed := by
  induction becomes with
  | refl => exact housed
  | step _ operation builtin ih => exact Operation.housed_run ih builtin

/-! ### The result -/

/-- **Loops and placeholders.** Take the graph of a source text in which no statement starts with
the mark of a loop, and whatever becomes of it by operations with built-in rules. The slots that the
lines of a body stand for are different, and they are the slots of the loops that the node contains,
each that of one of them. So the body is written line by line: a line that stands for a slot as the
loop with that slot, with its own whole body inside, any other line as code, and nothing besides. -/
theorem loops_at_placeholders {source : String} {parsed : ParsedSource}
    (read : parseSource source = .ok parsed)
    (unmarked : parsed.tree.Everywhere SyntaxTree.IsUnmarked) {start graph : CodeGraph}
    (built : buildGraph parsed.tree = .ok start) (becomes : start.Becomes graph) {node : Node}
    (there : node ∈ graph.nodes) :
    node.placeholders.Nodup ∧
    ((Output.loopsOf graph node).map (·.get? "slot")).Perm (node.placeholders.map some) ∧
    ∃ loopAt : String → Node,
      (Output.loopsOf graph node).Perm (node.placeholders.map loopAt) ∧
      (∀ slot ∈ node.placeholders, (loopAt slot).get? "slot" = some slot) ∧
      ∀ scope, Output.bodyLines graph scope (graph.nodeCount + 1) node =
        ((lines (node.textAt "body")).filterMap (Output.linePiece? loopAt)).flatMap
          (·.written scope fun loop => Output.block (Output.loopFrame loop scope)
            (Output.bodyLines graph scope (graph.nodeCount + 1) loop)) := by
  have texts : parsed.tree.Everywhere SyntaxTree.MakesPlainLines :=
    ((everywhere_legible read).and unmarked).imp fun tree both => both.1.makesPlainLines both.2
  have housed : graph.Housed := becomes.housed
    ⟨(buildGraph_built built).wellFormed, buildGraph_forest built,
      buildGraph_loopsPlaced texts built⟩
  have places := housed.placed node there
  obtain ⟨loopAt, loops, slots, pieces⟩ := places.exists_loopAt
  refine ⟨places.nodup, places.perm, loopAt, loops, slots, fun scope => ?_⟩
  rw [Output.bodyLines_full housed.wellFormed housed.forest.acyclic, pieces]

/-- A method with a loop, which becomes a call of a method of the collection. -/
theorem loops_at_placeholders_forEach :
    let source := "class A \x7b void f() \x7b for (int x : xs) \x7b g(x); \x7d \x7d \x7d"
    ∃ (parsed : ParsedSource) (start : CodeGraph) (node : Node), parseSource source = .ok parsed ∧
      parsed.tree.Everywhere SyntaxTree.IsUnmarked ∧ buildGraph parsed.tree = .ok start ∧
      let graph := ((Operation.applyRule Builtin.catalog "rule-5").run start).2
      start.Becomes graph ∧ node ∈ graph.nodes ∧ node.textAt "body" = "@loop:0" ∧
      (graph.children node.id).map (·.kind) = [.arrayMethod] ∧ node.placeholders = ["0"] ∧
      ((Output.loopsOf graph node).map (·.get? "slot")).Perm [some "0"] := by
  intro source
  obtain ⟨parsed, read⟩ : ∃ parsed, parseSource source = .ok parsed :=
    exists_parseSource (by decide +kernel)
  have unmarked : (parseSource source).toOption.all fun parsed =>
      decide (parsed.tree.Everywhere SyntaxTree.IsUnmarked) := by
    decide +kernel
  have tested : (parseSource source).toOption.all fun parsed =>
      (buildGraph parsed.tree).toOption.any fun start =>
        let graph := ((Operation.applyRule Builtin.catalog "rule-5").run start).2
        graph.nodes.any fun node => decide (node.textAt "body" = "@loop:0" ∧
          (graph.children node.id).map (·.kind) = [.arrayMethod] ∧ node.placeholders = ["0"]) := by
    decide +kernel
  obtain ⟨start, built⟩ := exists_buildGraph read
  rw [read] at unmarked tested
  rw [Except.toOption, Option.all_some, built, Except.toOption, Option.any_some] at tested
  obtain ⟨node, there, shown⟩ := List.any_eq_true.mp tested
  obtain ⟨body, children, placeholders⟩ := of_decide_eq_true shown
  have free : parsed.tree.Everywhere SyntaxTree.IsUnmarked := of_decide_eq_true unmarked
  have becomes : start.Becomes ((Operation.applyRule Builtin.catalog "rule-5").run start).2 :=
    .step .refl _ fun _ named => List.mem_of_find?_eq_some named
  obtain ⟨_, perm, _⟩ := loops_at_placeholders read free built becomes there
  rw [placeholders] at perm
  exact ⟨parsed, start, node, read, free, built, becomes, there, body, children, placeholders, perm⟩

end Transcode
