import Transcode.Proofs.Encoding
import Transcode.Proofs.OutlineNodes
import Transcode.Proofs.SlotQueues

/-!
# What the lines of bodies are written for

Each line of a body is written for an item at a level of nesting: a statement, the start, middle or
end of a block or branch, or a loop, whose own body stands elsewhere. The items of a syntax tree are
defined on the tree alone; its statements are encoded as the lines of these items
(`encodes_encodeStatement`), and so the bodies of its graph are those of the tree
(`bodies_buildGraph`).
-/

namespace Transcode

open Text Output

/-! ### Items of bodies -/

/-- What a line of a body is written for. Loops are numbered in the order of their lines. -/
inductive BodyItem where
  | statement (text : String)
  | block (label : Option String)
  | branch (label : Option String) (condition : String)
  | alternative
  | close
  | loop
  deriving DecidableEq, Repr

/-- The items of a body, each at its level of nesting. -/
abbrev BodyItems := List (Nat × BodyItem)

namespace BodyItem

/-- A label with its colon in front of a text. -/
def labelled (label : Option String) (text : String) : String :=
  match label with
  | some label => label ++ ": " ++ text
  | none => text

/-- The code of an item, if it is not that of a loop. -/
def code? : BodyItem → Option String
  | .statement text => some text
  | .block label => some (labelled label "\x7b")
  | .branch label condition => some (labelled label ("if (" ++ condition ++ ") \x7b"))
  | .alternative => some "\x7d else \x7b"
  | .close => some "\x7d"
  | .loop => none

end BodyItem

/-- The lines that items are read as, loops with the slots from a number on. -/
def readings : Nat → BodyItems → List BodyLine
  | _, [] => []
  | slot, (level, item) :: rest =>
    match item.code? with
    | some text => .code level text :: readings slot rest
    | none => .slot level (toString slot) :: readings (slot + 1) rest

/-- The number of loops among items. -/
def loopCount (items : BodyItems) : Nat := items.countP (·.2.code?.isNone)

/-- Items take slots one after another. -/
theorem readings_append (slot : Nat) (items others : BodyItems) :
    readings slot (items ++ others) =
      readings slot items ++ readings (slot + loopCount items) others := by
  induction items generalizing slot with
  | nil => rfl
  | cons entry rest ih =>
      rw [List.cons_append, readings, readings, loopCount, List.countP_cons]
      cases code : entry.2.code? with
      | some text => exact congrArg (_ :: ·) (ih slot)
      | none =>
          refine congrArg (_ :: ·) ((ih (slot + 1)).trans ?_)
          rw [Nat.add_right_comm]
          rfl

theorem loopCount_append (items others : BodyItems) :
    loopCount (items ++ others) = loopCount items + loopCount others := List.countP_append

/-- A line of a body as it is written. -/
def Output.BodyLine.written : BodyLine → String
  | .code level text => bodyPad level ++ text
  | .slot level name => bodyPad level ++ loopMark ++ name

/-- The text of a body. -/
def bodyText (items : BodyItems) : String :=
  "\n".intercalate ((readings 0 items).map (·.written))

namespace SyntaxTree

mutual

/-- The items of a statement at a level; a block that is a branch stands without braces. -/
def items (isBranch : Bool) (level : Nat) : SyntaxTree → BodyItems
  | ⟨kind, _, children, _, attributes⟩ =>
    match kind with
    | .statement | .returnStmt => [(level, .statement (attributes.textAt "text"))]
    | .block =>
      if isBranch then itemsOf level children
      else (level, .block (attributes.get? "label")) :: itemsOf (level + 1) children ++
        [(level, .close)]
    | .branch =>
      (level, .branch (attributes.get? "label") (attributes.textAt "condition")) ::
        (branchItems 0 (level + 1) children).getD [] ++
        ((branchItems 1 (level + 1) children).map ((level, .alternative) :: ·)).getD [] ++
        [(level, .close)]
    | .forLoop | .whileLoop | .doLoop => [(level, .loop)]
    | _ => []

/-- The items of several statements. -/
def itemsOf (level : Nat) : List SyntaxTree → BodyItems
  | [] => []
  | tree :: rest => items false level tree ++ itemsOf level rest

/-- The items of the branch with a given number: calls in the condition are no branches. -/
def branchItems (number level : Nat) : List SyntaxTree → Option BodyItems
  | [] => none
  | tree :: rest =>
    if tree.kind = .call then branchItems number level rest
    else match number with
      | 0 => some (items true level tree)
      | number + 1 => branchItems number level rest

end

mutual

/-- The bodies of the loops in a statement, each before those of the loops inside it. -/
def loopBodies : SyntaxTree → List BodyItems
  | ⟨kind, _, children, _, _⟩ =>
    match kind with
    | .block => loopBodiesOf children
    | .branch => branchLoopBodies 0 children ++ branchLoopBodies 1 children
    | .forLoop | .whileLoop | .doLoop =>
      (branchItems 0 0 children).getD [] :: branchLoopBodies 0 children
    | _ => []

/-- The bodies of the loops in several statements. -/
def loopBodiesOf : List SyntaxTree → List BodyItems
  | [] => []
  | tree :: rest => loopBodies tree ++ loopBodiesOf rest

/-- The bodies of the loops in the branch with a given number. -/
def branchLoopBodies (number : Nat) : List SyntaxTree → List BodyItems
  | [] => []
  | tree :: rest =>
    if tree.kind = .call then branchLoopBodies number rest
    else match number with
      | 0 => loopBodies tree
      | number + 1 => branchLoopBodies number rest

end

/-- The bodies in a method or constructor: its own and those of its loops. -/
def callableBodies (tree : SyntaxTree) : List BodyItems :=
  match (tree.childrenOf .block).head? with
  | some body => itemsOf 0 body.children :: loopBodiesOf body.children
  | none => []

mutual

/-- The bodies of all methods, constructors and loops in a declaration, in order. -/
def declaredBodies : SyntaxTree → List BodyItems
  | ⟨kind, name, children, range, attributes⟩ =>
    match kind with
    | .classDecl | .interfaceDecl => declaredBodiesOf children
    | .method | .constructor => callableBodies ⟨kind, name, children, range, attributes⟩
    | _ => []

/-- The bodies in several declarations. -/
def declaredBodiesOf : List SyntaxTree → List BodyItems
  | [] => []
  | tree :: rest => declaredBodies tree ++ declaredBodiesOf rest

end

/-- The bodies of all methods, constructors and loops in a tree. -/
def bodies (tree : SyntaxTree) : List BodyItems :=
  if tree.kind = .program then declaredBodiesOf tree.children else declaredBodies tree

end SyntaxTree

/-! ### Encoding of items -/

mutual

/-- The bodies of an outline and of those in it. -/
def Outline.bodies : Outline → List String
  | ⟨_, _, attributes, _, children⟩ => (attributes.get? "body").toList ++ bodiesOf children

/-- The bodies of several outlines. -/
def Outline.bodiesOf : List Outline → List String
  | [] => []
  | outline :: rest => outline.bodies ++ bodiesOf rest

end

/-- Bodies of outlines that follow one another follow one another. -/
theorem Outline.bodiesOf_append (outlines others : List Outline) :
    bodiesOf (outlines ++ others) = bodiesOf outlines ++ bodiesOf others := by
  induction outlines with
  | nil => rfl
  | cons outline rest ih => rw [List.cons_append, bodiesOf, bodiesOf, ih, List.append_assoc]

mutual

/-- The bodies of an outline are the texts of all constructs in it. -/
theorem Outline.bodies_eq : ∀ outline : Outline,
    outline.bodies = outline.all.filterMap (·.attributes.get? "body")
  | ⟨kind, label, attributes, callees, children⟩ => by
    unfold Outline.bodies Outline.all
    rw [bodiesOf_eq children, List.filterMap_cons]
    cases attributes.get? "body" <;> rfl

/-- The bodies of outlines are the texts of all constructs in them. -/
theorem Outline.bodiesOf_eq : ∀ outlines : List Outline,
    bodiesOf outlines = (allOf outlines).filterMap (·.attributes.get? "body")
  | [] => by
    unfold Outline.bodiesOf Outline.allOf
    rfl
  | outline :: rest => by
    unfold Outline.bodiesOf Outline.allOf
    rw [bodies_eq outline, bodiesOf_eq rest, List.filterMap_append]

end

namespace Encoded

/-- An encoding of items whose loops have their slots from a number on, and of the bodies of these
loops. -/
structure Encodes (encoded : Encoded) (slot : Nat) (items : BodyItems) (bodies : List BodyItems) :
    Prop where
  lines : encoded.lines = (readings slot items).map (·.written)
  slot : encoded.slot = slot + loopCount items
  bodies : Outline.bodiesOf encoded.loops = bodies.map bodyText

variable {encoded : Encoded} {slot level : Nat} {items others : BodyItems}
  {bodies further : List BodyItems}

theorem Encodes.none (slot : Nat) : (Encoded.none slot).Encodes slot [] [] := ⟨rfl, rfl, rfl⟩

/-- An item that is no loop, as a line. -/
theorem Encodes.line {item : BodyItem} {text : String} (code : item.code? = some text)
    (level slot : Nat) : Encodes ⟨[bodyPad level ++ text], [], slot⟩ slot [(level, item)] [] := by
  refine ⟨?_, ?_, rfl⟩
  · simp [readings, code, Output.BodyLine.written]
  · simp [loopCount, code]

/-- Items are encoded one after another. -/
theorem Encodes.append (encodes : encoded.Encodes slot items bodies) {next : Nat → Encoded}
    (later : (next encoded.slot).Encodes encoded.slot others further) :
    (encoded.append next).Encodes slot (items ++ others) (bodies ++ further) where
  lines := by
    rw [Encoded.append, encodes.lines, later.lines, encodes.slot, readings_append, List.map_append]
  slot := by
    rw [loopCount_append, ← Nat.add_assoc, ← encodes.slot]
    exact later.slot
  bodies := by
    rw [List.map_append, ← encodes.bodies, ← later.bodies]
    exact Outline.bodiesOf_append _ _

/-- Lines before and after an encoding. -/
theorem Encodes.within (encodes : encoded.Encodes slot items bodies) {before after : BodyItems}
    {first last : List String} (opens : Encodes ⟨first, [], slot⟩ slot before [])
    (closes : Encodes ⟨last, [], encoded.slot⟩ encoded.slot after []) :
    (encoded.within first last).Encodes slot (before ++ items ++ after) bodies := by
  have opened : Encodes (Encoded.append ⟨first, [], slot⟩ fun _ => encoded) slot (before ++ items)
      ([] ++ bodies) := opens.append encodes
  have whole : Encodes (Encoded.append _ fun slot => ⟨last, [], slot⟩) slot
      (before ++ items ++ after) ([] ++ bodies ++ []) := opened.append closes
  refine ⟨whole.lines, whole.slot, ?_⟩
  rw [← encodes.bodies]
  rfl

end Encoded

open Encoded (Encodes)

/-- A text behind a label is labelled. -/
theorem labelText_append (attributes : Attributes) (text : String) :
    labelText attributes ++ text = BodyItem.labelled (attributes.get? "label") text := by
  unfold labelText BodyItem.labelled
  cases attributes.get? "label" with
  | some label => rfl
  | none => exact String.empty_append

/-- The line of a loop, and the loop with its own body. -/
theorem encodes_loop (kind : SyntaxKind) (range : SourceRange) (attributes : Attributes)
    (level slot : Nat) {body : Encoded} {items : BodyItems} {bodies : List BodyItems}
    (encodes : body.Encodes 0 items bodies) :
    Encodes ⟨[bodyPad level ++ loopMark ++ toString slot],
      [loopOutline kind range attributes slot body], slot + 1⟩ slot [(level, .loop)]
        (items :: bodies) := by
  refine ⟨rfl, rfl, ?_⟩
  have own : body.text = bodyText items := congrArg ("\n".intercalate ·) encodes.lines
  rw [Outline.bodiesOf, Outline.bodiesOf, List.append_nil, loopOutline, Outline.bodies,
    Dict.get?_insert, if_pos rfl, own, encodes.bodies]
  rfl

mutual

/-- A statement is encoded as its items, and its loops as their bodies. -/
theorem encodes_encodeStatement : ∀ (isBranch : Bool) (level slot : Nat) (tree : SyntaxTree),
    (encodeStatement isBranch level slot tree).Encodes slot (tree.items isBranch level)
      tree.loopBodies
  | isBranch, level, slot, ⟨kind, name, children, range, attributes⟩ => by
    have branch (number level slot : Nat) :
        ((encodeBranch number level slot children).getD (.none slot)).Encodes slot
          ((SyntaxTree.branchItems number level children).getD [])
          (SyntaxTree.branchLoopBodies number children) := by
      rcases encodes_encodeBranch number level slot children with
        ⟨none, noItems, noBodies⟩ | ⟨encoded, items, made, isItems, encodes⟩
      · rw [none, noItems, noBodies]
        exact .none slot
      · rw [made, isItems]
        exact encodes
    unfold encodeStatement SyntaxTree.items SyntaxTree.loopBodies
    cases kind
    case statement | returnStmt => exact .line rfl level slot
    case block =>
      dsimp only
      split
      · exact encodes_encodeStatements level slot children
      · have opening : Encodes ⟨[bodyPad level ++ labelText attributes ++ "\x7b"], [], slot⟩ slot
            [(level, .block (attributes.get? "label"))] [] := by
          rw [String.append_assoc, labelText_append]
          exact .line rfl level slot
        exact (encodes_encodeStatements (level + 1) slot children).within opening
          (.line rfl level _)
    case branch =>
      have opening : Encodes ⟨[bodyPad level ++ labelText attributes ++ "if (" ++
          attributes.textAt "condition" ++ ") \x7b"], [], slot⟩ slot
            [(level, .branch (attributes.get? "label") (attributes.textAt "condition"))] [] := by
        simp only [String.append_assoc]
        rw [labelText_append]
        refine .line ?_ level slot
        rw [BodyItem.code?, String.append_assoc]
      have consequence := (branch 0 (level + 1) slot).within opening (.none _)
      rw [List.append_nil] at consequence
      refine (consequence.append ?_).within (.none _) (.line rfl level _)
      dsimp only [Encoded.within]
      rcases encodes_encodeBranch 1 (level + 1)
          ((encodeBranch 0 (level + 1) slot children).getD (.none slot)).slot children with
        ⟨none, noItems, noBodies⟩ | ⟨alternative, items, made, isItems, encodes⟩
      · rw [none, noItems, noBodies]
        exact .none _
      · rw [made, isItems]
        have between : BodyItem.alternative.code? = some "\x7d else \x7b" := rfl
        have whole := encodes.within (.line between level _) (.none _)
        rw [List.append_nil] at whole
        exact whole
    case forLoop | whileLoop | doLoop =>
      exact encodes_loop _ range attributes level slot (branch 0 0 0)
    all_goals exact .none slot

/-- Statements are encoded as their items. -/
theorem encodes_encodeStatements : ∀ (level slot : Nat) (trees : List SyntaxTree),
    (encodeStatements level slot trees).Encodes slot (SyntaxTree.itemsOf level trees)
      (SyntaxTree.loopBodiesOf trees)
  | _, slot, [] => by
    unfold encodeStatements SyntaxTree.itemsOf SyntaxTree.loopBodiesOf
    exact .none slot
  | level, slot, tree :: rest => by
    unfold encodeStatements SyntaxTree.itemsOf SyntaxTree.loopBodiesOf
    exact (encodes_encodeStatement false level slot tree).append
      (encodes_encodeStatements level _ rest)

/-- A branch that is there is encoded, and one that is not there has neither items nor loops. -/
theorem encodes_encodeBranch : ∀ (number level slot : Nat) (trees : List SyntaxTree),
    (encodeBranch number level slot trees = none ∧
      SyntaxTree.branchItems number level trees = none ∧
      SyntaxTree.branchLoopBodies number trees = []) ∨
    ∃ encoded items, encodeBranch number level slot trees = some encoded ∧
      SyntaxTree.branchItems number level trees = some items ∧
      encoded.Encodes slot items (SyntaxTree.branchLoopBodies number trees)
  | _, _, _, [] => by
    unfold encodeBranch SyntaxTree.branchItems SyntaxTree.branchLoopBodies
    exact .inl ⟨rfl, rfl, rfl⟩
  | number, level, slot, tree :: rest => by
    unfold encodeBranch SyntaxTree.branchItems SyntaxTree.branchLoopBodies
    split
    · exact encodes_encodeBranch number level slot rest
    · cases number with
      | zero => exact .inr ⟨_, _, rfl, rfl, encodes_encodeStatement true level slot tree⟩
      | succ number => exact encodes_encodeBranch number level slot rest

end

namespace Outline

theorem get?_body_declarationKeys (attributes : Attributes) (range : SourceRange) :
    (takeOver declarationKeys attributes range).get? "body" = none :=
  get?_takeOver_of_not_mem (by decide) (by decide) attributes range

/-- A field has no body. -/
theorem bodies_ofField {tree : SyntaxTree} {outline : Outline} (made : ofField tree = .ok outline) :
    outline.bodies = [] := by
  obtain ⟨name, _, made⟩ := bind_eq_ok_iff.mp made
  cases made
  rw [Outline.bodies, get?_body_declarationKeys]
  rfl

/-- A callable has its own body and those of its loops. -/
theorem bodies_ofCallable {kind : NodeKind} {tree : SyntaxTree} {outline : Outline}
    (made : ofCallable kind tree = .ok outline) :
    outline.bodies = tree.callableBodies.map bodyText := by
  obtain ⟨name, _, made⟩ := bind_eq_ok_iff.mp made
  dsimp only at made
  unfold SyntaxTree.callableBodies
  split at made <;> rename_i first <;> cases made <;> rw [first, Outline.bodies]
  · have bodiless :
        Dict.get? (if ((tree.childrenOf .parameter).filterMap parameterText).isEmpty then
        takeOver declarationKeys tree.attributes tree.range
      else (takeOver declarationKeys tree.attributes tree.range).insert "params"
        (", ".intercalate ((tree.childrenOf .parameter).filterMap parameterText))) "body" =
          none := by
      split
      · exact get?_body_declarationKeys _ _
      · rw [Dict.get?_insert, if_neg (by decide)]
        exact get?_body_declarationKeys _ _
    rw [bodiless]
    rfl
  · rename_i body
    have encodes := encodes_encodeStatements 0 0 body.children
    have own : (encodeStatements 0 0 body.children).text =
        bodyText (SyntaxTree.itemsOf 0 body.children) :=
      congrArg ("\n".intercalate ·) encodes.lines
    rw [Dict.get?_insert, if_pos rfl, own, encodes.bodies]
    rfl

/-- Outlines without bodies have none together. -/
theorem bodiesOf_eq_nil {outlines : List Outline}
    (none : ∀ outline ∈ outlines, outline.bodies = []) :
    bodiesOf outlines = [] := by
  induction outlines with
  | nil => rfl
  | cons outline rest ih =>
      obtain ⟨here, later⟩ := List.forall_mem_cons.mp none
      rw [bodiesOf, here, ih later, List.nil_append]

mutual

/-- A declaration has the bodies of its callables. -/
theorem bodiesOf_ofDeclaration : ∀ {tree : SyntaxTree} {outlines : List Outline},
    ofDeclaration tree = .ok outlines → bodiesOf outlines = tree.declaredBodies.map bodyText
  | ⟨kind, name, children, range, attributes⟩, outlines, made => by
    unfold ofDeclaration at made
    unfold SyntaxTree.declaredBodies
    cases kind
    case classDecl | interfaceDecl =>
      obtain ⟨label, _, made⟩ := bind_eq_ok_iff.mp made
      obtain ⟨members, read, made⟩ := bind_eq_ok_iff.mp made
      cases made
      rw [bodiesOf, bodiesOf, List.append_nil, Outline.bodies, get?_body_declarationKeys,
        bodiesOf_ofDeclarations read]
      rfl
    case method | constructor =>
      obtain ⟨outline, read, made⟩ := bind_eq_ok_iff.mp made
      cases made
      rw [bodiesOf, bodiesOf, List.append_nil]
      exact bodies_ofCallable read
    case field =>
      obtain ⟨outline, read, made⟩ := bind_eq_ok_iff.mp made
      cases made
      rw [bodiesOf, bodiesOf, List.append_nil]
      exact bodies_ofField read
    case block =>
      dsimp only at made
      split at made
      · refine bodiesOf_eq_nil fun outline member => ?_
        obtain ⟨_, _, read⟩ := exists_left_of_forall₂ (mapM_eq_ok_iff.mp made) outline member
        exact bodies_ofField read
      · cases made
        rfl
    all_goals
      cases made
      rfl

/-- Declarations have the bodies of their callables. -/
theorem bodiesOf_ofDeclarations : ∀ {trees : List SyntaxTree} {outlines : List Outline},
    ofDeclarations trees = .ok outlines →
      bodiesOf outlines = (SyntaxTree.declaredBodiesOf trees).map bodyText
  | [], outlines, made => by
    unfold ofDeclarations at made
    unfold SyntaxTree.declaredBodiesOf
    cases made
    rfl
  | tree :: rest, outlines, made => by
    unfold ofDeclarations at made
    unfold SyntaxTree.declaredBodiesOf
    obtain ⟨ofFirst, read, made⟩ := bind_eq_ok_iff.mp made
    obtain ⟨ofOthers, readOthers, made⟩ := bind_eq_ok_iff.mp made
    cases made
    rw [bodiesOf_append, bodiesOf_ofDeclaration read, bodiesOf_ofDeclarations readOthers,
      List.map_append]

end

/-- The outlines of a tree have the bodies of the tree. -/
theorem bodiesOf_ofTree {tree : SyntaxTree} {outlines : List Outline}
    (made : ofTree tree = .ok outlines) : bodiesOf outlines = tree.bodies.map bodyText := by
  unfold ofTree at made
  unfold SyntaxTree.bodies
  split at made <;> rename_i isProgram
  · rw [if_pos isProgram]
    exact bodiesOf_ofDeclarations made
  · rw [if_neg isProgram]
    exact bodiesOf_ofDeclaration made

end Outline

/-! ### Bodies of a graph -/

/-- The bodies of a graph, in the order in which their nodes were created. -/
def CodeGraph.bodies (graph : CodeGraph) : List String := graph.nodes.filterMap (·.get? "body")

/-- **The bodies of a built graph** are those of the syntax tree. -/
theorem bodies_buildGraph {tree : SyntaxTree} {graph : CodeGraph}
    (built : buildGraph tree = .ok graph) : graph.bodies = tree.bodies.map bodyText := by
  obtain ⟨outlines, made, nodes⟩ := nodes_buildGraph built
  have ofSpecs :
      graph.bodies = (graph.nodes.map Node.spec).filterMap (·.attributes.get? "body") := by
    rw [List.filterMap_map]
    rfl
  rw [ofSpecs, nodes, List.filterMap_map, ← Outline.bodiesOf_ofTree made, Outline.bodiesOf_eq]
  rfl

end Transcode
