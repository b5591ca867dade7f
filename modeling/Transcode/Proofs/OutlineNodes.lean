import Transcode.Proofs.Application
import Transcode.Proofs.Declarations
import Transcode.Proofs.Numbering

/-!
# Outlines as nodes

The nodes of a graph are the outlines of its syntax tree, in the order in which they are met
(`nodes_buildGraph`). Among them the methods and constructors of the tree are all the callables, in
the order of the tree (`callables_buildGraph`).
-/

namespace Transcode

/-! ### Outlines in order -/

namespace Outline

mutual

/-- An outline and all that are in it, each before those in it. -/
def all : Outline → List Outline
  | ⟨kind, label, attributes, callees, children⟩ =>
    ⟨kind, label, attributes, callees, children⟩ :: allOf children

/-- Several outlines and all that are in them. -/
def allOf : List Outline → List Outline
  | [] => []
  | outline :: rest => all outline ++ allOf rest

end

/-- What an outline is apart from those in it. -/
def spec (outline : Outline) : NodeSpec := ⟨outline.kind, outline.label, outline.attributes⟩

/-- The constructs of outlines follow one another. -/
theorem allOf_append (outlines others : List Outline) :
    allOf (outlines ++ others) = allOf outlines ++ allOf others := by
  induction outlines with
  | nil => rfl
  | cons outline rest ih => rw [List.cons_append, allOf, allOf, ih, List.append_assoc]

theorem allOf_singleton (outline : Outline) : allOf [outline] = outline.all := by
  rw [allOf, allOf, List.append_nil]

theorem all_eq (outline : Outline) : outline.all = outline :: allOf outline.children := by
  obtain ⟨kind, label, attributes, callees, children⟩ := outline
  rw [all]

end Outline

namespace Draft

variable {draft : Draft}

/-- A construct is added as the last node. -/
theorem specs_withConstruct (owner : Option String) (outline : Outline) :
    (draft.withConstruct owner outline).2.graph.nodes.map Node.spec =
      draft.graph.nodes.map Node.spec ++ [outline.spec] := by
  have added : (draft.graph.addNode outline.kind outline.label outline.attributes).2.nodes.map
      Node.spec = draft.graph.nodes.map Node.spec ++ [outline.spec] := List.map_append
  cases owner with
  | none => exact added
  | some owner =>
      refine Eq.trans ?_ added
      exact congrArg (List.map Node.spec) (nodes_linked ..)

mutual

/-- The constructs of an outline are added in their order. -/
theorem specs_placed : ∀ (outline : Outline) (draft : Draft) (owner : Option String),
    (draft.placed owner outline).graph.nodes.map Node.spec =
      draft.graph.nodes.map Node.spec ++ outline.all.map Outline.spec
  | ⟨kind, label, attributes, callees, children⟩, draft, owner => by
    unfold placed Outline.all
    rw [specs_placedAll children, specs_withConstruct, List.append_assoc]
    rfl

/-- The constructs of outlines are added in their order. -/
theorem specs_placedAll : ∀ (outlines : List Outline) (draft : Draft) (owner : Option String),
    (draft.placedAll owner outlines).graph.nodes.map Node.spec =
      draft.graph.nodes.map Node.spec ++ (Outline.allOf outlines).map Outline.spec
  | [], _, _ => by
    unfold placedAll Outline.allOf
    exact (List.append_nil _).symm
  | outline :: rest, draft, owner => by
    unfold placedAll Outline.allOf
    rw [specs_placedAll rest, specs_placed outline, List.append_assoc, List.map_append]

end

/-- Steps that add no node add none in a loop. -/
theorem nodes_foldl {α : Type} {step : Draft → α → Draft}
    (kept : ∀ draft item, (step draft item).graph.nodes = draft.graph.nodes) (items : List α) :
    (items.foldl step draft).graph.nodes = draft.graph.nodes :=
  List.foldlRecOn (motive := fun linked : Draft => linked.graph.nodes = draft.graph.nodes) items
    step rfl fun linked same item _ => (kept linked item).trans same

end Draft

/-- **The nodes of a graph** are the outlines of its tree. -/
theorem nodes_buildGraph {tree : SyntaxTree} {graph : CodeGraph}
    (built : buildGraph tree = .ok graph) : ∃ outlines, Outline.ofTree tree = .ok outlines ∧
      graph.nodes.map Node.spec = (Outline.allOf outlines).map Outline.spec := by
  rw [buildGraph_eq] at built
  split at built
  · rename_i outlines made
    cases built
    refine ⟨outlines, made, ?_⟩
    rw [Draft.withSupertypes, Draft.nodes_foldl fun _ _ => Draft.nodes_linked .., Draft.withCalls,
      Draft.nodes_foldl fun _ _ => Draft.nodes_linked .., Draft.specs_placedAll]
    rfl
  · cases built

/-! ### Loops -/

mutual

/-- The loops of a statement hold nothing but loops. -/
theorem isLoop_encodeStatement : ∀ (isBranch : Bool) (depth slot : Nat) (tree : SyntaxTree),
    ∀ outline ∈ Outline.allOf (encodeStatement isBranch depth slot tree).loops,
      outline.kind = .loop
  | isBranch, depth, slot, ⟨kind, name, children, range, attributes⟩ => by
    have branch (number depth slot : Nat) :
        ∀ outline ∈ Outline.allOf ((encodeBranch number depth slot children).getD
          (.none slot)).loops, outline.kind = .loop := by
      cases made : encodeBranch number depth slot children with
      | none => exact List.forall_mem_nil _
      | some encoded => exact isLoop_encodeBranch number depth slot children encoded made
    unfold encodeStatement
    cases kind
    case block =>
      dsimp only
      split
      · exact isLoop_encodeStatements depth slot children
      · exact isLoop_encodeStatements (depth + 1) slot children
    case branch =>
      dsimp only [Encoded.within, Encoded.append]
      rw [Outline.allOf_append]
      refine List.forall_mem_append.mpr ⟨branch 0 (depth + 1) slot, ?_⟩
      split
      · rename_i alternative made
        exact isLoop_encodeBranch 1 (depth + 1) _ children alternative made
      · exact List.forall_mem_nil _
    case forLoop | whileLoop | doLoop =>
      rw [Outline.allOf_singleton, Outline.all_eq]
      exact List.forall_mem_cons.mpr ⟨rfl, branch 0 0 0⟩
    all_goals exact List.forall_mem_nil _

/-- The loops of statements are loops. -/
theorem isLoop_encodeStatements : ∀ (depth slot : Nat) (trees : List SyntaxTree),
    ∀ outline ∈ Outline.allOf (encodeStatements depth slot trees).loops, outline.kind = .loop
  | _, _, [] => by
    unfold encodeStatements
    exact List.forall_mem_nil _
  | depth, slot, tree :: rest => by
    unfold encodeStatements
    dsimp only [Encoded.append]
    rw [Outline.allOf_append]
    exact List.forall_mem_append.mpr ⟨isLoop_encodeStatement false depth slot tree,
      isLoop_encodeStatements depth _ rest⟩

/-- The loops of a branch are loops. -/
theorem isLoop_encodeBranch : ∀ (number depth slot : Nat) (trees : List SyntaxTree),
    ∀ encoded, encodeBranch number depth slot trees = some encoded →
      ∀ outline ∈ Outline.allOf encoded.loops, outline.kind = .loop
  | _, _, _, [], encoded, made => by
    unfold encodeBranch at made
    cases made
  | number, depth, slot, tree :: rest, encoded, made => by
    unfold encodeBranch at made
    split at made
    · exact isLoop_encodeBranch number depth slot rest encoded made
    · cases number with
      | zero =>
          cases made
          exact isLoop_encodeStatement true depth slot tree
      | succ number => exact isLoop_encodeBranch number depth slot rest encoded made

end

/-! ### Callables -/

namespace SyntaxTree

mutual

/-- The methods and constructors in a declaration, in order. -/
def declaredCallables : SyntaxTree → List SyntaxTree
  | ⟨kind, name, children, range, attributes⟩ =>
    match kind with
    | .classDecl | .interfaceDecl => declaredCallablesOf children
    | .method | .constructor => [⟨kind, name, children, range, attributes⟩]
    | _ => []

/-- The methods and constructors in several declarations. -/
def declaredCallablesOf : List SyntaxTree → List SyntaxTree
  | [] => []
  | tree :: rest => declaredCallables tree ++ declaredCallablesOf rest

end

/-- The methods and constructors in a tree. -/
def callables (tree : SyntaxTree) : List SyntaxTree :=
  if tree.kind = .program then declaredCallablesOf tree.children else declaredCallables tree

/-- A method or constructor has an outline with some content. -/
def IsOutlinedAs (tree : SyntaxTree) (content : NodeSpec) : Prop :=
  ∃ outline, Outline.ofCallable content.kind tree = .ok outline ∧ outline.spec = content

end SyntaxTree

namespace Outline

open SyntaxTree

/-- The callables among outlines and those in them. -/
def callableSpecs (outlines : List Outline) : List NodeSpec :=
  ((allOf outlines).map spec).filter (·.kind.isCallable)

theorem callableSpecs_append (outlines others : List Outline) :
    callableSpecs (outlines ++ others) = callableSpecs outlines ++ callableSpecs others := by
  simp [callableSpecs, allOf_append]

/-- A method or constructor holds no other one. -/
theorem callableSpecs_ofCallable {kind : NodeKind} {tree : SyntaxTree} {outline : Outline}
    (isCallable : kind.isCallable) (made : ofCallable kind tree = .ok outline) :
    callableSpecs [outline] = [outline.spec] ∧ tree.IsOutlinedAs outline.spec := by
  have parts : outline.kind = kind ∧ ∀ other ∈ allOf outline.children, other.kind = .loop := by
    obtain ⟨name, _, made⟩ := bind_eq_ok_iff.mp made
    dsimp only at made
    split at made <;> cases made
    · exact ⟨rfl, List.forall_mem_nil _⟩
    · exact ⟨rfl, isLoop_encodeStatements 0 0 _⟩
  obtain ⟨isKind, loops⟩ := parts
  have none : ((allOf outline.children).map spec).filter (·.kind.isCallable) = [] := by
    refine List.filter_eq_nil_iff.mpr fun content member => ?_
    obtain ⟨other, listed, rfl⟩ := List.mem_map.mp member
    rw [spec, loops other listed]
    exact Bool.false_ne_true
  have here : outline.spec.kind.isCallable := by rwa [spec, isKind]
  refine ⟨?_, outline, ?_, rfl⟩
  · rw [callableSpecs, allOf_singleton, all_eq, List.map_cons, List.filter_cons, if_pos here, none]
  · rwa [spec, isKind]

/-- A field is no callable. -/
theorem callableSpecs_ofField {tree : SyntaxTree} {outline : Outline}
    (made : ofField tree = .ok outline) : callableSpecs [outline] = [] := by
  obtain ⟨name, _, made⟩ := bind_eq_ok_iff.mp made
  cases made
  rfl

/-- Outlines without callables have none together. -/
theorem callableSpecs_eq_nil {outlines : List Outline}
    (none : ∀ outline ∈ outlines, callableSpecs [outline] = []) : callableSpecs outlines = [] := by
  induction outlines with
  | nil => rfl
  | cons outline rest ih =>
      obtain ⟨here, later⟩ := List.forall_mem_cons.mp none
      rw [← List.singleton_append, callableSpecs_append, here, ih later, List.append_nil]

mutual

/-- The callables of a declaration are outlined in their order. -/
theorem callables_ofDeclaration : ∀ {tree : SyntaxTree} {outlines : List Outline},
    ofDeclaration tree = .ok outlines →
      List.Forall₂ IsOutlinedAs tree.declaredCallables (callableSpecs outlines)
  | ⟨kind, name, children, range, attributes⟩, outlines, made => by
    have callable {kind : NodeKind} {tree : SyntaxTree} {outline : Outline}
        (isCallable : kind.isCallable) (read : ofCallable kind tree = .ok outline) :
        List.Forall₂ IsOutlinedAs [tree] (callableSpecs [outline]) := by
      obtain ⟨same, outlined⟩ := callableSpecs_ofCallable isCallable read
      rw [same]
      exact .cons outlined .nil
    unfold ofDeclaration at made
    unfold declaredCallables
    cases kind
    case classDecl | interfaceDecl =>
      obtain ⟨label, _, made⟩ := bind_eq_ok_iff.mp made
      obtain ⟨members, read, made⟩ := bind_eq_ok_iff.mp made
      cases made
      have inside := callables_ofDeclarations read
      rw [callableSpecs, allOf_singleton, all_eq]
      exact inside
    case method | constructor =>
      obtain ⟨outline, read, made⟩ := bind_eq_ok_iff.mp made
      cases made
      exact callable rfl read
    case field =>
      obtain ⟨outline, read, made⟩ := bind_eq_ok_iff.mp made
      cases made
      rw [callableSpecs_ofField read]
      exact .nil
    case block =>
      dsimp only at made
      split at made
      · rw [callableSpecs_eq_nil fun outline member => ?_]
        · exact .nil
        · obtain ⟨_, _, read⟩ := exists_left_of_forall₂ (mapM_eq_ok_iff.mp made) outline member
          exact callableSpecs_ofField read
      · cases made
        exact .nil
    all_goals
      cases made
      exact .nil

/-- The callables of declarations are outlined in their order. -/
theorem callables_ofDeclarations : ∀ {trees : List SyntaxTree} {outlines : List Outline},
    ofDeclarations trees = .ok outlines →
      List.Forall₂ IsOutlinedAs (declaredCallablesOf trees) (callableSpecs outlines)
  | [], outlines, made => by
    unfold ofDeclarations at made
    unfold declaredCallablesOf
    cases made
    exact .nil
  | tree :: rest, outlines, made => by
    unfold ofDeclarations at made
    unfold declaredCallablesOf
    obtain ⟨ofFirst, read, made⟩ := bind_eq_ok_iff.mp made
    obtain ⟨ofOthers, readOthers, made⟩ := bind_eq_ok_iff.mp made
    cases made
    rw [callableSpecs_append]
    exact List.rel_append (callables_ofDeclaration read) (callables_ofDeclarations readOthers)

end

end Outline

/-- **The callables of a graph** are the methods and constructors of its tree. -/
theorem callables_buildGraph {tree : SyntaxTree} {graph : CodeGraph}
    (built : buildGraph tree = .ok graph) :
    List.Forall₂ (fun callable node => callable.IsOutlinedAs node.spec) tree.callables
      (graph.nodes.filter (·.kind.isCallable)) := by
  obtain ⟨outlines, made, specs⟩ := nodes_buildGraph built
  have same : (graph.nodes.filter (·.kind.isCallable)).map Node.spec =
      Outline.callableSpecs outlines := by
    rw [Outline.callableSpecs, ← specs, List.filter_map]
    rfl
  rw [← List.forall₂_map_right_iff, same]
  unfold Outline.ofTree at made
  unfold SyntaxTree.callables
  split at made <;> rename_i isProgram
  · rw [if_pos isProgram]
    exact Outline.callables_ofDeclarations made
  · rw [if_neg isProgram]
    exact Outline.callables_ofDeclaration made

end Transcode
