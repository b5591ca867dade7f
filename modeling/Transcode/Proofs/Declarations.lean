import Transcode.Proofs.Drafts
import Transcode.Proofs.Lists
import Transcode.Proofs.Outcome
import Transcode.Proofs.Progress

/-!
# Names of declarations

A declaration has outlines exactly if it and all declarations in it have names
(`Outline.exists_ofDeclaration_iff`). So whatever a text is, there is a graph of what the parser
reads (`exists_buildGraph`): a declaration is made only where a token is read for its name, and no
token is empty.
-/

namespace Transcode

namespace SyntaxTree

/-- A tree with a name that is not empty. -/
def IsNamed (tree : SyntaxTree) : Prop := ∃ name, tree.name = some name ∧ name ≠ ""

mutual

/-- All declarations that an outline of the tree is made of have names: the types, their members and
so on, and each of the fields that are declared together. -/
def WellNamed : SyntaxTree → Prop
  | ⟨kind, name, children, range, attributes⟩ =>
    match kind with
    | .classDecl | .interfaceDecl => IsNamed ⟨kind, name, children, range, attributes⟩ ∧
        AllWellNamed children
    | .method | .constructor | .field => IsNamed ⟨kind, name, children, range, attributes⟩
    | .block => attributes.get? "declarators" ≠ none → ∀ child ∈ children, child.IsNamed
    | _ => True

/-- All declarations in several trees have names. -/
def AllWellNamed : List SyntaxTree → Prop
  | [] => True
  | tree :: rest => WellNamed tree ∧ AllWellNamed rest

end

variable {tree : SyntaxTree}

/-- Several trees are well named if each is. -/
theorem allWellNamed_iff {trees : List SyntaxTree} :
    AllWellNamed trees ↔ ∀ tree ∈ trees, tree.WellNamed := by
  induction trees with
  | nil => simp [AllWellNamed]
  | cons tree rest ih => rw [AllWellNamed, ih, List.forall_mem_cons]

end SyntaxTree

/-! ### Outlines -/

namespace Outline

open SyntaxTree

/-- A name is declared if it is there and not empty. -/
theorem declaredName_eq_ok_iff {tree : SyntaxTree} {name : String} :
    declaredName tree = .ok name ↔ tree.name = some name ∧ name ≠ "" := by
  unfold declaredName
  cases tree.name with
  | none => simp
  | some other =>
      change (if other.isEmpty then _ else _) = _ ↔ _
      by_cases empty : other.isEmpty
      · rw [if_pos empty, String.isEmpty_iff.mp empty]
        simp only [reduceCtorEq, Option.some.injEq, false_iff, not_and, not_not]
        exact Eq.symm
      · rw [if_neg empty, Except.ok.injEq, Option.some.injEq, iff_self_and]
        rintro rfl rfl
        exact empty (String.isEmpty_iff.mpr rfl)

theorem exists_declaredName_iff {tree : SyntaxTree} :
    (∃ name, declaredName tree = .ok name) ↔ tree.IsNamed := by
  simp only [declaredName_eq_ok_iff, IsNamed]

theorem exists_ofField_iff {tree : SyntaxTree} :
    (∃ outline, ofField tree = .ok outline) ↔ tree.IsNamed :=
  (exists_bind_eq_ok_iff fun _ => ⟨_, rfl⟩).trans exists_declaredName_iff

/-- A method or constructor has an outline if it is named. -/
theorem exists_ofCallable_iff {kind : NodeKind} {tree : SyntaxTree} :
    (∃ outline, ofCallable kind tree = .ok outline) ↔ tree.IsNamed := by
  refine (exists_bind_eq_ok_iff fun name => ?_).trans exists_declaredName_iff
  dsimp only
  split <;> exact ⟨_, rfl⟩

/-- Fields have outlines if all are named. -/
theorem exists_mapM_ofField_iff {trees : List SyntaxTree} :
    (∃ outlines, trees.mapM ofField = .ok outlines) ↔ ∀ tree ∈ trees, tree.IsNamed := by
  simp only [mapM_eq_ok_iff]
  constructor
  · rintro ⟨outlines, made⟩ tree member
    obtain ⟨outline, _, isOutline⟩ := exists_left_of_forall₂ made.flip tree member
    exact exists_ofField_iff.mp ⟨outline, isOutline⟩
  · intro named
    exact exists_forall₂ fun tree member => exists_ofField_iff.mpr (named tree member)

mutual

/-- A declaration has outlines if all that it declares is named. -/
theorem exists_ofDeclaration_iff : ∀ tree : SyntaxTree,
    (∃ outlines, ofDeclaration tree = .ok outlines) ↔ tree.WellNamed
  | ⟨kind, name, children, range, attributes⟩ => by
    unfold ofDeclaration WellNamed
    cases kind
    case classDecl | interfaceDecl =>
      rw [← exists_declaredName_iff, ← exists_ofDeclarations_iff children]
      constructor
      · rintro ⟨_, made⟩
        obtain ⟨label, named, made⟩ := bind_eq_ok_iff.mp made
        obtain ⟨members, read, _⟩ := bind_eq_ok_iff.mp made
        exact ⟨⟨label, named⟩, members, read⟩
      · rintro ⟨⟨label, named⟩, members, read⟩
        exact ⟨_, bind_eq_ok_iff.mpr ⟨label, named, bind_eq_ok_iff.mpr ⟨members, read, rfl⟩⟩⟩
    case method | constructor =>
      exact (exists_bind_eq_ok_iff fun _ => ⟨_, rfl⟩).trans exists_ofCallable_iff
    case field => exact (exists_bind_eq_ok_iff fun _ => ⟨_, rfl⟩).trans exists_ofField_iff
    case block =>
      dsimp only
      by_cases declares : attributes.get? "declarators" = none
      · rw [declares]
        exact iff_of_true ⟨_, rfl⟩ fun some => absurd rfl some
      · rw [if_pos (Option.isSome_iff_ne_none.mpr declares), exists_mapM_ofField_iff]
        exact ⟨fun named _ => named, fun named => named declares⟩
    all_goals exact iff_of_true ⟨_, rfl⟩ trivial

/-- Declarations have outlines if all that they declare is named. -/
theorem exists_ofDeclarations_iff : ∀ trees : List SyntaxTree,
    (∃ outlines, ofDeclarations trees = .ok outlines) ↔ AllWellNamed trees
  | [] => by
    unfold ofDeclarations AllWellNamed
    exact iff_of_true ⟨_, rfl⟩ trivial
  | tree :: rest => by
    unfold ofDeclarations AllWellNamed
    rw [← exists_ofDeclaration_iff tree, ← exists_ofDeclarations_iff rest]
    constructor
    · rintro ⟨_, made⟩
      obtain ⟨first, isFirst, made⟩ := bind_eq_ok_iff.mp made
      obtain ⟨others, areOthers, _⟩ := bind_eq_ok_iff.mp made
      exact ⟨⟨first, isFirst⟩, others, areOthers⟩
    · rintro ⟨⟨first, isFirst⟩, others, areOthers⟩
      exact ⟨first ++ others, bind_eq_ok_iff.mpr ⟨first, isFirst, bind_eq_ok_iff.mpr
        ⟨others, areOthers, rfl⟩⟩⟩

end

end Outline

/-! ### Trees of the parser -/

namespace SyntaxTree

variable {tree : SyntaxTree} {key text : String}

/-- Other texts than the mark of joint fields do not matter. -/
theorem wellNamed_put (other : key ≠ "declarators") :
    (tree.put key text).WellNamed ↔ tree.WellNamed := by
  obtain ⟨kind, name, children, range, attributes⟩ := tree
  cases kind
  case block =>
    have same : (attributes.insertNonempty key text).get? "declarators" =
        attributes.get? "declarators" := by
      unfold Dict.insertNonempty
      split
      · rfl
      · rw [Dict.get?_insert, if_neg other]
    unfold SyntaxTree.put WellNamed
    rw [same]
  all_goals exact Iff.rfl

/-- A fault declares nothing. -/
theorem wellNamed_of_fault (isFault : tree.kind = .fault) : tree.WellNamed := by
  obtain ⟨kind, name, children, range, attributes⟩ := tree
  subst isFault
  trivial

/-- A method or constructor declares its own name. -/
theorem wellNamed_of_callable (isCallable : tree.kind = .method ∨ tree.kind = .constructor)
    (named : tree.IsNamed) : tree.WellNamed := by
  obtain ⟨kind, name, children, range, attributes⟩ := tree
  rcases isCallable with rfl | rfl <;> exact named

/-- A field declares its own name. -/
theorem wellNamed_of_field (isField : tree.kind = .field) (named : tree.IsNamed) :
    tree.WellNamed := by
  obtain ⟨kind, name, children, range, attributes⟩ := tree
  subst isField
  exact named

/-- A type declares its own name and those of its members. -/
theorem wellNamed_of_type (isType : tree.kind = .classDecl ∨ tree.kind = .interfaceDecl)
    (named : tree.IsNamed) (members : ∀ child ∈ tree.children, child.WellNamed) :
    tree.WellNamed := by
  obtain ⟨kind, name, children, range, attributes⟩ := tree
  rcases isType with rfl | rfl <;> exact ⟨named, allWellNamed_iff.mpr members⟩

/-- A block that groups no fields. -/
theorem wellNamed_of_block (isBlock : tree.kind = .block) (plain : tree.attributes = ∅) :
    tree.WellNamed := by
  obtain ⟨kind, name, children, range, attributes⟩ := tree
  subst isBlock plain
  exact fun some => absurd rfl some

end SyntaxTree

/-- No token that is left is empty. -/
def Reading.Worded (reading : Reading) : Prop := ∀ token ∈ reading.rest, token.text ≠ ""

theorem Reading.Onward.worded {before after : Reading} (onward : before.Onward after)
    (worded : before.Worded) : after.Worded := fun token left => worded token (onward.mem left)

namespace Parser

open Reading SyntaxTree

theorem wellNamed_giveUp (message : String) (span : Span) (reading : Reading) :
    (giveUp message span reading).1.WellNamed := wellNamed_of_fault rfl

theorem wellNamed_recover (message : String) (reading : Reading) :
    (recover message reading).1.WellNamed := wellNamed_giveUp message _ reading

theorem wellNamed_emptyBlock (start : Position) (reading : Reading) :
    (emptyBlock start reading).WellNamed := wellNamed_of_block rfl rfl

theorem wellNamed_block (reading : Reading) : (block reading).1.WellNamed :=
  wellNamed_of_block rfl rfl

theorem wellNamed_putPreamble {preamble : Preamble} {tree : SyntaxTree} :
    (putPreamble preamble tree).WellNamed ↔ tree.WellNamed :=
  (wellNamed_put (by decide)).trans (wellNamed_put (by decide))

/-- Each declarator is a field with the name of its token. -/
theorem isField_of_mem_fieldsWithin (preamble : Preamble) (type : String) (fuel : Nat)
    {name : Token} {reading : Reading} (worded : reading.Worded) (named : name.text ≠ "") :
    ∀ field ∈ (fieldsWithin preamble type fuel name reading).1,
      field.kind = .field ∧ field.IsNamed := by
  fun_induction fieldsWithin preamble type fuel name reading with
  | case1 => exact List.forall_mem_nil _
  | case2 _ _ _ _ _ _ _ _ read _ _ _ next _ left _ _ _ readOthers ih =>
    have after := ((proceeds_initialValue _).onward.of_eq read).trans (onward_next _)
    have nextNamed : next.text ≠ "" :=
      after.worded worded next (left ▸ List.mem_cons_self)
    rw [readOthers] at ih
    exact List.forall_mem_cons.mpr ⟨⟨rfl, _, rfl, named⟩,
      ih ((after.trans (onward_next _)).worded worded) nextNamed⟩
  | case3 => exact List.forall_mem_singleton.mpr ⟨rfl, _, rfl, named⟩
  | case4 => exact List.forall_mem_singleton.mpr ⟨rfl, _, rfl, named⟩
  | case5 => exact List.forall_mem_singleton.mpr ⟨rfl, _, rfl, named⟩

/-- Fields that are put together are named. -/
theorem wellNamed_groupFields {fields : List SyntaxTree}
    (each : ∀ field ∈ fields, field.kind = .field ∧ field.IsNamed) (range : SourceRange) :
    (groupFields fields range).WellNamed := by
  unfold groupFields
  split
  · rename_i field
    obtain ⟨isField, named⟩ := each field List.mem_cons_self
    exact wellNamed_of_field isField named
  · exact fun _ field member => (each field member).2

/-- A member is named after its token, and a constructor after its class. -/
theorem wellNamed_plainMember {owner : String} (ownerNamed : owner ≠ "") (preamble : Preamble)
    (start : Position) {reading : Reading} (worded : reading.Worded) :
    (plainMember owner preamble start reading).1.WellNamed := by
  fun_cases plainMember owner preamble start reading with
  | case1 =>
    refine (wellNamed_put (by decide)).mpr (wellNamed_putPreamble.mpr ?_)
    exact wellNamed_of_callable (.inr rfl) ⟨owner, rfl, ownerNamed⟩
  | case2 => exact wellNamed_recover _ _
  | case3 => exact wellNamed_recover _ _
  | case4 => exact wellNamed_recover _ _
  | case5 _ _ generic _ _ _ _ typed name _ left =>
    have read := ((proceeds_angles reading).onward.of_eq generic).trans
      ((proceeds_typeText _).onward.of_eq typed)
    refine (wellNamed_put (by decide)).mpr (wellNamed_putPreamble.mpr ?_)
    exact wellNamed_of_callable (.inl rfl)
      ⟨name.text, rfl, read.worded worded name (left ▸ List.mem_cons_self)⟩
  | case6 _ _ generic _ type after typed name _ left _ _ _ _ fields =>
    have read := ((proceeds_angles reading).onward.of_eq generic).trans
      ((proceeds_typeText _).onward.of_eq typed)
    have each := isField_of_mem_fieldsWithin preamble type (after.rest.length + 1)
      ((read.trans after.onward_next).worded worded)
      (read.worded worded name (left ▸ List.mem_cons_self))
    rw [fields] at each
    exact wellNamed_groupFields each _

mutual

/-- A member is named with those inside it. -/
theorem wellNamed_memberWithin : ∀ (fuel : Nat) {owner? : Option String} {reading : Reading},
    (∀ owner ∈ owner?, owner ≠ "") → reading.Worded →
      (memberWithin fuel owner? reading).1.WellNamed
  | 0, _, _, _, _ => by
    unfold memberWithin
    exact wellNamed_emptyBlock _ _
  | fuel + 1, owner?, reading, ownerNamed, worded => by
    have after : (preamble reading).2.Worded := (proceeds_preamble reading).onward.worded worded
    have inside := (onward_next _).worded after
    unfold memberWithin
    dsimp only
    split
    · exact wellNamed_putPreamble.mpr (wellNamed_typeWithin fuel (.inl rfl) _ _ inside)
    · split
      · exact wellNamed_putPreamble.mpr (wellNamed_typeWithin fuel (.inr rfl) _ _ inside)
      · split
        · exact wellNamed_giveUp _ _ _
        · split
          · exact wellNamed_giveUp _ _ _
          · split
            · exact wellNamed_giveUp _ _ _
            · split
              · exact wellNamed_recover _ _
              · split
                · exact (wellNamed_put (by decide)).mpr (wellNamed_block _)
                · exact wellNamed_plainMember (ownerNamed _ rfl) _ _ after

/-- A type declaration is named with its members. -/
theorem wellNamed_typeWithin : ∀ (fuel : Nat) {kind : SyntaxKind},
    kind = .classDecl ∨ kind = .interfaceDecl → ∀ (word : String) (start : Position)
      {reading : Reading}, reading.Worded → (typeWithin fuel kind word start reading).1.WellNamed
  | 0, _, _, _, _, _, _ => by
    unfold typeWithin
    exact wellNamed_emptyBlock _ _
  | fuel + 1, kind, isType, word, start, reading, worded => by
    unfold typeWithin
    split
    · exact wellNamed_recover _ _
    · rename_i name _ left
      have named : name.text ≠ "" := worded name (left ▸ List.mem_cons_self)
      have header := reading.onward_next.trans (proceeds_typeHeader reading.next
        { kind, name := some name.text, range := name.range }).onward
      split
      · exact wellNamed_recover _ _
      · dsimp only
        split
        · refine wellNamed_of_type isType ⟨name.text, rfl, named⟩ ?_
          exact wellNamed_membersWithin fuel named _ _
            ((header.trans (onward_next _)).worded worded)
        · refine wellNamed_of_type isType ⟨name.text, rfl, named⟩ ?_
          exact List.forall_mem_singleton.mpr (wellNamed_recover _ _)

/-- Members are named one by one. -/
theorem wellNamed_membersWithin : ∀ (fuel : Nat) {owner : String}, owner ≠ "" →
    ∀ (word : String) (header : SourceRange) {reading : Reading}, reading.Worded →
      ∀ tree ∈ (membersWithin fuel owner word header reading).1, tree.WellNamed
  | 0, _, _, _, _, _, _ => by
    unfold membersWithin
    exact List.forall_mem_nil _
  | fuel + 1, owner, ownerNamed, word, header, reading, worded => by
    unfold membersWithin
    split
    · exact List.forall_mem_nil _
    · split
      · exact List.forall_mem_nil _
      · split
        · exact wellNamed_membersWithin fuel ownerNamed _ _ (reading.onward_next.worded worded)
        · refine List.forall_mem_cons.mpr ⟨wellNamed_memberWithin fuel ?_ worded, ?_⟩
          · rintro _ ⟨⟩
            exact ownerNamed
          · exact wellNamed_membersWithin fuel ownerNamed _ _
              ((proceeds_memberWithin fuel _ reading).onward.worded worded)

end

/-- A package or an import declares nothing. -/
theorem wellNamed_headerDeclaration {kind : SyntaxKind}
    (isHeader : kind = .package ∨ kind = .importDecl) (reading : Reading) :
    (headerDeclaration kind reading).1.WellNamed := by
  rcases isHeader with rfl | rfl <;> trivial

/-- The declarations of a text are named. -/
theorem wellNamed_declarationsWithin (fuel : Nat) {reading : Reading} (worded : reading.Worded) :
    ∀ tree ∈ (declarationsWithin fuel reading).1, tree.WellNamed := by
  fun_induction declarationsWithin fuel reading with
  | case1 => exact List.forall_mem_nil _
  | case2 => exact List.forall_mem_nil _
  | case3 _ reading _ _ ih => exact ih (reading.onward_next.worded worded)
  | case4 _ reading _ _ tree after read _ _ readOthers ih =>
    have declared : tree.WellNamed ∧ reading.Onward after := by
      split at read
      · have onward := (proceeds_headerDeclaration reading .package).onward
        have named := wellNamed_headerDeclaration (.inl rfl) reading
        rw [read] at onward named
        exact ⟨named, onward⟩
      · split at read
        · have onward := (proceeds_headerDeclaration reading .importDecl).onward
          have named := wellNamed_headerDeclaration (.inr rfl) reading
          rw [read] at onward named
          exact ⟨named, onward⟩
        · split at read
          · obtain ⟨rfl, rfl⟩ := Prod.mk.inj read
            exact ⟨wellNamed_of_fault rfl, reading.onward_next⟩
          · have onward := (proceeds_memberWithin reading.fuel none reading).onward
            have named : (memberWithin reading.fuel none reading).1.WellNamed :=
              wellNamed_memberWithin reading.fuel (fun _ some => nomatch some) worded
            rw [read] at onward named
            exact ⟨named, onward⟩
    rw [readOthers] at ih
    exact List.forall_mem_cons.mpr ⟨declared.1, ih (declared.2.worded worded)⟩

end Parser

/-! ### Source texts -/

/-- No token is empty. -/
theorem Lexer.text_ne_empty_of_mem_tokensAt {pieces : List Piece}
    (filled : ∀ piece ∈ pieces, piece.text ≠ []) (position : Position) (spaced : Bool) :
    ∀ token ∈ tokensAt position spaced pieces, token.text ≠ "" := by
  induction pieces generalizing position spaced with
  | nil => exact List.forall_mem_nil _
  | cons piece rest ih =>
      obtain ⟨here, later⟩ := List.forall_mem_cons.mp filled
      unfold tokensAt
      dsimp only
      split
      · exact ih later _ _
      · refine List.forall_mem_cons.mpr ⟨?_, ih later _ _⟩
        exact fun empty => here (String.ofList_eq_empty_iff.mp empty)

/-- No piece of a text is empty. -/
theorem Lexer.text_ne_nil_of_mem_piecesWithin (fuel : Nat) (cs : List Char) :
    ∀ piece ∈ piecesWithin fuel cs, piece.text ≠ [] := by
  fun_induction piecesWithin fuel cs with
  | case1 => exact List.forall_mem_nil _
  | case2 => exact List.forall_mem_nil _
  | case3 _ c rest piece left read ih =>
    have filled := text_nextPiece_ne_nil c rest
    rw [read] at filled
    exact List.forall_mem_cons.mpr ⟨filled, ih⟩

theorem worded_tokenize (source : String) : ∀ token ∈ (tokenize source).1, token.text ≠ "" :=
  Lexer.text_ne_empty_of_mem_tokensAt (Lexer.text_ne_nil_of_mem_piecesWithin _ _) _ _

/-- A text that is not blank is parsed. -/
theorem exists_parseSource {source : String} (filled : ¬Text.isBlankText source) :
    ∃ parsed, parseSource source = .ok parsed := by
  unfold parseSource
  rw [if_neg filled]
  exact ⟨_, rfl⟩

/-- A program has a graph if its declarations have names. -/
theorem exists_buildGraph_of_wellNamed {tree : SyntaxTree} (isProgram : tree.kind = .program)
    (named : ∀ child ∈ tree.children, child.WellNamed) : ∃ graph, buildGraph tree = .ok graph := by
  obtain ⟨outlines, made⟩ :=
    (Outline.exists_ofDeclarations_iff _).mpr (SyntaxTree.allWellNamed_iff.mpr named)
  have outline : Outline.ofTree tree = .ok outlines := (if_pos isProgram).trans made
  rw [buildGraph_eq, outline]
  exact ⟨_, rfl⟩

/-- **Every text has a graph.** What the parser makes of a text, however malformed it is, has no
declaration without a name. -/
theorem exists_buildGraph {source : String} {parsed : ParsedSource}
    (read : parseSource source = .ok parsed) : ∃ graph, buildGraph parsed.tree = .ok graph := by
  unfold parseSource at read
  split at read
  · cases read
  · cases read
    let reading : Reading := { rest := (tokenize source).1, finish := Position.endOf source }
    have worded : reading.Worded := worded_tokenize source
    exact exists_buildGraph_of_wellNamed rfl
      (Parser.wellNamed_declarationsWithin ((tokenize source).1.length + 1) worded)

/-- A text whose graph can be tested has a graph. -/
theorem exists_tested_graph {source : String} {test : CodeGraph → Bool}
    (tested : (parseSource source).toOption.any fun parsed =>
      (buildGraph parsed.tree).toOption.any test) :
    ∃ parsed graph, parseSource source = .ok parsed ∧ buildGraph parsed.tree = .ok graph ∧
      test graph := by
  obtain ⟨parsed, read, tested⟩ := exists_tested tested
  obtain ⟨graph, built, tested⟩ := exists_tested tested
  exact ⟨parsed, graph, read, built, tested⟩

end Transcode
