import Transcode.Proofs.Encoding

/-!
# What the parser puts into lines

Of all that the parser makes only some trees have texts that go into lines: statements, and the
labels and conditions of blocks and branches. What is so of these, as they are made of tokens of
some sort (`Parser.LineTexts`), is so everywhere in what is read of such tokens
(`Parser.LineTexts.everywhere_parseSource`).
-/

namespace Transcode

open Text

/-! ### Trees with texts -/

namespace SyntaxTree

/-- The kinds of trees that leave texts in lines. -/
def lineKinds : List SyntaxKind := [.statement, .returnStmt, .block, .branch]

/-- A text put under another key is not what is found. -/
theorem get?_put_of_ne {key other : String} (different : key ≠ other) (tree : SyntaxTree)
    (text : String) : (tree.put key text).get? other = tree.get? other := by
  unfold put get? Dict.insertNonempty
  split
  · rfl
  · rw [Dict.get?_insert, if_neg different]

/-- A text that is put is found. -/
theorem get?_put_self {text : String} (filled : text ≠ "") (tree : SyntaxTree) (key : String) :
    (tree.put key text).get? key = some text := by
  unfold put get? Dict.insertNonempty
  rw [if_neg (mt String.isEmpty_iff.mp filled), Dict.get?_insert, if_pos rfl]

theorem textAt_put {text : String} (filled : text ≠ "") (tree : SyntaxTree) (key : String) :
    (tree.put key text).textAt key = text :=
  congrArg (·.getD "") (get?_put_self filled tree key)

theorem textAt_put_of_ne {key other : String} (different : key ≠ other) (tree : SyntaxTree)
    (text : String) : (tree.put key text).textAt other = tree.textAt other :=
  congrArg (·.getD "") (get?_put_of_ne different tree text)

/-- An empty text is as good as none. -/
theorem textAt_put_of_none {tree : SyntaxTree} {key : String} (missing : tree.get? key = none)
    (text : String) : (tree.put key text).textAt key = text := by
  by_cases empty : text = ""
  · subst empty
    exact congrArg (·.getD "") missing
  · exact textAt_put empty tree key

end SyntaxTree

/-- Something is so of all tokens that are left. -/
def Reading.All (good : Token → Prop) (reading : Reading) : Prop :=
  ∀ token ∈ reading.rest, good token

variable {good : Token → Prop} {holds : SyntaxTree → Prop}

/-- What holds of all tokens holds of the last of them. -/
theorem Reading.Onward.all {before after : Reading} (onward : before.Onward after)
    (all : before.All good) : after.All good :=
  fun token left => all token (onward.mem left)

/-- What holds of all tokens holds of those of a stretch. -/
theorem Span.Splits.all {span : Span} {tokens : List Token} (splits : span.Splits tokens)
    (all : ∀ token ∈ tokens, good token) : ∀ token ∈ span.taken, good token :=
  fun token taken => all token (splits ▸ List.mem_append_left _ taken)

/-! ### Blocks and statements -/

namespace Parser

open Reading SyntaxTree Transcode.Span

/-- Something that is so of all trees that the parser makes of tokens of some sort: of those without
texts for lines in any case, and of the others as their texts are put together. -/
structure LineTexts (good : Token → Prop) (holds : SyntaxTree → Prop) : Prop where
  other : ∀ {tree : SyntaxTree}, tree.kind ∉ lineKinds → holds tree
  block : ∀ {tree : SyntaxTree}, tree.kind = .block → tree.get? "label" = .none → holds tree
  put : ∀ {tree : SyntaxTree} {key : String}, holds tree → key ∉ ["text", "condition", "label"] →
    ∀ text, holds (tree.put key text)
  withRange : ∀ {tree : SyntaxTree}, holds tree → ∀ range, holds { tree with range }
  plain : ∀ {head : Token} {others : List Token}, (∀ token ∈ head :: others, good token) →
    ∀ {kind : SyntaxKind}, kind = (if head.text = "return" then .returnStmt else .statement) →
      ∀ {suffix : String}, suffix = "" ∨ suffix = ";" → ∀ children range,
        holds (SyntaxTree.put { kind, children, range } "text"
          (Token.join (head :: others) ++ suffix))
  label : ∀ {token : Token}, good token → token.isIdent → ∀ {tree : SyntaxTree}, holds tree →
    holds (putLabel token.text tree)
  branch : ∀ {condition : List Token}, (∀ token ∈ condition, good token) → ∀ range branches,
    holds (conditional .branch condition range branches)

section Statements

variable {tree : SyntaxTree} {reading : Reading} (texts : LineTexts good holds)

include texts

/-- A node of a kind without lines has those of its children. -/
theorem everywhere_of_kind (kind : SyntaxKind) (isKind : tree.kind = kind)
    (other : kind ∉ lineKinds)
    (below : ∀ child ∈ tree.children, child.Everywhere holds) : tree.Everywhere holds :=
  everywhere_iff.mpr ⟨texts.other (isKind ▸ other), below⟩

/-- A block without a label has the lines of its children. -/
theorem everywhere_of_block (isBlock : tree.kind = .block) (plain : tree.get? "label" = .none)
    (below : ∀ child ∈ tree.children, child.Everywhere holds) : tree.Everywhere holds :=
  everywhere_iff.mpr ⟨texts.block isBlock plain, below⟩

/-- Other texts do not matter. -/
theorem everywhere_put (read : tree.Everywhere holds) {key : String}
    (other : key ∉ ["text", "condition", "label"]) (text : String) :
    (tree.put key text).Everywhere holds := by
  obtain ⟨here, below⟩ := everywhere_iff.mp read
  exact everywhere_iff.mpr ⟨texts.put here other text, below⟩

/-- Where a tree is does not matter. -/
theorem everywhere_withRange (read : tree.Everywhere holds) (range : SourceRange) :
    { tree with range }.Everywhere holds := by
  obtain ⟨here, below⟩ := everywhere_iff.mp read
  exact everywhere_iff.mpr ⟨texts.withRange here range, below⟩

theorem everywhere_faultNode (range : SourceRange) (tokens : List Token) :
    (faultNode range tokens).Everywhere holds :=
  everywhere_of_kind texts .fault rfl (by decide) (List.forall_mem_nil _)

theorem everywhere_giveUp (message : String) (span : Span) (reading : Reading) :
    (giveUp message span reading).1.Everywhere holds := everywhere_faultNode texts _ _

/-- Calls have no lines. -/
theorem everywhere_callNodes (tokens : List Token) :
    ∀ tree ∈ callNodes tokens, tree.Everywhere holds := by
  intro tree member
  obtain ⟨token, _, rfl⟩ := List.mem_map.mp member
  exact everywhere_of_kind texts .call rfl (by decide) (List.forall_mem_nil _)

omit texts in
/-- What holds of all tokens holds of those between brackets. -/
theorem all_roundGroup (all : reading.All good) :
    ∀ token ∈ (roundGroup reading).1, good token := by
  unfold roundGroup
  split
  · dsimp only
    split
    · have inside := (splits_group 0 reading.next.rest).all
        (reading.onward_next.all all)
      split <;> exact inside
    · exact List.forall_mem_nil _
  · exact List.forall_mem_nil _

/-- A statement of tokens, with or without something at its end. -/
theorem everywhere_ofTokens {head : Token} {others : List Token}
    (all : ∀ token ∈ head :: others, good token) {suffix : String}
    (ends : suffix = "" ∨ suffix = ";") {kind : SyntaxKind}
    (isKind : kind = if head.text = "return" then .returnStmt else .statement)
    (range : SourceRange) :
    (SyntaxTree.put { kind, children := callNodes (head :: others), range } "text"
      (Token.join (head :: others) ++ suffix)).Everywhere holds :=
  everywhere_iff.mpr ⟨texts.plain all isKind ends _ range, everywhere_callNodes texts _⟩

/-- A plain statement has the line of its tokens. -/
theorem everywhere_plainStatement {head : Token} {rest : List Token}
    (there : reading.rest = head :: rest) (all : reading.All good) :
    (plainStatement head reading).1.Everywhere holds := by
  unfold plainStatement
  split
  · exact everywhere_faultNode texts _ _
  · rename_i opens
    dsimp only
    obtain ⟨others, taken⟩ :=
      exists_taken_plainStatement (blockStatementWords.contains head.text) opens rest
    rw [← there] at taken
    have allTaken := (splits_plainStatement (blockStatementWords.contains head.text) 0
      reading.rest).all all
    rw [taken] at allTaken ⊢
    generalize isKind : (if head.text = "return" then SyntaxKind.returnStmt else .statement) = kind
    have whole := everywhere_ofTokens texts allTaken (.inl rfl) isKind.symm
    rw [String.append_empty] at whole
    split
    · exact whole _
    · dsimp only
      split
      · exact whole _
      · exact everywhere_ofTokens texts allTaken (.inr rfl) isKind.symm _

omit texts in
/-- A header makes a loop. -/
theorem kind_forNode (header : List Token) (start : Position) (reading : Reading) :
    (forNode header start reading).1.kind = .forLoop := by
  unfold forNode
  dsimp only
  split
  · rename_i texts _
    exact List.foldlRecOn (motive := fun node : SyntaxTree => node.kind = .forLoop) texts _ rfl
      fun _ isLoop _ _ => isLoop
  · rfl

theorem everywhere_emptyBlock (start : Position) (reading : Reading) :
    (emptyBlock start reading).Everywhere holds :=
  everywhere_of_block texts rfl rfl (List.forall_mem_nil _)

/-- A label is a word among the tokens. -/
theorem everywhere_putLabel {token : Token} (isGood : good token) (isWord : token.isIdent)
    (read : tree.Everywhere holds) : (putLabel token.text tree).Everywhere holds := by
  obtain ⟨here, below⟩ := everywhere_iff.mp read
  refine everywhere_iff.mpr ⟨texts.label isGood isWord here, ?_⟩
  unfold putLabel
  split <;> exact below

/-- A branch has the line of its condition and those of its branches. -/
theorem everywhere_branch {condition : List Token} (all : ∀ token ∈ condition, good token)
    (range : SourceRange) {branches : List SyntaxTree}
    (each : ∀ tree ∈ branches, tree.Everywhere holds) :
    (conditional .branch condition range branches).Everywhere holds :=
  everywhere_iff.mpr ⟨texts.branch all range branches,
    List.forall_mem_append.mpr ⟨everywhere_callNodes texts condition, each⟩⟩

/-- Nothing that goes into a line is put into a loop. -/
theorem everywhere_loop {kind : SyntaxKind} (isLoop : kind.isLoop) (condition : List Token)
    (range : SourceRange) {branches : List SyntaxTree}
    (each : ∀ tree ∈ branches, tree.Everywhere holds) :
    (conditional kind condition range branches).Everywhere holds := by
  refine everywhere_of_kind texts kind rfl ?_
    (List.forall_mem_append.mpr ⟨everywhere_callNodes texts condition, each⟩)
  rintro listed
  simp only [lineKinds, List.mem_cons, List.not_mem_nil, or_false] at listed
  rcases listed with rfl | rfl | rfl | rfl <;> cases isLoop

end Statements

mutual

/-- A block has the lines of its statements. -/
theorem everywhere_blockWithin (texts : LineTexts good holds) :
    ∀ (fuel : Nat) {reading : Reading}, reading.All good →
      (blockWithin fuel reading).1.Everywhere holds
  | 0, _, _ => by
    unfold blockWithin
    exact everywhere_emptyBlock texts _ _
  | fuel + 1, reading, all => by
    unfold blockWithin
    exact everywhere_of_block texts rfl rfl (everywhere_statementsWithin texts fuel _
      ((reading.onward_expect _ _).all all))

/-- Statements have lines of their tokens. -/
theorem everywhere_statementsWithin (texts : LineTexts good holds) :
    ∀ (fuel : Nat) (opening : SourceRange) {reading : Reading},
      reading.All good → ∀ tree ∈ (statementsWithin fuel opening reading).1,
        tree.Everywhere holds
  | 0, _, _, _ => by
    unfold statementsWithin
    exact List.forall_mem_nil _
  | fuel + 1, opening, reading, all => by
    unfold statementsWithin
    split
    · exact List.forall_mem_nil _
    · split
      · exact List.forall_mem_nil _
      · refine List.forall_mem_append.mpr ⟨?_, everywhere_statementsWithin texts fuel opening
          ((proceeds_statementWithin fuel reading).onward.all all)⟩
        intro tree member
        exact everywhere_statementWithin texts fuel all tree (Option.mem_toList.mp member)

/-- A statement has lines of its tokens. -/
theorem everywhere_statementWithin (texts : LineTexts good holds) :
    ∀ (fuel : Nat) {reading : Reading}, reading.All good →
      ∀ tree ∈ (statementWithin fuel reading).1, tree.Everywhere holds
  | 0, _, _ => by
    unfold statementWithin
    rintro _ ⟨⟩
  | fuel + 1, reading, all => by
    have later {after : Reading} (onward : reading.Onward after) := onward.all all
    unfold statementWithin
    dsimp only
    split
    · rintro _ ⟨⟩
    · rename_i head rest there
      have isHead : good head := all head (there ▸ List.mem_cons_self)
      split
      · rename_i labelled
        rintro _ ⟨⟩
        have isWord : head.isIdent :=
          (Bool.and_eq_true_iff.mp (Bool.and_eq_true_iff.mp labelled).1).1
        have body := everywhere_bodyWithin texts fuel reading.start
          (later (reading.onward_next.trans (onward_next _)))
        exact everywhere_withRange texts (everywhere_putLabel texts isHead isWord body) _
      · split
        · rintro _ ⟨⟩
        · split
          · rintro _ ⟨⟩
            exact everywhere_blockWithin texts fuel all
          · have inside := all_roundGroup (later reading.onward_next)
            have afterGroup := reading.onward_next.trans (proceeds_roundGroup _).onward
            have governed := everywhere_bodyWithin texts fuel reading.start (later afterGroup)
            split
            · split
              · rintro _ ⟨⟩
                refine everywhere_put texts (everywhere_branch texts inside _
                  (List.forall_mem_cons.mpr ⟨governed, List.forall_mem_singleton.mpr ?_⟩))
                    (by decide) _
                exact everywhere_bodyWithin texts fuel _ (later ((afterGroup.trans
                  (proceeds_bodyWithin fuel _ _).onward).trans (onward_next _)))
              · rintro _ ⟨⟩
                exact everywhere_branch texts inside _ (List.forall_mem_singleton.mpr governed)
            · split
              · rintro _ ⟨⟩
                refine everywhere_of_kind texts .forLoop (kind_forNode _ _ _) (by decide)
                  (List.forall_mem_append.mpr ⟨everywhere_callNodes texts _,
                    List.forall_mem_singleton.mpr ?_⟩)
                exact everywhere_bodyWithin texts fuel _
                  (later (afterGroup.trans (proceeds_forNode _ _ _).onward))
              · split
                · rintro _ ⟨⟩
                  exact everywhere_loop texts rfl _ _ (List.forall_mem_singleton.mpr governed)
                · split
                  · rintro _ ⟨⟩
                    exact everywhere_loop texts rfl _ _ (List.forall_mem_singleton.mpr
                      (everywhere_bodyWithin texts fuel _ (later reading.onward_next)))
                  · rintro _ ⟨⟩
                    exact everywhere_withRange texts (everywhere_plainStatement texts there all) _

/-- A body has lines of its tokens. -/
theorem everywhere_bodyWithin (texts : LineTexts good holds) :
    ∀ (fuel : Nat) (start : Position) {reading : Reading},
      reading.All good → (bodyWithin fuel start reading).1.Everywhere holds
  | 0, _, _, _ => by
    unfold bodyWithin
    exact everywhere_emptyBlock texts _ _
  | fuel + 1, start, reading, all => by
    have read := everywhere_statementWithin texts fuel all
    unfold bodyWithin
    split
    · exact everywhere_emptyBlock texts _ _
    · split <;> rename_i there <;> rw [there] at read
      · exact read _ rfl
      · exact everywhere_emptyBlock texts _ _

end

section Declarations

variable {reading : Reading} (texts : LineTexts good holds)

include texts

theorem everywhere_block (all : reading.All good) :
    (block reading).1.Everywhere holds := everywhere_blockWithin texts _ all

/-! ### Declarations -/

/-- Parameters have no lines. -/
theorem everywhere_parametersWithin (fuel : Nat) (reading : Reading) :
    ∀ tree ∈ (parametersWithin fuel reading).1, tree.Everywhere holds := by
  induction fuel generalizing reading with
  | zero => exact List.forall_mem_nil _
  | succ fuel ih =>
      have others {first : SyntaxTree × Reading} (read : first.1.Everywhere holds) :
          ∀ tree ∈ (if first.2.sees "," then
            (first.1 :: (parametersWithin fuel first.2.next).1,
              (parametersWithin fuel first.2.next).2)
            else ([first.1], first.2)).1, tree.Everywhere holds := by
        split
        · exact List.forall_mem_cons.mpr ⟨read, ih _⟩
        · exact List.forall_mem_singleton.mpr read
      unfold parametersWithin
      split
      · exact List.forall_mem_nil _
      · refine others ?_
        split
        · split
          · exact everywhere_of_kind texts .parameter rfl (by decide) (List.forall_mem_nil _)
          · exact everywhere_faultNode texts _ _
        · exact everywhere_faultNode texts _ _

/-- The body of a method has lines of its tokens. -/
theorem everywhere_methodBody (all : reading.All good) :
    ∀ tree ∈ (methodBody reading).1, tree.Everywhere holds := by
  unfold methodBody
  split
  · exact List.forall_mem_singleton.mpr (everywhere_block texts all)
  · split
    · exact List.forall_mem_nil _
    · split
      · exact List.forall_mem_nil _
      · exact List.forall_mem_singleton.mpr (everywhere_faultNode texts _ _)

/-- A method has the lines of its body. -/
theorem everywhere_methodRest {method : SyntaxTree} (kind : SyntaxKind)
    (isKind : method.kind = kind)
    (other : kind ∉ lineKinds) (all : reading.All good) :
    (methodRest method reading).1.Everywhere holds := by
  rw [methodRest_eq]
  have body := everywhere_methodBody texts ((proceeds_thrownTypes reading).onward.all all)
  exact everywhere_of_kind texts kind isKind other
    (List.forall_mem_append.mpr ⟨everywhere_parametersWithin texts _ _, body⟩)

/-- Fields have no lines. -/
theorem everywhere_fieldsWithin (preamble : Preamble) (type : String) (fuel : Nat) (name : Token)
    (reading : Reading) : ∀ field ∈ (fieldsWithin preamble type fuel name reading).1,
      field.Everywhere holds := by
  have one (name : Token) (fieldType : String) (initial : List Token) (range : SourceRange) :
      SyntaxTree.Everywhere holds ((putPreamble preamble (SyntaxTree.put
        { kind := .field, name := some name.text, children := callNodes initial, range }
          "type" fieldType)).put "init" (Token.join initial)) :=
    everywhere_of_kind texts .field rfl (by decide) (everywhere_callNodes texts initial)
  fun_induction fieldsWithin preamble type fuel name reading with
  | case1 => exact List.forall_mem_nil _
  | case2 _ _ _ _ _ _ _ _ _ _ _ _ _ _ _ _ _ _ readOthers ih =>
    rw [readOthers] at ih
    exact List.forall_mem_cons.mpr ⟨one .., ih⟩
  | case3 => exact List.forall_mem_singleton.mpr (one ..)
  | case4 => exact List.forall_mem_singleton.mpr (one ..)
  | case5 => exact List.forall_mem_singleton.mpr (one ..)

/-- Fields that are put together have no lines. -/
theorem everywhere_groupFields {fields : List SyntaxTree}
    (each : ∀ field ∈ fields, field.Everywhere holds) (range : SourceRange) :
    (groupFields fields range).Everywhere holds := by
  unfold groupFields
  split
  · exact each _ List.mem_cons_self
  · exact everywhere_put texts (everywhere_of_block texts rfl rfl each) (by decide) _

/-- Modifiers and annotations are no lines. -/
theorem everywhere_putPreamble (preamble : Preamble) {tree : SyntaxTree}
    (read : tree.Everywhere holds) :
    (putPreamble preamble tree).Everywhere holds :=
  everywhere_put texts (everywhere_put texts read (by decide) _) (by decide) _

/-- A member has the lines of its body. -/
theorem everywhere_plainMember (owner : String) (preamble : Preamble) (start : Position)
    (all : reading.All good) :
    (plainMember owner preamble start reading).1.Everywhere holds := by
  have angles := (proceeds_angles reading).onward
  fun_cases plainMember owner preamble start reading with
  | case1 _ after generic =>
    refine everywhere_put texts (everywhere_putPreamble texts _ (everywhere_withRange texts ?_ _))
      (by decide) _
    exact everywhere_methodRest texts .constructor rfl (by decide) (((angles.of_eq generic).trans
      after.onward_next).all all)
  | case2 => exact everywhere_giveUp texts _ _ _
  | case3 => exact everywhere_giveUp texts _ _ _
  | case4 => exact everywhere_giveUp texts _ _ _
  | case5 _ _ generic _ _ _ after typed =>
    refine everywhere_put texts (everywhere_putPreamble texts _ (everywhere_withRange texts ?_ _))
      (by decide) _
    exact everywhere_methodRest texts .method rfl (by decide) ((((angles.of_eq generic).trans
      ((proceeds_typeText _).onward.of_eq typed)).trans after.onward_next).all all)
  | case6 _ _ _ _ type after _ name _ _ _ _ _ _ fields =>
    have each := everywhere_fieldsWithin texts preamble type (after.rest.length + 1) name after.next
    rw [fields] at each
    exact everywhere_groupFields texts each _

end Declarations

mutual

/-- A member has lines of its tokens. -/
theorem everywhere_memberWithin (texts : LineTexts good holds) :
    ∀ (fuel : Nat) (owner? : Option String) {reading : Reading},
      reading.All good → (memberWithin fuel owner? reading).1.Everywhere holds
  | 0, _, _, _ => by
    unfold memberWithin
    exact everywhere_emptyBlock texts _ _
  | fuel + 1, owner?, reading, all => by
    have after : (preamble reading).2.All good := (proceeds_preamble reading).onward.all all
    have inside := (onward_next _).all after
    unfold memberWithin
    dsimp only
    split
    · exact everywhere_putPreamble texts _ (everywhere_typeWithin texts fuel (by decide) _ _ inside)
    · split
      · exact everywhere_putPreamble texts _
          (everywhere_typeWithin texts fuel (by decide) _ _ inside)
      · split
        · exact everywhere_giveUp texts _ _ _
        · split
          · exact everywhere_giveUp texts _ _ _
          · split
            · exact everywhere_giveUp texts _ _ _
            · split
              · exact everywhere_giveUp texts _ _ _
              · split
                · exact everywhere_put texts (everywhere_block texts after) (by decide) _
                · exact everywhere_plainMember texts _ _ _ after

/-- A type declaration has the lines of its members. -/
theorem everywhere_typeWithin (texts : LineTexts good holds) :
    ∀ (fuel : Nat) {kind : SyntaxKind}, kind ∉ lineKinds →
      ∀ (word : String) (start : Position) {reading : Reading}, reading.All good →
        (typeWithin fuel kind word start reading).1.Everywhere holds
  | 0, _, _, _, _, _, _ => by
    unfold typeWithin
    exact everywhere_emptyBlock texts _ _
  | fuel + 1, kind, other, word, start, reading, all => by
    unfold typeWithin
    split
    · exact everywhere_giveUp texts _ _ _
    · rename_i name _ left
      have header := reading.onward_next.trans (proceeds_typeHeader reading.next
        { kind, name := some name.text, range := name.range }).onward
      split
      · exact everywhere_giveUp texts _ _ _
      · dsimp only
        split
        · exact everywhere_of_kind texts kind rfl other (everywhere_membersWithin texts fuel _ _ _
            ((header.trans (onward_next _)).all all))
        · exact everywhere_of_kind texts kind rfl other
            (List.forall_mem_singleton.mpr (everywhere_giveUp texts _ _ _))

/-- Members have lines of their tokens. -/
theorem everywhere_membersWithin (texts : LineTexts good holds) :
    ∀ (fuel : Nat) (owner word : String) (header : SourceRange)
      {reading : Reading}, reading.All good →
        ∀ tree ∈ (membersWithin fuel owner word header reading).1,
          tree.Everywhere holds
  | 0, _, _, _, _, _ => by
    unfold membersWithin
    exact List.forall_mem_nil _
  | fuel + 1, owner, word, header, reading, all => by
    unfold membersWithin
    split
    · exact List.forall_mem_nil _
    · split
      · exact List.forall_mem_nil _
      · split
        · exact everywhere_membersWithin texts fuel owner word header (reading.onward_next.all all)
        · exact List.forall_mem_cons.mpr ⟨everywhere_memberWithin texts fuel _ all,
            everywhere_membersWithin texts fuel owner word header
              ((proceeds_memberWithin fuel _ reading).onward.all all)⟩

end

/-- The declarations of a text have lines of its tokens. -/
theorem everywhere_declarationsWithin (texts : LineTexts good holds) (fuel : Nat)
    {reading : Reading} (all : reading.All good) :
    ∀ tree ∈ (declarationsWithin fuel reading).1, tree.Everywhere holds := by
  fun_induction declarationsWithin fuel reading with
  | case1 => exact List.forall_mem_nil _
  | case2 => exact List.forall_mem_nil _
  | case3 _ reading _ _ ih => exact ih (reading.onward_next.all all)
  | case4 _ reading _ _ tree after read _ _ readOthers ih =>
    have declared : tree.Everywhere holds ∧ reading.Onward after := by
      split at read
      · have onward := (proceeds_headerDeclaration reading .package).onward
        rw [read] at onward
        refine ⟨?_, onward⟩
        cases read
        exact everywhere_of_kind texts .package rfl (by decide) (List.forall_mem_nil _)
      · split at read
        · have onward := (proceeds_headerDeclaration reading .importDecl).onward
          rw [read] at onward
          refine ⟨?_, onward⟩
          cases read
          exact everywhere_of_kind texts .importDecl rfl (by decide) (List.forall_mem_nil _)
        · split at read
          · obtain ⟨rfl, rfl⟩ := Prod.mk.inj read
            exact ⟨everywhere_faultNode texts _ _, reading.onward_next⟩
          · have onward := (proceeds_memberWithin reading.fuel none reading).onward
            have member := everywhere_memberWithin texts reading.fuel none all
            rw [read] at onward member
            exact ⟨member, onward⟩
    rw [readOthers] at ih
    exact List.forall_mem_cons.mpr ⟨declared.1, ih (declared.2.all all)⟩

/-- **Every text** made of tokens of one sort is read as trees of the other. -/
theorem LineTexts.everywhere_parseSource (texts : LineTexts good holds) {source : String}
    {parsed : ParsedSource} (all : ∀ token ∈ (tokenize source).1, good token)
    (read : parseSource source = .ok parsed) :
    parsed.tree.Everywhere holds := by
  unfold parseSource at read
  split at read
  · cases read
  · cases read
    let reading : Reading := { rest := (tokenize source).1, finish := Position.endOf source }
    have given : reading.All good := all
    exact everywhere_of_kind texts .program rfl (by decide)
      (everywhere_declarationsWithin texts ((tokenize source).1.length + 1) given)

end Parser

end Transcode
