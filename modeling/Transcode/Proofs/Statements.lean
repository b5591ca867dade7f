import Transcode.Proofs.Calls
import Transcode.Proofs.Phrases

/-!
# Statements that are read back

Statements of the forms that have a node of their own, as trees over phrases: how they are spelled,
and the syntax tree that they stand for. Of what is spelled the parser reads that tree, but for the
places of nodes and the calls that it marks in phrases (`SyntaxTree.bare`).
-/

namespace Transcode

namespace SyntaxTree

mutual

/-- The tree without places and marks of calls. -/
def bare : SyntaxTree → SyntaxTree
  | ⟨kind, name, children, _, attributes⟩ => ⟨kind, name, bares children, default, attributes⟩

/-- Trees without places and marks of calls. -/
def bares : List SyntaxTree → List SyntaxTree
  | [] => []
  | tree :: rest => if tree.kind = .call then bares rest else bare tree :: bares rest

end

@[simp] theorem kind_bare (tree : SyntaxTree) : tree.bare.kind = tree.kind := by
  cases tree
  rfl

/-- Texts stay at a bare tree. -/
@[simp] theorem bare_put (tree : SyntaxTree) (name text : String) :
    (tree.put name text).bare = tree.bare.put name text := by
  cases tree
  rfl

/-- Bare trees have no ranges. -/
theorem bare_with_range (tree : SyntaxTree) (range : SourceRange) :
    { tree with range }.bare = tree.bare := by
  cases tree
  rfl

theorem bare_with_children (tree : SyntaxTree) (children : List SyntaxTree) (range : SourceRange) :
    { tree with children, range }.bare = { tree.bare with children := bares children } := by
  cases tree
  rfl

theorem bares_cons (tree : SyntaxTree) (trees : List SyntaxTree) (noCall : tree.kind ≠ .call) :
    bares (tree :: trees) = tree.bare :: bares trees := if_neg noCall

@[simp] theorem bares_append (first second : List SyntaxTree) :
    bares (first ++ second) = bares first ++ bares second := by
  induction first with
  | nil => rfl
  | cons tree trees ih =>
      by_cases call : tree.kind = .call <;> simp [bares, call, ih]

/-- Calls are left out of bare trees. -/
@[simp] theorem bares_callNodes (tokens : List Token) : bares (Parser.callNodes tokens) = [] := by
  unfold Parser.callNodes
  induction Token.callees false tokens with
  | nil => rfl
  | cons token tokens ih => exact ih

end SyntaxTree

/-! ### Statements and their spelling -/

/-- Lexemes in round brackets. -/
def grouped (lexemes : List Lexeme) : List Lexeme := .openRound :: (lexemes ++ [.closeRound])

/-- Lexemes in braces. -/
def braced (lexemes : List Lexeme) : List Lexeme := .openBrace :: (lexemes ++ [.closeBrace])

/-- The words and signs that a plain statement cannot start with. -/
def formWords : List String :=
  ["\x7b", "if", "else", "for", "while", "do", "return", "try", "switch", "synchronized"]

/-- Whether lexemes start with neither a word that other statements start with nor a label. -/
def startPlain : List Lexeme → Bool
  | [] => false
  | head :: rest => !head.isAny formWords && !(head.isName && rest.head?.any (·.is ":"))

/-- A phrase that is a plain statement. -/
structure Plain extends Phrase where
  starts : startPlain lexemes

/-- A phrase that can stand between a colon and others. -/
structure Operand extends Phrase where
  free : lacks ":" 0 lexemes

/-- The type of a variable that is declared in a loop. -/
structure ElementType extends Operand where
  filled : lexemes ≠ []
  bare : ∀ lexeme ∈ lexemes, !lexeme.isModifier

/-- A word that can name the variable of a loop. -/
structure Word where
  lexeme : Lexeme
  isIdent : lexeme.isIdent

/-- Statements. Blocks stand wherever statements depend on others. -/
inductive Statement where
  | block (body : List Statement)
  | branch (condition : Phrase) (consequence : List Statement)
  | choice (condition : Phrase) (consequence alternative : List Statement)
  | whileLoop (condition : Phrase) (body : List Statement)
  | doLoop (body : List Statement) (condition : Phrase)
  | forLoop (init condition update : Phrase) (body : List Statement)
  | forEach (type : ElementType) (name : Word) (iterable : Operand) (body : List Statement)
  | returned (value : Phrase)
  | plain (phrase : Plain)

namespace Statement

mutual

/-- A statement as it is spelled. -/
def lexemes : Statement → List Lexeme
  | block body => braced (lexemesOf body)
  | branch condition consequence =>
    .ifWord :: grouped condition.lexemes ++ braced (lexemesOf consequence)
  | choice condition consequence alternative =>
    .ifWord :: grouped condition.lexemes ++ braced (lexemesOf consequence) ++
      .elseWord :: braced (lexemesOf alternative)
  | whileLoop condition body =>
    .whileWord :: grouped condition.lexemes ++ braced (lexemesOf body)
  | doLoop body condition =>
    .doWord :: braced (lexemesOf body) ++ .whileWord :: grouped condition.lexemes ++ [.semicolon]
  | forLoop init condition update body =>
    .forWord :: grouped (init.lexemes ++ .semicolon :: condition.lexemes ++
      .semicolon :: update.lexemes) ++ braced (lexemesOf body)
  | forEach type name iterable body =>
    .forWord :: grouped (type.lexemes ++ name.lexeme :: .colon :: iterable.lexemes) ++
      braced (lexemesOf body)
  | returned value => .returnWord :: value.lexemes ++ [.semicolon]
  | plain phrase => phrase.lexemes ++ [.semicolon]

/-- Statements as they are spelled. -/
def lexemesOf : List Statement → List Lexeme
  | [] => []
  | statement :: rest => statement.lexemes ++ lexemesOf rest

end

/-- A node with a condition and the statements that depend on it. -/
def conditional (kind : SyntaxKind) (condition : Phrase) (branches : List SyntaxTree) :
    SyntaxTree :=
  SyntaxTree.put { kind, children := branches, range := default } "condition"
    (spell condition.lexemes)

/-- A node of a block. -/
def blockNode (children : List SyntaxTree) : SyntaxTree :=
  { kind := .block, children, range := default }

mutual

/-- The syntax tree that a statement stands for. -/
def tree : Statement → SyntaxTree
  | block body => blockNode (treesOf body)
  | branch condition consequence =>
    conditional .branch condition [blockNode (treesOf consequence)]
  | choice condition consequence alternative =>
    (conditional .branch condition
      [blockNode (treesOf consequence), blockNode (treesOf alternative)]).put "else" "true"
  | whileLoop condition body => conditional .whileLoop condition [blockNode (treesOf body)]
  | doLoop body condition => conditional .doLoop condition [blockNode (treesOf body)]
  | forLoop init condition update body =>
    let node : SyntaxTree :=
      { kind := .forLoop, children := [blockNode (treesOf body)], range := default }
    (((node.put "loop" "for").put "init" (spell init.lexemes)).put
      "condition" (spell condition.lexemes)).put "update" (spell update.lexemes)
  | forEach type name iterable body =>
    let node : SyntaxTree :=
      { kind := .forLoop, children := [blockNode (treesOf body)], range := default }
    (((node.put "loop" "foreach").put "varType" (spell type.lexemes)).put
      "var" name.lexeme.text).put "iterable" (spell iterable.lexemes)
  | returned value =>
    SyntaxTree.put { kind := .returnStmt, range := default } "text"
      (spell (.returnWord :: value.lexemes ++ [.semicolon]))
  | plain phrase =>
    SyntaxTree.put { kind := .statement, range := default } "text"
      (spell (phrase.lexemes ++ [.semicolon]))

/-- The syntax trees that statements stand for. -/
def treesOf : List Statement → List SyntaxTree
  | [] => []
  | statement :: rest => statement.tree :: treesOf rest

end

end Statement

/-! ### Reading without problems -/

namespace Reading

/-- From one reading to a later one with given tokens left, no problem is found. -/
structure Passes (before : Reading) (rest : List Token) (after : Reading) : Prop where
  rest_eq : after.rest = rest
  problems_eq : after.problems = before.problems

variable {before between after reading : Reading} {token : Token} {middle rest : List Token}
  {text : String}

theorem Passes.trans (first : before.Passes middle between) (second : between.Passes rest after) :
    before.Passes rest after :=
  ⟨second.rest_eq, second.problems_eq.trans first.problems_eq⟩

/-- The token that comes first is the one that is seen. -/
theorem sees_eq_is (there : reading.rest = token :: rest) (text : String) :
    reading.sees text = token.is text := by
  simp [sees, there]

/-- The lexeme that comes first is the one that is seen. -/
theorem sees_of_rest {pen : Pen} {lexeme : Lexeme}
    (there : reading.rest = pen.token lexeme :: rest) (text : String) :
    reading.sees text = lexeme.is text := sees_eq_is there text

theorem sees_of_is {pen : Pen} {lexeme : Lexeme} (there : reading.rest = pen.token lexeme :: rest)
    (is : lexeme.is text) : reading.sees text := (sees_of_rest there text).trans is

theorem not_done_of_rest (there : reading.rest = token :: rest) : ¬reading.done := by
  simp [done, there]

theorem passes_next (there : reading.rest = token :: rest) :
    reading.Passes rest reading.next := by
  constructor <;> simp [next, there]

/-- A token that is expected and there is passed without a problem. -/
theorem passes_expect (text context : String) (there : reading.rest = token :: rest)
    (is : token.is text) : reading.Passes rest (reading.expect text context) := by
  rw [expect_of_sees (by rwa [sees_eq_is there])]
  exact passes_next there

theorem passes_pass {span : Span} (left : span.rest = rest) :
    reading.Passes rest (reading.pass span) := ⟨left, rfl⟩

/-- What a function of the parser reads, as far as a view of it shows, when it leaves given tokens
and finds no problem. -/
structure Reads {α β : Type} (before : Reading) (result : α × Reading) (view : α → β) (value : β)
    (rest : List Token) : Prop extends
    before.Passes rest result.2 where
  value_eq : view result.1 = value

/-- What is read after some tokens have been passed is read. -/
theorem Passes.reads {α β : Type} {result : α × Reading} {view : α → β} {value : β}
    (first : before.Passes middle between) (read : between.Reads result view value rest) :
    before.Reads result view value rest := ⟨first.trans read.toPasses, read.value_eq⟩

theorem Reads.eq {α : Type} {result : α × Reading} {value : α}
    (read : before.Reads result id value rest) : result = (value, result.2) :=
  Prod.ext read.value_eq rfl

end Reading

namespace Parser

open Reading (passes_next passes_expect passes_pass sees_of_rest sees_of_is
  not_done_of_rest expect_of_sees)
open Statement (lexemesOf treesOf blockNode)
open SyntaxTree (bare bares bare_put bare_with_range bares_append bares_callNodes bares_cons
  kind_bare)

variable {before reading : Reading} {rest : List Token}

/-- A group in round brackets with nested lexemes. -/
theorem roundGroup_lay {lexemes : List Lexeme} (nested : nests 0 lexemes) {pen : Pen}
    (there : reading.rest = pen.lay (grouped lexemes) ++ rest) :
    (∃ inner : Pen, (roundGroup reading).1 = inner.lay lexemes) ∧
      reading.Passes rest (roundGroup reading).2.2 := by
  simp only [grouped, Pen.lay_cons, Pen.lay_append, Pen.lay_nil, List.cons_append,
    List.append_assoc, List.nil_append] at there
  have opened := passes_next there
  have span := Span.group_lay nested (pen.past .openRound) ((pen.past .openRound).pastAll lexemes)
    (show Lexeme.closeRound.closes from rfl) rest
  rw [← opened.rest_eq] at span
  unfold roundGroup
  rw [there]
  have opens : (pen.token .openRound).is "(" := rfl
  have inside : (reading.next.pass (.group 0 reading.next.rest)).sees ")" := by
    rw [sees_of_rest (congrArg Span.rest span)]
    rfl
  simp only [opens, if_true, inside]
  refine ⟨⟨_, congrArg Span.taken span⟩, ?_⟩
  exact (opened.trans (passes_pass (congrArg Span.rest span))).trans
    (passes_next (congrArg Span.rest span))

/-- A bare conditional has its condition as text and its bare branches. -/
theorem bare_conditional (kind : SyntaxKind) (condition : Phrase) (pen : Pen) (range : SourceRange)
    (branches : List SyntaxTree) :
    (conditional kind (pen.lay condition.lexemes) range branches).bare =
      Statement.conditional kind condition (bares branches) := by
  rw [conditional, bare_put, Pen.join_lay, bare, bares_append, bares_callNodes, List.nil_append,
    Statement.conditional]

theorem kind_tree_ne_call (statement : Statement) : statement.tree.kind ≠ .call := by
  cases statement <;> exact SyntaxKind.noConfusion

/-- A statement is read back, unless what follows it is read as a part of it. -/
def ReadsStatement (statement : Statement) : Prop :=
  ∀ (bound : Nat) (before : Reading) (pen : Pen) (rest : List Token),
    Call.Suffices ⟨bound, .statement, before⟩ →
    before.rest = pen.lay statement.lexemes ++ rest → ¬rest.head?.any (·.is "else") →
    before.Reads (statementWithin bound before) (Option.map bare) (some statement.tree) rest

/-- Statements are read back, up to the brace that closes their block. -/
def ReadsStatements (statements : List Statement) : Prop :=
  ∀ (bound : Nat) (opening : SourceRange) (before : Reading) (pen last : Pen) (rest : List Token),
    Call.Suffices ⟨bound, .statements opening, before⟩ →
    before.rest = pen.lay (lexemesOf statements) ++ last.token .closeBrace :: rest →
    before.Reads (statementsWithin bound opening before) bares (treesOf statements) rest

/-- Statements in braces, token by token. -/
theorem lay_braced (pen : Pen) (lexemes : List Lexeme) (rest : List Token) :
    pen.lay (braced lexemes) ++ rest = pen.token .openBrace ::
      ((pen.past .openBrace).lay lexemes ++
        ((pen.past .openBrace).pastAll lexemes).token .closeBrace :: rest) := by
  simp [braced]

/-- A block of statements that can be read can be read. -/
theorem reads_block {body : List Statement} (inner : ReadsStatements body) {bound : Nat} {pen : Pen}
    (enough : Call.Suffices ⟨bound, .block, before⟩)
    (there : before.rest = pen.lay (braced (lexemesOf body)) ++ rest) :
    before.Reads (blockWithin bound before) bare (blockNode (treesOf body)) rest := by
  obtain ⟨bound, rfl⟩ := Nat.exists_eq_add_one.mpr (Call.bound_pos enough)
  rw [lay_braced] at there
  have opened := passes_expect "\x7b" "to open block" there rfl
  have read := inner bound before.here _ _ _ rest (Call.Calls.statements.suffices enough)
    opened.rest_eq
  unfold blockWithin
  exact ⟨opened.trans read.toPasses, congrArg blockNode read.value_eq⟩

/-- A block is a statement. -/
theorem reads_statement_block {body : List Statement} (inner : ReadsStatements body) {bound : Nat}
    {pen : Pen} (enough : Call.Suffices ⟨bound, .statement, before⟩)
    (there : before.rest = pen.lay (braced (lexemesOf body)) ++ rest) :
    before.Reads (statementWithin bound before) (Option.map bare)
      (some (blockNode (treesOf body))) rest := by
  obtain ⟨bound, rfl⟩ := Nat.exists_eq_add_one.mpr (Call.bound_pos enough)
  have head := there
  rw [lay_braced] at head
  have read := reads_block inner
    ((Call.Calls.innerBlock (sees_of_rest head _)).suffices enough) there
  rw [statementWithin_brace bound head Bool.false_ne_true rfl]
  exact ⟨read.toPasses, congrArg some read.value_eq⟩

/-- A block is a body. -/
theorem reads_body {body : List Statement} (inner : ReadsStatements body) {bound : Nat} {pen : Pen}
    {start : Position} (enough : Call.Suffices ⟨bound, .body start, before⟩)
    (there : before.rest = pen.lay (braced (lexemesOf body)) ++ rest) :
    before.Reads (bodyWithin bound start before) bare (blockNode (treesOf body)) rest := by
  obtain ⟨bound, rfl⟩ := Nat.exists_eq_add_one.mpr (Call.bound_pos enough)
  have head := there
  rw [lay_braced] at head
  have more : ¬before.done := not_done_of_rest head
  have inside : ¬before.sees "\x7d" := by
    rw [sees_of_rest head]
    decide
  have read := reads_statement_block inner
    ((Call.Calls.governedStatement more inside).suffices enough) there
  unfold bodyWithin
  rw [if_neg (by simp [more, inside])]
  rcases step : statementWithin bound before with ⟨tree?, after⟩
  rw [step] at read
  obtain ⟨tree, rfl, same⟩ := Option.map_eq_some_iff.mp read.value_eq
  exact ⟨read.toPasses, same⟩

/-- What stands for something other than a call is kept. -/
theorem bares_cons_of_bare {tree other : SyntaxTree} (same : tree.bare = other)
    (noCall : other.kind ≠ .call) (trees : List SyntaxTree) :
    bares (tree :: trees) = other :: bares trees := by
  rw [bares_cons, same]
  rwa [← kind_bare, same]

/-- A block is kept among bare trees. -/
theorem bares_cons_block {tree : SyntaxTree} {children : List SyntaxTree}
    (same : tree.bare = blockNode children) (trees : List SyntaxTree) :
    bares (tree :: trees) = blockNode children :: bares trees :=
  bares_cons_of_bare same SyntaxKind.noConfusion trees

variable {body : List Statement}

/-- A condition with one branch can be read. -/
theorem readsStatement_branch (condition : Phrase) (inner : ReadsStatements body) :
    ReadsStatement (.branch condition body) := by
  intro bound before pen rest enough there noElse
  obtain ⟨bound, rfl⟩ := Nat.exists_eq_add_one.mpr (Call.bound_pos enough)
  simp only [Statement.lexemes, List.cons_append, Pen.lay_cons, Pen.lay_append,
    List.append_assoc] at there
  have named := passes_next there
  obtain ⟨⟨inside, group⟩, grouped⟩ := roundGroup_lay condition.nested named.rest_eq
  have consequence := reads_body inner
    ((Call.Calls.governed (.inl (sees_of_rest there _))).suffices enough) grouped.rest_eq
  have alone : ¬(bodyWithin bound before.start (roundGroup before.next).2.2).2.sees "else" := by
    rwa [Reading.sees, consequence.rest_eq]
  rw [statementWithin_if bound there rfl]
  dsimp only
  rw [if_neg alone, group]
  refine ⟨named.trans (grouped.trans consequence.toPasses), congrArg some ?_⟩
  rw [bare_conditional, bares_cons_block consequence.value_eq]
  rfl

/-- A condition with two branches can be read. -/
theorem readsStatement_choice (condition : Phrase) (inner : ReadsStatements body)
    {others : List Statement} (innerOthers : ReadsStatements others) :
    ReadsStatement (.choice condition body others) := by
  intro bound before pen rest enough there _
  obtain ⟨bound, rfl⟩ := Nat.exists_eq_add_one.mpr (Call.bound_pos enough)
  simp only [Statement.lexemes, List.cons_append, Pen.lay_cons, Pen.lay_append,
    List.append_assoc] at there
  have named := passes_next there
  obtain ⟨⟨inside, group⟩, grouped⟩ := roundGroup_lay condition.nested named.rest_eq
  have isIf : before.sees "if" := sees_of_is there rfl
  have consequence := reads_body inner
    ((Call.Calls.governed (.inl isIf)).suffices enough) grouped.rest_eq
  have isElse := sees_of_is consequence.rest_eq (show Lexeme.elseWord.is "else" from rfl)
  have passed := passes_next consequence.rest_eq
  have alternative := reads_body innerOthers
    ((Call.Calls.alternative isIf rfl isElse).suffices enough) passed.rest_eq
  rw [statementWithin_if bound there rfl]
  dsimp only
  rw [if_pos isElse, group]
  refine ⟨named.trans (grouped.trans (consequence.toPasses.trans
    (passed.trans alternative.toPasses))), congrArg some ?_⟩
  rw [bare_put, bare_conditional, bares_cons_block consequence.value_eq,
    bares_cons_block alternative.value_eq]
  rfl

/-- A loop with its condition first can be read. -/
theorem readsStatement_whileLoop (condition : Phrase) (inner : ReadsStatements body) :
    ReadsStatement (.whileLoop condition body) := by
  intro bound before pen rest enough there _
  obtain ⟨bound, rfl⟩ := Nat.exists_eq_add_one.mpr (Call.bound_pos enough)
  simp only [Statement.lexemes, List.cons_append, Pen.lay_cons, Pen.lay_append,
    List.append_assoc] at there
  have named := passes_next there
  obtain ⟨⟨inside, group⟩, grouped⟩ := roundGroup_lay condition.nested named.rest_eq
  have governed := reads_body inner
    ((Call.Calls.governed (.inr (sees_of_rest there _))).suffices enough) grouped.rest_eq
  rw [statementWithin_while bound there rfl]
  dsimp only
  rw [group]
  refine ⟨named.trans (grouped.trans governed.toPasses), congrArg some ?_⟩
  rw [bare_conditional, bares_cons_block governed.value_eq]
  rfl

/-- A loop with its condition last can be read. -/
theorem readsStatement_doLoop (condition : Phrase) (inner : ReadsStatements body) :
    ReadsStatement (.doLoop body condition) := by
  intro bound before pen rest enough there _
  obtain ⟨bound, rfl⟩ := Nat.exists_eq_add_one.mpr (Call.bound_pos enough)
  simp only [Statement.lexemes, List.cons_append, Pen.lay_cons, Pen.lay_append,
    List.append_assoc, Pen.lay_nil, List.nil_append] at there
  have named := passes_next there
  have governed := reads_body inner
    ((Call.Calls.doBody (sees_of_rest there _)).suffices enough) named.rest_eq
  have isWhile := passes_expect "while" "after do body" governed.rest_eq rfl
  obtain ⟨⟨inside, group⟩, grouped⟩ := roundGroup_lay condition.nested isWhile.rest_eq
  have ended := passes_expect ";" "after do/while condition" grouped.rest_eq rfl
  rw [statementWithin_do bound there rfl]
  dsimp only
  rw [group]
  refine ⟨named.trans (governed.toPasses.trans (isWhile.trans (grouped.trans ended))),
    congrArg some ?_⟩
  rw [bare_conditional, bares_cons_block governed.value_eq]
  rfl

/-! ### Loop headers -/

theorem splitTop_semicolon (pen : Pen) (tokens : List Token) :
    Token.splitTop ";" 0 (pen.token .semicolon :: tokens) = [] :: Token.splitTop ";" 0 tokens :=
  Token.splitTop_cons_of_is rfl (by decide) pen tokens

theorem splitTop_colon (pen : Pen) (tokens : List Token) :
    Token.splitTop ":" 0 (pen.token .colon :: tokens) = [] :: Token.splitTop ":" 0 tokens :=
  Token.splitTop_cons_of_is rfl (by decide) pen tokens

/-- The header of a classic loop has its brackets in pairs. -/
theorem nests_three (init condition update : Phrase) :
    nests 0 (init.lexemes ++ .semicolon :: condition.lexemes ++ .semicolon :: update.lexemes) := by
  have noBracket : ¬Lexeme.semicolon.opens ∧ ¬Lexeme.semicolon.closes := by decide
  rw [List.append_assoc, nests_append init.nested, List.cons_append, nests_cons noBracket,
    nests_append condition.nested, nests_cons noBracket, update.nested]

/-- The header of a classic loop is taken apart at its semicolons. -/
theorem loopHeader_three (init condition update : Phrase) (pen : Pen) :
    loopHeader (pen.lay (init.lexemes ++ .semicolon :: condition.lexemes ++
      .semicolon :: update.lexemes)) =
      some [("loop", "for"), ("init", spell init.lexemes), ("condition", spell condition.lexemes),
        ("update", spell update.lexemes)] := by
  simp only [Pen.lay_append, Pen.lay_cons, List.append_assoc, List.cons_append]
  unfold loopHeader
  rw [Token.splitTop_lay init.nested init.unbroken _ (splitTop_semicolon _ _),
    Token.splitTop_lay condition.nested condition.unbroken _ (splitTop_semicolon _ _),
    Token.splitTop_lay_alone update.nested update.unbroken]
  simp only [List.append_nil, Pen.join_lay]

/-- The modifiers that are left out of a loop variable's type are none. -/
theorem filter_modifiers (type : ElementType) (pen : Pen) :
    (pen.lay type.lexemes).filter (fun token => !(token.isIdent && isModifier token.text)) =
      pen.lay type.lexemes := by
  refine List.filter_eq_self.mpr fun token mem => ?_
  obtain ⟨lexeme, among, place, rfl⟩ := pen.exists_of_mem_lay mem
  exact type.bare lexeme among

/-- The header of a loop over elements has its brackets in pairs. -/
theorem nests_element (type : ElementType) (name : Word) (iterable : Operand) :
    nests 0 (type.lexemes ++ name.lexeme :: .colon :: iterable.lexemes) := by
  have noBracket := Lexeme.not_bracket_of_isIdent name.isIdent
  have colonNoBracket : ¬Lexeme.colon.opens ∧ ¬Lexeme.colon.closes := by decide
  rw [nests_append type.nested, nests_cons noBracket, nests_cons colonNoBracket, iterable.nested]

/-- The header of a loop over elements is taken apart at its colon. -/
theorem loopHeader_element (type : ElementType) (name : Word) (iterable : Operand) (pen : Pen) :
    loopHeader (pen.lay (type.lexemes ++ name.lexeme :: .colon :: iterable.lexemes)) =
      some [("loop", "foreach"), ("varType", spell type.lexemes), ("var", name.lexeme.text),
        ("iterable", spell iterable.lexemes)] := by
  have noBracket := Lexeme.not_bracket_of_isIdent name.isIdent
  have colonNoBracket : ¬Lexeme.colon.opens ∧ ¬Lexeme.colon.closes := by decide
  have notSemicolon : ¬name.lexeme.is ";" :=
    Lexeme.not_is_of_isIdent name.isIdent .semicolon (by decide)
  have notColon : ¬name.lexeme.is ":" := Lexeme.not_is_of_isIdent name.isIdent .colon (by decide)
  have nested : nests 0 (type.lexemes ++ [name.lexeme]) := by
    rw [nests_append type.nested, nests_cons noBracket]
    rfl
  have declared : lacks ":" 0 (type.lexemes ++ [name.lexeme]) := by
    rw [lacks_append type.nested, type.free, lacks_cons noBracket.1 noBracket.2]
    simp [notColon, lacks, outside]
  have unbroken : lacks ";" 0 (type.lexemes ++ name.lexeme :: .colon :: iterable.lexemes) := by
    rw [lacks_append type.nested, type.unbroken, lacks_cons noBracket.1 noBracket.2,
      lacks_cons colonNoBracket.1 colonNoBracket.2, iterable.unbroken]
    simp [notSemicolon, show Lexeme.colon.is ";" = false from rfl]
  have parts : ∃ later : Pen, Token.splitTop ":" 0
      (pen.lay (type.lexemes ++ name.lexeme :: .colon :: iterable.lexemes)) =
        [pen.lay (type.lexemes ++ [name.lexeme]), later.lay iterable.lexemes] := by
    rw [List.append_cons, Pen.lay_append, Pen.lay_cons,
      Token.splitTop_lay nested declared _ (splitTop_colon _ _),
      Token.splitTop_lay_alone iterable.nested iterable.free, List.append_nil]
    exact ⟨_, rfl⟩
  obtain ⟨later, parts⟩ := parts
  obtain ⟨first, others, filled⟩ := List.exists_cons_of_ne_nil type.filled
  have typeTokens : pen.lay type.lexemes = pen.token first :: (pen.past first).lay others := by
    rw [filled, Pen.lay_cons]
  have dropped : (pen.lay (type.lexemes ++ [name.lexeme])).dropLast =
      pen.token first :: (pen.past first).lay others := by
    simp [← typeTokens]
  have ending : (pen.lay (type.lexemes ++ [name.lexeme])).getLast? =
      some ((pen.pastAll type.lexemes).token name.lexeme) := by simp
  unfold loopHeader
  rw [Token.splitTop_lay_alone (nests_element type name iterable) unbroken, parts]
  dsimp only
  rw [ending, dropped]
  dsimp only
  rw [← typeTokens, filter_modifiers, Pen.join_lay, Pen.join_lay, Pen.text_token]

/-- A tree with texts put at names. -/
def putAll (texts : List (String × String)) (tree : SyntaxTree) : SyntaxTree :=
  texts.foldl (fun node text => node.put text.1 text.2) tree

/-- Texts stay at a bare tree, one by one. -/
theorem bare_putAll (texts : List (String × String)) (tree : SyntaxTree) :
    (putAll texts tree).bare = putAll texts tree.bare := by
  induction texts generalizing tree with
  | nil => rfl
  | cons text texts ih => exact (ih _).trans (congrArg (putAll texts) (bare_put _ _ _))

/-- Texts do not depend on children and range. -/
theorem putAll_with (texts : List (String × String)) (tree : SyntaxTree)
    (children : List SyntaxTree) (range : SourceRange) :
    { putAll texts tree with children, range } = putAll texts { tree with children, range } := by
  induction texts generalizing tree with
  | nil => rfl
  | cons text texts ih => exact ih _

/-- A header that can be read makes a loop with its texts. -/
theorem forNode_eq {header : List Token} {texts : List (String × String)}
    (read : loopHeader header = some texts) (start : Position) (reading : Reading) :
    forNode header start reading =
      (putAll texts { kind := .forLoop, range := reading.since start }, reading) := by
  unfold forNode
  rw [read]
  rfl

/-- A loop whose header has one of the two forms. -/
theorem readsStatement_for {header : List Lexeme} (nested : nests 0 header)
    {texts : List (String × String)} (read : ∀ pen : Pen, loopHeader (pen.lay header) = some texts)
    (inner : ReadsStatements body) {statement : Statement}
    (spelled : statement.lexemes = .forWord :: grouped header ++ braced (lexemesOf body))
    (node : statement.tree = putAll texts
      { kind := .forLoop, children := [blockNode (treesOf body)], range := default }) :
    ReadsStatement statement := by
  intro bound before pen rest enough there _
  obtain ⟨bound, rfl⟩ := Nat.exists_eq_add_one.mpr (Call.bound_pos enough)
  simp only [spelled, List.cons_append, Pen.lay_cons, Pen.lay_append,
    List.append_assoc] at there
  have named := passes_next there
  obtain ⟨⟨inside, group⟩, grouped⟩ := roundGroup_lay nested named.rest_eq
  have parts := forNode_eq (read inside) before.start (roundGroup before.next).2.2
  rw [← group] at parts
  have left := grouped.rest_eq
  rw [← congrArg Prod.snd parts] at left
  have governed := reads_body inner
    ((Call.Calls.forBody (sees_of_is there rfl)).suffices enough) left
  rw [parts] at governed
  rw [statementWithin_for bound there rfl]
  dsimp only
  rw [parts]
  refine ⟨named.trans (grouped.trans governed.toPasses), congrArg some ?_⟩
  rw [putAll_with, bare_putAll, group, node]
  refine congrArg (putAll texts) ?_
  rw [bare, bares_append, bares_callNodes, bares_cons_block governed.value_eq]
  rfl

/-! ### Plain statements -/

/-- A plain statement is read up to its semicolon, as the kind that its first word tells. -/
theorem reads_plainStatement {head : Lexeme} {lexemes : List Lexeme} {pen : Pen}
    (nested : nests 0 (head :: lexemes)) (unbroken : lacks ";" 0 (head :: lexemes))
    (noBlock : ¬blockStatementWords.contains head.text)
    (there : reading.rest = pen.lay (head :: lexemes ++ [.semicolon]) ++ rest) :
    let kind := if head.text = "return" then SyntaxKind.returnStmt else .statement
    reading.Reads (plainStatement (pen.token head) reading) bare
      (SyntaxTree.put { kind, range := default } "text" (spell (head :: lexemes ++ [.semicolon])))
      rest := by
  intro kind
  have span := Span.plainStatement_lay nested unbroken pen (pen.pastAll (head :: lexemes)) rest
  have whole : pen.lay (head :: lexemes) ++ [(pen.pastAll (head :: lexemes)).token .semicolon] =
      pen.lay (head :: lexemes ++ [.semicolon]) := by
    rw [Pen.lay_append]
    rfl
  have split : reading.rest = pen.lay (head :: lexemes) ++
      (pen.pastAll (head :: lexemes)).token .semicolon :: rest := by
    rw [there, Pen.lay_append, List.append_assoc]
    rfl
  unfold plainStatement
  rw [if_neg (show ¬(pen.token head).closes from not_closes_of_nests nested)]
  simp only [Pen.text_token, Bool.eq_false_iff.mpr noBlock, split, span, whole, if_true,
    Pen.join_lay]
  refine ⟨passes_pass rfl, ?_⟩
  rw [bare_put, bare, bares_callNodes]
  rfl

/-- A phrase whose head is neither a word of another form nor a label. -/
theorem readsStatement_of_head {head : Lexeme} {lexemes : List Lexeme}
    (nested : nests 0 (head :: lexemes)) (unbroken : lacks ";" 0 (head :: lexemes))
    (noForm : ¬head.isAny statementHeads) (noBlock : ¬blockStatementWords.contains head.text)
    (noLabel : ¬(head.isName ∧ lexemes.head?.any (·.is ":"))) {statement : Statement}
    (spelled : statement.lexemes = head :: lexemes ++ [.semicolon])
    (node : statement.tree = SyntaxTree.put
      { kind := if head.text = "return" then SyntaxKind.returnStmt else .statement,
        range := default } "text" (spell (head :: lexemes ++ [.semicolon]))) :
    ReadsStatement statement := by
  intro bound before pen rest enough there _
  obtain ⟨bound, rfl⟩ := Nat.exists_eq_add_one.mpr (Call.bound_pos enough)
  rw [spelled] at there
  have read := reads_plainStatement nested unbroken noBlock there
  rw [List.cons_append, Pen.lay_cons, List.cons_append] at there
  have label : ¬(Span.isName (pen.token head) ∧ before.thenSees ":") := by
    refine fun both => noLabel ⟨both.1, ?_⟩
    have sees := both.2
    cases lexemes with
    | nil => simp [Reading.thenSees, there] at sees; cases sees
    | cons next others => simpa [Reading.thenSees, there] using sees
  rw [statementWithin_plain bound there label noForm]
  refine ⟨read.toPasses, congrArg some ?_⟩
  rw [bare_with_range, read.value_eq, node]

/-- A return can be read. -/
theorem readsStatement_returned (value : Phrase) : ReadsStatement (.returned value) := by
  have noBracket : ¬Lexeme.returnWord.opens ∧ ¬Lexeme.returnWord.closes := by decide
  have nested : nests 0 (.returnWord :: value.lexemes) := by
    rw [nests_cons noBracket, value.nested]
  have unbroken : lacks ";" 0 (.returnWord :: value.lexemes) := by
    rw [lacks_cons noBracket.1 noBracket.2, value.unbroken]
    decide
  exact readsStatement_of_head nested unbroken (by decide) (by decide)
    (fun label => Bool.false_ne_true label.1) rfl rfl

/-- A plain statement can be read. -/
theorem readsStatement_plain (phrase : Plain) : ReadsStatement (.plain phrase) := by
  obtain ⟨⟨lexemes, nested, unbroken⟩, starts⟩ := phrase
  cases lexemes with
  | nil => cases starts
  | cons head lexemes =>
      simp only [startPlain, Bool.and_eq_true, Bool.not_eq_true'] at starts
      obtain ⟨noForm, noLabel⟩ := starts
      have other : ∀ word ∈ formWords, ¬head.is word := by
        simpa [Lexeme.isAny] using noForm
      have otherText : ∀ word ∈ "return" :: blockStatementWords, head.text ≠ word := by
        have words : ∀ word ∈ "return" :: blockStatementWords, word ∈ formWords ∧
            Lexer.pieces word.toList = [⟨some .ident, word.toList, none⟩] := by decide +kernel
        intro word among same
        exact other word (words word among).1 (Lexeme.is_of_text_eq same (words word among).2)
      obtain ⟨notReturn, notBlock⟩ := List.forall_mem_cons.mp otherText
      have noEnd : ¬head.is ";" := by
        intro is
        have noBracket := Lexeme.not_bracket_of_is is (by decide)
        rw [lacks_cons noBracket.1 noBracket.2, is] at unbroken
        cases unbroken
      refine readsStatement_of_head nested unbroken ?_ ?_ (by simpa using noLabel) rfl ?_
      · have heads : ∀ word ∈ statementHeads, word = ";" ∨ word ∈ formWords := by decide
        intro form
        obtain ⟨word, among, is⟩ := List.any_eq_true.mp form
        rcases heads word among with rfl | among
        · exact noEnd is
        · exact other word among is
      · intro block
        exact notBlock _ (List.contains_iff_mem.mp block) rfl
      · rw [if_neg notReturn]
        rfl

/-- A statement starts with a lexeme that nothing before it takes for its end or its own. -/
theorem exists_head (statement : Statement) : ∃ head others,
    statement.lexemes = head :: others ∧ ¬head.is "\x7d" ∧ ¬head.is "else" := by
  cases statement with
  | plain phrase =>
    obtain ⟨⟨lexemes, nested, unbroken⟩, starts⟩ := phrase
    cases lexemes with
    | nil => cases starts
    | cons head lexemes =>
        simp only [startPlain, Bool.and_eq_true, Bool.not_eq_true'] at starts
        refine ⟨head, _, rfl, fun is => not_closes_of_nests nested ?_, fun is => ?_⟩
        · simp [Lexeme.closes, Lexeme.isAny, is]
        · simp [Lexeme.isAny, formWords, is] at starts
  | _ => exact ⟨_, _, rfl, by decide, by decide⟩

/-- What follows a statement in a block is no part of it. -/
theorem not_else_lay (statements : List Statement) (pen last : Pen) (rest : List Token) :
    ¬(pen.lay (lexemesOf statements) ++ last.token .closeBrace :: rest).head?.any
      (·.is "else") := by
  cases statements with
  | nil => exact Bool.false_ne_true
  | cons statement statements =>
      obtain ⟨head, others, spelled, _, noElse⟩ := exists_head statement
      simpa [Statement.lexemesOf, spelled] using noElse

/-- No statements are read up to the brace that closes them. -/
theorem readsStatements_nil : ReadsStatements [] := by
  intro bound opening before pen last rest enough there
  obtain ⟨bound, rfl⟩ := Nat.exists_eq_add_one.mpr (Call.bound_pos enough)
  rw [Statement.lexemesOf, Pen.lay_nil, List.nil_append] at there
  unfold statementsWithin
  rw [if_neg (not_done_of_rest there), if_pos (sees_of_is there rfl)]
  exact ⟨passes_next there, rfl⟩

/-- A statement that can be read before others that can. -/
theorem readsStatements_cons {statement : Statement} {statements : List Statement}
    (first : ReadsStatement statement) (others : ReadsStatements statements) :
    ReadsStatements (statement :: statements) := by
  intro bound opening before pen last rest enough there
  obtain ⟨bound, rfl⟩ := Nat.exists_eq_add_one.mpr (Call.bound_pos enough)
  rw [Statement.lexemesOf, Pen.lay_append, List.append_assoc] at there
  obtain ⟨head, lexemes, spelled, noEnd, _⟩ := exists_head statement
  have start := there
  rw [spelled, Pen.lay_cons, List.cons_append] at start
  have more := not_done_of_rest start
  have inside : ¬before.sees "\x7d" := by rwa [sees_of_rest start]
  have read := first bound before pen _ ((Call.Calls.statement more inside).suffices enough) there
    (not_else_lay _ _ _ _)
  have later := others bound opening _ _ _ _
    ((Call.Calls.laterStatements more inside).suffices enough) read.rest_eq
  unfold statementsWithin
  rw [if_neg more, if_neg inside]
  refine ⟨read.toPasses.trans later.toPasses, ?_⟩
  obtain ⟨tree, is, same⟩ := Option.map_eq_some_iff.mp read.value_eq
  dsimp only
  rw [is, Option.toList_some, List.singleton_append,
    bares_cons_of_bare same (kind_tree_ne_call statement), later.value_eq]
  rfl

mutual

theorem reads_statement : ∀ statement : Statement, ReadsStatement statement
  | .block body => fun _ _ _ _ enough there _ =>
    reads_statement_block (reads_statements body) enough there
  | .branch condition consequence => readsStatement_branch condition (reads_statements consequence)
  | .choice condition consequence alternative =>
    readsStatement_choice condition (reads_statements consequence) (reads_statements alternative)
  | .whileLoop condition body => readsStatement_whileLoop condition (reads_statements body)
  | .doLoop body condition => readsStatement_doLoop condition (reads_statements body)
  | .forLoop init condition update body =>
    readsStatement_for (nests_three init condition update)
      (loopHeader_three init condition update) (reads_statements body) rfl rfl
  | .forEach type name iterable body =>
    readsStatement_for (nests_element type name iterable)
      (loopHeader_element type name iterable) (reads_statements body) rfl rfl
  | .returned value => readsStatement_returned value
  | .plain phrase => readsStatement_plain phrase

theorem reads_statements : ∀ statements : List Statement, ReadsStatements statements
  | [] => readsStatements_nil
  | statement :: statements =>
    readsStatements_cons (reads_statement statement) (reads_statements statements)

end

/-- **Blocks.** Statements in braces are read back, whatever follows them. -/
theorem reads_braced (statements : List Statement) {pen : Pen}
    (there : before.rest = pen.lay (braced (lexemesOf statements)) ++ rest) :
    before.Reads (block before) bare (blockNode (treesOf statements)) rest :=
  reads_block (reads_statements statements) (Call.suffices_of_fuel rfl) there

end Parser

end Transcode
