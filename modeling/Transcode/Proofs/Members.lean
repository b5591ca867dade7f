import Transcode.Proofs.Types

/-!
# Declarations that are read back

Classes and interfaces with their fields, methods, constructors and inner types, as trees: how they
are spelled, and the syntax trees that they stand for. A text of such declarations is read without
problems, as the syntax trees that they stand for, and so are the statements in a method's body.
-/

namespace Transcode

namespace Lexeme

def classWord : Lexeme := ⟨.ident, "class", by decide +kernel⟩
def interfaceWord : Lexeme := ⟨.ident, "interface", by decide +kernel⟩
def voidWord : Lexeme := ⟨.ident, "void", by decide +kernel⟩

end Lexeme

/-! ### Declarations and their spelling -/

/-- A word that can be a name. -/
structure Name where
  lexeme : Lexeme
  isName : lexeme.isName

/-- A name of a type: no word that is read as a part of a declaration before. -/
structure TypeName extends Name where
  noModifier : !lexeme.isModifier
  noRecord : !lexeme.is "record"

/-- A parameter of a method. -/
structure Parameter where
  type : TypeUse
  name : Name

namespace Parameter

/-- A parameter as it is spelled. -/
def lexemes (parameter : Parameter) : List Lexeme :=
  parameter.type.lexemes ++ [parameter.name.lexeme]

/-- The syntax tree that a parameter stands for. -/
def tree (parameter : Parameter) : SyntaxTree :=
  SyntaxTree.put { kind := .parameter, name := some parameter.name.lexeme.text, range := default }
    "type" parameter.type.text

end Parameter

/-- What stands behind the name of a method or constructor; it may have no body. -/
structure MethodTail where
  parameters : List Parameter
  thrown : List TypeUse
  body? : Option (List Statement)

namespace MethodTail

/-- A body as it is spelled, or the `;` in its place. -/
def bodyLexemes (tail : MethodTail) : List Lexeme :=
  tail.body?.elim [.semicolon] fun body => braced (Statement.lexemesOf body)

/-- What stands behind a name as it is spelled. -/
def lexemes (tail : MethodTail) : List Lexeme :=
  grouped (separated (tail.parameters.map Parameter.lexemes)) ++
    (typesAfter .throwsWord tail.thrown ++ tail.bodyLexemes)

/-- The syntax tree of a body, if there is one. -/
def bodyTrees (tail : MethodTail) : List SyntaxTree :=
  tail.body?.toList.map fun body => Statement.blockNode (Statement.treesOf body)

/-- The node of a method with what stands behind its name. -/
def complete (tail : MethodTail) (node : SyntaxTree) : SyntaxTree :=
  { node.put "throws" (", ".intercalate (tail.thrown.map TypeUse.text)) with
    children := tail.parameters.map Parameter.tree ++ tail.bodyTrees }

end MethodTail

/-- Modifiers as they are spelled. -/
def modifierLexemes (modifiers : List Modifier) : List Lexeme := modifiers.map (·.lexeme)

/-- Modifiers as one text. -/
def modifierText (modifiers : List Modifier) : String :=
  " ".intercalate (modifiers.map (·.lexeme.text))

/-- What stands before the body of a type. -/
structure TypeHeader where
  isInterface : Bool
  modifiers : List Modifier
  name : TypeName
  parameters? : Option Angled
  bases : List TypeUse
  interfaces : List TypeUse

namespace TypeHeader

/-- The word that introduces a type. -/
def word (header : TypeHeader) : Lexeme :=
  if header.isInterface then .interfaceWord else .classWord

/-- The kind of a type's node. -/
def kind (header : TypeHeader) : SyntaxKind :=
  if header.isInterface then .interfaceDecl else .classDecl

/-- What stands behind a type's name. -/
def tailLexemes (header : TypeHeader) : List Lexeme :=
  anglesOf header.parameters? ++
    (typesAfter .extendsWord header.bases ++ typesAfter .implementsWord header.interfaces)

/-- A type's header as it is spelled. -/
def lexemes (header : TypeHeader) : List Lexeme :=
  modifierLexemes header.modifiers ++
    header.word :: header.name.lexeme :: header.tailLexemes

/-- A type's node with what stands behind its name. -/
def complete (header : TypeHeader) (node : SyntaxTree) : SyntaxTree :=
  ((node.put "typeParams" (spell (anglesOf header.parameters?))).put
    "extends" (", ".intercalate (header.bases.map TypeUse.text))).put
    "implements" (", ".intercalate (header.interfaces.map TypeUse.text))

/-- A type's node with given members. -/
def node (header : TypeHeader) (members : List SyntaxTree) : SyntaxTree :=
  let name := header.name.lexeme.text
  { kind := header.kind, name, children := members, range := default }

/-- The syntax tree of a type with given members. -/
def tree (header : TypeHeader) (members : List SyntaxTree) : SyntaxTree :=
  (header.complete (header.node members)).put "modifiers" (modifierText header.modifiers)

end TypeHeader

/-- The members of a type. -/
inductive Member where
  | inner (header : TypeHeader) (members : List Member)
  | field (modifiers : List Modifier) (type : TypeUse) (name : Name)
  | method (modifiers : List Modifier) (type : TypeUse) (name : Name) (tail : MethodTail)
  | constructor (modifiers : List Modifier) (tail : MethodTail)

namespace Member

mutual

/-- A member as it is spelled; a constructor has the name of its owner. -/
def lexemes (owner : TypeName) : Member → List Lexeme
  | inner header members => header.lexemes ++ braced (lexemesOf header.name members)
  | field modifiers type name =>
    modifierLexemes modifiers ++ (type.lexemes ++ [name.lexeme, .semicolon])
  | method modifiers type name tail =>
    modifierLexemes modifiers ++ (type.lexemes ++ name.lexeme :: tail.lexemes)
  | constructor modifiers tail => modifierLexemes modifiers ++ owner.lexeme :: tail.lexemes

/-- Members as they are spelled. -/
def lexemesOf (owner : TypeName) : List Member → List Lexeme
  | [] => []
  | member :: rest => lexemes owner member ++ lexemesOf owner rest

end

mutual

/-- The syntax tree that a member stands for. -/
def tree (owner : TypeName) : Member → SyntaxTree
  | inner header members => header.tree (treesOf header.name members)
  | field modifiers type name =>
    (SyntaxTree.put { kind := .field, name := some name.lexeme.text, range := default }
      "type" type.text).put "modifiers" (modifierText modifiers)
  | method modifiers type name tail =>
    (tail.complete (SyntaxTree.put
      { kind := .method, name := some name.lexeme.text, range := default }
      "returnType" type.text)).put "modifiers" (modifierText modifiers)
  | constructor modifiers tail =>
    (tail.complete { kind := .constructor, name := some owner.lexeme.text, range := default }).put
      "modifiers" (modifierText modifiers)

/-- The syntax trees that members stand for. -/
def treesOf (owner : TypeName) : List Member → List SyntaxTree
  | [] => []
  | member :: rest => tree owner member :: treesOf owner rest

end

end Member

/-- A type that stands by itself. -/
structure TypeDeclaration where
  header : TypeHeader
  members : List Member

namespace TypeDeclaration

/-- A type as it is spelled. -/
def lexemes (type : TypeDeclaration) : List Lexeme :=
  type.header.lexemes ++ braced (Member.lexemesOf type.header.name type.members)

/-- The syntax tree that a type stands for. -/
def tree (type : TypeDeclaration) : SyntaxTree :=
  type.header.tree (Member.treesOf type.header.name type.members)

end TypeDeclaration

/-! ### What a word is not -/

namespace Lexeme

variable {lexeme : Lexeme}

/-- A word is none of several signs. -/
theorem not_isAny_of_isIdent (isIdent : lexeme.isIdent) (signs : List Lexeme)
    (noWords : ∀ sign ∈ signs, ¬sign.isIdent) : ¬lexeme.isAny (signs.map (·.text)) := by
  intro is
  obtain ⟨_, mem, is⟩ := List.any_eq_true.mp is
  obtain ⟨sign, among, rfl⟩ := List.mem_map.mp mem
  exact not_is_of_isIdent isIdent sign (noWords sign among) is

end Lexeme

theorem Name.isIdent (name : Name) : name.lexeme.isIdent :=
  (Bool.and_eq_true_iff.mp name.isName).1

namespace Lexeme

theorem isIdent_of_startsType {lexeme : Lexeme} (starts : lexeme.startsType) : lexeme.isIdent := by
  simp only [startsType, Bool.and_eq_true] at starts
  exact starts.1.1.1

/-- What starts a type is no modifier. -/
theorem not_isModifier_of_startsType {lexeme : Lexeme} (starts : lexeme.startsType) :
    ¬lexeme.isModifier := by
  simp only [startsType, Bool.and_eq_true, Bool.not_eq_true'] at starts
  simp [starts.1.2]

end Lexeme

theorem TypeUse.isIdent (type : TypeUse) : type.head.isIdent :=
  Lexeme.isIdent_of_startsType type.starts

/-- The name of a constructor could be the first word of a type. -/
theorem TypeName.startsType (name : TypeName) : name.lexeme.startsType := by
  have isName := name.isName
  simp only [Lexeme.isName, Bool.and_eq_true] at isName
  simp [Lexeme.startsType, isName.1, isName.2, name.noModifier, name.noRecord]

/-- A word goes on with no type before it. -/
theorem clearOf_typeSigns_word {lexeme : Lexeme} (isIdent : lexeme.isIdent) {token : Token}
    (writes : lexeme.Writes token) (tokens : List Token) :
    clearOf typeSigns (token :: tokens) := by
  have none : ¬lexeme.isAny typeSigns := Lexeme.not_isAny_of_isIdent isIdent
    [.point, .openAngle, .openSquare, .ellipsis] (by decide)
  simpa [clearOf, writes.isAny_eq] using none

namespace SyntaxTree

@[simp] theorem put_empty (tree : SyntaxTree) (name : String) : tree.put name "" = tree := by
  cases tree
  rfl

end SyntaxTree

namespace Parser

open Reading (passes_next passes_expect passes_pass sees_of_rest sees_of_is not_done_of_rest
  consumes_of_sees consumes_next)
open Statement (lexemesOf treesOf blockNode)
open SyntaxTree (bare bares bare_put bare_with_range bare_with_children bares_append bares_cons
  kind_bare put_empty)

variable {before reading : Reading} {rest : List Token}

/-- The first word of a type starts neither a modifier nor an annotation. -/
theorem not_startsPreamble {lexeme : Lexeme} (starts : lexeme.startsType) {token : Token}
    (writes : lexeme.Writes token) (tokens : List Token) :
    !(token :: tokens).head?.any startsPreamble := by
  have noSign : ¬lexeme.is "@" :=
    Lexeme.not_is_of_isIdent (Lexeme.isIdent_of_startsType starts) .atSign (by decide)
  have noModifier : lexeme.isModifier = false := by
    simpa using Lexeme.not_isModifier_of_startsType starts
  unfold Lexeme.isModifier at noModifier
  simp [startsPreamble, writes.is_eq, writes.isIdent_eq, writes.text, noSign, noModifier]

/-- The modifiers are put as one text. -/
theorem bare_putPreamble (modifiers : List String) (tree : SyntaxTree) :
    (putPreamble ⟨modifiers, []⟩ tree).bare =
      tree.bare.put "modifiers" (" ".intercalate modifiers) := by
  have noAnnotations : Preamble.annotationText ⟨modifiers, []⟩ = "" := rfl
  rw [putPreamble, noAnnotations, put_empty, bare_put]
  rfl

/-! ### Parameters -/

/-- A parameter is read. -/
theorem reads_parameter (parameter : Transcode.Parameter) {pen : Pen}
    (there : before.rest = pen.lay parameter.lexemes ++ rest) (follows : clearOf ["["] rest) :
    before.Reads (Parser.parameter before) bare parameter.tree rest := by
  rw [Transcode.Parameter.lexemes, Pen.lay_append, List.append_assoc] at there
  have front : before.Reads (preamble before) id ⟨[], []⟩ _ := there ▸ reads_no_preamble (by
    rw [there]
    exact not_startsPreamble parameter.type.starts ⟨rfl, rfl⟩ _)
  have typed := reads_typeText parameter.type front.rest_eq
    (clearOf_typeSigns_word parameter.name.isIdent ⟨rfl, rfl⟩ _)
  have named := passes_next typed.rest_eq
  have noMarks : Span.arrayMarks (typeText (preamble before).2).2.next.rest = .none rest := by
    rw [named.rest_eq]
    exact Span.arrayMarks_eq_none follows
  rw [parameter_eq front.eq typed.eq typed.rest_eq parameter.name.isIdent]
  dsimp only
  rw [noMarks]
  refine ⟨front.toPasses.trans (typed.toPasses.trans (named.trans (passes_pass rfl))), ?_⟩
  rw [bare_putPreamble, bare_put, append_noMarks, String.intercalate_nil, put_empty]
  rfl

/-- A word is none of several signs that are looked for. -/
theorem not_sees_of_writes {lexeme : Lexeme} {token : Token} {tokens : List Token}
    (writes : lexeme.Writes token) (there : reading.rest = token :: tokens)
    (isIdent : lexeme.isIdent) (sign : Lexeme) (noWord : ¬sign.isIdent) :
    ¬reading.sees sign.text := by
  rw [Reading.sees_eq_is there, writes.is_eq]
  exact Lexeme.not_is_of_isIdent isIdent sign noWord

/-- A word is no sign. -/
theorem not_sees_of_isIdent {lexeme : Lexeme} {pen : Pen} {tokens : List Token}
    (there : reading.rest = pen.token lexeme :: tokens) (isIdent : lexeme.isIdent) (sign : Lexeme)
    (noWord : ¬sign.isIdent) : ¬reading.sees sign.text :=
  not_sees_of_writes ⟨rfl, rfl⟩ there isIdent sign noWord

/-- A parameter does not start with the end of the list. -/
theorem inside_of_parameter (parameter : Transcode.Parameter) {pen : Pen} {tokens : List Token}
    (there : before.rest = pen.lay parameter.lexemes ++ tokens) :
    ¬(before.done || before.sees ")") := by
  rw [Transcode.Parameter.lexemes, TypeUse.lexemes, List.cons_append, Pen.lay_cons,
    List.cons_append] at there
  have more := not_done_of_rest there
  have inside := not_sees_of_isIdent there parameter.type.isIdent .closeRound (by decide)
  rw [Bool.or_eq_true]
  exact fun either => either.elim more inside

/-- Parameters are read back up to the bracket that closes them. -/
theorem reads_parametersWithin (parameters : List Transcode.Parameter) {bound : Nat}
    {pen last : Pen} (enough : before.rest.length < bound)
    (there : before.rest = pen.lay (separated (parameters.map Parameter.lexemes)) ++
      last.token .closeRound :: rest) :
    before.Reads (parametersWithin bound before) bares (parameters.map Parameter.tree)
      (last.token .closeRound :: rest) := by
  induction parameters generalizing bound before pen with
  | nil =>
    obtain ⟨bound, rfl⟩ := Nat.exists_eq_add_one.mpr (Nat.zero_lt_of_lt enough)
    have left : before.rest = last.token .closeRound :: rest := there
    have closes : before.sees ")" := sees_of_is left rfl
    rw [parametersWithin_succ, if_pos (by simp [closes])]
    exact ⟨⟨left, rfl⟩, rfl⟩
  | cons first others ih =>
    obtain ⟨bound, rfl⟩ := Nat.exists_eq_add_one.mpr (Nat.zero_lt_of_lt enough)
    cases others with
    | nil =>
      rw [List.map_singleton, separated_singleton] at there
      have read := reads_parameter first there rfl
      have noComma : ¬(Parser.parameter before).2.sees "," := by
        rw [sees_of_rest read.rest_eq]
        decide
      rw [parametersWithin_succ, if_neg (inside_of_parameter first there), if_neg noComma]
      exact ⟨read.toPasses, bares_cons_of_bare read.value_eq SyntaxKind.noConfusion []⟩
    | cons second others =>
      rw [List.map_cons, List.map_cons, separated_cons_cons, Pen.lay_append, Pen.lay_cons,
        List.append_assoc, List.cons_append] at there
      have read := reads_parameter first there rfl
      have isComma : (Parser.parameter before).2.sees "," := sees_of_is read.rest_eq rfl
      have passed := passes_next read.rest_eq
      have consumed := (proceeds_parameter before).onward.consumes (consumes_of_sees isComma)
      have fewer : (Parser.parameter before).2.next.rest.length < bound :=
        Nat.lt_of_lt_of_le consumed.2 (Nat.le_of_lt_succ enough)
      have later := ih fewer passed.rest_eq
      rw [parametersWithin_succ, if_neg (inside_of_parameter first there), if_pos isComma]
      refine ⟨read.toPasses.trans (passed.trans later.toPasses), ?_⟩
      rw [bares_cons_of_bare read.value_eq SyntaxKind.noConfusion, later.value_eq]
      rfl

/-! ### Methods -/

/-- The body of a method is read, or the semicolon in its place. -/
theorem reads_methodBody (tail : MethodTail) {pen : Pen}
    (there : before.rest = pen.lay tail.bodyLexemes ++ rest) :
    before.Reads (methodBody before) bares tail.bodyTrees rest := by
  obtain ⟨parameters, thrown, body?⟩ := tail
  unfold methodBody
  cases body? with
  | none =>
    have spelled : MethodTail.bodyLexemes ⟨parameters, thrown, none⟩ = [.semicolon] := rfl
    rw [spelled] at there
    rw [if_neg (by rw [sees_of_rest there]; decide), if_neg (by rw [sees_of_rest there]; decide),
      if_pos (sees_of_is there rfl)]
    exact ⟨passes_next there, rfl⟩
  | some body =>
    have left : before.rest = pen.lay (braced (lexemesOf body)) ++ rest := there
    have read := reads_braced body left
    have opens : before.sees "\x7b" := by
      rw [lay_braced] at left
      exact sees_of_is left rfl
    rw [if_pos opens]
    exact ⟨read.toPasses, bares_cons_block read.value_eq []⟩

/-- The parameters of a method are read. -/
theorem reads_methodParameters (parameters : List Transcode.Parameter) {pen : Pen}
    (there : before.rest =
      pen.lay (grouped (separated (parameters.map Parameter.lexemes))) ++ rest) :
    bares (methodParameters before).1 = parameters.map Parameter.tree ∧
      before.Passes rest ((methodParameters before).2.expect ")" "to close parameter list") := by
  simp only [grouped, Pen.lay_cons, Pen.lay_append, Pen.lay_nil, List.cons_append,
    List.append_assoc, List.nil_append] at there
  have opened := passes_expect "(" "to open parameter list" there rfl
  have read := reads_parametersWithin parameters (Nat.lt_succ_self _) opened.rest_eq
  have closed := passes_expect ")" "to close parameter list" read.rest_eq rfl
  exact ⟨read.value_eq, opened.trans (read.toPasses.trans closed)⟩

/-- A method is read from its parameters on. -/
theorem reads_methodRest (tail : MethodTail) (method : SyntaxTree) {pen : Pen}
    (there : before.rest = pen.lay tail.lexemes ++ rest) :
    before.Reads (methodRest method before) bare (tail.complete method.bare) rest := by
  rw [MethodTail.lexemes, Pen.lay_append, Pen.lay_append, List.append_assoc,
    List.append_assoc] at there
  obtain ⟨parameters, closed⟩ := reads_methodParameters tail.parameters there
  have body (pen : Pen) :
      clearOf ("[" :: "throws" :: listEnds) (pen.lay tail.bodyLexemes ++ rest) := by
    refine clearOf_lay_head ?_ pen rest
    unfold MethodTail.bodyLexemes
    cases tail.body? <;> rfl
  have thrown (first second : Pen) : clearOf ["["]
      (first.lay (typesAfter .throwsWord tail.thrown) ++
        (second.lay tail.bodyLexemes ++ rest)) := by
    refine clearOf_lay ?_ first (clearOf_mono (body second) (by decide))
    cases tail.thrown <;> rfl
  have marked : before.Passes _ (afterParameters before) :=
    closed.trans (passes_arrayMarks closed.rest_eq (thrown _ _))
  have read : (afterParameters before).Reads (thrownTypes before) id _ _ :=
    reads_heritage "throws" rfl tail.thrown marked.rest_eq (clearOf_mono (body _) (by decide))
  have types : (thrownTypes before).1 = tail.thrown.map TypeUse.text := read.value_eq
  have last := reads_methodBody tail read.rest_eq
  rw [methodRest_eq]
  refine ⟨marked.trans (read.toPasses.trans last.toPasses), ?_⟩
  dsimp only
  rw [types, bare_with_children, bares_append, parameters, last.value_eq, bare_put]
  rfl

/-- A method or constructor with the modifiers before it. -/
theorem reads_finish {member : SyntaxTree × Reading} {tree : SyntaxTree}
    (read : before.Reads member bare tree rest) (modifiers : List Modifier) (start : Position) :
    before.Reads ((putPreamble ⟨modifiers.map (·.lexeme.text), []⟩
      { member.1 with range := member.2.since start }).put "typeParams" (Token.join []), member.2)
      bare (tree.put "modifiers" (modifierText modifiers)) rest := by
  refine ⟨read.toPasses, ?_⟩
  rw [show Token.join [] = "" from rfl, put_empty, bare_putPreamble, bare_with_range,
    read.value_eq]
  rfl

/-! ### Members without inner types -/

/-- After the first word of a type no bracket of a parameter list opens. -/
theorem not_thenSees_type (type : TypeUse) {tokens : List Token}
    (spells : Spells type.lexemes tokens) {name : Lexeme} (isIdent : name.isIdent) {token : Token}
    (writes : name.Writes token) (there : before.rest = tokens ++ token :: rest) :
    ¬before.thenSees "(" := by
  have noBracket : ¬name.isAny ["("] :=
    Lexeme.not_isAny_of_isIdent isIdent [.openRound] (by decide)
  obtain _ | ⟨_, spells⟩ := spells
  obtain ⟨names, late, rfl, spellsNames, spells⟩ := Spells.exists_append spells
  obtain ⟨arguments, marks, rfl, spellsArguments, spellsMarks⟩ := Spells.exists_append spells
  have afterArguments : clearOf ["("] (marks ++ token :: rest) := by
    refine clearOf_spells ?_ spellsMarks (by simpa [clearOf, writes.isAny_eq] using noBracket)
    cases type.marks <;> rfl
  have afterNames : clearOf ["("] (arguments ++ (marks ++ token :: rest)) := by
    refine clearOf_spells ?_ spellsArguments afterArguments
    cases type.arguments? <;> rfl
  have behind : clearOf ["("] (names ++ (arguments ++ (marks ++ token :: rest))) := by
    refine clearOf_spells ?_ spellsNames afterNames
    cases type.qualifiers <;> rfl
  simpa [Reading.thenSees, there, clearOf, Token.isAny] using behind

/-- The words and signs of other members are not the first word of a type. -/
theorem not_sees_memberHeads {lexeme : Lexeme} (starts : lexeme.startsType) {token : Token}
    (writes : lexeme.Writes token) (there : reading.rest = token :: rest) :
    ∀ sign ∈ memberHeads, ¬reading.sees sign := by
  have isIdent := Lexeme.isIdent_of_startsType starts
  have word {text : String} (reserved : isKeyword text) (noType : ¬isTypeWord text) :
      ¬lexeme.is text := by
    intro is
    rw [Lexeme.startsType, Lexeme.text_eq_of_is is] at starts
    simp [reserved, noType] at starts
  have noRecord : ¬lexeme.is "record" := by
    intro is
    simp [Lexeme.startsType, is] at starts
  have sees (text : String) : reading.sees text = lexeme.is text := by
    rw [Reading.sees_eq_is there, writes.is_eq]
  simp only [memberHeads, List.forall_mem_cons, sees]
  exact ⟨word (by decide) (by decide), word (by decide) (by decide),
    Lexeme.not_is_of_isIdent isIdent .atSign (by decide), word (by decide) (by decide), noRecord,
    Lexeme.not_is_of_isIdent isIdent .openBrace (by decide), by simp⟩

/-- A member whose modifiers are read and that starts with a type or a name. -/
theorem memberWithin_of_modifiers (modifiers : List Modifier) (owner : String) (bound : Nat)
    {pen last : Pen} {first : Lexeme} (starts : first.startsType)
    (there : before.rest = pen.lay (modifierLexemes modifiers) ++ last.token first :: rest) :
    ∃ after, before.Passes (last.token first :: rest) after ∧
      memberWithin (bound + 1) (some owner) before =
        typedMember owner ⟨modifiers.map (·.lexeme.text), []⟩ [] before.start after := by
  have front := reads_preamble modifiers there (not_startsPreamble starts ⟨rfl, rfl⟩ _)
  have noAngles : ¬(preamble before).2.sees "<" := not_sees_of_isIdent front.rest_eq
    (Lexeme.isIdent_of_startsType starts) .openAngle (by decide)
  refine ⟨(preamble before).2, front.toPasses, ?_⟩
  rw [memberWithin_plain bound owner (not_sees_memberHeads starts ⟨rfl, rfl⟩ front.rest_eq),
    plainMember_eq, typeParameters, if_neg noAngles, front.eq]

/-- A member is read back, whatever follows it. -/
def ReadsMember (owner : TypeName) (member : Member) : Prop :=
  ∀ (bound : Nat) (before : Reading) (pen : Pen) (rest : List Token),
    Call.Suffices ⟨bound, .member (some owner.lexeme.text), before⟩ →
    before.rest = pen.lay (member.lexemes owner) ++ rest →
    before.Reads (memberWithin bound (some owner.lexeme.text) before) bare (member.tree owner) rest

variable (owner : TypeName) (modifiers : List Modifier)

/-- A constructor can be read. -/
theorem readsMember_constructor (tail : MethodTail) :
    ReadsMember owner (.constructor modifiers tail) := by
  intro bound before pen rest enough there
  obtain ⟨bound, rfl⟩ := Nat.exists_eq_add_one.mpr (Call.bound_pos enough)
  rw [Member.lexemes, Pen.lay_append, Pen.lay_cons, List.append_assoc, List.cons_append] at there
  obtain ⟨after, passed, read⟩ := memberWithin_of_modifiers modifiers owner.lexeme.text bound
    owner.startsType there
  have opens : after.thenSees "(" := by
    rw [Reading.thenSees, passed.rest_eq]
    rfl
  have named := passes_next passed.rest_eq
  rw [read, typedMember_constructor owner.lexeme.text _ _ _ passed.rest_eq rfl opens]
  exact (passed.trans named).reads
    (reads_finish (reads_methodRest tail _ named.rest_eq) modifiers before.start)

/-- A type and a name are no constructor. -/
theorem noConstructor_of_type (type : TypeUse) {tokens : List Token}
    (spells : Spells type.lexemes tokens) (name : Name) (owner : String) {token : Token}
    (writes : name.lexeme.Writes token) (there : before.rest = tokens ++ token :: rest) :
    ¬(before.rest.head?.any (·.text = owner) && before.thenSees "(") := by
  simp [not_thenSees_type type spells name.isIdent writes there]

/-- A method can be read. -/
theorem readsMember_method (type : TypeUse) (name : Name) (tail : MethodTail) :
    ReadsMember owner (.method modifiers type name tail) := by
  intro bound before pen rest enough there
  obtain ⟨bound, rfl⟩ := Nat.exists_eq_add_one.mpr (Call.bound_pos enough)
  rw [Member.lexemes, Pen.lay_append, Pen.lay_append, Pen.lay_cons, List.append_assoc,
    List.append_assoc, List.cons_append] at there
  obtain ⟨after, passed, read⟩ := memberWithin_of_modifiers modifiers owner.lexeme.text bound
    type.starts there
  have typed :=
    reads_typeText type passed.rest_eq (clearOf_typeSigns_word name.isIdent ⟨rfl, rfl⟩ _)
  have named := passes_next typed.rest_eq
  have opens : (typeText after).2.next.sees "(" := sees_of_is named.rest_eq rfl
  have noConstructor := noConstructor_of_type type (Pen.spells_lay _ _) name owner.lexeme.text
    ⟨rfl, rfl⟩ passed.rest_eq
  rw [read, typedMember_method _ _ _ _ noConstructor typed.eq typed.rest_eq name.isName opens]
  exact (passed.trans (typed.toPasses.trans named)).reads
    (reads_finish (reads_methodRest tail _ named.rest_eq) modifiers before.start)

/-- A field of one name without an initial value. -/
theorem reads_fieldsWithin (type : String) (bound : Nat) (name : Token) {last : Pen}
    (there : before.rest = last.token .semicolon :: rest) :
    before.Reads (fieldsWithin ⟨modifiers.map (·.lexeme.text), []⟩ type (bound + 1) name before)
      (List.map bare)
      [(SyntaxTree.put { kind := .field, name := some name.text, range := default }
        "type" type).put "modifiers" (modifierText modifiers)] (last.token .semicolon :: rest) := by
  have noMarks : Span.arrayMarks before.rest = .none before.rest := by
    rw [there]
    exact Span.arrayMarks_eq_none rfl
  have marked := passes_arrayMarks there rfl
  have noValue : ¬(before.pass (Span.arrayMarks before.rest)).sees "=" := by
    rw [sees_of_rest marked.rest_eq]
    decide
  have noOther : ¬(before.pass (Span.arrayMarks before.rest)).sees "," := by
    rw [sees_of_rest marked.rest_eq]
    decide
  have initial : initialValue before = ([], before.pass (Span.arrayMarks before.rest)) := by
    unfold initialValue
    dsimp only
    rw [if_neg noValue]
  rw [fieldsWithin_succ, initial]
  dsimp only
  rw [if_neg noOther]
  refine ⟨marked, congrArg (fun field => [field]) ?_⟩
  rw [fieldNode, initial, noMarks, show Token.join [] = "" from rfl, put_empty, bare_putPreamble,
    bare_put, append_noMarks]
  rfl

/-- One field alone is its declaration. -/
theorem reads_lastField {fields : List SyntaxTree × Reading} {tree : SyntaxTree} {token : Token}
    (isEnd : token.is ";") (read : before.Reads fields (List.map bare) [tree] (token :: rest))
    (start : Position) :
    let after := fields.2.expect ";" "after field declaration"
    before.Reads (groupFields fields.1 (after.since start), after) bare tree rest := by
  obtain ⟨field, is, same⟩ := List.map_eq_singleton_iff.mp read.value_eq
  refine ⟨read.toPasses.trans (passes_expect _ _ read.rest_eq isEnd), ?_⟩
  rw [is]
  exact same

/-- A field can be read. -/
theorem readsMember_field (type : TypeUse) (name : Name) :
    ReadsMember owner (.field modifiers type name) := by
  intro bound before pen rest enough there
  obtain ⟨bound, rfl⟩ := Nat.exists_eq_add_one.mpr (Call.bound_pos enough)
  rw [Member.lexemes, Pen.lay_append, Pen.lay_append, Pen.lay_cons, Pen.lay_cons, Pen.lay_nil,
    List.append_assoc, List.append_assoc, List.cons_append, List.cons_append,
    List.nil_append] at there
  obtain ⟨after, passed, read⟩ := memberWithin_of_modifiers modifiers owner.lexeme.text bound
    type.starts there
  have typed :=
    reads_typeText type passed.rest_eq (clearOf_typeSigns_word name.isIdent ⟨rfl, rfl⟩ _)
  have named := passes_next typed.rest_eq
  have noMethod : ¬(typeText after).2.next.sees "(" := by
    rw [sees_of_rest named.rest_eq]
    decide
  have noConstructor := noConstructor_of_type type (Pen.spells_lay _ _) name owner.lexeme.text
    ⟨rfl, rfl⟩ passed.rest_eq
  rw [read, typedMember_field _ _ _ _ noConstructor typed.eq typed.rest_eq name.isName noMethod]
  exact (passed.trans (typed.toPasses.trans named)).reads
    (reads_lastField rfl (reads_fieldsWithin modifiers type.text _ _ named.rest_eq) before.start)

/-! ### Types and their members -/

/-- Members are read back, up to the brace that closes their type. -/
def ReadsMembers (owner : TypeName) (members : List Member) : Prop :=
  ∀ (bound : Nat) (word : String) (range : SourceRange) (before : Reading) (pen last : Pen)
    (rest : List Token),
    Call.Suffices ⟨bound, .members owner.lexeme.text word range, before⟩ →
    before.rest = pen.lay (Member.lexemesOf owner members) ++ last.token .closeBrace :: rest →
    before.Reads (membersWithin bound owner.lexeme.text word range before) bares
      (Member.treesOf owner members) rest

/-- The header of a type is read behind its name. -/
theorem reads_typeHeader (header : TypeHeader) (node : SyntaxTree) {pen last : Pen}
    (there : before.rest = pen.lay header.tailLexemes ++ last.token .openBrace :: rest) :
    before.Reads (typeHeader node before) bare (header.complete node.bare)
      (last.token .openBrace :: rest) := by
  rw [TypeHeader.tailLexemes, Pen.lay_append, Pen.lay_append, List.append_assoc,
    List.append_assoc] at there
  have afterBases (pen : Pen) : clearOf ("<" :: "extends" :: listEnds)
      (pen.lay (typesAfter .implementsWord header.interfaces) ++
        last.token .openBrace :: rest) := by
    refine clearOf_lay ?_ pen rfl
    cases header.interfaces <;> rfl
  have afterParameters (first second : Pen) : clearOf ["<"]
      (first.lay (typesAfter .extendsWord header.bases) ++
        (second.lay (typesAfter .implementsWord header.interfaces) ++
          last.token .openBrace :: rest)) := by
    refine clearOf_lay ?_ first (clearOf_mono (afterBases second) (by decide))
    cases header.bases <;> rfl
  have parameters := reads_typeParameters header.parameters? (pen.spells_lay _) there
    (afterParameters _ _)
  have bases := reads_heritage "extends" rfl header.bases parameters.rest_eq
    (clearOf_mono (afterBases _) (by decide))
  have interfaces := reads_heritage "implements" rfl header.interfaces bases.rest_eq rfl
  have noWord : ¬(heritage "implements" (heritage "extends" (typeParameters before).2).2).2.sees
      "permits" := by
    rw [sees_of_rest interfaces.rest_eq]
    decide
  have noPermits : heritage "permits" _ = _ := if_neg noWord
  have angles := congrArg Token.join parameters.value_eq
  have baseTexts := congrArg (", ".intercalate ·) bases.value_eq
  have interfaceTexts := congrArg (", ".intercalate ·) interfaces.value_eq
  dsimp only [id] at angles baseTexts interfaceTexts
  rw [typeHeader_eq]
  dsimp only
  rw [noPermits, angles, baseTexts, interfaceTexts, Pen.join_lay]
  refine ⟨parameters.toPasses.trans (bases.toPasses.trans interfaces.toPasses), ?_⟩
  rw [bare_put, bare_put, bare_put]
  rfl

/-- A header is one of a class or of an interface. -/
theorem word_cases (header : TypeHeader) :
    header.kind = .classDecl ∧ header.word = .classWord ∨
      header.kind = .interfaceDecl ∧ header.word = .interfaceWord := by
  unfold TypeHeader.kind TypeHeader.word
  cases header.isInterface
  · exact .inl ⟨rfl, rfl⟩
  · exact .inr ⟨rfl, rfl⟩

/-- A member that begins with the word of a type is a type. -/
theorem memberWithin_type (header : TypeHeader) (owner? : Option String) (bound : Nat) {pen : Pen}
    (there : (preamble before).2.rest = pen.token header.word :: rest) :
    memberWithin (bound + 1) owner? before =
      let front := preamble before
      let type := typeWithin bound header.kind header.word.text before.start front.2.next
      (putPreamble front.1 type.1, type.2) := by
  rcases word_cases header with ⟨kind, word⟩ | ⟨kind, word⟩
  · rw [word] at there
    rw [memberWithin_class bound owner? (sees_of_is there rfl), kind, word]
    rfl
  · rw [word] at there
    rw [memberWithin_interface bound owner? (by rw [sees_of_rest there]; decide)
      (sees_of_is there rfl), kind, word]
    rfl

/-- A type after the word that introduces it. -/
theorem reads_typeWithin (header : TypeHeader) {members : List Member}
    (inner : ReadsMembers header.name members) {bound : Nat} {word : String} {start : Position}
    {first second third fourth last : Pen}
    (enough : Call.Suffices ⟨bound, .type header.kind word start, before⟩)
    (there : before.rest = first.token header.name.lexeme :: (second.lay header.tailLexemes ++
      third.token .openBrace :: (fourth.lay (Member.lexemesOf header.name members) ++
        last.token .closeBrace :: rest))) :
    before.Reads (typeWithin bound header.kind word start before) bare
      (header.complete (header.node (Member.treesOf header.name members))) rest := by
  obtain ⟨bound, rfl⟩ := Nat.exists_eq_add_one.mpr (Call.bound_pos enough)
  have named := passes_next there
  let node : SyntaxTree :=
    { kind := header.kind, name := some header.name.lexeme.text,
      range := (first.token header.name.lexeme).range }
  have head := reads_typeHeader header node named.rest_eq
  have opens : (typeHeader node before.next).2.sees "\x7b" := sees_of_is head.rest_eq rfl
  have opened := passes_next head.rest_eq
  have read := inner _ _ _ _ _ _ _ ((Call.Calls.members there opens).suffices enough)
    opened.rest_eq
  rw [typeWithin_succ _ _ _ _ there header.name.isName opens]
  refine ⟨named.trans (head.toPasses.trans (opened.trans read.toPasses)), ?_⟩
  dsimp only
  rw [bare_with_children]
  exact congrArg₂ (fun (tree : SyntaxTree) children => { tree with children }) head.value_eq
    read.value_eq

/-- A type is read with its members. -/
theorem reads_type (header : TypeHeader) {members : List Member}
    (inner : ReadsMembers header.name members) (owner? : Option String) {bound : Nat} {pen : Pen}
    (enough : Call.Suffices ⟨bound, .member owner?, before⟩)
    (there : before.rest =
      pen.lay (header.lexemes ++ braced (Member.lexemesOf header.name members)) ++ rest) :
    before.Reads (memberWithin bound owner? before) bare
      (header.tree (Member.treesOf header.name members)) rest := by
  obtain ⟨bound, rfl⟩ := Nat.exists_eq_add_one.mpr (Call.bound_pos enough)
  simp only [TypeHeader.lexemes, Pen.lay_append, Pen.lay_cons, List.append_assoc,
    List.cons_append, lay_braced] at there
  have noPreamble (pen : Pen) (tokens : List Token) :
      !(pen.token header.word :: tokens).head?.any startsPreamble := by
    rcases word_cases header with ⟨-, word⟩ | ⟨-, word⟩ <;> rw [word] <;> rfl
  have front := reads_preamble header.modifiers there (noPreamble _ _)
  have named := passes_next front.rest_eq
  have sees : (preamble before).2.sees header.word.text := by
    refine sees_of_is front.rest_eq ?_
    rcases word_cases header with ⟨-, word⟩ | ⟨-, word⟩ <;> rw [word] <;> rfl
  have which : (header.kind, header.word.text) ∈
      [(SyntaxKind.classDecl, "class"), (.interfaceDecl, "interface")] := by
    rcases word_cases header with ⟨kind, word⟩ | ⟨kind, word⟩ <;> rw [kind, word] <;> decide
  have read := reads_typeWithin header inner ((Call.Calls.type sees which).suffices enough)
    named.rest_eq
  rw [memberWithin_type header owner? bound front.rest_eq]
  refine ⟨front.toPasses.trans (named.trans read.toPasses), ?_⟩
  dsimp only
  have modifiers : (preamble before).1 = ⟨_, []⟩ := front.value_eq
  rw [modifiers, bare_putPreamble, read.value_eq]
  rfl

/-- No members are read up to the brace that closes them. -/
theorem readsMembers_nil (owner : TypeName) : ReadsMembers owner [] := by
  intro bound word range before pen last rest enough there
  obtain ⟨bound, rfl⟩ := Nat.exists_eq_add_one.mpr (Call.bound_pos enough)
  rw [Member.lexemesOf, Pen.lay_nil, List.nil_append] at there
  unfold membersWithin
  rw [if_neg (not_done_of_rest there), if_pos (sees_of_is there rfl)]
  exact ⟨passes_next there, rfl⟩

/-- What stands behind modifiers starts with one of them or with its own first lexeme. -/
theorem exists_first_of_modifiers (modifiers : List Modifier) (first : Lexeme)
    (others : List Lexeme) : ∃ head tail,
      modifierLexemes modifiers ++ first :: others = head :: tail ∧
        (head.isModifier ∨ head = first) := by
  cases modifiers with
  | nil => exact ⟨first, others, rfl, .inr rfl⟩
  | cons modifier modifiers => exact ⟨modifier.lexeme, _, rfl, .inl modifier.modifies⟩

/-- What starts a declaration is an identifier. -/
theorem isIdent_of_modifies_or {first head : Lexeme} (isIdent : first.isIdent)
    (which : head.isModifier ∨ head = first) : head.isIdent := by
  rcases which with modifies | rfl
  · exact (Bool.and_eq_true_iff.mp modifies).1
  · exact isIdent

theorem isIdent_word (header : TypeHeader) : header.word.isIdent := by
  rcases word_cases header with ⟨-, word⟩ | ⟨-, word⟩ <;> rw [word] <;> rfl

/-- A type starts with a word, and with none of those that start other parts of a text. -/
theorem exists_first_header (header : TypeHeader) : ∃ first others,
    header.lexemes = first :: others ∧ first.isIdent ∧
      ¬first.is "package" ∧ ¬first.is "import" := by
  obtain ⟨first, others, spelled, which⟩ := exists_first_of_modifiers header.modifiers header.word
    (header.name.lexeme :: header.tailLexemes)
  have noModifier {text : String} (none : ¬isModifier text) (modifies : first.isModifier) :
      ¬first.is text := by
    intro is
    rw [Lexeme.isModifier, Lexeme.text_eq_of_is is] at modifies
    exact none (Bool.and_eq_true_iff.mp modifies).2
  refine ⟨first, others, spelled, isIdent_of_modifies_or (isIdent_word header) which, ?_⟩
  rcases which with modifies | rfl
  · exact ⟨noModifier (by decide) modifies, noModifier (by decide) modifies⟩
  · rcases word_cases header with ⟨-, word⟩ | ⟨-, word⟩ <;> rw [word] <;> decide

/-- A member starts with a word. -/
theorem exists_first (owner : TypeName) (member : Member) : ∃ first others,
    member.lexemes owner = first :: others ∧ first.isIdent := by
  have front (modifiers : List Modifier) {first : Lexeme} (isIdent : first.isIdent)
      (others : List Lexeme) : ∃ head tail,
        modifierLexemes modifiers ++ first :: others = head :: tail ∧ head.isIdent := by
    obtain ⟨head, tail, spelled, which⟩ := exists_first_of_modifiers modifiers first others
    exact ⟨head, tail, spelled, isIdent_of_modifies_or isIdent which⟩
  cases member with
  | inner header members =>
    obtain ⟨first, others, spelled, isIdent, _⟩ := exists_first_header header
    rw [Member.lexemes, spelled]
    exact ⟨first, _, rfl, isIdent⟩
  | field modifiers type name => exact front modifiers type.isIdent _
  | method modifiers type name tail => exact front modifiers type.isIdent _
  | constructor modifiers tail => exact front modifiers owner.isIdent _

/-- A type is no call. -/
theorem kind_tree_header (header : TypeHeader) (members : List SyntaxTree) :
    (header.tree members).kind ≠ .call := by
  change header.kind ≠ .call
  rcases word_cases header with ⟨kind, -⟩ | ⟨kind, -⟩ <;> rw [kind] <;>
    exact SyntaxKind.noConfusion

/-- A member is no call. -/
theorem kind_tree_member (owner : TypeName) (member : Member) :
    (member.tree owner).kind ≠ .call := by
  cases member with
  | inner header members => exact kind_tree_header header _
  | _ => exact SyntaxKind.noConfusion

/-- A member that can be read before others that can. -/
theorem readsMembers_cons {owner : TypeName} {member : Member} {members : List Member}
    (first : ReadsMember owner member) (others : ReadsMembers owner members) :
    ReadsMembers owner (member :: members) := by
  intro bound word range before pen last rest enough there
  obtain ⟨bound, rfl⟩ := Nat.exists_eq_add_one.mpr (Call.bound_pos enough)
  rw [Member.lexemesOf, Pen.lay_append, List.append_assoc] at there
  obtain ⟨head, tail, spelled, isIdent⟩ := exists_first owner member
  have start := there
  rw [spelled, Pen.lay_cons, List.cons_append] at start
  have more := not_done_of_rest start
  have inside : ¬before.sees "\x7d" :=
    not_sees_of_isIdent start isIdent .closeBrace (by decide)
  have filled : ¬before.sees ";" := not_sees_of_isIdent start isIdent .semicolon (by decide)
  have read := first bound before pen _ ((Call.Calls.member more inside filled).suffices enough)
    there
  have later := others bound word range _ _ _ _
    ((Call.Calls.laterMembers more inside filled).suffices enough) read.rest_eq
  unfold membersWithin
  rw [if_neg more, if_neg inside, if_neg filled]
  refine ⟨read.toPasses.trans later.toPasses, ?_⟩
  dsimp only
  rw [bares_cons_of_bare read.value_eq (kind_tree_member owner member), later.value_eq]
  rfl

mutual

theorem reads_member (owner : TypeName) : ∀ member : Member, ReadsMember owner member
  | .inner header members => fun _ _ _ _ enough there =>
    reads_type header (reads_members header.name members) _ enough there
  | .field modifiers type name => readsMember_field owner modifiers type name
  | .method modifiers type name tail => readsMember_method owner modifiers type name tail
  | .constructor modifiers tail => readsMember_constructor owner modifiers tail

theorem reads_members (owner : TypeName) : ∀ members : List Member, ReadsMembers owner members
  | [] => readsMembers_nil owner
  | member :: members =>
    readsMembers_cons (reads_member owner member) (reads_members owner members)

end

/-! ### Texts -/

/-- A type of a text. -/
theorem reads_declaration (type : TypeDeclaration) {pen : Pen}
    (there : before.rest = pen.lay type.lexemes ++ rest) :
    ¬before.done ∧ ¬before.sees ";" ∧
      before.Reads (declaration before) bare type.tree rest := by
  obtain ⟨first, others, spelled, isIdent, noPackage, noImport⟩ := exists_first_header type.header
  have start := there
  rw [TypeDeclaration.lexemes, spelled, List.cons_append, Pen.lay_cons, List.cons_append] at start
  refine ⟨not_done_of_rest start, not_sees_of_isIdent start isIdent .semicolon (by decide), ?_⟩
  have noBrace : ¬before.sees "\x7d" := not_sees_of_isIdent start isIdent .closeBrace (by decide)
  unfold declaration
  rw [if_neg (by rwa [sees_of_rest start]), if_neg (by rwa [sees_of_rest start]), if_neg noBrace]
  exact reads_type type.header (reads_members _ _) none (Call.suffices_of_fuel rfl) there

/-- The types of a text. -/
theorem reads_declarationsWithin (types : List TypeDeclaration) {bound : Nat} {pen : Pen}
    (enough : before.rest.length < bound)
    (there : before.rest = pen.lay (types.flatMap TypeDeclaration.lexemes)) :
    before.Reads (declarationsWithin bound before) bares (types.map TypeDeclaration.tree) [] := by
  induction types generalizing bound before pen with
  | nil =>
    obtain ⟨bound, rfl⟩ := Nat.exists_eq_add_one.mpr (Nat.zero_lt_of_lt enough)
    have left : before.rest = [] := there
    rw [declarationsWithin_succ, if_pos (Reading.done_iff.mpr left)]
    exact ⟨⟨left, rfl⟩, rfl⟩
  | cons type types ih =>
    obtain ⟨bound, rfl⟩ := Nat.exists_eq_add_one.mpr (Nat.zero_lt_of_lt enough)
    rw [List.flatMap_cons, Pen.lay_append] at there
    obtain ⟨more, filled, read⟩ := reads_declaration type there
    have fewer : (declaration before).2.rest.length < bound :=
      Nat.lt_of_lt_of_le (consumes_declaration more).2 (Nat.le_of_lt_succ enough)
    have later := ih fewer read.rest_eq
    rw [declarationsWithin_succ, if_neg more, if_neg filled]
    refine ⟨read.toPasses.trans later.toPasses, ?_⟩
    dsimp only
    rw [bares_cons_of_bare read.value_eq (kind_tree_header _ _), later.value_eq]
    rfl

end Parser

/-! ### Texts -/

/-- A text of lexemes is not blank. -/
theorem not_blank_spell (lexeme : Lexeme) (lexemes : List Lexeme) :
    ¬Text.isBlankText (spell (lexeme :: lexemes)) := by
  obtain ⟨c, cs, text⟩ := Lexer.exists_toList lexeme
  have next := Lexer.nextPiece_lexeme lexeme text (Lexer.blanked_ends lexemes)
  have filled : ¬Text.isBlank c := by
    intro blank
    rw [Lexer.nextPiece, if_pos blank] at next
    cases next
  intro blank
  rw [Text.isBlankText, toList_spell_cons, text] at blank
  exact filled (List.all_eq_true.mp blank c (by simp))

/-- The syntax tree of a text of types. -/
def programNode (children : List SyntaxTree) : SyntaxTree :=
  { kind := .program, children, range := default }

/-- A text of lexemes is read as its tokens are. -/
theorem exists_parseSource_spell (lexeme : Lexeme) (lexemes : List Lexeme)
    {trees : List SyntaxTree} (reads : ∀ before : Reading,
      before.rest = Pen.atStart.lay (lexeme :: lexemes) →
        before.Reads (Parser.declarationsWithin (before.rest.length + 1) before)
          SyntaxTree.bares trees []) :
    ∃ parsed, parseSource (spell (lexeme :: lexemes)) = .ok parsed ∧ parsed.diagnostics = [] ∧
      parsed.tree.bare = programNode trees := by
  have read := reads { rest := _, finish := Position.endOf (spell (lexeme :: lexemes)) } rfl
  unfold parseSource
  rw [if_neg (not_blank_spell lexeme lexemes), tokenize_spell]
  dsimp only
  exact ⟨_, rfl, congrArg List.reverse read.problems_eq, congrArg programNode read.value_eq⟩

/-- **Declarations are read back.** Of a text of types, with single blanks between its tokens, the
parser reports nothing, and what it reads is these types, but for places and marks of calls. -/
theorem declarations_read_back (type : TypeDeclaration) (types : List TypeDeclaration) :
    ∃ parsed, parseSource (spell ((type :: types).flatMap TypeDeclaration.lexemes)) = .ok parsed ∧
      parsed.diagnostics = [] ∧
      parsed.tree.bare = programNode ((type :: types).map TypeDeclaration.tree) := by
  obtain ⟨first, others, spelled, _⟩ := Parser.exists_first_header type.header
  obtain ⟨tail, start⟩ : ∃ tail,
      (type :: types).flatMap TypeDeclaration.lexemes = first :: tail := by
    rw [List.flatMap_cons, TypeDeclaration.lexemes, spelled]
    exact ⟨_, rfl⟩
  rw [start]
  refine exists_parseSource_spell first _ fun before there => ?_
  exact Parser.reads_declarationsWithin (type :: types) (Nat.lt_succ_self _) (start ▸ there)

namespace TypeUse

/-- The type of a method that returns nothing. -/
def void : TypeUse where
  head := .voidWord
  starts := by decide
  qualifiers := []
  arguments? := none
  marks := 0

end TypeUse

/-- **Statements are read back.** Of a class with one method, with single blanks between its tokens,
the parser reports nothing, and in the method's body it reads the statements that are spelled there,
but for places and marks of calls. -/
theorem statements_read_back (owner : TypeName) (name : Name) (statements : List Statement) :
    ∃ parsed,
      parseSource (spell ([.classWord, owner.lexeme, .openBrace, .voidWord, name.lexeme,
        .openRound, .closeRound] ++ braced (Statement.lexemesOf statements) ++ [.closeBrace])) =
          .ok parsed ∧
      parsed.diagnostics = [] ∧
      parsed.tree.bare = programNode [{
        kind := .classDecl
        name := owner.lexeme.text
        children := [{
          kind := .method
          name := name.lexeme.text
          children := [{
            kind := .block
            children := Statement.treesOf statements
            range := default }]
          range := default
          attributes := Dict.ofList [("returnType", "void")] }]
        range := default }] := by
  let method : Member := .method [] .void name ⟨[], [], some statements⟩
  let type : TypeDeclaration := ⟨⟨false, [], owner, none, [], []⟩, [method]⟩
  have spelled : [type].flatMap TypeDeclaration.lexemes = [.classWord, owner.lexeme, .openBrace,
      .voidWord, name.lexeme, .openRound, .closeRound] ++
        braced (Statement.lexemesOf statements) ++ [.closeBrace] := by
    simp [type, method, TypeDeclaration.lexemes, TypeHeader.lexemes, TypeHeader.word,
      TypeHeader.tailLexemes, Member.lexemes, Member.lexemesOf, MethodTail.lexemes,
      MethodTail.bodyLexemes, TypeUse.lexemes, TypeUse.void, modifierLexemes, anglesOf, typesAfter,
      pointed, arrayMarks, separated, grouped, braced]
  rw [← spelled]
  refine exists_parseSource_spell .classWord _ fun before there => ?_
  exact Parser.reads_declarationsWithin [type] (Nat.lt_succ_self _) there

example :
    let owner : TypeName := ⟨⟨⟨.ident, "A", by decide +kernel⟩, by decide⟩, by decide, by decide⟩
    let name : Name := ⟨⟨.ident, "f", by decide +kernel⟩, by decide⟩
    let statements : List Statement := [.doLoop [.returned ⟨[], by decide, by decide⟩]
      ⟨[.openSquare, .closeSquare], by decide, by decide⟩]
    spell (TypeDeclaration.lexemes
      ⟨⟨false, [], owner, none, [], []⟩, [.method [] .void name ⟨[], [], some statements⟩]⟩) =
        "class A \x7b void f ( ) \x7b do \x7b return ; \x7d while ( [ ] ) ; \x7d \x7d" := by
  decide +kernel

end Transcode
