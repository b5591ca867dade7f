import Transcode.Source.Parser

/-!
# Parts of the parser

The longer functions of the parser in parts: what comes before a function calls another one, and
what is done with the answer.
-/

namespace Transcode

/-- A token that is seen by a text has that text. -/
theorem Token.text_eq_of_is {token : Token} {text : String} (is : token.is text) :
    token.text = text := by
  simp only [Token.is, Bool.and_eq_true, decide_eq_true_eq] at is
  exact is.2

/-- A token is one word or sign only. -/
theorem Token.is_eq {token : Token} {text : String} (is : token.is text) (other : String) :
    token.is other = decide (text = other) := by
  unfold Token.is at is ⊢
  simp only [Bool.and_eq_true, decide_eq_true_eq] at is
  simp [is.1.1, is.1.2, is.2]

namespace Parser

open Transcode.Span hiding none

/-! ### Statements, by their first token -/

variable {reading : Reading} {head : Token} {rest : List Token}

/-- A reserved word is no name. -/
theorem not_isName_of_is {text : String} (is : head.is text) (reserved : isKeyword text) :
    ¬isName head := by
  unfold Token.is at is
  simp only [Bool.and_eq_true, decide_eq_true_eq] at is
  simp [isName, is.2, reserved]

/-- A statement that begins with its word is a condition with one or two branches. -/
theorem statementWithin_if (bound : Nat) (there : reading.rest = head :: rest)
    (is : head.is "if") : statementWithin (bound + 1) reading =
      let condition := roundGroup reading.next
      let consequence := bodyWithin bound reading.start condition.2.2
      if consequence.2.sees "else" then
        let alternative := bodyWithin bound reading.start consequence.2.next
        (some ((conditional .branch condition.1 (alternative.2.since reading.start)
          [consequence.1, alternative.1]).put "else" "true"), alternative.2)
      else (some (conditional .branch condition.1 (consequence.2.since reading.start)
        [consequence.1]), consequence.2) := by
  have noName : ¬isName head := not_isName_of_is is (by decide)
  unfold statementWithin
  simp [there, noName, Token.is_eq is]

/-- A statement that begins with its word is a loop with a header. -/
theorem statementWithin_for (bound : Nat) (there : reading.rest = head :: rest)
    (is : head.is "for") : statementWithin (bound + 1) reading =
      let header := roundGroup reading.next
      let node := forNode header.1 reading.start header.2.2
      let body := bodyWithin bound reading.start node.2
      (some { node.1 with
        children := callNodes header.1 ++ [body.1], range := body.2.since reading.start },
        body.2) := by
  have noName : ¬isName head := not_isName_of_is is (by decide)
  unfold statementWithin
  simp [there, noName, Token.is_eq is]

/-- A statement that begins with its word is a loop with its condition first. -/
theorem statementWithin_while (bound : Nat) (there : reading.rest = head :: rest)
    (is : head.is "while") : statementWithin (bound + 1) reading =
      let condition := roundGroup reading.next
      let body := bodyWithin bound reading.start condition.2.2
      (some (conditional .whileLoop condition.1 (body.2.since reading.start) [body.1]),
        body.2) := by
  have noName : ¬isName head := not_isName_of_is is (by decide)
  unfold statementWithin
  simp [there, noName, Token.is_eq is]

/-- A statement that begins with its word is a loop with its condition last. -/
theorem statementWithin_do (bound : Nat) (there : reading.rest = head :: rest)
    (is : head.is "do") : statementWithin (bound + 1) reading =
      let body := bodyWithin bound reading.start reading.next
      let condition := roundGroup (body.2.expect "while" "after do body")
      let after := condition.2.2.expect ";" "after do/while condition"
      (some (conditional .doLoop condition.1 (after.since reading.start) [body.1]), after) := by
  have noName : ¬isName head := not_isName_of_is is (by decide)
  unfold statementWithin
  simp [there, noName, Token.is_eq is]

/-- The words and signs that a statement of a form of its own starts with. -/
def statementHeads : List String := [";", "\x7b", "if", "for", "while", "do"]

/-- A statement that begins with a brace is a block. -/
theorem statementWithin_brace (bound : Nat) (there : reading.rest = head :: rest)
    (noName : ¬isName head) (is : head.is "\x7b") : statementWithin (bound + 1) reading =
      (some (blockWithin bound reading).1, (blockWithin bound reading).2) := by
  unfold statementWithin
  simp [there, noName, Token.is_eq is]

/-- What has no form of its own, and no label in front, is a plain statement. -/
theorem statementWithin_plain (bound : Nat) (there : reading.rest = head :: rest)
    (noLabel : ¬(isName head ∧ reading.thenSees ":")) (plain : ¬head.isAny statementHeads) :
    statementWithin (bound + 1) reading =
      let statement := plainStatement head reading
      (some { statement.1 with range := statement.2.since reading.start }, statement.2) := by
  simp only [Token.isAny, statementHeads, List.any_cons, List.any_nil, Bool.or_false,
    Bool.or_eq_true, not_or] at plain
  unfold statementWithin
  simp [there, noLabel, plain]

/-! ### Methods and fields -/

/-- The type parameters that stand next, if any do. -/
def typeParameters (reading : Reading) : List Token × Reading :=
  if reading.sees "<" then angleGroup reading else ([], reading)

/-- A type begins with a word that is no keyword but that of a type. -/
theorem typeText_cons (there : reading.rest = head :: rest)
    (starts : ¬(!head.isIdent || (isKeyword head.text && !isTypeWord head.text))) :
    typeText reading =
      let names := qualifiers rest
      let arguments := typeParameters (reading.next.pass names)
      let marks := arrayMarks arguments.2.rest
      let afterMarks := arguments.2.pass marks
      let ellipsis := if afterMarks.sees "..." then afterMarks.rest.take 1 else []
      (some (Token.join (head :: names.taken ++ arguments.1 ++ marks.taken ++ ellipsis)),
        afterMarks.skip "...") := by
  unfold typeText
  rw [there]
  dsimp only
  rw [if_neg starts]
  rfl

/-- A type before a comma comes before the others. -/
theorem typesWithin_succ {type : String} {after : Reading}
    (read : typeText reading = (some type, after)) (bound : Nat) :
    typesWithin (bound + 1) reading =
      if after.sees "," then
        (type :: (typesWithin bound after.next).1, (typesWithin bound after.next).2)
      else ([type], after) := by
  rw [typesWithin, read]

/-- The parameters of a method, the bracket before them included. -/
def methodParameters (reading : Reading) : List SyntaxTree × Reading :=
  let opened := reading.expect "(" "to open parameter list"
  parametersWithin (opened.rest.length + 1) opened

/-- What is left of a method after its parameters, the bracket and the array marks behind them. -/
def afterParameters (reading : Reading) : Reading :=
  let closed := (methodParameters reading).2.expect ")" "to close parameter list"
  closed.pass (arrayMarks closed.rest)

/-- The types that a method throws. -/
def thrownTypes (reading : Reading) : List String × Reading :=
  heritage "throws" (afterParameters reading)

/-- The body of a method, or what stands in its place. -/
def methodBody (reading : Reading) : List SyntaxTree × Reading :=
  if reading.sees "\x7b" then
    let (body, after) := block reading
    ([body], after)
  else if reading.sees "default" then ([], (recover "unexpected default value" reading.next).2)
  else if reading.sees ";" then ([], reading.next)
  else
    let (fault, after) := recover "expected method body or ';'" reading
    ([fault], after)

/-- A method has its parameters, the types that it throws and its body. -/
theorem methodRest_eq (method : SyntaxTree) (reading : Reading) :
    methodRest method reading =
      ({ method.put "throws" (", ".intercalate (thrownTypes reading).1) with
          children := (methodParameters reading).1 ++ (methodBody (thrownTypes reading).2).1 },
        (methodBody (thrownTypes reading).2).2) := by
  fun_cases methodRest method reading with
  | case1 _ parameters afterParams readParameters _ _ thrown afterThrown readThrown _ body after
      readBody =>
    have parametersAre : methodParameters reading = (parameters, afterParams) := readParameters
    have thrownAre : thrownTypes reading = (thrown, afterThrown) := by
      rw [thrownTypes, heritage, afterParameters, parametersAre]
      exact readThrown
    have bodyIs : methodBody afterThrown = (body, after) := readBody
    rw [parametersAre, thrownAre, bodyIs]

/-- One parameter. -/
def parameter (reading : Reading) : SyntaxTree × Reading :=
  let start := reading.start
  let (preamble, afterPreamble) := preamble reading
  let (type?, afterType) := typeText afterPreamble
  match type?, afterType.rest with
  | some type, name :: _ =>
    if name.isIdent then
      let marks := arrayMarks afterType.next.rest
      let after := afterType.next.pass marks
      let type := type ++ String.join (List.replicate (marks.taken.length / 2) "[]")
      let node : SyntaxTree :=
        { kind := .parameter, name := some name.text, range := after.since start }
      (putPreamble preamble (node.put "type" type), after)
    else parametersWithin.malformed start afterType
  | _, _ => parametersWithin.malformed start afterType

/-- A parameter has modifiers, a type and a name. -/
theorem parameter_eq {front : Preamble} {afterFront afterType : Reading} {type : String}
    {name : Token} (readFront : preamble reading = (front, afterFront))
    (readType : typeText afterFront = (some type, afterType))
    (there : afterType.rest = name :: rest) (isIdent : name.isIdent) :
    parameter reading =
      let marks := arrayMarks afterType.next.rest
      let after := afterType.next.pass marks
      let type := type ++ String.join (List.replicate (marks.taken.length / 2) "[]")
      let node : SyntaxTree :=
        { kind := .parameter, name := some name.text, range := after.since reading.start }
      (putPreamble front (node.put "type" type), after) := by
  unfold parameter
  rw [readFront]
  dsimp only
  rw [readType]
  dsimp only
  rw [there]
  dsimp only
  rw [if_pos isIdent]

/-- A parameter before a comma comes before the others. -/
theorem parametersWithin_succ (fuel : Nat) (reading : Reading) :
    parametersWithin (fuel + 1) reading =
      if reading.done || reading.sees ")" then ([], reading)
      else if (parameter reading).2.sees "," then
        ((parameter reading).1 :: (parametersWithin fuel (parameter reading).2.next).1,
          (parametersWithin fuel (parameter reading).2.next).2)
      else ([(parameter reading).1], (parameter reading).2) := rfl

/-- A field's array marks and its initial value. -/
def initialValue (reading : Reading) : List Token × Reading :=
  let afterMarks := reading.pass (arrayMarks reading.rest)
  if afterMarks.sees "=" then
    let span := initializer 0 afterMarks.next.rest
    (span.taken, afterMarks.next.pass span)
  else ([], afterMarks)

/-- One of the fields of a type. -/
def fieldNode (preamble : Preamble) (type : String) (name : Token) (reading : Reading) :
    SyntaxTree :=
  let fieldType := type ++
    String.join (List.replicate ((arrayMarks reading.rest).taken.length / 2) "[]")
  let node : SyntaxTree :=
    { kind := .field, name := some name.text, children := callNodes (initialValue reading).1,
      range := (initialValue reading).2.since name.range.start }
  (putPreamble preamble (node.put "type" fieldType)).put "init"
    (Token.join (initialValue reading).1)

/-- A declarator before a comma comes before the others. -/
theorem fieldsWithin_succ (preamble : Preamble) (type : String) (fuel : Nat) (name : Token)
    (reading : Reading) :
    fieldsWithin preamble type (fuel + 1) name reading =
      let field := fieldNode preamble type name reading
      let after := (initialValue reading).2
      if after.sees "," then
        match after.next.rest with
        | name :: _ =>
          if isName name then
            (field :: (fieldsWithin preamble type fuel name after.next.next).1,
              (fieldsWithin preamble type fuel name after.next.next).2)
          else ([field], after.next.report "expected field name after ','" after.next.here)
        | [] => ([field], after.next.report "expected field name after ','" after.next.here)
      else ([field], after) := rfl

/-- A constructor, a method or fields, after their type parameters. -/
def typedMember (owner : String) (preamble : Preamble) (typeParams : List Token) (start : Position)
    (reading : Reading) : SyntaxTree × Reading :=
  let finish (member : SyntaxTree × Reading) : SyntaxTree × Reading :=
    let tree := putPreamble preamble { member.1 with range := member.2.since start }
    (tree.put "typeParams" (Token.join typeParams), member.2)
  if reading.rest.head?.any (fun token => token.text = owner) && reading.thenSees "(" then
    finish
      (methodRest { kind := .constructor, name := some owner, range := reading.here } reading.next)
  else
    match typeText reading with
    | (Option.none, after) => recover "expected member declaration" after
    | (some type, after) =>
      match after.rest with
      | [] => recover "expected member name" after
      | name :: _ =>
        if !isName name then recover "expected member name" after
        else if after.next.sees "(" then
          let node : SyntaxTree := { kind := .method, name := some name.text, range := name.range }
          finish (methodRest (node.put "returnType" type) after.next)
        else
          let (fields, after) :=
            fieldsWithin preamble type (after.rest.length + 1) name after.next
          let after := after.expect ";" "after field declaration"
          (groupFields fields (after.since start), after)

section

variable (owner : String) (front : Preamble) (typeParams : List Token) (start : Position)

/-- What is named after its class and has parameters is a constructor. -/
theorem typedMember_constructor (there : reading.rest = head :: rest) (same : head.text = owner)
    (opens : reading.thenSees "(") :
    typedMember owner front typeParams start reading =
      let member :=
        methodRest { kind := .constructor, name := some owner, range := reading.here } reading.next
      let tree := putPreamble front { member.1 with range := member.2.since start }
      (tree.put "typeParams" (Token.join typeParams), member.2) := by
  unfold typedMember
  rw [there]
  dsimp only
  rw [if_pos (by simp [same, opens])]

variable {type : String} {after : Reading}

/-- What has a type, a name and parameters is a method. -/
theorem typedMember_method
    (noConstructor : ¬(reading.rest.head?.any (·.text = owner) && reading.thenSees "("))
    (readType : typeText reading = (some type, after)) (there : after.rest = head :: rest)
    (name : isName head) (opens : after.next.sees "(") :
    typedMember owner front typeParams start reading =
      let node : SyntaxTree := { kind := .method, name := some head.text, range := head.range }
      let member := methodRest (node.put "returnType" type) after.next
      let tree := putPreamble front { member.1 with range := member.2.since start }
      (tree.put "typeParams" (Token.join typeParams), member.2) := by
  unfold typedMember
  dsimp only
  rw [if_neg noConstructor, readType]
  dsimp only
  rw [there]
  dsimp only
  rw [if_neg (by simp [name]), if_pos opens]

/-- What has a type and a name without parameters is a field. -/
theorem typedMember_field
    (noConstructor : ¬(reading.rest.head?.any (·.text = owner) && reading.thenSees "("))
    (readType : typeText reading = (some type, after)) (there : after.rest = head :: rest)
    (name : isName head) (noMethod : ¬after.next.sees "(") :
    typedMember owner front typeParams start reading =
      let fields := fieldsWithin front type (after.rest.length + 1) head after.next
      let last := fields.2.expect ";" "after field declaration"
      (groupFields fields.1 (last.since start), last) := by
  unfold typedMember
  dsimp only
  rw [if_neg noConstructor, readType]
  dsimp only
  rw [there]
  dsimp only
  rw [if_neg (by simp [name]), if_neg noMethod]

end

/-- A member may begin with type parameters. -/
theorem plainMember_eq (owner : String) (preamble : Preamble) (start : Position)
    (reading : Reading) :
    plainMember owner preamble start reading =
      typedMember owner preamble (typeParameters reading).1 start (typeParameters reading).2 := by
  unfold plainMember
  rewrite [← typeParameters]
  obtain ⟨typeParams, left⟩ := typeParameters reading
  dsimp only
  unfold typedMember
  rfl

/-! ### Members, by their first token -/

/-- A member that begins with its word is a class. -/
theorem memberWithin_class (bound : Nat) (owner? : Option String)
    (sees : (preamble reading).2.sees "class") :
    memberWithin (bound + 1) owner? reading =
      let front := preamble reading
      let type := typeWithin bound .classDecl "class" reading.start front.2.next
      (putPreamble front.1 type.1, type.2) := by
  unfold memberWithin
  simp only [sees, if_true]

/-- A member that begins with its word is an interface. -/
theorem memberWithin_interface (bound : Nat) (owner? : Option String)
    (noClass : ¬(preamble reading).2.sees "class")
    (sees : (preamble reading).2.sees "interface") :
    memberWithin (bound + 1) owner? reading =
      let front := preamble reading
      let type := typeWithin bound .interfaceDecl "interface" reading.start front.2.next
      (putPreamble front.1 type.1, type.2) := by
  unfold memberWithin
  simp [noClass, sees]

/-- The words and signs that other members than constructors, methods and fields start with. -/
def memberHeads : List String := ["class", "interface", "@", "enum", "record", "\x7b"]

/-- A member that begins with none of these words is a method, a constructor or a field. -/
theorem memberWithin_plain (bound : Nat) (owner : String)
    (other : ∀ sign ∈ memberHeads, ¬(preamble reading).2.sees sign) :
    memberWithin (bound + 1) (some owner) reading =
      plainMember owner (preamble reading).1 reading.start (preamble reading).2 := by
  simp only [memberHeads, List.forall_mem_cons] at other
  unfold memberWithin
  simp [other]

/-- A header has type parameters, and what the type extends and implements. -/
theorem typeHeader_eq (node : SyntaxTree) :
    typeHeader node reading =
      let parameters := typeParameters reading
      let bases := heritage "extends" parameters.2
      let interfaces := heritage "implements" bases.2
      (((node.put "typeParams" (Token.join parameters.1)).put
        "extends" (", ".intercalate bases.1)).put "implements" (", ".intercalate interfaces.1),
        (heritage "permits" interfaces.2).2) := rfl

/-- A type whose body opens. -/
theorem typeWithin_succ (bound : Nat) (kind : SyntaxKind) (word : String) (start : Position)
    (there : reading.rest = head :: rest) (name : isName head) :
    let node : SyntaxTree := { kind, name := some head.text, range := head.range }
    let header := typeHeader node reading.next
    let members :=
      membersWithin bound head.text word (header.2.since start) header.2.next
    header.2.sees "\x7b" → typeWithin (bound + 1) kind word start reading =
      ({ header.1 with children := members.1, range := members.2.since start }, members.2) := by
  intro node header members opens
  unfold typeWithin
  rw [there]
  dsimp only
  rw [if_neg (by simp [name]), if_pos opens]

/-- One declaration of a text, or what stands in its place. -/
def declaration (reading : Reading) : SyntaxTree × Reading :=
  if reading.sees "package" then headerDeclaration .package reading
  else if reading.sees "import" then headerDeclaration .importDecl reading
  else if reading.sees "\x7d" then
    (faultNode reading.here (reading.rest.take 1),
      reading.next.report "unmatched '\x7d'" reading.here)
  else memberWithin reading.fuel none reading

/-- Empty declarations are passed, and others are read one by one. -/
theorem declarationsWithin_succ (fuel : Nat) (reading : Reading) :
    declarationsWithin (fuel + 1) reading =
      if reading.done then ([], reading)
      else if reading.sees ";" then declarationsWithin fuel reading.next
      else ((declaration reading).1 :: (declarationsWithin fuel (declaration reading).2).1,
        (declarationsWithin fuel (declaration reading).2).2) := by
  simp only [declarationsWithin, declaration]

end Parser

end Transcode
