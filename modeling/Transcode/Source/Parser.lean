import Transcode.Source.Span
import Transcode.Source.Tree
import Transcode.Error

/-!
# Reading declarations and statements

The parser turns tokens into a syntax tree. It never gives up: tokens that fit nowhere become fault
nodes with a diagnostic, and reading goes on behind them. Only a blank text is refused.

The functions that call one another take a bound on the number of nested calls; the wrappers without
a bound choose one that the number of tokens makes sufficient.
-/

namespace Transcode

/-- The state of the parser: the tokens to come, the last one read, the problems found so far with
the latest first, and the end of the text. -/
structure Reading where
  rest : List Token
  last : Option Token := none
  problems : List Diagnostic := []
  finish : Position

namespace Reading

/-- Whether the next token is a given word or sign. -/
def sees (reading : Reading) (text : String) : Bool := reading.rest.head?.any (·.is text)

/-- Whether the token after the next is a given word or sign. -/
def thenSees (reading : Reading) (text : String) : Bool :=
  (reading.rest.drop 1).head?.any (·.is text)

/-- Whether all tokens are read. -/
def done (reading : Reading) : Bool := reading.rest.isEmpty

/-- The state after a stretch of tokens. -/
def pass (reading : Reading) (span : Span) : Reading :=
  { reading with rest := span.rest, last := span.taken.getLast?.or reading.last }

/-- The state after the next token. -/
def next (reading : Reading) : Reading :=
  match reading.rest with
  | [] => reading
  | token :: rest => { reading with rest, last := some token }

/-- The state after the next token if that is a given word or sign. -/
def skip (reading : Reading) (text : String) : Reading :=
  if reading.sees text then reading.next else reading

/-- Where the next token starts; the end of the text if there is none. -/
def start (reading : Reading) : Position :=
  match reading.rest with
  | [] => reading.finish
  | token :: _ => token.range.start

/-- Where the last token read ends. -/
def lastEnd (reading : Reading) : Position :=
  match reading.last with
  | none => reading.start
  | some token => token.range.stop

/-- The place of the next token; the end of the text if there is none. -/
def here (reading : Reading) : SourceRange :=
  match reading.rest with
  | [] => ⟨reading.finish, reading.finish⟩
  | token :: _ => token.range

/-- The range from a position through the last token read. -/
def since (reading : Reading) (start : Position) : SourceRange := ⟨start, reading.lastEnd⟩

/-- The range from a position through the last token read, empty if that ends before. -/
def sinceOrEmpty (reading : Reading) (start : Position) : SourceRange :=
  ⟨start, if reading.lastEnd.offset ≥ start.offset then reading.lastEnd else start⟩

/-- The state with one more problem. -/
def report (reading : Reading) (message : String) (range : SourceRange) : Reading :=
  { reading with problems := ⟨message, range⟩ :: reading.problems }

/-- What the next token is called in a message. -/
def found (reading : Reading) : String :=
  match reading.rest with
  | [] => "end of input"
  | token :: _ => "'" ++ token.text ++ "'"

/-- Reports that a given word or sign is missing. -/
def reportMissing (reading : Reading) (text context : String) : Reading :=
  reading.report ("expected '" ++ text ++ "' " ++ context ++ ", found " ++ reading.found)
    reading.here

/-- Reads a given word or sign, or reports that it is missing. -/
def expect (reading : Reading) (text context : String) : Reading :=
  if reading.sees text then reading.next else reading.reportMissing text context

/-- A number of calls that suffices for the tokens to come. -/
def fuel (reading : Reading) : Nat := 4 * reading.rest.length + 4

end Reading

namespace Parser

/-- A fault node for a stretch of tokens. -/
def faultNode (range : SourceRange) (tokens : List Token) : SyntaxTree :=
  SyntaxTree.put { kind := .fault, range } "text" (Token.join tokens)

/-- Gives up a construct: reports a message and makes the tokens of a stretch a fault node. -/
def giveUp (message : String) (span : Span) (reading : Reading) : SyntaxTree × Reading :=
  let after := reading.pass span
  let range := after.sinceOrEmpty reading.start
  (faultNode range span.taken, after.report message range)

/-- Gives up up to a place where reading can go on. -/
def recover (message : String) (reading : Reading) : SyntaxTree × Reading :=
  giveUp message (.recovery 0 reading.rest) reading

/-- A node for each call in a stretch of tokens. -/
def callNodes (tokens : List Token) : List SyntaxTree :=
  (Token.callees false tokens).map fun token =>
    { kind := .call, name := some token.text, range := token.range }

/-- A group in angle brackets, whose opening one is the next token. -/
def angleGroup (reading : Reading) : List Token × Reading :=
  let span := Span.angles 0 reading.rest
  let after := reading.pass span
  if span.closed || after.done then (span.taken, after)
  else (span.taken, after.report "unclosed type argument list" after.here)

/-- A group in round brackets: the tokens between them, and all tokens read. -/
def roundGroup (reading : Reading) : List Token × List Token × Reading :=
  match reading.rest with
  | opening :: _ =>
    if opening.is "(" then
      let span := Span.group 0 reading.next.rest
      let inside := reading.next.pass span
      if inside.sees ")" then
        (span.taken, opening :: span.taken ++ span.rest.take 1, inside.next)
      else (span.taken, opening :: span.taken, inside.report "expected ')'" inside.here)
    else ([], [], reading.reportMissing "(" "")
  | [] => ([], [], reading.reportMissing "(" "")

/-! ### Types -/

/-- A type's text: a name with qualifiers, arguments in angles, array marks and `...`. -/
def typeText (reading : Reading) : Option String × Reading :=
  match reading.rest with
  | [] => (none, reading)
  | head :: rest =>
    if !head.isIdent || (isKeyword head.text && !isTypeWord head.text) then (none, reading)
    else
      let qualifiers := Span.qualifiers rest
      let afterName := reading.next.pass qualifiers
      let (arguments, afterArguments) :=
        if afterName.sees "<" then angleGroup afterName else ([], afterName)
      let marks := Span.arrayMarks afterArguments.rest
      let afterMarks := afterArguments.pass marks
      let ellipsis := if afterMarks.sees "..." then afterMarks.rest.take 1 else []
      (some (Token.join (head :: qualifiers.taken ++ arguments ++ marks.taken ++ ellipsis)),
        afterMarks.skip "...")

/-- Types with commas between them, and a comma after them if no type follows it. -/
def typesWithin : Nat → Reading → List String × Reading
  | 0, reading => ([], reading)
  | fuel + 1, reading =>
    match typeText reading with
    | (none, after) => ([], after)
    | (some type, after) =>
      if after.sees "," then
        let (types, after) := typesWithin fuel after.next
        (type :: types, after)
      else ([type], after)

/-- A list of types; it is a problem if there is none. -/
def typeList (reading : Reading) : List String × Reading :=
  let (types, after) := typesWithin (reading.rest.length + 1) reading
  if types.isEmpty then (types, after.report "expected type name" after.here) else (types, after)

/-! ### What stands before a declaration -/

/-- Modifiers and annotations, each joined by blanks when written down. -/
structure Preamble where
  modifiers : List String := []
  annotations : List String := []

/-- Modifiers as one text. -/
def Preamble.modifierText (preamble : Preamble) : String := " ".intercalate preamble.modifiers

/-- Annotations as one text. -/
def Preamble.annotationText (preamble : Preamble) : String := " ".intercalate preamble.annotations

/-- An annotation, whose `@` is the next token: a dotted name and perhaps a group. -/
def annotationTag (reading : Reading) : String × Reading :=
  let names := Span.dottedNames reading.next.rest
  let afterName := reading.next.pass names
  let (arguments, after) :=
    if afterName.sees "(" then (roundGroup afterName).2 else ([], afterName)
  (Token.join (reading.rest.take 1 ++ names.taken ++ arguments), after)

/-- Modifiers and annotations in any order. -/
def preambleWithin : Nat → Reading → Preamble × Reading
  | 0, reading => ({}, reading)
  | fuel + 1, reading =>
    match reading.rest with
    | [] => ({}, reading)
    | token :: _ =>
      if token.is "@" && !reading.thenSees "interface" then
        let (text, after) := annotationTag reading
        let (preamble, after) := preambleWithin fuel after
        ({ preamble with annotations := text :: preamble.annotations }, after)
      else if token.isIdent && isModifier token.text then
        let (preamble, after) := preambleWithin fuel reading.next
        ({ preamble with modifiers := token.text :: preamble.modifiers }, after)
      else ({}, reading)

/-- Modifiers and annotations in any order, as many as there are. -/
def preamble (reading : Reading) : Preamble × Reading :=
  preambleWithin (reading.rest.length + 1) reading

/-- The declaration with its modifiers and annotations. -/
def putPreamble (preamble : Preamble) (tree : SyntaxTree) : SyntaxTree :=
  (tree.put "modifiers" preamble.modifierText).put "annotations" preamble.annotationText

/-! ### Statements -/

/-- The words of statements that end with a block. -/
def blockStatementWords : List String := ["try", "switch", "synchronized"]

/-- A statement of no special form. A closing bracket that nothing opens is a fault by itself. -/
def plainStatement (head : Token) (reading : Reading) : SyntaxTree × Reading :=
  if head.closes then
    (faultNode head.range [head],
      reading.next.report ("unexpected '" ++ head.text ++ "'") head.range)
  else
    let endsWithBlock := blockStatementWords.contains head.text
    let span := Span.plainStatement endsWithBlock 0 reading.rest
    let after := reading.pass span
    let text := Token.join span.taken
    let kind := if head.text = "return" then SyntaxKind.returnStmt else .statement
    let node (text : String) : SyntaxTree :=
      SyntaxTree.put { kind, children := callNodes span.taken, range := after.since reading.start }
        "text" text
    if span.closed then (node text, after)
    else
      (node (if text.isEmpty || endsWithBlock then text else text ++ ";"),
        after.report "expected ';'" after.here)

/-- The texts of a loop's header: three parts at `;`, or a variable and what it runs over at `:`. -/
def loopHeader (header : List Token) : Option (List (String × String)) :=
  match Token.splitTop ";" 0 header with
  | [init, condition, update] =>
    some [("loop", "for"), ("init", Token.join init), ("condition", Token.join condition),
      ("update", Token.join update)]
  | _ =>
    match Token.splitTop ":" 0 header with
    | [declared, iterable] =>
      match declared.getLast?, declared.dropLast with
      | some name, type@(_ :: _) =>
        let type := type.filter fun token => !(token.isIdent && isModifier token.text)
        some [("loop", "foreach"), ("varType", Token.join type), ("var", name.text),
          ("iterable", Token.join iterable)]
      | _, _ => none
    | _ => none

/-- A loop node with the texts of its header, which is a problem if it has neither form. -/
def forNode (header : List Token) (start : Position) (reading : Reading) : SyntaxTree × Reading :=
  let range := reading.since start
  let node : SyntaxTree := { kind := .forLoop, range }
  match loopHeader header with
  | some texts => (texts.foldl (fun node text => node.put text.1 text.2) node, reading)
  | none =>
    ((node.put "loop" "for").put "condition" (Token.join header),
      reading.report "malformed for-loop header" range)

/-- A statement with a label in front: in the text of a plain statement, else beside it. -/
def putLabel (label : String) (tree : SyntaxTree) : SyntaxTree :=
  if tree.kind = .statement || tree.kind = .returnStmt then
    tree.put "text" (label ++ ": " ++ tree.textAt "text")
  else tree.put "label" label

/-- A node with a condition, calls in it, and the statements that depend on it. -/
def conditional (kind : SyntaxKind) (condition : List Token) (range : SourceRange)
    (branches : List SyntaxTree) : SyntaxTree :=
  SyntaxTree.put { kind, children := callNodes condition ++ branches, range } "condition"
    (Token.join condition)

/-- An empty block from a position through the last token read. -/
def emptyBlock (start : Position) (reading : Reading) : SyntaxTree :=
  { kind := .block, range := reading.since start }

mutual

/-- A block, whose opening brace is the next token. -/
def blockWithin : Nat → Reading → SyntaxTree × Reading
  | 0, reading => (emptyBlock reading.start reading, reading)
  | fuel + 1, reading =>
    let opened := reading.expect "\x7b" "to open block"
    let (children, after) := statementsWithin fuel reading.here opened
    ({ kind := .block, children, range := after.since reading.start }, after)

/-- Statements through the closing brace of their block, which opened at a given place. -/
def statementsWithin : Nat → SourceRange → Reading → List SyntaxTree × Reading
  | 0, _, reading => ([], reading)
  | fuel + 1, opening, reading =>
    if reading.done then ([], reading.report "expected '\x7d' to close block" opening)
    else if reading.sees "\x7d" then ([], reading.next)
    else
      let (tree?, after) := statementWithin fuel reading
      let (trees, after) := statementsWithin fuel opening after
      (tree?.toList ++ trees, after)

/-- A statement; a lone `;` is none. -/
def statementWithin : Nat → Reading → Option SyntaxTree × Reading
  | 0, reading => (none, reading)
  | fuel + 1, reading =>
    let start := reading.start
    match reading.rest with
    | [] => (none, reading)
    | head :: _ =>
      if Span.isName head && reading.thenSees ":" then
        let (body, after) := bodyWithin fuel start reading.next.next
        (some { putLabel head.text body with range := after.since start }, after)
      else if head.is ";" then (none, reading.next)
      else if head.is "\x7b" then
        let (block, after) := blockWithin fuel reading
        (some block, after)
      else if head.is "if" then
        let (condition, _, afterCondition) := roundGroup reading.next
        let (consequence, after) := bodyWithin fuel start afterCondition
        if after.sees "else" then
          let (alternative, after) := bodyWithin fuel start after.next
          (some ((conditional .branch condition (after.since start) [consequence, alternative]).put
            "else" "true"), after)
        else (some (conditional .branch condition (after.since start) [consequence]), after)
      else if head.is "for" then
        let (header, _, afterHeader) := roundGroup reading.next
        let (node, afterHeader) := forNode header start afterHeader
        let (body, after) := bodyWithin fuel start afterHeader
        (some { node with
          children := callNodes header ++ [body], range := after.since start }, after)
      else if head.is "while" then
        let (condition, _, afterCondition) := roundGroup reading.next
        let (body, after) := bodyWithin fuel start afterCondition
        (some (conditional .whileLoop condition (after.since start) [body]), after)
      else if head.is "do" then
        let (body, afterBody) := bodyWithin fuel start reading.next
        let (condition, _, after) := roundGroup (afterBody.expect "while" "after do body")
        let after := after.expect ";" "after do/while condition"
        (some (conditional .doLoop condition (after.since start) [body]), after)
      else
        let (tree, after) := plainStatement head reading
        (some { tree with range := after.since start }, after)

/-- The statement that another one governs, which started at a given position. -/
def bodyWithin : Nat → Position → Reading → SyntaxTree × Reading
  | 0, start, reading => (emptyBlock start reading, reading)
  | fuel + 1, start, reading =>
    if reading.sees "\x7d" || reading.done then
      (emptyBlock start reading, reading.report "expected statement" reading.here)
    else
      match statementWithin fuel reading with
      | (some tree, after) => (tree, after)
      | (none, after) => (emptyBlock start after, after)

end

/-- A block, whose opening brace is the next token. -/
def block (reading : Reading) : SyntaxTree × Reading := blockWithin reading.fuel reading

/-! ### Members -/

/-- The parameters up to the closing bracket, as far as they go. -/
def parametersWithin : Nat → Reading → List SyntaxTree × Reading
  | 0, reading => ([], reading)
  | fuel + 1, reading =>
    if reading.done || reading.sees ")" then ([], reading)
    else
      let start := reading.start
      let (preamble, afterPreamble) := preamble reading
      let (type?, afterType) := typeText afterPreamble
      let (parameter, after) :=
        match type?, afterType.rest with
        | some type, name :: _ =>
          if name.isIdent then
            let marks := Span.arrayMarks afterType.next.rest
            let after := afterType.next.pass marks
            let type := type ++ String.join (List.replicate (marks.taken.length / 2) "[]")
            let node : SyntaxTree :=
              { kind := .parameter, name := some name.text, range := after.since start }
            (putPreamble preamble (node.put "type" type), after)
          else malformed start afterType
        | _, _ => malformed start afterType
      if after.sees "," then
        let (parameters, after) := parametersWithin fuel after.next
        (parameter :: parameters, after)
      else ([parameter], after)
where
  /-- Gives up a parameter. -/
  malformed (start : Position) (reading : Reading) : SyntaxTree × Reading :=
    let span := Span.upTo (·.isAny [",", ")", "\x7b", ";"]) reading.rest
    let after := reading.pass span
    let range := after.sinceOrEmpty start
    (faultNode range span.taken, after.report "malformed parameter" range)

/-- The rest of a method after its name: parameters, thrown types, and a body or `;`. -/
def methodRest (method : SyntaxTree) (reading : Reading) : SyntaxTree × Reading :=
  let opened := reading.expect "(" "to open parameter list"
  let (parameters, afterParameters) := parametersWithin (opened.rest.length + 1) opened
  let closed := afterParameters.expect ")" "to close parameter list"
  let marked := closed.pass (Span.arrayMarks closed.rest)
  let (thrown, after) := if marked.sees "throws" then typeList marked.next else ([], marked)
  let method := method.put "throws" (", ".intercalate thrown)
  let (body, after) :=
    if after.sees "\x7b" then
      let (body, after) := block after
      ([body], after)
    else if after.sees "default" then ([], (recover "unexpected default value" after.next).2)
    else if after.sees ";" then ([], after.next)
    else
      let (fault, after) := recover "expected method body or ';'" after
      ([fault], after)
  ({ method with children := parameters ++ body }, after)

/-- Fields of one type, the name of the first being read. -/
def fieldsWithin (preamble : Preamble) (type : String) :
    Nat → Token → Reading → List SyntaxTree × Reading
  | 0, _, reading => ([], reading)
  | fuel + 1, name, reading =>
    let marks := Span.arrayMarks reading.rest
    let afterMarks := reading.pass marks
    let fieldType := type ++ String.join (List.replicate (marks.taken.length / 2) "[]")
    let (initial, after) :=
      if afterMarks.sees "=" then
        let span := Span.initializer 0 afterMarks.next.rest
        (span.taken, afterMarks.next.pass span)
      else ([], afterMarks)
    let node : SyntaxTree :=
      { kind := .field, name := some name.text, children := callNodes initial,
        range := after.since name.range.start }
    let field := (putPreamble preamble (node.put "type" fieldType)).put "init" (Token.join initial)
    if after.sees "," then
      match after.next.rest with
      | name :: _ =>
        if Span.isName name then
          let (fields, after) := fieldsWithin preamble type fuel name after.next.next
          (field :: fields, after)
        else ([field], after.next.report "expected field name after ','" after.next.here)
      | [] => ([field], after.next.report "expected field name after ','" after.next.here)
    else ([field], after)

/-- One node for the fields of a declaration: the field itself, or a block of several. -/
def groupFields (fields : List SyntaxTree) (range : SourceRange) : SyntaxTree :=
  match fields with
  | [field] => field
  | fields =>
    SyntaxTree.put { kind := .block, children := fields, range } "declarators"
      (toString fields.length)

/-- A member that is no type, no block and nothing unsupported: a constructor, a method or
fields. -/
def plainMember (owner : String) (preamble : Preamble) (start : Position) (reading : Reading) :
    SyntaxTree × Reading :=
  let (typeParams, reading) := if reading.sees "<" then angleGroup reading else ([], reading)
  let finish (member : SyntaxTree × Reading) : SyntaxTree × Reading :=
    let tree := putPreamble preamble { member.1 with range := member.2.since start }
    (tree.put "typeParams" (Token.join typeParams), member.2)
  if reading.rest.head?.any (fun token => token.text = owner) && reading.thenSees "(" then
    finish
      (methodRest { kind := .constructor, name := some owner, range := reading.here } reading.next)
  else
    match typeText reading with
    | (none, after) => recover "expected member declaration" after
    | (some type, after) =>
      match after.rest with
      | [] => recover "expected member name" after
      | name :: _ =>
        if !Span.isName name then recover "expected member name" after
        else if after.next.sees "(" then
          let node : SyntaxTree := { kind := .method, name := some name.text, range := name.range }
          finish (methodRest (node.put "returnType" type) after.next)
        else
          let (fields, after) :=
            fieldsWithin preamble type (after.rest.length + 1) name after.next
          let after := after.expect ";" "after field declaration"
          (groupFields fields (after.since start), after)

/-- The supertypes in a type's header, after one of its words. -/
def heritage (word : String) (reading : Reading) : List String × Reading :=
  if reading.sees word then typeList reading.next else ([], reading)

/-- The header of a type after its name, up to its body. -/
def typeHeader (node : SyntaxTree) (reading : Reading) : SyntaxTree × Reading :=
  let (typeParams, reading) := if reading.sees "<" then angleGroup reading else ([], reading)
  let (bases, reading) := heritage "extends" reading
  let (interfaces, reading) := heritage "implements" reading
  let (_, reading) := heritage "permits" reading
  (((node.put "typeParams" (Token.join typeParams)).put "extends" (", ".intercalate bases)).put
    "implements" (", ".intercalate interfaces), reading)

mutual

/-- A declaration in the text itself, or in the body of the type `owner`. -/
def memberWithin : Nat → Option String → Reading → SyntaxTree × Reading
  | 0, _, reading => (emptyBlock reading.start reading, reading)
  | fuel + 1, owner?, before =>
    let start := before.start
    let (preamble, reading) := preamble before
    if reading.sees "class" then
      let (tree, after) := typeWithin fuel .classDecl "class" start reading.next
      (putPreamble preamble tree, after)
    else if reading.sees "interface" then
      let (tree, after) := typeWithin fuel .interfaceDecl "interface" start reading.next
      (putPreamble preamble tree, after)
    else if reading.sees "@" then
      giveUp "unsupported declaration: annotation type" (.declaration reading.rest) reading
    else if reading.sees "enum" then
      giveUp "unsupported declaration: enum" (.declaration reading.rest) reading
    else if reading.sees "record" then
      giveUp "unsupported declaration: record" (.declaration reading.rest) reading
    else
      match owner? with
      | none => recover "expected class or interface declaration" reading
      | some owner =>
        if reading.sees "\x7b" then
          let (tree, after) := block reading
          (tree.put "modifiers" preamble.modifierText, after)
        else plainMember owner preamble start reading

/-- A type after the word that introduces it. -/
def typeWithin : Nat → SyntaxKind → String → Position → Reading → SyntaxTree × Reading
  | 0, _, _, start, reading => (emptyBlock start reading, reading)
  | fuel + 1, kind, word, start, reading =>
    match reading.rest with
    | [] => recover "expected type name" reading
    | name :: _ =>
      if !Span.isName name then recover "expected type name" reading
      else
        let node : SyntaxTree := { kind, name := some name.text, range := name.range }
        let (node, reading) := typeHeader node reading.next
        let header := reading.since start
        if reading.sees "\x7b" then
          let (members, after) := membersWithin fuel name.text word header reading.next
          ({ node with children := members, range := after.since start }, after)
        else
          let (fault, after) := recover "malformed type declaration"
            (reading.reportMissing "\x7b" "to open type body")
          ({ node with children := [fault], range := after.since start }, after)

/-- Members through the closing brace of the type `owner`, whose header has a given place. -/
def membersWithin : Nat → String → String → SourceRange → Reading → List SyntaxTree × Reading
  | 0, _, _, _, reading => ([], reading)
  | fuel + 1, owner, word, header, reading =>
    if reading.done then
      ([], reading.report ("expected '\x7d' to close " ++ word ++ " '" ++ owner ++ "'") header)
    else if reading.sees "\x7d" then ([], reading.next)
    else if reading.sees ";" then membersWithin fuel owner word header reading.next
    else
      let (tree, after) := memberWithin fuel (some owner) reading
      let (trees, after) := membersWithin fuel owner word header after
      (tree :: trees, after)

end

/-! ### Texts -/

/-- A package or import declaration, whose word is the next token. -/
def headerDeclaration (kind : SyntaxKind) (reading : Reading) : SyntaxTree × Reading :=
  let span := Span.upTo (·.isAny [";", "\x7b", "\x7d"]) reading.next.rest
  let after := (reading.next.pass span).expect ";" "after declaration"
  ({ kind, name := some (Token.join span.taken), range := after.since reading.start }, after)

/-- The declarations of a text. -/
def declarationsWithin : Nat → Reading → List SyntaxTree × Reading
  | 0, reading => ([], reading)
  | fuel + 1, reading =>
    if reading.done then ([], reading)
    else if reading.sees ";" then declarationsWithin fuel reading.next
    else
      let (tree, after) :=
        if reading.sees "package" then headerDeclaration .package reading
        else if reading.sees "import" then headerDeclaration .importDecl reading
        else if reading.sees "\x7d" then
          (faultNode reading.here (reading.rest.take 1),
            reading.next.report "unmatched '\x7d'" reading.here)
        else memberWithin reading.fuel none reading
      let (trees, after) := declarationsWithin fuel after
      (tree :: trees, after)

end Parser

/-- The syntax tree of a source text, with the problems of its tokens first. -/
def parseSource (source : String) : Except Failure ParsedSource :=
  if Text.isBlankText source then .error .emptyInput
  else
    let (tokens, lexical) := tokenize source
    let finish := Position.endOf source
    let reading : Reading := { rest := tokens, finish }
    let (children, after) := Parser.declarationsWithin (tokens.length + 1) reading
    .ok {
      tree := { kind := .program, children, range := ⟨reading.start, finish⟩ }
      diagnostics := lexical ++ after.problems.reverse }

end Transcode
