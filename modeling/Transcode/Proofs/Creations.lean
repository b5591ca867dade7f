import Transcode.Proofs.Members
import Transcode.Proofs.Outcome
import Transcode.Proofs.Rejoining

/-!
# Fields with a new object

A field whose initial value creates an object of a class with type arguments. The initial value goes
on over a comma unless another declarator seems to start behind it, which an argument does that is a
plain name with array marks, or with another argument behind it (`staysWhole`). So the whole
creation is the initial value of one field, or the declaration falls into several
(`Parser.memberWithin_creation`).
-/

namespace Transcode

namespace Lexeme

def newWord : Lexeme := ⟨.ident, "new", by decide +kernel⟩
def equalSign : Lexeme := ⟨.punct, "=", by decide +kernel⟩

end Lexeme

/-! ### Creations and their spelling -/

/-- A type argument: a word, words after points, and a number of array marks. -/
structure Argument where
  head : Word
  qualifiers : List Word
  marks : Nat

namespace Argument

/-- An argument as it is spelled. -/
def lexemes (argument : Argument) : List Lexeme :=
  argument.head.lexeme :: (pointed argument.qualifiers ++ arrayMarks argument.marks)

/-- Whether an argument is a plain name but for array marks. -/
def isPlain (argument : Argument) : Bool :=
  argument.head.lexeme.isName && argument.qualifiers.isEmpty

end Argument

/-- Arguments with a comma before each. -/
def further (arguments : List Argument) : List Lexeme :=
  arguments.flatMap fun argument => .comma :: argument.lexemes

/-- Whether no argument behind a comma looks like a declarator, as a plain name with array marks or
another comma behind it does. -/
def staysWhole : List Argument → Bool
  | [] => true
  | argument :: others =>
    !(argument.isPlain && (argument.marks ≠ 0 || !others.isEmpty)) && staysWhole others

/-- The creation of an object of a class with type arguments. -/
structure NewObject where
  name : Name
  first : Argument
  others : List Argument

/-- A creation as it is spelled. -/
def NewObject.lexemes (creation : NewObject) : List Lexeme :=
  .newWord :: creation.name.lexeme :: .openAngle :: (creation.first.lexemes ++
    (further creation.others ++ [.closeAngle, .openRound, .closeRound]))

/-- The syntax tree of a field with an initial value. -/
def valuedField (name type value : String) : SyntaxTree :=
  (SyntaxTree.put { kind := .field, name := some name, range := default } "type" type).put "init"
    value

/-! ### Texts of creations -/

/-- A lexeme as a token somewhere, with or without a gap before it. -/
def Lexeme.token (lexeme : Lexeme) (spaced : Bool) : Token :=
  ⟨lexeme.kind, lexeme.text, default, spaced⟩

namespace Argument

/-- The text of an argument, without gaps. -/
def text (argument : Argument) : String :=
  argument.head.lexeme.text ++
    (String.join (argument.qualifiers.map fun word => "." ++ word.lexeme.text) ++
      String.join (List.replicate argument.marks "[]"))

/-- An argument as tokens without gaps between them. -/
def tokens (argument : Argument) (spaced : Bool) : List Token :=
  argument.head.lexeme.token spaced ::
    (pointed argument.qualifiers ++ arrayMarks argument.marks).map (·.token false)

end Argument

namespace NewObject

variable (creation : NewObject)

/-- The text of a creation, with gaps behind its word and its commas only. -/
def text : String :=
  "new " ++ creation.name.lexeme.text ++ "<" ++
    ", ".intercalate ((creation.first :: creation.others).map Argument.text) ++ ">()"

/-- A creation as tokens, with gaps behind its word and its commas only. -/
def tokens : List Token :=
  Lexeme.newWord.token true :: creation.name.lexeme.token true :: Lexeme.openAngle.token false ::
    (creation.first.tokens false ++
      (creation.others.flatMap (fun argument => Lexeme.comma.token false :: argument.tokens true) ++
        [Lexeme.closeAngle, .openRound, .closeRound].map (·.token false)))

end NewObject

@[simp] theorem Lexeme.textAfterGap_token (lexeme : Lexeme) (spaced : Bool) :
    (lexeme.token spaced).textAfterGap = if spaced then " " ++ lexeme.text else lexeme.text := rfl

/-- Qualifiers are joined with points and no blanks. -/
theorem join_pointed (words : List Word) :
    String.join ((pointed words).map (·.text)) =
      String.join (words.map fun word => "." ++ word.lexeme.text) := by
  induction words with
  | nil => rfl
  | cons word words ih =>
      have spelled : pointed (word :: words) = .point :: word.lexeme :: pointed words := rfl
      rw [spelled, List.map_cons, List.map_cons, List.map_cons, String.join_cons, String.join_cons,
        String.join_cons, ih, String.append_assoc]
      rfl

/-- Marks of arrays are joined without blanks. -/
theorem join_arrayMarks (number : Nat) :
    String.join ((arrayMarks number).map (·.text)) = String.join (List.replicate number "[]") := by
  induction number with
  | zero => rfl
  | succ number ih =>
      have spelled : arrayMarks (number + 1) =
          .openSquare :: .closeSquare :: arrayMarks number := rfl
      rw [spelled, List.map_cons, List.map_cons, List.replicate_succ, String.join_cons,
        String.join_cons, String.join_cons, ih, ← String.append_assoc]
      rfl

/-- The tokens of an argument join to its text. -/
theorem join_tokens_argument (argument : Argument) (spaced : Bool) :
    String.join ((argument.tokens spaced).map Token.textAfterGap) =
      (if spaced then " " else "") ++ argument.text := by
  have bare : (Token.textAfterGap ∘ fun lexeme : Lexeme => lexeme.token false) = (·.text) := rfl
  rw [Argument.tokens, List.map_cons, List.map_map, bare, String.join_cons, List.map_append,
    String.join_append, join_pointed, join_arrayMarks, Argument.text]
  cases spaced <;> simp [String.append_assoc]

/-- What is said with commas before each further item, is said with commas between all. -/
theorem intercalate_cons (first : String) (others : List String) :
    ", ".intercalate (first :: others) = first ++ String.join (others.map (", " ++ ·)) := by
  induction others generalizing first with
  | nil => simp
  | cons second others ih =>
      rw [String.intercalate_cons_cons, ih, List.map_cons, String.join_cons]
      simp [String.append_assoc]

/-- Further arguments join with a comma and a blank before each. -/
theorem join_tokens_further (arguments : List Argument) :
    String.join ((arguments.flatMap fun argument =>
      Lexeme.comma.token false :: argument.tokens true).map Token.textAfterGap) =
      String.join ((arguments.map Argument.text).map (", " ++ ·)) := by
  induction arguments with
  | nil => rfl
  | cons argument arguments ih =>
      rw [List.flatMap_cons, List.map_append, String.join_append, ih, List.map_cons, List.map_cons,
        List.map_cons, String.join_cons, String.join_cons, join_tokens_argument]
      simp [Lexeme.comma, ← String.append_assoc]

/-- The tokens of a creation make its text. -/
theorem NewObject.join_tokens (creation : NewObject) :
    Token.join creation.tokens = creation.text := by
  have arguments : ", ".intercalate ((creation.first :: creation.others).map Argument.text) =
      creation.first.text ++ String.join ((creation.others.map Argument.text).map (", " ++ ·)) :=
    intercalate_cons _ _
  have ends : String.join (([Lexeme.closeAngle, .openRound, .closeRound].map (·.token false)).map
      Token.textAfterGap) = ">()" := by decide +kernel
  rw [tokens, Token.join, List.map_cons, List.map_cons, String.join_cons, String.join_cons,
    List.map_append, List.map_append, String.join_append, String.join_append, join_tokens_argument,
    join_tokens_further, ends, text, arguments]
  simp [Lexeme.token, Lexeme.newWord, Lexeme.openAngle, Token.textAfterGap, ← String.append_assoc]

/-- Tokens have the texts of the lexemes that they spell. -/
theorem Spells.map_text {lexemes : List Lexeme} {tokens : List Token}
    (spells : Spells lexemes tokens) : tokens.map (·.text) = lexemes.map (·.text) := by
  induction spells with
  | nil => rfl
  | cons writes _ ih => rw [List.map_cons, List.map_cons, ih, writes.text]

/-- A creation that is written with gaps behind its word and its commas only makes its text. -/
theorem NewObject.join_of_spells (creation : NewObject) {tokens : List Token}
    (spells : Spells creation.lexemes tokens)
    (gaps : tokens.tail.map (·.spaced) = creation.tokens.tail.map (·.spaced)) :
    Token.join tokens = creation.text := by
  have texts : creation.tokens.map (·.text) = creation.lexemes.map (·.text) := by
    simp [NewObject.tokens, NewObject.lexemes, Argument.tokens, Argument.lexemes, further,
      Lexeme.token, List.map_flatMap, Function.comp_def]
  rw [Token.join_congr (spells.map_text.trans texts.symm) gaps, creation.join_tokens]

/-! ### Initial values -/

namespace Span

variable {token closing : Token} {tokens rest : List Token}

/-- A span behind tokens that it takes too. -/
def behind (tokens : List Token) (span : Span) : Span := { span with taken := tokens ++ span.taken }

@[simp] theorem behind_cons (token : Token) (tokens : List Token) (span : Span) :
    span.behind (token :: tokens) = (span.behind tokens).cons token := rfl

/-- A stretch behind two others is behind the first with the second before it. -/
theorem behind_append (early late : List Token) (span : Span) :
    span.behind (early ++ late) = (span.behind late).behind early := by
  simp [behind]

/-- The signs that matter in an initial value. -/
def valueSigns : List String := ["(", "[", "\x7b", ")", "]", "\x7d", ";", ","]

/-- An initial value goes on over what is none of the signs that matter. -/
theorem initializer_cons {depth : Nat} (plain : ¬token.isAny valueSigns) :
    initializer depth (token :: rest) = (initializer depth rest).cons token := by
  simp only [valueSigns, Token.isAny, List.any_cons, List.any_nil, Bool.or_false, Bool.or_eq_true,
    not_or] at plain
  simp [initializer, Token.opens, Token.closes, Token.isAny, plain]

/-- A word belongs to an initial value. -/
theorem initializer_word {lexeme : Lexeme} (writes : lexeme.Writes token)
    (isIdent : lexeme.isIdent) :
    initializer 0 (token :: rest) = (initializer 0 rest).cons token := by
  refine initializer_cons ?_
  rw [writes.isAny_eq]
  exact Lexeme.not_isAny_of_isIdent isIdent [.openRound, .openSquare, .openBrace, .closeRound,
    .closeSquare, .closeBrace, .semicolon, .comma] (by decide)

/-- Qualifiers belong to an initial value. -/
theorem initializer_pointed (words : List Word) (spells : Spells (pointed words) tokens) :
    initializer 0 (tokens ++ rest) = (initializer 0 rest).behind tokens := by
  induction words generalizing tokens with
  | nil =>
      cases spells
      rfl
  | cons word words ih =>
      obtain _ | @⟨_, _, _, _, point, _ | @⟨_, _, _, tokens, writes, spells⟩⟩ := spells
      have noSign : ¬Lexeme.point.isAny valueSigns := by decide
      rw [List.cons_append, initializer_cons (point.isAny_eq _ ▸ noSign), List.cons_append,
        initializer_word writes word.isIdent, ih spells]
      rfl

/-- Marks of arrays belong to an initial value. -/
theorem initializer_arrayMarks (number : Nat)
    (spells : Spells (Transcode.arrayMarks number) tokens) :
    initializer 0 (tokens ++ rest) = (initializer 0 rest).behind tokens := by
  induction number generalizing tokens with
  | zero =>
      cases spells
      rfl
  | succ number ih =>
      obtain _ | ⟨opens, _ | ⟨closes, spells⟩⟩ := spells
      have opening := Lexeme.is_eq (show Lexeme.openSquare.is "[" from rfl)
      have closing := Lexeme.is_eq (show Lexeme.closeSquare.is "]" from rfl)
      simp [initializer, Token.opens, Token.closes, Token.isAny, opens.is_eq, closes.is_eq,
        opening, closing, ih spells]

/-- An argument belongs to an initial value. -/
theorem initializer_argument (argument : Argument) (spells : Spells argument.lexemes tokens) :
    initializer 0 (tokens ++ rest) = (initializer 0 rest).behind tokens := by
  obtain _ | ⟨writes, spells⟩ := spells
  obtain ⟨names, marks, rfl, spellsNames, spellsMarks⟩ := Spells.exists_append spells
  rw [List.cons_append, List.append_assoc, initializer_word writes argument.head.isIdent,
    initializer_pointed _ spellsNames, initializer_arrayMarks _ spellsMarks, behind_cons,
    behind_append]

/-- An argument looks like a declarator if it is a plain name and a sign of a declarator follows. -/
theorem startsDeclarator_argument (argument : Argument) (spells : Spells argument.lexemes tokens)
    (token : Token) (rest : List Token) : startsDeclarator (tokens ++ token :: rest) =
      (argument.isPlain && (argument.marks ≠ 0 || token.isAny ["=", ",", ";", "["])) := by
  obtain ⟨head, qualifiers, marks⟩ := argument
  obtain _ | ⟨writes, spells⟩ := spells
  obtain ⟨names, ends, rfl, spellsNames, spellsMarks⟩ := Spells.exists_append spells
  cases qualifiers with
  | cons word words =>
      obtain _ | ⟨point, _⟩ := spellsNames
      have noSign : ¬Lexeme.point.isAny ["=", ",", ";", "["] := by decide
      simp [startsDeclarator, Argument.isPlain, point.isAny_eq, noSign]
  | nil =>
      cases spellsNames
      cases marks with
      | zero =>
          cases spellsMarks
          simp [startsDeclarator, Argument.isPlain, writes.isName_eq]
      | succ number =>
          obtain _ | ⟨opens, _⟩ := spellsMarks
          have isSign : Lexeme.openSquare.isAny ["=", ",", ";", "["] := by decide
          simp [startsDeclarator, Argument.isPlain, writes.isName_eq, opens.isAny_eq, isSign]

/-- Behind a comma stands another declarator if the argument there looks like one. -/
theorem startsDeclarator_further {argument : Argument} {others : List Argument}
    {argumentTokens : List Token} (spellsArgument : Spells argument.lexemes argumentTokens)
    (spells : Spells (further others) tokens) (closes : Lexeme.closeAngle.Writes closing) :
    startsDeclarator (argumentTokens ++ (tokens ++ closing :: rest)) =
      (argument.isPlain && (argument.marks ≠ 0 || !others.isEmpty)) := by
  cases others with
  | nil =>
      cases spells
      have noSign : Lexeme.closeAngle.isAny ["=", ",", ";", "["] = false := by decide
      rw [List.nil_append, startsDeclarator_argument argument spellsArgument,
        closes.isAny_eq, noSign]
      rfl
  | cons other others =>
      obtain _ | ⟨comma, _⟩ := spells
      have isSign : Lexeme.comma.isAny ["=", ",", ";", "["] := by decide
      rw [List.cons_append, startsDeclarator_argument argument spellsArgument, comma.isAny_eq,
        isSign]
      rfl

/-- A comma ends an initial value if a declarator starts behind it. -/
theorem initializer_comma (isComma : token.is ",") (rest : List Token) :
    initializer 0 (token :: rest) =
      if startsDeclarator rest then none (token :: rest) else (initializer 0 rest).cons token := by
  simp [initializer, Token.opens, Token.closes, Token.isAny, Token.is_eq isComma]

/-- An initial value goes on over all arguments if it stays whole. -/
theorem initializer_further {others : List Argument} (spells : Spells (further others) tokens)
    (closes : Lexeme.closeAngle.Writes closing) (whole : staysWhole others) :
    initializer 0 (tokens ++ closing :: rest) =
      (initializer 0 (closing :: rest)).behind tokens := by
  induction others generalizing tokens with
  | nil =>
      cases spells
      rfl
  | cons argument others ih =>
      rw [staysWhole, Bool.and_eq_true, Bool.not_eq_true'] at whole
      obtain _ | ⟨comma, spells⟩ := spells
      obtain ⟨argumentTokens, tokens, rfl, spellsArgument, spells⟩ := Spells.exists_append spells
      rw [List.cons_append, List.append_assoc, initializer_comma (comma.is_eq _) _,
        startsDeclarator_further spellsArgument spells closes, whole.1,
        if_neg Bool.false_ne_true, initializer_argument argument spellsArgument,
        ih spells whole.2, behind_cons, behind_append]

/-- If it does not stay whole, it ends at a comma with a name behind it. -/
theorem exists_initializer_further {others : List Argument}
    (spells : Spells (further others) tokens) (closes : Lexeme.closeAngle.Writes closing)
    (broken : ¬staysWhole others) :
    ∃ early comma name late, initializer 0 (tokens ++ closing :: rest) =
      ⟨early, comma :: name :: late, false⟩ ∧ comma.is "," ∧ isName name := by
  induction others generalizing tokens with
  | nil => exact absurd rfl broken
  | cons argument others ih =>
      obtain _ | @⟨_, comma, _, _, isComma, spells⟩ := spells
      obtain ⟨argumentTokens, tokens, rfl, spellsArgument, spells⟩ := Spells.exists_append spells
      have read := initializer_comma (isComma.is_eq _)
        (argumentTokens ++ (tokens ++ closing :: rest))
      rw [startsDeclarator_further spellsArgument spells closes] at read
      rw [List.cons_append, List.append_assoc, read]
      split
      · rename_i starts
        obtain _ | @⟨_, name, _, _, writes, _⟩ := spellsArgument
        simp only [Argument.isPlain, Bool.and_eq_true] at starts
        exact ⟨[], comma, name, _, rfl, isComma.is_eq _, writes.isName_eq.trans starts.1.1⟩
      · rename_i goesOn
        rw [staysWhole, Bool.and_eq_true, Bool.not_eq_true', not_and] at broken
        obtain ⟨early, other, name, late, value, isOther, isName⟩ :=
          ih spells (broken (Bool.eq_false_iff.mpr goesOn))
        rw [initializer_argument argument spellsArgument, value]
        exact ⟨_, other, name, late, rfl, isOther, isName⟩

/-! ### The value of a creation -/

variable (creation : NewObject) {semicolon : Token}

/-- A creation ends before its semicolon. -/
theorem initializer_end {opening closed : Token} (closes : Lexeme.closeAngle.Writes closing)
    (opens : Lexeme.openRound.Writes opening) (ends : Lexeme.closeRound.Writes closed)
    (isEnd : Lexeme.semicolon.Writes semicolon) :
    initializer 0 (closing :: opening :: closed :: semicolon :: rest) =
      ⟨[closing, opening, closed], semicolon :: rest, false⟩ := by
  have noSign : ¬Lexeme.closeAngle.isAny valueSigns := by decide
  have round := Lexeme.is_eq (show Lexeme.openRound.is "(" from rfl)
  have back := Lexeme.is_eq (show Lexeme.closeRound.is ")" from rfl)
  have last := Lexeme.is_eq (show Lexeme.semicolon.is ";" from rfl)
  rw [initializer_cons (closes.isAny_eq _ ▸ noSign)]
  simp [initializer, Token.opens, Token.closes, Token.isAny, opens.is_eq, ends.is_eq, isEnd.is_eq,
    round, back, last, cons, none]

/-- The initial value is the whole creation if it stays whole; if not, it ends at a comma with a
name behind it. -/
theorem initializer_creation (spells : Spells creation.lexemes tokens)
    (isEnd : Lexeme.semicolon.Writes semicolon) (rest : List Token) :
    (staysWhole creation.others →
      initializer 0 (tokens ++ semicolon :: rest) = ⟨tokens, semicolon :: rest, false⟩) ∧
    (¬staysWhole creation.others → ∃ early comma name late,
      initializer 0 (tokens ++ semicolon :: rest) = ⟨early, comma :: name :: late, false⟩ ∧
        comma.is "," ∧ isName name) := by
  obtain _ | ⟨new, _ | ⟨name, _ | ⟨opens, spells⟩⟩⟩ := spells
  obtain ⟨first, tokens, rfl, spellsFirst, spells⟩ := Spells.exists_append spells
  obtain ⟨others, tokens, rfl, spellsOthers, spells⟩ := Spells.exists_append spells
  obtain _ | ⟨closes, _ | ⟨round, _ | ⟨back, _ | _⟩⟩⟩ := spells
  have noSign : ¬Lexeme.openAngle.isAny valueSigns := by decide
  simp only [List.cons_append, List.append_assoc, List.nil_append]
  rw [initializer_word new rfl, initializer_word name creation.name.isIdent,
    initializer_cons (opens.isAny_eq _ ▸ noSign), initializer_argument _ spellsFirst]
  constructor
  · intro whole
    rw [initializer_further spellsOthers closes whole, initializer_end closes round back isEnd]
    rfl
  · intro broken
    obtain ⟨early, comma, name, late, value, isComma, isName⟩ :=
      exists_initializer_further spellsOthers closes broken
    rw [value]
    exact ⟨_, comma, name, late, rfl, isComma, isName⟩

end Span

namespace Parser

open Reading (passes_next passes_expect passes_pass not_done_of_rest)
open SyntaxTree (bare bare_put bares_callNodes put_empty)

variable {before reading : Reading} {rest creationTokens : List Token}
  {nameToken equals semicolon : Token} (creation : NewObject)

/-- The initial value of a field that creates an object, and what it leaves. -/
theorem initialValue_creation (isEqual : Lexeme.equalSign.Writes equals)
    (there : reading.rest = equals :: (creationTokens ++ semicolon :: rest)) :
    initialValue reading =
      ((Span.initializer 0 (creationTokens ++ semicolon :: rest)).taken,
        (reading.next).pass (.initializer 0 (creationTokens ++ semicolon :: rest))) ∧
    Span.arrayMarks reading.rest = .none reading.rest := by
  have noMarks : Span.arrayMarks reading.rest = .none reading.rest := by
    rw [there]
    refine Span.arrayMarks_eq_none ?_
    rw [clearOf, List.head?_cons, Option.any_some, isEqual.isAny_eq]
    decide
  have assigned : (reading.pass (Span.none reading.rest)).sees "=" := by
    rw [Reading.sees, Reading.pass, Span.none, there, List.head?_cons, Option.any_some,
      isEqual.is_eq]
    rfl
  have next : (reading.pass (Span.none reading.rest)).next = reading.next := by
    simp [Reading.pass, Span.none, Reading.next, there]
  have left : reading.next.rest = creationTokens ++ semicolon :: rest := (passes_next there).rest_eq
  refine ⟨?_, noMarks⟩
  unfold initialValue
  rw [noMarks]
  dsimp only
  rw [if_pos assigned, next, left]

/-- There is a field for the name that is read, at least. -/
theorem fieldsWithin_ne_nil (front : Preamble) (type : String) (bound : Nat) (name : Token)
    (reading : Reading) : (fieldsWithin front type (bound + 1) name reading).1 ≠ [] := by
  rw [fieldsWithin_succ]
  dsimp only
  split
  · split
    · split <;> simp
    · simp
  · simp

/-- A creation that stays whole is the value of one field. -/
theorem reads_fieldsWithin_creation (whole : staysWhole creation.others)
    (spells : Spells creation.lexemes creationTokens) (isEqual : Lexeme.equalSign.Writes equals)
    (isEnd : Lexeme.semicolon.Writes semicolon)
    (there : reading.rest = equals :: (creationTokens ++ semicolon :: rest)) (type : String)
    (bound : Nat) (name : Token) :
    reading.Reads (fieldsWithin ⟨[], []⟩ type (bound + 1) name reading) (List.map bare)
      [valuedField name.text type (Token.join creationTokens)] (semicolon :: rest) := by
  obtain ⟨value, noMarks⟩ := initialValue_creation isEqual there
  rw [(Span.initializer_creation creation spells isEnd rest).1 whole] at value
  have passed : reading.Passes (semicolon :: rest) (initialValue reading).2 := by
    rw [value]
    exact (passes_next there).trans (passes_pass rfl)
  have noOther : ¬(initialValue reading).2.sees "," := by
    rw [Reading.sees_eq_is passed.rest_eq, isEnd.is_eq]
    decide
  rw [fieldsWithin_succ]
  dsimp only
  rw [if_neg noOther]
  refine ⟨passed, congrArg (fun field => [field]) ?_⟩
  rw [fieldNode, noMarks, value, bare_put, bare_putPreamble, bare_put, append_noMarks,
    String.intercalate_nil, put_empty, bare, bares_callNodes, valuedField]

/-- A creation that does not stay whole makes more than one field. -/
theorem exists_fieldsWithin_creation (broken : ¬staysWhole creation.others)
    (spells : Spells creation.lexemes creationTokens) (isEqual : Lexeme.equalSign.Writes equals)
    (isEnd : Lexeme.semicolon.Writes semicolon)
    (there : reading.rest = equals :: (creationTokens ++ semicolon :: rest)) (front : Preamble)
    (type : String) (bound : Nat) (name : Token) :
    ∃ first second others,
      (fieldsWithin front type (bound + 2) name reading).1 = first :: second :: others := by
  obtain ⟨value, _⟩ := initialValue_creation isEqual there
  obtain ⟨early, comma, second, late, span, isComma, isName⟩ :=
    (Span.initializer_creation creation spells isEnd rest).2 broken
  rw [span] at value
  have left : (initialValue reading).2.rest = comma :: second :: late := by
    rw [value]
    rfl
  have another : (initialValue reading).2.sees "," := by
    rw [Reading.sees_eq_is left]
    exact isComma
  have behind : (initialValue reading).2.next.rest = second :: late := (passes_next left).rest_eq
  rw [fieldsWithin_succ]
  dsimp only
  rw [if_pos another, behind]
  dsimp only
  rw [if_pos isName]
  obtain ⟨field, others, same⟩ := List.exists_cons_of_ne_nil
    (fieldsWithin_ne_nil front type bound second (initialValue reading).2.next.next)
  exact ⟨_, field, others, congrArg (_ :: ·) same⟩

/-- A member that starts with a type, without modifiers. -/
theorem memberWithin_of_type (type : TypeUse) {typeTokens : List Token}
    (spells : Spells type.lexemes typeTokens) (there : reading.rest = typeTokens ++ rest)
    (owner : String) (bound : Nat) :
    ∃ after, reading.Passes (typeTokens ++ rest) after ∧
      memberWithin (bound + 1) (some owner) reading =
        typedMember owner ⟨[], []⟩ [] reading.start after := by
  obtain _ | ⟨isHead, spells⟩ := spells
  rw [List.cons_append] at there ⊢
  have plain : !reading.rest.head?.any startsPreamble :=
    there ▸ not_startsPreamble type.starts isHead _
  have front := reads_no_preamble plain
  have left := front.rest_eq.trans there
  have noAngles : ¬(preamble reading).2.sees "<" :=
    not_sees_of_writes isHead left type.isIdent .openAngle (by decide)
  refine ⟨(preamble reading).2, ⟨left, front.problems_eq⟩, ?_⟩
  rw [memberWithin_plain bound owner (not_sees_memberHeads type.starts isHead left),
    plainMember_eq, typeParameters, if_neg noAngles, front.eq]

/-- **One field for one creation.** A field declaration whose initial value creates an object with
type arguments is read as one field with the whole creation as its initial value, and nothing is
reported, if no argument behind a comma looks like a declarator. If one does, the declaration falls
into several fields. -/
theorem memberWithin_creation (owner : String) (type : TypeUse) (name : Name) (bound : Nat)
    {typeTokens : List Token} (spellsType : Spells type.lexemes typeTokens)
    (isName : name.lexeme.Writes nameToken) (isEqual : Lexeme.equalSign.Writes equals)
    (spells : Spells creation.lexemes creationTokens) (isEnd : Lexeme.semicolon.Writes semicolon)
    (there : reading.rest =
      typeTokens ++ nameToken :: equals :: (creationTokens ++ semicolon :: rest)) :
    (staysWhole creation.others →
      reading.Reads (memberWithin (bound + 1) (some owner) reading) bare
        (valuedField name.lexeme.text (Token.join typeTokens) (Token.join creationTokens))
        rest) ∧
    (¬staysWhole creation.others →
      (memberWithin (bound + 1) (some owner) reading).1.kind = .block) := by
  obtain ⟨after, passed, read⟩ := memberWithin_of_type type spellsType there owner bound
  have typed := reads_typeText_of_spells type spellsType passed.rest_eq
    (clearOf_typeSigns_word name.isIdent isName _)
  have named := passes_next typed.rest_eq
  have noMethod : ¬(typeText after).2.next.sees "(" := by
    rw [Reading.sees_eq_is named.rest_eq, isEqual.is_eq]
    decide
  have noConstructor := noConstructor_of_type type spellsType name owner isName passed.rest_eq
  rw [read, typedMember_field _ _ _ _ noConstructor typed.eq typed.rest_eq
    (isName.isName_eq.trans name.isName) noMethod]
  dsimp only
  constructor
  · intro whole
    have fields := reads_fieldsWithin_creation creation whole spells isEqual isEnd named.rest_eq
      (Token.join typeTokens) (typeText after).2.rest.length nameToken
    rw [isName.text] at fields
    exact (passed.trans (typed.toPasses.trans named)).reads
      (reads_lastField (isEnd.is_eq _) fields reading.start)
  · intro broken
    obtain ⟨first, second, others, same⟩ := exists_fieldsWithin_creation creation broken spells
      isEqual isEnd named.rest_eq ⟨[], []⟩ (Token.join typeTokens)
      (equals :: (creationTokens ++ semicolon :: rest)).length nameToken
    rw [typed.rest_eq, List.length_cons, same]
    rfl

/-! ### A class with one member -/

/-- A header of a type that ends with the type's name. -/
theorem typeHeader_of_clear (clear : clearOf ["<", "extends", "implements", "permits"] reading.rest)
    (node : SyntaxTree) : typeHeader node reading = (node, reading) := by
  have noWord {word : String} (among : word ∈ ["<", "extends", "implements", "permits"]) :
      ¬reading.sees word := not_sees_of_clearOf clear among
  have noParameters : typeParameters reading = ([], reading) := if_neg (noWord (by simp))
  have noTypes {word : String} (among : word ∈ ["<", "extends", "implements", "permits"]) :
      heritage word reading = ([], reading) := if_neg (noWord among)
  rw [typeHeader_eq, noParameters]
  dsimp only
  rw [noTypes (by simp)]
  dsimp only
  rw [noTypes (by simp)]
  dsimp only
  rw [noTypes (by simp)]
  dsimp only
  rw [show Token.join [] = "" from rfl, String.intercalate_nil, put_empty, put_empty, put_empty]

/-- A class without anything before its body has the members of its body. -/
theorem exists_declaration_class (owner : Name) {classToken ownerToken opening : Token}
    (isClass : Lexeme.classWord.Writes classToken) (isOwner : owner.lexeme.Writes ownerToken)
    (isOpening : Lexeme.openBrace.Writes opening)
    (there : reading.rest = classToken :: ownerToken :: opening :: rest) :
    ∃ bound range body, reading.Passes rest body ∧
      let members := membersWithin (bound + 2) owner.lexeme.text "class" range body
      (declaration reading).2 = members.2 ∧ (declaration reading).1.children = members.1 ∧
        (declaration reading).1.bare =
          { kind := .classDecl, name := some owner.lexeme.text,
            children := SyntaxTree.bares members.1, range := default } := by
  have plain : !reading.rest.head?.any startsPreamble := by
    rw [there, List.head?_cons, Option.any_some, startsPreamble, isClass.is_eq,
      isClass.isIdent_eq, isClass.text]
    decide
  have front := reads_no_preamble plain
  have left := front.rest_eq.trans there
  have named := passes_next left
  have opened := passes_next named.rest_eq
  have inside := passes_next opened.rest_eq
  have sees {text : String} : reading.sees text = Lexeme.classWord.is text := by
    rw [Reading.sees_eq_is there, isClass.is_eq]
  have seesClass : (preamble reading).2.sees "class" := by
    rw [Reading.sees_eq_is left, isClass.is_eq]
    rfl
  have header (node : SyntaxTree) : typeHeader node (preamble reading).2.next.next =
      (node, (preamble reading).2.next.next) := by
    refine typeHeader_of_clear ?_ node
    rw [opened.rest_eq, clearOf, List.head?_cons, Option.any_some, isOpening.isAny_eq]
    decide
  have opens : (preamble reading).2.next.next.sees "\x7b" := by
    rw [Reading.sees_eq_is opened.rest_eq, isOpening.is_eq]
    rfl
  obtain ⟨bound, enough⟩ : ∃ bound, reading.fuel = bound + 2 + 1 + 1 :=
    ⟨4 * reading.rest.length, rfl⟩
  have read : declaration reading = memberWithin (bound + 2 + 1 + 1) none reading := by
    unfold declaration
    rw [sees, sees, sees, enough]
    rfl
  have body := typeWithin_succ (bound + 2) .classDecl "class" reading.start named.rest_eq
    (isOwner.isName_eq.trans owner.isName) (by rw [header]; exact opens)
  rw [header, isOwner.text] at body
  have modifiers : (preamble reading).1 = ⟨[], []⟩ := front.value_eq
  have whole := memberWithin_class (bound + 2 + 1) none seesClass
  dsimp only at whole
  rw [body, modifiers] at whole
  rw [read, whole]
  refine ⟨bound, _, _, ⟨inside.rest_eq, ?_⟩, rfl, rfl, ?_⟩
  · exact ((front.toPasses.trans ⟨rfl, named.problems_eq⟩).trans
      (opened.trans inside)).problems_eq
  · rw [bare_putPreamble, String.intercalate_nil, put_empty, bare]

/-- The members of a class are a member that starts with a type, and those after it. -/
theorem membersWithin_of_type (type : TypeUse) {typeTokens : List Token}
    (spells : Spells type.lexemes typeTokens) (there : reading.rest = typeTokens ++ rest)
    (bound : Nat) (owner word : String) (range : SourceRange) :
    membersWithin (bound + 1) owner word range reading =
      let member := memberWithin bound (some owner) reading
      let others := membersWithin bound owner word range member.2
      (member.1 :: others.1, others.2) := by
  obtain _ | ⟨isHead, _⟩ := spells
  rw [List.cons_append] at there
  have inside : ¬reading.sees "\x7d" :=
    not_sees_of_writes isHead there type.isIdent .closeBrace (by decide)
  have filled : ¬reading.sees ";" :=
    not_sees_of_writes isHead there type.isIdent .semicolon (by decide)
  rw [membersWithin, if_neg (not_done_of_rest there), if_neg inside, if_neg filled]

/-- The members of a class end at its brace. -/
theorem membersWithin_brace {closing : Token} (isClosing : Lexeme.closeBrace.Writes closing)
    (there : reading.rest = closing :: rest) (bound : Nat) (owner word : String)
    (range : SourceRange) :
    membersWithin (bound + 1) owner word range reading = ([], reading.next) := by
  have closes : reading.sees "\x7d" := by
    rw [Reading.sees_eq_is there, isClosing.is_eq]
    rfl
  rw [membersWithin, if_neg (not_done_of_rest there), if_pos closes]

end Parser

/-- A blank text has no tokens. -/
theorem tokenize_of_isBlankText {source : String} (blank : Text.isBlankText source) :
    (tokenize source).1 = [] := by
  have none (cs : List Char) (blanks : ∀ c ∈ cs, Text.isBlank c) (position : Position)
      (spaced : Bool) : Lexer.tokensAt position spaced (Lexer.pieces cs) = [] := by
    induction cs generalizing position spaced with
    | nil => rfl
    | cons c cs ih =>
        obtain ⟨here, later⟩ := List.forall_mem_cons.mp blanks
        rw [Lexer.pieces_cons, Lexer.nextPiece, if_pos here]
        exact ih later _ _
  exact none _ (List.all_eq_true.mp blank) _ _

/-- A text that starts with a declaration has that declaration, and those after it. -/
theorem exists_parseSource_declaration {source : String} {token : Token} {rest : List Token}
    (lexed : tokenize source = (token :: rest, [])) (filled : ¬token.is ";") :
    ∃ (start : Reading) (bound : Nat) (parsed : ParsedSource),
      start.rest = token :: rest ∧ start.problems = [] ∧ parseSource source = .ok parsed ∧
      let others := Parser.declarationsWithin (bound + 1) (Parser.declaration start).2
      parsed.tree.children = (Parser.declaration start).1 :: others.1 ∧
        parsed.tree.bare =
          programNode (SyntaxTree.bares ((Parser.declaration start).1 :: others.1)) ∧
        parsed.diagnostics = others.2.problems.reverse := by
  let start : Reading := { rest := token :: rest, finish := Position.endOf source }
  have notBlank : ¬Text.isBlankText source := by
    intro blank
    have none := tokenize_of_isBlankText blank
    rw [lexed] at none
    cases none
  have there : start.rest = token :: rest := rfl
  have declared : Parser.declarationsWithin ((token :: rest).length + 1) start =
      let others := Parser.declarationsWithin (rest.length + 1) (Parser.declaration start).2
      ((Parser.declaration start).1 :: others.1, others.2) := by
    rw [Parser.declarationsWithin_succ, if_neg (Reading.not_done_of_rest there),
      if_neg (by rwa [Reading.sees_eq_is there])]
    rfl
  unfold parseSource
  rw [if_neg notBlank, lexed]
  dsimp only
  rw [declared]
  exact ⟨start, rest.length, _, rfl, rfl, rfl, rfl, rfl, rfl⟩

/-- A class with one field, whose initial value creates an object, as it is spelled. -/
def lexemesOfCreationField (owner : Name) (type : TypeUse) (name : Name) (creation : NewObject) :
    List Lexeme :=
  .classWord :: owner.lexeme :: .openBrace :: (type.lexemes ++ (name.lexeme :: .equalSign ::
    (creation.lexemes ++ [.semicolon, .closeBrace])))

/-- Tokens are cut off by the number of lexemes that they spell. -/
theorem Spells.take_append {lexemes : List Lexeme} {tokens : List Token}
    (spells : Spells lexemes tokens) (others : List Token) :
    (tokens ++ others).take lexemes.length = tokens ∧
      (tokens ++ others).drop lexemes.length = others := by
  have length : lexemes.length = tokens.length := List.Forall₂.length_eq spells
  rw [length]
  exact ⟨List.take_left, List.drop_left⟩

/-- **Creations stay whole.** A text of a class with one field, whose initial value creates an
object of a class with type arguments, is read without problems as that class with that field and
the whole creation as its initial value, whatever stands between the tokens, if no argument behind a
comma looks like a declarator. If one does, several fields are read. Where gaps stand behind the
word and the commas of the creation only, it is kept as it is written. -/
theorem parseSource_creation (owner name : Name) (type : TypeUse) (creation : NewObject)
    {source : String} (clean : (tokenize source).2 = [])
    (spells : Spells (lexemesOfCreationField owner type name creation) (tokenize source).1) :
    let tokens := (tokenize source).1
    let typeTokens := (tokens.drop 3).take type.lexemes.length
    let creationTokens :=
      (tokens.drop (3 + type.lexemes.length + 2)).take creation.lexemes.length
    ∃ parsed, parseSource source = .ok parsed ∧
      (staysWhole creation.others →
        parsed.diagnostics = [] ∧
        parsed.tree.bare = programNode [{
          kind := .classDecl
          name := owner.lexeme.text
          children := [valuedField name.lexeme.text (Token.join typeTokens)
            (Token.join creationTokens)]
          range := default }]) ∧
      (¬staysWhole creation.others → ∃ type types member members,
        parsed.tree.children = type :: types ∧ type.children = member :: members ∧
          member.kind = .block) ∧
      (creationTokens.tail.map (·.spaced) = creation.tokens.tail.map (·.spaced) →
        Token.join creationTokens = creation.text) := by
  rcases lexed : tokenize source with ⟨tokens, problems⟩
  rw [lexed] at clean spells
  dsimp only at clean spells ⊢
  subst clean
  obtain _ | ⟨isClass, _ | ⟨isOwner, _ | ⟨isOpening, inBody⟩⟩⟩ := spells
  obtain ⟨typeTokens, late, rfl, spellsType, behind⟩ := Spells.exists_append inBody
  obtain _ | ⟨isName, _ | ⟨isEqual, behind⟩⟩ := behind
  obtain ⟨creationTokens, late, rfl, spells, ends⟩ := Spells.exists_append behind
  obtain _ | ⟨isEnd, _ | ⟨isClosing, _ | _⟩⟩ := ends
  have skip (tokens : List Token) (number : Nat) :
      tokens.drop (3 + number + 2) = ((tokens.drop 3).drop number).drop 2 := by
    rw [List.drop_drop, List.drop_drop, Nat.add_assoc]
  simp only [skip]
  simp only [List.drop_succ_cons, List.drop_zero, (spellsType.take_append _).1,
    (spellsType.take_append _).2, (spells.take_append _).1]
  obtain ⟨start, more, parsed, there, clean, ok, classes, tree, problems⟩ :=
    exists_parseSource_declaration lexed (by rw [isClass.is_eq]; decide)
  obtain ⟨bound, range, body, inside, left, members, declared⟩ :=
    Parser.exists_declaration_class owner isClass isOwner isOpening there
  rw [Parser.membersWithin_of_type type spellsType inside.rest_eq] at left members declared
  dsimp only at left members declared
  obtain ⟨reads, breaks⟩ := Parser.memberWithin_creation creation owner.lexeme.text type name bound
    spellsType isName isEqual spells isEnd inside.rest_eq
  refine ⟨parsed, ok, fun whole => ?_, fun broken => ?_, creation.join_of_spells spells⟩
  · have read := reads whole
    rw [Parser.membersWithin_brace isClosing read.rest_eq] at left declared
    have ended := inside.trans (read.toPasses.trans (Reading.passes_next read.rest_eq))
    have noMore : Parser.declarationsWithin (more + 1) (Parser.declaration start).2 =
        ([], (Parser.declaration start).2) := by
      rw [Parser.declarationsWithin_succ, if_pos (Reading.done_iff.mpr (left ▸ ended.rest_eq))]
    have noCall :
        (Parser.memberWithin (bound + 1) (some owner.lexeme.text) body).1.kind ≠ .call := by
      rw [← SyntaxTree.kind_bare, read.value_eq]
      exact SyntaxKind.noConfusion
    have noClassCall : (Parser.declaration start).1.kind ≠ .call := by
      rw [← SyntaxTree.kind_bare, declared]
      exact SyntaxKind.noConfusion
    rw [noMore] at tree problems
    refine ⟨?_, ?_⟩
    · rw [problems, left, ended.problems_eq, clean, List.reverse_nil]
    · rw [tree, SyntaxTree.bares_cons _ _ noClassCall, declared, SyntaxTree.bares_cons _ _ noCall,
        read.value_eq]
      rfl
  · exact ⟨_, _, _, _, classes, members, breaks broken⟩

/-- A map with two type arguments, the second of which has points. -/
theorem parseSource_creation_map :
    let source := "class K \x7b Map<A, B[]> m = new HashMap<A, b.B[]>(); \x7d"
    ∃ parsed, parseSource source = .ok parsed ∧
      parsed.diagnostics = [] ∧
      parsed.tree.bare = programNode [{
        kind := .classDecl
        name := some "K"
        children := [valuedField "m" "Map<A, B[]>" "new HashMap<A, b.B[]>()"]
        range := default }] := by
  intro source
  let word (text : String) (whole : Lexer.pieces text.toList = [⟨some .ident, text.toList, none⟩]) :
      Word := ⟨⟨.ident, text, whole⟩, rfl⟩
  let owner : Name := ⟨⟨.ident, "K", by decide +kernel⟩, by decide⟩
  let name : Name := ⟨⟨.ident, "m", by decide +kernel⟩, by decide⟩
  let made : Name := ⟨⟨.ident, "HashMap", by decide +kernel⟩, by decide⟩
  let creation : NewObject := ⟨made, ⟨word "A" (by decide +kernel), [], 0⟩,
    [⟨word "b" (by decide +kernel), [word "B" (by decide +kernel)], 1⟩]⟩
  let type : TypeUse := {
    head := ⟨.ident, "Map", by decide +kernel⟩
    starts := by decide
    qualifiers := []
    arguments? := some ⟨[(word "A" (by decide +kernel)).lexeme, .comma,
      (word "B" (by decide +kernel)).lexeme, .openSquare, .closeSquare], by decide⟩
    marks := 0 }
  have tested :
      (lexemesOfCreationField owner type name creation).map
          (fun lexeme => (lexeme.kind, lexeme.text)) =
        (tokenize source).1.map (fun token => (token.kind, token.text)) ∧
      (tokenize source).2 = [] ∧
      Token.join (((tokenize source).1.drop 3).take 8) = "Map<A, B[]>" ∧
      Token.join (((tokenize source).1.drop 13).take 13) = "new HashMap<A, b.B[]>()" := by
    decide +kernel
  obtain ⟨views, clean, typeText, value⟩ := tested
  obtain ⟨parsed, ok, read, _⟩ :=
    parseSource_creation owner name type creation clean (spells_iff.mpr views)
  obtain ⟨silent, tree⟩ := read (by decide)
  have typeLength : type.lexemes.length = 8 := rfl
  have creationLength : creation.lexemes.length = 13 := rfl
  rw [typeLength, creationLength, typeText, value] at tree
  exact ⟨parsed, ok, silent, tree⟩

/-- An array type behind a comma is taken for another field. -/
theorem parseSource_arrayArgument :
    ∃ parsed, parseSource "class A \x7b Map<B, C[]> m = new HashMap<B, C[]>(); \x7d" = .ok parsed ∧
      parsed.diagnostics.map (·.message) =
        ["expected ';' after field declaration, found '>'", "expected member declaration"] ∧
      (parsed.tree.children.flatMap (·.children)).map (·.children.map fun field =>
        (field.name, field.textAt "init")) =
          [[(some "m", "new HashMap<B"), (some "C", "")], []] := by
  obtain ⟨parsed, ok, tested⟩ : ∃ parsed,
      parseSource "class A \x7b Map<B, C[]> m = new HashMap<B, C[]>(); \x7d" = .ok parsed ∧
      decide (parsed.diagnostics.map (·.message) =
        ["expected ';' after field declaration, found '>'", "expected member declaration"] ∧
      (parsed.tree.children.flatMap (·.children)).map (·.children.map fun field =>
        (field.name, field.textAt "init")) = [[(some "m", "new HashMap<B"), (some "C", "")], []]) :=
    exists_tested (by decide +kernel)
  exact ⟨parsed, ok, of_decide_eq_true tested⟩

end Transcode
