import Transcode.Proofs.Brackets
import Transcode.Proofs.Outcome
import Transcode.Proofs.Statements

/-!
# Headers of loops over elements

A header that declares a variable of a type before a colon, and what it runs over behind it, is cut
at the signs outside all brackets. It is read as that of a loop over elements if and only if no
other colon stands there, as the one of a conditional does
(`Parser.statementWithin_elementLoop`). Nothing is assumed about the tokens, nor about what stands
between them.
-/

namespace Transcode

namespace Token

/-! ### Tokens outside of brackets -/

/-- The tokens outside all brackets if the brackets are nested, with a number of brackets open
before the first token. Any closing bracket may close any opening one. -/
def outer : Nat → List Token → Option (List Token)
  | depth, [] => if depth = 0 then some [] else none
  | depth, token :: tokens =>
    if token.opens then outer (depth + 1) tokens
    else if token.closes then if depth = 0 then none else outer (depth - 1) tokens
    else if depth = 0 then (outer depth tokens).map (token :: ·)
    else outer depth tokens

/-- Whether brackets are nested and none of some signs stands outside of them. -/
def keepsInside (signs : List String) (tokens : List Token) : Bool :=
  (outer 0 tokens).any fun outside => outside.all fun token => !token.isAny signs

variable {depth : Nat} {tokens outside rest part : List Token} {parts : List (List Token)}
  {separator : String} {mark closing : Token}

/-- Outside of brackets, tokens behind nested ones are as they would be alone. -/
theorem outer_append (nested : outer depth tokens = some outside) (others : List Token) :
    outer depth (tokens ++ others) = (outer 0 others).map (outside ++ ·) := by
  fun_induction outer depth tokens generalizing outside with
  | case1 =>
    cases nested
    simp
  | case2 => cases nested
  | case3 depth token tokens opens ih => simp [outer, opens, ih nested]
  | case4 token tokens opens closes => cases nested
  | case5 depth token tokens opens closes inside ih =>
      simp [outer, opens, closes, inside, ih nested]
  | case6 token tokens opens closes ih =>
    obtain ⟨others, later, rfl⟩ := Option.map_eq_some_iff.mp nested
    simp [outer, opens, closes, ih later, Function.comp_def]
  | case7 depth token tokens opens closes inside ih =>
    simp [outer, opens, closes, inside, ih nested]

/-- A group of nested tokens ends at the bracket that closes it. -/
theorem group_of_outer (nested : outer depth tokens = some outside) (closes : closing.closes)
    (rest : List Token) :
    Span.group depth (tokens ++ closing :: rest) = ⟨tokens, closing :: rest, false⟩ := by
  have noOpening := not_opens_of_closes closes
  fun_induction outer depth tokens generalizing outside with
  | case1 => simp [Span.group, noOpening, closes, Span.none]
  | case2 => cases nested
  | case3 depth token tokens opens ih => simp [Span.group, opens, ih nested, Span.cons]
  | case4 token tokens opens closes => cases nested
  | case5 depth token tokens opens isClosing inside ih =>
    simp [Span.group, opens, isClosing, inside, ih nested, Span.cons]
  | case6 token tokens opens isClosing ih =>
    obtain ⟨others, later, _⟩ := Option.map_eq_some_iff.mp nested
    simp [Span.group, opens, isClosing, ih later, Span.cons]
  | case7 depth token tokens opens isClosing inside ih =>
    simp [Span.group, opens, isClosing, ih nested, Span.cons]

/-- Nested tokens without a separator outside of brackets belong to the first part. -/
theorem splitTop_of_outer (nested : outer depth tokens = some outside)
    (free : ∀ token ∈ outside, ¬token.is separator)
    (others : splitTop separator 0 rest = part :: parts) :
    splitTop separator depth (tokens ++ rest) = (tokens ++ part) :: parts := by
  fun_induction outer depth tokens generalizing outside with
  | case1 => exact others
  | case2 => cases nested
  | case3 depth token tokens opens ih => simp [splitTop, opens, ih nested free]
  | case4 => cases nested
  | case5 depth token tokens opens closes inside ih =>
    simp [splitTop, opens, closes, ih nested free]
  | case6 token tokens opens closes ih =>
    obtain ⟨others, later, rfl⟩ := Option.map_eq_some_iff.mp nested
    obtain ⟨apart, free⟩ := List.forall_mem_cons.mp free
    simp [splitTop, apart, opens, closes, ih later free]
  | case7 depth token tokens opens closes inside ih =>
    simp [splitTop, opens, closes, inside, ih nested free]

/-- Nested tokens are divided into one part more than they have separators outside of brackets. -/
theorem exists_splitTop_eq_cons (separator : String) (nested : outer depth tokens = some outside) :
    ∃ part parts, splitTop separator depth tokens = part :: parts ∧
      parts.length = outside.countP (·.is separator) := by
  fun_induction outer depth tokens generalizing outside with
  | case1 =>
    cases nested
    exact ⟨[], [], rfl, rfl⟩
  | case2 => cases nested
  | case3 depth token tokens opens ih =>
    obtain ⟨part, parts, same, count⟩ := ih nested
    exact ⟨token :: part, parts, by simp [splitTop, opens, same], count⟩
  | case4 => cases nested
  | case5 depth token tokens opens closes inside ih =>
    obtain ⟨part, parts, same, count⟩ := ih nested
    exact ⟨token :: part, parts, by simp [splitTop, opens, closes, same], count⟩
  | case6 token tokens opens closes ih =>
    obtain ⟨others, later, rfl⟩ := Option.map_eq_some_iff.mp nested
    obtain ⟨part, parts, same, count⟩ := ih later
    by_cases ends : token.is separator
    · exact ⟨[], part :: parts, by simp [splitTop, ends, opens, closes, same], by
        simp [ends, count]⟩
    · exact ⟨token :: part, parts, by simp [splitTop, ends, opens, closes, same],
        by simp [ends, count]⟩
  | case7 depth token tokens opens closes inside ih =>
    obtain ⟨part, parts, same, count⟩ := ih nested
    exact ⟨token :: part, parts, by simp [splitTop, opens, closes, inside, same], count⟩

/-- The first of several parts ends where a separator stands outside of brackets. -/
theorem splitTop_append_mark (nested : outer 0 tokens = some outside)
    (free : ∀ token ∈ outside, ¬token.is separator) (is : mark.is separator)
    (noBracket : ¬mark.opens ∧ ¬mark.closes) (rest : List Token) :
    splitTop separator 0 (tokens ++ mark :: rest) = tokens :: splitTop separator 0 rest := by
  have ends : splitTop separator 0 (mark :: rest) = [] :: splitTop separator 0 rest := by
    simp [splitTop, is, noBracket]
  simpa using splitTop_of_outer nested free ends

/-- Nested tokens without a separator outside of brackets are one part. -/
theorem splitTop_alone (nested : outer 0 tokens = some outside)
    (free : ∀ token ∈ outside, ¬token.is separator) : splitTop separator 0 tokens = [tokens] := by
  simpa using splitTop_of_outer nested free (show splitTop separator 0 [] = [[]] from rfl)

/-- Tokens that keep signs inside their brackets are nested and have none of the signs outside. -/
theorem exists_outer_of_keepsInside {signs : List String} (keeps : keepsInside signs tokens) :
    ∃ outside, outer 0 tokens = some outside ∧
      ∀ sign ∈ signs, ∀ token ∈ outside, ¬token.is sign := by
  unfold keepsInside at keeps
  cases nested : outer 0 tokens with
  | none => simp [nested] at keeps
  | some outside =>
      rw [nested, Option.any_some, List.all_eq_true] at keeps
      refine ⟨outside, rfl, fun sign among token there is => ?_⟩
      have none := keeps token there
      rw [Bool.not_eq_true', isAny, List.any_eq_false] at none
      exact none sign among is

end Token

namespace Parser

open Token (keepsInside)

/-- A header that declares a variable before a colon and has what it runs over behind it, in which
brackets are nested. -/
structure ElementHeader where
  type : List Token
  name : Token
  colon : Token
  iterable : List Token
  filled : type ≠ []
  typed : keepsInside [";", ":"] type
  named : keepsInside [";", ":"] [name]
  marked : colon.is ":"
  unbroken : keepsInside [";"] iterable

namespace ElementHeader

variable (header : ElementHeader)

/-- The tokens of a header. -/
def tokens : List Token := header.type ++ header.name :: header.colon :: header.iterable

/-- The tokens of a header are its declaration, the colon and what is gone through. -/
theorem tokens_eq :
    header.tokens = (header.type ++ [header.name]) ++ header.colon :: header.iterable := by
  simp [tokens]

/-- The type without words that modify the variable. -/
def bareType : List Token :=
  header.type.filter fun token => !(token.isIdent && isModifier token.text)

/-- Whether the colon is the only one outside all brackets. -/
def IsClear : Prop := keepsInside [":"] header.iterable

/-- What a header says. -/
def texts : List (String × String) :=
  [("loop", "foreach"), ("varType", Token.join header.bareType), ("var", header.name.text),
    ("iterable", Token.join header.iterable)]

/-- The declared part is nested and has neither a semicolon nor a colon outside of brackets. -/
theorem exists_outer_declared : ∃ outside, Token.outer 0 (header.type ++ [header.name]) =
    some outside ∧ ∀ sign ∈ [";", ":"], ∀ token ∈ outside, ¬token.is sign := by
  obtain ⟨typeOutside, typeNested, typeFree⟩ := Token.exists_outer_of_keepsInside header.typed
  obtain ⟨nameOutside, nameNested, nameFree⟩ := Token.exists_outer_of_keepsInside header.named
  refine ⟨typeOutside ++ nameOutside, ?_, fun sign among => ?_⟩
  · rw [Token.outer_append typeNested, nameNested]
    rfl
  · exact List.forall_mem_append.mpr ⟨typeFree sign among, nameFree sign among⟩

theorem colon_noBracket : ¬header.colon.opens ∧ ¬header.colon.closes := by
  simp [Token.opens, Token.closes, Token.isAny, Token.is_eq header.marked]

/-- Brackets are nested in the header, and no semicolon stands outside of them. -/
theorem exists_outer_tokens : ∃ outside, Token.outer 0 header.tokens = some outside ∧
    ∀ token ∈ outside, ¬token.is ";" := by
  obtain ⟨outside, nested, free⟩ := header.exists_outer_declared
  obtain ⟨others, otherNested, otherFree⟩ := Token.exists_outer_of_keepsInside header.unbroken
  have apart : ¬header.colon.is ";" := by simp [Token.is_eq header.marked]
  refine ⟨outside ++ header.colon :: others, ?_, ?_⟩
  · rw [tokens_eq, Token.outer_append nested, Token.outer, if_neg header.colon_noBracket.1,
      if_neg header.colon_noBracket.2, if_pos rfl, otherNested]
    rfl
  · refine List.forall_mem_append.mpr ⟨free ";" (by simp), ?_⟩
    exact List.forall_mem_cons.mpr ⟨apart, otherFree ";" (by simp)⟩

/-- The header is one part at semicolons. At colons it has its two parts, and more than them unless
its colon is the only one. -/
theorem splitTop_tokens :
    Token.splitTop ";" 0 header.tokens = [header.tokens] ∧
    Token.splitTop ":" 0 header.tokens =
      (header.type ++ [header.name]) :: Token.splitTop ":" 0 header.iterable := by
  obtain ⟨outside, nested, free⟩ := header.exists_outer_declared
  obtain ⟨_, whole, unbroken⟩ := header.exists_outer_tokens
  refine ⟨Token.splitTop_alone whole unbroken, ?_⟩
  rw [tokens_eq]
  exact Token.splitTop_append_mark nested (free ":" (by simp)) header.marked
    header.colon_noBracket _

/-- A header without a further colon outside of brackets is read as that of an element loop. -/
theorem loopHeader_tokens_of_isClear (clear : header.IsClear) :
    loopHeader header.tokens = some header.texts := by
  obtain ⟨outside, nested, free⟩ := Token.exists_outer_of_keepsInside clear
  obtain ⟨whole, parts⟩ := header.splitTop_tokens
  rw [Token.splitTop_alone nested (free ":" (by simp))] at parts
  obtain ⟨first, others, filled⟩ := List.exists_cons_of_ne_nil header.filled
  unfold loopHeader
  rw [whole, parts]
  dsimp only
  rw [List.getLast?_concat, List.dropLast_concat, texts, bareType, filled]

/-- A header with a further colon outside of brackets is malformed. -/
theorem loopHeader_tokens_of_not_isClear (clear : ¬header.IsClear) :
    loopHeader header.tokens = none := by
  obtain ⟨outside, nested, _⟩ := Token.exists_outer_of_keepsInside header.unbroken
  obtain ⟨whole, parts⟩ := header.splitTop_tokens
  obtain ⟨part, others, behind, count⟩ := Token.exists_splitTop_eq_cons ":" nested
  have more : others ≠ [] := by
    rintro rfl
    refine clear ?_
    rw [IsClear, keepsInside, nested, Option.any_some]
    simpa [Token.isAny] using count.symm
  obtain ⟨second, later, rfl⟩ := List.exists_cons_of_ne_nil more
  unfold loopHeader
  rw [whole, parts, behind]

end ElementHeader

variable {reading : Reading} {word opening closing : Token} {rest : List Token}

/-- A group of nested tokens in round brackets. -/
theorem roundGroup_of_outer {tokens outside : List Token}
    (there : reading.rest = opening :: (tokens ++ closing :: rest)) (opens : opening.is "(")
    (closes : closing.is ")") (nested : Token.outer 0 tokens = some outside) :
    roundGroup reading =
      (tokens, opening :: tokens ++ [closing], { reading with rest, last := some closing }) := by
  have isClosing : closing.closes := by simp [Token.closes, Token.isAny, closes]
  unfold roundGroup
  simp [there, opens, Reading.next, Token.group_of_outer nested isClosing, Reading.pass,
    Reading.sees, closes]

/-- **Loops over elements.** A loop whose header declares a variable before a colon is read as a
loop over elements, with the type without modifiers, the name of the variable and what it runs over,
and nothing is reported for the header, if the colon is the only one outside all brackets. If it is
not, the whole header becomes the condition of a plain loop and is reported as malformed. -/
theorem statementWithin_elementLoop (header : ElementHeader) (bound : Nat)
    (there : reading.rest = word :: opening :: (header.tokens ++ closing :: rest))
    (isFor : word.is "for") (opens : opening.is "(") (closes : closing.is ")") :
    let loop (body : SyntaxTree × Reading) : SyntaxTree :=
      { kind := .forLoop, children := callNodes header.tokens ++ [body.1],
        range := body.2.since reading.start }
    let behind : Reading := { reading with rest, last := some closing }
    let body := bodyWithin bound reading.start behind
    let reported := bodyWithin bound reading.start
      (behind.report "malformed for-loop header" (behind.since reading.start))
    (header.IsClear →
      statementWithin (bound + 1) reading = (some (putAll header.texts (loop body)), body.2)) ∧
    (¬header.IsClear →
      statementWithin (bound + 1) reading =
        (some (putAll [("loop", "for"), ("condition", Token.join header.tokens)] (loop reported)),
          reported.2)) := by
  intro loop behind body reported
  have next : reading.next = { reading with
      rest := opening :: (header.tokens ++ closing :: rest), last := some word } := by
    rw [Reading.next, there]
  have group : roundGroup reading.next =
      (header.tokens, opening :: header.tokens ++ [closing], behind) := by
    obtain ⟨outside, nested, _⟩ := header.exists_outer_tokens
    rw [roundGroup_of_outer (congrArg Reading.rest next) opens closes nested, next]
  rw [statementWithin_for bound there isFor]
  dsimp only
  rw [group]
  constructor
  · intro clear
    rw [forNode_eq (header.loopHeader_tokens_of_isClear clear), putAll_with]
  · intro unclear
    unfold forNode
    rw [header.loopHeader_tokens_of_not_isClear unclear]
    rfl

/-- A loop over the elements of what a call gives, with a conditional among its arguments. -/
theorem statementWithin_elementLoop_call :
    let word (text : String) : Token := ⟨.ident, text, default, false⟩
    let sign (text : String) : Token := ⟨.punct, text, default, false⟩
    let header : List Token := [word "final", word "List", sign "<", word "A", sign ">", word "x",
      sign ":", word "f", sign "(", word "c", sign "?", word "a", sign ":", word "b", sign ")"]
    let reading : Reading :=
      { rest := word "for" :: sign "(" :: (header ++ [sign ")", sign ";"]), finish := default }
    (statementWithin 3 reading).1.map
        (fun loop => ["loop", "varType", "var", "iterable"].map loop.textAt) =
      some ["foreach", "List<A>", "x", "f(c?a:b)"] ∧
    (statementWithin 3 reading).2.problems = [] := by
  intro word sign header reading
  let element : ElementHeader := {
    type := header.take 5
    name := word "x"
    colon := sign ":"
    iterable := header.drop 7
    filled := by decide +kernel
    typed := by decide +kernel
    named := by decide +kernel
    marked := by decide +kernel
    unbroken := by decide +kernel }
  have clear : element.IsClear := by
    unfold ElementHeader.IsClear
    decide +kernel
  have there : reading.rest = word "for" :: sign "(" :: (element.tokens ++ [sign ")", sign ";"]) :=
    rfl
  have read := (statementWithin_elementLoop element 2 there rfl rfl rfl).1 clear
  rw [read]
  decide +kernel

/-- A loop over the elements of a conditional outside all brackets is refused. -/
theorem parseSource_conditionalHeader :
    ∃ parsed,
      parseSource
        "class A \x7b void f(boolean c) \x7b for (String s : c ? a : b) \x7b \x7d \x7d \x7d" =
        .ok parsed ∧
      parsed.diagnostics.map (·.message) = ["malformed for-loop header"] := by
  obtain ⟨parsed, read, tested⟩ : ∃ parsed,
      parseSource
        "class A \x7b void f(boolean c) \x7b for (String s : c ? a : b) \x7b \x7d \x7d \x7d" =
        .ok parsed ∧
      decide (parsed.diagnostics.map (·.message) = ["malformed for-loop header"]) :=
    exists_tested (by decide +kernel)
  exact ⟨parsed, read, of_decide_eq_true tested⟩

end Parser

end Transcode
