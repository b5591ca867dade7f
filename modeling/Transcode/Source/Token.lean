import Transcode.Source.Position
import Transcode.Text.Words

/-!
# Tokens of a source text

`pieces` cuts a text into blanks, comments and tokens, of which nothing is lost
(`flatMap_text_pieces`). The tokens keep their place and whether something stood between them and
the token before. What is wrong with a piece becomes a diagnostic and never stops the cutting.
-/

namespace Transcode

open Text

/-- The kinds of tokens. -/
inductive TokenKind where
  | ident
  | number
  | text
  | char
  | punct
  deriving DecidableEq, Repr

/-- What can be wrong with a piece of text. -/
inductive LexicalFault where
  | openComment
  | openText
  | openChar
  | unexpected (c : Char)
  deriving DecidableEq, Repr

/-- The wording of a lexical fault. -/
def LexicalFault.message : LexicalFault → String
  | .openComment => "unterminated block comment"
  | .openText => "unterminated string literal"
  | .openChar => "unterminated character literal"
  | .unexpected c => "unexpected character '" ++ String.singleton c ++ "'"

/-- A piece of source text: a token of some kind, or a gap, which is a blank or a comment. -/
structure Piece where
  kind : Option TokenKind
  text : List Char
  fault : Option LexicalFault := none
  deriving DecidableEq, Repr

/-- A token with its place. `spaced` tells whether a gap precedes it. -/
structure Token where
  kind : TokenKind
  text : String
  range : SourceRange
  spaced : Bool
  deriving DecidableEq, Repr

namespace Token

/-- Whether a token is a given word or sign; literals in quotes never are. -/
def is (token : Token) (text : String) : Bool :=
  token.kind ≠ .text && token.kind ≠ .char && token.text = text

/-- Whether a token is one of several words or signs. -/
def isAny (token : Token) (texts : List String) : Bool := texts.any token.is

/-- Whether a token is a word. -/
def isIdent (token : Token) : Bool := token.kind = .ident

/-- An opening bracket of a group: `(`, `[` or a brace. -/
def opens (token : Token) : Bool := token.isAny ["(", "[", "\x7b"]

/-- A closing bracket of a group: `)`, `]` or a brace. -/
def closes (token : Token) : Bool := token.isAny [")", "]", "\x7d"]

end Token

namespace Lexer

/-- The first characters of a word. -/
def startsWord (c : Char) : Bool := isAlphabetic c || c = '_' || c = '$'

/-- The later characters of a word. -/
def continuesWord (c : Char) : Bool := isAlphanumeric c || c = '_' || c = '$'

/-- The later characters of a number. -/
def continuesNumber (c : Char) : Bool := isAlphanumeric c || c = '.' || c = '_'

/-- The signs of several characters; of two that stand at one place the earlier is taken. -/
def longOperators : List (List Char) :=
  ["...", "->", "::", "==", "!=", "<=", ">=", "&&", "||", "++", "--", "+=", "-=", "*=", "/=",
   "%=", "&=", "|=", "^=", "<<"].map String.toList

/-- The characters that are signs by themselves. -/
def signs : List Char := "\x7b\x7d()[];,.<>=+-*/%!&|^~?:@".toList

/-- The rest of a block comment, and whether it is closed. -/
def spanComment : List Char → List Char × List Char × Bool
  | [] => ([], [], false)
  | '*' :: '/' :: rest => (['*', '/'], rest, true)
  | c :: rest =>
    let (taken, rest, closed) := spanComment rest
    (c :: taken, rest, closed)

/-- The rest of a literal in quotes, and whether it is closed. A backslash keeps the next character
from closing it; the end of the line ends it in any case. -/
def spanQuoted (quote : Char) : List Char → List Char × List Char × Bool
  | [] => ([], [], false)
  | '\\' :: c :: rest =>
    if c = '\n' then (['\\'], c :: rest, false)
    else
      let (taken, rest, closed) := spanQuoted quote rest
      ('\\' :: c :: taken, rest, closed)
  | c :: rest =>
    if c = '\n' then ([], c :: rest, false)
    else if c = quote then ([c], rest, true)
    else
      let (taken, rest, closed) := spanQuoted quote rest
      (c :: taken, rest, closed)

/-- The long operator that a text starts with, and what follows it. -/
def longOperator? (cs : List Char) : Option (List Char × List Char) :=
  longOperators.findSome? fun operator => (stripStart? operator cs).map (operator, ·)

/-- Whether a number starts: with a digit, or with a point before a digit. -/
def startsNumber (c : Char) (rest : List Char) : Bool :=
  isAsciiDigit c || (c = '.' && rest.head?.any isAsciiDigit)

/-- The piece that starts with a character, and what follows it. -/
def nextPiece (c : Char) (rest : List Char) : Piece × List Char :=
  if isBlank c then (⟨none, [c], none⟩, rest)
  else if c = '/' && rest.head? = some '/' then
    (⟨none, c :: rest.takeWhile (· != '\n'), none⟩, rest.dropWhile (· != '\n'))
  else if c = '/' && rest.head? = some '*' then
    let (taken, rest, closed) := spanComment (rest.drop 1)
    (⟨none, '/' :: '*' :: taken, if closed then none else some .openComment⟩, rest)
  else if startsWord c then
    (⟨some .ident, c :: rest.takeWhile continuesWord, none⟩, rest.dropWhile continuesWord)
  else if startsNumber c rest then
    (⟨some .number, c :: rest.takeWhile continuesNumber, none⟩, rest.dropWhile continuesNumber)
  else if c = '"' then
    let (taken, rest, closed) := spanQuoted c rest
    (⟨some .text, c :: taken, if closed then none else some .openText⟩, rest)
  else if c = '\'' then
    let (taken, rest, closed) := spanQuoted c rest
    (⟨some .char, c :: taken, if closed then none else some .openChar⟩, rest)
  else match longOperator? (c :: rest) with
    | some (operator, rest) => (⟨some .punct, operator, none⟩, rest)
    | none => (⟨some .punct, [c], if signs.contains c then none else some (.unexpected c)⟩, rest)

/-- The pieces of a text, at most as many as `fuel`. -/
def piecesWithin : Nat → List Char → List Piece
  | _, [] => []
  | 0, _ :: _ => []
  | fuel + 1, c :: rest =>
    let (piece, rest) := nextPiece c rest
    piece :: piecesWithin fuel rest

/-- The pieces of a text, in order. -/
def pieces (cs : List Char) : List Piece := piecesWithin cs.length cs

/-- A comment and what follows it are the text. -/
theorem append_spanComment (cs : List Char) :
    (spanComment cs).1 ++ (spanComment cs).2.1 = cs := by
  fun_induction spanComment cs with
  | case1 => rfl
  | case2 => rfl
  | case3 c rest hopen taken left closed heq ih =>
      rw [heq] at ih
      exact congrArg (c :: ·) ih

/-- A literal and what follows it are the text. -/
theorem append_spanQuoted (quote : Char) (cs : List Char) :
    (spanQuoted quote cs).1 ++ (spanQuoted quote cs).2.1 = cs := by
  fun_induction spanQuoted quote cs with
  | case1 => rfl
  | case2 => rfl
  | case3 c rest hbreak taken left closed heq ih =>
      rw [heq] at ih
      exact congrArg ('\\' :: c :: ·) ih
  | case4 => rfl
  | case5 => rfl
  | case6 c rest hescape hbreak hquote taken left closed heq ih =>
      rw [heq] at ih
      exact congrArg (c :: ·) ih

/-- A long operator and what follows it are the text. -/
theorem append_longOperator? {cs operator rest : List Char}
    (h : longOperator? cs = some (operator, rest)) : operator ++ rest = cs := by
  obtain ⟨candidate, _, hcandidate⟩ := List.exists_of_findSome?_eq_some h
  obtain ⟨left, hleft, heq⟩ := Option.map_eq_some_iff.mp hcandidate
  obtain ⟨rfl, rfl⟩ := Prod.mk.inj heq
  exact (stripStart?_eq_some_iff.mp hleft).symm

/-- A piece takes the start of a text and leaves the rest. -/
theorem append_nextPiece (c : Char) (rest : List Char) :
    (nextPiece c rest).1.text ++ (nextPiece c rest).2 = c :: rest := by
  fun_cases nextPiece c rest with
  | case1 => rfl
  | case2 => exact congrArg (c :: ·) List.takeWhile_append_dropWhile
  | case3 _ _ hopen taken left closed heq =>
      obtain ⟨hslash, hstar⟩ := Bool.and_eq_true_iff.mp hopen
      obtain ⟨tail, rfl⟩ := List.head?_eq_some_iff.mp (of_decide_eq_true hstar)
      have hsplit := append_spanComment tail
      rw [List.drop_one, List.tail_cons] at heq
      rw [heq] at hsplit
      exact of_decide_eq_true hslash ▸ congrArg ('/' :: '*' :: ·) hsplit
  | case4 => exact congrArg (c :: ·) List.takeWhile_append_dropWhile
  | case5 => exact congrArg (c :: ·) List.takeWhile_append_dropWhile
  | case6 _ _ _ _ _ _ taken left closed heq =>
      have hsplit := append_spanQuoted c rest
      rw [heq] at hsplit
      exact congrArg (c :: ·) hsplit
  | case7 _ _ _ _ _ _ _ taken left closed heq =>
      have hsplit := append_spanQuoted c rest
      rw [heq] at hsplit
      exact congrArg (c :: ·) hsplit
  | case8 _ _ _ _ _ _ _ operator left heq => exact append_longOperator? heq
  | case9 => rfl

/-- No long operator is empty. -/
theorem longOperator?_ne_nil {cs operator rest : List Char}
    (h : longOperator? cs = some (operator, rest)) : operator ≠ [] := by
  have hnone : ∀ operator ∈ longOperators, operator ≠ [] := by decide
  obtain ⟨candidate, hmember, hcandidate⟩ := List.exists_of_findSome?_eq_some h
  obtain ⟨_, _, hpair⟩ := Option.map_eq_some_iff.mp hcandidate
  obtain ⟨rfl, _⟩ := Prod.mk.inj hpair
  exact hnone _ hmember

/-- No piece is empty. -/
theorem text_nextPiece_ne_nil (c : Char) (rest : List Char) :
    (nextPiece c rest).1.text ≠ [] := by
  fun_cases nextPiece c rest with
  | case8 _ _ _ _ _ _ _ operator left heq => exact longOperator?_ne_nil heq
  | _ => exact List.cons_ne_nil _ _

/-- What follows a piece is shorter than the text. -/
theorem length_nextPiece_lt (c : Char) (rest : List Char) :
    (nextPiece c rest).2.length < (c :: rest).length := by
  have hlength := congrArg List.length (append_nextPiece c rest)
  have hpos := List.length_pos_iff.mpr (text_nextPiece_ne_nil c rest)
  rw [List.length_append] at hlength
  omega

/-- Pieces within enough fuel are the whole text. -/
theorem flatMap_text_piecesWithin {fuel : Nat} {cs : List Char} (h : cs.length ≤ fuel) :
    (piecesWithin fuel cs).flatMap (·.text) = cs := by
  induction fuel generalizing cs with
  | zero =>
      have hnil := List.length_eq_zero_iff.mp (Nat.le_zero.mp h)
      subst hnil
      rfl
  | succ fuel ih =>
      cases cs with
      | nil => rfl
      | cons c rest =>
          have hlt := length_nextPiece_lt c rest
          have hleft := ih (Nat.le_of_lt_succ (Nat.lt_of_lt_of_le hlt h))
          calc
            _ = (nextPiece c rest).1.text ++
                (piecesWithin fuel (nextPiece c rest).2).flatMap (·.text) := List.flatMap_cons
            _ = (nextPiece c rest).1.text ++ (nextPiece c rest).2 := by rw [hleft]
            _ = c :: rest := append_nextPiece c rest

/-- Nothing of a text is lost: its pieces in a row are the text. -/
theorem flatMap_text_pieces (cs : List Char) : (pieces cs).flatMap (·.text) = cs :=
  flatMap_text_piecesWithin (Nat.le_refl _)

/-- The tokens among pieces that start at a position; `spaced` tells whether the pieces before end
with a gap. -/
def tokensAt : Position → Bool → List Piece → List Token
  | _, _, [] => []
  | position, spaced, piece :: rest =>
    let stop := position.after piece.text
    match piece.kind with
    | none => tokensAt stop true rest
    | some kind =>
      ⟨kind, String.ofList piece.text, ⟨position, stop⟩, spaced⟩ :: tokensAt stop false rest

/-- The faults of pieces that start at a position. -/
def diagnosticsAt : Position → List Piece → List Diagnostic
  | _, [] => []
  | position, piece :: rest =>
    let stop := position.after piece.text
    match piece.fault with
    | none => diagnosticsAt stop rest
    | some fault => ⟨fault.message, ⟨position, stop⟩⟩ :: diagnosticsAt stop rest

end Lexer

/-- The tokens of a source text and the problems found on the way. -/
def tokenize (source : String) : List Token × List Diagnostic :=
  let pieces := Lexer.pieces source.toList
  (Lexer.tokensAt .first false pieces, Lexer.diagnosticsAt .first pieces)

namespace Token

/-- A token's text, after one blank if a gap precedes it. -/
def textAfterGap (token : Token) : String :=
  if token.spaced then " " ++ token.text else token.text

/-- The texts of tokens in a row, with one blank for each gap between them. -/
def join : List Token → String
  | [] => ""
  | token :: rest => token.text ++ String.join (rest.map textAfterGap)

end Token

end Transcode
