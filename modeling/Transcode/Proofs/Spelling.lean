import Mathlib.Data.List.TakeWhile
import Transcode.Source.Token

/-!
# Texts with blanks between their tokens

A lexeme is a text that is one token, with nothing wrong about it. A text in which lexemes stand
with single blanks between them has just these tokens, and nothing is wrong with it
(`tokenize_spell`).
-/

namespace Transcode

open Text

/-- A comment or literal that does not end with the text or line before it is closed. -/
structure Piece.IsClosed (piece : Piece) : Prop where
  comment : piece.fault ≠ some .openComment
  text : piece.fault ≠ some .openText
  char : piece.fault ≠ some .openChar

theorem Piece.isClosed_of_sound {piece : Piece} (sound : piece.fault = none) : piece.IsClosed := by
  constructor <;> simp [sound]

namespace Lexer

/-! ### Pieces one by one -/

/-- A bound that suffices for a text changes nothing. -/
theorem piecesWithin_congr {fuel other : Nat} {cs : List Char} (enough : cs.length ≤ fuel)
    (enoughOther : cs.length ≤ other) : piecesWithin fuel cs = piecesWithin other cs := by
  induction fuel generalizing cs other with
  | zero =>
      obtain rfl := List.length_eq_zero_iff.mp (Nat.le_zero.mp enough)
      cases other <;> rfl
  | succ fuel ih =>
      cases cs with
      | nil => cases other <;> rfl
      | cons c cs =>
          obtain ⟨other, rfl⟩ := Nat.exists_eq_add_one.mpr (Nat.zero_lt_of_lt enoughOther)
          have fewer := length_nextPiece_lt c cs
          exact congrArg (_ :: ·) (ih (Nat.le_of_lt_succ (Nat.lt_of_lt_of_le fewer enough))
            (Nat.le_of_lt_succ (Nat.lt_of_lt_of_le fewer enoughOther)))

/-- The pieces of a text are the next one and those behind it. -/
theorem pieces_cons (c : Char) (cs : List Char) :
    pieces (c :: cs) = (nextPiece c cs).1 :: pieces (nextPiece c cs).2 :=
  congrArg (_ :: ·) (piecesWithin_congr (Nat.le_of_lt_succ (length_nextPiece_lt c cs))
    (Nat.le_refl _))

/-- Reading a text piece by piece. -/
@[elab_as_elim]
theorem pieces_induction {motive : List Char → Prop} (nil : motive [])
    (cons : ∀ c cs, motive (nextPiece c cs).2 → motive (c :: cs)) : ∀ cs, motive cs
  | [] => nil
  | c :: cs => cons c cs (pieces_induction nil cons (nextPiece c cs).2)
termination_by cs => cs.length
decreasing_by exact length_nextPiece_lt c cs

/-! ### Pieces before a separator -/

theorem isBlank_space : isBlank ' ' := by decide +kernel

/-- A character that ends the word, number or sign before it. -/
structure Separates (separator : Char) : Prop where
  word : ¬continuesWord separator
  number : ¬continuesNumber separator
  digit : ¬isAsciiDigit separator
  sign : ∀ operator ∈ longOperators, separator ∉ operator
  slash : '/' ≠ separator
  star : '*' ≠ separator

theorem separates_space : Separates ' ' := by constructor <;> decide +kernel

theorem separates_break : Separates '\n' := by constructor <;> decide +kernel

variable {separator : Char}

/-- Another character comes first after a separator is added just if it did before. -/
theorem head?_append_separator {c : Char} (other : c ≠ separator) (cs rest : List Char) :
    (cs ++ separator :: rest).head? = some c ↔ cs.head? = some c := by
  cases cs with
  | nil => simp [Ne.symm other]
  | cons first others => rfl

/-- A beginning without the separator is stripped before it. -/
theorem stripStart?_append_separator {beginning : List Char} (solid : separator ∉ beginning)
    (cs rest : List Char) : stripStart? beginning (cs ++ separator :: rest) =
      (stripStart? beginning cs).map (· ++ separator :: rest) := by
  induction beginning generalizing cs with
  | nil => rfl
  | cons first others ih =>
      obtain ⟨here, later⟩ := List.ne_and_not_mem_of_not_mem_cons solid
      cases cs with
      | nil => simp [stripStart?, Ne.symm here]
      | cons c cs =>
          by_cases same : first = c
          · simp [stripStart?, same, ih later]
          · simp [stripStart?, same]

/-- No sign goes over a separator. -/
theorem longOperator?_append_separator (separates : Separates separator) (cs rest : List Char) :
    longOperator? (cs ++ separator :: rest) =
      (longOperator? cs).map fun found => (found.1, found.2 ++ separator :: rest) := by
  have each : ∀ operators : List (List Char), (∀ operator ∈ operators, separator ∉ operator) →
      (operators.findSome? fun operator =>
        (stripStart? operator (cs ++ separator :: rest)).map (operator, ·)) =
      (operators.findSome? fun operator => (stripStart? operator cs).map (operator, ·)).map
        fun found => (found.1, found.2 ++ separator :: rest) := by
    intro operators solid
    induction operators with
    | nil => rfl
    | cons operator operators ih =>
        obtain ⟨here, later⟩ := List.forall_mem_cons.mp solid
        rw [List.findSome?_cons, List.findSome?_cons, stripStart?_append_separator here]
        cases stripStart? operator cs with
        | none => exact ih later
        | some left => rfl
  exact each longOperators separates.sign

/-- A quoted text that is closed ends where it did, whatever follows. -/
theorem spanQuoted_append {quote : Char} (plain : quote ≠ '\\') {cs : List Char}
    (closed : (spanQuoted quote cs).2.2) (rest : List Char) : spanQuoted quote (cs ++ rest) =
      ((spanQuoted quote cs).1, (spanQuoted quote cs).2.1 ++ rest, true) := by
  fun_induction spanQuoted quote cs with
  | case1 => cases closed
  | case2 => cases closed
  | case3 c others other taken left whole read ih =>
    rw [read] at ih
    simp only [List.cons_append, spanQuoted, other, if_false, ih closed]
  | case4 => cases closed
  | case5 others noEscape other => simp [spanQuoted, plain, other]
  | case6 c others escape other noQuote taken left whole read ih =>
    have noBackslash : c ≠ '\\' := by
      rintro rfl
      cases others with
      | nil =>
          cases read
          cases closed
      | cons d others => exact escape d others rfl rfl
    rw [read] at ih
    simp [spanQuoted, noBackslash, other, noQuote, ih closed]

/-- A block comment that is closed ends where it did, whatever follows. -/
theorem spanComment_append {cs : List Char} (closed : (spanComment cs).2.2) (rest : List Char) :
    spanComment (cs ++ rest) = ((spanComment cs).1, (spanComment cs).2.1 ++ rest, true) := by
  fun_induction spanComment cs with
  | case1 => cases closed
  | case2 => rfl
  | case3 c others noEnd taken left whole read ih =>
    have further : ∀ later, c = '*' → others ++ rest = '/' :: later → False := by
      rintro later rfl same
      cases others with
      | nil =>
          cases read
          cases closed
      | cons d others =>
          obtain ⟨rfl, _⟩ := List.cons.inj same
          exact noEnd others rfl rfl
    rw [read] at ih
    rw [List.cons_append, spanComment.eq_3 _ _ further, ih closed]

/-- What goes on in a text goes on as far with a character after it that stops it. -/
theorem takeWhile_append_separator (goesOn : Char → Bool) (stops : ¬goesOn separator)
    (cs rest : List Char) :
    (cs ++ separator :: rest).takeWhile goesOn = cs.takeWhile goesOn ∧
      (cs ++ separator :: rest).dropWhile goesOn = cs.dropWhile goesOn ++ separator :: rest := by
  induction cs with
  | nil => simp [stops]
  | cons c cs ih =>
      by_cases on : goesOn c
      · simp [on, ih]
      · simp [on]

/-- A piece that is closed ends where it did if a separator follows. A comment through the end of
its line goes on unless that is a line break. -/
theorem nextPiece_append (separates : Separates separator) {c : Char} {cs : List Char}
    (isClosed : (nextPiece c cs).1.IsClosed)
    (line : separator = '\n' ∨ (nextPiece c cs).1.kind ≠ none) (rest : List Char) :
    nextPiece c (cs ++ separator :: rest) =
      ((nextPiece c cs).1, (nextPiece c cs).2 ++ separator :: rest) := by
  have digit : (cs ++ separator :: rest).head?.any isAsciiDigit = cs.head?.any isAsciiDigit := by
    cases cs with
    | nil => simp [separates.digit]
    | cons => rfl
  have number : startsNumber c (cs ++ separator :: rest) = startsNumber c cs := by
    rw [startsNumber, digit, startsNumber]
  have sign : longOperator? (c :: (cs ++ separator :: rest)) = _ :=
    longOperator?_append_separator separates (c :: cs) rest
  have slash : decide ((cs ++ separator :: rest).head? = some '/') =
      decide (cs.head? = some '/') :=
    decide_eq_decide.mpr (head?_append_separator separates.slash cs rest)
  have star : decide ((cs ++ separator :: rest).head? = some '*') =
      decide (cs.head? = some '*') :=
    decide_eq_decide.mpr (head?_append_separator separates.star cs rest)
  rw [nextPiece, number, slash, star]
  revert isClosed line
  fun_cases nextPiece c cs with
  | case1 blank =>
    intro _ _
    rw [if_pos blank]
  | case2 filled opens =>
    intro _ line
    obtain rfl := line.resolve_right (· rfl)
    have ends := takeWhile_append_separator (· != '\n') (show ¬('\n' != '\n') = true by decide)
      cs rest
    rw [if_neg filled, if_pos opens, ends.1, ends.2]
  | case3 filled noLine opens taken left closed read =>
    intro isClosed _
    obtain ⟨tail, rfl⟩ := List.head?_eq_some_iff.mp
      (of_decide_eq_true (Bool.and_eq_true_iff.mp opens).2)
    rw [List.drop_one, List.tail_cons] at read
    cases closed with
    | false => exact absurd rfl isClosed.comment
    | true =>
        have ends := spanComment_append (by rw [read]) (separator :: rest)
        rw [read] at ends
        rw [if_neg filled, if_neg noLine, if_pos opens, List.cons_append, List.drop_one,
          List.tail_cons, ends]
  | case4 filled noLine noBlock word =>
    intro _ _
    have ends := takeWhile_append_separator _ separates.word cs rest
    rw [if_neg filled, if_neg noLine, if_neg noBlock, if_pos word, ends.1, ends.2]
  | case5 filled noLine noBlock noWord isNumber =>
    intro _ _
    have ends := takeWhile_append_separator _ separates.number cs rest
    rw [if_neg filled, if_neg noLine, if_neg noBlock, if_neg noWord, if_pos isNumber, ends.1,
      ends.2]
  | case6 filled noLine noBlock noWord noNumber isText taken left closed read =>
    intro isClosed _
    cases closed with
    | false => exact absurd rfl isClosed.text
    | true =>
        have ends := spanQuoted_append (show c ≠ '\\' by rw [isText]; decide) (by rw [read])
          (separator :: rest)
        rw [read] at ends
        rw [if_neg filled, if_neg noLine, if_neg noBlock, if_neg noWord, if_neg noNumber,
          if_pos isText, ends]
  | case7 filled noLine noBlock noWord noNumber noText isChar taken left closed read =>
    intro isClosed _
    cases closed with
    | false => exact absurd rfl isClosed.char
    | true =>
        have ends := spanQuoted_append (show c ≠ '\\' by rw [isChar]; decide) (by rw [read])
          (separator :: rest)
        rw [read] at ends
        rw [if_neg filled, if_neg noLine, if_neg noBlock, if_neg noWord, if_neg noNumber,
          if_neg noText, if_pos isChar, ends]
  | case8 filled noLine noBlock noWord noNumber noText noChar operator left read =>
    intro _ _
    rw [if_neg filled, if_neg noLine, if_neg noBlock, if_neg noWord, if_neg noNumber,
      if_neg noText, if_neg noChar, sign, read]
    rfl
  | case9 filled noLine noBlock noWord noNumber noText noChar read =>
    intro _ _
    rw [if_neg filled, if_neg noLine, if_neg noBlock, if_neg noWord, if_neg noNumber,
      if_neg noText, if_neg noChar, sign, read]
    rfl

/-- What is one token by itself is the first token of a text in which a blank follows it. -/
theorem nextPiece_append_space {c : Char} {cs : List Char} {kind : TokenKind}
    (whole : nextPiece c cs = (⟨some kind, c :: cs, none⟩, [])) (rest : List Char) :
    nextPiece c (cs ++ ' ' :: rest) = (⟨some kind, c :: cs, none⟩, ' ' :: rest) := by
  rw [nextPiece_append separates_space (Piece.isClosed_of_sound (by rw [whole]))
    (.inr (by rw [whole]; simp)), whole]
  rfl

/-! ### Texts of lexemes -/

end Lexer

/-- A text that is one token, with nothing wrong about it. -/
structure Lexeme where
  kind : TokenKind
  text : String
  whole : Lexer.pieces text.toList = [⟨some kind, text.toList, none⟩]
  deriving DecidableEq

/-- Lexemes as a text, with single blanks between them. -/
def spell (lexemes : List Lexeme) : String := " ".intercalate (lexemes.map (·.text))

/-- Where a text is written, and whether it goes on with a blank. -/
structure Pen where
  position : Position
  started : Bool

namespace Pen

/-- A lexeme written as a token. -/
def token (pen : Pen) (lexeme : Lexeme) : Token :=
  let start := if pen.started then pen.position.step ' ' else pen.position
  ⟨lexeme.kind, lexeme.text, ⟨start, start.after lexeme.text.toList⟩, pen.started⟩

/-- The pen after a lexeme. -/
def past (pen : Pen) (lexeme : Lexeme) : Pen := ⟨(pen.token lexeme).range.stop, true⟩

/-- Lexemes written as tokens. -/
def lay : Pen → List Lexeme → List Token
  | _, [] => []
  | pen, lexeme :: lexemes => pen.token lexeme :: (pen.past lexeme).lay lexemes

/-- The pen after several lexemes. -/
def pastAll (pen : Pen) (lexemes : List Lexeme) : Pen := lexemes.foldl past pen

@[simp] theorem lay_nil (pen : Pen) : pen.lay [] = [] := rfl

@[simp] theorem lay_cons (pen : Pen) (lexeme : Lexeme) (lexemes : List Lexeme) :
    pen.lay (lexeme :: lexemes) = pen.token lexeme :: (pen.past lexeme).lay lexemes := rfl

@[simp] theorem lay_append (pen : Pen) (first second : List Lexeme) :
    pen.lay (first ++ second) = pen.lay first ++ (pen.pastAll first).lay second := by
  induction first generalizing pen with
  | nil => rfl
  | cons lexeme first ih => exact congrArg (_ :: ·) (ih (pen.past lexeme))

/-- The pen at the start of a text. -/
def atStart : Pen := ⟨.first, false⟩

end Pen

namespace Lexer

/-- A lexeme before a blank, or at the end of a text, is the next piece. -/
theorem nextPiece_lexeme (lexeme : Lexeme) {c : Char} {cs : List Char}
    (text : lexeme.text.toList = c :: cs) {rest : List Char} (ends : rest = [] ∨ ∃ others,
      rest = ' ' :: others) :
    nextPiece c (cs ++ rest) = (⟨some lexeme.kind, c :: cs, none⟩, rest) := by
  have whole := lexeme.whole
  have joined := append_nextPiece c cs
  rw [text] at whole
  change (nextPiece c cs).1 :: _ = _ at whole
  have piece := (List.cons.inj whole).1
  rw [piece] at joined
  have all : nextPiece c cs = (⟨some lexeme.kind, c :: cs, none⟩, []) :=
    Prod.ext piece (List.append_right_eq_self.mp joined)
  rcases ends with rfl | ⟨others, rfl⟩
  · rw [List.append_nil, all]
  · exact nextPiece_append_space all others

/-- A lexeme is not empty. -/
theorem exists_toList (lexeme : Lexeme) : ∃ c cs, lexeme.text.toList = c :: cs := by
  cases text : lexeme.text.toList with
  | nil =>
      have whole := lexeme.whole
      rw [text] at whole
      cases whole
  | cons c cs => exact ⟨c, cs, rfl⟩

/-- Lexemes with a blank before each. -/
def blanked (lexemes : List Lexeme) : List Char :=
  lexemes.flatMap fun lexeme => ' ' :: lexeme.text.toList

/-- A text with blanks in front is empty or begins with a blank. -/
theorem blanked_ends (lexemes : List Lexeme) :
    blanked lexemes = [] ∨ ∃ others, blanked lexemes = ' ' :: others := by
  cases lexemes with
  | nil => exact .inl rfl
  | cons lexeme lexemes => exact .inr ⟨_, List.flatMap_cons⟩

/-- The pieces of lexemes with a blank before each: the blanks and the lexemes. -/
def blankedPieces (lexemes : List Lexeme) : List Piece :=
  lexemes.flatMap fun lexeme =>
    [⟨none, [' '], none⟩, ⟨some lexeme.kind, lexeme.text.toList, none⟩]

/-- Lexemes with blanks in front are pieces of their own. -/
theorem pieces_blanked (lexemes : List Lexeme) :
    pieces (blanked lexemes) = blankedPieces lexemes := by
  induction lexemes with
  | nil => rfl
  | cons lexeme lexemes ih =>
      obtain ⟨c, cs, text⟩ := exists_toList lexeme
      have chars : blanked (lexeme :: lexemes) = ' ' :: c :: (cs ++ blanked lexemes) := by
        rw [blanked, List.flatMap_cons, text]
        rfl
      have gap : nextPiece ' ' (c :: (cs ++ blanked lexemes)) =
          (⟨none, [' '], none⟩, c :: (cs ++ blanked lexemes)) := if_pos isBlank_space
      rw [chars, pieces_cons, gap]
      dsimp only
      rw [pieces_cons, nextPiece_lexeme lexeme text (blanked_ends lexemes)]
      dsimp only
      rw [ih, ← text]
      rfl

/-- The tokens of lexemes with blanks in front are laid. -/
theorem tokensAt_blankedPieces (position : Position) (spaced : Bool) (lexemes : List Lexeme) :
    tokensAt position spaced (blankedPieces lexemes) = Pen.lay ⟨position, true⟩ lexemes := by
  induction lexemes generalizing position spaced with
  | nil => rfl
  | cons lexeme lexemes ih =>
      change ⟨_, String.ofList lexeme.text.toList, _, _⟩ :: tokensAt _ _ (blankedPieces lexemes) = _
      rw [ih, String.ofList_toList]
      rfl

/-- Lexemes with blanks in front have no problem. -/
theorem diagnosticsAt_blankedPieces (position : Position) (lexemes : List Lexeme) :
    diagnosticsAt position (blankedPieces lexemes) = [] := by
  induction lexemes generalizing position with
  | nil => rfl
  | cons lexeme lexemes ih => exact ih _

end Lexer

/-- A spelled text begins with its first lexeme, without a blank. -/
theorem toList_spell_cons (lexeme : Lexeme) (lexemes : List Lexeme) :
    (spell (lexeme :: lexemes)).toList = lexeme.text.toList ++ Lexer.blanked lexemes := by
  have others : ∀ (first : List Char) (lexemes : List Lexeme),
      [' '].intercalate (first :: lexemes.map fun lexeme => lexeme.text.toList) =
        first ++ Lexer.blanked lexemes := by
    intro first lexemes
    induction lexemes generalizing first with
    | nil => simp [Lexer.blanked]
    | cons lexeme lexemes ih =>
        rw [List.map_cons, List.intercalate_cons_cons, ih]
        simp [Lexer.blanked]
  rw [spell, String.toList_intercalate, List.map_map, List.map_cons]
  exact others _ lexemes

/-- **Blanks between tokens.** A text of lexemes with single blanks between them has these tokens,
and nothing is wrong with it. -/
theorem tokenize_spell (lexemes : List Lexeme) :
    tokenize (spell lexemes) = (Pen.atStart.lay lexemes, []) := by
  cases lexemes with
  | nil => rfl
  | cons lexeme lexemes =>
      obtain ⟨c, cs, text⟩ := Lexer.exists_toList lexeme
      have chars := toList_spell_cons lexeme lexemes
      rw [text, List.cons_append] at chars
      have first := Lexer.nextPiece_lexeme lexeme text (Lexer.blanked_ends lexemes)
      have pieces : Lexer.pieces (spell (lexeme :: lexemes)).toList =
          ⟨some lexeme.kind, lexeme.text.toList, none⟩ :: Lexer.blankedPieces lexemes := by
        rw [chars, Lexer.pieces_cons, first]
        dsimp only
        rw [Lexer.pieces_blanked, text]
      unfold tokenize
      rw [pieces]
      refine Prod.ext ?_ (Lexer.diagnosticsAt_blankedPieces _ _)
      change ⟨_, String.ofList lexeme.text.toList, _, _⟩ :: Lexer.tokensAt _ _ _ = _
      rw [Lexer.tokensAt_blankedPieces, String.ofList_toList]
      rfl

end Transcode
