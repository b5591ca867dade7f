import Transcode.Proofs.Spelling

/-!
# Tokens joined and read again

The tokens of a text joined with one blank for each gap make a text that has the same tokens again,
and the same gaps between them (`tokenize_join`), and so does each stretch of them. For how a token
is read depends on what follows it only up to the next gap: it is read the same if the text is cut
off there (`Lexer.nextPiece_of_append`), and before a blank (`Lexer.nextPiece_append`). Only a
literal that is not closed could go on over what was not there before.
-/

namespace Transcode

open Text

namespace Lexer

/-! ### Pieces that are cut off behind -/

variable {cs tail left : List Char}

/-- The first character is the same with more behind. -/
theorem head?_append_of_some {c : Char} (first : cs.head? = some c) (tail : List Char) :
    (cs ++ tail).head? = some c := by
  rw [List.head?_append, first]
  rfl

/-- What goes on in a text and ends before its last part goes on as far without that part. -/
theorem takeWhile_of_append {goesOn : Char → Bool}
    (ends : (cs ++ tail).dropWhile goesOn = left ++ tail) :
    cs.takeWhile goesOn = (cs ++ tail).takeWhile goesOn ∧ cs.dropWhile goesOn = left := by
  induction cs with
  | nil =>
      have whole := List.takeWhile_append_dropWhile (p := goesOn) (l := tail)
      rw [List.nil_append] at ends
      rw [ends, ← List.append_assoc] at whole
      obtain ⟨none, rfl⟩ := List.append_eq_nil_iff.mp (List.append_left_eq_self.mp whole)
      simpa using none
  | cons c cs ih =>
      by_cases on : goesOn c
      · simp only [List.cons_append, List.dropWhile_cons_of_pos on,
          List.takeWhile_cons_of_pos on] at ends ⊢
        exact ⟨congrArg (c :: ·) (ih ends).1, (ih ends).2⟩
      · rw [List.cons_append, List.dropWhile_cons_of_neg on] at ends
        rw [List.cons_append, List.takeWhile_cons_of_neg on, List.takeWhile_cons_of_neg on,
          List.dropWhile_cons_of_neg on]
        exact ⟨rfl, List.append_cancel_right (ends : c :: cs ++ tail = left ++ tail)⟩

/-- A beginning is stripped without what comes behind. -/
theorem stripStart?_of_append {beginning : List Char}
    (stripped : stripStart? beginning (cs ++ tail) = some (left ++ tail)) :
    stripStart? beginning cs = some left := by
  rw [stripStart?_eq_some_iff, ← List.append_assoc] at stripped
  exact stripStart?_eq_some_iff.mpr (List.append_cancel_right stripped)

/-- What has another beginning has it without what comes behind. -/
theorem stripStart?_none_of_append {beginning : List Char}
    (other : stripStart? beginning (cs ++ tail) = none) : stripStart? beginning cs = none := by
  by_contra starts
  obtain ⟨rest, stripped⟩ := Option.ne_none_iff_exists'.mp starts
  rw [stripStart?_eq_some_iff] at stripped
  have longer : stripStart? beginning (cs ++ tail) = some (rest ++ tail) :=
    stripStart?_eq_some_iff.mpr (by rw [stripped, List.append_assoc])
  rw [other] at longer
  cases longer

/-- An operator is found without what comes behind. -/
theorem longOperator?_of_append {operator : List Char}
    (found : longOperator? (cs ++ tail) = some (operator, left ++ tail)) :
    longOperator? cs = some (operator, left) := by
  have each (operators : List (List Char))
      (found : (operators.findSome? fun operator => (stripStart? operator (cs ++ tail)).map
        (operator, ·)) = some (operator, left ++ tail)) :
      (operators.findSome? fun operator => (stripStart? operator cs).map (operator, ·)) =
        some (operator, left) := by
    induction operators with
    | nil => cases found
    | cons candidate others ih =>
        rw [List.findSome?_cons] at found ⊢
        cases stripped : stripStart? candidate (cs ++ tail) with
        | none =>
            rw [stripped] at found
            rw [stripStart?_none_of_append stripped]
            exact ih found
        | some rest =>
            rw [stripped] at found
            obtain ⟨rfl, rfl⟩ : candidate = operator ∧ rest = left ++ tail := by simpa using found
            rw [stripStart?_of_append stripped]
            rfl
  exact each longOperators found

/-- Where there is no operator there is none without what comes behind. -/
theorem longOperator?_none_of_append (none : longOperator? (cs ++ tail) = none) :
    longOperator? cs = Option.none := by
  rw [longOperator?, List.findSome?_eq_none_iff] at none ⊢
  intro candidate member
  exact congrArg _ (stripStart?_none_of_append (Option.map_eq_none_iff.mp (none candidate member)))

/-- A quoted text that is closed has its closing quote. -/
theorem spanQuoted_ne_nil {quote : Char} (closed : (spanQuoted quote cs).2.2) :
    (spanQuoted quote cs).1 ≠ [] := by
  fun_induction spanQuoted quote cs with
  | case1 => cases closed
  | case4 => cases closed
  | _ => exact List.cons_ne_nil _ _

/-- A quoted text that is closed does not end with the character that keeps the next from closing
it. -/
theorem length_spanQuoted_escape {quote : Char} (plain : quote ≠ '\\')
    (closed : (spanQuoted quote ('\\' :: cs)).2.2) :
    2 ≤ (spanQuoted quote ('\\' :: cs)).1.length := by
  cases cs with
  | nil => simp [spanQuoted, plain.symm] at closed
  | cons c cs =>
      by_cases isBreak : c = '\n'
      · simp [spanQuoted, isBreak] at closed
      · simp [spanQuoted, isBreak]

/-- A quoted text that is closed before the last part of a text is closed without that part. -/
theorem spanQuoted_of_append {quote : Char} (plain : quote ≠ '\\') {taken : List Char}
    (read : spanQuoted quote (cs ++ tail) = (taken, left ++ tail, true)) :
    spanQuoted quote cs = (taken, left, true) := by
  have length : taken.length + left.length = cs.length := by
    have whole := congrArg List.length (append_spanQuoted quote (cs ++ tail))
    rw [read] at whole
    simp only [List.length_append] at whole
    omega
  fun_induction spanQuoted quote cs generalizing taken with
  | case1 =>
    have filled : 0 < (spanQuoted quote ([] ++ tail)).1.length :=
      List.length_pos_iff.mpr (spanQuoted_ne_nil (by rw [read]))
    rw [read] at filled
    exact absurd length (Nat.ne_of_gt (Nat.add_pos_left filled _))
  | case2 => simp [spanQuoted] at read
  | case3 c others other inner rest closed found ih =>
    simp only [List.cons_append, spanQuoted, other, if_false, Prod.mk.injEq] at read
    obtain ⟨rfl, isRest, isClosed⟩ := read
    have same := ih (Prod.ext rfl (Prod.ext isRest isClosed)) (by grind)
    rw [found] at same
    obtain ⟨rfl, rfl, rfl⟩ : inner = _ ∧ rest = left ∧ closed = true := by simpa using same
    rfl
  | case4 => simp [spanQuoted] at read
  | case5 others noEscape other => simpa [spanQuoted, plain, other] using read
  | case6 c others escape other noQuote inner rest closed found ih =>
    have noBackslash : c ≠ '\\' := by
      rintro rfl
      cases others with
      | nil =>
          have twice : 2 ≤ (spanQuoted quote ('\\' :: tail)).1.length :=
            length_spanQuoted_escape plain (by rw [← List.singleton_append, read])
          rw [← List.singleton_append, read] at twice
          dsimp only at twice
          rw [List.length_singleton] at length
          omega
      | cons d others => exact escape d others rfl rfl
    rw [List.cons_append, spanQuoted.eq_3 _ _ _ fun _ _ same _ => noBackslash same, if_neg other,
      if_neg noQuote] at read
    simp only [Prod.mk.injEq] at read
    obtain ⟨rfl, isRest, isClosed⟩ := read
    have same := ih (Prod.ext rfl (Prod.ext isRest isClosed)) (by grind)
    rw [found] at same
    obtain ⟨rfl, rfl, rfl⟩ : inner = _ ∧ rest = left ∧ closed = true := by simpa using same
    rfl

/-- A digit goes on with a number. -/
theorem continuesNumber_of_digit {c : Char} (digit : isAsciiDigit c) : continuesNumber c := by
  have ascii : isAscii c := by
    obtain ⟨_, upper⟩ := Bool.and_eq_true_iff.mp digit
    exact decide_eq_true (Nat.lt_of_le_of_lt (of_decide_eq_true upper : c ≤ '9') (by decide))
  have numeric : isNumeric c := by rwa [isNumeric, if_pos ascii]
  simp [continuesNumber, isAlphanumeric, numeric]

/-- A number starts without what comes behind. -/
theorem startsNumber_of_append {c : Char} (number : startsNumber c (cs ++ tail))
    (ends : (cs ++ tail).dropWhile continuesNumber = left ++ tail) : startsNumber c cs := by
  rcases Bool.or_eq_true_iff.mp number with digit | point
  · exact Bool.or_eq_true_iff.mpr (.inl digit)
  · refine Bool.or_eq_true_iff.mpr (.inr ?_)
    cases cs with
    | cons => exact point
    | nil =>
        -- The digit after the point belongs to the number.
        have stops := (takeWhile_of_append ends).1
        obtain ⟨d, next, digit⟩ := (Option.any_eq_true ..).mp (Bool.and_eq_true_iff.mp point).2
        obtain ⟨others, rfl⟩ := List.head?_eq_some_iff.mp next
        rw [List.nil_append, List.takeWhile_cons_of_pos (continuesNumber_of_digit digit)] at stops
        cases stops

/-- A closed token that ends before the last part of a text is read the same without that part. -/
theorem nextPiece_of_append {c : Char} {piece : Piece}
    (read : nextPiece c (cs ++ tail) = (piece, left ++ tail)) (isToken : piece.kind ≠ none)
    (isClosed : piece.IsClosed) : nextPiece c cs = (piece, left) := by
  have noHead {d : Char} (other : ¬(c = '/' && (cs ++ tail).head? = some d) = true) :
      ¬(c = '/' && cs.head? = some d) = true := by
    intro both
    obtain ⟨slash, first⟩ := Bool.and_eq_true_iff.mp both
    exact other (Bool.and_eq_true_iff.mpr
      ⟨slash, decide_eq_true (head?_append_of_some (of_decide_eq_true first) tail)⟩)
  have noNumber (other : ¬startsNumber c (cs ++ tail) = true) : ¬startsNumber c cs = true := by
    intro number
    refine other (Bool.or_eq_true_iff.mpr ?_)
    refine (Bool.or_eq_true_iff.mp number).imp_right fun point => ?_
    obtain ⟨isPoint, digit⟩ := Bool.and_eq_true_iff.mp point
    obtain ⟨d, next, digit⟩ := (Option.any_eq_true ..).mp digit
    exact Bool.and_eq_true_iff.mpr
      ⟨isPoint, (Option.any_eq_true ..).mpr ⟨d, head?_append_of_some next tail, digit⟩⟩
  revert read
  fun_cases nextPiece c (cs ++ tail) with
  | case1 =>
    intro read
    obtain ⟨rfl, -⟩ := Prod.mk.inj read
    exact absurd rfl isToken
  | case2 =>
    intro read
    obtain ⟨rfl, -⟩ := Prod.mk.inj read
    exact absurd rfl isToken
  | case3 =>
    intro read
    obtain ⟨rfl, -⟩ := Prod.mk.inj read
    exact absurd rfl isToken
  | case4 filled noLine noBlock word =>
    intro read
    obtain ⟨rfl, ends⟩ := Prod.mk.inj read
    have same := takeWhile_of_append ends
    rw [nextPiece, if_neg filled, if_neg (noHead noLine), if_neg (noHead noBlock), if_pos word,
      same.1, same.2]
  | case5 filled noLine noBlock noWord isNumber =>
    intro read
    obtain ⟨rfl, ends⟩ := Prod.mk.inj read
    have same := takeWhile_of_append ends
    rw [nextPiece, if_neg filled, if_neg (noHead noLine), if_neg (noHead noBlock), if_neg noWord,
      if_pos (startsNumber_of_append isNumber ends), same.1, same.2]
  | case6 filled noLine noBlock noWord noDigit isText taken rest closed found =>
    intro read
    obtain ⟨rfl, rfl⟩ := Prod.mk.inj read
    cases closed with
    | false => exact absurd rfl isClosed.text
    | true =>
        have same := spanQuoted_of_append (by rw [isText]; decide) found
        rw [nextPiece, if_neg filled, if_neg (noHead noLine), if_neg (noHead noBlock),
          if_neg noWord, if_neg (noNumber noDigit), if_pos isText, same]
  | case7 filled noLine noBlock noWord noDigit noText isChar taken rest closed found =>
    intro read
    obtain ⟨rfl, rfl⟩ := Prod.mk.inj read
    cases closed with
    | false => exact absurd rfl isClosed.char
    | true =>
        have same := spanQuoted_of_append (by rw [isChar]; decide) found
        rw [nextPiece, if_neg filled, if_neg (noHead noLine), if_neg (noHead noBlock),
          if_neg noWord, if_neg (noNumber noDigit), if_neg noText, if_pos isChar, same]
  | case8 filled noLine noBlock noWord noDigit noText noChar operator rest found =>
    intro read
    obtain ⟨rfl, rfl⟩ := Prod.mk.inj read
    have same : longOperator? (c :: cs) = some (operator, left) := longOperator?_of_append found
    rw [nextPiece, if_neg filled, if_neg (noHead noLine), if_neg (noHead noBlock),
      if_neg noWord, if_neg (noNumber noDigit), if_neg noText, if_neg noChar, same]
  | case9 filled noLine noBlock noWord noDigit noText noChar found =>
    intro read
    obtain ⟨rfl, ends⟩ := Prod.mk.inj read
    obtain rfl := List.append_cancel_right ends
    have same : longOperator? (c :: cs) = none := longOperator?_none_of_append found
    rw [nextPiece, if_neg filled, if_neg (noHead noLine), if_neg (noHead noBlock),
      if_neg noWord, if_neg (noNumber noDigit), if_neg noText, if_neg noChar, same]

/-- A piece starts with the character it is read at, and goes on with those that follow it. -/
theorem exists_text_nextPiece (c : Char) (cs : List Char) :
    ∃ inner, (nextPiece c cs).1.text = c :: inner ∧ cs = inner ++ (nextPiece c cs).2 := by
  have joined := append_nextPiece c cs
  cases text : (nextPiece c cs).1.text with
  | nil => exact absurd text (text_nextPiece_ne_nil c cs)
  | cons d inner =>
      rw [text] at joined
      obtain ⟨rfl, split⟩ := List.cons.inj joined
      exact ⟨inner, rfl, split.symm⟩

/-- A token that is read before a text is read before another if both go on the same up to where
the token is known to end: up to the end of the other or a blank in it. -/
theorem nextPiece_congr {c : Char} {piece : Piece} {left tail other : List Char}
    (read : nextPiece c (cs ++ (left ++ tail)) = (piece, left ++ tail))
    (isToken : piece.kind ≠ none) (isClosed : piece.IsClosed)
    (ends : other = [] ∨ ∃ others, other = ' ' :: others) :
    nextPiece c (cs ++ (left ++ other)) = (piece, left ++ other) := by
  rw [← List.append_assoc] at read ⊢
  have short := nextPiece_of_append read isToken isClosed
  rcases ends with rfl | ⟨others, rfl⟩
  · rwa [List.append_nil, List.append_nil]
  · have longer : nextPiece c (cs ++ left ++ ' ' :: others) =
        ((nextPiece c (cs ++ left)).1, (nextPiece c (cs ++ left)).2 ++ ' ' :: others) :=
      nextPiece_append separates_space (by rwa [short]) (.inr (by rwa [short])) others
    rwa [short] at longer

end Lexer

/-! ### Tokens in a row -/

namespace Token

/-- The texts of tokens in a row, each after one blank if a gap precedes it. -/
def row (tokens : List Token) : List Char := tokens.flatMap (·.textAfterGap.toList)

/-- A row begins with its first token, behind a blank if it is spaced. -/
theorem row_cons (token : Token) (tokens : List Token) :
    row (token :: tokens) =
      (if token.spaced then [' '] else []) ++ (token.text.toList ++ row tokens) := by
  unfold row textAfterGap
  rw [List.flatMap_cons]
  split <;> simp

/-- Joined tokens begin with the first one, without a blank. -/
theorem toList_join_cons (token : Token) (tokens : List Token) :
    (join (token :: tokens)).toList = token.text.toList ++ row tokens := by
  rw [join, String.toList_append, String.toList_join, List.flatMap_map]
  rfl

/-- A token is read in front of a text, and closed. -/
def Leads (token : Token) (rest : List Char) : Prop :=
  ∃ c cs fault, token.text.toList = c :: cs ∧ Piece.IsClosed ⟨some token.kind, c :: cs, fault⟩ ∧
    Lexer.nextPiece c (cs ++ rest) = (⟨some token.kind, c :: cs, fault⟩, rest)

/-- Each of the tokens is read in front of the ones after it. -/
def Firm : List Token → Prop
  | [] => True
  | token :: tokens => token.Leads (row tokens) ∧ Firm tokens

/-- A token leads alike if what comes behind it is left out up to a blank. -/
theorem Leads.congr {token : Token} {left tail other : List Char}
    (leads : token.Leads (left ++ tail)) (ends : other = [] ∨ ∃ others, other = ' ' :: others) :
    token.Leads (left ++ other) := by
  obtain ⟨c, cs, fault, text, isClosed, read⟩ := leads
  exact ⟨c, cs, fault, text, isClosed, Lexer.nextPiece_congr read (by simp) isClosed ends⟩

/-- Tokens that others follow are read the same without these. -/
theorem Firm.of_append {tokens others : List Token} (firm : Firm (tokens ++ others)) :
    Firm tokens := by
  induction tokens with
  | nil => trivial
  | cons token tokens ih =>
      obtain ⟨leads, later⟩ := firm
      have whole : row (tokens ++ others) = row tokens ++ row others := List.flatMap_append
      have short := (whole ▸ leads : token.Leads (row tokens ++ row others)).congr (.inl rfl)
      rw [List.append_nil] at short
      exact ⟨short, ih later⟩

/-- A stretch of firm tokens is firm. -/
theorem Firm.of_infix {stretch tokens : List Token} (firm : Firm tokens)
    (inside : stretch <:+: tokens) : Firm stretch := by
  obtain ⟨before, after, rfl⟩ := inside
  rw [List.append_assoc] at firm
  induction before with
  | nil => exact of_append (show Firm (stretch ++ after) from firm)
  | cons token before ih => exact ih firm.2

end Token

namespace Lexer

open Token

/-- The text of pieces and that of their tokens go on the same up to the first gap. -/
theorem exists_row_tokensAt (position : Position) (pieces : List Piece) :
    ∃ left tail other, pieces.flatMap (·.text) = left ++ tail ∧
      row (tokensAt position false pieces) = left ++ other ∧
      (other = [] ∨ ∃ others, other = ' ' :: others) := by
  have spaced (position : Position) (pieces : List Piece) :
      row (tokensAt position true pieces) = [] ∨
        ∃ others, row (tokensAt position true pieces) = ' ' :: others := by
    induction pieces generalizing position with
    | nil => exact .inl rfl
    | cons piece rest ih =>
        rw [tokensAt]
        cases piece.kind with
        | none => exact ih _
        | some kind => exact .inr ⟨_, row_cons _ _⟩
  induction pieces generalizing position with
  | nil => exact ⟨[], [], [], rfl, rfl, .inl rfl⟩
  | cons piece rest ih =>
      rw [tokensAt]
      cases piece.kind with
      | none => exact ⟨[], _, _, rfl, rfl, spaced _ rest⟩
      | some kind =>
          obtain ⟨left, tail, other, whole, tokens, ends⟩ := ih (position.after piece.text)
          refine ⟨piece.text ++ left, tail, other, ?_, ?_, ends⟩
          · rw [List.flatMap_cons, whole, List.append_assoc]
          · change row (⟨kind, _, _, false⟩ :: tokensAt _ false rest) = _
            rw [row_cons, tokens, List.append_assoc, String.toList_ofList]
            rfl

/-- The tokens of a text are read in front of each other if they are closed. -/
theorem firm_tokensAt (position : Position) (spaced : Bool) (cs : List Char)
    (closed : ∀ piece ∈ pieces cs, piece.kind ≠ none → piece.IsClosed) :
    Firm (tokensAt position spaced (pieces cs)) := by
  induction cs using pieces_induction generalizing position spaced with
  | nil => trivial
  | cons c cs ih =>
      rw [pieces_cons] at closed ⊢
      obtain ⟨closedFirst, closedLater⟩ := List.forall_mem_cons.mp closed
      rw [tokensAt]
      cases isToken : (nextPiece c cs).1.kind with
      | none => exact ih _ _ closedLater
      | some kind =>
          refine ⟨?_, ih _ _ closedLater⟩
          obtain ⟨left, tail, other, whole, tokens, ends⟩ :=
            exists_row_tokensAt (position.after (nextPiece c cs).1.text) (pieces (nextPiece c cs).2)
          obtain ⟨inner, text, split⟩ := exists_text_nextPiece c cs
          have whole := (flatMap_text_pieces _).symm.trans whole
          have read : nextPiece c (inner ++ (left ++ tail)) =
              ((nextPiece c cs).1, left ++ tail) := by
            rw [← whole, ← split]
          have isClosed := closedFirst (by simp [isToken])
          have again := nextPiece_congr read (by simp [isToken]) isClosed ends
          have piece : (nextPiece c cs).1 = ⟨some kind, c :: inner, (nextPiece c cs).1.fault⟩ := by
            rw [← isToken, ← text]
          refine ⟨c, inner, (nextPiece c cs).1.fault, ?_, ?_, ?_⟩
          · rw [String.toList_ofList, text]
          · exact piece ▸ isClosed
          · rw [tokens, again, ← piece]

/-- A token in front of a text is its first piece. -/
theorem pieces_of_leads {token : Token} {rest : List Char} (leads : token.Leads rest) :
    ∃ fault, Piece.IsClosed ⟨some token.kind, token.text.toList, fault⟩ ∧
      pieces (token.text.toList ++ rest) =
        ⟨some token.kind, token.text.toList, fault⟩ :: pieces rest := by
  obtain ⟨c, cs, fault, text, isClosed, read⟩ := leads
  rw [text, List.cons_append, pieces_cons, read]
  exact ⟨fault, isClosed, rfl⟩

/-- The gap that one blank is. -/
def blankPiece : Piece := ⟨none, [' '], none⟩

theorem pieces_blank (cs : List Char) : pieces (' ' :: cs) = blankPiece :: pieces cs := by
  have isBlank : nextPiece ' ' cs = (blankPiece, cs) := if_pos isBlank_space
  rw [pieces_cons, isBlank]

/-- Tokens in a row that are read in front of each other are found again. -/
theorem tokensAt_row {tokens : List Token} (firm : Firm tokens) (position : Position) :
    (tokensAt position false (pieces (row tokens))).map (fun token =>
        (token.kind, token.text, token.spaced)) =
      tokens.map (fun token => (token.kind, token.text, token.spaced)) ∧
    ∀ piece ∈ pieces (row tokens), piece.IsClosed := by
  induction tokens generalizing position with
  | nil => exact ⟨rfl, List.forall_mem_nil _⟩
  | cons token tokens ih =>
      obtain ⟨leads, later⟩ := firm
      obtain ⟨fault, isClosed, pieces⟩ := pieces_of_leads leads
      rw [row_cons]
      cases spaced : token.spaced with
      | false =>
          rw [if_neg Bool.false_ne_true, List.nil_append, pieces]
          obtain ⟨same, others⟩ := ih later (position.after token.text.toList)
          refine ⟨?_, List.forall_mem_cons.mpr ⟨isClosed, others⟩⟩
          rw [tokensAt, List.map_cons, List.map_cons, same, String.ofList_toList, spaced]
      | true =>
          rw [if_pos rfl, List.singleton_append, pieces_blank, pieces]
          obtain ⟨same, others⟩ := ih later ((position.after [' ']).after token.text.toList)
          refine ⟨?_, List.forall_mem_cons.mpr ⟨Piece.isClosed_of_sound rfl,
            List.forall_mem_cons.mpr ⟨isClosed, others⟩⟩⟩
          change (tokensAt (position.after [' ']) true _).map _ = _
          rw [tokensAt, List.map_cons, List.map_cons, same, String.ofList_toList, spaced]

/-- Only comments are left open as comments are. -/
theorem fault_nextPiece_ne_openComment {c : Char} {cs : List Char}
    (isToken : (nextPiece c cs).1.kind ≠ none) : (nextPiece c cs).1.fault ≠ some .openComment := by
  revert isToken
  fun_cases nextPiece c cs with
  | case3 => exact absurd rfl
  | case6 | case7 => split <;> simp
  | case9 => split <;> simp
  | _ => simp

end Lexer

/-! ### Tokens of a joined text -/

theorem getElem?_toList_append {first : String} {i : Nat} (short : i < first.toList.length)
    (second third : String) : (first ++ second ++ third).toList[i]? = first.toList[i]? := by
  rw [String.append_assoc, String.toList_append, List.getElem?_append_left short]

/-- An unexpected character has a message of its own. -/
theorem LexicalFault.message_unexpected_ne (c : Char) {text : String}
    (other : text.toList[2]? ≠ some 'e') : (unexpected c).message ≠ text := by
  intro same
  have third : ("unexpected character '" ++ String.singleton c ++ "'").toList[2]? =
      "unexpected character '".toList[2]? := getElem?_toList_append (by decide +kernel) _ _
  have isE : "unexpected character '".toList[2]? = some 'e' := by decide +kernel
  exact other (same ▸ third.trans isE)

/-- A fault of something left open shows in its wording. -/
theorem LexicalFault.eq_of_message_eq {fault other : LexicalFault}
    (leftOpen : ∀ c, other ≠ unexpected c) (same : fault.message = other.message) :
    fault = other := by
  cases fault with
  | unexpected c =>
      refine absurd same (message_unexpected_ne c ?_)
      cases other with
      | unexpected d => exact absurd rfl (leftOpen d)
      | _ => decide +kernel
  | _ =>
      revert same
      cases other with
      | unexpected d => exact absurd rfl (leftOpen d)
      | _ => decide +kernel

/-- A problem of a text or character in quotes that is not closed. -/
def Diagnostic.OpenLiteral (problem : Diagnostic) : Prop :=
  problem.message = LexicalFault.openText.message ∨ problem.message = LexicalFault.openChar.message

instance : DecidablePred Diagnostic.OpenLiteral := fun _ => inferInstanceAs (Decidable (_ ∨ _))

/-- A problem of a comment that is not closed. -/
def Diagnostic.OpenComment (problem : Diagnostic) : Prop :=
  problem.message = LexicalFault.openComment.message

namespace Lexer

/-- A faulty piece has its problem. -/
theorem exists_mem_diagnosticsAt {pieces : List Piece} {piece : Piece} {fault : LexicalFault}
    (member : piece ∈ pieces) (faulty : piece.fault = some fault) (position : Position) :
    ∃ problem ∈ diagnosticsAt position pieces, problem.message = fault.message := by
  induction pieces generalizing position with
  | nil => cases member
  | cons first others ih =>
      rw [diagnosticsAt]
      rcases List.mem_cons.mp member with rfl | later
      · rw [faulty]
        exact ⟨_, List.mem_cons_self, rfl⟩
      · obtain ⟨problem, found, message⟩ := ih later (position.after first.text)
        cases first.fault with
        | none => exact ⟨problem, found, message⟩
        | some => exact ⟨problem, List.mem_cons_of_mem _ found, message⟩

/-- A problem is that of a faulty piece. -/
theorem exists_of_mem_diagnosticsAt {pieces : List Piece} {position : Position}
    {problem : Diagnostic} (member : problem ∈ diagnosticsAt position pieces) :
    ∃ piece ∈ pieces, ∃ fault, piece.fault = some fault ∧ problem.message = fault.message := by
  induction pieces generalizing position with
  | nil => cases member
  | cons first others ih =>
      rw [diagnosticsAt] at member
      cases faulty : first.fault with
      | none =>
          rw [faulty] at member
          obtain ⟨piece, found, others⟩ := ih member
          exact ⟨piece, List.mem_cons_of_mem _ found, others⟩
      | some fault =>
          rw [faulty] at member
          rcases List.mem_cons.mp member with rfl | member
          · exact ⟨first, List.mem_cons_self, fault, faulty, rfl⟩
          · obtain ⟨piece, found, others⟩ := ih member
            exact ⟨piece, List.mem_cons_of_mem _ found, others⟩

/-- Where no literal is reported open, every token is closed. -/
theorem isClosed_of_diagnosticsAt {position : Position} {cs : List Char}
    (closed : ∀ problem ∈ diagnosticsAt position (pieces cs), ¬problem.OpenLiteral) :
    ∀ piece ∈ pieces cs, piece.kind ≠ none → piece.IsClosed := by
  intro piece member isToken
  have reported {fault : LexicalFault} (faulty : piece.fault = some fault) :
      fault ≠ .openText ∧ fault ≠ .openChar := by
    obtain ⟨problem, found, message⟩ := exists_mem_diagnosticsAt member faulty position
    refine ⟨fun same => closed problem found (.inl ?_), fun same => closed problem found (.inr ?_)⟩
    · rw [message, same]
    · rw [message, same]
  refine ⟨?_, fun faulty => (reported faulty).1 rfl, fun faulty => (reported faulty).2 rfl⟩
  clear closed reported
  induction cs using pieces_induction with
  | nil => cases member
  | cons c cs ih =>
      rw [pieces_cons] at member
      rcases List.mem_cons.mp member with rfl | later
      · exact fault_nextPiece_ne_openComment isToken
      · exact ih later

/-- Where every piece is closed, nothing is reported open. -/
theorem not_open_of_isClosed {position : Position} {pieces : List Piece}
    (closed : ∀ piece ∈ pieces, piece.IsClosed) :
    ∀ problem ∈ diagnosticsAt position pieces, ¬problem.OpenLiteral ∧ ¬problem.OpenComment := by
  intro problem found
  obtain ⟨piece, member, fault, faulty, message⟩ := exists_of_mem_diagnosticsAt found
  have isClosed := closed piece member
  have other {leftOpen : LexicalFault} (known : ∀ c, leftOpen ≠ .unexpected c)
      (closed : piece.fault ≠ some leftOpen) : problem.message ≠ leftOpen.message := fun same =>
    closed (faulty.trans (congrArg some (LexicalFault.eq_of_message_eq known
      (message.symm.trans same))))
  refine ⟨not_or.mpr ⟨?_, ?_⟩, ?_⟩
  · exact other (fun _ => nofun) isClosed.text
  · exact other (fun _ => nofun) isClosed.char
  · exact other (fun _ => nofun) isClosed.comment

end Lexer

namespace Token

/-- Tokens are found again in the text that they make joined: with the same kinds and texts, and the
same gaps between them, where nothing is left open. -/
structure FoundAgain (tokens : List Token) : Prop where
  texts : (tokenize (join tokens)).1.map (fun token => (token.kind, token.text)) =
    tokens.map (fun token => (token.kind, token.text))
  gaps : (tokenize (join tokens)).1.tail.map (·.spaced) = tokens.tail.map (·.spaced)
  closed : ∀ problem ∈ (tokenize (join tokens)).2, ¬problem.OpenLiteral ∧ ¬problem.OpenComment

/-- Firm tokens are found again in the joined text. -/
theorem Firm.foundAgain {tokens : List Token} (firm : Firm tokens) : FoundAgain tokens := by
  cases tokens with
  | nil => exact ⟨rfl, rfl, List.forall_mem_nil _⟩
  | cons token tokens =>
      obtain ⟨leads, later⟩ := firm
      obtain ⟨fault, isClosed, pieces⟩ := Lexer.pieces_of_leads leads
      obtain ⟨same, others⟩ := Lexer.tokensAt_row later (.after .first token.text.toList)
      have again : (tokenize (join (token :: tokens))).1 =
          ⟨token.kind, token.text, ⟨.first, .after .first token.text.toList⟩, false⟩ ::
            Lexer.tokensAt (.after .first token.text.toList) false (Lexer.pieces (row tokens)) := by
        rw [tokenize, toList_join_cons, pieces]
        dsimp only
        rw [Lexer.tokensAt, String.ofList_toList]
      refine ⟨?_, ?_, ?_⟩
      · have texts := congrArg (List.map fun view : TokenKind × String × Bool =>
          (view.1, view.2.1)) same
        rw [List.map_map, List.map_map] at texts
        rw [again]
        exact congrArg (_ :: ·) texts
      · have gaps := congrArg (List.map fun view : TokenKind × String × Bool => view.2.2) same
        rw [List.map_map, List.map_map] at gaps
        rw [again]
        exact gaps
      · unfold tokenize
        rw [toList_join_cons, pieces]
        exact Lexer.not_open_of_isClosed (List.forall_mem_cons.mpr ⟨isClosed, others⟩)

/-- What is written for tokens depends on their texts and gaps. -/
theorem map_textAfterGap (tokens : List Token) : tokens.map textAfterGap =
    List.zipWith (fun text spaced => if spaced then " " ++ text else text) (tokens.map (·.text))
      (tokens.map (·.spaced)) := by
  rw [List.zipWith_map, List.zipWith_self]
  rfl

/-- Tokens with the same texts and the same gaps between them make the same text joined. -/
theorem join_congr {tokens others : List Token}
    (texts : tokens.map (·.text) = others.map (·.text))
    (gaps : tokens.tail.map (·.spaced) = others.tail.map (·.spaced)) :
    join tokens = join others := by
  cases tokens with
  | nil =>
      obtain rfl := List.map_eq_nil_iff.mp texts.symm
      rfl
  | cons first tokens =>
      cases others with
      | nil => cases texts
      | cons second others =>
          obtain ⟨same, later⟩ : first.text = second.text ∧ _ := List.cons.inj texts
          rw [List.tail_cons, List.tail_cons] at gaps
          rw [join, join, map_textAfterGap, map_textAfterGap, same, later, gaps]

end Token

/-- **Joined tokens are found again.** In a text where no literal is left open, the tokens joined
make a text that has the same tokens, whatever comments and blanks stood between them, so that
joining these changes nothing more; and so does every stretch of the tokens. -/
theorem tokenize_join {source : String}
    (closed : ∀ problem ∈ (tokenize source).2, ¬problem.OpenLiteral) :
    Token.FoundAgain (tokenize source).1 ∧
      Token.join (tokenize (Token.join (tokenize source).1)).1 = Token.join (tokenize source).1 ∧
      ∀ stretch, stretch <:+: (tokenize source).1 → Token.FoundAgain stretch := by
  have firm := Lexer.firm_tokensAt .first false source.toList
    (Lexer.isClosed_of_diagnosticsAt closed)
  have again := firm.foundAgain
  refine ⟨again, ?_, fun stretch inside => (firm.of_infix inside).foundAgain⟩
  refine Token.join_congr ?_ again.gaps
  have texts := congrArg (List.map Prod.snd) again.texts
  rwa [List.map_map, List.map_map] at texts

/-- Signs that a comment keeps apart, a sign that is none, and a comment that is not closed. -/
theorem tokenize_join_comments :
    (tokenize "a/**/+ +b # /*").2.map (·.message) =
      ["unexpected character '#'", "unterminated block comment"] ∧
    Token.join (tokenize "a/**/+ +b # /*").1 = "a + +b #" ∧
    Token.FoundAgain (tokenize "a/**/+ +b # /*").1 ∧
    Token.join (tokenize (Token.join (tokenize "a/**/+ +b # /*").1)).1 =
      Token.join (tokenize "a/**/+ +b # /*").1 ∧
    ∀ stretch, stretch <:+: (tokenize "a/**/+ +b # /*").1 → Token.FoundAgain stretch :=
  ⟨by decide +kernel, by decide +kernel, tokenize_join (by decide +kernel)⟩

end Transcode
