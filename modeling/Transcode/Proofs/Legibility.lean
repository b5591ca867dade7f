import Transcode.Proofs.LineTexts

/-!
# Texts of statements

No token goes over a line break or starts with a blank. So whatever the parser reads, the texts of
its statements are of one line each and start with what their first token starts with
(`everywhere_legible`); only the text of a statement that is written in the source with the mark of
a loop in front stands for a loop.
-/

namespace Transcode

open Text

/-! ### Tokens -/

/-- A token of one line that starts with no blank. A word starts as no mark does. -/
structure Token.IsLegible (token : Token) : Prop where
  unbroken : Unbroken token.text
  filled : ∃ c ∈ token.text.toList.head?, ¬isBlank c
  word : token.isIdent → StartsPlain token.text

namespace Lexer

/-- A literal ends before a line break. -/
theorem not_mem_spanQuoted (quote : Char) (cs : List Char) :
    '\n' ∉ (spanQuoted quote cs).1 := by
  fun_induction spanQuoted quote cs with
  | case1 => exact List.not_mem_nil
  | case2 => simp
  | case3 c rest other taken left closed read ih =>
    rw [read] at ih
    simp only [List.mem_cons, not_or]
    exact ⟨by decide, Ne.symm other, ih⟩
  | case4 => exact List.not_mem_nil
  | case5 rest _ other => exact fun member => other (List.mem_singleton.mp member).symm
  | case6 c rest _ other _ taken left closed read ih =>
    rw [read] at ih
    simp only [List.mem_cons, not_or]
    exact ⟨Ne.symm other, ih⟩

/-- An operator has no line break. -/
theorem not_mem_longOperator? {cs operator rest : List Char}
    (found : longOperator? cs = some (operator, rest)) : '\n' ∉ operator := by
  have none : ∀ operator ∈ longOperators, '\n' ∉ operator := by decide
  obtain ⟨candidate, member, taken⟩ := List.exists_of_findSome?_eq_some found
  obtain ⟨_, _, same⟩ := Option.map_eq_some_iff.mp taken
  obtain ⟨rfl, _⟩ := Prod.mk.inj same
  exact none _ member

/-- A piece begins with the next character. -/
theorem head?_text_nextPiece (c : Char) (rest : List Char) :
    (nextPiece c rest).1.text.head? = some c := by
  obtain ⟨first, others, text⟩ := List.exists_cons_of_ne_nil (text_nextPiece_ne_nil c rest)
  have whole := append_nextPiece c rest
  rw [text, List.cons_append] at whole
  rw [text, (List.cons.inj whole).1, List.head?_cons]

/-- A token begins with a visible character. -/
theorem not_isBlank_of_nextPiece {c : Char} {rest : List Char} {kind : TokenKind}
    (isToken : (nextPiece c rest).1.kind = some kind) : ¬isBlank c := by
  intro blank
  rw [nextPiece, if_pos blank] at isToken
  cases isToken

/-- An identifier begins with a character that starts words. -/
theorem startsWord_of_nextPiece {c : Char} {rest : List Char}
    (isWord : (nextPiece c rest).1.kind = some .ident) : startsWord c := by
  fun_cases nextPiece c rest with
  | case4 _ _ _ starts => exact starts
  | _ => simp_all [nextPiece]

/-- No token goes over a line break. -/
theorem not_mem_text_nextPiece {c : Char} {rest : List Char} {kind : TokenKind}
    (isToken : (nextPiece c rest).1.kind = some kind) : '\n' ∉ (nextPiece c rest).1.text := by
  have head : '\n' ≠ c := by
    rintro rfl
    exact not_isBlank_of_nextPiece isToken (by decide)
  have within {taken : List Char} (free : '\n' ∉ taken) : '\n' ∉ c :: taken := by
    rw [List.mem_cons, not_or]
    exact ⟨head, free⟩
  have while_ {test : Char → Bool} (fails : test '\n' = false) :
      '\n' ∉ rest.takeWhile test := fun member => by
    rw [List.mem_takeWhile_imp member] at fails
    cases fails
  fun_cases nextPiece c rest with
  | case4 => exact within (while_ (by decide +kernel))
  | case5 => exact within (while_ (by decide +kernel))
  | case6 _ _ _ _ _ _ taken left closed read =>
    have free := not_mem_spanQuoted c rest
    rw [read] at free
    exact within free
  | case7 _ _ _ _ _ _ _ taken left closed read =>
    have free := not_mem_spanQuoted c rest
    rw [read] at free
    exact within free
  | case8 _ _ _ _ _ _ _ operator left found => exact not_mem_longOperator? found
  | case9 => exact within List.not_mem_nil
  | _ => simp_all [nextPiece]

/-- Each piece of a text is the next one somewhere in it. -/
theorem exists_nextPiece_of_mem (fuel : Nat) (cs : List Char) :
    ∀ piece ∈ piecesWithin fuel cs, ∃ c rest, piece = (nextPiece c rest).1 := by
  fun_induction piecesWithin fuel cs with
  | case1 => exact List.forall_mem_nil _
  | case2 => exact List.forall_mem_nil _
  | case3 _ c rest piece left read ih =>
    exact List.forall_mem_cons.mpr ⟨⟨c, rest, by rw [read]⟩, ih⟩

/-- Each token is made of a piece. -/
theorem exists_piece_of_mem_tokensAt (position : Position) (spaced : Bool) (pieces : List Piece) :
    ∀ token ∈ tokensAt position spaced pieces,
      ∃ piece ∈ pieces, piece.kind = some token.kind ∧ token.text = String.ofList piece.text := by
  fun_induction tokensAt position spaced pieces with
  | case1 => exact List.forall_mem_nil _
  | case2 _ _ piece rest _ _ ih =>
    exact fun token member => (ih token member).imp fun _ => And.imp_left (List.mem_cons_of_mem _)
  | case3 _ _ piece rest _ kind isKind ih =>
    refine List.forall_mem_cons.mpr ⟨⟨piece, List.mem_cons_self, isKind, rfl⟩, ?_⟩
    exact fun token member => (ih token member).imp fun _ => And.imp_left (List.mem_cons_of_mem _)

end Lexer

/-- A token is the next piece somewhere, and starts with the first character there. -/
theorem exists_nextPiece_of_token {source : String} {token : Token}
    (member : token ∈ (tokenize source).1) : ∃ c rest,
      (Lexer.nextPiece c rest).1.kind = some token.kind ∧
      token.text.toList = (Lexer.nextPiece c rest).1.text ∧ token.text.toList.head? = some c := by
  obtain ⟨piece, listed, isKind, text⟩ := Lexer.exists_piece_of_mem_tokensAt _ _ _ token member
  obtain ⟨c, rest, rfl⟩ := Lexer.exists_nextPiece_of_mem _ _ piece listed
  rw [text, String.toList_ofList]
  exact ⟨c, rest, isKind, rfl, Lexer.head?_text_nextPiece c rest⟩

/-- A word starts as words do. -/
theorem exists_startsWord {source : String} {token : Token} (member : token ∈ (tokenize source).1)
    (isWord : token.isIdent) : ∃ c ∈ token.text.toList.head?, Lexer.startsWord c := by
  obtain ⟨c, rest, isKind, _, head⟩ := exists_nextPiece_of_token member
  rw [of_decide_eq_true isWord] at isKind
  exact ⟨c, head, Lexer.startsWord_of_nextPiece isKind⟩

/-- The tokens of a text are legible. -/
theorem legible_tokenize (source : String) : ∀ token ∈ (tokenize source).1, token.IsLegible := by
  intro token member
  obtain ⟨c, rest, isKind, text, head⟩ := exists_nextPiece_of_token member
  have filled := Lexer.not_isBlank_of_nextPiece isKind
  refine ⟨?_, ⟨c, head, filled⟩, fun isWord => ⟨c, head, filled, ?_⟩⟩
  · rw [Unbroken, text]
    exact Lexer.not_mem_text_nextPiece isKind
  · rintro rfl
    rw [of_decide_eq_true isWord] at isKind
    exact absurd (Lexer.startsWord_of_nextPiece isKind) (by decide +kernel)

namespace Token

variable {tokens : List Token}

/-- Legible tokens join on one line. -/
theorem unbroken_join (legible : ∀ token ∈ tokens, token.IsLegible) : Unbroken (join tokens) := by
  cases tokens with
  | nil => decide
  | cons token rest =>
      obtain ⟨here, later⟩ := List.forall_mem_cons.mp legible
      refine here.unbroken.append ?_
      rw [Unbroken, String.toList_join, List.mem_flatMap]
      rintro ⟨text, member, broken⟩
      obtain ⟨other, listed, rfl⟩ := List.mem_map.mp member
      unfold textAfterGap at broken
      split at broken
      · exact (Unbroken.append (by decide) (later other listed).unbroken) broken
      · exact (later other listed).unbroken broken

/-- Joined tokens begin with the first one. -/
theorem head?_join (token : Token) (rest : List Token) {c : Char}
    (head : token.text.toList.head? = some c) : (join (token :: rest)).toList.head? = some c := by
  rw [join, String.toList_append, List.head?_append, head]
  rfl

end Token

/-! ### Statements -/

namespace SyntaxTree

/-- The texts of a statement that go into lines are of one line each. None starts with a blank, and
none but that of a plain statement starts as the mark of a loop does. -/
def IsLegible (tree : SyntaxTree) : Prop :=
  match tree.kind with
  | .statement => Unbroken (tree.textAt "text") ∧
      trimStart (tree.textAt "text").toList = (tree.textAt "text").toList
  | .returnStmt => Unbroken (tree.textAt "text") ∧ StartsPlain (tree.textAt "text")
  | .block => ∀ label ∈ tree.get? "label", Unbroken label ∧ StartsPlain label
  | .branch => (∀ label ∈ tree.get? "label", Unbroken label ∧ StartsPlain label) ∧
      Unbroken (tree.textAt "condition")
  | _ => True

/-- A statement does not start with the mark of a loop, which is kept for placeholders. -/
def IsUnmarked (tree : SyntaxTree) : Prop :=
  tree.kind = .statement → ¬loopMark.toList <+: (tree.textAt "text").toList

instance : DecidablePred IsUnmarked := fun tree =>
  inferInstanceAs (Decidable (tree.kind = .statement → _))

variable {tree : SyntaxTree}

/-- A legible statement makes plain lines unless it starts with the mark of a loop. -/
theorem IsLegible.makesPlainLines (legible : tree.IsLegible)
    (unmarked : tree.IsUnmarked) : tree.MakesPlainLines := by
  revert legible unmarked
  unfold IsLegible IsUnmarked MakesPlainLines
  generalize tree.kind = kind
  intro legible unmarked
  cases kind with
  | statement => exact ⟨legible.1, Output.slotOf?_of_not_prefix legible.2 (unmarked rfl)⟩
  | returnStmt => exact .of_starts legible.1 legible.2
  | block => exact legible
  | branch => exact legible
  | _ => trivial

/-- A statement is legible if it is on one line and flush. -/
theorem isLegible_of_statement (isStatement : tree.kind = .statement)
    (unbroken : Unbroken (tree.textAt "text"))
    (flush : trimStart (tree.textAt "text").toList = (tree.textAt "text").toList) :
    tree.IsLegible := by
  simp only [IsLegible, isStatement]
  exact ⟨unbroken, flush⟩

/-- A return is legible if it is on one line and starts plain. -/
theorem isLegible_of_return (isReturn : tree.kind = .returnStmt)
    (unbroken : Unbroken (tree.textAt "text")) (plain : StartsPlain (tree.textAt "text")) :
    tree.IsLegible := by
  simp only [IsLegible, isReturn]
  exact ⟨unbroken, plain⟩

end SyntaxTree

namespace Parser

open SyntaxTree

/-- A statement starts as its first token does, with or without something at its end. -/
theorem isLegible_ofTokens {head : Token} {others : List Token}
    (legible : ∀ token ∈ head :: others, token.IsLegible) {suffix : String}
    (oneLine : Unbroken suffix) {kind : SyntaxKind}
    (isKind : kind = if head.text = "return" then .returnStmt else .statement)
    (children : List SyntaxTree) (range : SourceRange) :
    (SyntaxTree.put { kind, children, range } "text"
      (Token.join (head :: others) ++ suffix)).IsLegible := by
  have text := (Token.unbroken_join legible).append oneLine
  by_cases returns : head.text = "return"
  · rw [if_pos returns] at isKind
    have starts : StartsPlain (Token.join (head :: others)) :=
      ⟨'r', Token.head?_join head others (by rw [returns]; rfl), by decide⟩
    refine isLegible_of_return isKind ?_ ?_ <;> rw [textAt_put_of_none rfl]
    · exact text
    · exact starts.append suffix
  · rw [if_neg returns] at isKind
    obtain ⟨c, first, filled⟩ := (legible head List.mem_cons_self).filled
    obtain ⟨tail, starts⟩ := List.head?_eq_some_iff.mp (Token.head?_join head others first)
    refine isLegible_of_statement isKind ?_ ?_ <;> rw [textAt_put_of_none rfl]
    · exact text
    · rw [String.toList_append, starts, List.cons_append, trimStart_cons_of_not_blank filled]

/-- A label keeps a statement legible. -/
theorem isLegible_putLabel {label : String} {tree : SyntaxTree} (unbroken : Unbroken label)
    (plain : StartsPlain label) (legible : tree.IsLegible) : (putLabel label tree).IsLegible := by
  have filled : label ≠ "" := by
    rintro rfl
    obtain ⟨_, none, _⟩ := plain
    cases none
  have words (text : String) : label ++ ": " ++ text ≠ "" := by
    simp [String.append_eq_empty_iff, filled]
  have unbrokenText {text : String} (rest : Unbroken text) : Unbroken (label ++ ": " ++ text) :=
    (unbroken.append (by decide)).append rest
  have plainText (text : String) : StartsPlain (label ++ ": " ++ text) :=
    (plain.append ": ").append text
  have labels (tree : SyntaxTree) : ∀ given ∈ (tree.put "label" label).get? "label",
      Unbroken given ∧ StartsPlain given := by
    intro given isGiven
    rw [get?_put_self filled] at isGiven
    cases isGiven
    exact ⟨unbroken, plain⟩
  unfold putLabel
  split
  · rename_i isText
    rw [Bool.or_eq_true, decide_eq_true_eq, decide_eq_true_eq] at isText
    rcases isText with isKind | isKind <;> simp only [SyntaxTree.IsLegible, isKind] at legible
    · refine isLegible_of_statement isKind ?_ ?_ <;> rw [textAt_put (words _)]
      · exact unbrokenText legible.1
      · exact (plainText _).trimStart_eq
    · refine isLegible_of_return isKind ?_ ?_ <;> rw [textAt_put (words _)]
      · exact unbrokenText legible.1
      · exact plainText _
  · rename_i noText
    rw [Bool.or_eq_true, decide_eq_true_eq, decide_eq_true_eq, not_or] at noText
    unfold SyntaxTree.IsLegible at legible ⊢
    split
    · rename_i isKind
      exact absurd isKind noText.1
    · rename_i isKind
      exact absurd isKind noText.2
    · exact labels tree
    · rename_i isKind
      change tree.kind = _ at isKind
      simp only [isKind] at legible
      rw [textAt_put_of_ne (by decide)]
      exact ⟨labels tree, legible.2⟩
    · trivial

/-- Of legible tokens legible statements are made. -/
theorem legibleTexts : LineTexts Token.IsLegible SyntaxTree.IsLegible where
  other {tree} other := by
    unfold SyntaxTree.IsLegible
    split <;> simp_all [lineKinds]
  block isBlock plain := by
    simp only [SyntaxTree.IsLegible, isBlock, plain]
    rintro _ ⟨⟩
  put {tree key} legible other text := by
    simp only [List.mem_cons, List.not_mem_nil, or_false, not_or] at other
    unfold SyntaxTree.IsLegible at legible ⊢
    rw [textAt_put_of_ne other.1, textAt_put_of_ne other.2.1, get?_put_of_ne other.2.2]
    exact legible
  withRange legible _ := legible
  plain legible _ isKind _ ends children range := by
    refine isLegible_ofTokens legible ?_ isKind children range
    rcases ends with rfl | rfl <;> decide
  label legible isWord _ read := isLegible_putLabel legible.unbroken (legible.word isWord) read
  branch legible range branches := by
    refine ⟨?_, ?_⟩
    · rw [conditional, get?_put_of_ne (by decide)]
      rintro _ ⟨⟩
    · rw [conditional, textAt_put_of_none rfl]
      exact Token.unbroken_join legible

end Parser

/-- **Every text** is read as statements with legible texts. -/
theorem everywhere_legible {source : String} {parsed : ParsedSource}
    (read : parseSource source = .ok parsed) : parsed.tree.Everywhere SyntaxTree.IsLegible :=
  Parser.legibleTexts.everywhere_parseSource (legible_tokenize source) read

end Transcode
