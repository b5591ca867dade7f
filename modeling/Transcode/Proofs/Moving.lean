import Transcode.Proofs.Progress

/-!
# Moved tokens and trees

Where tokens stand matters for the ranges in a tree only. So a function that cuts a stretch of
tokens cuts the same stretch of moved ones, and it does so whatever tokens follow, as long as it
leaves some of its own: it then looks at no other. Where a function looks two tokens ahead, the last
of its own must be one that it does not look behind: a brace or semicolon (`EndsDeclared`).
-/

namespace Transcode

variable (move : Position → Position)

/-- A range with both ends moved. -/
def SourceRange.moved (range : SourceRange) : SourceRange := ⟨move range.start, move range.stop⟩

theorem SourceRange.start_moved (range : SourceRange) :
    (range.moved move).start = move range.start := rfl

/-! ### Tokens -/

namespace Token

/-- A token at another place. -/
def moved (token : Token) : Token := { token with range := token.range.moved move }

variable (token : Token) (text : String) (texts : List String)

@[simp] theorem text_moved : (token.moved move).text = token.text := (rfl)

@[simp] theorem range_moved : (token.moved move).range = token.range.moved move := (rfl)

@[simp] theorem is_moved : (token.moved move).is text = token.is text := (rfl)

@[simp] theorem isAny_moved : (token.moved move).isAny texts = token.isAny texts := (rfl)

@[simp] theorem isIdent_moved : (token.moved move).isIdent = token.isIdent := (rfl)

@[simp] theorem opens_moved : (token.moved move).opens = token.opens := (rfl)

@[simp] theorem closes_moved : (token.moved move).closes = token.closes := (rfl)

@[simp] theorem join_moved (tokens : List Token) :
    join (tokens.map (moved move)) = join tokens := by
  cases tokens with
  | nil => rfl
  | cons token rest =>
      rw [List.map_cons, join, List.map_map]
      rfl

/-- The same tokens are called. -/
theorem callees_moved (created : Bool) (tokens : List Token) :
    callees created (tokens.map (moved move)) = (callees created tokens).map (moved move) := by
  fun_induction callees created tokens with
  | case1 created token next rest isCall ih =>
    rw [List.map_cons, List.map_cons, callees, if_pos (by simpa using isCall)]
    exact congrArg (token.moved move :: ·) ih
  | case2 created token next rest noCall ih =>
    rw [List.map_cons, List.map_cons, callees, if_neg (by simpa using noCall)]
    exact ih
  | case3 created tokens short =>
    match tokens with
    | [] => rfl
    | [_] => rfl
    | token :: next :: rest => exact absurd rfl (short token next rest)

/-- A header is divided at the same tokens. -/
theorem splitTop_moved (separator : String) (depth : Nat) (tokens : List Token) :
    splitTop separator depth (tokens.map (moved move)) =
      (splitTop separator depth tokens).map (·.map (moved move)) := by
  induction tokens generalizing depth with
  | nil => rfl
  | cons token rest ih =>
      simp only [List.map_cons, splitTop, opens_moved, closes_moved, is_moved, ih]
      split
      · rfl
      · cases splitTop separator _ rest <;> rfl

/-- A brace or semicolon, behind which no function of the parser looks before it is read. -/
def IsEnd (token : Token) : Prop := ¬token.isIdent ∧ (token.is "\x7d" ∨ token.is ";")

variable {token text}

/-- A token with another text is not the end of a declaration. -/
theorem not_isEnd_of_is (is : token.is text) (other : text ≠ "\x7d" ∧ text ≠ ";") :
    ¬token.IsEnd := by
  rintro ⟨_, brace | semicolon⟩
  · exact other.1 (of_decide_eq_true ((Token.is_eq is _).symm.trans brace))
  · exact other.2 (of_decide_eq_true ((Token.is_eq is _).symm.trans semicolon))

end Token

/-- Tokens of which the last, if there is one, is a brace or semicolon. -/
def EndsDeclared (tokens : List Token) : Prop := ∀ token ∈ tokens.getLast?, token.IsEnd

namespace EndsDeclared

variable {token : Token} {tokens rest : List Token}

/-- The last tokens of what ends declared end so. -/
theorem suffix (ends : EndsDeclared tokens) (suffix : rest <:+ tokens) : EndsDeclared rest := by
  intro token last
  obtain ⟨before, rfl⟩ := suffix
  refine ends token ?_
  rw [List.getLast?_append, last]
  rfl

theorem tail (ends : EndsDeclared (token :: rest)) : EndsDeclared rest :=
  ends.suffix (List.suffix_cons token rest)

theorem rest_ne_nil (ends : EndsDeclared (token :: rest)) (other : ¬token.IsEnd) : rest ≠ [] := by
  rintro rfl
  exact other (ends token rfl)

end EndsDeclared

/-! ### Stretches -/

namespace Span

variable (more : List Token)

/-- A stretch at another place, with more tokens after it. -/
def moved (span : Span) : Span where
  taken := span.taken.map (·.moved move)
  rest := span.rest.map (·.moved move) ++ more
  closed := span.closed

variable {move more} {tokens : List Token}

theorem moved_cons (token : Token) (span : Span) :
    (span.cons token).moved move more = (span.moved move more).cons (token.moved move) := rfl

/-- The same stretch is cut off where a test does not depend on places. -/
theorem upTo_moved {stop : Token → Bool} (same : ∀ token, stop (token.moved move) = stop token)
    (left : (upTo stop tokens).rest ≠ []) :
    upTo stop (tokens.map (·.moved move) ++ more) = (upTo stop tokens).moved move more := by
  fun_induction upTo stop tokens with
  | case1 => exact absurd rfl left
  | case2 token rest stops => simp [upTo, same, stops, none, moved]
  | case3 token rest goesOn ih =>
    rw [List.map_cons, List.cons_append, upTo, same, if_neg goesOn, ih left, moved_cons]

/-- The same group is cut off. -/
theorem group_moved {depth : Nat} (left : (group depth tokens).rest ≠ []) :
    group depth (tokens.map (·.moved move) ++ more) = (group depth tokens).moved move more := by
  fun_induction group depth tokens with
  | case1 => exact absurd rfl left
  | case2 depth token rest opens ih =>
    rw [List.map_cons, List.cons_append, group, Token.opens_moved, if_pos opens, ih left,
      moved_cons]
  | case3 token rest opens closes =>
    simp [group, opens, closes, none, moved]
  | case4 depth token rest opens closes inside ih =>
    rw [List.map_cons, List.cons_append, group, Token.opens_moved, Token.closes_moved,
      if_neg opens, if_pos closes, if_neg inside, ih left, moved_cons]
  | case5 depth token rest opens closes ih =>
    rw [List.map_cons, List.cons_append, group, Token.opens_moved, Token.closes_moved,
      if_neg opens, if_neg closes, ih left, moved_cons]

/-- The same angle brackets are cut off. -/
theorem angles_moved {depth : Nat} (left : (angles depth tokens).rest ≠ []) :
    angles depth (tokens.map (·.moved move) ++ more) = (angles depth tokens).moved move more := by
  fun_induction angles depth tokens with
  | case1 => exact absurd rfl left
  | case2 depth token rest opens ih =>
    rw [List.map_cons, List.cons_append, angles, Token.is_moved, if_pos opens, ih left, moved_cons]
  | case3 depth token rest opens closes last =>
    simp [angles, opens, closes, last, ending, moved]
  | case4 depth token rest opens closes inside ih =>
    rw [List.map_cons, List.cons_append, angles, Token.is_moved, Token.is_moved, if_neg opens,
      if_pos closes, if_neg inside, ih left, moved_cons]
  | case5 depth token rest opens closes ends =>
    have same : endsAngles (token.moved move) = true := ends
    simp [angles, opens, closes, same, none, moved]
  | case6 depth token rest opens closes ends ih =>
    have same : ¬endsAngles (token.moved move) = true := ends
    rw [List.map_cons, List.cons_append, angles, Token.is_moved, Token.is_moved, if_neg opens,
      if_neg closes, if_neg same, ih left, moved_cons]

/-- The same names behind dots are cut off, since they go on past no declaration. -/
theorem dottedNames_moved (ends : EndsDeclared tokens) (left : (dottedNames tokens).rest ≠ []) :
    dottedNames (tokens.map (·.moved move) ++ more) =
      (dottedNames tokens).moved move more := by
  fun_induction dottedNames tokens with
  | case1 => exact absurd rfl left
  | case2 token name => exact absurd rfl left
  | case3 token noName =>
    have same : ¬isName (token.moved move) = true := noName
    cases more <;> simp [dottedNames, same, none, moved]
  | case4 token next rest name point ih =>
    have same : isName (token.moved move) = true := name
    have is : (next.moved move).is "." = true := point
    simp only [List.map_cons, List.cons_append, dottedNames, same, is, if_true,
      ih ends.tail.tail left, moved_cons]
  | case5 token next rest name noPoint =>
    have same : isName (token.moved move) = true := name
    simp [dottedNames, same, noPoint, ending, moved]
  | case6 token next rest noName =>
    have same : ¬isName (token.moved move) = true := noName
    simp [dottedNames, same, none, moved]

/-- The same qualifiers are cut off, since they go on past no declaration. -/
theorem qualifiers_moved (ends : EndsDeclared tokens) (left : (qualifiers tokens).rest ≠ []) :
    qualifiers (tokens.map (·.moved move) ++ more) = (qualifiers tokens).moved move more := by
  fun_induction qualifiers tokens with
  | case1 point word rest both ih =>
    have same : ((point.moved move).is "." && (word.moved move).isIdent) = true := both
    simp only [List.map_cons, List.cons_append, qualifiers, same, if_true,
      ih ends.tail.tail left, moved_cons]
  | case2 point word rest other =>
    have same : ¬((point.moved move).is "." && (word.moved move).isIdent) = true := other
    simp only [List.map_cons, List.cons_append, qualifiers, if_neg same]
    rfl
  | case3 tokens short =>
    match tokens with
    | [] => exact absurd rfl left
    | [token] =>
      have noPoint : ¬(token.moved move).is "." = true := fun point =>
        ends.rest_ne_nil (Token.not_isEnd_of_is point (by decide)) rfl
      cases more <;> simp_all [qualifiers, none, moved]
    | point :: word :: rest => exact absurd rfl (short point word rest)

/-- The same marks of arrays are cut off, since they go on past no declaration. -/
theorem arrayMarks_moved (ends : EndsDeclared tokens) (left : (arrayMarks tokens).rest ≠ []) :
    arrayMarks (tokens.map (·.moved move) ++ more) = (arrayMarks tokens).moved move more := by
  fun_induction arrayMarks tokens with
  | case1 opening closing rest both ih =>
    have same : ((opening.moved move).is "[" && (closing.moved move).is "]") = true := both
    simp only [List.map_cons, List.cons_append, arrayMarks, same, if_true,
      ih ends.tail.tail left, moved_cons]
  | case2 opening closing rest other =>
    have same : ¬((opening.moved move).is "[" && (closing.moved move).is "]") = true := other
    simp only [List.map_cons, List.cons_append, arrayMarks, if_neg same]
    rfl
  | case3 tokens short =>
    match tokens with
    | [] => exact absurd rfl left
    | [token] =>
      have noMark : ¬(token.moved move).is "[" = true := fun mark =>
        ends.rest_ne_nil (Token.not_isEnd_of_is mark (by decide)) rfl
      cases more <;> simp_all [arrayMarks, none, moved]
    | opening :: closing :: rest => exact absurd rfl (short opening closing rest)

/-- The same tokens start a declarator. -/
theorem startsDeclarator_moved (ends : EndsDeclared tokens) (left : tokens ≠ []) :
    startsDeclarator (tokens.map (·.moved move) ++ more) = startsDeclarator tokens := by
  match tokens with
  | [] => exact absurd rfl left
  | [token] =>
    have noName : isName (token.moved move) = false := by
      have word := (ends token rfl).1
      simp only [isName, Token.isIdent_moved, Bool.eq_false_iff.mpr word, Bool.false_and]
    cases more <;> simp [startsDeclarator, noName]
  | name :: next :: rest => rfl

/-- The same initial value is cut off, since it goes on past no declaration. -/
theorem initializer_moved {depth : Nat} (ends : EndsDeclared tokens)
    (left : (initializer depth tokens).rest ≠ []) :
    initializer depth (tokens.map (·.moved move) ++ more) =
      (initializer depth tokens).moved move more := by
  -- A comma has tokens after it, so whether a declarator follows is told by these.
  have same (depth : Nat) {token : Token} {rest : List Token}
      (ends : EndsDeclared (token :: rest)) :
      (decide (depth = 0) && ((token.moved move).isAny [";", "\x7d"] ||
        ((token.moved move).is "," &&
          startsDeclarator (rest.map (·.moved move) ++ more)))) =
      (decide (depth = 0) && (token.isAny [";", "\x7d"] ||
        (token.is "," && startsDeclarator rest))) := by
    rw [Token.isAny_moved, Token.is_moved]
    by_cases comma : token.is ","
    · rw [startsDeclarator_moved ends.tail
        (ends.rest_ne_nil (Token.not_isEnd_of_is comma (by decide)))]
    · simp [comma]
  fun_induction initializer depth tokens with
  | case1 => exact absurd rfl left
  | case2 depth token rest stops =>
    rw [List.map_cons, List.cons_append, initializer, if_pos ((same depth ends).trans stops)]
    rfl
  | case3 depth token rest goesOn opens ih =>
    rw [List.map_cons, List.cons_append, initializer, if_neg (same depth ends ▸ goesOn),
      Token.opens_moved, if_pos opens, ih ends.tail left, moved_cons]
  | case4 depth token rest goesOn opens closes ih =>
    rw [List.map_cons, List.cons_append, initializer, if_neg (same depth ends ▸ goesOn),
      Token.opens_moved, if_neg opens, Token.closes_moved, if_pos closes, ih ends.tail left,
      moved_cons]
  | case5 depth token rest goesOn opens closes ih =>
    rw [List.map_cons, List.cons_append, initializer, if_neg (same depth ends ▸ goesOn),
      Token.opens_moved, if_neg opens, Token.closes_moved, if_neg closes, ih ends.tail left,
      moved_cons]

/-- The same token goes on after a block. -/
theorem continuesBlocks_moved (left : tokens ≠ []) :
    continuesBlocks (tokens.map (·.moved move) ++ more) = continuesBlocks tokens := by
  obtain ⟨next, rest, rfl⟩ := List.exists_cons_of_ne_nil left
  rfl

/-- The same plain statement is cut off. -/
theorem plainStatement_moved {endsWithBlock : Bool} {depth : Nat}
    (left : (plainStatement endsWithBlock depth tokens).rest ≠ []) :
    plainStatement endsWithBlock depth (tokens.map (·.moved move) ++ more) =
      (plainStatement endsWithBlock depth tokens).moved move more := by
  fun_induction plainStatement endsWithBlock depth tokens with
  | case1 => exact absurd rfl left
  | case2 depth token rest stops =>
    rw [List.map_cons, List.cons_append, plainStatement, Token.is_moved, if_pos stops]
    rfl
  | case3 depth token rest goesOn opens ih =>
    rw [List.map_cons, List.cons_append, plainStatement, Token.is_moved, if_neg goesOn,
      Token.opens_moved, if_pos opens, ih left, moved_cons]
  | case4 token rest opens closes goesOn =>
    rw [List.map_cons, List.cons_append, plainStatement, Token.is_moved, if_neg goesOn,
      Token.opens_moved, if_neg opens, Token.closes_moved, if_pos closes, if_pos rfl]
    rfl
  | case5 depth token rest goesOn opens closes inside last =>
    rw [List.map_cons, List.cons_append, plainStatement, Token.is_moved, if_neg goesOn,
      Token.opens_moved, if_neg opens, Token.closes_moved, if_pos closes, if_neg inside,
      Token.is_moved, continuesBlocks_moved (show rest ≠ [] from left), if_pos last]
    rfl
  | case6 depth token rest goesOn opens closes inside further ih =>
    have filled : rest ≠ [] := by
      rintro rfl
      exact left rfl
    rw [List.map_cons, List.cons_append, plainStatement, Token.is_moved, if_neg goesOn,
      Token.opens_moved, if_neg opens, Token.closes_moved, if_pos closes, if_neg inside,
      Token.is_moved, continuesBlocks_moved filled, if_neg further, ih left, moved_cons]
  | case7 depth token rest goesOn opens closes ih =>
    rw [List.map_cons, List.cons_append, plainStatement, Token.is_moved, if_neg goesOn,
      Token.opens_moved, if_neg opens, Token.closes_moved, if_neg closes, ih left, moved_cons]

end Span

/-! ### Trees -/

namespace SyntaxTree

mutual

/-- A tree with all places in it moved. -/
def moved : SyntaxTree → SyntaxTree
  | ⟨kind, name, children, range, attributes⟩ =>
    ⟨kind, name, movedAll children, range.moved move, attributes⟩

/-- Trees with all places in them moved. -/
def movedAll : List SyntaxTree → List SyntaxTree
  | [] => []
  | tree :: rest => moved tree :: movedAll rest

end

/-- Trees are moved one by one. -/
theorem movedAll_eq (trees : List SyntaxTree) : movedAll move trees = trees.map (moved move) := by
  induction trees with
  | nil => rfl
  | cons tree rest ih => rw [movedAll, ih, List.map_cons]

/-- A tree is moved with its children and its range. -/
theorem moved_eq (tree : SyntaxTree) : tree.moved move =
    { tree with children := tree.children.map (moved move), range := tree.range.moved move } := by
  obtain ⟨kind, name, children, range, attributes⟩ := tree
  rw [moved, movedAll_eq]

@[simp] theorem moved_put (tree : SyntaxTree) (key text : String) :
    (tree.put key text).moved move = (tree.moved move).put key text := by
  rw [moved_eq, moved_eq]
  rfl

end SyntaxTree

end Transcode
