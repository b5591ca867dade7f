import Transcode.Proofs.Following

/-!
# Statements and members read elsewhere

A statement or a member that is read without a problem is read again, at the moved places, from
every state that follows. Only what ends a type of the text itself may be the last of its tokens:
all else has something after it, up to which it is known to go.
-/

namespace Transcode

namespace SyntaxTree

variable (move : Position → Position)

theorem moved_withRange (tree : SyntaxTree) (range : SourceRange) :
    { tree with range }.moved move = { tree.moved move with range := range.moved move } := by
  rw [moved_eq, moved_eq]

/-- A tree is moved with its children and its range. -/
theorem moved_withChildren (tree : SyntaxTree) (children : List SyntaxTree) (range : SourceRange) :
    { tree with children, range }.moved move =
      { tree.moved move with
        children := children.map (·.moved move), range := range.moved move } := by
  rw [moved_eq, moved_eq]

/-- Texts are not moved. -/
theorem moved_foldl_put (texts : List (String × String)) (tree : SyntaxTree) :
    (texts.foldl (fun node text => node.put text.1 text.2) tree).moved move =
      texts.foldl (fun node text => node.put text.1 text.2) (tree.moved move) := by
  induction texts generalizing tree with
  | nil => rfl
  | cons text texts ih => rw [List.foldl_cons, List.foldl_cons, ih, moved_put]

end SyntaxTree

namespace Parser

open Reading Transcode.Span

variable {move : Position → Position} {more : List Token} {first second : Reading}

/-! ### Nodes -/

/-- Calls are moved with their tokens. -/
theorem callNodes_moved (tokens : List Token) :
    callNodes (tokens.map (·.moved move)) = (callNodes tokens).map (·.moved move) := by
  simp only [callNodes, Token.callees_moved, List.map_map]
  rfl

/-- An empty block is moved with its start. -/
theorem emptyBlock_moved (follows : Follows move more first second) (start : Position) :
    emptyBlock (move start) second = (emptyBlock start first).moved move := by
  rw [emptyBlock, follows.since]
  rfl

/-- A conditional is moved with its condition and branches. -/
theorem conditional_moved (kind : SyntaxKind) (condition : List Token) (range : SourceRange)
    (branches : List SyntaxTree) :
    conditional kind (condition.map (·.moved move)) (range.moved move)
        (branches.map (·.moved move)) =
      (conditional kind condition range branches).moved move := by
  rw [conditional, conditional, SyntaxTree.moved_put, SyntaxTree.moved_eq, Token.join_moved,
    callNodes_moved, ← List.map_append]

/-- A label is moved with what it labels. -/
theorem putLabel_moved (label : String) (tree : SyntaxTree) :
    putLabel label (tree.moved move) = (putLabel label tree).moved move := by
  have same : (tree.moved move).kind = tree.kind ∧
      (tree.moved move).textAt "text" = tree.textAt "text" := by
    rw [SyntaxTree.moved_eq]
    exact ⟨rfl, rfl⟩
  unfold putLabel
  rw [same.1, same.2]
  split <;> rw [SyntaxTree.moved_put]

/-- Modifiers and annotations stay at a tree that is moved. -/
theorem putPreamble_moved (preamble : Preamble) (tree : SyntaxTree) :
    putPreamble preamble (tree.moved move) = (putPreamble preamble tree).moved move := by
  rw [putPreamble, putPreamble, SyntaxTree.moved_put, SyntaxTree.moved_put]

/-- The header of a loop tells the same when it is moved. -/
theorem loopHeader_moved (header : List Token) :
    loopHeader (header.map (·.moved move)) = loopHeader header := by
  have type (tokens : List Token) :
      Token.join ((tokens.map (·.moved move)).filter fun token : Token =>
        !(token.isIdent && isModifier token.text)) =
      Token.join (tokens.filter fun token => !(token.isIdent && isModifier token.text)) := by
    rw [List.filter_map, Token.join_moved]
    rfl
  unfold loopHeader
  rw [Token.splitTop_moved, Token.splitTop_moved]
  rcases Token.splitTop ";" 0 header with _ | ⟨init, _ | ⟨condition, _ | ⟨update, _ | _⟩⟩⟩
  case cons.cons.cons.nil => simp only [List.map_cons, List.map_nil, Token.join_moved]
  all_goals
    rcases Token.splitTop ":" 0 header with _ | ⟨declared, _ | ⟨iterable, _ | _⟩⟩
    · rfl
    · rfl
    · simp only [List.map_cons, List.map_nil, List.getLast?_map, ← List.map_dropLast,
        Token.join_moved]
      rcases declared.getLast? with _ | name
      · rfl
      · cases types : declared.dropLast with
        | nil => rfl
        | cons first others => simpa using type (first :: others)
    · rfl

/-- The same header is made into the same loop, moved. -/
theorem tracks_forNode (header : List Token) (start : Position)
    (follows : Follows move more first second)
    (clean : (forNode header start first).2.problems = []) :
    Tracks move more (·.moved move) (forNode header start first)
      (forNode (header.map (·.moved move)) (move start) second) := by
  unfold forNode at clean ⊢
  dsimp only at clean ⊢
  rw [loopHeader_moved, follows.since]
  split
  · rw [Tracks, SyntaxTree.moved_foldl_put]
    exact ⟨rfl, follows⟩
  · rename_i noHeader
    rw [noHeader] at clean
    exact absurd clean (List.cons_ne_nil _ _)

/-- The same plain statement is read, moved. -/
theorem tracks_plainStatement (follows : Follows move more first second) {head : Token}
    {rest : List Token} (there : first.rest = head :: rest)
    (live : (plainStatement head first).2.Live) :
    Tracks move more (·.moved move) (plainStatement head first)
      (plainStatement (head.moved move) second) := by
  by_cases closes : head.closes
  · rw [plainStatement, if_pos closes] at live
    exact absurd live (not_live_report _ _ _)
  have closes' : ¬(head.moved move).closes := closes
  let endsWithBlock := blockStatementWords.contains head.text
  let span := Span.plainStatement endsWithBlock 0 first.rest
  unfold plainStatement at live ⊢
  rw [if_neg closes] at live ⊢
  rw [if_neg closes']
  dsimp only at live ⊢
  have closed : span.closed := by
    by_contra unclosed
    rw [if_neg unclosed] at live
    exact not_live_report _ _ _ live
  rw [if_pos closed] at live ⊢
  have passed := follows.pass (splits_plainStatement endsWithBlock 0 first.rest)
  have same : Span.plainStatement endsWithBlock 0 second.rest = span.moved move more := by
    rw [follows.rest, plainStatement_moved live.2]
  have start := follows.starts.start (there ▸ List.cons_ne_nil head rest)
  have closed' : (span.moved move more).closed := closed
  rw [Token.text_moved, same, if_pos closed', start, passed.since]
  refine ⟨?_, passed⟩
  dsimp only
  rw [SyntaxTree.moved_put, SyntaxTree.moved_eq, ← callNodes_moved]
  exact congrArg (SyntaxTree.put _ "text") (Token.join_moved move span.taken)

mutual

/-- The same block is read, moved. -/
theorem tracks_blockWithin : ∀ (bound : Nat) {first second : Reading},
    Follows move more first second → (blockWithin bound first).2.Live →
      Tracks move more (·.moved move) (blockWithin bound first) (blockWithin bound second)
  | 0, first, second, follows, live => by
    unfold blockWithin at live ⊢
    rw [follows.starts.start live.2]
    exact ⟨emptyBlock_moved follows _, follows⟩
  | bound + 1, first, second, follows, live => by
    have start := follows.starts.start ((proceeds_blockWithin _ first).live live).2
    unfold blockWithin at live ⊢
    have opened := follows.expect ((proceeds_statementsWithin bound _ _).clean live.1)
    obtain ⟨same, after⟩ := tracks_statementsWithin bound first.here second.here opened live
    dsimp only
    rw [same, start, after.since]
    refine ⟨?_, after⟩
    dsimp only
    rw [SyntaxTree.moved_eq]

/-- The same statements are read, moved. -/
theorem tracks_statementsWithin : ∀ (bound : Nat) (opening other : SourceRange)
    {first second : Reading}, Follows move more first second →
      (statementsWithin bound opening first).2.Live →
        Tracks move more (·.map (·.moved move)) (statementsWithin bound opening first)
          (statementsWithin bound other second)
  | 0, _, _, _, _, follows, _ => by
    unfold statementsWithin
    exact ⟨rfl, follows⟩
  | bound + 1, opening, other, first, second, follows, live => by
    have filled := ((proceeds_statementsWithin _ _ first).live live).2
    unfold statementsWithin at live ⊢
    rw [follows.starts.done filled, follows.starts.sees filled]
    split
    · rw [if_pos ‹_›] at live
      exact absurd live (not_live_report _ _ _)
    rw [if_neg ‹_›] at live
    split
    · exact ⟨rfl, follows.starts.next filled⟩
    · rw [if_neg ‹_›] at live
      have statementLive := (proceeds_statementsWithin bound opening _).live live
      obtain ⟨same, after⟩ := tracks_statementWithin bound follows statementLive
      obtain ⟨sameOthers, left⟩ := tracks_statementsWithin bound opening other after live
      refine ⟨?_, left⟩
      dsimp only
      rw [same, sameOthers, List.map_append]
      cases (statementWithin bound first).1 <;> rfl

/-- The same statement is read, moved. -/
theorem tracks_statementWithin : ∀ (bound : Nat) {first second : Reading},
    Follows move more first second → (statementWithin bound first).2.Live →
      Tracks move more (·.map (·.moved move)) (statementWithin bound first)
        (statementWithin bound second)
  | 0, _, _, follows, _ => by
    unfold statementWithin
    exact ⟨rfl, follows⟩
  | bound + 1, first, second, follows, live => by
    obtain ⟨head, rest, there⟩ :=
      List.exists_cons_of_ne_nil ((proceeds_statementWithin _ first).live live).2
    have filled : first.rest ≠ [] := there ▸ List.cons_ne_nil head rest
    have there' := follows.rest_cons there
    have start := follows.starts.start filled
    have next := follows.starts.next_of_cons there
    have labelled : (isName head && second.thenSees ":") = (isName head && first.thenSees ":") := by
      by_cases name : isName head
      · rw [follows.starts.thenSees there (follows.starts.rest_ne_nil there fun ends =>
          ends.1 (Bool.and_eq_true_iff.mp name).1)]
      · simp [name]
    have name : isName (head.moved move) = isName head := rfl
    unfold statementWithin at live ⊢
    simp only [there, there', name, labelled, Token.is_moved, Token.text_moved, start] at live ⊢
    split
    · rw [if_pos ‹_›] at live
      have twiceLive := (proceeds_bodyWithin bound first.start _).live live
      have twice := next.starts.next ((proceeds_next _).live twiceLive).2
      obtain ⟨same, after⟩ := tracks_bodyWithin bound first.start twice live
      refine ⟨?_, after⟩
      simp only [same, after.since, putLabel_moved, Option.map_some, SyntaxTree.moved_withRange]
    rw [if_neg ‹_›] at live
    split
    · exact ⟨rfl, next⟩
    rw [if_neg ‹_›] at live
    split
    · rw [if_pos ‹_›] at live
      obtain ⟨same, after⟩ := tracks_blockWithin bound follows live
      exact ⟨congrArg some same, after⟩
    rw [if_neg ‹_›] at live
    split
    · rw [if_pos ‹_›] at live
      have consequenceLive : (bodyWithin bound first.start (roundGroup first.next).2.2).2.Live := by
        split at live
        · exact ((proceeds_next _).trans (proceeds_bodyWithin bound first.start _)).live live
        · exact live
      have groupLive := (proceeds_bodyWithin bound first.start _).live consequenceLive
      obtain ⟨sameCondition, _, group⟩ := tracks_roundGroup next groupLive
      obtain ⟨same, after⟩ := tracks_bodyWithin bound first.start group consequenceLive
      rw [after.starts.sees consequenceLive.2]
      split
      · rw [if_pos ‹_›] at live
        obtain ⟨sameOther, last⟩ :=
          tracks_bodyWithin bound first.start (after.starts.next consequenceLive.2) live
        refine ⟨?_, last⟩
        simp only [sameCondition, same, sameOther, last.since, Option.map_some,
          SyntaxTree.moved_put, ← conditional_moved, List.map_cons, List.map_nil]
      · rw [if_neg ‹_›] at live
        refine ⟨?_, after⟩
        simp only [sameCondition, same, after.since, Option.map_some, ← conditional_moved,
          List.map_cons, List.map_nil]
    rw [if_neg ‹_›] at live
    split
    · rw [if_pos ‹_›] at live
      have headerLive := (proceeds_bodyWithin bound first.start _).live live
      have groupLive := (proceeds_forNode _ _ _).live headerLive
      obtain ⟨sameHeader, _, group⟩ := tracks_roundGroup next groupLive
      obtain ⟨sameNode, header⟩ :=
        tracks_forNode (roundGroup first.next).1 first.start group headerLive.1
      obtain ⟨same, after⟩ := tracks_bodyWithin bound first.start header live
      rw [sameHeader]
      refine ⟨?_, after⟩
      simp only [sameNode, same, after.since, callNodes_moved, Option.map_some,
        SyntaxTree.moved_withChildren, List.map_append, List.map_cons, List.map_nil]
    rw [if_neg ‹_›] at live
    split
    · rw [if_pos ‹_›] at live
      have groupLive := (proceeds_bodyWithin bound first.start _).live live
      obtain ⟨sameCondition, _, group⟩ := tracks_roundGroup next groupLive
      obtain ⟨same, after⟩ := tracks_bodyWithin bound first.start group live
      refine ⟨?_, after⟩
      simp only [sameCondition, same, after.since, Option.map_some, ← conditional_moved,
        List.map_cons, List.map_nil]
    rw [if_neg ‹_›] at live
    split
    · rw [if_pos ‹_›] at live
      have conditionLive := (proceeds_expect _ ";" "after do/while condition").live live
      have wordLive := (proceeds_roundGroup _).live conditionLive
      have bodyLive := (proceeds_expect _ "while" "after do body").live wordLive
      obtain ⟨same, body⟩ := tracks_bodyWithin bound first.start next bodyLive
      obtain ⟨sameCondition, _, condition⟩ :=
        tracks_roundGroup (body.expect wordLive.1) conditionLive
      have after := condition.expect live.1
      refine ⟨?_, after⟩
      simp only [sameCondition, same, after.since, Option.map_some, ← conditional_moved,
        List.map_cons, List.map_nil]
    · rw [if_neg ‹_›] at live
      obtain ⟨same, after⟩ := tracks_plainStatement follows there live
      refine ⟨?_, after⟩
      simp only [same, after.since, Option.map_some, SyntaxTree.moved_withRange]

/-- The same body is read, moved. -/
theorem tracks_bodyWithin : ∀ (bound : Nat) (start : Position) {first second : Reading},
    Follows move more first second → (bodyWithin bound start first).2.Live →
      Tracks move more (·.moved move) (bodyWithin bound start first)
        (bodyWithin bound (move start) second)
  | 0, start, _, _, follows, _ => by
    unfold bodyWithin
    exact ⟨emptyBlock_moved follows start, follows⟩
  | bound + 1, start, first, second, follows, live => by
    have filled := ((proceeds_bodyWithin _ start first).live live).2
    unfold bodyWithin at live ⊢
    rw [follows.starts.sees filled, follows.starts.done filled]
    split
    · rw [if_pos ‹_›] at live
      exact absurd live (not_live_report _ _ _)
    · rw [if_neg ‹_›] at live
      have statementLive : (statementWithin bound first).2.Live := by
        split at live <;> rename_i read <;> rw [read] <;> exact live
      obtain ⟨same, after⟩ := tracks_statementWithin bound follows statementLive
      rcases read : statementWithin bound first with ⟨tree?, left⟩
      rcases readOther : statementWithin bound second with ⟨other?, leftOther⟩
      rw [read, readOther] at same after
      dsimp only at same after
      cases tree? with
      | none =>
          rw [same]
          exact ⟨emptyBlock_moved after start, after⟩
      | some tree =>
          rw [same]
          exact ⟨rfl, after⟩

end

/-- The same block is read with the bounds that both texts give. -/
theorem tracks_block (follows : Follows move more first second) (live : (block first).2.Live) :
    Tracks move more (·.moved move) (block first) (block second) := by
  have bound : blockWithin second.fuel first = block first :=
    Call.run_eq_of_suffices (show Call.Suffices ⟨_, .block, first⟩ from Call.suffices_of_fuel rfl)
      (Nat.add_le_add_right (Nat.mul_le_mul_left 4 follows.starts.length_le) 4)
  rw [← bound] at live ⊢
  exact tracks_blockWithin _ follows live

/-! ### Methods and fields -/

/-- A parameter without a problem has a type and a name. -/
theorem exists_of_parameter_clean {reading : Reading}
    (clean : (parameter reading).2.problems = []) :
    ∃ type name rest, (typeText (preamble reading).2).1 = some type ∧
      (typeText (preamble reading).2).2.rest = name :: rest ∧ name.isIdent := by
  unfold parameter at clean
  dsimp only at clean
  split at clean
  · rename_i type name rest isType there
    split at clean
    · exact ⟨type, name, rest, isType, there, ‹_›⟩
    · exact absurd clean (List.cons_ne_nil _ _)
  · exact absurd clean (List.cons_ne_nil _ _)

/-- The same parameter is read, moved. -/
theorem tracks_parameter (follows : Follows move more first second)
    (live : (parameter first).2.Live) :
    Tracks move more (·.moved move) (parameter first) (parameter second) := by
  have filled := ((proceeds_parameter first).live live).2
  obtain ⟨type, name, rest, isType, there, isIdent⟩ := exists_of_parameter_clean live.1
  rw [parameter_eq (Prod.eta _).symm (Prod.ext isType rfl) there isIdent] at live ⊢
  have nameLive := (proceeds_pass _ (splits_arrayMarks _)).live live
  have typeLive := (proceeds_next _).live nameLive
  obtain ⟨samePreamble, front⟩ := tracks_preamble follows ((proceeds_typeText _).live typeLive)
  obtain ⟨sameType, typed⟩ := tracks_typeText front typeLive
  have named := typed.starts.next_of_cons there
  have marks := named.pass (splits_arrayMarks _)
  rw [parameter_eq (Prod.eta _).symm (Prod.ext (sameType.trans isType) rfl)
    (typed.rest_cons there) isIdent]
  dsimp only
  rw [named.rest, arrayMarks_moved named.ends live.2, follows.starts.start filled, marks.since]
  refine ⟨?_, marks⟩
  dsimp only
  rw [samePreamble, ← putPreamble_moved, SyntaxTree.moved_put, SyntaxTree.moved_eq, Span.moved,
    List.length_map]
  rfl

/-- The same parameters are read, moved. -/
theorem tracks_parametersWithin (bound : Nat) (follows : Follows move more first second)
    (live : (parametersWithin bound first).2.Live) :
    Tracks move more (·.map (·.moved move)) (parametersWithin bound first)
      (parametersWithin bound second) := by
  induction bound generalizing first second with
  | zero => exact ⟨rfl, follows⟩
  | succ bound ih =>
      have filled := ((proceeds_parametersWithin first _).live live).2
      rw [parametersWithin_succ] at live ⊢
      rw [parametersWithin_succ, follows.starts.done filled, follows.starts.sees filled]
      split
      · exact ⟨rfl, follows⟩
      rw [if_neg ‹_›] at live
      have parameterLive : (parameter first).2.Live := by
        split at live
        · exact ((proceeds_next _).trans (proceeds_parametersWithin _ bound)).live live
        · exact live
      obtain ⟨same, after⟩ := tracks_parameter follows parameterLive
      rw [after.starts.sees parameterLive.2]
      split
      · rw [if_pos ‹_›] at live
        obtain ⟨sameOthers, left⟩ := ih (after.starts.next parameterLive.2) live
        refine ⟨?_, left⟩
        dsimp only
        rw [same, sameOthers, List.map_cons]
      · refine ⟨?_, after⟩
        dsimp only
        rw [same, List.map_cons, List.map_nil]

theorem tracks_methodParameters (follows : Follows move more first second)
    (live : (methodParameters first).2.Live) :
    Tracks move more (·.map (·.moved move)) (methodParameters first)
      (methodParameters second) := by
  have opened := follows.expect ((proceeds_parametersWithin _ _).clean live.1)
  have bound : parametersWithin
      ((second.expect "(" "to open parameter list").rest.length + 1)
      (first.expect "(" "to open parameter list") = methodParameters first :=
    Call.run_eq_of_suffices (show Call.Suffices ⟨_, .parameters, _⟩ from Nat.lt_succ_self _)
      (Nat.succ_le_succ opened.starts.length_le)
  rw [← bound] at live ⊢
  exact tracks_parametersWithin _ opened live

/-- Behind the parameters reading goes on alike. -/
theorem follows_afterParameters (follows : Follows move more first second)
    (live : (afterParameters first).Live) :
    Follows move more (afterParameters first) (afterParameters second) := by
  have closedLive := (proceeds_pass _ (splits_arrayMarks _)).live live
  obtain ⟨_, parameters⟩ :=
    tracks_methodParameters follows ((proceeds_expect _ _ _).live closedLive)
  have closed := parameters.expect closedLive.1
  unfold afterParameters
  dsimp only
  rw [closed.rest, arrayMarks_moved closed.ends live.2]
  exact closed.pass (splits_arrayMarks _)

theorem tracks_thrownTypes (follows : Follows move more first second)
    (live : (thrownTypes first).2.Live) :
    Tracks move more id (thrownTypes first) (thrownTypes second) :=
  tracks_heritage _ (follows_afterParameters follows ((proceeds_heritage _ _).live live)) live

/-- The same body of a method is read, moved. -/
theorem tracks_methodBody (follows : Follows move more first second)
    (live : (methodBody first).2.Live) :
    Tracks move more (·.map (·.moved move)) (methodBody first) (methodBody second) := by
  have filled := ((proceeds_methodBody first).live live).2
  unfold methodBody at live ⊢
  rw [follows.starts.sees filled, follows.starts.sees filled, follows.starts.sees filled]
  split
  · rw [if_pos ‹_›] at live
    obtain ⟨same, after⟩ := tracks_block follows live
    exact ⟨congrArg ([·]) same, after⟩
  rw [if_neg ‹_›] at live
  split
  · rw [if_pos ‹_›] at live
    exact absurd live (not_live_report _ _ _)
  rw [if_neg ‹_›] at live
  split
  · exact ⟨rfl, follows.starts.next filled⟩
  · rw [if_neg ‹_›] at live
    exact absurd live (not_live_report _ _ _)

/-- The same method is read from its parameters on, moved. -/
theorem tracks_methodRest (method : SyntaxTree) (follows : Follows move more first second)
    (live : (methodRest method first).2.Live) :
    Tracks move more (·.moved move) (methodRest method first)
      (methodRest (method.moved move) second) := by
  rw [methodRest_eq] at live ⊢
  rw [methodRest_eq]
  have thrownLive := (proceeds_methodBody _).live live
  have afterLive := (proceeds_heritage _ _).live thrownLive
  have parametersLive := ((proceeds_expect _ _ _).trans
    (proceeds_pass _ (splits_arrayMarks _))).live afterLive
  obtain ⟨sameParameters, _⟩ := tracks_methodParameters follows parametersLive
  obtain ⟨sameThrown, thrown⟩ := tracks_thrownTypes follows thrownLive
  obtain ⟨sameBody, body⟩ := tracks_methodBody thrown live
  refine ⟨?_, body⟩
  dsimp only
  rw [sameParameters, sameThrown, sameBody, ← List.map_append, ← SyntaxTree.moved_put,
    SyntaxTree.moved_eq, SyntaxTree.moved_eq]
  rfl

/-- An initial value is read behind the marks of an array. -/
theorem proceeds_marks_initialValue (reading : Reading) :
    (reading.pass (Span.arrayMarks reading.rest)).Proceeds (initialValue reading).2 := by
  unfold initialValue
  dsimp only
  split
  · exact (proceeds_next _).trans (proceeds_pass _ (splits_initializer 0 _))
  · exact .refl _

/-- The same initial value is read, moved. -/
theorem tracks_initialValue (follows : Follows move more first second)
    (live : (initialValue first).2.Live) :
    Tracks move more (·.map (·.moved move)) (initialValue first) (initialValue second) := by
  have marksLive := (proceeds_marks_initialValue first).live live
  have marks := follows.pass (splits_arrayMarks _)
  unfold initialValue at live ⊢
  dsimp only at live ⊢
  rw [follows.rest, arrayMarks_moved follows.ends marksLive.2, marks.starts.sees marksLive.2]
  split
  · rw [if_pos ‹_›] at live
    have value := marks.starts.next marksLive.2
    rw [value.rest, initializer_moved value.ends live.2]
    exact ⟨rfl, value.pass (splits_initializer 0 _)⟩
  · exact ⟨rfl, marks⟩

/-- A declarator makes the same field, moved. -/
theorem fieldNode_moved (preamble : Preamble) (type : String) (name : Token)
    (follows : Follows move more first second) (live : (initialValue first).2.Live) :
    fieldNode preamble type (name.moved move) second =
      (fieldNode preamble type name first).moved move := by
  have marksLive := (proceeds_marks_initialValue first).live live
  obtain ⟨same, after⟩ := tracks_initialValue follows live
  unfold fieldNode
  dsimp only
  rw [same, follows.rest, arrayMarks_moved follows.ends marksLive.2, Token.range_moved,
    SourceRange.start_moved, after.since, SyntaxTree.moved_put, ← putPreamble_moved,
    SyntaxTree.moved_put, SyntaxTree.moved_eq, Token.join_moved, callNodes_moved, Span.moved,
    List.length_map]
  rfl

/-- The same declarators are read, moved. -/
theorem tracks_fieldsWithin (preamble : Preamble) (type : String) (bound : Nat) (name : Token)
    (follows : Follows move more first second)
    (live : (fieldsWithin preamble type bound name first).2.Live) :
    Tracks move more (·.map (·.moved move)) (fieldsWithin preamble type bound name first)
      (fieldsWithin preamble type bound (name.moved move) second) := by
  induction bound generalizing first second name with
  | zero => exact ⟨rfl, follows⟩
  | succ bound ih =>
      rw [fieldsWithin_succ] at live ⊢
      rw [fieldsWithin_succ]
      dsimp only at live ⊢
      have valueLive : (initialValue first).2.Live := by
        split at live
        · refine (proceeds_next _).live ?_
          split at live
          · split at live
            · exact ((proceeds_next _).trans (proceeds_fieldsWithin _ _ _ bound _)).live live
            · exact absurd live (not_live_report _ _ _)
          · exact absurd live (not_live_report _ _ _)
        · exact live
      obtain ⟨_, value⟩ := tracks_initialValue follows valueLive
      rw [fieldNode_moved preamble type name follows valueLive, value.starts.sees valueLive.2]
      split
      · rw [if_pos ‹_›] at live
        have comma := value.starts.next valueLive.2
        split at live
        · rename_i other rest there
          have same : isName (other.moved move) = isName other := rfl
          rw [comma.rest_cons there]
          dsimp only
          split at live
          · rename_i isOther
            rw [if_pos isOther, if_pos (same.trans isOther)]
            obtain ⟨sameOthers, left⟩ := ih other (comma.starts.next_of_cons there) live
            refine ⟨?_, left⟩
            dsimp only
            rw [sameOthers, List.map_cons]
          · exact absurd live (not_live_report _ _ _)
        · exact absurd live (not_live_report _ _ _)
      · exact ⟨rfl, value⟩

/-- Fields that are put together are moved together. -/
theorem groupFields_moved (fields : List SyntaxTree) (range : SourceRange) :
    groupFields (fields.map (·.moved move)) (range.moved move) =
      (groupFields fields range).moved move := by
  match fields with
  | [field] => rfl
  | [] => rfl
  | field :: other :: fields =>
    simp only [groupFields, List.map_cons, List.length_cons, List.length_map]
    rw [SyntaxTree.moved_put]
    rw [SyntaxTree.moved_eq move { kind := .block, children := field :: other :: fields, range }]
    rfl

/-- What is read as a type starts with a word. -/
theorem exists_of_typeText_some {reading : Reading} {type : String}
    (read : (typeText reading).1 = some type) :
    ∃ head rest, reading.rest = head :: rest ∧ head.isIdent := by
  unfold typeText at read
  split at read
  · cases read
  · rename_i head rest there
    split at read
    · cases read
    · rename_i starts
      simp only [Bool.or_eq_true, not_or, Bool.not_eq_true', Bool.not_eq_false] at starts
      exact ⟨head, rest, there, starts.1⟩

/-- A member without a problem that is no constructor has a type and a name. -/
theorem exists_of_typedMember_clean {reading : Reading} {owner : String} {preamble : Preamble}
    {typeParams : List Token} {start : Position}
    (noConstructor : ¬(reading.rest.head?.any (·.text = owner) && reading.thenSees "("))
    (clean : (typedMember owner preamble typeParams start reading).2.problems = []) :
    ∃ type name rest, (typeText reading).1 = some type ∧
      (typeText reading).2.rest = name :: rest ∧ isName name := by
  unfold typedMember at clean
  dsimp only at clean
  rw [if_neg noConstructor] at clean
  split at clean
  · exact absurd clean (List.cons_ne_nil _ _)
  rename_i type after read
  rw [read]
  split at clean
  · exact absurd clean (List.cons_ne_nil _ _)
  rename_i name rest there
  split at clean
  · exact absurd clean (List.cons_ne_nil _ _)
  · rename_i isName
    exact ⟨type, name, rest, rfl, there, by simpa using isName⟩

/-- The same member with a type is read, moved. -/
theorem tracks_typedMember (owner : String) (preamble : Preamble) (typeParams : List Token)
    (start : Position) (follows : Follows move more first second)
    (live : (typedMember owner preamble typeParams start first).2.Live) :
    Tracks move more (·.moved move) (typedMember owner preamble typeParams start first)
      (typedMember owner preamble (typeParams.map (·.moved move)) (move start) second) := by
  -- A method has its range, modifiers and type parameters put on it in the end.
  have finish (method : SyntaxTree) {one other : Reading} (follows : Follows move more one other)
      (live : (methodRest method one).2.Live) :
      Tracks move more (·.moved move)
        ((putPreamble preamble { (methodRest method one).1 with
            range := (methodRest method one).2.since start }).put "typeParams"
          (Token.join typeParams), (methodRest method one).2)
        ((putPreamble preamble { (methodRest (method.moved move) other).1 with
            range := (methodRest (method.moved move) other).2.since (move start) }).put
          "typeParams" (Token.join (typeParams.map (·.moved move))),
          (methodRest (method.moved move) other).2) := by
    obtain ⟨same, after⟩ := tracks_methodRest method follows live
    refine ⟨?_, after⟩
    dsimp only
    rw [same, after.since, Token.join_moved, SyntaxTree.moved_put, ← putPreamble_moved,
      SyntaxTree.moved_withRange]
  have filled := ((proceeds_typedMember first owner preamble typeParams start).live live).2
  obtain ⟨head, rest, there⟩ := List.exists_cons_of_ne_nil filled
  have there' := follows.rest_cons there
  have next := follows.starts.next_of_cons there
  by_cases isConstructor : first.rest.head?.any (·.text = owner) && first.thenSees "("
  · obtain ⟨isOwner, opens⟩ := Bool.and_eq_true_iff.mp isConstructor
    have same : head.text = owner := by simpa [there] using isOwner
    have further : rest ≠ [] := by
      rintro rfl
      simp [Reading.thenSees, there] at opens
    have opens' := (follows.starts.thenSees there further "(").trans opens
    rw [typedMember_constructor owner preamble typeParams start there same opens] at live ⊢
    rw [typedMember_constructor owner preamble _ _ there' same opens', follows.starts.here filled]
    have whole := finish { kind := .constructor, name := some owner, range := first.here } next live
    rwa [SyntaxTree.moved_eq] at whole
  · obtain ⟨type, name, others, isType, after, isName⟩ :=
      exists_of_typedMember_clean isConstructor live.1
    obtain ⟨word, others', starts, isIdent⟩ := exists_of_typeText_some isType
    have further := follows.starts.rest_ne_nil starts fun ends => ends.1 isIdent
    have noConstructor :
        ¬(second.rest.head?.any (·.text = owner) && second.thenSees "(") := by
      rw [follows.starts.thenSees starts further]
      simpa [there, there'] using isConstructor
    have read : typeText first = (some type, (typeText first).2) := Prod.ext isType rfl
    by_cases opens : (typeText first).2.next.sees "("
    · rw [typedMember_method owner preamble typeParams start isConstructor read after isName opens]
        at live ⊢
      let node : SyntaxTree := { kind := .method, name := some name.text, range := name.range }
      have nameLive := (proceeds_methodRest _ (node.put "returnType" type)).live live
      obtain ⟨sameType, typed⟩ := tracks_typeText follows ((proceeds_next _).live nameLive)
      have named := typed.starts.next_of_cons after
      rw [typedMember_method owner preamble _ _ noConstructor (Prod.ext (sameType.trans isType) rfl)
        (typed.rest_cons after) isName ((named.starts.sees nameLive.2 "(").trans opens)]
      have placed : (node.put "returnType" type).moved move = SyntaxTree.put
          { kind := .method, name := some (name.moved move).text, range := (name.moved move).range }
          "returnType" type := by
        rw [SyntaxTree.moved_put, SyntaxTree.moved_eq]
        rfl
      have whole := finish (node.put "returnType" type) named live
      rw [placed] at whole
      dsimp only [node] at whole ⊢
      with_reducible exact whole
    · rw [typedMember_field owner preamble typeParams start isConstructor read after isName opens]
        at live ⊢
      dsimp only at live ⊢
      have fieldsLive := (proceeds_expect _ ";" "after field declaration").live live
      have nameLive := (proceeds_fieldsWithin _ _ _ _ _).live fieldsLive
      obtain ⟨sameType, typed⟩ := tracks_typeText follows ((proceeds_next _).live nameLive)
      have named := typed.starts.next_of_cons after
      have noMethod : ¬(typeText second).2.next.sees "(" := by
        rwa [named.starts.sees nameLive.2]
      rw [typedMember_field owner preamble _ _ noConstructor (Prod.ext (sameType.trans isType) rfl)
        (typed.rest_cons after) isName noMethod]
      have bound : fieldsWithin preamble type ((typeText second).2.rest.length + 1) name
          (typeText first).2.next =
            fieldsWithin preamble type ((typeText first).2.rest.length + 1) name
              (typeText first).2.next :=
        Call.run_eq_of_suffices (show Call.Suffices ⟨_, .fields preamble type name, _⟩ from
          Nat.lt_succ_of_le (onward_next _).length_le) (Nat.succ_le_succ typed.starts.length_le)
      rw [← bound] at fieldsLive live ⊢
      obtain ⟨sameFields, fields⟩ := tracks_fieldsWithin preamble type _ name named fieldsLive
      have last := fields.expect live.1
      refine ⟨?_, last⟩
      dsimp only
      rw [sameFields, last.since, groupFields_moved]

/-- The same member is read behind its modifiers, moved. -/
theorem tracks_plainMember (owner : String) (preamble : Preamble) (start : Position)
    (follows : Follows move more first second)
    (live : (plainMember owner preamble start first).2.Live) :
    Tracks move more (·.moved move) (plainMember owner preamble start first)
      (plainMember owner preamble (move start) second) := by
  rw [plainMember_eq] at live ⊢
  rw [plainMember_eq]
  obtain ⟨same, after⟩ := tracks_typeParameters follows
    ((proceeds_typedMember _ owner preamble _ start).live live)
  rw [same]
  exact tracks_typedMember owner preamble _ start after live

/-! ### Types and their members -/

/-- The same header of a type is read. -/
theorem tracks_typeHeader (node : SyntaxTree) (follows : Follows move more first second)
    (live : (typeHeader node first).2.Live) :
    Tracks move more (·.moved move) (typeHeader node first)
      (typeHeader (node.moved move) second) := by
  rw [typeHeader_eq] at live ⊢
  rw [typeHeader_eq]
  have interfacesLive := (proceeds_heritage _ _).live live
  have basesLive := (proceeds_heritage _ _).live interfacesLive
  have parametersLive := (proceeds_heritage _ _).live basesLive
  obtain ⟨sameParameters, parameters⟩ := tracks_typeParameters follows parametersLive
  obtain ⟨sameBases, bases⟩ := tracks_heritage "extends" parameters basesLive
  obtain ⟨sameInterfaces, interfaces⟩ := tracks_heritage "implements" bases interfacesLive
  obtain ⟨_, permits⟩ := tracks_heritage "permits" interfaces live
  refine ⟨?_, permits⟩
  dsimp only
  rw [sameParameters, sameBases, sameInterfaces, Token.join_moved, SyntaxTree.moved_put,
    SyntaxTree.moved_put, SyntaxTree.moved_put]
  rfl

/-- A type with its modifiers, read from a state that only starts as the other. -/
theorem tracks_memberWithin_of_type {bound : Nat} {owner? : Option String}
    (types : ∀ (kind : SyntaxKind) (word : String) (start : Position) {first second : Reading},
      Follows move more first second → Call.Suffices ⟨bound, .type kind word start, first⟩ →
        (typeWithin bound kind word start first).2.problems = [] →
          Tracks move more (·.moved move) (typeWithin bound kind word start first)
            (typeWithin bound kind word (move start) second))
    {Related : Reading → Reading → Prop}
    (of_follows : ∀ {first second}, Follows move more first second → Related first second)
    (to_starts : ∀ {first second}, Related first second → Starts move more first second)
    (related : Related first second)
    (sees : (preamble first).2.sees "class" ∨ (preamble first).2.sees "interface")
    (enough : Call.Suffices ⟨bound + 1, .member owner?, first⟩)
    (clean : (memberWithin (bound + 1) owner? first).2.problems = []) :
    Tracks move more (·.moved move) (memberWithin (bound + 1) owner? first)
      (memberWithin (bound + 1) owner? second) := by
  have filled : (preamble first).2.rest ≠ [] := by
    rcases sees with sees | sees <;>
      · obtain ⟨token, rest, there, _⟩ := exists_rest_of_sees sees
        exact there ▸ List.cons_ne_nil token rest
  have type {kind : SyntaxKind} {word : String} (sees : (preamble first).2.sees word)
      (listed : (kind, word) ∈ [(SyntaxKind.classDecl, "class"), (.interfaceDecl, "interface")])
      (clean : (typeWithin bound kind word first.start (preamble first).2.next).2.problems = []) :
      (preamble second).1 = (preamble first).1 ∧
        Starts move more (preamble first).2 (preamble second).2 ∧
        Tracks move more (·.moved move)
          (typeWithin bound kind word first.start (preamble first).2.next)
          (typeWithin bound kind word second.start (preamble second).2.next) := by
    have frontLive : (preamble first).2.Live :=
      ⟨((proceeds_next _).trans (proceeds_typeWithin bound kind word _ _)).clean clean, filled⟩
    obtain ⟨same, front⟩ := related_preamble of_follows to_starts related frontLive
    rw [(to_starts related).start ((proceeds_preamble first).live frontLive).2]
    exact ⟨same, to_starts front, types kind word _ ((to_starts front).next filled)
      (Call.Calls.suffices (.type sees listed) enough) clean⟩
  by_cases isClass : (preamble first).2.sees "class"
  · rw [memberWithin_class bound owner? isClass] at clean ⊢
    obtain ⟨samePreamble, front, same, after⟩ := type isClass (by decide) clean
    rw [memberWithin_class bound owner? ((front.sees filled "class").trans isClass)]
    refine ⟨?_, after⟩
    dsimp only
    rw [samePreamble, same, putPreamble_moved]
  · have isInterface := sees.resolve_left isClass
    rw [memberWithin_interface bound owner? isClass isInterface] at clean ⊢
    obtain ⟨samePreamble, front, same, after⟩ := type isInterface (by decide) clean
    have noClass : ¬(preamble second).2.sees "class" := by rwa [front.sees filled]
    rw [memberWithin_interface bound owner? noClass
      ((front.sees filled "interface").trans isInterface)]
    refine ⟨?_, after⟩
    dsimp only
    rw [samePreamble, same, putPreamble_moved]

/-- Members without a problem are closed by a brace, so something is left where they start. -/
theorem rest_ne_nil_of_membersWithin_clean {bound : Nat} {owner word : String}
    {header : SourceRange} {reading : Reading}
    (enough : Call.Suffices ⟨bound, .members owner word header, reading⟩)
    (clean : (membersWithin bound owner word header reading).2.problems = []) :
    reading.rest ≠ [] := by
  intro none
  obtain ⟨bound, rfl⟩ := Nat.exists_eq_add_one.mpr (Call.bound_pos enough)
  unfold membersWithin at clean
  rw [if_pos (done_iff.mpr none)] at clean
  exact List.cons_ne_nil _ _ clean

mutual

/-- The same member is read, moved. -/
theorem tracks_memberWithin : ∀ (bound : Nat) (owner : String) {first second : Reading},
    Follows move more first second → Call.Suffices ⟨bound, .member (some owner), first⟩ →
      (memberWithin bound (some owner) first).2.Live →
        Tracks move more (·.moved move) (memberWithin bound (some owner) first)
          (memberWithin bound (some owner) second)
  | 0, _, _, _, _, enough, _ => absurd (Call.bound_pos enough) (Nat.lt_irrefl 0)
  | bound + 1, owner, first, second, follows, enough, live => by
    by_cases sees : (preamble first).2.sees "class" ∨ (preamble first).2.sees "interface"
    · exact tracks_memberWithin_of_type
        (fun kind word start _ _ follows => tracks_typeWithin bound kind word start follows)
        id Follows.starts follows sees enough live.1
    obtain ⟨noClass, noInterface⟩ := not_or.mp sees
    unfold memberWithin at live
    dsimp only at live
    rw [if_neg noClass, if_neg noInterface] at live
    split at live
    · exact absurd live (not_live_report _ _ _)
    split at live
    · exact absurd live (not_live_report _ _ _)
    split at live
    · exact absurd live (not_live_report _ _ _)
    rename_i noAnnotation noEnum noRecord
    have frontLive : (preamble first).2.Live := by
      split at live
      · exact (proceeds_block _).live live
      · exact (proceeds_plainMember _ _ _ _).live live
    obtain ⟨same, front⟩ := tracks_preamble follows frontLive
    have start := follows.starts.start ((proceeds_preamble first).live frontLive).2
    unfold memberWithin
    simp only [front.starts.sees frontLive.2, noClass, noInterface, noAnnotation, noEnum, noRecord,
      Bool.false_eq_true, if_false]
    split
    · rw [if_pos ‹_›] at live
      obtain ⟨sameBlock, after⟩ := tracks_block front live
      refine ⟨?_, after⟩
      dsimp only
      rw [sameBlock, same, SyntaxTree.moved_put]
      rfl
    · rw [if_neg ‹_›] at live
      rw [same, start]
      exact tracks_plainMember owner _ _ front live

/-- The same type declaration is read, moved. -/
theorem tracks_typeWithin : ∀ (bound : Nat) (kind : SyntaxKind) (word : String) (start : Position)
    {first second : Reading}, Follows move more first second →
      Call.Suffices ⟨bound, .type kind word start, first⟩ →
        (typeWithin bound kind word start first).2.problems = [] →
          Tracks move more (·.moved move) (typeWithin bound kind word start first)
            (typeWithin bound kind word (move start) second)
  | 0, _, _, _, _, _, _, enough, _ => absurd (Call.bound_pos enough) (Nat.lt_irrefl 0)
  | bound + 1, kind, word, start, first, second, follows, enough, clean => by
    cases there : first.rest with
    | nil =>
        unfold typeWithin at clean
        rw [there] at clean
        exact absurd clean (List.cons_ne_nil _ _)
    | cons name rest =>
        have next := follows.starts.next_of_cons there
        let node : SyntaxTree := { kind, name := some name.text, range := name.range }
        have isName : isName name := by
          by_contra noName
          unfold typeWithin at clean
          rw [there] at clean
          dsimp only at clean
          rw [if_pos (by simpa using noName)] at clean
          exact List.cons_ne_nil _ _ clean
        have opens : (typeHeader node first.next).2.sees "\x7b" := by
          by_contra closed
          unfold typeWithin at clean
          rw [there] at clean
          dsimp only at clean
          rw [if_neg (by simp [isName]), if_neg closed] at clean
          exact List.cons_ne_nil _ _ clean
        rw [typeWithin_succ bound kind word start there isName opens] at clean ⊢
        obtain ⟨brace, others, header, _⟩ := exists_rest_of_sees opens
        have left : (typeHeader node first.next).2.rest ≠ [] :=
          header ▸ List.cons_ne_nil brace others
        have headerLive : (typeHeader node first.next).2.Live :=
          ⟨((proceeds_next _).trans (proceeds_membersWithin bound _ _ _ _)).clean clean, left⟩
        obtain ⟨sameHeader, headed⟩ := tracks_typeHeader node next headerLive
        rw [SyntaxTree.moved_eq] at sameHeader headed
        rw [typeWithin_succ bound kind word (move start) (follows.rest_cons there) isName
          ((headed.starts.sees left "\x7b").trans opens)]
        obtain ⟨same, after⟩ := tracks_membersWithin bound name.text word _ _
          (headed.starts.next left) (Call.Calls.suffices (.members there opens) enough) clean
        let placed : SyntaxTree := { node with range := node.range.moved move }
        have isPlaced : (typeHeader placed second.next).1 =
            (typeHeader node first.next).1.moved move := sameHeader
        refine ⟨?_, after⟩
        dsimp only
        rw [SyntaxTree.moved_withChildren, ← isPlaced, ← after.since]
        exact congrArg (fun children => SyntaxTree.mk _ _ children _ _) same

/-- The same members are read, moved. -/
theorem tracks_membersWithin : ∀ (bound : Nat) (owner word : String) (header other : SourceRange)
    {first second : Reading}, Follows move more first second →
      Call.Suffices ⟨bound, .members owner word header, first⟩ →
        (membersWithin bound owner word header first).2.problems = [] →
          Tracks move more (·.map (·.moved move)) (membersWithin bound owner word header first)
            (membersWithin bound owner word other second)
  | 0, _, _, _, _, _, _, _, enough, _ => absurd (Call.bound_pos enough) (Nat.lt_irrefl 0)
  | bound + 1, owner, word, header, other, first, second, follows, enough, clean => by
    have filled := rest_ne_nil_of_membersWithin_clean enough clean
    unfold membersWithin at clean ⊢
    rw [follows.starts.done filled, follows.starts.sees filled, follows.starts.sees filled]
    split
    · exact absurd (done_iff.mp ‹_›) filled
    rw [if_neg ‹_›] at clean
    split
    · exact ⟨rfl, follows.starts.next filled⟩
    rw [if_neg ‹_›] at clean
    split
    · rw [if_pos ‹_›] at clean
      exact tracks_membersWithin bound owner word header other (follows.starts.next filled)
        (Call.Calls.suffices (.emptyMember ‹_›) enough) clean
    · rw [if_neg ‹_›] at clean
      have left := rest_ne_nil_of_membersWithin_clean
        (Call.Calls.suffices (.laterMembers ‹_› ‹_› ‹_›) enough) clean
      obtain ⟨same, after⟩ := tracks_memberWithin bound owner follows
        (Call.Calls.suffices (.member ‹_› ‹_› ‹_›) enough)
        ⟨(proceeds_membersWithin bound _ _ _ _).clean clean, left⟩
      obtain ⟨sameOthers, last⟩ := tracks_membersWithin bound owner word header other after
        (Call.Calls.suffices (.laterMembers ‹_› ‹_› ‹_›) enough) clean
      refine ⟨?_, last⟩
      dsimp only
      rw [same, sameOthers, List.map_cons]

end

end Parser

end Transcode
