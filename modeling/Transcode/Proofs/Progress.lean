import Transcode.Proofs.Parts

/-!
# Reading goes forward

A stretch of tokens and the rest after it are the tokens that it was cut from
(`Span.Splits`). So whatever the parser reads, the tokens that it leaves are the last of those that
it had (`Reading.Onward`), and no problem that was found is forgotten (`Reading.Proceeds`); this is
shown function by function, in the order of the parser.
-/

namespace Transcode

/-! ### Stretches -/

namespace Span

/-- A stretch followed by its rest is a list of tokens. -/
def Splits (span : Span) (tokens : List Token) : Prop := span.taken ++ span.rest = tokens

theorem Splits.cons {span : Span} {rest : List Token} (splits : span.Splits rest) (token : Token) :
    (span.cons token).Splits (token :: rest) := congrArg (token :: ·) splits

/-- Cutting before the first token that stops loses none. -/
theorem splits_upTo (stop : Token → Bool) (tokens : List Token) :
    (upTo stop tokens).Splits tokens := by
  fun_induction upTo stop tokens with
  | case1 => rfl
  | case2 => rfl
  | case3 token rest _ ih => exact ih.cons token

/-- Braces are read up to the one that closes them, and no token is lost. -/
theorem splits_braces (depth : Nat) (tokens : List Token) :
    (braces depth tokens).Splits tokens := by
  fun_induction braces depth tokens with
  | case1 => rfl
  | case2 _ token rest _ ih => exact ih.cons token
  | case3 => rfl
  | case4 _ token rest _ _ _ ih => exact ih.cons token
  | case5 _ token rest _ _ ih => exact ih.cons token

/-- What a recovery skips and what it leaves are all there was. -/
theorem splits_recovery (depth : Nat) (tokens : List Token) :
    (recovery depth tokens).Splits tokens := by
  fun_induction recovery depth tokens with
  | case1 => rfl
  | case2 => rfl
  | case3 => rfl
  | case4 token rest _ _ _ ih => exact ih.cons token
  | case5 token rest _ _ _ ih => exact ih.cons token
  | case6 _ token rest _ ih => exact ih.cons token
  | case7 _ token rest _ _ ih => exact ih.cons token
  | case8 _ token rest _ _ ih => exact ih.cons token

/-- What is skipped of a declaration and what is left are all there was. -/
theorem splits_declaration (tokens : List Token) : (declaration tokens).Splits tokens := by
  fun_induction declaration tokens with
  | case1 => rfl
  | case2 token rest => exact (splits_braces 1 rest).cons token
  | case3 => rfl
  | case4 => rfl
  | case5 token rest _ _ _ ih => exact ih.cons token

/-- Names behind dots are cut off whole. -/
theorem splits_dottedNames (tokens : List Token) : (dottedNames tokens).Splits tokens := by
  fun_induction dottedNames tokens with
  | case4 token next rest _ _ ih => exact (ih.cons next).cons token
  | _ => rfl

/-- Qualifiers are cut off whole. -/
theorem splits_qualifiers (tokens : List Token) : (qualifiers tokens).Splits tokens := by
  fun_induction qualifiers tokens with
  | case1 point word rest _ ih => exact (ih.cons word).cons point
  | _ => rfl

/-- Marks of arrays are cut off whole. -/
theorem splits_arrayMarks (tokens : List Token) : (arrayMarks tokens).Splits tokens := by
  fun_induction arrayMarks tokens with
  | case1 opening closing rest _ ih => exact (ih.cons closing).cons opening
  | _ => rfl

/-- Angle brackets are cut off with what is between them. -/
theorem splits_angles (depth : Nat) (tokens : List Token) :
    (angles depth tokens).Splits tokens := by
  fun_induction angles depth tokens with
  | case2 _ token rest _ ih => exact ih.cons token
  | case4 _ token rest _ _ _ ih => exact ih.cons token
  | case6 _ token rest _ _ _ ih => exact ih.cons token
  | _ => rfl

/-- A group is cut off with what is between its brackets. -/
theorem splits_group (depth : Nat) (tokens : List Token) : (group depth tokens).Splits tokens := by
  fun_induction group depth tokens with
  | case2 _ token rest _ ih => exact ih.cons token
  | case4 _ token rest _ _ _ ih => exact ih.cons token
  | case5 _ token rest _ _ ih => exact ih.cons token
  | _ => rfl

/-- An initial value is cut off before the token that ends it. -/
theorem splits_initializer (depth : Nat) (tokens : List Token) :
    (initializer depth tokens).Splits tokens := by
  fun_induction initializer depth tokens with
  | case3 _ token rest _ _ ih => exact ih.cons token
  | case4 _ token rest _ _ _ ih => exact ih.cons token
  | case5 _ token rest _ _ _ ih => exact ih.cons token
  | _ => rfl

/-- A plain statement is cut off with its last token. -/
theorem splits_plainStatement (endsWithBlock : Bool) (depth : Nat) (tokens : List Token) :
    (plainStatement endsWithBlock depth tokens).Splits tokens := by
  fun_induction plainStatement endsWithBlock depth tokens with
  | case3 _ token rest _ _ ih => exact ih.cons token
  | case6 _ token rest _ _ _ _ _ ih => exact ih.cons token
  | case7 _ token rest _ _ _ ih => exact ih.cons token
  | _ => rfl

end Span

/-! ### Steps of the parser -/

namespace Reading

/-- The tokens of a later reading are the last of those of an earlier one. -/
def Onward (before after : Reading) : Prop := after.rest <:+ before.rest

/-- What a later reading has to read is the last of what an earlier one had, and the problems found
before are among its own. -/
structure Proceeds (before after : Reading) : Prop where
  onward : before.Onward after
  kept : before.problems <:+ after.problems

variable {before between after : Reading}

theorem Onward.refl (reading : Reading) : reading.Onward reading := List.suffix_refl _

theorem Onward.trans (first : before.Onward between) (second : between.Onward after) :
    before.Onward after := List.IsSuffix.trans second first

/-- Where a result is known, so is the reading that comes with it. -/
theorem Onward.of_eq {α : Type} {result : α × Reading} {value : α}
    (onward : before.Onward result.2) (is : result = (value, after)) : before.Onward after := by
  rwa [is] at onward

theorem Onward.mem (onward : before.Onward after) {token : Token} (left : token ∈ after.rest) :
    token ∈ before.rest := onward.subset left

theorem Proceeds.refl (reading : Reading) : reading.Proceeds reading :=
  ⟨.refl reading, List.suffix_refl _⟩

/-- What is known after one step is known after the next. -/
theorem Proceeds.trans (first : before.Proceeds between) (second : between.Proceeds after) :
    before.Proceeds after :=
  ⟨first.onward.trans second.onward, first.kept.trans second.kept⟩

/-- Where a result is known, so is the reading that comes with it. -/
theorem Proceeds.of_eq {α : Type} {result : α × Reading} {value : α}
    (proceeds : before.Proceeds result.2) (is : result = (value, after)) :
    before.Proceeds after := by
  rwa [is] at proceeds

variable (reading : Reading)

theorem proceeds_pass {span : Span} (splits : span.Splits reading.rest) :
    reading.Proceeds (reading.pass span) := ⟨⟨span.taken, splits⟩, List.suffix_refl _⟩

theorem proceeds_report (message : String) (range : SourceRange) :
    reading.Proceeds (reading.report message range) := ⟨.refl _, List.suffix_cons _ _⟩

theorem proceeds_reportMissing (text context : String) :
    reading.Proceeds (reading.reportMissing text context) := reading.proceeds_report _ _

/-- One token is passed, if there is one. -/
theorem proceeds_next : reading.Proceeds reading.next := by
  unfold next
  split
  · exact .refl reading
  · rename_i token rest there
    exact ⟨⟨[token], there.symm⟩, List.suffix_refl _⟩

/-- A token is passed if it is the one in question. -/
theorem proceeds_skip (text : String) : reading.Proceeds (reading.skip text) := by
  unfold skip
  split
  · exact reading.proceeds_next
  · exact .refl reading

/-- A token is passed if it is the expected one, and reported as missing if not. -/
theorem proceeds_expect (text context : String) :
    reading.Proceeds (reading.expect text context) := by
  unfold expect
  split
  · exact reading.proceeds_next
  · exact reading.proceeds_reportMissing _ _

/-! What is left afterwards was there before. -/

theorem onward_pass {span : Span} (splits : span.Splits reading.rest) :
    reading.Onward (reading.pass span) := (reading.proceeds_pass splits).onward

theorem onward_next : reading.Onward reading.next := reading.proceeds_next.onward

theorem onward_skip (text : String) : reading.Onward (reading.skip text) :=
  (reading.proceeds_skip text).onward

theorem onward_expect (text context : String) : reading.Onward (reading.expect text context) :=
  (reading.proceeds_expect text context).onward

end Reading

namespace Parser

open Reading Transcode.Span

variable (reading : Reading)

theorem proceeds_giveUp (message : String) {span : Span} (splits : span.Splits reading.rest) :
    reading.Proceeds (giveUp message span reading).2 :=
  (reading.proceeds_pass splits).trans (proceeds_report _ _ _)

theorem proceeds_recover (message : String) : reading.Proceeds (recover message reading).2 :=
  proceeds_giveUp reading message (splits_recovery 0 _)

/-- Angle brackets are passed as a whole, and reported if they are not closed. -/
theorem proceeds_angleGroup : reading.Proceeds (angleGroup reading).2 := by
  unfold angleGroup
  have passed := reading.proceeds_pass (splits_angles 0 _)
  dsimp only
  split
  · exact passed
  · exact passed.trans (proceeds_report _ _ _)

/-- Angles where there are some. -/
theorem proceeds_angles :
    reading.Proceeds (if reading.sees "<" then angleGroup reading else ([], reading)).2 := by
  split
  · exact proceeds_angleGroup reading
  · exact .refl reading

/-- Round brackets are passed as a whole, and reported if they are missing or not closed. -/
theorem proceeds_roundGroup : reading.Proceeds (roundGroup reading).2.2 := by
  unfold roundGroup
  split
  · dsimp only
    split
    · have inside := reading.proceeds_next.trans (reading.next.proceeds_pass (splits_group 0 _))
      split
      · exact inside.trans (proceeds_next _)
      · exact inside.trans (proceeds_report _ _ _)
    · exact reading.proceeds_reportMissing _ _
  · exact reading.proceeds_reportMissing _ _

/-- A type is passed with its qualifiers, arguments and marks. -/
theorem proceeds_typeText : reading.Proceeds (typeText reading).2 := by
  unfold typeText
  split
  · exact .refl reading
  · rename_i head rest there
    split
    · exact .refl reading
    · have named : reading.Proceeds (reading.next.pass (qualifiers rest)) := by
        refine reading.proceeds_next.trans (proceeds_pass _ ?_)
        rw [next, there]
        exact splits_qualifiers rest
      refine named.trans ((proceeds_angles _).trans ?_)
      exact (proceeds_pass _ (splits_arrayMarks _)).trans (proceeds_skip _ _)

/-- Types between commas are passed one by one. -/
theorem proceeds_typesWithin (fuel : Nat) : reading.Proceeds (typesWithin fuel reading).2 := by
  fun_induction typesWithin fuel reading with
  | case1 reading => exact .refl reading
  | case2 _ reading after read =>
    have first := proceeds_typeText reading
    rwa [read] at first
  | case3 _ reading type after read _ types left more ih =>
    have first := proceeds_typeText reading
    rw [read] at first
    rw [more] at ih
    exact first.trans (after.proceeds_next.trans ih)
  | case4 _ reading type after read =>
    have first := proceeds_typeText reading
    rwa [read] at first

/-- A list of types is passed type by type. -/
theorem proceeds_typeList : reading.Proceeds (typeList reading).2 := by
  unfold typeList
  have types := proceeds_typesWithin reading (reading.rest.length + 1)
  dsimp only
  split
  · exact types.trans (proceeds_report _ _ _)
  · exact types

/-- After its sign an annotation goes on. -/
theorem proceeds_next_annotationTag : reading.next.Proceeds (annotationTag reading).2 := by
  unfold annotationTag
  dsimp only
  refine Proceeds.trans (proceeds_pass _ (splits_dottedNames _)) ?_
  split
  · exact proceeds_roundGroup _
  · exact .refl _

theorem proceeds_annotationTag : reading.Proceeds (annotationTag reading).2 :=
  reading.proceeds_next.trans (proceeds_next_annotationTag reading)

/-- Modifiers and annotations are passed one by one. -/
theorem proceeds_preambleWithin (fuel : Nat) :
    reading.Proceeds (preambleWithin fuel reading).2 := by
  induction fuel generalizing reading with
  | zero => exact .refl reading
  | succ fuel ih =>
      unfold preambleWithin
      split
      · exact .refl reading
      · split
        · have first := proceeds_annotationTag reading
          exact first.trans (ih _)
        · split
          · exact reading.proceeds_next.trans (ih _)
          · exact .refl reading

theorem proceeds_preamble : reading.Proceeds (preamble reading).2 :=
  proceeds_preambleWithin reading _

/-! ### Statements -/

/-- A plain statement has its first token, unless that is a bracket that closes nothing. -/
theorem exists_taken_plainStatement (endsWithBlock : Bool) {head : Token} (opens : ¬head.closes)
    (rest : List Token) : ∃ others,
      (Span.plainStatement endsWithBlock 0 (head :: rest)).taken = head :: others := by
  by_cases isEnd : head.is ";"
  · exact ⟨[], by simp [Span.plainStatement, isEnd, ending]⟩
  · have goesOn : ¬((decide (0 = 0) && head.is ";") = true) := by simpa using isEnd
    rw [Span.plainStatement, if_neg goesOn, if_neg opens]
    split <;> exact ⟨_, rfl⟩

/-- A plain statement is passed with its last token, and reported if that is missing. -/
theorem proceeds_plainStatement (head : Token) :
    reading.Proceeds (plainStatement head reading).2 := by
  unfold plainStatement
  split
  · exact reading.proceeds_next.trans (proceeds_report _ _ _)
  · have passed := reading.proceeds_pass (splits_plainStatement
      (blockStatementWords.contains head.text) 0 _)
    dsimp only
    split
    · exact passed
    · exact passed.trans (proceeds_report _ _ _)

/-- The header of a loop has been passed, and is reported if it is malformed. -/
theorem proceeds_forNode (header : List Token) (start : Position) :
    reading.Proceeds (forNode header start reading).2 := by
  unfold forNode
  dsimp only
  split
  · exact .refl reading
  · exact reading.proceeds_report _ _

mutual

/-- A block is passed with its statements. -/
theorem proceeds_blockWithin : ∀ (fuel : Nat) (reading : Reading),
    reading.Proceeds (blockWithin fuel reading).2
  | 0, reading => by
    unfold blockWithin
    exact .refl reading
  | fuel + 1, reading => by
    unfold blockWithin
    exact (reading.proceeds_expect _ _).trans (proceeds_statementsWithin fuel _ _)

/-- Statements are passed until their brace closes. -/
theorem proceeds_statementsWithin : ∀ (fuel : Nat) (opening : SourceRange) (reading : Reading),
    reading.Proceeds (statementsWithin fuel opening reading).2
  | 0, _, reading => by
    unfold statementsWithin
    exact .refl reading
  | fuel + 1, opening, reading => by
    unfold statementsWithin
    split
    · exact reading.proceeds_report _ _
    · split
      · exact reading.proceeds_next
      · exact (proceeds_statementWithin fuel reading).trans
          (proceeds_statementsWithin fuel opening _)

/-- A statement is passed with those inside it. -/
theorem proceeds_statementWithin : ∀ (fuel : Nat) (reading : Reading),
    reading.Proceeds (statementWithin fuel reading).2
  | 0, reading => by
    unfold statementWithin
    exact .refl reading
  | fuel + 1, reading => by
    have governed (start : Position) :
        reading.Proceeds (bodyWithin fuel start (roundGroup reading.next).2.2).2 :=
      (reading.proceeds_next.trans (proceeds_roundGroup _)).trans (proceeds_bodyWithin fuel start _)
    unfold statementWithin
    dsimp only
    split
    · exact .refl reading
    · split
      · exact (reading.proceeds_next.trans (proceeds_next _)).trans (proceeds_bodyWithin fuel _ _)
      · split
        · exact reading.proceeds_next
        · split
          · exact proceeds_blockWithin fuel reading
          · split
            · split
              · exact (governed _).trans ((proceeds_next _).trans (proceeds_bodyWithin fuel _ _))
              · exact governed _
            · split
              · exact (reading.proceeds_next.trans (proceeds_roundGroup _)).trans
                  ((proceeds_forNode _ _ _).trans (proceeds_bodyWithin fuel _ _))
              · split
                · exact governed _
                · split
                  · refine reading.proceeds_next.trans
                      ((proceeds_bodyWithin fuel reading.start _).trans ?_)
                    exact ((proceeds_expect _ _ _).trans (proceeds_roundGroup _)).trans
                      (proceeds_expect _ _ _)
                  · exact proceeds_plainStatement reading _

/-- A body is passed, be it a block or one statement. -/
theorem proceeds_bodyWithin : ∀ (fuel : Nat) (start : Position) (reading : Reading),
    reading.Proceeds (bodyWithin fuel start reading).2
  | 0, _, reading => by
    unfold bodyWithin
    exact .refl reading
  | fuel + 1, start, reading => by
    have read := proceeds_statementWithin fuel reading
    unfold bodyWithin
    split
    · exact reading.proceeds_report _ _
    · split <;> rename_i there <;> rwa [there] at read

end

theorem proceeds_block : reading.Proceeds (block reading).2 := proceeds_blockWithin _ reading

/-! ### Members -/

theorem proceeds_heritage (word : String) : reading.Proceeds (heritage word reading).2 := by
  unfold heritage
  split
  · exact reading.proceeds_next.trans (proceeds_typeList _)
  · exact .refl reading

theorem proceeds_parameter : reading.Proceeds (parameter reading).2 := by
  have malformed (start : Position) (reading : Reading) :
      reading.Proceeds (parametersWithin.malformed start reading).2 :=
    (reading.proceeds_pass (splits_upTo _ _)).trans (proceeds_report _ _ _)
  refine ((proceeds_preamble reading).trans (proceeds_typeText _)).trans ?_
  unfold parameter
  dsimp only
  split
  · split
    · exact (proceeds_next _).trans (proceeds_pass _ (splits_arrayMarks _))
    · exact malformed _ _
  · exact malformed _ _

/-- Parameters are passed one by one. -/
theorem proceeds_parametersWithin (fuel : Nat) :
    reading.Proceeds (parametersWithin fuel reading).2 := by
  induction fuel generalizing reading with
  | zero => exact .refl reading
  | succ fuel ih =>
      rw [parametersWithin_succ]
      split
      · exact .refl reading
      · split
        · exact ((proceeds_parameter reading).trans (proceeds_next _)).trans (ih _)
        · exact proceeds_parameter reading

theorem proceeds_methodParameters : reading.Proceeds (methodParameters reading).2 :=
  (reading.proceeds_expect _ _).trans (proceeds_parametersWithin _ _)

theorem proceeds_afterParameters : reading.Proceeds (afterParameters reading) :=
  (proceeds_methodParameters reading).trans
    ((proceeds_expect _ _ _).trans (proceeds_pass _ (splits_arrayMarks _)))

theorem proceeds_thrownTypes : reading.Proceeds (thrownTypes reading).2 :=
  (proceeds_afterParameters reading).trans (proceeds_heritage _ _)

theorem proceeds_methodBody : reading.Proceeds (methodBody reading).2 := by
  unfold methodBody
  split
  · exact proceeds_block reading
  · split
    · exact reading.proceeds_next.trans (proceeds_recover _ _)
    · split
      · exact reading.proceeds_next
      · exact proceeds_recover reading _

theorem proceeds_methodRest (method : SyntaxTree) :
    reading.Proceeds (methodRest method reading).2 := by
  rw [methodRest_eq]
  exact (proceeds_thrownTypes reading).trans (proceeds_methodBody _)

theorem proceeds_initialValue : reading.Proceeds (initialValue reading).2 := by
  refine (reading.proceeds_pass (splits_arrayMarks _)).trans ?_
  unfold initialValue
  dsimp only
  split
  · exact (proceeds_next _).trans (proceeds_pass _ (splits_initializer 0 _))
  · exact .refl _

/-- Declarators of a field are passed one by one. -/
theorem proceeds_fieldsWithin (preamble : Preamble) (type : String) (fuel : Nat) (name : Token) :
    reading.Proceeds (fieldsWithin preamble type fuel name reading).2 := by
  have initial := proceeds_initialValue
  fun_induction fieldsWithin preamble type fuel name reading with
  | case1 _ reading => exact .refl reading
  | case2 _ _ _ _ _ _ _ _ read _ _ _ _ _ _ _ _ _ readOthers ih =>
    exact ((initial _).of_eq read).trans ((proceeds_next _).trans ((proceeds_next _).trans
      (ih.of_eq readOthers)))
  | case3 _ _ _ _ _ _ _ _ read =>
    exact ((initial _).of_eq read).trans ((proceeds_next _).trans (proceeds_report _ _ _))
  | case4 _ _ _ _ _ _ _ _ read =>
    exact ((initial _).of_eq read).trans ((proceeds_next _).trans (proceeds_report _ _ _))
  | case5 _ _ _ _ _ _ _ _ read => exact (initial _).of_eq read

/-- A member is passed from its type on. -/
theorem proceeds_typedMember (owner : String) (preamble : Preamble) (typeParams : List Token)
    (start : Position) :
    reading.Proceeds (typedMember owner preamble typeParams start reading).2 := by
  fun_cases typedMember owner preamble typeParams start reading with
  | case1 =>
    refine reading.proceeds_next.trans ?_
    exact proceeds_methodRest _ { kind := .constructor, name := some owner, range := reading.here }
  | case2 _ after typed =>
    exact ((proceeds_typeText reading).of_eq typed).trans (proceeds_recover after _)
  | case3 _ _ after typed =>
    exact ((proceeds_typeText reading).of_eq typed).trans (proceeds_recover after _)
  | case4 _ _ after typed =>
    exact ((proceeds_typeText reading).of_eq typed).trans (proceeds_recover after _)
  | case5 _ _ type after typed _ _ _ _ _ node =>
    refine ((proceeds_typeText reading).of_eq typed).trans (after.proceeds_next.trans ?_)
    exact proceeds_methodRest _ (node.put "returnType" type)
  | case6 _ _ after typed _ _ _ _ _ _ _ fields =>
    refine ((proceeds_typeText reading).of_eq typed).trans (after.proceeds_next.trans ?_)
    exact ((proceeds_fieldsWithin _ _ _ _ _).of_eq fields).trans (proceeds_expect _ _ _)

theorem proceeds_plainMember (owner : String) (preamble : Preamble) (start : Position) :
    reading.Proceeds (plainMember owner preamble start reading).2 := by
  rw [plainMember_eq]
  exact (proceeds_angles reading).trans (proceeds_typedMember _ owner preamble _ start)

theorem proceeds_typeHeader (node : SyntaxTree) : reading.Proceeds (typeHeader node reading).2 :=
  (proceeds_angles reading).trans
    ((proceeds_heritage _ _).trans ((proceeds_heritage _ _).trans (proceeds_heritage _ _)))

mutual

/-- A member is passed with those inside it. -/
theorem proceeds_memberWithin : ∀ (fuel : Nat) (owner? : Option String) (reading : Reading),
    reading.Proceeds (memberWithin fuel owner? reading).2
  | 0, _, reading => by
    unfold memberWithin
    exact .refl reading
  | fuel + 1, owner?, reading => by
    have unsupported (message : String) (reading : Reading) :
        reading.Proceeds (giveUp message (.declaration reading.rest) reading).2 :=
      proceeds_giveUp reading message (splits_declaration _)
    unfold memberWithin
    refine (proceeds_preamble reading).trans ?_
    dsimp only
    split
    · exact (proceeds_next _).trans (proceeds_typeWithin fuel _ _ _ _)
    · split
      · exact (proceeds_next _).trans (proceeds_typeWithin fuel _ _ _ _)
      · split
        · exact unsupported _ _
        · split
          · exact unsupported _ _
          · split
            · exact unsupported _ _
            · split
              · exact proceeds_recover _ _
              · split
                · exact proceeds_block _
                · exact proceeds_plainMember _ _ _ _

/-- A type declaration is passed with its members. -/
theorem proceeds_typeWithin : ∀ (fuel : Nat) (kind : SyntaxKind) (word : String) (start : Position)
    (reading : Reading), reading.Proceeds (typeWithin fuel kind word start reading).2
  | 0, _, _, _, reading => by
    unfold typeWithin
    exact .refl reading
  | fuel + 1, kind, word, start, reading => by
    unfold typeWithin
    split
    · exact proceeds_recover _ _
    · rename_i name _ _
      have header := proceeds_typeHeader reading.next
        { kind, name := some name.text, range := name.range }
      split
      · exact proceeds_recover _ _
      · refine (reading.proceeds_next.trans header).trans ?_
        dsimp only
        split
        · exact (proceeds_next _).trans (proceeds_membersWithin fuel _ _ _ _)
        · exact (proceeds_reportMissing _ _ _).trans (proceeds_recover _ _)

/-- Members are passed until their brace closes. -/
theorem proceeds_membersWithin : ∀ (fuel : Nat) (owner word : String) (header : SourceRange)
    (reading : Reading), reading.Proceeds (membersWithin fuel owner word header reading).2
  | 0, _, _, _, reading => by
    unfold membersWithin
    exact .refl reading
  | fuel + 1, owner, word, header, reading => by
    unfold membersWithin
    split
    · exact reading.proceeds_report _ _
    · split
      · exact reading.proceeds_next
      · split
        · exact reading.proceeds_next.trans (proceeds_membersWithin fuel _ _ _ _)
        · exact (proceeds_memberWithin fuel _ reading).trans (proceeds_membersWithin fuel _ _ _ _)

end

theorem proceeds_headerDeclaration (kind : SyntaxKind) :
    reading.Proceeds (headerDeclaration kind reading).2 :=
  reading.proceeds_next.trans ((proceeds_pass _ (splits_upTo _ _)).trans (proceeds_expect _ _ _))

theorem proceeds_declaration : reading.Proceeds (declaration reading).2 := by
  unfold declaration
  split
  · exact proceeds_headerDeclaration reading _
  split
  · exact proceeds_headerDeclaration reading _
  split
  · exact reading.proceeds_next.trans (proceeds_report _ _ _)
  · exact proceeds_memberWithin _ _ _

/-- The declarations of a text are passed one by one. -/
theorem proceeds_declarationsWithin (bound : Nat) :
    reading.Proceeds (declarationsWithin bound reading).2 := by
  induction bound generalizing reading with
  | zero => exact .refl reading
  | succ bound ih =>
      rw [declarationsWithin_succ]
      split
      · exact .refl reading
      split
      · exact reading.proceeds_next.trans (ih _)
      · exact (proceeds_declaration reading).trans (ih _)

end Parser

end Transcode
