import Transcode.Proofs.Brackets
import Transcode.Proofs.Following
import Transcode.Proofs.Outcome

/-!
# Braces of a text without problems

What the parser reads without a problem is balanced in its braces, function by function and in the
order of the parser. Types, groups and initial values leave the braces as they are
(`Reading.Settles`); blocks and bodies read on until the brace that closes them
(`Reading.Finishes`). Groups count all sorts of brackets by one depth, so this needs that no bracket
is closed by one of the other sort (`braces_balanced`): else a brace that closes is accepted as the
end of a round bracket (`unbalanced_brace_accepted`).
-/

namespace Transcode

namespace Reading

open Token

/-- A later reading is reached, and without a problem only if the braces between the two are
balanced: tokens that close some braces close as many with those between in front. Nothing is said
where the text has ended, since type parameters and initial values may go on up to its end. -/
structure Settles (before after : Reading) : Prop where
  proceeds : before.Proceeds after
  keeps : after.Live → Tidy before.rest → ∀ depth, Closes depth after.rest →
    Closes depth before.rest

/-- A later reading is reached, and without a problem, be it at the end of the text, only if there
was something to read and what is between the two closes a given number of scopes that were open,
and what it opens itself. -/
structure Finishes (closing : Nat) (before after : Reading) : Prop where
  proceeds : before.Proceeds after
  filled : after.problems = [] → before.rest ≠ []
  keeps : after.problems = [] → Tidy before.rest → ∀ depth, Closes depth after.rest →
    Closes (depth + closing) before.rest

variable {before between after : Reading}

theorem Settles.refl (reading : Reading) : reading.Settles reading :=
  ⟨.refl reading, fun _ _ _ closes => closes⟩

/-- What is balanced part by part is balanced. -/
theorem Settles.trans (first : before.Settles between) (second : between.Settles after) :
    before.Settles after where
  proceeds := first.proceeds.trans second.proceeds
  keeps := fun live tidy depth closes => first.keeps (second.proceeds.live live) tidy depth
    (second.keeps live (tidy.suffix first.proceeds.onward) depth closes)

/-- Where a result is known, so is the reading that comes with it. -/
theorem Settles.of_eq {α : Type} {result : α × Reading} {value : α}
    (settles : before.Settles result.2) (is : result = (value, after)) : before.Settles after := by
  rwa [is] at settles

theorem Finishes.settles (finishes : before.Finishes 0 after) : before.Settles after :=
  ⟨finishes.proceeds, fun live => finishes.keeps live.1⟩

/-- Where a result is known, so is the reading that comes with it. -/
theorem Finishes.of_eq {α : Type} {closing : Nat} {result : α × Reading} {value : α}
    (finishes : before.Finishes closing result.2) (is : result = (value, after)) :
    before.Finishes closing after := by
  rwa [is] at finishes

/-- Something balanced may come before what closes scopes. -/
theorem Settles.finishes {closing : Nat} (first : before.Settles between)
    (second : between.Finishes closing after) : before.Finishes closing after := by
  have live (clean : after.problems = []) : between.Live :=
    ⟨second.proceeds.clean clean, second.filled clean⟩
  refine ⟨first.proceeds.trans second.proceeds, fun clean => ?_, fun clean tidy depth closes => ?_⟩
  · exact (first.proceeds.live (live clean)).2
  · exact first.keeps (live clean) tidy _
      (second.keeps clean (tidy.suffix first.proceeds.onward) depth closes)

/-- Only tidy tokens matter, so what is shown may use that they are. -/
theorem Finishes.of_tidy {closing : Nat} (proceeds : before.Proceeds after)
    (filled : before.rest ≠ []) (finishes : Tidy before.rest → before.Finishes closing after) :
    before.Finishes closing after :=
  ⟨proceeds, fun _ => filled, fun clean tidy => (finishes tidy).keeps clean tidy⟩

theorem Proceeds.settles (proceeds : before.Proceeds after) (faulty : ¬after.Live) :
    before.Settles after := ⟨proceeds, fun live => absurd live faulty⟩

/-- Nothing is promised of a reading that is reached with a problem. -/
theorem Proceeds.finishes {closing : Nat} (proceeds : before.Proceeds after)
    (faulty : after.problems ≠ []) : before.Finishes closing after :=
  ⟨proceeds, fun clean => absurd clean faulty, fun clean => absurd clean faulty⟩

variable (reading : Reading)

theorem finishes_report (closing : Nat) (message : String) (range : SourceRange) :
    reading.Finishes closing (reading.report message range) :=
  (reading.proceeds_report message range).finishes (List.cons_ne_nil _ _)

/-- Nothing is promised once a problem is reported, nor need scopes be kept. -/
theorem settles_report (message : String) (range : SourceRange) :
    reading.Settles (reading.report message range) :=
  (reading.proceeds_report message range).settles (not_live_report _ _ _)

/-- A stretch without braces leaves them as they are. -/
theorem settles_pass {span : Span} (splits : span.Splits reading.rest)
    (plain : Tidy reading.rest → ∀ token ∈ span.taken, token.isBrace = false) :
    reading.Settles (reading.pass span) where
  proceeds := reading.proceeds_pass splits
  keeps := fun _ tidy _ closes => by
    rw [← show span.taken ++ span.rest = reading.rest from splits]
    exact (closes_append_plain (plain tidy)).mpr closes

/-- A token that is no brace leaves the scopes as they are. -/
theorem settles_next {head : Token} {rest : List Token} (there : reading.rest = head :: rest)
    (plain : Tidy reading.rest → head.isBrace = false) : reading.Settles reading.next where
  proceeds := reading.proceeds_next
  keeps := fun _ tidy _ closes => by
    rw [next, there] at closes
    rw [there]
    exact (closes_cons_plain (plain tidy)).mpr closes

/-- A token that is seen and is no brace leaves the scopes as they are. -/
theorem settles_next_of_sees {text : String} (sees : reading.sees text)
    (plain : text ∉ ["\x7b", "\x7d"]) : reading.Settles reading.next := by
  obtain ⟨token, rest, there, is⟩ := exists_rest_of_sees sees
  exact reading.settles_next there fun _ => isBrace_of_is is plain

/-- A token that may be there and is no brace leaves the scopes as they are. -/
theorem settles_skip {text : String} (plain : text ∉ ["\x7b", "\x7d"]) :
    reading.Settles (reading.skip text) := by
  unfold skip
  split
  · exact reading.settles_next_of_sees ‹_› plain
  · exact .refl reading

/-- A token that is seen and is no brace is something that was read. -/
theorem finishes_next_of_sees {text : String} (sees : reading.sees text)
    (plain : text ∉ ["\x7b", "\x7d"]) : reading.Finishes 0 reading.next where
  proceeds := reading.proceeds_next
  filled := fun _ => mt done_iff.mpr (not_done_of_sees sees)
  keeps := fun _ _ depth closes => by
    obtain ⟨token, rest, there, is⟩ := exists_rest_of_sees sees
    rw [next, there] at closes
    rw [there]
    exact (closes_cons_plain (isBrace_of_is is plain)).mpr closes

/-- A token that has to be there and is no brace was read or is reported. -/
theorem finishes_expect {text : String} (context : String) (plain : text ∉ ["\x7b", "\x7d"]) :
    reading.Finishes 0 (reading.expect text context) := by
  unfold expect
  split
  · exact reading.finishes_next_of_sees ‹_› plain
  · exact reading.finishes_report _ _ _

theorem settles_expect {text : String} (context : String) (plain : text ∉ ["\x7b", "\x7d"]) :
    reading.Settles (reading.expect text context) := (reading.finishes_expect context plain).settles

/-- A brace that closes ends a scope. -/
theorem finishes_close (sees : reading.sees "\x7d") : reading.Finishes 1 reading.next where
  proceeds := reading.proceeds_next
  filled := fun _ => mt done_iff.mpr (not_done_of_sees sees)
  keeps := fun _ _ depth closes => by
    obtain ⟨token, rest, there, is⟩ := exists_rest_of_sees sees
    rw [next, there] at closes
    rw [there]
    exact (closes_cons_close is).mpr closes

/-- A brace that opens is closed by what ends its scope. -/
theorem finishes_open (sees : reading.sees "\x7b") (inside : reading.next.Finishes 1 after) :
    reading.Finishes 0 after where
  proceeds := reading.proceeds_next.trans inside.proceeds
  filled := fun _ => mt done_iff.mpr (not_done_of_sees sees)
  keeps := fun clean tidy depth closes => by
    have scope := inside.keeps clean (tidy.suffix reading.onward_next) depth closes
    obtain ⟨token, rest, there, is⟩ := exists_rest_of_sees sees
    rw [next, there] at scope
    rw [there]
    exact (closes_cons_open is).mpr scope

/-- A brace that has to be there opens a scope for what comes behind it. -/
theorem finishes_expect_open (context : String)
    (inside : (reading.expect "\x7b" context).Finishes 1 after) : reading.Finishes 0 after := by
  by_cases sees : reading.sees "\x7b"
  · rw [expect_of_sees sees] at inside
    exact finishes_open reading sees inside
  · refine ((reading.proceeds_expect _ _).trans inside.proceeds).finishes fun clean => ?_
    exact sees (sees_of_expect_clean (inside.proceeds.clean clean))

end Reading

namespace Parser

open Reading Token Transcode.Span

variable (reading : Reading)

/-! ### Groups -/

/-- Type parameters have no braces, or are reported. -/
theorem settles_typeParameters : reading.Settles (typeParameters reading).2 := by
  unfold typeParameters
  split
  · rename_i opens
    unfold angleGroup
    dsimp only
    have passed := reading.proceeds_pass (splits_angles 0 reading.rest)
    split
    · rename_i ends
      refine ⟨passed, fun live => ?_⟩
      have closed : (angles 0 reading.rest).closed :=
        (Bool.or_eq_true_iff.mp ends).resolve_right fun none => live.2 (done_iff.mp none)
      exact (reading.settles_pass (splits_angles 0 _)
        fun tidy => plain_angles tidy opens closed).keeps live
    · exact (passed.trans (proceeds_report _ _ _)).settles (not_live_report _ _ _)
  · exact .refl reading

theorem settles_group : reading.Settles (reading.pass (group 0 reading.rest)) :=
  ⟨reading.proceeds_pass (splits_group 0 _), fun live tidy _ closes =>
    tidy.closes_of_scans (scans_group live.2) closes⟩

/-- Round brackets close the braces that are opened in them. -/
theorem settles_roundGroup : reading.Settles (roundGroup reading).2.2 := by
  unfold roundGroup
  split
  · rename_i opening rest there
    dsimp only
    split
    · have inside := (reading.settles_next there fun _ => isBrace_of_is ‹_› (by decide)).trans
        (settles_group reading.next)
      split
      · exact inside.trans (settles_next_of_sees _ ‹_› (by decide))
      · exact inside.trans (settles_report _ _ _)
    · exact reading.settles_report _ _
  · exact reading.settles_report _ _

theorem settles_initializer : reading.Settles (reading.pass (initializer 0 reading.rest)) :=
  ⟨reading.proceeds_pass (splits_initializer 0 _), fun live tidy _ closes =>
    tidy.closes_of_scans (scans_initializer live.2) closes⟩

theorem settles_marks : reading.Settles (reading.pass (Span.arrayMarks reading.rest)) :=
  reading.settles_pass (splits_arrayMarks _) fun _ => plain_arrayMarks

/-! ### Types, modifiers and annotations -/

/-- A type has no braces. -/
theorem settles_typeText : reading.Settles (typeText reading).2 := by
  unfold typeText
  split
  · exact .refl reading
  · rename_i head rest there
    split
    · exact .refl reading
    · rename_i starts
      have isWord : head.isIdent := by
        by_contra other
        exact starts (by simp [other])
      have left : reading.next.rest = rest := by rw [next, there]
      have first := reading.settles_next there fun tidy =>
        tidy.words head (there ▸ List.mem_cons_self) isWord
      have names : reading.next.Settles (reading.next.pass (qualifiers rest)) := by
        refine reading.next.settles_pass ?_ fun tidy => ?_
        · rw [left]
          exact splits_qualifiers rest
        · rw [left] at tidy
          exact plain_qualifiers tidy
      refine first.trans (names.trans ((settles_typeParameters _).trans ?_))
      exact (settles_marks _).trans (settles_skip _ (by decide))

/-- Types between commas have no braces. -/
theorem settles_typesWithin (fuel : Nat) : reading.Settles (typesWithin fuel reading).2 := by
  fun_induction typesWithin fuel reading with
  | case1 reading => exact .refl reading
  | case2 _ reading after read => exact (settles_typeText reading).of_eq read
  | case3 _ reading type after read comma types left more ih =>
    exact ((settles_typeText reading).of_eq read).trans
      ((after.settles_next_of_sees comma (by decide)).trans (ih.of_eq more))
  | case4 _ reading type after read => exact (settles_typeText reading).of_eq read

/-- A list of types has no braces. -/
theorem settles_typeList : reading.Settles (typeList reading).2 := by
  unfold typeList
  have types := settles_typesWithin reading (reading.rest.length + 1)
  dsimp only
  split
  · exact types.trans (settles_report _ _ _)
  · exact types

/-- What a type extends or implements has no braces. -/
theorem settles_heritage {word : String} (plain : word ∉ ["\x7b", "\x7d"]) :
    reading.Settles (heritage word reading).2 := by
  unfold heritage
  split
  · exact (reading.settles_next_of_sees ‹_› plain).trans (settles_typeList _)
  · exact .refl reading

/-- The arguments of an annotation close the braces that they open. -/
theorem settles_annotationGroup (sees : reading.sees "@") :
    reading.Settles (annotationTag reading).2 := by
  unfold annotationTag
  dsimp only
  refine (reading.settles_next_of_sees sees (by decide)).trans (Settles.trans
    (settles_pass _ (splits_dottedNames _) plain_dottedNames) ?_)
  split
  · exact settles_roundGroup _
  · exact .refl _

/-- Modifiers and annotations close the braces that they open. -/
theorem settles_preambleWithin (fuel : Nat) : reading.Settles (preambleWithin fuel reading).2 := by
  induction fuel generalizing reading with
  | zero => exact .refl reading
  | succ fuel ih =>
      unfold preambleWithin
      split
      · exact .refl reading
      · rename_i token rest there
        split
        · rename_i annotated
          exact (settles_annotationGroup reading
            (Call.sees_of_head there (Bool.and_eq_true_iff.mp annotated).1)).trans (ih _)
        · split
          · rename_i modifies
            exact (reading.settles_next there fun tidy => tidy.words token
              (there ▸ List.mem_cons_self) (Bool.and_eq_true_iff.mp modifies).1).trans (ih _)
          · exact .refl reading

theorem settles_preamble : reading.Settles (preamble reading).2 := settles_preambleWithin reading _

/-! ### Statements -/

/-- Giving up is a problem, so nothing is promised. -/
theorem finishes_giveUp (closing : Nat) (message : String) {span : Span}
    (splits : span.Splits reading.rest) :
    reading.Finishes closing (giveUp message span reading).2 :=
  (proceeds_giveUp reading message splits).finishes (List.cons_ne_nil _ _)

theorem finishes_recover (closing : Nat) (message : String) :
    reading.Finishes closing (recover message reading).2 :=
  finishes_giveUp reading closing message (splits_recovery 0 _)

/-- A plain statement closes the braces that it opens and has a last token. -/
theorem finishes_plainStatement {head : Token} {rest : List Token}
    (there : reading.rest = head :: rest) :
    reading.Finishes 0 (plainStatement head reading).2 := by
  have proceeds := proceeds_plainStatement reading head
  unfold plainStatement at proceeds ⊢
  split
  · rename_i stray
    rw [if_pos stray] at proceeds
    exact proceeds.finishes (List.cons_ne_nil _ _)
  rename_i opens
  rw [if_neg opens] at proceeds
  dsimp only at proceeds ⊢
  split
  · rename_i closed
    rw [if_pos closed] at proceeds
    exact ⟨proceeds, fun _ => there ▸ List.cons_ne_nil _ _, fun _ tidy _ closes =>
      tidy.closes_of_scans (scans_plainStatement closed) closes⟩
  · rename_i missing
    rw [if_neg missing] at proceeds
    exact proceeds.finishes (List.cons_ne_nil _ _)

/-- The header of a loop has been read, and nothing more is. -/
theorem settles_forNode (header : List Token) (start : Position) :
    reading.Settles (forNode header start reading).2 := by
  unfold forNode
  dsimp only
  split
  · exact .refl reading
  · exact reading.settles_report _ _

mutual

/-- A block closes the brace that it opens. -/
theorem finishes_blockWithin : ∀ (bound : Nat) (reading : Reading),
    Call.Suffices ⟨bound, .block, reading⟩ → reading.Finishes 0 (blockWithin bound reading).2
  | 0, _, enough => absurd (Call.bound_pos enough) (Nat.lt_irrefl 0)
  | bound + 1, reading, enough => by
    unfold blockWithin
    exact finishes_expect_open reading _
      (finishes_statementsWithin bound _ _ (Call.Calls.statements.suffices enough))

/-- Statements are read up to the brace that closes their scope. -/
theorem finishes_statementsWithin : ∀ (bound : Nat) (opening : SourceRange) (reading : Reading),
    Call.Suffices ⟨bound, .statements opening, reading⟩ →
      reading.Finishes 1 (statementsWithin bound opening reading).2
  | 0, _, _, enough => absurd (Call.bound_pos enough) (Nat.lt_irrefl 0)
  | bound + 1, opening, reading, enough => by
    unfold statementsWithin
    split
    · exact reading.finishes_report _ _ _
    split
    · exact reading.finishes_close ‹_›
    · have first := finishes_statementWithin bound reading ‹_›
        (Call.Calls.suffices (.statement ‹_› ‹_›) enough)
      exact first.settles.finishes (finishes_statementsWithin bound opening _
        (Call.Calls.suffices (.laterStatements ‹_› ‹_›) enough))

/-- A statement closes the braces that it opens. -/
theorem finishes_statementWithin : ∀ (bound : Nat) (reading : Reading), ¬reading.done →
    Call.Suffices ⟨bound, .statement, reading⟩ →
      reading.Finishes 0 (statementWithin bound reading).2
  | 0, _, _, enough => absurd (Call.bound_pos enough) (Nat.lt_irrefl 0)
  | bound + 1, reading, more, enough => by
    cases there : reading.rest with
    | nil => exact absurd (done_iff.mpr there) more
    | cons head rest =>
        have sees {text : String} (is : head.is text) : reading.sees text :=
          Call.sees_of_head there is
        have past {text : String} (is : head.is text) (plain : text ∉ ["\x7b", "\x7d"]) :=
          reading.settles_next_of_sees (sees is) plain
        have governed (is : reading.sees "if" ∨ reading.sees "while") :=
          finishes_bodyWithin bound reading.start (roundGroup reading.next).2.2
            (Call.Calls.suffices (.governed is) enough)
        have group := settles_roundGroup reading.next
        unfold statementWithin
        simp only [there]
        split
        · rename_i label
          obtain ⟨name, colon⟩ := Bool.and_eq_true_iff.mp label
          have named := reading.settles_next there fun tidy =>
            tidy.isBrace_of_isName (there ▸ List.mem_cons_self) name
          have colonNext : reading.next.sees ":" := by
            rw [next, there]
            simpa [thenSees, there, Reading.sees] using colon
          have marked := reading.next.settles_next_of_sees colonNext (by decide)
          exact (named.trans marked).finishes (finishes_bodyWithin bound _ _
            (Call.Calls.suffices (.labelled more) enough))
        split
        · exact reading.finishes_next_of_sees (sees ‹_›) (by decide)
        split
        · exact finishes_blockWithin bound reading
            (Call.Calls.suffices (.innerBlock (sees ‹_›)) enough)
        split
        · have consequence := ((past ‹_› (by decide)).trans group).finishes
            (governed (.inl (sees ‹_›)))
          split
          · have word := settles_next_of_sees _ ‹_› (by decide)
            exact (consequence.settles.trans word).finishes (finishes_bodyWithin bound _ _
              (Call.Calls.suffices (.alternative (sees ‹_›) rfl ‹_›) enough))
          · exact consequence
        split
        · have header := settles_forNode (roundGroup reading.next).2.2
            (roundGroup reading.next).1 reading.start
          exact ((past ‹_› (by decide)).trans (group.trans header)).finishes
            (finishes_bodyWithin bound _ _ (Call.Calls.suffices (.forBody (sees ‹_›)) enough))
        split
        · exact ((past ‹_› (by decide)).trans group).finishes (governed (.inr (sees ‹_›)))
        split
        · have body := finishes_bodyWithin bound reading.start reading.next
            (Call.Calls.suffices (.doBody (sees ‹_›)) enough)
          have word : (bodyWithin bound reading.start reading.next).2.Settles
              ((bodyWithin bound reading.start reading.next).2.expect "while" "after do body") :=
            settles_expect _ _ (by decide)
          have condition := settles_roundGroup
            ((bodyWithin bound reading.start reading.next).2.expect "while" "after do body")
          exact ((past ‹_› (by decide)).trans (body.settles.trans (word.trans condition))).finishes
            (finishes_expect _ _ (by decide))
        · exact finishes_plainStatement reading there

/-- A body closes the braces that it opens. -/
theorem finishes_bodyWithin : ∀ (bound : Nat) (start : Position) (reading : Reading),
    Call.Suffices ⟨bound, .body start, reading⟩ →
      reading.Finishes 0 (bodyWithin bound start reading).2
  | 0, _, _, enough => absurd (Call.bound_pos enough) (Nat.lt_irrefl 0)
  | bound + 1, start, reading, enough => by
    unfold bodyWithin
    split
    · exact reading.finishes_report _ _ _
    · rename_i inside
      simp only [Bool.or_eq_true, not_or] at inside
      have read := finishes_statementWithin bound reading inside.2
        (Call.Calls.suffices (.governedStatement inside.2 inside.1) enough)
      split <;> exact read.of_eq ‹_›

end

theorem finishes_block : reading.Finishes 0 (block reading).2 :=
  finishes_blockWithin _ reading (Call.suffices_of_fuel rfl)

/-! ### Members -/

/-- A parameter closes the braces of its annotations. -/
theorem settles_parameter : reading.Settles (parameter reading).2 := by
  have malformed (start : Position) (reading : Reading) :
      reading.Settles (parametersWithin.malformed start reading).2 :=
    ((reading.proceeds_pass (splits_upTo _ _)).trans (proceeds_report _ _ _)).settles
      (not_live_report _ _ _)
  refine ((settles_preamble reading).trans (settles_typeText _)).trans ?_
  unfold parameter
  dsimp only
  split
  · rename_i there
    split
    · rename_i isWord
      exact (settles_next _ there fun tidy => tidy.words _ (there ▸ List.mem_cons_self)
        isWord).trans (settles_marks _)
    · exact malformed _ _
  · exact malformed _ _

/-- Parameters are balanced one by one. -/
theorem settles_parametersWithin (bound : Nat) :
    reading.Settles (parametersWithin bound reading).2 := by
  induction bound generalizing reading with
  | zero => exact .refl reading
  | succ bound ih =>
      have first := settles_parameter reading
      rw [parametersWithin_succ]
      split
      · exact .refl reading
      split
      · exact (first.trans (settles_next_of_sees _ ‹_› (by decide))).trans (ih _)
      · exact first

theorem settles_thrownTypes : reading.Settles (thrownTypes reading).2 :=
  (reading.settles_expect _ (by decide)).trans <| (settles_parametersWithin _ _).trans <|
    (settles_expect _ _ (by decide)).trans <| (settles_marks _).trans <|
      settles_heritage _ (by decide)

/-- A method ends with its body or with a semicolon. -/
theorem finishes_methodBody : reading.Finishes 0 (methodBody reading).2 := by
  unfold methodBody
  split
  · exact finishes_block reading
  split
  · exact (reading.settles_next_of_sees ‹_› (by decide)).finishes (finishes_recover _ _ _)
  split
  · exact reading.finishes_next_of_sees ‹_› (by decide)
  · exact finishes_recover reading _ _

/-- A method closes the braces that it opens. -/
theorem finishes_methodRest (method : SyntaxTree) :
    reading.Finishes 0 (methodRest method reading).2 := by
  rw [methodRest_eq]
  exact (settles_thrownTypes reading).finishes (finishes_methodBody _)

/-- An initial value is balanced, if there is one. -/
theorem settles_initialValue : reading.Settles (initialValue reading).2 := by
  refine (settles_marks reading).trans ?_
  unfold initialValue
  dsimp only
  split
  · exact (settles_next_of_sees _ ‹_› (by decide)).trans (settles_initializer _)
  · exact .refl _

/-- Declarators of a field are balanced one by one. -/
theorem settles_fieldsWithin (preamble : Preamble) (type : String) (bound : Nat) (name : Token) :
    reading.Settles (fieldsWithin preamble type bound name reading).2 := by
  induction bound generalizing reading name with
  | zero => exact .refl reading
  | succ bound ih =>
      have initial := settles_initialValue reading
      rw [fieldsWithin_succ]
      dsimp only
      split
      · have comma := initial.trans (settles_next_of_sees _ ‹_› (by decide))
        split
        · rename_i there
          split
          · have named := settles_next _ there fun tidy =>
              tidy.isBrace_of_isName (there ▸ List.mem_cons_self) ‹_›
            exact (comma.trans named).trans (ih _ _)
          · exact comma.trans (settles_report _ _ _)
        · exact comma.trans (settles_report _ _ _)
      · exact initial

/-- A member closes the braces that it opens from its type on. -/
theorem finishes_typedMember {owner : String} (plain : owner ∉ ["\x7b", "\x7d"])
    (preamble : Preamble) (typeParams : List Token) (start : Position) :
    reading.Finishes 0 (typedMember owner preamble typeParams start reading).2 := by
  have typed := settles_typeText reading
  fun_cases typedMember owner preamble typeParams start reading with
  | case1 _ constructs =>
    obtain ⟨head, first, same⟩ :=
      (Option.any_eq_true _ _).mp (Bool.and_eq_true_iff.mp constructs).1
    obtain ⟨rest, there⟩ := List.head?_eq_some_iff.mp first
    have named := settles_next reading there fun _ =>
      isBrace_of_text (by rwa [of_decide_eq_true same])
    exact named.finishes (finishes_methodRest _
      { kind := .constructor, name := some owner, range := reading.here })
  | case2 _ after read => exact (typed.of_eq read).finishes (finishes_recover _ _ _)
  | case3 _ _ after read => exact (typed.of_eq read).finishes (finishes_recover _ _ _)
  | case4 _ _ after read => exact (typed.of_eq read).finishes (finishes_recover _ _ _)
  | case5 _ _ type after read name rest there isName _ node =>
    have named := settles_next after there fun tidy =>
      tidy.isBrace_of_isName (there ▸ List.mem_cons_self) (by simpa using isName)
    exact ((typed.of_eq read).trans named).finishes
      (finishes_methodRest _ (node.put "returnType" type))
  | case6 _ type after read name rest there isName noMethod fields afterFields readFields =>
    have named := settles_next after there fun tidy =>
      tidy.isBrace_of_isName (there ▸ List.mem_cons_self) (by simpa using isName)
    have declared := (settles_fieldsWithin _ _ _ _ _).of_eq readFields
    exact ((typed.of_eq read).trans (named.trans declared)).finishes
      (finishes_expect _ _ (by decide))

theorem finishes_plainMember {owner : String} (plain : owner ∉ ["\x7b", "\x7d"])
    (preamble : Preamble) (start : Position) :
    reading.Finishes 0 (plainMember owner preamble start reading).2 := by
  rw [plainMember_eq]
  exact (settles_typeParameters reading).finishes (finishes_typedMember _ plain preamble _ start)

theorem settles_typeHeader (node : SyntaxTree) : reading.Settles (typeHeader node reading).2 :=
  (settles_typeParameters reading).trans <| (settles_heritage _ (by decide)).trans <|
    (settles_heritage _ (by decide)).trans (settles_heritage _ (by decide))

mutual

/-- A member closes the braces that it opens. -/
theorem finishes_memberWithin : ∀ (bound : Nat) (owner? : Option String) (reading : Reading),
    (∀ owner, owner? = some owner → owner ∉ ["\x7b", "\x7d"]) →
      Call.Suffices ⟨bound, .member owner?, reading⟩ →
        reading.Finishes 0 (memberWithin bound owner? reading).2
  | 0, _, _, _, enough => absurd (Call.bound_pos enough) (Nat.lt_irrefl 0)
  | bound + 1, owner?, reading, ownerPlain, enough => by
    have front := settles_preamble reading
    have named (kind : SyntaxKind) {word : String} (sees : (preamble reading).2.sees word)
        (listed : (kind, word) ∈ [(SyntaxKind.classDecl, "class"), (.interfaceDecl, "interface")])
        (plain : word ∉ ["\x7b", "\x7d"]) : (preamble reading).2.Finishes 0
          (typeWithin bound kind word reading.start (preamble reading).2.next).2 :=
      (settles_next_of_sees _ sees plain).finishes (finishes_typeWithin bound kind word _ _
        (Call.Calls.suffices (.type sees listed) enough))
    unfold memberWithin
    refine front.finishes ?_
    dsimp only
    split
    · exact named .classDecl ‹_› (by decide) (by decide)
    split
    · exact named .interfaceDecl ‹_› (by decide) (by decide)
    split
    · exact finishes_giveUp _ _ _ (splits_declaration _)
    split
    · exact finishes_giveUp _ _ _ (splits_declaration _)
    split
    · exact finishes_giveUp _ _ _ (splits_declaration _)
    split
    · exact finishes_recover _ _ _
    split
    · exact finishes_block _
    · exact finishes_plainMember _ (ownerPlain _ rfl) _ _

/-- A type declaration closes the brace that it opens. -/
theorem finishes_typeWithin : ∀ (bound : Nat) (kind : SyntaxKind) (word : String)
    (start : Position) (reading : Reading), Call.Suffices ⟨bound, .type kind word start, reading⟩ →
      reading.Finishes 0 (typeWithin bound kind word start reading).2
  | 0, _, _, _, _, enough => absurd (Call.bound_pos enough) (Nat.lt_irrefl 0)
  | bound + 1, kind, word, start, reading, enough => by
    have proceeds := proceeds_typeWithin (bound + 1) kind word start reading
    unfold typeWithin at proceeds ⊢
    split
    · exact finishes_recover _ _ _
    rename_i name rest there
    rw [there] at proceeds
    refine .of_tidy proceeds (there ▸ List.cons_ne_nil _ _) fun tidy => ?_
    split
    · exact finishes_recover _ _ _
    · rename_i other
      have isName : Span.isName name := by simpa using other
      have next : name ∈ reading.rest := there ▸ List.mem_cons_self
      have named := reading.settles_next there fun _ => tidy.isBrace_of_isName next isName
      have header := settles_typeHeader reading.next
        { kind, name := some name.text, range := name.range }
      refine (named.trans header).finishes ?_
      dsimp only
      split
      · exact finishes_open _ ‹_› (finishes_membersWithin bound word _ _
          (tidy.text_of_isName next isName) (Call.Calls.suffices (.members there ‹_›) enough))
      · exact (settles_report _ _ _).finishes (finishes_recover _ _ _)

/-- Members are read up to the brace that closes their type. -/
theorem finishes_membersWithin : ∀ (bound : Nat) {owner : String} (word : String)
    (header : SourceRange) (reading : Reading), owner ∉ ["\x7b", "\x7d"] →
      Call.Suffices ⟨bound, .members owner word header, reading⟩ →
        reading.Finishes 1 (membersWithin bound owner word header reading).2
  | 0, _, _, _, _, _, enough => absurd (Call.bound_pos enough) (Nat.lt_irrefl 0)
  | bound + 1, owner, word, header, reading, plain, enough => by
    unfold membersWithin
    split
    · exact reading.finishes_report _ _ _
    split
    · exact reading.finishes_close ‹_›
    split
    · exact (reading.settles_next_of_sees ‹_› (by decide)).finishes (finishes_membersWithin bound
        word header _ plain (Call.Calls.suffices (.emptyMember ‹_›) enough))
    · have first := finishes_memberWithin bound (some owner) reading
        (fun _ same => Option.some.inj same ▸ plain)
        (Call.Calls.suffices (.member ‹_› ‹_› ‹_›) enough)
      exact first.settles.finishes (finishes_membersWithin bound word header _ plain
        (Call.Calls.suffices (.laterMembers ‹_› ‹_› ‹_›) enough))

end

/-! ### Texts -/

/-- A package or an import ends with its semicolon. -/
theorem finishes_headerDeclaration (kind : SyntaxKind) {word : String} (sees : reading.sees word)
    (plain : word ∉ ["\x7b", "\x7d"]) :
    reading.Finishes 0 (headerDeclaration kind reading).2 := by
  have named := settles_pass reading.next
    (splits_upTo (·.isAny [";", "\x7b", "\x7d"]) reading.next.rest) fun _ =>
      plain_upTo (fun token brace => by
        simp only [isBrace, isAny, List.any_cons, List.any_nil, Bool.or_eq_true] at brace ⊢
        exact .inr brace) _
  exact ((reading.settles_next_of_sees sees plain).trans named).finishes
    (finishes_expect _ _ (by decide))

/-- A declaration closes the braces that it opens. -/
theorem finishes_declaration : reading.Finishes 0 (declaration reading).2 := by
  unfold declaration
  split
  · exact finishes_headerDeclaration reading _ ‹_› (by decide)
  split
  · exact finishes_headerDeclaration reading _ ‹_› (by decide)
  split
  · exact (reading.proceeds_next.trans (proceeds_report _ _ _)).finishes (List.cons_ne_nil _ _)
  · exact finishes_memberWithin _ none reading (fun _ same => nomatch same)
      (Call.suffices_of_fuel rfl)

/-- Declarations that are read without a problem close what they open. -/
theorem closes_declarationsWithin (bound : Nat) (enough : reading.rest.length < bound)
    (clean : (declarationsWithin bound reading).2.problems = []) (tidy : Tidy reading.rest) :
    Closes 0 reading.rest := by
  induction bound generalizing reading with
  | zero => exact absurd enough (Nat.not_lt_zero _)
  | succ bound ih =>
      have step {after : Reading} (finishes : reading.Finishes 0 after)
          (consumes : reading.Consumes after)
          (later : (declarationsWithin bound after).2.problems = []) : Closes 0 reading.rest := by
        have fewer := Nat.lt_of_lt_of_le consumes.2 (Nat.le_of_lt_succ enough)
        exact finishes.keeps ((proceeds_declarationsWithin after bound).clean later) tidy 0
          (ih after fewer later (tidy.suffix finishes.proceeds.onward))
      rw [declarationsWithin_succ] at clean
      split at clean
      · rw [done_iff.mp ‹_›]
        rfl
      split at clean
      · exact step (reading.finishes_next_of_sees ‹_› (by decide)) (consumes_next ‹_›) clean
      · exact step (finishes_declaration reading) (consumes_declaration ‹_›) clean

end Parser

/-- **A text without problems is balanced.** If no bracket of a text is closed by one of the other
sort, and no brace closes within a group in angles, and the text is read without any problem, then
its braces are balanced. -/
theorem braces_balanced {source : String} {parsed : ParsedSource}
    (read : parseSource source = .ok parsed) (clean : parsed.diagnostics = [])
    (nested : Token.uncrossed [] (tokenize source).1)
    (clear : Token.AnglesClear (tokenize source).1) : Token.Balanced (tokenize source).1 := by
  unfold parseSource at read
  split at read
  · cases read
  · cases read
    have accepted := List.reverse_eq_nil_iff.mp (List.append_eq_nil_iff.mp clean).2
    exact (Parser.closes_declarationsWithin _ _ (Nat.lt_succ_self _) accepted
      (tidy_tokenize nested clear)).balanced

/-- A class whose braces stand in a body, in a statement and in an initial value. -/
theorem braces_balanced_lambda :
    ∃ parsed, parseSource ("class A<T> \x7b int[] xs = \x7b 1, 2 \x7d; void f() " ++
        "\x7b run(() -> \x7b g(xs[0]); \x7d); \x7d \x7d") = .ok parsed ∧
      parsed.diagnostics = [] ∧
      Token.Balanced (tokenize ("class A<T> \x7b int[] xs = \x7b 1, 2 \x7d; void f() " ++
        "\x7b run(() -> \x7b g(xs[0]); \x7d); \x7d \x7d")).1 := by
  obtain ⟨parsed, read, none⟩ :
      ∃ parsed, parseSource ("class A<T> \x7b int[] xs = \x7b 1, 2 \x7d; void f() " ++
        "\x7b run(() -> \x7b g(xs[0]); \x7d); \x7d \x7d") = .ok parsed ∧
        parsed.diagnostics.isEmpty := exists_tested (by decide +kernel)
  have clean := List.isEmpty_iff.mp none
  exact ⟨parsed, read, clean,
    braces_balanced read clean (by decide +kernel) (by decide +kernel)⟩

/-- A brace may close a round bracket: a field's initial value `( }` is read without a problem,
and then one more brace is closed than was opened. -/
theorem unbalanced_brace_accepted :
    ∃ parsed, parseSource "class A \x7b int x = ( \x7d; \x7d" = .ok parsed ∧
      parsed.diagnostics = [] ∧
      ¬Token.Balanced (tokenize "class A \x7b int x = ( \x7d; \x7d").1 := by
  obtain ⟨parsed, read, clean⟩ :
      ∃ parsed, parseSource "class A \x7b int x = ( \x7d; \x7d" = .ok parsed ∧
        parsed.diagnostics.isEmpty := exists_tested (by decide +kernel)
  exact ⟨parsed, read, List.isEmpty_iff.mp clean,
    fun balanced => absurd balanced.whole (by decide +kernel)⟩

end Transcode
