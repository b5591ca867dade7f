import Transcode.Proofs.Moving
import Transcode.Proofs.Unbounded

/-!
# States of the parser that follow others

One state of the parser follows another if it has the same tokens left, at moved places and with
more tokens after them (`Reading.Follows`). What a function reads from a state without a problem
and without running out of tokens (`Reading.Live`), it reads from every state that follows it, at
the moved places, and the states after that follow each other too. Here this is shown for what
stands in front of and within declarations: groups, types, modifiers and annotations.
-/

namespace Transcode

namespace Token

/-- The token with or without a gap before it. -/
def withGap (gap : Bool) (token : Token) : Token := { token with spaced := gap }

theorem join_withGap (gap : Bool) (token : Token) (rest : List Token) :
    join (token.withGap gap :: rest) = join (token :: rest) := rfl

/-- The first token has some gap before it. -/
theorem exists_modifyHead_withGap (tokens : List Token) :
    ∃ gap, tokens.modifyHead (withGap gap) = tokens := by
  cases tokens with
  | nil => exact ⟨false, rfl⟩
  | cons token rest => exact ⟨token.spaced, rfl⟩

end Token

namespace Reading

/-- No problem is found so far, and not all tokens are read. -/
def Live (reading : Reading) : Prop := reading.problems = [] ∧ reading.rest ≠ []

variable {before after : Reading}

theorem Proceeds.clean (proceeds : before.Proceeds after) (clean : after.problems = []) :
    before.problems = [] := List.suffix_nil.mp (clean ▸ proceeds.kept)

/-- What is live later was live before. -/
theorem Proceeds.live (proceeds : before.Proceeds after) (live : after.Live) : before.Live := by
  refine ⟨proceeds.clean live.1, fun none => live.2 ?_⟩
  have onward : after.rest <:+ before.rest := proceeds.onward
  rw [none] at onward
  exact List.suffix_nil.mp onward

theorem not_live_report (reading : Reading) (message : String) (range : SourceRange) :
    ¬(reading.report message range).Live := fun live => List.cons_ne_nil _ _ live.1

/-- A token that is expected without a problem is there. -/
theorem sees_of_expect_clean {reading : Reading} {text context : String}
    (clean : (reading.expect text context).problems = []) : reading.sees text := by
  by_contra absent
  rw [expect, if_neg absent] at clean
  exact List.cons_ne_nil _ _ clean

variable (move : Position → Position) (more : List Token)

/-- A state that has the tokens of another one left, at moved places and with more after them, but
for a gap before the first. Of what is read before, nothing is said. -/
structure Starts (first second : Reading) : Prop where
  rest : ∃ gap, second.rest =
    (first.rest.map (·.moved move)).modifyHead (Token.withGap gap) ++ more
  ends : EndsDeclared first.rest
  clean : second.problems = []

/-- A state that has the tokens of another one left, at moved places and with more after them. The
last token that it has read stands at the moved place of the other's. -/
structure Follows (first second : Reading) : Prop where
  rest : second.rest = first.rest.map (·.moved move) ++ more
  ends : EndsDeclared first.rest
  last : ∃ token ∈ first.last, ∃ other ∈ second.last, other.range = token.range.moved move
  clean : second.problems = []

variable {move more} {first second : Reading}

/-- What follows starts alike. -/
theorem Follows.starts (follows : Follows move more first second) :
    Starts move more first second where
  rest := by
    obtain ⟨gap, same⟩ := Token.exists_modifyHead_withGap (first.rest.map (·.moved move))
    exact ⟨gap, by rw [same, follows.rest]⟩
  ends := follows.ends
  clean := follows.clean

section

variable {head : Token} {rest : List Token} (there : first.rest = head :: rest)

include there

/-- The first token is the same but for its gap. -/
theorem Starts.rest_cons (starts : Starts move more first second) :
    ∃ gap, second.rest = (head.moved move).withGap gap :: (rest.map (·.moved move) ++ more) := by
  obtain ⟨gap, same⟩ := starts.rest
  rw [there] at same
  exact ⟨gap, same⟩

/-- The first token is the same. -/
theorem Follows.rest_cons (follows : Follows move more first second) :
    second.rest = head.moved move :: (rest.map (·.moved move) ++ more) := by
  rw [follows.rest, there]
  rfl

/-- Behind the first token gaps do not matter. -/
theorem Starts.next_of_cons (starts : Starts move more first second) :
    Follows move more first.next second.next := by
  obtain ⟨gap, other⟩ := starts.rest_cons there
  have ends := starts.ends
  rw [there] at ends
  simp only [next, there, other]
  exact ⟨rfl, ends.tail, ⟨head, rfl, _, rfl, rfl⟩, starts.clean⟩

end

section

variable (filled : first.rest ≠ [])

include filled

/-- Behind the first token of two that start alike reading follows. -/
theorem Starts.next (starts : Starts move more first second) :
    Follows move more first.next second.next := by
  obtain ⟨head, rest, there⟩ := List.exists_cons_of_ne_nil filled
  exact starts.next_of_cons there

/-- The same token is seen. -/
theorem Starts.sees (starts : Starts move more first second) (text : String) :
    second.sees text = first.sees text := by
  obtain ⟨head, rest, there⟩ := List.exists_cons_of_ne_nil filled
  obtain ⟨gap, other⟩ := starts.rest_cons there
  rw [Reading.sees, Reading.sees, there, other]
  rfl

/-- Both are at the end or neither is. -/
theorem Starts.done (starts : Starts move more first second) : second.done = first.done := by
  obtain ⟨head, rest, there⟩ := List.exists_cons_of_ne_nil filled
  obtain ⟨gap, other⟩ := starts.rest_cons there
  rw [Reading.done, Reading.done, there, other]
  rfl

/-- The place of the first token is moved. -/
theorem Starts.here (starts : Starts move more first second) :
    second.here = first.here.moved move := by
  obtain ⟨head, rest, there⟩ := List.exists_cons_of_ne_nil filled
  obtain ⟨gap, other⟩ := starts.rest_cons there
  simp only [Reading.here, there, other]
  rfl

/-- The start of the first token is moved. -/
theorem Starts.start (starts : Starts move more first second) :
    second.start = move first.start := by
  obtain ⟨head, rest, there⟩ := List.exists_cons_of_ne_nil filled
  obtain ⟨gap, other⟩ := starts.rest_cons there
  simp only [Reading.start, there, other]
  rfl

/-- The first token is moved. -/
theorem Follows.take_one (follows : Follows move more first second) :
    second.rest.take 1 = (first.rest.take 1).map (·.moved move) := by
  obtain ⟨head, rest, there⟩ := List.exists_cons_of_ne_nil filled
  rw [follows.rest_cons there, there]
  rfl

end

/-- What stands after the next token is the same too, if anything does. -/
theorem Starts.thenSees (starts : Starts move more first second) {head : Token} {rest : List Token}
    (there : first.rest = head :: rest) (filled : rest ≠ []) (text : String) :
    second.thenSees text = first.thenSees text := by
  obtain ⟨next, others, rfl⟩ := List.exists_cons_of_ne_nil filled
  obtain ⟨gap, same⟩ := starts.rest_cons there
  rw [Reading.thenSees, Reading.thenSees, there, same]
  rfl

theorem Starts.rest_ne_nil (starts : Starts move more first second) {head : Token}
    {rest : List Token} (there : first.rest = head :: rest) (other : ¬head.IsEnd) : rest ≠ [] :=
  (there ▸ starts.ends).rest_ne_nil other

/-- The longer text has at least as many tokens. -/
theorem Starts.length_le (starts : Starts move more first second) :
    first.rest.length ≤ second.rest.length := by
  obtain ⟨gap, same⟩ := starts.rest
  rw [same, List.length_append, List.length_modifyHead, List.length_map]
  exact Nat.le_add_right _ _

/-- The states after a stretch that is the same in both. -/
theorem Follows.pass (follows : Follows move more first second) {span : Span}
    (splits : span.Splits first.rest) :
    Follows move more (first.pass span) (second.pass (span.moved move more)) where
  rest := rfl
  ends := follows.ends.suffix ⟨span.taken, splits⟩
  last := by
    obtain ⟨token, last, other, lastOther, range⟩ := follows.last
    simp only [Reading.pass, Span.moved, List.getLast?_map]
    cases span.taken.getLast? with
    | none => exact ⟨token, last, other, lastOther, range⟩
    | some taken => exact ⟨taken, rfl, _, rfl, rfl⟩
  clean := follows.clean

/-- The range from a place on is moved. -/
theorem Follows.since (follows : Follows move more first second) (start : Position) :
    second.since (move start) = (first.since start).moved move := by
  obtain ⟨token, last, other, lastOther, range⟩ := follows.last
  simp only [Reading.since, lastEnd, Option.mem_def.mp last, Option.mem_def.mp lastOther, range]
  rfl

/-- A token that is expected without a problem is passed in both. -/
theorem Follows.expect (follows : Follows move more first second) {text context : String}
    (clean : (first.expect text context).problems = []) :
    Follows move more (first.expect text context) (second.expect text context) := by
  have sees := sees_of_expect_clean clean
  obtain ⟨token, rest, there, _⟩ := exists_rest_of_sees sees
  have seesOther : second.sees text := by
    rw [follows.starts.sees (there ▸ List.cons_ne_nil _ _), sees]
  rw [expect_of_sees sees, expect_of_sees seesOther]
  exact follows.starts.next_of_cons there

/-- A token that may be there is passed in both or in neither. -/
theorem Follows.skip (follows : Follows move more first second) (filled : first.rest ≠ [])
    (text : String) : Follows move more (first.skip text) (second.skip text) := by
  unfold Reading.skip
  rw [follows.starts.sees filled]
  split
  · exact follows.starts.next filled
  · exact follows

end Reading

namespace Parser

open Reading Transcode.Span

variable {move : Position → Position} {more : List Token} {first second : Reading}

/-- What is read from a second state is what is read from a first one, moved, and so are the states
after that. -/
def Tracks (move : Position → Position) (more : List Token) {α : Type} (moved : α → α)
    (one other : α × Reading) : Prop :=
  other.1 = moved one.1 ∧ Follows move more one.2 other.2

/-! ### Groups -/

/-- The same angle brackets are read, moved. -/
theorem tracks_angleGroup (follows : Follows move more first second)
    (live : (angleGroup first).2.Live) :
    Tracks move more (·.map (·.moved move)) (angleGroup first) (angleGroup second) := by
  have left : (angles 0 first.rest).rest ≠ [] := by
    have filled := live.2
    unfold angleGroup at filled
    dsimp only at filled
    split at filled <;> exact filled
  have passed := follows.pass (splits_angles 0 first.rest)
  have closed : ((angles 0 first.rest).closed || (first.pass (angles 0 first.rest)).done) := by
    by_contra unclosed
    unfold angleGroup at live
    rw [if_neg unclosed] at live
    exact not_live_report _ _ _ live
  have closedOther : ((angles 0 second.rest).closed ||
      (second.pass (angles 0 second.rest)).done) := by
    rw [follows.rest, angles_moved left, passed.starts.done left]
    exact closed
  unfold angleGroup
  dsimp only
  rw [if_pos closed, if_pos closedOther, follows.rest, angles_moved left]
  exact ⟨rfl, passed⟩

theorem proceeds_typeParameters (reading : Reading) :
    reading.Proceeds (typeParameters reading).2 := proceeds_angles reading

/-- The same type parameters are read, moved. -/
theorem tracks_typeParameters (follows : Follows move more first second)
    (live : (typeParameters first).2.Live) :
    Tracks move more (·.map (·.moved move)) (typeParameters first) (typeParameters second) := by
  have filled := ((proceeds_typeParameters first).live live).2
  unfold typeParameters at live ⊢
  rw [follows.starts.sees filled]
  split
  · rw [if_pos ‹_›] at live
    exact tracks_angleGroup follows live
  · exact ⟨rfl, follows⟩

/-- The tokens between round brackets, and all tokens read. -/
theorem tracks_roundGroup (follows : Follows move more first second)
    (live : (roundGroup first).2.2.Live) :
    (roundGroup second).1 = (roundGroup first).1.map (·.moved move) ∧
      Tracks move more (·.map (·.moved move)) (roundGroup first).2 (roundGroup second).2 := by
  obtain ⟨opening, rest, there⟩ :=
    List.exists_cons_of_ne_nil ((proceeds_roundGroup first).live live).2
  have there' := follows.rest_cons there
  have next := follows.starts.next_of_cons there
  have inside := next.pass (splits_group 0 first.next.rest)
  unfold roundGroup at live ⊢
  simp only [there, there', Token.is_moved] at live ⊢
  split at live
  · rename_i opens
    split at live
    · rename_i closes
      obtain ⟨token, others, left, _⟩ := exists_rest_of_sees closes
      have filled : (group 0 first.next.rest).rest ≠ [] :=
        fun none => List.cons_ne_nil _ _ (left.symm.trans none)
      rw [if_pos opens, if_pos opens, if_pos closes, next.rest, group_moved filled,
        if_pos ((inside.starts.sees filled ")").trans closes)]
      refine ⟨rfl, ?_, inside.starts.next filled⟩
      dsimp only
      rw [List.map_append]
      exact congrArg (_ ++ ·) (inside.take_one filled)
    · exact absurd live (not_live_report _ _ _)
  · exact absurd live (not_live_report _ _ _)

/-! ### Types -/

/-- The same type is read. -/
theorem tracks_typeText (follows : Follows move more first second)
    (live : (typeText first).2.Live) :
    Tracks move more id (typeText first) (typeText second) := by
  obtain ⟨head, rest, there⟩ :=
    List.exists_cons_of_ne_nil ((proceeds_typeText first).live live).2
  have there' := follows.rest_cons there
  by_cases starts : !head.isIdent || (isKeyword head.text && !isTypeWord head.text)
  · have starts' : !(head.moved move).isIdent || (isKeyword (head.moved move).text &&
        !isTypeWord (head.moved move).text) := starts
    unfold typeText
    rw [there, there']
    dsimp only
    rw [if_pos starts, if_pos starts']
    exact ⟨rfl, follows⟩
  · have starts' : ¬(!(head.moved move).isIdent || (isKeyword (head.moved move).text &&
        !isTypeWord (head.moved move).text)) := starts
    rw [typeText_cons there starts] at live ⊢
    rw [typeText_cons there' starts']
    have next := follows.starts.next_of_cons there
    have nextRest : first.next.rest = rest := by rw [Reading.next, there]
    -- What is left at the end was left all the way.
    have marksLive := (proceeds_skip _ _).live live
    have argumentsLive := (proceeds_pass _ (splits_arrayMarks _)).live marksLive
    have namesLive := (proceeds_typeParameters _).live argumentsLive
    have namesSplit : (qualifiers rest).Splits first.next.rest := nextRest ▸ splits_qualifiers rest
    have names := next.pass namesSplit
    obtain ⟨sameArguments, arguments⟩ := tracks_typeParameters names argumentsLive
    have marks := arguments.pass (splits_arrayMarks _)
    have ends := nextRest ▸ next.ends
    dsimp only at live ⊢
    rw [qualifiers_moved ends namesLive.2, arguments.rest,
      arrayMarks_moved arguments.ends marksLive.2, sameArguments, marks.starts.sees marksLive.2,
      marks.take_one marksLive.2]
    refine ⟨congrArg some ((congrArg Token.join ?_).trans (Token.join_moved move _)),
      marks.skip marksLive.2 _⟩
    split <;> simp [Span.moved]

/-- The same types between commas are read. -/
theorem tracks_typesWithin (bound : Nat) (follows : Follows move more first second)
    (live : (typesWithin bound first).2.Live) :
    Tracks move more id (typesWithin bound first) (typesWithin bound second) := by
  induction bound generalizing first second with
  | zero => exact ⟨rfl, follows⟩
  | succ bound ih =>
      have typeLive : (typeText first).2.Live := by
        unfold typesWithin at live
        split at live <;> rename_i read <;> rw [read]
        · exact live
        split at live
        · exact ((proceeds_next _).trans (proceeds_typesWithin _ bound)).live live
        · exact live
      obtain ⟨same, after⟩ := tracks_typeText follows typeLive
      cases read : (typeText first).1 with
      | none =>
          have one : typeText first = (Option.none, (typeText first).2) := Prod.ext read rfl
          have other : typeText second = (Option.none, (typeText second).2) :=
            Prod.ext (same.trans read) rfl
          unfold typesWithin
          rw [one, other]
          exact ⟨rfl, after⟩
      | some type =>
          have one : typeText first = (some type, (typeText first).2) := Prod.ext read rfl
          have other : typeText second = (some type, (typeText second).2) :=
            Prod.ext (same.trans read) rfl
          rw [typesWithin_succ one] at live ⊢
          rw [typesWithin_succ other, after.starts.sees typeLive.2]
          split
          · rw [if_pos ‹_›] at live
            obtain ⟨sameTypes, left⟩ := ih (after.starts.next typeLive.2) live
            exact ⟨congrArg (type :: ·) sameTypes, left⟩
          · exact ⟨rfl, after⟩

/-- More tokens raise the bound on types, but nothing is read beyond the lower one. -/
theorem typesWithin_eq {reading : Reading} {bound : Nat} (enough : reading.rest.length < bound) :
    typesWithin bound reading = typesWithin (reading.rest.length + 1) reading :=
  Call.run_eq_of_suffices (show Call.Suffices ⟨_, .types, reading⟩ from Nat.lt_succ_self _) enough

/-- The same list of types is read. -/
theorem tracks_typeList (follows : Follows move more first second)
    (live : (typeList first).2.Live) :
    Tracks move more id (typeList first) (typeList second) := by
  have bound := typesWithin_eq (Nat.lt_succ_of_le follows.starts.length_le)
  unfold typeList at live ⊢
  dsimp only at live ⊢
  rw [← bound] at live ⊢
  split at live
  · exact absurd live (not_live_report _ _ _)
  · rename_i some
    obtain ⟨same, after⟩ := tracks_typesWithin _ follows live
    rw [if_neg some, if_neg (by rw [same]; exact some)]
    exact ⟨same, after⟩

/-- The same heritage is read. -/
theorem tracks_heritage (word : String) (follows : Follows move more first second)
    (live : (heritage word first).2.Live) :
    Tracks move more id (heritage word first) (heritage word second) := by
  have filled := ((proceeds_heritage first word).live live).2
  unfold heritage at live ⊢
  rw [follows.starts.sees filled]
  split
  · rw [if_pos ‹_›] at live
    exact tracks_typeList (follows.starts.next filled) live
  · exact ⟨rfl, follows⟩

/-! ### What stands before a declaration -/

/-- The same annotation is read. -/
theorem tracks_annotationTag (starts : Starts move more first second)
    (live : (annotationTag first).2.Live) :
    Tracks move more id (annotationTag first) (annotationTag second) := by
  obtain ⟨sign, rest, there⟩ :=
    List.exists_cons_of_ne_nil ((proceeds_annotationTag first).live live).2
  obtain ⟨gap, there'⟩ := starts.rest_cons there
  have next := starts.next_of_cons there
  have namesLive : (first.next.pass (dottedNames first.next.rest)).Live := by
    unfold annotationTag at live
    dsimp only at live
    split at live
    · exact (proceeds_roundGroup _).live live
    · exact live
  have names := next.pass (splits_dottedNames first.next.rest)
  have text (tokens : List Token) : Token.join ((sign.moved move).withGap gap ::
      ((dottedNames first.next.rest).taken.map (·.moved move) ++ tokens.map (·.moved move))) =
        Token.join (sign :: ((dottedNames first.next.rest).taken ++ tokens)) := by
    rw [Token.join_withGap, ← List.map_append]
    exact Token.join_moved move (sign :: _)
  unfold annotationTag at live ⊢
  dsimp only at live ⊢
  rw [next.rest, dottedNames_moved next.ends namesLive.2, names.starts.sees namesLive.2, there,
    there']
  split
  · rw [if_pos ‹_›] at live
    obtain ⟨_, same, after⟩ := tracks_roundGroup names live
    refine ⟨?_, after⟩
    rw [same]
    exact text _
  · exact ⟨text [], names⟩

/-- States of which one follows the other, or only starts as the other, are so after modifiers and
annotations too. -/
theorem related_preambleWithin {Related : Reading → Reading → Prop}
    (of_follows : ∀ {first second}, Follows move more first second → Related first second)
    (to_starts : ∀ {first second}, Related first second → Starts move more first second)
    (bound : Nat) (related : Related first second) (live : (preambleWithin bound first).2.Live) :
    (preambleWithin bound second).1 = (preambleWithin bound first).1 ∧
      Related (preambleWithin bound first).2 (preambleWithin bound second).2 := by
  induction bound generalizing first second with
  | zero => exact ⟨rfl, related⟩
  | succ bound ih =>
      have starts := to_starts related
      obtain ⟨token, rest, there⟩ :=
        List.exists_cons_of_ne_nil ((proceeds_preambleWithin first _).live live).2
      obtain ⟨gap, there'⟩ := starts.rest_cons there
      have is (text : String) : ((token.moved move).withGap gap).is text = token.is text := rfl
      have sign : (token.is "@" && !second.thenSees "interface") =
          (token.is "@" && !first.thenSees "interface") := by
        by_cases isSign : token.is "@"
        · rw [starts.thenSees there
            (starts.rest_ne_nil there (Token.not_isEnd_of_is isSign (by decide)))]
        · simp [isSign]
      unfold preambleWithin at live ⊢
      simp only [there, there', is, sign] at live ⊢
      split at live
      · rename_i annotated
        rw [if_pos annotated, if_pos annotated]
        obtain ⟨same, after⟩ := tracks_annotationTag starts
          ((proceeds_preambleWithin _ bound).live live)
        obtain ⟨sameOthers, left⟩ := ih (of_follows after) live
        exact ⟨by rw [same, sameOthers]; rfl, left⟩
      · rename_i plain
        rw [if_neg plain, if_neg plain]
        have modifier : (((token.moved move).withGap gap).isIdent &&
            isModifier ((token.moved move).withGap gap).text) =
              (token.isIdent && isModifier token.text) := rfl
        rw [modifier]
        split at live
        · rename_i modifies
          rw [if_pos modifies, if_pos modifies]
          obtain ⟨sameOthers, left⟩ := ih (of_follows (starts.next_of_cons there)) live
          exact ⟨by rw [sameOthers]; rfl, left⟩
        · rename_i other
          rw [if_neg other, if_neg other]
          exact ⟨rfl, related⟩

/-- A bound that is large enough does not matter. -/
theorem preambleWithin_eq {reading : Reading} {bound : Nat} (enough : reading.rest.length < bound) :
    preambleWithin bound reading = preamble reading :=
  Call.run_eq_of_suffices (show Call.Suffices ⟨_, .preamble, reading⟩ from Nat.lt_succ_self _)
    enough

/-- Relations that gaps do not matter to are kept by the same modifiers and annotations. -/
theorem related_preamble {Related : Reading → Reading → Prop}
    (of_follows : ∀ {first second}, Follows move more first second → Related first second)
    (to_starts : ∀ {first second}, Related first second → Starts move more first second)
    (related : Related first second) (live : (preamble first).2.Live) :
    (preamble second).1 = (preamble first).1 ∧
      Related (preamble first).2 (preamble second).2 := by
  have bound := preambleWithin_eq (Nat.lt_succ_of_le (to_starts related).length_le)
  rw [← bound] at live ⊢
  exact related_preambleWithin of_follows to_starts _ related live

/-- The same modifiers and annotations are read. -/
theorem tracks_preamble (follows : Follows move more first second)
    (live : (preamble first).2.Live) :
    Tracks move more id (preamble first) (preamble second) :=
  related_preamble id Follows.starts follows live

end Parser

end Transcode
