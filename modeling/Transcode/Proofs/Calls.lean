import Mathlib.Data.List.Chain
import Mathlib.Logic.Relation
import Transcode.Proofs.Progress

/-!
# Calls of the parser

Which function of the parser calls which other, and with what it is left to read (`Call.Calls`). A
loop is a function here that calls itself. Each call goes on with what its caller had to read, and a
number that is at most four times the tokens left, and two, drops from caller to callee
(`Call.Calls.lowers`).
-/

namespace Transcode

namespace Reading

/-! ### Tokens read -/

/-- At least one token is read on the way from one reading to a later one. -/
def Consumes (before after : Reading) : Prop :=
  before.Onward after ∧ after.rest.length < before.rest.length

variable {before between after : Reading}

theorem Onward.length_le (onward : before.Onward after) :
    after.rest.length ≤ before.rest.length := List.IsSuffix.length_le onward

/-- What goes on and reads no token has the same tokens left. -/
theorem Onward.rest_eq (onward : before.Onward after)
    (same : before.rest.length ≤ after.rest.length) : after.rest = before.rest :=
  List.IsSuffix.eq_of_length_le onward same

theorem Consumes.onward (consumes : before.Consumes between) (onward : between.Onward after) :
    before.Consumes after :=
  ⟨consumes.1.trans onward, Nat.lt_of_le_of_lt onward.length_le consumes.2⟩

theorem Onward.consumes (onward : before.Onward between) (consumes : between.Consumes after) :
    before.Consumes after :=
  ⟨onward.trans consumes.1, Nat.lt_of_lt_of_le consumes.2 onward.length_le⟩

/-- Where a result is known, so is the reading that comes with it. -/
theorem Consumes.of_eq {α : Type} {result : α × Reading} {value : α}
    (consumes : before.Consumes result.2) (is : result = (value, after)) :
    before.Consumes after := by
  rwa [is] at consumes

variable {reading : Reading}

theorem done_iff : reading.done ↔ reading.rest = [] := List.isEmpty_iff

/-- One token is read where there is more. -/
theorem consumes_next (more : ¬reading.done) : reading.Consumes reading.next := by
  rw [done_iff] at more
  obtain ⟨token, rest, there⟩ := List.exists_cons_of_ne_nil more
  refine ⟨reading.onward_next, ?_⟩
  simp only [next, there, List.length_cons]
  omega

/-- There is more where a token is seen. -/
theorem not_done_of_sees {text : String} (sees : reading.sees text) : ¬reading.done := by
  intro done
  rw [Reading.sees, done_iff.mp done] at sees
  exact Bool.false_ne_true sees

/-- A token that is seen comes first. -/
theorem exists_rest_of_sees {text : String} (sees : reading.sees text) :
    ∃ token rest, reading.rest = token :: rest ∧ token.is text := by
  rw [Reading.sees] at sees
  cases there : reading.rest with
  | nil => simp [there] at sees
  | cons token rest => exact ⟨token, rest, rfl, by simpa [there] using sees⟩

theorem consumes_of_sees {text : String} (sees : reading.sees text) :
    reading.Consumes reading.next := consumes_next (not_done_of_sees sees)

theorem expect_of_sees {text : String} (sees : reading.sees text) (context : String) :
    reading.expect text context = reading.next := if_pos sees

/-- A stretch that is not empty is read. -/
theorem consumes_pass {span : Span} (splits : span.Splits reading.rest)
    (filled : span.taken ≠ []) : reading.Consumes (reading.pass span) := by
  have split : (span.taken ++ span.rest).length = reading.rest.length := congrArg _ splits
  have some := List.length_pos_iff.mpr filled
  rw [List.length_append] at split
  refine ⟨reading.onward_pass splits, ?_⟩
  change span.rest.length < _
  omega

end Reading

/-! ### Stretches of at least one token -/

namespace Span

theorem taken_cons_ne_nil (token : Token) (span : Span) : (span.cons token).taken ≠ [] :=
  List.cons_ne_nil _ _

/-- Angle brackets that open take a token. -/
theorem taken_angles_ne_nil {depth : Nat} {token : Token} (opens : token.is "<")
    (rest : List Token) : (angles depth (token :: rest)).taken ≠ [] := by
  rw [angles, if_pos opens]
  exact taken_cons_ne_nil _ _

/-- A recovery takes a token before the brace that closes the scope. -/
theorem taken_recovery_ne_nil {token : Token} (inside : ¬token.is "\x7d") (rest : List Token) :
    (recovery 0 (token :: rest)).taken ≠ [] := by
  rw [recovery, if_neg inside]
  split
  · exact List.cons_ne_nil _ _
  · split <;> exact taken_cons_ne_nil _ _

/-- What is skipped of a declaration is a token at least, before the brace that closes the scope. -/
theorem taken_declaration_ne_nil {token : Token} (inside : ¬token.is "\x7d") (rest : List Token) :
    (declaration (token :: rest)).taken ≠ [] := by
  rw [declaration]
  split
  · exact taken_cons_ne_nil _ _
  · split
    · exact List.cons_ne_nil _ _
    · exact taken_cons_ne_nil _ _

end Span

namespace Parser

open Reading
open Transcode.Span hiding none

/-! ### Functions that read something -/

variable {reading : Reading}

/-- A token comes first where there is more. -/
theorem exists_rest_of_not_done (more : ¬reading.done) :
    ∃ token rest, reading.rest = token :: rest := by
  rw [done_iff] at more
  exact List.exists_cons_of_ne_nil more

/-- A sign that is not seen next is not the next token. -/
theorem not_is_of_not_sees {text : String} {token : Token} {rest : List Token}
    (there : reading.rest = token :: rest) (absent : ¬reading.sees text) : ¬token.is text := by
  simpa [Reading.sees, there] using absent

/-- Angle brackets that open are read. -/
theorem consumes_angleGroup (opens : reading.sees "<") :
    reading.Consumes (angleGroup reading).2 := by
  obtain ⟨token, rest, there, is⟩ := exists_rest_of_sees opens
  have read : reading.Consumes (reading.pass (angles 0 reading.rest)) := by
    refine consumes_pass (splits_angles 0 _) ?_
    rw [there]
    exact taken_angles_ne_nil is rest
  unfold angleGroup
  dsimp only
  split <;> exact read

/-- A recovery reads something before the brace that closes the scope. -/
theorem consumes_recover (message : String) (more : ¬reading.done)
    (inside : ¬reading.sees "\x7d") : reading.Consumes (recover message reading).2 := by
  obtain ⟨token, rest, there⟩ := exists_rest_of_not_done more
  refine consumes_pass (splits_recovery 0 _) ?_
  rw [there]
  exact taken_recovery_ne_nil (not_is_of_not_sees there inside) rest

/-- Giving up on a declaration reads something before the brace that closes the scope. -/
theorem consumes_giveUp_declaration (message : String) (more : ¬reading.done)
    (inside : ¬reading.sees "\x7d") :
    reading.Consumes (giveUp message (.declaration reading.rest) reading).2 := by
  obtain ⟨token, rest, there⟩ := exists_rest_of_not_done more
  refine consumes_pass (splits_declaration _) ?_
  rw [there]
  exact taken_declaration_ne_nil (not_is_of_not_sees there inside) rest

/-- A type is read with at least one token; what is no type is left as it was. -/
theorem typeText_cases (reading : Reading) :
    typeText reading = (none, reading) ∨
      ∃ type, (typeText reading).1 = some type ∧ reading.Consumes (typeText reading).2 := by
  unfold typeText
  split
  · exact .inl rfl
  · rename_i head rest there
    split
    · exact .inl rfl
    · refine .inr ⟨_, rfl, ?_⟩
      have named : reading.Consumes reading.next := by
        refine consumes_next ?_
        rw [done_iff, there]
        exact List.cons_ne_nil _ _
      have qualified : reading.next.Onward (reading.next.pass (qualifiers rest)) := by
        refine onward_pass _ ?_
        rw [next, there]
        exact splits_qualifiers rest
      refine named.onward (qualified.trans ((proceeds_angles _).onward.trans ?_))
      exact (onward_pass _ (splits_arrayMarks _)).trans (onward_skip _ _)

/-- Where there is no type nothing is read. -/
theorem eq_of_typeText_none {after : Reading} (read : typeText reading = (none, after)) :
    after = reading := by
  rcases typeText_cases reading with same | ⟨type, some, _⟩
  · exact (Prod.mk.inj (read.symm.trans same)).2
  · rw [read] at some
    cases some

/-- A type is read. -/
theorem consumes_of_typeText {type : String} {after : Reading}
    (read : typeText reading = (some type, after)) : reading.Consumes after := by
  rcases typeText_cases reading with same | ⟨_, _, consumes⟩
  · cases read.symm.trans same
  · exact consumes.of_eq read

/-- A member with a type is read, or a recovery reads something. -/
theorem consumes_typedMember (owner : String) (preamble : Preamble) (typeParams : List Token)
    (start : Position) (more : ¬reading.done) (inside : ¬reading.sees "\x7d") :
    reading.Consumes (typedMember owner preamble typeParams start reading).2 := by
  fun_cases typedMember owner preamble typeParams start reading with
  | case1 =>
    let node : SyntaxTree := { kind := .constructor, name := some owner, range := reading.here }
    exact (consumes_next more).onward (proceeds_methodRest _ node).onward
  | case2 _ after typed =>
    obtain rfl := eq_of_typeText_none typed
    exact consumes_recover _ more inside
  | case3 _ _ after typed =>
      exact (consumes_of_typeText typed).onward (proceeds_recover after _).onward
  | case4 _ _ after typed =>
      exact (consumes_of_typeText typed).onward (proceeds_recover after _).onward
  | case5 _ _ type after typed _ _ _ _ _ node =>
    refine (consumes_of_typeText typed).onward (after.onward_next.trans ?_)
    exact (proceeds_methodRest _ (node.put "returnType" type)).onward
  | case6 _ _ after typed _ _ _ _ _ _ _ fields =>
    refine (consumes_of_typeText typed).onward (after.onward_next.trans ?_)
    exact ((proceeds_fieldsWithin _ _ _ _ _).onward.of_eq fields).trans (onward_expect _ _ _)

theorem onward_typeParameters (reading : Reading) :
    reading.Onward (typeParameters reading).2 := (proceeds_angles reading).onward

/-- A member without modifiers is read, or a recovery reads something. -/
theorem consumes_plainMember (owner : String) (preamble : Preamble) (start : Position)
    (more : ¬reading.done) (inside : ¬reading.sees "\x7d") :
    reading.Consumes (plainMember owner preamble start reading).2 := by
  rw [plainMember_eq, typeParameters]
  split
  · exact (consumes_angleGroup ‹_›).onward (proceeds_typedMember _ owner preamble _ start).onward
  · exact consumes_typedMember owner preamble _ start more inside

/-- A block reads its brace. -/
theorem consumes_blockWithin (bound : Nat) (opens : reading.sees "\x7b") :
    reading.Consumes (blockWithin (bound + 1) reading).2 := by
  unfold blockWithin
  rw [expect_of_sees opens]
  exact (consumes_of_sees opens).onward (proceeds_statementsWithin bound _ _).onward

theorem consumes_block (opens : reading.sees "\x7b") : reading.Consumes (block reading).2 :=
  consumes_blockWithin _ opens

/-- A plain statement reads its first token. -/
theorem consumes_plainStatement {head : Token} {rest : List Token}
    (there : reading.rest = head :: rest) :
    reading.Consumes (plainStatement head reading).2 := by
  unfold plainStatement
  split
  · refine consumes_next ?_
    rw [done_iff, there]
    exact List.cons_ne_nil _ _
  · obtain ⟨others, taken⟩ := exists_taken_plainStatement
      (blockStatementWords.contains head.text) ‹¬head.closes› rest
    have read : reading.Consumes (reading.pass
        (.plainStatement (blockStatementWords.contains head.text) 0 reading.rest)) := by
      refine consumes_pass (splits_plainStatement _ 0 _) ?_
      rw [there, taken]
      exact List.cons_ne_nil _ _
    dsimp only
    split <;> exact read

/-- A statement reads something, unless its bound is too small for it. -/
theorem consumes_statementWithin (bound : Nat) (more : ¬reading.done) :
    reading.Consumes (statementWithin (bound + 2) reading).2 := by
  have named := consumes_next more
  have governed (start : Position) :
      reading.Consumes (bodyWithin (bound + 1) start (roundGroup reading.next).2.2).2 :=
    named.onward ((proceeds_roundGroup _).onward.trans (proceeds_bodyWithin _ _ _).onward)
  obtain ⟨head, rest, there⟩ := exists_rest_of_not_done more
  unfold statementWithin
  simp only [there]
  split
  · exact named.onward ((onward_next _).trans (proceeds_bodyWithin _ _ _).onward)
  split
  · exact named
  split
  · refine consumes_blockWithin bound ?_
    simpa [Reading.sees, there]
  split
  · split
    · exact (governed _).onward ((onward_next _).trans (proceeds_bodyWithin _ _ _).onward)
    · exact governed _
  split
  · exact named.onward ((proceeds_roundGroup _).onward.trans
      ((proceeds_forNode _ _ _).onward.trans (proceeds_bodyWithin _ _ _).onward))
  split
  · exact governed _
  split
  · refine named.onward ((proceeds_bodyWithin (bound + 1) reading.start _).onward.trans ?_)
    exact ((onward_expect _ _ _).trans (proceeds_roundGroup _).onward).trans (onward_expect _ _ _)
  · exact consumes_plainStatement there

/-- A member reads something before the brace that closes the scope. -/
theorem consumes_memberWithin (bound : Nat) (owner? : Option String) (more : ¬reading.done)
    (inside : ¬reading.sees "\x7d") :
    reading.Consumes (memberWithin (bound + 1) owner? reading).2 := by
  have front := (proceeds_preamble reading).onward
  -- A preamble of no token leaves the same tokens, and of these something is read.
  have further {later : Reading} (onward : (preamble reading).2.Onward later)
      (consumes : ¬(preamble reading).2.done → ¬(preamble reading).2.sees "\x7d" →
        (preamble reading).2.Consumes later) : reading.Consumes later := by
    by_cases same : reading.rest.length ≤ (preamble reading).2.rest.length
    · have left := front.rest_eq same
      refine front.consumes (consumes ?_ ?_)
      · simpa [done, left] using more
      · simpa [Reading.sees, left] using inside
    · exact Consumes.onward ⟨front, Nat.lt_of_not_le same⟩ onward
  have named {text : String} (sees : (preamble reading).2.sees text) (kind : SyntaxKind)
      (word : String) (start : Position) : reading.Consumes
        (typeWithin bound kind word start (preamble reading).2.next).2 :=
    (front.consumes (consumes_of_sees sees)).onward (proceeds_typeWithin bound _ _ _ _).onward
  have unsupported (message : String) : reading.Consumes
      (giveUp message (.declaration (preamble reading).2.rest) (preamble reading).2).2 :=
    further (proceeds_giveUp _ message (splits_declaration _)).onward
      (consumes_giveUp_declaration message)
  unfold memberWithin
  dsimp only
  split
  · exact named ‹_› _ _ _
  split
  · exact named ‹_› _ _ _
  split
  · exact unsupported _
  split
  · exact unsupported _
  split
  · exact unsupported _
  split
  · exact further (proceeds_recover _ _).onward (consumes_recover _)
  split
  · exact front.consumes (consumes_block ‹_›)
  · exact further (proceeds_plainMember _ _ _ _).onward (consumes_plainMember _ _ _)

/-- A declaration reads something. -/
theorem consumes_declaration (more : ¬reading.done) :
    reading.Consumes (declaration reading).2 := by
  have header (kind : SyntaxKind) : reading.Consumes (headerDeclaration kind reading).2 :=
    (consumes_next more).onward ((onward_pass _ (splits_upTo _ _)).trans (onward_expect _ _ _))
  unfold declaration
  split
  · exact header _
  split
  · exact header _
  split
  · exact consumes_next more
  · exact consumes_memberWithin _ none more ‹_›

/-! ### Calls -/

/-- The functions of the parser that call themselves or others, with what they are given besides the
tokens to read. -/
inductive Routine where
  | declarations
  | member (owner? : Option String)
  | plainMember (owner : String) (preamble : Preamble) (start : Position)
  | type (kind : SyntaxKind) (word : String) (start : Position)
  | members (owner word : String) (header : SourceRange)
  | methodRest (method : SyntaxTree)
  | parameters
  | fields (preamble : Preamble) (type : String) (name : Token)
  | types
  | preamble
  | block
  | statements (opening : SourceRange)
  | statement
  | body (start : Position)

namespace Routine

/-- What a function reads. -/
def Result : Routine → Type
  | declarations | members _ _ _ | parameters | fields _ _ _ | statements _ => List SyntaxTree
  | member _ | plainMember _ _ _ | type _ _ _ | methodRest _ | block | body _ => SyntaxTree
  | statement => Option SyntaxTree
  | types => List String
  | preamble => Preamble

/-- Whether two functions are the same but for what they are given. -/
def Same (first second : Routine) : Prop := first.ctorIdx = second.ctorIdx

/-- What a function does with a bound on nested calls. -/
def run : (routine : Routine) → Nat → Reading → routine.Result × Reading
  | declarations, bound, reading => declarationsWithin bound reading
  | member owner?, bound, reading => memberWithin bound owner? reading
  | plainMember owner front start, _, reading => Parser.plainMember owner front start reading
  | type kind word start, bound, reading => typeWithin bound kind word start reading
  | members owner word header, bound, reading => membersWithin bound owner word header reading
  | methodRest method, _, reading => Parser.methodRest method reading
  | parameters, bound, reading => parametersWithin bound reading
  | fields front typeText name, bound, reading => fieldsWithin front typeText bound name reading
  | types, bound, reading => typesWithin bound reading
  | preamble, bound, reading => preambleWithin bound reading
  | block, bound, reading => blockWithin bound reading
  | statements opening, bound, reading => statementsWithin bound opening reading
  | statement, bound, reading => statementWithin bound reading
  | body start, bound, reading => bodyWithin bound start reading

end Routine

/-- A call of a function: the bound on nested calls, and what is left to read. -/
structure Call where
  bound : Nat
  routine : Routine
  reading : Reading

namespace Call

/-- What a call gives, and what is left after it. -/
def outcome (call : Call) : call.routine.Result × Reading :=
  call.routine.run call.bound call.reading

/-- The calls that a call makes. A function that loops calls itself for the next turn. -/
inductive Calls : Call → Call → Prop
  | semicolon {bound : Nat} {reading : Reading} :
      ¬reading.done → reading.sees ";" →
      Calls ⟨bound + 1, .declarations, reading⟩ ⟨bound, .declarations, reading.next⟩
  | declaration {bound : Nat} {reading : Reading} :
      ¬reading.done → ¬reading.sees ";" → ¬reading.sees "package" → ¬reading.sees "import" →
      ¬reading.sees "\x7d" →
      Calls ⟨bound + 1, .declarations, reading⟩ ⟨reading.fuel, .member none, reading⟩
  | laterDeclarations {bound : Nat} {reading : Reading} :
      ¬reading.done → ¬reading.sees ";" →
      Calls ⟨bound + 1, .declarations, reading⟩
        ⟨bound, .declarations, (Parser.declaration reading).2⟩
  | preamble {bound : Nat} {owner? : Option String} {reading : Reading} :
      Calls ⟨bound + 1, .member owner?, reading⟩ ⟨reading.rest.length + 1, .preamble, reading⟩
  | type {bound : Nat} {owner? : Option String} {kind : SyntaxKind} {word : String}
      {reading : Reading} :
      (Parser.preamble reading).2.sees word →
      (kind, word) ∈ [(SyntaxKind.classDecl, "class"), (.interfaceDecl, "interface")] →
      Calls ⟨bound + 1, .member owner?, reading⟩
        ⟨bound, .type kind word reading.start, (Parser.preamble reading).2.next⟩
  | initializer {bound : Nat} {owner : String} {reading : Reading} :
      (Parser.preamble reading).2.sees "\x7b" →
      Calls ⟨bound + 1, .member (some owner), reading⟩
        ⟨(Parser.preamble reading).2.fuel, .block, (Parser.preamble reading).2⟩
  | plainMember {bound : Nat} {owner : String} {reading : Reading} :
      ¬(Parser.preamble reading).2.sees "\x7b" →
      Calls ⟨bound + 1, .member (some owner), reading⟩
        ⟨(Parser.preamble reading).2.fuel,
          .plainMember owner (Parser.preamble reading).1 reading.start,
          (Parser.preamble reading).2⟩
  | constructor {bound : Nat} {owner : String} {preamble : Preamble} {start : Position}
      {reading : Reading} {method : SyntaxTree} :
      (typeParameters reading).2.rest.head?.any (fun token => token.text = owner) →
      (typeParameters reading).2.thenSees "(" →
      Calls ⟨bound, .plainMember owner preamble start, reading⟩
        ⟨(typeParameters reading).2.next.fuel, .methodRest method, (typeParameters reading).2.next⟩
  | method {bound : Nat} {owner : String} {preamble : Preamble} {start : Position}
      {reading after : Reading} {type : String} {method : SyntaxTree} :
      typeText (typeParameters reading).2 = (some type, after) → after.next.sees "(" →
      Calls ⟨bound, .plainMember owner preamble start, reading⟩
        ⟨after.next.fuel, .methodRest method, after.next⟩
  | fields {bound : Nat} {owner : String} {preamble : Preamble} {start : Position}
      {reading after : Reading} {type : String} {name : Token} {rest : List Token} :
      typeText (typeParameters reading).2 = (some type, after) → after.rest = name :: rest →
      Calls ⟨bound, .plainMember owner preamble start, reading⟩
        ⟨after.rest.length + 1, .fields preamble type name, after.next⟩
  | bases {bound : Nat} {kind : SyntaxKind} {word : String} {start : Position}
      {reading : Reading} :
      ¬reading.done → (typeParameters reading.next).2.sees "extends" →
      Calls ⟨bound + 1, .type kind word start, reading⟩
        ⟨(typeParameters reading.next).2.next.rest.length + 1, .types,
          (typeParameters reading.next).2.next⟩
  | interfaces {bound : Nat} {kind : SyntaxKind} {word : String} {start : Position}
      {reading : Reading} :
      ¬reading.done → (heritage "extends" (typeParameters reading.next).2).2.sees "implements" →
      Calls ⟨bound + 1, .type kind word start, reading⟩
        ⟨(heritage "extends" (typeParameters reading.next).2).2.next.rest.length + 1, .types,
          (heritage "extends" (typeParameters reading.next).2).2.next⟩
  | permitted {bound : Nat} {kind : SyntaxKind} {word : String} {start : Position}
      {reading after : Reading} :
      ¬reading.done →
      (heritage "implements" (heritage "extends" (typeParameters reading.next).2).2).2 = after →
      after.sees "permits" →
      Calls ⟨bound + 1, .type kind word start, reading⟩
        ⟨after.next.rest.length + 1, .types, after.next⟩
  | members {bound : Nat} {kind : SyntaxKind} {word : String} {start : Position}
      {reading : Reading} {name : Token} {rest : List Token} {node : SyntaxTree} :
      reading.rest = name :: rest → (typeHeader node reading.next).2.sees "\x7b" →
      Calls ⟨bound + 1, .type kind word start, reading⟩
        ⟨bound, .members name.text word ((typeHeader node reading.next).2.since start),
          (typeHeader node reading.next).2.next⟩
  | emptyMember {bound : Nat} {owner word : String} {header : SourceRange} {reading : Reading} :
      reading.sees ";" →
      Calls ⟨bound + 1, .members owner word header, reading⟩
        ⟨bound, .members owner word header, reading.next⟩
  | member {bound : Nat} {owner word : String} {header : SourceRange} {reading : Reading} :
      ¬reading.done → ¬reading.sees "\x7d" → ¬reading.sees ";" →
      Calls ⟨bound + 1, .members owner word header, reading⟩
        ⟨bound, .member (some owner), reading⟩
  | laterMembers {bound : Nat} {owner word : String} {header : SourceRange} {reading : Reading} :
      ¬reading.done → ¬reading.sees "\x7d" → ¬reading.sees ";" →
      Calls ⟨bound + 1, .members owner word header, reading⟩
        ⟨bound, .members owner word header, (memberWithin bound (some owner) reading).2⟩
  | parameters {bound : Nat} {method : SyntaxTree} {reading : Reading} :
      Calls ⟨bound, .methodRest method, reading⟩
        ⟨(reading.expect "(" "to open parameter list").rest.length + 1, .parameters,
          reading.expect "(" "to open parameter list"⟩
  | thrownTypes {bound : Nat} {method : SyntaxTree} {reading : Reading} :
      (afterParameters reading).sees "throws" →
      Calls ⟨bound, .methodRest method, reading⟩
        ⟨(afterParameters reading).next.rest.length + 1, .types, (afterParameters reading).next⟩
  | methodBody {bound : Nat} {method : SyntaxTree} {reading : Reading} :
      (Parser.thrownTypes reading).2.sees "\x7b" →
      Calls ⟨bound, .methodRest method, reading⟩
        ⟨(Parser.thrownTypes reading).2.fuel, .block, (Parser.thrownTypes reading).2⟩
  | parameterPreamble {bound : Nat} {reading : Reading} :
      ¬reading.done → ¬reading.sees ")" →
      Calls ⟨bound + 1, .parameters, reading⟩ ⟨reading.rest.length + 1, .preamble, reading⟩
  | laterParameters {bound : Nat} {reading : Reading} :
      ¬reading.done → ¬reading.sees ")" → (parameter reading).2.sees "," →
      Calls ⟨bound + 1, .parameters, reading⟩ ⟨bound, .parameters, (parameter reading).2.next⟩
  | laterFields {bound : Nat} {preamble : Preamble} {type : String} {name other : Token}
      {reading : Reading} {rest : List Token} :
      (initialValue reading).2.sees "," → (initialValue reading).2.next.rest = other :: rest →
      Calls ⟨bound + 1, .fields preamble type name, reading⟩
        ⟨bound, .fields preamble type other, (initialValue reading).2.next.next⟩
  | laterTypes {bound : Nat} {reading after : Reading} {type : String} :
      typeText reading = (some type, after) → after.sees "," →
      Calls ⟨bound + 1, .types, reading⟩ ⟨bound, .types, after.next⟩
  | afterAnnotated {bound : Nat} {reading : Reading} :
      reading.sees "@" → ¬reading.thenSees "interface" →
      Calls ⟨bound + 1, .preamble, reading⟩ ⟨bound, .preamble, (annotationTag reading).2⟩
  | afterModifier {bound : Nat} {reading : Reading} :
      ¬reading.done →
      Calls ⟨bound + 1, .preamble, reading⟩ ⟨bound, .preamble, reading.next⟩
  | statements {bound : Nat} {reading : Reading} :
      Calls ⟨bound + 1, .block, reading⟩
        ⟨bound, .statements reading.here, reading.expect "\x7b" "to open block"⟩
  | statement {bound : Nat} {opening : SourceRange} {reading : Reading} :
      ¬reading.done → ¬reading.sees "\x7d" →
      Calls ⟨bound + 1, .statements opening, reading⟩ ⟨bound, .statement, reading⟩
  | laterStatements {bound : Nat} {opening : SourceRange} {reading : Reading} :
      ¬reading.done → ¬reading.sees "\x7d" →
      Calls ⟨bound + 1, .statements opening, reading⟩
        ⟨bound, .statements opening, (statementWithin bound reading).2⟩
  | labelled {bound : Nat} {reading : Reading} :
      ¬reading.done →
      Calls ⟨bound + 1, .statement, reading⟩ ⟨bound, .body reading.start, reading.next.next⟩
  | innerBlock {bound : Nat} {reading : Reading} :
      reading.sees "\x7b" →
      Calls ⟨bound + 1, .statement, reading⟩ ⟨bound, .block, reading⟩
  | governed {bound : Nat} {reading : Reading} :
      reading.sees "if" ∨ reading.sees "while" →
      Calls ⟨bound + 1, .statement, reading⟩
        ⟨bound, .body reading.start, (roundGroup reading.next).2.2⟩
  | alternative {bound : Nat} {reading after : Reading} :
      reading.sees "if" →
      (bodyWithin bound reading.start (roundGroup reading.next).2.2).2 = after →
      after.sees "else" →
      Calls ⟨bound + 1, .statement, reading⟩ ⟨bound, .body reading.start, after.next⟩
  | forBody {bound : Nat} {reading : Reading} :
      reading.sees "for" →
      Calls ⟨bound + 1, .statement, reading⟩
        ⟨bound, .body reading.start,
          (forNode (roundGroup reading.next).1 reading.start (roundGroup reading.next).2.2).2⟩
  | doBody {bound : Nat} {reading : Reading} :
      reading.sees "do" →
      Calls ⟨bound + 1, .statement, reading⟩ ⟨bound, .body reading.start, reading.next⟩
  | governedStatement {bound : Nat} {start : Position} {reading : Reading} :
      ¬reading.done → ¬reading.sees "\x7d" →
      Calls ⟨bound + 1, .body start, reading⟩ ⟨bound, .statement, reading⟩

/-- The place of a call among those that read no token in between. A block that opens with its brace
comes last, as it reads that brace before it calls anything. -/
def rank (call : Call) : Nat :=
  match call.routine with
  | .block => if call.reading.sees "\x7b" then 0 else 3
  | .declarations | .members _ _ _ | .methodRest _ | .statements _ | .body _ => 2
  | .member _ | .parameters | .statement => 1
  | .plainMember _ _ _ | .type _ _ _ | .fields _ _ _ | .types | .preamble => 0

/-- The number that drops from call to call. -/
def measure (call : Call) : Nat := 4 * call.reading.rest.length + call.rank

/-- A bound on nested calls that cannot be used up. -/
def Suffices (call : Call) : Prop :=
  match call.routine with
  | .declarations | .parameters | .fields _ _ _ | .types | .preamble =>
    call.reading.rest.length < call.bound
  | .plainMember _ _ _ | .methodRest _ => 0 < call.bound
  | .member _ | .type _ _ _ | .members _ _ _ | .block | .statements _ | .statement | .body _ =>
    call.measure < call.bound

variable {call callee : Call}

/-- There are four ranks. -/
theorem rank_le (call : Call) : call.rank ≤ 3 := by
  unfold rank
  split
  · split <;> omega
  all_goals omega

/-- A call behind a token that was read has a smaller measure. -/
theorem measure_lt_of_consumes (consumes : call.reading.Consumes callee.reading) :
    callee.measure < call.measure := by
  have small := callee.rank_le
  have fewer := consumes.2
  unfold measure
  omega

/-- The bound that a text gives is enough for any routine. -/
theorem suffices_of_fuel (fresh : call.bound = call.reading.fuel) : call.Suffices := by
  have small := call.rank_le
  have enough : call.measure < call.bound := by
    rw [fresh]
    unfold measure fuel
    omega
  have pos : call.reading.rest.length < call.bound := by
    rw [fresh]
    unfold fuel
    omega
  unfold Suffices
  split <;> omega

/-- **What a call is given.** It goes on with what its caller had to read, and either something is
read in between or the callee comes after the caller. -/
theorem Calls.reads (calls : call.Calls callee) (enough : call.Suffices) :
    call.reading.Consumes callee.reading ∨
      call.reading.Onward callee.reading ∧ callee.rank < call.rank := by
  cases calls with
  | semicolon more => exact .inl (consumes_next more)
  | declaration => exact .inr ⟨.refl _, Nat.one_lt_two⟩
  | laterDeclarations more => exact .inl (consumes_declaration more)
  | preamble => exact .inr ⟨.refl _, Nat.one_pos⟩
  | type sees => exact .inl ((proceeds_preamble _).onward.consumes (consumes_of_sees sees))
  | initializer sees =>
    exact .inr ⟨(proceeds_preamble _).onward, by simp [rank, sees]⟩
  | plainMember => exact .inr ⟨(proceeds_preamble _).onward, Nat.one_pos⟩
  | constructor is =>
    refine .inl ((onward_typeParameters _).consumes (consumes_next ?_))
    intro none
    rw [done_iff.mp none] at is
    exact Bool.false_ne_true is
  | method typed =>
    exact .inl ((onward_typeParameters _).consumes
      ((consumes_of_typeText typed).onward (onward_next _)))
  | fields typed =>
    exact .inl ((onward_typeParameters _).consumes
      ((consumes_of_typeText typed).onward (onward_next _)))
  | bases more =>
    exact .inl ((consumes_next more).onward
      ((onward_typeParameters _).trans (onward_next _)))
  | interfaces more =>
    exact .inl ((consumes_next more).onward
      ((onward_typeParameters _).trans ((proceeds_heritage _ _).onward.trans (onward_next _))))
  | permitted more is =>
    subst is
    exact .inl ((consumes_next more).onward ((onward_typeParameters _).trans
      ((proceeds_heritage _ _).onward.trans
        ((proceeds_heritage _ _).onward.trans (onward_next _)))))
  | members there =>
    refine .inl ((consumes_next ?_).onward ((proceeds_typeHeader _ _).onward.trans (onward_next _)))
    rw [done_iff, there]
    exact List.cons_ne_nil _ _
  | emptyMember sees => exact .inl (consumes_of_sees sees)
  | member => exact .inr ⟨.refl _, Nat.one_lt_two⟩
  | @laterMembers bound _ _ _ _ more inside =>
    have positive : 0 < bound := by
      change 4 * _ + 2 < _ + 1 at enough
      omega
    obtain ⟨bound, rfl⟩ := Nat.exists_eq_add_one.mpr positive
    exact .inl (consumes_memberWithin bound _ more inside)
  | parameters => exact .inr ⟨onward_expect _ _ _, Nat.one_lt_two⟩
  | thrownTypes sees =>
    exact .inl ((proceeds_afterParameters _).onward.consumes (consumes_of_sees sees))
  | methodBody sees => exact .inr ⟨(proceeds_thrownTypes _).onward, by simp [rank, sees]⟩
  | parameterPreamble => exact .inr ⟨.refl _, Nat.one_pos⟩
  | laterParameters _ _ sees =>
    exact .inl ((proceeds_parameter _).onward.consumes (consumes_of_sees sees))
  | laterFields sees =>
    exact .inl (((proceeds_initialValue _).onward.consumes (consumes_of_sees sees)).onward
      (onward_next _))
  | laterTypes typed => exact .inl ((consumes_of_typeText typed).onward (onward_next _))
  | afterAnnotated sees =>
    exact .inl ((consumes_of_sees sees).onward (proceeds_next_annotationTag _).onward)
  | afterModifier more => exact .inl (consumes_next more)
  | @statements _ reading =>
    by_cases sees : reading.sees "\x7b"
    · rw [expect_of_sees sees]
      exact .inl (consumes_of_sees sees)
    · exact .inr ⟨onward_expect _ _ _, by simp [rank, sees]⟩
  | statement => exact .inr ⟨.refl _, Nat.one_lt_two⟩
  | @laterStatements bound _ reading more =>
    have some := (consumes_next more).2
    have large : 2 ≤ bound := by
      change 4 * reading.rest.length + 2 < _ + 1 at enough
      omega
    obtain ⟨bound, rfl⟩ := Nat.exists_eq_add_of_le' large
    exact .inl (consumes_statementWithin bound more)
  | labelled more => exact .inl ((consumes_next more).onward (onward_next _))
  | innerBlock sees => exact .inr ⟨.refl _, by simp [rank, sees]⟩
  | governed sees =>
    have more : ¬_ := sees.elim not_done_of_sees not_done_of_sees
    exact .inl ((consumes_next more).onward (proceeds_roundGroup _).onward)
  | alternative sees is =>
    subst is
    exact .inl ((consumes_of_sees sees).onward ((proceeds_roundGroup _).onward.trans
      ((proceeds_bodyWithin _ _ _).onward.trans (onward_next _))))
  | forBody sees =>
    exact .inl ((consumes_of_sees sees).onward
      ((proceeds_roundGroup _).onward.trans (proceeds_forNode _ _ _).onward))
  | doBody sees => exact .inl (consumes_of_sees sees)
  | governedStatement => exact .inr ⟨.refl _, Nat.one_lt_two⟩

theorem Calls.onward (calls : call.Calls callee) (enough : call.Suffices) :
    call.reading.Onward callee.reading :=
  (calls.reads enough).elim (·.1) (·.1)

/-- From caller to callee the number drops. -/
theorem Calls.lowers (calls : call.Calls callee) (enough : call.Suffices) :
    callee.measure < call.measure := by
  rcases calls.reads enough with consumes | ⟨onward, later⟩
  · exact measure_lt_of_consumes consumes
  · have fewer := onward.length_le
    unfold measure
    omega

/-- Where a bound suffices, it does for every call that is made. -/
theorem Calls.suffices (calls : call.Calls callee) (enough : call.Suffices) : callee.Suffices := by
  have lower := calls.lowers enough
  -- The next turn of a loop has read something, as it has the place of the turn before.
  have turn {bound : Nat} (same : callee.rank = call.rank)
      (loop : call.reading.rest.length < bound + 1) : callee.reading.rest.length < bound := by
    rcases calls.reads enough with consumes | ⟨_, less⟩
    · exact Nat.lt_of_lt_of_le consumes.2 (Nat.le_of_lt_succ loop)
    · exact absurd (same ▸ less) (Nat.lt_irrefl _)
  have inner {bound : Nat} (within : call.measure < bound + 1) : callee.measure < bound :=
    Nat.lt_of_lt_of_le lower (Nat.le_of_lt_succ within)
  cases calls with
  | semicolon | laterDeclarations | laterParameters | laterFields | laterTypes | afterAnnotated
  | afterModifier => exact turn rfl enough
  | type | members | emptyMember | member | laterMembers | statements | statement
  | laterStatements | labelled | innerBlock | governed | alternative | forBody | doBody
  | governedStatement => exact inner enough
  | declaration | initializer | plainMember | constructor | method | methodBody =>
    exact suffices_of_fuel rfl
  | fields => exact Nat.lt_succ_of_le (onward_next _).length_le
  | preamble | bases | interfaces | permitted | parameters | thrownTypes
  | parameterPreamble => exact Nat.lt_succ_self _

theorem bound_pos (enough : call.Suffices) : 0 < call.bound := by
  unfold Suffices at enough
  split at enough <;> omega

/-- The same routine at the same place has the same rank. -/
theorem rank_eq_of_same (same : call.routine.Same callee.routine)
    (left : callee.reading.rest = call.reading.rest) : callee.rank = call.rank := by
  obtain ⟨_, routine, reading⟩ := call
  obtain ⟨_, other, later⟩ := callee
  change later.rest = reading.rest at left
  have sees : later.sees "\x7b" = reading.sees "\x7b" := by rw [Reading.sees, left, Reading.sees]
  cases routine <;> cases other <;> first | rfl | (simp only [rank, sees]; done) | cases same

/-! ### Calls of calls -/

/-- What holds of a call with a bound that suffices holds of all calls that come from it. -/
theorem reaches (reached : Relation.ReflTransGen Calls call callee) (enough : call.Suffices) :
    callee.Suffices ∧ call.reading.Onward callee.reading := by
  induction reached with
  | refl => exact ⟨enough, .refl _⟩
  | tail _ calls ih => exact ⟨calls.suffices ih.1, ih.2.trans (calls.onward ih.1)⟩

/-- Measures fall along calls of calls. -/
theorem measure_lt_of_transGen (reached : Relation.TransGen Calls call callee)
    (enough : call.Suffices) : callee.measure < call.measure := by
  induction reached with
  | single calls => exact calls.lowers enough
  | tail reached calls ih =>
      exact (calls.lowers (reaches reached.to_reflTransGen enough).1).trans ih

/-- **A function that is entered again has read something.** -/
theorem consumes_of_transGen (reached : Relation.TransGen Calls call callee)
    (enough : call.Suffices) (same : call.routine.Same callee.routine) :
    call.reading.Consumes callee.reading := by
  have onward := (reaches reached.to_reflTransGen enough).2
  refine ⟨onward, Nat.lt_of_not_le fun all => ?_⟩
  have left := onward.rest_eq all
  have lower := measure_lt_of_transGen reached enough
  rw [measure, measure, left, rank_eq_of_same same left] at lower
  exact Nat.lt_irrefl _ lower

/-- Calls within calls are no more than the number that drops. -/
theorem length_le_of_isChain (calls : List Call) (chain : (call :: calls).IsChain Calls)
    (enough : call.Suffices) : calls.length ≤ call.measure := by
  induction calls generalizing call with
  | nil => exact Nat.zero_le _
  | cons callee calls ih =>
      obtain ⟨first, others⟩ := List.isChain_cons_cons.mp chain
      exact Nat.succ_le_of_lt (Nat.lt_of_le_of_lt (ih others (first.suffices enough))
        (first.lowers enough))

end Call

end Parser

end Transcode
