import Transcode.Proofs.Calls

/-!
# The parser without bounds

What a call gives depends on what its calls give, and on nothing else that the bound on nested calls
could change (`Call.run_congr`). As the bounds that the parser starts from cannot be used up, it
reads what it would read with any greater bound (`Call.run_eq_of_suffices`).
-/

namespace Transcode

namespace Parser

open Reading
open Transcode.Span hiding none

variable {reading : Reading}

namespace Call

variable {bound other : Nat} {routine : Routine}

theorem sees_of_head {token : Token} {rest : List Token} {text : String}
    (there : reading.rest = token :: rest) (is : token.is text) : reading.sees text := by
  simpa [Reading.sees, there] using is

/-- There is more where a token comes first. -/
theorem not_done_of_cons {token : Token} {rest : List Token}
    (there : reading.rest = token :: rest) : ¬reading.done := by
  rw [done_iff, there]
  exact List.cons_ne_nil _ _

/-- All calls that one call makes read the same with either bound. -/
def CallsAgree (bound other : Nat) (routine : Routine) (reading : Reading) : Prop :=
  ∀ (callee : Routine) (later : Reading),
    Calls ⟨bound + 1, routine, reading⟩ ⟨bound, callee, later⟩ →
      callee.run bound later = callee.run other later

namespace CallsAgree

/-- Declarations are read alike if the calls from there are. -/
theorem declarations (agree : CallsAgree bound other .declarations reading) :
    declarationsWithin (bound + 1) reading = declarationsWithin (other + 1) reading := by
  rw [declarationsWithin_succ, declarationsWithin_succ]
  split
  · rfl
  split
  · exact agree _ _ (.semicolon ‹_› ‹_›)
  · have later : declarationsWithin bound _ = declarationsWithin other _ :=
      agree _ _ (.laterDeclarations ‹_› ‹_›)
    rw [later]

/-- A member is read alike if the calls from there are. -/
theorem member {owner? : Option String} (agree : CallsAgree bound other (.member owner?) reading) :
    memberWithin (bound + 1) owner? reading = memberWithin (other + 1) owner? reading := by
  have named (kind : SyntaxKind) (word : String) (sees : (preamble reading).2.sees word)
      (which : (kind, word) ∈ [(SyntaxKind.classDecl, "class"), (.interfaceDecl, "interface")]) :
      typeWithin bound kind word reading.start (preamble reading).2.next =
        typeWithin other kind word reading.start (preamble reading).2.next :=
    agree _ _ (.type sees which)
  unfold memberWithin
  dsimp only
  split
  · rw [named _ _ ‹_› (by decide)]
  split
  · rw [named _ _ ‹_› (by decide)]
  · rfl

/-- A type is read alike if the calls from there are. -/
theorem type {kind : SyntaxKind} {word : String} {start : Position}
    (agree : CallsAgree bound other (.type kind word start) reading) :
    typeWithin (bound + 1) kind word start reading =
      typeWithin (other + 1) kind word start reading := by
  unfold typeWithin
  split
  · rfl
  split
  · rfl
  dsimp only
  split
  · have inner : membersWithin bound _ _ _ _ = membersWithin other _ _ _ _ :=
      agree _ _ (.members ‹_› ‹_›)
    rw [inner]
  · rfl

/-- Members are read alike if the calls from there are. -/
theorem members {owner word : String} {header : SourceRange}
    (agree : CallsAgree bound other (.members owner word header) reading) :
    membersWithin (bound + 1) owner word header reading =
      membersWithin (other + 1) owner word header reading := by
  unfold membersWithin
  split
  · rfl
  split
  · rfl
  split
  · exact agree _ _ (.emptyMember ‹_›)
  · have first : memberWithin bound _ _ = memberWithin other _ _ :=
      agree _ _ (.member ‹_› ‹_› ‹_›)
    have later : membersWithin bound _ _ _ _ = membersWithin other _ _ _ _ :=
      agree _ _ (.laterMembers ‹_› ‹_› ‹_›)
    dsimp only
    rw [← first, later]

/-- Parameters are read alike if the calls from there are. -/
theorem parameters (agree : CallsAgree bound other .parameters reading) :
    parametersWithin (bound + 1) reading = parametersWithin (other + 1) reading := by
  rw [parametersWithin_succ, parametersWithin_succ]
  split
  · rfl
  split
  · rename_i inside _
    simp only [Bool.or_eq_true, not_or] at inside
    have later : parametersWithin bound _ = parametersWithin other _ :=
      agree _ _ (.laterParameters inside.1 inside.2 ‹_›)
    rw [later]
  · rfl

/-- Declarators are read alike if the calls from there are. -/
theorem fields {front : Preamble} {type : String} {name : Token}
    (agree : CallsAgree bound other (.fields front type name) reading) :
    fieldsWithin front type (bound + 1) name reading =
      fieldsWithin front type (other + 1) name reading := by
  rw [fieldsWithin_succ, fieldsWithin_succ]
  dsimp only
  split
  · split
    · have later : fieldsWithin front type bound _ _ = fieldsWithin front type other _ _ :=
        agree _ _ (.laterFields ‹_› ‹_›)
      rw [later]
    · rfl
  · rfl

/-- Types are read alike if the calls from there are. -/
theorem types (agree : CallsAgree bound other .types reading) :
    typesWithin (bound + 1) reading = typesWithin (other + 1) reading := by
  unfold typesWithin
  split
  · rfl
  · split
    · have later : typesWithin bound _ = typesWithin other _ := agree _ _ (.laterTypes ‹_› ‹_›)
      rw [later]
    · rfl

/-- Modifiers and annotations are read alike if the calls from there are. -/
theorem preamble (agree : CallsAgree bound other .preamble reading) :
    preambleWithin (bound + 1) reading = preambleWithin (other + 1) reading := by
  unfold preambleWithin
  split
  · rfl
  rename_i token rest there
  split
  · rename_i sign
    simp only [Bool.and_eq_true, Bool.not_eq_true'] at sign
    have later : preambleWithin bound _ = preambleWithin other _ :=
      agree _ _ (.afterAnnotated (sees_of_head there sign.1) (by simp [sign.2]))
    dsimp only
    rw [later]
  split
  · have later : preambleWithin bound _ = preambleWithin other _ :=
      agree _ _ (.afterModifier (not_done_of_cons there))
    dsimp only
    rw [later]
  · rfl

/-- A block is read alike if the calls from there are. -/
theorem block (agree : CallsAgree bound other .block reading) :
    blockWithin (bound + 1) reading = blockWithin (other + 1) reading := by
  have inner : statementsWithin bound _ _ = statementsWithin other _ _ := agree _ _ .statements
  unfold blockWithin
  dsimp only
  rw [inner]

/-- Statements are read alike if the calls from there are. -/
theorem statements {opening : SourceRange}
    (agree : CallsAgree bound other (.statements opening) reading) :
    statementsWithin (bound + 1) opening reading =
      statementsWithin (other + 1) opening reading := by
  unfold statementsWithin
  split
  · rfl
  split
  · rfl
  · have first : statementWithin bound _ = statementWithin other _ :=
      agree _ _ (.statement ‹_› ‹_›)
    have later : statementsWithin bound _ _ = statementsWithin other _ _ :=
      agree _ _ (.laterStatements ‹_› ‹_›)
    dsimp only
    rw [← first, later]

/-- A statement is read alike if the calls from there are. -/
theorem statement (agree : CallsAgree bound other .statement reading) :
    statementWithin (bound + 1) reading = statementWithin (other + 1) reading := by
  unfold statementWithin
  dsimp only
  split
  · rfl
  rename_i head rest there
  have sees {text : String} (is : head.is text) : reading.sees text := sees_of_head there is
  split
  · have body : bodyWithin bound _ _ = bodyWithin other _ _ :=
      agree _ _ (.labelled (not_done_of_cons there))
    rw [body]
  split
  · rfl
  split
  · have inner : blockWithin bound _ = blockWithin other _ := agree _ _ (.innerBlock (sees ‹_›))
    rw [inner]
  split
  · have body : bodyWithin bound _ _ = bodyWithin other _ _ :=
      agree _ _ (.governed (.inl (sees ‹_›)))
    split
    · have alternative : bodyWithin bound _ _ = bodyWithin other _ _ :=
        agree _ _ (.alternative (sees ‹_›) rfl ‹_›)
      rw [alternative, body, if_pos (body ▸ ‹_›)]
    · rw [← body, if_neg ‹_›]
  split
  · have body : bodyWithin bound _ _ = bodyWithin other _ _ := agree _ _ (.forBody (sees ‹_›))
    rw [body]
  split
  · have body : bodyWithin bound _ _ = bodyWithin other _ _ :=
      agree _ _ (.governed (.inr (sees ‹_›)))
    rw [body]
  split
  · have body : bodyWithin bound _ _ = bodyWithin other _ _ := agree _ _ (.doBody (sees ‹_›))
    rw [body]
  · rfl

/-- A body is read alike if the calls from there are. -/
theorem body {start : Position} (agree : CallsAgree bound other (.body start) reading) :
    bodyWithin (bound + 1) start reading = bodyWithin (other + 1) start reading := by
  unfold bodyWithin
  split
  · rfl
  · rename_i inside
    simp only [Bool.or_eq_true, not_or] at inside
    have inner : statementWithin bound _ = statementWithin other _ :=
      agree _ _ (.governedStatement inside.2 inside.1)
    rw [inner]

end CallsAgree

/-- **A call knows its bound only by its calls.** With another bound the same is read if all calls
read the same. -/
theorem run_congr (agree : CallsAgree bound other routine reading) :
    routine.run (bound + 1) reading = routine.run (other + 1) reading := by
  cases routine with
  | declarations => exact agree.declarations
  | member => exact agree.member
  | plainMember => rfl
  | type => exact agree.type
  | members => exact agree.members
  | methodRest => rfl
  | parameters => exact agree.parameters
  | fields => exact agree.fields
  | types => exact agree.types
  | preamble => exact agree.preamble
  | block => exact agree.block
  | statements => exact agree.statements
  | statement => exact agree.statement
  | body => exact agree.body

/-- A bound that is larger than one that is enough is enough. -/
theorem Suffices.mono (enough : Suffices ⟨bound, routine, reading⟩) (more : bound ≤ other) :
    Suffices ⟨other, routine, reading⟩ := by
  cases routine <;> exact Nat.lt_of_lt_of_le enough more

/-- A routine does not depend on one more than enough. -/
theorem run_succ (enough : Suffices ⟨bound, routine, reading⟩) :
    routine.run (bound + 1) reading = routine.run bound reading := by
  induction bound generalizing routine reading with
  | zero => exact absurd (bound_pos enough) (Nat.lt_irrefl 0)
  | succ bound ih =>
      exact (run_congr fun callee later calls => (ih (calls.suffices enough)).symm).symm

/-- **A bound that suffices changes nothing.** Every greater bound gives the same. -/
theorem run_eq_of_suffices (enough : Suffices ⟨bound, routine, reading⟩) (more : bound ≤ other) :
    routine.run other reading = routine.run bound reading := by
  induction other, more using Nat.le_induction with
  | base => rfl
  | succ other more ih => rw [run_succ (enough.mono more), ih]

/-- A call leaves the last of the tokens that it had. -/
theorem onward_outcome (call : Call) : call.reading.Onward call.outcome.2 := by
  obtain ⟨bound, routine, reading⟩ := call
  cases routine with
  | declarations => exact (proceeds_declarationsWithin reading bound).onward
  | member => exact (proceeds_memberWithin bound _ reading).onward
  | plainMember owner front start => exact (proceeds_plainMember reading owner front start).onward
  | type kind word start => exact (proceeds_typeWithin bound kind word start reading).onward
  | members owner word header =>
      exact (proceeds_membersWithin bound owner word header reading).onward
  | methodRest method => exact (proceeds_methodRest reading method).onward
  | parameters => exact (proceeds_parametersWithin reading bound).onward
  | fields => exact (proceeds_fieldsWithin reading _ _ bound _).onward
  | types => exact (proceeds_typesWithin reading bound).onward
  | preamble => exact (proceeds_preambleWithin reading bound).onward
  | block => exact (proceeds_blockWithin bound reading).onward
  | statements => exact (proceeds_statementsWithin bound _ reading).onward
  | statement => exact (proceeds_statementWithin bound reading).onward
  | body => exact (proceeds_bodyWithin bound _ reading).onward

end Call

/-- Declarations are read up to the end. -/
theorem rest_declarationsWithin (bound : Nat) (enough : reading.rest.length < bound) :
    (declarationsWithin bound reading).2.rest = [] := by
  induction bound generalizing reading with
  | zero => exact absurd enough (Nat.not_lt_zero _)
  | succ bound ih =>
      have fewer {after : Reading} (consumes : reading.Consumes after) :
          after.rest.length < bound :=
        Nat.lt_of_lt_of_le consumes.2 (Nat.le_of_lt_succ enough)
      rw [declarationsWithin_succ]
      split
      · exact done_iff.mp ‹_›
      split
      · exact ih (fewer (consumes_next ‹_›))
      · exact ih (fewer (consumes_declaration ‹_›))

/-- **Reading a text ends.** Whatever the tokens of a text are, of all calls that come from reading
it none has used up its bound, and a greater one would change nothing; no call and no answer goes
back in the text; a function that is entered again, be it for the next turn of a loop or from a
function that it called, has at least one token less to read. So no more calls are open at a time
than four for each token, and two; and at the end all tokens are read. -/
theorem reading_ends (tokens : List Token) (finish : Position) :
    let first : Call := ⟨tokens.length + 1, .declarations, { rest := tokens, finish }⟩
    (∀ call, Relation.ReflTransGen Call.Calls first call →
      0 < call.bound ∧
      (∀ bound, call.bound ≤ bound → call.routine.run bound call.reading = call.outcome) ∧
      call.reading.Onward call.outcome.2 ∧
      (∀ callee, call.Calls callee → call.reading.Onward callee.reading) ∧
      ∀ again, Relation.TransGen Call.Calls call again → call.routine.Same again.routine →
        call.reading.Consumes again.reading) ∧
    (∀ calls : List Call, (first :: calls).IsChain Call.Calls →
      calls.length ≤ 4 * tokens.length + 2) ∧
    first.outcome.2.rest = [] := by
  intro first
  have start : first.Suffices := Nat.lt_succ_self tokens.length
  refine ⟨?_, ?_, ?_⟩
  · intro call reached
    have enough := (Call.reaches reached start).1
    refine ⟨Call.bound_pos enough, ?_, call.onward_outcome, ?_, ?_⟩
    · intro bound more
      exact Call.run_eq_of_suffices enough more
    · intro callee calls
      exact calls.onward enough
    · intro again reached same
      exact Call.consumes_of_transGen reached enough same
  · intro calls chain
    exact Call.length_le_of_isChain calls chain start
  · exact rest_declarationsWithin _ (Nat.lt_succ_self tokens.length)

end Parser

end Transcode
