import Transcode.Proofs.EqualitySigns

/-!
# Comparisons in expressions

The rule for equality makes three of each two signs, and the rule for inequality two of each sign
behind its mark; all other operators stay as they are (`Output.operators_expression`). That takes
code as programs have it, and two characters between operators that both compare: the rule for
equality takes the characters beside its signs, and so passes over signs right behind them
(`Output.expression_crowded`).
-/

namespace Transcode.Output

open Regex Text

/-! ### A run of the rule for equality -/

/-- A sign as programs have it: its operator is known, an operand parts it from the operator before,
and they do not both compare with just one character between them. -/
structure Sign.IsFine (sign : Sign) : Prop where
  known : sign.operator.IsKnown
  operand : sign.near.isSome → sign.operator.mark = none
  roomy : ¬(sign.operator.count = 2 ∧ sign.near = some 2)

/-- Two signs become three. -/
def equatedCount (count : Nat) : Nat := if count = 2 then 3 else count

/-- A sign behind the rule for equality. -/
def Sign.equated (sign : Sign) : Sign :=
  ⟨⟨sign.operator.mark, equatedCount sign.operator.count⟩, sign.near.map equatedCount⟩

/-- A scan behind the rule for equality. -/
def Stand.equated : Stand → Stand
  | .apart mark near => .apart mark (near.map equatedCount)
  | .behind sign => .behind sign.equated

section Equality

variable {read rest out : List Char} {mark : Option Char} {near : Option Nat}

/-- Two signs in fine code are not followed by a third. -/
theorem isFine_pair
    (fine : ∀ sign ∈ signsFrom (.apart mark near) ('=' :: '=' :: rest), sign.IsFine) :
    (⟨⟨mark, 2⟩, near⟩ : Sign).IsFine ∧ ∃ tail others, rest = tail ++ others ∧
      IsTail tail others := by
  change ∀ sign ∈ signsFrom (.behind ⟨⟨mark, 2⟩, near⟩) rest, sign.IsFine at fine
  have noMore : rest.head? ≠ some '=' := by
    intro more
    obtain ⟨others, rfl⟩ := List.head?_eq_some_iff.mp more
    obtain ⟨found, member, more, _⟩ := exists_sign_behind ⟨⟨mark, 3⟩, near⟩ others
    have three : 3 ≤ found.operator.count := more
    rcases (fine found member).known with one | ⟨two, _⟩ <;> omega
  obtain ⟨later, same⟩ := signsFrom_behind ⟨⟨mark, 2⟩, near⟩ noMore
  refine ⟨fine _ (same ▸ List.mem_cons_self), ?_⟩
  cases rest with
  | nil => exact ⟨[], [], rfl, .inl ⟨rfl, rfl⟩⟩
  | cons c others => exact ⟨[c], others, rfl,
      .inr ⟨c, rfl, fun same => noMore (congrArg some same)⟩⟩

theorem Stand.pending_equated (stand : Stand) :
    stand.equated.pending = stand.pending.map (·.equated) := by
  cases stand <;> rfl

/-- Where a run of the rule for equality stands, no two signs come next that it does not match. -/
def IsReady (read rest : List Char) : Stand → Prop
  | .apart _ _ => read ≠ [] → ¬['=', '='] <+: rest
  | .behind sign => sign.operator.count = 1 ∧ rest.head? ≠ some '='

/-- The characters before matched signs make no operator of them. -/
theorem IsFront.exists_apart {front : List Char} (isFront : IsFront read front) {stand : Stand}
    (ready : IsReady read (front ++ '=' :: rest) stand) :
    ∃ pending mark near, ∀ rest,
      signsFrom stand (front ++ rest) = pending ++ signsFrom (.apart mark near) rest ∧
      signsFrom stand.equated (front ++ rest) =
        pending.map (·.equated) ++ signsFrom (Stand.apart mark near).equated rest := by
  rcases isFront with ⟨rfl, rfl⟩ | ⟨d, rfl, other⟩
  · cases stand with
    | apart mark near => exact ⟨[], mark, near, fun _ => ⟨rfl, rfl⟩⟩
    | behind sign => exact absurd rfl ready.2
  · have noSign : d ≠ '=' := fun same => other (same ▸ List.mem_cons_self)
    refine ⟨stand.pending, markOf d, stand.passed,
      fun rest => ⟨signsFrom_other noSign stand rest, ?_⟩⟩
    rw [List.singleton_append, signsFrom_other noSign, Stand.pending_equated]
    cases stand <;> rfl

/-- **A run of the rule for equality** makes three of each two signs, and keeps all other signs. -/
theorem Substitution.Makes.equated (makes : equalityRule.Makes read rest out) (stand : Stand)
    (ready : IsReady read rest stand) (fine : ∀ sign ∈ signsFrom stand rest, sign.IsFine) :
    signsFrom stand.equated out = (signsFrom stand rest).map (·.equated) := by
  induction makes generalizing stand with
  | done => cases stand <;> rfl
  | @keep read rest out c kept _ ih =>
      by_cases isSign : c = '='
      · subst isSign
        cases stand with
        | behind sign => exact absurd rfl ready.2
        | apart mark near =>
            -- Two signs would have been matched here, or with the character before them.
            have single : rest.head? ≠ some '=' := by
              intro more
              obtain ⟨others, rfl⟩ := List.head?_eq_some_iff.mp more
              obtain ⟨_, tail, others, rfl, isTail⟩ := isFine_pair fine
              by_cases atStart : read = []
              · exact swap?_equality_ne_none ⟨rfl, .inl ⟨rfl, atStart⟩, isTail⟩ kept
              · exact ready atStart ⟨_, rfl⟩
            exact ih (.behind ⟨⟨mark, 1⟩, near⟩) ⟨rfl, single⟩ fine
      · rw [signsFrom_other isSign] at fine ⊢
        obtain ⟨_, later⟩ := List.forall_mem_append.mp fine
        have next : IsReady (read ++ [c]) rest (.apart (markOf c) stand.passed) := by
          rintro _ ⟨others, rfl⟩
          obtain ⟨isFine, tail, others, rfl, isTail⟩ := isFine_pair later
          refine swap?_equality_ne_none ⟨rfl, .inr ⟨c, rfl, fun member => ?_⟩, isTail⟩ kept
          have isMark := (List.mem_cons.mp member).resolve_left isSign
          have known : markOf c = some c :=
            if_pos (List.mem_append_left (operatorMarks.drop 3) isMark)
          rcases isFine.known with one | ⟨_, marks⟩
          · cases one
          · exact marks c known isMark
        rw [signsFrom_other isSign, List.map_append, ← ih _ next later, Stand.pending_equated]
        cases stand <;> rfl
  | @swap read rest out swap found makes ih =>
      obtain ⟨front, tail, ⟨same, isFront, isTail⟩, taken, written⟩ := swap?_equality found
      rw [same] at ready fine ⊢
      obtain ⟨pending, mark, near, scanned⟩ := isFront.exists_apart ready
      rw [(scanned _).1] at fine ⊢
      obtain ⟨_, later⟩ := List.forall_mem_append.mp fine
      rw [written, List.append_assoc, (scanned _).2, List.map_append, List.append_cancel_left_eq]
      rcases isTail with ⟨rfl, atEnd⟩ | ⟨c, rfl, other⟩
      · rw [atEnd] at makes ⊢
        rw [makes.eq_nil (by decide)]
        rfl
      · change signsFrom (.behind ⟨⟨mark, 3⟩, near.map equatedCount⟩) (c :: out) =
          (signsFrom (.behind ⟨⟨mark, 2⟩, near⟩) (c :: swap.rest)).map (·.equated)
        change ∀ sign ∈ signsFrom (.behind ⟨⟨mark, 2⟩, near⟩) (c :: swap.rest), sign.IsFine at later
        rw [signsFrom_other other] at later ⊢
        obtain ⟨_, last⟩ := List.forall_mem_append.mp later
        have next : IsReady (read ++ swap.taken) swap.rest (.apart (markOf c) (some 2)) := by
          rintro _ ⟨others, again⟩
          have fine := again ▸ last
          exact (isFine_pair fine).1.roomy ⟨rfl, rfl⟩
        rw [signsFrom_other other, List.map_append]
        exact congrArg _ (ih _ next last)

end Equality

/-! ### A run of the rule for inequality -/

/-- A sign as the rule for equality leaves it: a mark of inequality stands before one sign, and not
right behind other signs. -/
structure Sign.IsEquated (sign : Sign) : Prop where
  single : sign.operator.mark = some '!' → sign.operator.count = 1
  operand : sign.near.isSome → sign.operator.mark = none

/-- A fine sign is one the rule for equality leaves equated. -/
theorem Sign.IsFine.isEquated {sign : Sign} (fine : sign.IsFine) : sign.equated.IsEquated where
  single isMark := by
    rcases fine.known with one | ⟨_, marks⟩
    · exact (congrArg equatedCount one).trans rfl
    · exact absurd List.mem_cons_self (marks '!' isMark)
  operand isNear := fine.operand (by simpa [Sign.equated] using isNear)

/-- An operator behind the rule for inequality. -/
def Operator.unequated (operator : Operator) : Operator :=
  if operator.mark = some '!' ∧ operator.count = 1 then ⟨operator.mark, 2⟩ else operator

theorem Operator.unequated_of_ne {operator : Operator} (other : operator.mark ≠ some '!') :
    operator.unequated = operator := if_neg fun both => other both.1

section Inequality

variable {read rest out : List Char} {near : Option Nat}

/-- Where a run of the rule for inequality stands, it is not amid what the rule matches. -/
def IsPast (rest : List Char) : Stand → Prop
  | .apart mark _ => rest.head? = some '=' → mark ≠ some '!'
  | .behind sign => sign.operator.mark ≠ some '!'

/-- Past a sign, the pending operators are as the rule for inequality leaves them. -/
theorem IsPast.map_pending {stand : Stand} (past : IsPast rest stand) :
    stand.pending.map (·.operator) = stand.pending.map (·.operator.unequated) := by
  cases stand with
  | apart => rfl
  | behind sign => exact congrArg (· :: []) (Operator.unequated_of_ne past).symm

/-- One sign behind the mark of inequality is followed by no other. -/
theorem isTail_of_isEquated
    (equated : ∀ sign ∈ signsFrom (.apart (some '!') near) ('=' :: rest), sign.IsEquated) :
    ∃ tail others, rest = tail ++ others ∧ IsTail tail others := by
  change ∀ sign ∈ signsFrom (.behind ⟨⟨some '!', 1⟩, near⟩) rest, sign.IsEquated at equated
  cases rest with
  | nil => exact ⟨[], [], rfl, .inl ⟨rfl, rfl⟩⟩
  | cons c others =>
      refine ⟨[c], others, rfl, .inr ⟨c, rfl, ?_⟩⟩
      rintro rfl
      obtain ⟨found, member, more, isMark, _⟩ := exists_sign_behind ⟨⟨some '!', 2⟩, near⟩ others
      have two : 2 ≤ found.operator.count := more
      have one := (equated found member).single isMark
      omega

/-- **A run of the rule for inequality** makes two of each sign behind its mark, and keeps all other
operators. -/
theorem Substitution.Makes.unequated (makes : inequalityRule.Makes read rest out) (stand : Stand)
    (past : IsPast rest stand) (equated : ∀ sign ∈ signsFrom stand rest, sign.IsEquated) :
    (signsFrom stand out).map (·.operator) =
      (signsFrom stand rest).map (·.operator.unequated) := by
  induction makes generalizing stand with
  | done =>
      cases stand with
      | apart => rfl
      | behind sign => exact past.map_pending
  | @keep read rest out c kept _ ih =>
      by_cases isSign : c = '='
      · subst isSign
        cases stand with
        | apart mark near => exact ih (.behind ⟨⟨mark, 1⟩, near⟩) (past rfl) equated
        | behind sign =>
            exact ih (.behind ⟨⟨sign.operator.mark, sign.operator.count + 1⟩,
              sign.near⟩) past equated
      · rw [signsFrom_other isSign] at equated ⊢
        obtain ⟨_, later⟩ := List.forall_mem_append.mp equated
        have next : IsPast rest (.apart (markOf c) stand.passed) := by
          intro more isMark
          obtain ⟨others, rfl⟩ := List.head?_eq_some_iff.mp more
          rw [isMark] at later
          obtain ⟨tail, others, rfl, isTail⟩ := isTail_of_isEquated later
          have same : c = '!' := by
            unfold markOf at isMark
            split at isMark
            · exact Option.some.inj isMark
            · cases isMark
          exact swap?_inequality_ne_none isTail (same ▸ kept)
        rw [signsFrom_other isSign, List.map_append, List.map_append, ih _ next later,
          past.map_pending]
  | @swap read rest out swap found makes ih =>
      obtain ⟨tail, same, isTail, taken, written⟩ := swap?_inequality found
      have noSign : '!' ≠ '=' := by decide
      rw [same, signsFrom_other noSign] at equated ⊢
      obtain ⟨_, later⟩ := List.forall_mem_append.mp equated
      rw [written, List.cons_append, List.cons_append, List.cons_append, signsFrom_other noSign,
        List.map_append, List.map_append, past.map_pending, List.append_cancel_left_eq]
      change (signsFrom (.behind ⟨⟨some '!', 2⟩, stand.passed⟩) (tail ++ out)).map (·.operator) =
        (signsFrom (.behind ⟨⟨some '!', 1⟩, stand.passed⟩) (tail ++ swap.rest)).map
          (·.operator.unequated)
      change ∀ sign ∈ signsFrom (.behind ⟨⟨some '!', 1⟩, stand.passed⟩) (tail ++ swap.rest),
        sign.IsEquated at later
      rcases isTail with ⟨rfl, atEnd⟩ | ⟨c, rfl, other⟩
      · rw [atEnd] at makes ⊢
        rw [makes.eq_nil (by decide)]
        rfl
      · rw [List.singleton_append, signsFrom_other other] at later ⊢
        obtain ⟨_, last⟩ := List.forall_mem_append.mp later
        have next : IsPast swap.rest (.apart (markOf c) (some 1)) := by
          intro more isMark
          obtain ⟨others, again⟩ := List.head?_eq_some_iff.mp more
          obtain ⟨found, member, _, sameMark, sameNear⟩ :=
            exists_sign_behind ⟨⟨markOf c, 1⟩, some 1⟩ others
          have noMark := (last found (again ▸ member)).operand (sameNear ▸ rfl)
          rw [sameMark, isMark] at noMark
          cases noMark
        rw [List.singleton_append, signsFrom_other other, List.map_append, List.map_append]
        refine congrArg _ ((map_operator_apart _ _ _ out).trans (ih _ next last))

end Inequality

/-! ### Operators of expressions -/

/-- Code in which the operators are known and have operands between them. Two signs compare with
more than one character between them, and no creation of a collection takes a sign. -/
structure IsComparable (code : List Char) : Prop where
  fine : ∀ sign ∈ signs code, sign.IsFine
  spare : SpareAll '=' libraryRules code

/-- Both rules together write a fine operator as it should be. -/
theorem Sign.IsFine.unequated_equated {sign : Sign} (fine : sign.IsFine) :
    sign.equated.operator.unequated = sign.operator.written := by
  obtain ⟨⟨mark, count⟩, near⟩ := sign
  rcases fine.known with one | ⟨two, _⟩
  · obtain rfl : count = 1 := one
    simp [Sign.equated, equatedCount, Operator.unequated, Operator.written]
  · obtain rfl : count = 2 := two
    simp [Sign.equated, equatedCount, Operator.unequated, Operator.written]

/-- **Operators of code** are written each on its own. -/
theorem operators_replaceCode {code : List Char} (comparable : IsComparable code) :
    operators (({} : Scope).replaceCode code) = (operators code).map (·.written) := by
  obtain ⟨library, isLibrary⟩ :
      ∃ library, library = applyAll libraryRules code := ⟨_, rfl⟩
  have same : signs library = signs code := isLibrary ▸ signs_library comparable.spare
  have fine : ∀ sign ∈ signs library, sign.IsFine := same ▸ comparable.fine
  have equated : signs (equalityRule.apply library) = (signs library).map (·.equated) :=
    ((makes_iff (by decide)).mpr rfl).equated (.apart none none)
      (fun atStart => absurd rfl atStart) fine
  have alsoEquated : ∀ sign ∈ signs (equalityRule.apply library), sign.IsEquated := by
    rw [equated]
    exact List.forall_mem_map.mpr fun sign member => (fine sign member).isEquated
  have unequated : operators (inequalityRule.apply (equalityRule.apply library)) =
      (signs (equalityRule.apply library)).map (·.operator.unequated) :=
    ((makes_iff (by decide)).mpr rfl).unequated (.apart none none) (fun _ => by decide) alsoEquated
  calc operators (({} : Scope).replaceCode code)
      = operators (longRule.apply (inequalityRule.apply (equalityRule.apply library))) := by
        rw [replaceCode_eq_applyAll, expressionSubstitutions_eq, applyAll_append, ← isLibrary]
        simp only [applyAll, List.foldl_cons, List.foldl_nil]
    _ = (signs code).map (·.equated.operator.unequated) := by
        rw [operators_long, unequated, equated, same, List.map_map]
        rfl
    _ = (operators code).map (·.written) := by
        rw [operators, List.map_map]
        exact List.map_congr_left fun sign member =>
          (comparable.fine sign member).unequated_equated

/-- The code parts of a layout. -/
def codeParts (parts : List Section) : List (List Char) :=
  parts.filterMap fun part =>
    match part with
    | .code code => some code
    | .literal _ => none

/-- **Equality operators are translated everywhere:** between the literals of a text, what its code
parts are written as has their operators, each as it is written. -/
theorem operators_expression {text : String} {parts : List Section}
    (layout : IsLayout text.toList parts)
    (comparable : ∀ code ∈ codeParts parts, IsComparable code) :
    IsLayout (({} : Scope).expression text).toList (parts.map (·.change ({} : Scope).replaceCode)) ∧
      ∀ code ∈ codeParts parts,
        operators (({} : Scope).replaceCode code) = (operators code).map (·.written) := by
  refine ⟨?_, fun code member => operators_replaceCode (comparable code member)⟩
  rw [Scope.expression, String.toList_ofList, mapCode, isLayout_iff.mp layout]
  exact layout.mapCode fun _ isCode => Scope.IsUnquoted.empty.writesCode.isCode_replaceCode isCode

/-! ### Evaluation -/

instance (operator : Operator) : Decidable operator.IsKnown :=
  letI : Decidable (∀ mark ∈ operator.mark, mark ∉ ['!', '<', '>']) := Option.decidableForallMem _
  inferInstanceAs (Decidable (_ ∨ _ ∧ _))

instance (sign : Sign) : Decidable sign.IsFine :=
  decidable_of_iff (sign.operator.IsKnown ∧ (sign.near.isSome → sign.operator.mark = none) ∧
      ¬(sign.operator.count = 2 ∧ sign.near = some 2))
    ⟨fun ⟨known, operand, roomy⟩ => ⟨known, operand, roomy⟩,
      fun ⟨known, operand, roomy⟩ => ⟨known, operand, roomy⟩⟩

/-- Whether no match of substitutions takes a character, by a look at every place of the text. -/
def sparesAll (c : Char) : List Substitution → List Char → Bool
  | [], _ => true
  | substitution :: rest, code =>
    (List.range (code.length + 1)).all (fun place =>
      (substitution.swap? (code.take place) (code.drop place)).all (!·.taken.contains c)) &&
    sparesAll c rest (substitution.rewrite (code.length + 1) [] code)

/-- The test that rules spare a character tells the truth. -/
theorem spareAll_of_sparesAll {c : Char} {rules : List Substitution} {code : List Char}
    (consumes : ∀ rule ∈ rules, 0 < rule.pattern.least) (spares : sparesAll c rules code) :
    SpareAll c rules code := by
  induction rules generalizing code with
  | nil => trivial
  | cons rule rest ih =>
      obtain ⟨here, later⟩ := List.forall_mem_cons.mp consumes
      rw [sparesAll, Bool.and_eq_true, List.all_eq_true] at spares
      obtain ⟨places, others⟩ := spares
      refine ⟨fun before after swap same found member => ?_, ?_⟩
      · have place : before.length ∈ List.range (code.length + 1) := by
          rw [List.mem_range, ← same, List.length_append]
          omega
        have free := places _ place
        rw [← same, List.take_left, List.drop_left, found] at free
        simp [member] at free
      · rw [Substitution.apply_eq_rewrite here]
        exact ih later others

/-- Comparisons with and without blanks, in parentheses and beside literals, and other operators. -/
theorem operators_expression_mixed :
    let text := "a==b&&i++ == j || x!=\"==\" && (i <= n) == (y += 1)"
    let parts := [Section.code "a==b&&i++ == j || x!=".toList, .literal "\"==\"".toList,
      .code " && (i <= n) == (y += 1)".toList]
    (IsLayout text.toList parts ∧ ∀ code ∈ codeParts parts, IsComparable code) ∧
      IsLayout (({} : Scope).expression text).toList
        (parts.map (·.change ({} : Scope).replaceCode)) ∧
      ∀ code ∈ codeParts parts,
        operators (({} : Scope).replaceCode code) = (operators code).map (·.written) := by
  intro text parts
  have layout : IsLayout text.toList parts := isLayout_iff.mpr (by decide +kernel)
  have checked : ∀ code ∈ codeParts parts,
      (∀ sign ∈ signs code, sign.IsFine) ∧ sparesAll '=' libraryRules code := by decide +kernel
  have consumes : ∀ rule ∈ libraryRules, 0 < rule.pattern.least := by decide
  have comparable (code : List Char) (member : code ∈ codeParts parts) : IsComparable code :=
    ⟨(checked code member).1, spareAll_of_sparesAll consumes (checked code member).2⟩
  exact ⟨⟨layout, comparable⟩, operators_expression layout comparable⟩

/-- Of two comparisons with just one character between them, the second is left as it is. -/
theorem expression_crowded :
    ({} : Scope).expression "a==b==c" = "a===b==c" ∧
      operators "a===b==c".toList ≠ (operators "a==b==c".toList).map (·.written) := by
  have replaced : mapCode ({} : Scope).replaceCode "a==b==c".toList = "a===b==c".toList := by
    rw [funext replaceCode_empty]
    decide +kernel
  refine ⟨?_, by decide⟩
  rw [Scope.expression, replaced, String.ofList_toList]

end Transcode.Output
