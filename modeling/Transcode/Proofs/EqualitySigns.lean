import Transcode.Proofs.EqualityRules

/-!
# Signs of equality

The operators with signs of equality in code, as a scan from left to right finds them. What a rule
swaps does not matter to them if no sign is in it and no operator character at its end
(`Output.Substitution.Makes.sameSigns`), so the rules for the library and for numbers leave them as
they are (`Output.signs_library`, `Output.operators_long`).
-/

namespace Transcode.Output

open Regex Text

/-! ### Operators with signs of equality -/

/-- The characters that make another operator of signs of equality behind them. -/
def operatorMarks : List Char := ['!', '<', '>', '+', '-', '*', '/', '%', '&', '|', '^']

/-- Signs of equality in a row, with the operator character right before them if there is one. -/
structure Operator where
  mark : Option Char
  count : Nat
  deriving DecidableEq, Repr

/-- An operator in code. Where just one character parts it from signs of equality before it, `near`
says how many these are. -/
structure Sign where
  operator : Operator
  near : Option Nat
  deriving DecidableEq, Repr

/-- What a scan for signs stands behind: another character, with the operator character that it is,
and how many signs stand right before it; or signs. -/
inductive Stand where
  | apart (mark : Option Char) (near : Option Nat)
  | behind (sign : Sign)

/-- A character as the operator character before signs. -/
def markOf (c : Char) : Option Char := if c ∈ operatorMarks then some c else none

/-- The signs of the rest of some code. -/
def signsFrom : Stand → List Char → List Sign
  | .apart _ _, [] => []
  | .behind sign, [] => [sign]
  | .apart mark near, c :: rest =>
    if c = '=' then signsFrom (.behind ⟨⟨mark, 1⟩, near⟩) rest
    else signsFrom (.apart (markOf c) none) rest
  | .behind sign, c :: rest =>
    if c = '=' then
      signsFrom (.behind ⟨⟨sign.operator.mark, sign.operator.count + 1⟩, sign.near⟩) rest
    else sign :: signsFrom (.apart (markOf c) (some sign.operator.count)) rest

/-- The signs in code. -/
def signs (code : List Char) : List Sign := signsFrom (.apart none none) code

/-- The operators with signs of equality in code, from left to right. -/
def operators (code : List Char) : List Operator := (signs code).map (·.operator)

namespace Operator

/-- The operators of the language: those of comparison, assignment, and assignment with another
operator. -/
def IsKnown (operator : Operator) : Prop :=
  operator.count = 1 ∨ operator.count = 2 ∧ ∀ mark ∈ operator.mark, mark ∉ ['!', '<', '>']

/-- How an operator is written: equality and inequality get one more sign. -/
def written (operator : Operator) : Operator :=
  if operator.count = 2 ∨ operator.mark = some '!' ∧ operator.count = 1 then
    ⟨operator.mark, operator.count + 1⟩
  else operator

end Operator

example : operators "a == b != c && x <= (y += 1)".toList =
    [⟨none, 2⟩, ⟨some '!', 1⟩, ⟨some '<', 1⟩, ⟨some '+', 1⟩] := by decide

/-! ### Rules that leave signs alone -/

/-- The sign that ends where a scan stands. -/
def Stand.pending : Stand → List Sign
  | .apart _ _ => []
  | .behind sign => [sign]

/-- How many signs stand right before the next character. -/
def Stand.passed : Stand → Option Nat
  | .apart _ _ => none
  | .behind sign => some sign.operator.count

/-- Characters without signs that make no operator of signs behind them. -/
structure IsBlock (cs : List Char) : Prop where
  filled : cs ≠ []
  free : '=' ∉ cs
  ends : ∀ c ∈ cs.getLast?, c ∉ operatorMarks

section Blocks

variable {cs rest : List Char} {c : Char} {stand : Stand}

/-- A character other than the sign ends what is pending. -/
theorem signsFrom_other (other : c ≠ '=') (stand : Stand) (rest : List Char) :
    signsFrom stand (c :: rest) =
      stand.pending ++ signsFrom (.apart (markOf c) stand.passed) rest := by
  cases stand <;> rw [signsFrom, if_neg other] <;> rfl

/-- Text without the sign leaves only its last character as a mark. -/
theorem signsFrom_apart (free : '=' ∉ cs) (filled : cs ≠ []) (mark : Option Char)
    (near : Option Nat)
    (rest : List Char) : signsFrom (.apart mark near) (cs ++ rest) =
      signsFrom (.apart (cs.getLast?.bind markOf) none) rest := by
  induction cs generalizing mark near with
  | nil => exact absurd rfl filled
  | cons c cs ih =>
      obtain ⟨here, later⟩ := not_or.mp (List.mem_cons.not.mp free)
      rw [List.cons_append, signsFrom, if_neg (Ne.symm here)]
      cases cs with
      | nil => rfl
      | cons d cs =>
          rw [ih later (List.cons_ne_nil d cs), List.getLast?_cons_cons]

/-- A scan is through with the signs before a block, and stands apart behind it. -/
theorem IsBlock.signsFrom_append (block : IsBlock cs) (stand : Stand) (rest : List Char) :
    ∃ near, signsFrom stand (cs ++ rest) = stand.pending ++ signsFrom (.apart none near) rest ∧
      (2 ≤ cs.length → near = none) := by
  obtain ⟨c, others, rfl⟩ := List.exists_cons_of_ne_nil block.filled
  obtain ⟨here, later⟩ := not_or.mp (List.mem_cons.not.mp block.free)
  have noMark {last : Char} (isLast : last ∈ (c :: others).getLast?) : markOf last = none :=
    if_neg (block.ends last isLast)
  rw [List.cons_append, signsFrom_other (Ne.symm here)]
  cases others with
  | nil =>
      have last : markOf c = none := noMark rfl
      exact ⟨stand.passed, by rw [last]; rfl, fun long => absurd long (by simp)⟩
  | cons d others =>
      refine ⟨none, ?_, fun _ => rfl⟩
      have last := noMark (List.getLast?_eq_some_getLast (List.cons_ne_nil c (d :: others)))
      rw [signsFrom_apart later (List.cons_ne_nil d others), ← List.getLast?_cons_cons (a := c),
        List.getLast?_eq_some_getLast (List.cons_ne_nil c (d :: others)), Option.bind_some, last]

variable {α : Type} {f : Sign → α} {first second : List Char}

/-- Code in which, wherever a scan comes from, the same is found of all signs. -/
def SameSigns (f : Sign → α) (first second : List Char) : Prop :=
  ∀ stand, (signsFrom stand first).map f = (signsFrom stand second).map f

/-- Texts with the same signs have them behind any front. -/
theorem SameSigns.append (same : SameSigns f first second) (front : List Char) :
    SameSigns f (front ++ first) (front ++ second) := by
  induction front with
  | nil => exact same
  | cons c front ih =>
      intro stand
      cases stand <;> rw [List.cons_append, List.cons_append, signsFrom, signsFrom] <;> split
      · exact ih _
      · exact ih _
      · exact ih _
      · rw [List.map_cons, List.map_cons, ih]

/-- If the signs are the same wherever a rule swaps, then they are in all that it makes. -/
theorem Substitution.Makes.sameSigns {substitution : Substitution} {read rest out : List Char}
    (makes : substitution.Makes read rest out)
    (swaps : ∀ before after swap, before ++ after = read ++ rest →
      substitution.swap? before after = some swap →
      ∀ rest, SameSigns f (swap.written ++ rest) (swap.taken ++ rest)) : SameSigns f out rest := by
  induction makes with
  | done => exact fun _ => rfl
  | @keep read rest out c _ _ ih =>
      refine SameSigns.append (ih fun before after swap same => ?_) [c]
      exact swaps before after swap (by rw [same, List.append_assoc]; rfl)
  | @swap read rest out swap found _ ih =>
      have same := Substitution.rest_eq_of_swap? found
      have later := ih fun before after other also =>
        swaps before after other (by rw [also, List.append_assoc, ← same])
      rw [same]
      exact fun stand => (swaps read rest swap rfl found out stand).trans
        (later.append swap.taken stand)

end Blocks

section Behind

variable {rest : List Char}

/-- Where no further sign comes, the signs that a scan is behind are all of their operator. -/
theorem signsFrom_behind (sign : Sign) (noMore : rest.head? ≠ some '=') :
    ∃ later, signsFrom (.behind sign) rest = sign :: later := by
  cases rest with
  | nil => exact ⟨[], rfl⟩
  | cons c rest =>
      have other : c ≠ '=' := fun same => noMore (congrArg some same)
      exact ⟨_, by rw [signsFrom, if_neg other]⟩

/-- A run of signs goes on as one operator with the mark it began with. -/
theorem exists_sign_behind (sign : Sign) (rest : List Char) :
    ∃ found ∈ signsFrom (.behind sign) rest, sign.operator.count ≤ found.operator.count ∧
      found.operator.mark = sign.operator.mark ∧ found.near = sign.near := by
  induction rest generalizing sign with
  | nil => exact ⟨sign, List.mem_singleton_self sign, Nat.le_refl _, rfl, rfl⟩
  | cons c rest ih =>
      rw [signsFrom]
      split
      · obtain ⟨found, member, more, same⟩ :=
          ih ⟨⟨sign.operator.mark, sign.operator.count + 1⟩, sign.near⟩
        exact ⟨found, member, Nat.le_of_succ_le more, same⟩
      · exact ⟨sign, List.mem_cons_self, Nat.le_refl _, rfl, rfl⟩

/-- Which operators follow does not depend on how near the last one was. -/
theorem map_operator_behind (operator : Operator) (near other : Option Nat) (rest : List Char) :
    (signsFrom (.behind ⟨operator, near⟩) rest).map (·.operator) =
      (signsFrom (.behind ⟨operator, other⟩) rest).map (·.operator) := by
  induction rest generalizing operator with
  | nil => rfl
  | cons c rest ih =>
      rw [signsFrom, signsFrom]
      split
      · exact ih _
      · rfl

/-- Which operators come next does not depend on how near the signs before are. -/
theorem map_operator_apart (mark : Option Char) (near other : Option Nat) (rest : List Char) :
    (signsFrom (.apart mark near) rest).map (·.operator) =
      (signsFrom (.apart mark other) rest).map (·.operator) := by
  cases rest with
  | nil => rfl
  | cons c rest =>
      rw [signsFrom, signsFrom]
      split
      · exact map_operator_behind ⟨mark, 1⟩ near other rest
      · rfl

end Behind

/-! ### Rules that take no signs -/

/-- No match of a substitution in some code takes a character. -/
def Substitution.Spares (substitution : Substitution) (c : Char) (code : List Char) : Prop :=
  ∀ read rest swap, read ++ rest = code → substitution.swap? read rest = some swap → c ∉ swap.taken

/-- No match of substitutions that are made one after the other takes a character. -/
def SpareAll (c : Char) : List Substitution → List Char → Prop
  | [], _ => True
  | substitution :: rest, code =>
    substitution.Spares c code ∧ SpareAll c rest (substitution.apply code)

section Library

/-- What the rules for the library have in common: they take and write at least two characters, and
write no signs. -/
theorem shape_of_mem_libraryRules : ∀ rule ∈ libraryRules,
    2 ≤ rule.pattern.least ∧
    rule.pattern.closing? ∈ [some (.single '('), some (.single ')')] ∧
    '=' ∉ rule.replacement.toList ∧
    ('$' ∉ rule.replacement.toList ∧ 2 ≤ rule.replacement.toList.length ∧
        rule.replacement.toList.getLast?.all (· ∉ operatorMarks) ∨
      rule.replacement = "catch ($1)") := by
  decide +kernel

variable {rule : Substitution} {read rest : List Char} {swap : Swap}

/-- What a rule of the library takes without the sign is a block of at least two characters. -/
theorem isBlock_taken (isRule : rule ∈ libraryRules) (found : rule.swap? read rest = some swap)
    (free : '=' ∉ swap.taken) : IsBlock swap.taken ∧ 2 ≤ swap.taken.length := by
  obtain ⟨two, closes, _⟩ := shape_of_mem_libraryRules rule isRule
  have long := Nat.le_trans two (Substitution.least_le_of_swap? found)
  have filled : swap.taken ≠ [] := List.ne_nil_of_length_pos (by omega)
  obtain ⟨stop, member, reads, _⟩ := Substitution.exists_of_swap? found
  refine ⟨⟨filled, free, fun c last => ?_⟩, long⟩
  have isLast : c ∈ stop.before := by
    rw [reads.before_eq, last]
    rfl
  have isClosing {d : Char} (closes : rule.pattern.closing? = some (.single d)) : c = d := by
    obtain ⟨other, isOther, isMember⟩ := exists_before_of_closing? closes member
    rw [Option.some.inj (isLast.symm.trans isOther)]
    exact CharSet.mem_single.mp isMember
  rcases List.mem_pair.mp closes with closes | closes <;> rw [isClosing closes] <;> decide

/-- What it writes for it is a block of at least two characters. -/
theorem isBlock_written (isRule : rule ∈ libraryRules) (found : rule.swap? read rest = some swap)
    (free : '=' ∉ swap.taken) : IsBlock swap.written ∧ 2 ≤ swap.written.length := by
  obtain ⟨_, _, noSigns, shape⟩ := shape_of_mem_libraryRules rule isRule
  have alsoFree : '=' ∉ swap.written := fun member =>
    (Substitution.mem_of_mem_written found '=' member).elim noSigns free
  obtain ⟨stop, _, _, _, written⟩ := Substitution.exists_of_swap? found
  have parts : 2 ≤ swap.written.length ∧ ∀ c ∈ swap.written.getLast?, c ∉ operatorMarks := by
    rcases shape with ⟨plain, long, ends⟩ | same
    · rw [← written, expand_of_plain plain]
      refine ⟨long, fun c last => ?_⟩
      rw [last, Option.all_some] at ends
      exact of_decide_eq_true ends
    · have expanded : swap.written = "catch (".toList ++
          (groupText (.between read rest) stop ['1'] ++ [')']) := by
        rw [← written, same]
        rfl
      rw [expanded, ← List.append_assoc]
      refine ⟨by simp, fun c last => ?_⟩
      rw [List.getLast?_concat] at last
      obtain rfl := Option.some.inj last
      decide
  exact ⟨⟨List.ne_nil_of_length_pos (by omega), alsoFree, parts.2⟩, parts.1⟩

/-- **The rules for the library** leave all signs as they are, if they take none of them. -/
theorem signs_library {code : List Char} (spare : SpareAll '=' libraryRules code) :
    signs (applyAll libraryRules code) = signs code := by
  have each (rules : List Substitution) (isRule : ∀ rule ∈ rules, rule ∈ libraryRules)
      (code : List Char) (spare : SpareAll '=' rules code) :
      SameSigns id (applyAll rules code) code := by
    induction rules generalizing code with
    | nil => exact fun _ => rfl
    | cons rule rest ih =>
        obtain ⟨isLibrary, others⟩ := List.forall_mem_cons.mp isRule
        have consumes : 0 < rule.pattern.least :=
          Nat.lt_of_lt_of_le Nat.two_pos (shape_of_mem_libraryRules rule isLibrary).1
        have here : SameSigns id (rule.apply code) code := by
          refine ((makes_iff consumes).mpr rfl).sameSigns
            fun before after swap same found rest stand => ?_
          have free := spare.1 before after swap same found
          obtain ⟨taken, takenLong⟩ := isBlock_taken isLibrary found free
          obtain ⟨written, writtenLong⟩ := isBlock_written isLibrary found free
          obtain ⟨near, first, none⟩ := taken.signsFrom_append stand rest
          obtain ⟨other, second, alsoNone⟩ := written.signsFrom_append stand rest
          rw [first, second, none takenLong, alsoNone writtenLong]
        exact fun stand => (ih others _ spare.2 stand).trans (here stand)
  have same := each libraryRules (fun _ member => member) code spare (.apart none none)
  rwa [List.map_id, List.map_id] at same

end Library

/-- The rule for numbers leaves all operators as they are. -/
theorem operators_long (code : List Char) : operators (longRule.apply code) = operators code := by
  have makes : longRule.Makes [] code (longRule.apply code) := (makes_iff (by decide)).mpr rfl
  refine makes.sameSigns (fun before after swap _ found rest stand => ?_) (.apart none none)
  obtain ⟨letter, taken, isLetter, filled, isDigits⟩ := swap?_long found
  have noDigits : ('=' :: operatorMarks).all fun c => !CharProperty.digit.holds c := by decide
  have noDigit (c : Char) (isMark : c ∈ '=' :: operatorMarks) : ¬CharProperty.digit.holds c := by
    simpa using List.all_eq_true.mp noDigits c isMark
  have written : IsBlock swap.written :=
    { filled
      free := fun member => noDigit '=' List.mem_cons_self (isDigits '=' member)
      ends := fun c last member =>
        noDigit c (List.mem_cons_of_mem _ member) (isDigits c (List.mem_of_getLast? last)) }
  have alsoTaken : IsBlock swap.taken := by
    have other : letter ≠ '=' ∧ letter ∉ operatorMarks := by
      rcases List.mem_pair.mp isLetter with rfl | rfl <;> decide
    rw [taken]
    refine ⟨List.concat_ne_nil letter swap.written, fun member => ?_, fun c last => ?_⟩
    · rcases List.mem_append.mp member with early | late
      · exact written.free early
      · exact other.1 (List.mem_singleton.mp late).symm
    · rw [List.getLast?_concat] at last
      exact Option.some.inj last ▸ other.2
  obtain ⟨near, first, _⟩ := written.signsFrom_append stand rest
  obtain ⟨other, second, _⟩ := alsoTaken.signsFrom_append stand rest
  rw [first, second, List.map_append, List.map_append, map_operator_apart]

end Transcode.Output
