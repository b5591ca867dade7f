import Transcode.Output.Scope
import Transcode.Proofs.Matching

/-!
# Substitutions as rewriting

A substitution whose expression matches no empty text goes through a text from left to right: it
swaps what it matches, and keeps a character where it matches nothing. `Substitution.Makes` is this
run, one case for each of its steps, and a substitution makes just one text of another
(`Output.makes_iff`).
-/

namespace Transcode

namespace Spot

/-- The spot of a text between what has been read and what is left. -/
def between (read rest : List Char) : Spot := ⟨read.getLast?, rest, read.length, []⟩

theorem between_in (read rest : List Char) : (between read rest).In (read ++ rest) :=
  ⟨read, rfl, rfl, rfl⟩

/-- The spot behind a character is between the texts that part there. -/
theorem between_after (read : List Char) (c : Char) (rest : List Char) :
    (between read (c :: rest)).after c rest = between (read ++ [c]) rest := by
  simp [between, after]

/-- Reading from between two texts comes to between two texts. -/
theorem Reads.between_eq {read rest taken : List Char} {stop : Spot}
    (reads : (between read rest).Reads stop taken) :
    { stop with groups := [] } = between (read ++ taken) stop.rest := by
  rw [between, List.getLast?_append, List.length_append, reads.before_eq, reads.offset_eq]
  rfl

end Spot

namespace Output

open Regex Text

/-- What a match takes, what is written for it, and what follows it. -/
structure Swap where
  taken : List Char
  written : List Char
  rest : List Char
  deriving DecidableEq

namespace Substitution

/-- What a substitution does between two parts of a text. -/
def swap? (substitution : Substitution) (read rest : List Char) : Option Swap :=
  (substitution.pattern.paths (.between read rest)).head?.map fun stop =>
    ⟨(Spot.between read rest).textTo stop,
      expand substitution.replacement (.between read rest) stop, stop.rest⟩

/-- A text behind what has been read, after a substitution in at most `fuel` steps. -/
def rewrite (substitution : Substitution) : Nat → List Char → List Char → List Char
  | 0, _, rest => rest
  | fuel + 1, read, rest =>
    match substitution.swap? read rest with
    | some swap => swap.written ++ rewrite substitution fuel (read ++ swap.taken) swap.rest
    | none =>
      match rest with
      | [] => []
      | c :: rest => c :: rewrite substitution fuel (read ++ [c]) rest

/-- What a substitution makes of a text behind what has been read. -/
inductive Makes (substitution : Substitution) : List Char → List Char → List Char → Prop where
  | done {read : List Char} : substitution.swap? read [] = none → Makes substitution read [] []
  | keep {read rest out : List Char} {c : Char} : substitution.swap? read (c :: rest) = none →
    Makes substitution (read ++ [c]) rest out → Makes substitution read (c :: rest) (c :: out)
  | swap {read rest out : List Char} {swap : Swap} : substitution.swap? read rest = some swap →
    Makes substitution (read ++ swap.taken) swap.rest out →
    Makes substitution read rest (swap.written ++ out)

end Substitution

/-! ### What is written for a match -/

section Expand

variable {start stop : Spot} {taken : List Char}

/-- A group has characters of what was taken. -/
theorem mem_of_mem_group? (reads : start.Reads stop taken) (ungrouped : start.groups = [])
    {index : Nat} {text : List Char} (found : stop.group? index = some text) :
    ∀ c ∈ text, c ∈ taken := by
  obtain ⟨groups, same, grouped⟩ := reads.groups_eq
  rw [ungrouped, List.append_nil] at same
  obtain ⟨extent, isGroup, rfl⟩ := Option.map_eq_some_iff.mp found
  obtain ⟨before, after, listed, _⟩ := List.lookup_eq_some_iff.mp (same ▸ isGroup)
  have there : (index, extent) ∈ groups := listed ▸ List.mem_append_right _ List.mem_cons_self
  exact fun c member => (grouped _ there).2.subset member

/-- The text of a group has characters of what was taken. -/
theorem mem_of_mem_groupText (reads : start.Reads stop taken) (ungrouped : start.groups = [])
    (name : List Char) : ∀ c ∈ groupText start stop name, c ∈ taken := by
  intro c member
  unfold groupText at member
  split at member
  · exact reads.textTo_eq ▸ member
  · rename_i index _ _
    cases found : stop.group? index with
    | none =>
        rw [found] at member
        cases member
    | some text =>
        rw [found] at member
        exact mem_of_mem_group? reads ungrouped found c member
  · cases member

/-- What comes behind a reference is part of the template. -/
theorem mem_of_reference? {cs name rest : List Char}
    (isReference : reference? cs = some (name, rest)) :
    ∀ c ∈ rest, c ∈ cs := by
  intro c member
  unfold reference? at isReference
  split at isReference
  · split at isReference
    · rename_i others _ after same
      cases isReference
      have there :=
        (List.dropWhile_sublist (· != '\x7d')).subset (same ▸ List.mem_cons_of_mem _ member)
      exact List.mem_cons_of_mem _ there
    · cases isReference
  · dsimp only at isReference
    split at isReference
    · cases isReference
    · cases isReference
      exact (List.dropWhile_sublist _).subset member

/-- What is written for a match stands in the replacement, or has been taken. -/
theorem mem_of_mem_expand (reads : start.Reads stop taken) (ungrouped : start.groups = [])
    (replacement : String) :
    ∀ c ∈ expand replacement start stop, c ∈ replacement.toList ∨ c ∈ taken := by
  have each (fuel : Nat) (cs : List Char) :
      ∀ c ∈ expandWithin start stop fuel cs, c ∈ cs ∨ c ∈ taken := by
    fun_induction expandWithin start stop fuel cs with
    | case1 cs => exact fun c member => .inl member
    | case2 => exact List.forall_mem_nil _
    | case3 fuel rest ih =>
        intro c member
        rcases List.mem_cons.mp member with rfl | later
        · exact .inl List.mem_cons_self
        · exact (ih c later).imp_left fun there => by simp [there]
    | case4 fuel rest _ name after isReference ih =>
        intro c member
        rcases List.mem_append.mp member with early | later
        · exact .inr (mem_of_mem_groupText reads ungrouped name c early)
        · exact (ih c later).imp_left fun there =>
            List.mem_cons_of_mem _ (mem_of_reference? isReference c there)
    | case5 fuel rest _ _ ih =>
        intro c member
        rcases List.mem_cons.mp member with rfl | later
        · exact .inl List.mem_cons_self
        · exact (ih c later).imp_left (List.mem_cons_of_mem _)
    | case6 fuel c rest _ _ ih =>
        intro d member
        rcases List.mem_cons.mp member with rfl | later
        · exact .inl List.mem_cons_self
        · exact (ih d later).imp_left (List.mem_cons_of_mem _)
  exact each _ _

/-- A replacement without references is written as it is. -/
theorem expand_of_plain {replacement : String} (plain : '$' ∉ replacement.toList) :
    expand replacement start stop = replacement.toList := by
  have each (fuel : Nat) (cs : List Char) (plain : '$' ∉ cs) :
      expandWithin start stop fuel cs = cs := by
    fun_induction expandWithin start stop fuel cs with
    | case1 => rfl
    | case2 => rfl
    | case3 | case4 | case5 => exact absurd List.mem_cons_self plain
    | case6 fuel c rest _ _ ih => rw [ih fun later => plain (List.mem_cons_of_mem _ later)]
  exact each _ _ plain

end Expand

/-! ### Runs of a substitution -/

namespace Substitution

variable {substitution : Substitution} {read rest out : List Char} {swap : Swap}

/-- A swap is made where the expression matches. -/
theorem exists_of_swap? (swaps : substitution.swap? read rest = some swap) :
    ∃ stop ∈ substitution.pattern.paths (.between read rest),
      (Spot.between read rest).Reads stop swap.taken ∧ stop.rest = swap.rest ∧
        expand substitution.replacement (.between read rest) stop = swap.written := by
  obtain ⟨stop, first, rfl⟩ := Option.map_eq_some_iff.mp swaps
  have member := List.mem_of_mem_head? first
  obtain ⟨taken, reads⟩ := exists_reads_of_mem_paths member
  exact ⟨stop, member, reads.textTo_eq ▸ reads, rfl, rfl⟩

/-- What a match takes comes next. -/
theorem rest_eq_of_swap? (swaps : substitution.swap? read rest = some swap) :
    rest = swap.taken ++ swap.rest := by
  obtain ⟨stop, _, reads, same, _⟩ := exists_of_swap? swaps
  exact same ▸ reads.rest_eq

/-- A swap takes at least what the expression must take. -/
theorem least_le_of_swap? (swaps : substitution.swap? read rest = some swap) :
    substitution.pattern.least ≤ swap.taken.length := by
  obtain ⟨stop, member, reads, _⟩ := exists_of_swap? swaps
  have least := least_le member
  rw [reads.offset_eq] at least
  omega

/-- What is written is of the template or of what was taken. -/
theorem mem_of_mem_written (swaps : substitution.swap? read rest = some swap) :
    ∀ c ∈ swap.written, c ∈ substitution.replacement.toList ∨ c ∈ swap.taken := by
  obtain ⟨stop, _, reads, _, written⟩ := exists_of_swap? swaps
  exact written ▸ mem_of_mem_expand reads rfl substitution.replacement

/-- A search for matches that are not empty is a run. -/
theorem replaceWithin_eq_rewrite (consumes : 0 < substitution.pattern.least) (fuel : Nat)
    (read rest : List Char) :
    substitution.pattern.replaceWithin (expand substitution.replacement) fuel (.between read rest) =
      substitution.rewrite fuel read rest := by
  induction fuel generalizing read rest with
  | zero => rfl
  | succ fuel ih =>
      rw [replaceWithin, rewrite.eq_def, matchAt_eq_head?_paths _ (Spot.between_in read rest)]
      dsimp only [swap?]
      cases first : (substitution.pattern.paths (.between read rest)).head? with
      | none =>
          cases rest with
          | nil => rfl
          | cons c rest =>
              change c :: _ = c :: _
              rw [← ih, Spot.between_after]
      | some stop =>
          have member := List.mem_of_mem_head? first
          obtain ⟨taken, reads⟩ := exists_reads_of_mem_paths member
          have least := least_le member
          have further : (Spot.between read rest).offset < stop.offset := by omega
          dsimp only [Option.map_some]
          rw [resume, if_pos further, reads.textTo_eq, ← ih, reads.between_eq]

theorem apply_eq_rewrite (consumes : 0 < substitution.pattern.least) (code : List Char) :
    substitution.apply code = substitution.rewrite (code.length + 1) [] code :=
  replaceWithin_eq_rewrite consumes _ [] code

/-- Rewriting makes what the rule makes. -/
theorem makes_rewrite (consumes : 0 < substitution.pattern.least) {fuel : Nat}
    (enough : rest.length < fuel) :
    substitution.Makes read rest (substitution.rewrite fuel read rest) := by
  induction fuel generalizing read rest with
  | zero => cases enough
  | succ fuel ih =>
      rw [rewrite.eq_def]
      dsimp only
      cases found : substitution.swap? read rest with
      | none =>
          cases rest with
          | nil => exact .done found
          | cons c rest => exact .keep found (ih (Nat.lt_of_succ_lt_succ enough))
      | some swap =>
          have shorter := least_le_of_swap? found
          have same := congrArg List.length (rest_eq_of_swap? found)
          rw [List.length_append] at same
          exact .swap found (ih (by omega))

/-- At the end of a text nothing is made any more. -/
theorem Makes.eq_nil (consumes : 0 < substitution.pattern.least)
    (makes : substitution.Makes read [] out) : out = [] := by
  cases makes with
  | done => rfl
  | swap found =>
      have least := least_le_of_swap? found
      have taken := (List.append_eq_nil_iff.mp (rest_eq_of_swap? found).symm).1
      rw [taken] at least
      exact absurd (Nat.lt_of_lt_of_le consumes least) (Nat.lt_irrefl 0)

/-- A rule makes one text. -/
theorem Makes.unique {other : List Char} (makes : substitution.Makes read rest out)
    (also : substitution.Makes read rest other) : out = other := by
  induction makes generalizing other with
  | done none =>
      cases also with
      | done => rfl
      | swap found => rw [none] at found; cases found
  | keep none _ ih =>
      cases also with
      | keep _ later => rw [ih later]
      | swap found => rw [none] at found; cases found
  | swap found _ ih =>
      cases also with
      | done none => rw [none] at found; cases found
      | keep none => rw [none] at found; cases found
      | swap same later =>
          obtain rfl := Option.some.inj (found.symm.trans same)
          rw [ih later]

end Substitution

/-- **A substitution** makes of a text what its run makes of it, and nothing else. -/
theorem makes_iff {substitution : Substitution} (consumes : 0 < substitution.pattern.least)
    {code out : List Char} : substitution.Makes [] code out ↔ substitution.apply code = out := by
  have makes : substitution.Makes [] code (substitution.apply code) := by
    rw [Substitution.apply_eq_rewrite consumes]
    exact Substitution.makes_rewrite consumes (Nat.lt_succ_self _)
  exact ⟨makes.unique, fun same => same ▸ makes⟩

/-- Code after rules that are made one after the other. -/
def applyAll (rules : List Substitution) (code : List Char) : List Char :=
  rules.foldl (fun code rule => rule.apply code) code

/-- Code after a run of each of some rules. -/
def runAll (rules : List Substitution) (code : List Char) : List Char :=
  rules.foldl (fun code rule => rule.rewrite (code.length + 1) [] code) code

theorem applyAll_cons (rule : Substitution) (rules : List Substitution) (code : List Char) :
    applyAll (rule :: rules) code = applyAll rules (rule.apply code) := rfl

theorem applyAll_append (rules others : List Substitution) (code : List Char) :
    applyAll (rules ++ others) code = applyAll others (applyAll rules code) := List.foldl_append

/-- Rules that take something are run one by one. -/
theorem applyAll_eq_runAll {rules : List Substitution}
    (consumes : ∀ rule ∈ rules, 0 < rule.pattern.least) (code : List Char) :
    applyAll rules code = runAll rules code := by
  induction rules generalizing code with
  | nil => rfl
  | cons rule rules ih =>
      obtain ⟨here, later⟩ := List.forall_mem_cons.mp consumes
      rw [applyAll_cons, Substitution.apply_eq_rewrite here]
      exact ih later _

end Output

end Transcode
