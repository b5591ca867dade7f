import Transcode.Proofs.Matching

/-!
# The preferred match, step by step

Backtracking goes the first way that can be gone on. `Regex.leadsTo` is what it comes to: one
expression after the other takes what it prefers (`Regex.leadsTo_seq`), and a star takes as much, or
as little, as leaves a way on (`Regex.leadsTo_star`, `Regex.leadsTo_lazy`).
-/

namespace Transcode.Regex

variable {α : Type} {next : Spot → Option α} {start : Spot} {found : α}

/-- What the first way of an expression comes to that can be gone on. -/
def leadsTo (regex : Regex) (next : Spot → Option α) (start : Spot) : Option α :=
  (regex.paths start).findSome? next

/-- The first way is where an expression leads to on its own. -/
theorem head?_paths (regex : Regex) (start : Spot) :
    (regex.paths start).head? = regex.leadsTo some start := by
  rw [leadsTo]
  cases regex.paths start <;> rfl

theorem leadsTo_eq_none {regex : Regex} (dead : ∀ stop ∈ regex.paths start, next stop = none) :
    regex.leadsTo next start = none := List.findSome?_eq_none_iff.mpr dead

theorem exists_of_leadsTo {regex : Regex} (leads : regex.leadsTo next start = some found) :
    ∃ stop ∈ regex.paths start, next stop = some found := List.exists_of_findSome?_eq_some leads

/-- What is found first behind ways of two steps is found behind those of the first. -/
theorem findSome?_flatMap (spots : List Spot) (step : Spot → List Spot) (next : Spot → Option α) :
    (spots.flatMap step).findSome? next =
      spots.findSome? fun spot => (step spot).findSome? next := by
  induction spots with
  | nil => rfl
  | cons spot rest ih =>
      rw [List.flatMap_cons, List.findSome?_append, ih, List.findSome?_cons]
      cases (step spot).findSome? next <;> rfl

/-- Two expressions lead to where the first leads before the second. -/
theorem leadsTo_seq (first second : Regex) (next : Spot → Option α) (start : Spot) :
    leadsTo (.seq first second) next start = leadsTo first (leadsTo second next) start :=
  findSome?_flatMap _ _ _

/-- A sequence leads to where its first expression leads before the others. -/
theorem leadsTo_sequence (first second : Regex) (others : List Regex) (next : Spot → Option α)
    (start : Spot) : leadsTo (sequence (first :: second :: others)) next start =
      leadsTo first (leadsTo (sequence (second :: others)) next) start := leadsTo_seq _ _ _ _

/-- A sequence reads on from where its first expression came to. -/
theorem mem_paths_sequence {first second : Regex} {others : List Regex} {start stop : Spot} :
    stop ∈ paths (sequence (first :: second :: others)) start ↔
      ∃ middle ∈ first.paths start, stop ∈ paths (sequence (second :: others)) middle :=
        mem_paths_seq

theorem sequence_singleton (regex : Regex) : sequence [regex] = regex := rfl

theorem leadsTo_group (index : Option Nat) (body : Regex) (next : Spot → Option α) (start : Spot) :
    leadsTo (.group index body) next start =
      leadsTo body (fun stop => next (stop.close index start)) start := List.findSome?_map ..

/-- An anchor that holds reads nothing. -/
theorem leadsTo_anchor {place : Anchor} (holds : place.holds start.before start.rest.head?) :
    leadsTo (.anchor place) next start = next start := by
  rw [leadsTo, paths, if_pos holds]
  simp

/-- A set reads the next character. -/
theorem leadsTo_set {chars : CharSet} {c : Char} {rest : List Char} (same : start.rest = c :: rest)
    (isMember : chars.mem c) : leadsTo (.set chars) next start = next (start.past [c] rest) := by
  have taken : start.take? chars = some (start.past [c] rest) :=
    Spot.take?_eq_some_iff.mpr ⟨c, rest, same, isMember, rfl⟩
  rw [leadsTo, paths, taken]
  simp

theorem leadsTo_char {c : Char} {rest : List Char} (same : start.rest = c :: rest) :
    leadsTo (char c) next start = next (start.past [c] rest) :=
  leadsTo_set same (CharSet.mem_single.mpr rfl)

/-- The continuation behind a further character. -/
def furtherOn (start : Spot) (next : Spot → Option α) (stop : Spot) : Option α :=
  if start.offset < stop.offset then next stop else none

/-- Behind something that is taken reading has gone on. -/
theorem furtherOn_past (start : Spot) (next : Spot → Option α) {taken : List Char}
    (filled : taken ≠ [])
    (rest : List Char) :
    furtherOn start next (start.past taken rest) = next (start.past taken rest) :=
  if_pos (Nat.lt_add_of_pos_right (List.length_pos_iff.mpr filled))

/-- Only steps that go on are looked behind. -/
theorem findSome?_advances (step : Spot → List Spot) (next : Spot → Option α) (start : Spot) :
    (advances step start).findSome? next = (step start).findSome? (furtherOn start next) := by
  rw [advances]
  induction step start with
  | nil => rfl
  | cons stop rest ih =>
      rw [List.filter_cons, List.findSome?_cons, furtherOn]
      split
      · rename_i further
        rw [if_pos (of_decide_eq_true further), List.findSome?_cons, ih]
      · rename_i still
        rw [if_neg (fun further => still (decide_eq_true further)), ih]

/-- An optional expression is tried before it is left out. -/
theorem paths_opt (body : Regex) (start : Spot) :
    paths (opt body) start = advances body.paths start ++ [start] := by
  have once : repeats body.paths true 1 start = advances body.paths start ++ [start] := by
    rw [repeats, if_pos rfl, show repeats body.paths true 0 = fun spot => [spot] from rfl,
      List.flatMap_singleton']
  rw [← once]
  exact List.flatMap_singleton _ _

/-- An optional expression leads on, or nothing does in its place. -/
theorem leadsTo_opt (body : Regex) (next : Spot → Option α) (start : Spot) :
    leadsTo (opt body) next start = (leadsTo body (furtherOn start next) start).or
      (next start) := by
  rw [leadsTo, paths_opt, List.findSome?_append, findSome?_advances]
  cases h : next start <;> simp [leadsTo, h]

/-- None or more is tried once more before it is left. -/
theorem leadsTo_many_zero (body : Regex) (greedy : Bool) (next : Spot → Option α) (start : Spot) :
    leadsTo (.many body 0 none greedy) next start =
      let once := leadsTo body (furtherOn start (leadsTo (.many body 0 none greedy) next)) start
      if greedy then once.or (next start) else (next start).or once := by
  have further :
      ((advances body.paths start).flatMap (paths (.many body 0 none greedy))).findSome? next =
      leadsTo body (furtherOn start (leadsTo (.many body 0 none greedy) next)) start := by
    rw [findSome?_flatMap]
    exact findSome?_advances _ _ _
  rw [leadsTo, paths_many_zero]
  split
  · rw [List.findSome?_append, further]
    cases h : next start <;> simp [h]
  · rw [← List.singleton_append, List.findSome?_append, further]
    cases h : next start <;> simp [h]

section Stars

variable {chars : CharSet} {taken rest : List Char}

/-- One step of a star of characters, after which it goes on. -/
theorem leadsTo_star_step {c : Char} {others : List Char} (greedy : Bool)
    (same : start.rest = c :: others) (isMember : chars.mem c) :
    leadsTo (.set chars) (furtherOn start (leadsTo (.many (.set chars) 0 none greedy) next)) start =
      leadsTo (.many (.set chars) 0 none greedy) next (start.past [c] others) := by
  rw [leadsTo_set same isMember, furtherOn_past start _ (List.cons_ne_nil c [])]

/-- **A greedy star** takes the most characters behind which there is a way on. -/
theorem leadsTo_star (same : start.rest = taken ++ rest) (sets : ∀ c ∈ taken, chars.mem c)
    (dead : ∀ more others, rest = more ++ others → more ≠ [] → (∀ c ∈ more, chars.mem c) →
      next (start.past (taken ++ more) others) = none)
    (goes : next (start.past taken rest) = some found) :
    leadsTo (star (.set chars)) next start = some found := by
  induction taken generalizing start with
  | nil =>
      have none : leadsTo (.set chars) (furtherOn start (leadsTo (star (.set chars)) next)) start =
          none := by
        refine leadsTo_eq_none fun stop member => ?_
        obtain ⟨c, others, left, isMember, rfl⟩ := mem_paths_set.mp member
        rw [furtherOn_past start _ (List.cons_ne_nil c [])]
        refine leadsTo_eq_none fun last reached => ?_
        obtain ⟨more, also, moreSets, past⟩ := mem_paths_star.mp reached
        rw [past, Spot.past_past]
        refine dead _ _ ?_ (List.cons_ne_nil c more) (List.forall_mem_cons.mpr ⟨isMember, moreSets⟩)
        exact same.symm.trans (left.trans (congrArg _ also))
      rw [star] at none ⊢
      rw [leadsTo_many_zero, none]
      rw [← List.nil_append rest, ← same, Spot.past_nil] at goes
      exact goes
  | cons c taken ih =>
      obtain ⟨here, later⟩ := List.forall_mem_cons.mp sets
      rw [List.cons_append] at same
      have on : leadsTo (star (.set chars)) next (start.past [c] (taken ++ rest)) = some found := by
        refine ih rfl later (fun more others also filled moreSets => ?_) ?_
        · rw [Spot.past_past]
          exact dead more others also filled moreSets
        · rw [Spot.past_past]
          exact goes
      rw [star] at on ⊢
      rw [leadsTo_many_zero, leadsTo_star_step true same here, on]
      rfl

/-- A greedy star takes a whole run of characters if that leaves a way on. -/
theorem leadsTo_star_run (same : start.rest = taken ++ rest) (sets : ∀ c ∈ taken, chars.mem c)
    (ends : ∀ c ∈ rest.head?, ¬chars.mem c) (goes : next (start.past taken rest) = some found) :
    leadsTo (star (.set chars)) next start = some found := by
  refine leadsTo_star same sets (fun more others also filled moreSets => ?_) goes
  obtain ⟨c, more, rfl⟩ := List.exists_cons_of_ne_nil filled
  exact absurd (moreSets c List.mem_cons_self) (ends c (also ▸ rfl))

/-- One or more of a set takes the whole run if what comes behind goes on. -/
theorem leadsTo_plus_run (same : start.rest = taken ++ rest) (filled : taken ≠ [])
    (sets : ∀ c ∈ taken, chars.mem c) (ends : ∀ c ∈ rest.head?, ¬chars.mem c)
    (goes : next (start.past taken rest) = some found) :
    leadsTo (plus (.set chars)) next start = some found := by
  obtain ⟨c, taken, rfl⟩ := List.exists_cons_of_ne_nil filled
  obtain ⟨here, later⟩ := List.forall_mem_cons.mp sets
  have unfolded : leadsTo (plus (.set chars)) next start =
      leadsTo (.set chars) (leadsTo (star (.set chars)) next) start := by
    rw [leadsTo, plus, paths_many_one]
    exact findSome?_flatMap _ _ _
  rw [unfolded, leadsTo_set same here]
  refine leadsTo_star_run rfl later ends ?_
  rw [Spot.past_past]
  exact goes

/-- **A lazy star** takes the fewest characters behind which there is a way on. -/
theorem leadsTo_lazy (same : start.rest = taken ++ rest) (sets : ∀ c ∈ taken, chars.mem c)
    (dead : ∀ few others, taken = few ++ others → others ≠ [] →
      next (start.past few (others ++ rest)) = none)
    (goes : next (start.past taken rest) = some found) :
    leadsTo (.many (.set chars) 0 none false) next start = some found := by
  induction taken generalizing start with
  | nil =>
      rw [← List.nil_append rest, ← same, Spot.past_nil] at goes
      rw [leadsTo_many_zero, goes]
      rfl
  | cons c taken ih =>
      obtain ⟨here, later⟩ := List.forall_mem_cons.mp sets
      have noFewer : next start = none := by
        have none := dead [] (c :: taken) rfl (List.cons_ne_nil c taken)
        rwa [← same, Spot.past_nil] at none
      have on : leadsTo (.many (.set chars) 0 none false) next (start.past [c] (taken ++ rest)) =
          some found := by
        refine ih rfl later (fun few others also filled => ?_) ?_
        · rw [Spot.past_past]
          exact dead (c :: few) others (congrArg _ also) filled
        · rw [Spot.past_past]
          exact goes
      rw [List.cons_append] at same
      rw [leadsTo_many_zero, noFewer, leadsTo_star_step false same here, on]
      rfl

end Stars

end Transcode.Regex
