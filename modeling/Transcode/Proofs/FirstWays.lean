import Transcode.Proofs.Backtracking

/-!
# The first way to each end

`Regex.ways` drops on the way what ends where an earlier match ends, and its stars never go on from
a spot twice. Nothing preferred is lost by that: the ways of an expression are the first of its
paths to each end (`Regex.ways_eq_keepFirst_paths`), so its match is the first that backtracking
finds (`Regex.matchAt_eq_head?_paths`).
-/

namespace Transcode

/-! ### Spots collected -/

namespace Found

variable {found : Found} {spot : Spot} {spots others : List Spot} {offset : Nat}

theorem has_empty (offset : Nat) : ({} : Found).has offset = false :=
  Std.HashSet.contains_emptyWithCapacity

theorem add_of_has (has : found.has spot.offset) : found.add spot = found := if_pos has

/-- Known after an addition is what was known and the offset added. -/
theorem has_add : (found.add spot).has offset ↔ found.has offset ∨ spot.offset = offset := by
  by_cases has : found.has spot.offset
  · rw [add_of_has has]
    refine ⟨.inl, ?_⟩
    rintro (there | rfl)
    · exact there
    · exact has
  · rw [add, if_neg has, Found.has, Found.has, Std.HashSet.contains_insert, Bool.or_eq_true,
      beq_iff_eq, or_comm]

/-- Known after many additions is what was known and every offset added. -/
theorem has_foldl_add : (spots.foldl add found).has offset ↔
    found.has offset ∨ ∃ spot ∈ spots, spot.offset = offset := by
  induction spots generalizing found with
  | nil => simp
  | cons spot rest ih =>
      simp only [List.foldl_cons, ih, has_add, List.mem_cons, exists_eq_or_imp, or_assoc]

/-- Spots at known offsets change nothing. -/
theorem foldl_add_of_has (all : ∀ spot ∈ spots, found.has spot.offset) :
    spots.foldl add found = found := by
  induction spots with
  | nil => rfl
  | cons spot rest ih =>
      obtain ⟨here, later⟩ := List.forall_mem_cons.mp all
      rw [List.foldl_cons, add_of_has here, ih later]

/-- Those of some spots that are added to the found ones. -/
def fresh : Found → List Spot → List Spot
  | _, [] => []
  | found, spot :: rest =>
    if found.has spot.offset then fresh found rest else spot :: fresh (found.add spot) rest

/-- Collecting spots puts the fresh ones behind those there. -/
theorem spots_foldl_add : (spots.foldl add found).spots = found.spots ++ fresh found spots := by
  induction spots generalizing found with
  | nil => simp [fresh]
  | cons spot rest ih =>
      rw [List.foldl_cons, ih, fresh]
      split
      · rename_i has
        rw [add_of_has has]
      · rename_i new
        rw [add, if_neg new, Found.spots, List.reverse_cons, List.append_assoc]
        rfl

/-- A fresh spot is one of the spots, at an offset not yet known. -/
theorem mem_of_mem_fresh (member : spot ∈ fresh found spots) :
    spot ∈ spots ∧ ¬found.has spot.offset := by
  induction spots generalizing found with
  | nil => cases member
  | cons first rest ih =>
      rw [fresh] at member
      split at member
      · exact ⟨List.mem_cons_of_mem _ (ih member).1, (ih member).2⟩
      · rename_i new
        rcases List.mem_cons.mp member with rfl | later
        · exact ⟨List.mem_cons_self, new⟩
        · obtain ⟨there, still⟩ := ih later
          exact ⟨List.mem_cons_of_mem _ there, fun has => still (has_add.mpr (.inl has))⟩

/-- At every offset not yet known a fresh spot stands where a spot does. -/
theorem exists_mem_fresh (member : spot ∈ spots) (new : ¬found.has spot.offset) :
    ∃ first ∈ found.fresh spots, first.offset = spot.offset := by
  induction spots generalizing found with
  | nil => cases member
  | cons first rest ih =>
      rw [fresh]
      split
      · rename_i has
        rcases List.mem_cons.mp member with rfl | later
        · exact absurd has new
        · exact ih later new
      · by_cases same : first.offset = spot.offset
        · exact ⟨first, List.mem_cons_self, same⟩
        · have still : ¬(found.add first).has spot.offset := by
            rw [has_add, not_or]
            exact ⟨new, same⟩
          rcases List.mem_cons.mp member with rfl | later
          · exact absurd rfl same
          · obtain ⟨other, there, offset⟩ := ih later still
            exact ⟨other, List.mem_cons_of_mem _ there, offset⟩

end Found

/-- Spots at different offsets. -/
def Apart (spots : List Spot) : Prop := spots.Pairwise (·.offset ≠ ·.offset)

/-- Fresh spots stand at different offsets. -/
theorem apart_fresh (found : Found) (spots : List Spot) : Apart (found.fresh spots) := by
  induction spots generalizing found with
  | nil => exact .nil
  | cons spot rest ih =>
      rw [Found.fresh]
      split
      · exact ih found
      · refine .cons (fun other member same => ?_) (ih _)
        exact (Found.mem_of_mem_fresh member).2 (Found.has_add.mpr (.inr same))

/-- Spots at different unknown offsets are all fresh. -/
theorem fresh_of_apart {found : Found} {spots : List Spot} (apart : Apart spots)
    (new : ∀ spot ∈ spots, ¬found.has spot.offset) : found.fresh spots = spots := by
  induction spots generalizing found with
  | nil => rfl
  | cons spot rest ih =>
      obtain ⟨here, later⟩ := List.forall_mem_cons.mp new
      obtain ⟨other, apart⟩ := List.pairwise_cons.mp apart
      rw [Found.fresh, if_neg here, ih apart fun next member has => ?_]
      rcases Found.has_add.mp has with has | same
      · exact later next member has
      · exact other next member same

namespace Regex

variable {spots others : List Spot} {spot : Spot}

/-- The first spots of a list are those fresh when nothing is known. -/
theorem keepFirst_eq_fresh (spots : List Spot) : keepFirst spots = Found.fresh {} spots := by
  rw [keepFirst, Found.spots_foldl_add]
  rfl

theorem apart_keepFirst (spots : List Spot) : Apart (keepFirst spots) :=
  keepFirst_eq_fresh spots ▸ apart_fresh _ spots

theorem keepFirst_of_apart (apart : Apart spots) : keepFirst spots = spots := by
  rw [keepFirst_eq_fresh, fresh_of_apart apart]
  simp [Found.has_empty]

theorem mem_of_mem_keepFirst (member : spot ∈ keepFirst spots) : spot ∈ spots :=
  (Found.mem_of_mem_fresh (keepFirst_eq_fresh spots ▸ member)).1

theorem exists_mem_keepFirst (member : spot ∈ spots) :
    ∃ first ∈ keepFirst spots, first.offset = spot.offset :=
  keepFirst_eq_fresh spots ▸ Found.exists_mem_fresh member (by simp [Found.has_empty])

/-- The first spot of all is kept. -/
theorem head?_keepFirst (spots : List Spot) : (keepFirst spots).head? = spots.head? := by
  rw [keepFirst_eq_fresh]
  cases spots with
  | nil => rfl
  | cons spot rest =>
      rw [Found.fresh, if_neg (by simp [Found.has_empty])]
      rfl

/-! ### Lists of which the same is kept -/

/-- Lists that add the same spots to those found, whatever has been found. -/
def SameFirsts (spots others : List Spot) : Prop :=
  ∀ found : Found, spots.foldl Found.add found = others.foldl Found.add found

namespace SameFirsts

variable {third : List Spot} {f g : Spot → List Spot}

theorem refl (spots : List Spot) : SameFirsts spots spots := fun _ => rfl

theorem symm (same : SameFirsts spots others) : SameFirsts others spots := fun found =>
  (same found).symm

theorem trans (same : SameFirsts spots others) (also : SameFirsts others third) :
    SameFirsts spots third := fun found => (same found).trans (also found)

/-- Lists that keep the same do so with lists behind them that keep the same. -/
theorem append {moreSpots moreOthers : List Spot} (same : SameFirsts spots others)
    (also : SameFirsts moreSpots moreOthers) :
    SameFirsts (spots ++ moreSpots) (others ++ moreOthers) := fun found => by
  rw [List.foldl_append, List.foldl_append, same, also]

theorem keepFirst_eq (same : SameFirsts spots others) : keepFirst spots = keepFirst others :=
  congrArg Found.spots (same {})

/-- Ways that keep the same from each spot do so from all of them. -/
theorem flatMap (same : ∀ spot ∈ spots, SameFirsts (f spot) (g spot)) :
    SameFirsts (spots.flatMap f) (spots.flatMap g) := by
  induction spots with
  | nil => exact .refl _
  | cons spot rest ih =>
      obtain ⟨here, later⟩ := List.forall_mem_cons.mp same
      rw [List.flatMap_cons, List.flatMap_cons]
      exact here.append (ih later)

end SameFirsts

/-- Collecting the fresh spots only is as good as collecting all, where what they leave out is
known. -/
theorem foldl_fresh {seen found : Found} (known : ∀ offset, seen.has offset → found.has offset) :
    (seen.fresh spots).foldl Found.add found = spots.foldl Found.add found := by
  induction spots generalizing seen found with
  | nil => rfl
  | cons spot rest ih =>
      rw [Found.fresh, List.foldl_cons]
      split
      · rename_i has
        rw [Found.add_of_has (known _ has), ih known]
      · rw [List.foldl_cons]
        exact ih fun offset has =>
          Found.has_add.mpr ((Found.has_add.mp has).imp_left (known offset))

/-- What is kept of a list keeps the same as the list. -/
theorem sameFirsts_keepFirst (spots : List Spot) : SameFirsts (keepFirst spots) spots :=
  fun found => by
  rw [keepFirst_eq_fresh, foldl_fresh fun offset has => ?_]
  rw [Found.has_empty] at has
  cases has

/-- Steps onward in a text by which what is at one offset goes on to the same ones. -/
structure StepsIn (text : List Char) (step : Spot → List Spot) : Prop where
  onward : Onward text step
  blind {spot other next : Spot} : spot.In text → other.In text → spot.offset = other.offset →
    next ∈ step spot → ∃ same ∈ step other, same.offset = next.offset

section Steps

variable {text : List Char} {step : Spot → List Spot}

/-- Going on from the fresh spots only is as good as going on from all, where the steps from a seen
offset lead to known ones. -/
theorem foldl_flatMap_fresh (steps : StepsIn text step) {seen found : Found}
    (inside : ∀ spot ∈ spots, spot.In text)
    (closed : ∀ spot, spot.In text → seen.has spot.offset →
      ∀ next ∈ step spot, found.has next.offset) :
    ((seen.fresh spots).flatMap step).foldl Found.add found =
      (spots.flatMap step).foldl Found.add found := by
  induction spots generalizing seen found with
  | nil => rfl
  | cons spot rest ih =>
      obtain ⟨here, later⟩ := List.forall_mem_cons.mp inside
      rw [Found.fresh, List.flatMap_cons, List.foldl_append]
      split
      · rename_i has
        rw [Found.foldl_add_of_has (closed spot here has), ih later closed]
      · rw [List.flatMap_cons, List.foldl_append]
        refine ih later fun other place has next member => ?_
        rw [Found.has_foldl_add]
        rcases Found.has_add.mp has with has | same
        · exact .inl (closed other place has next member)
        · exact .inr (steps.blind place here same.symm member)

/-- Where steps lead to does not need the spots that come second at their offset. -/
theorem sameFirsts_flatMap_keepFirst (steps : StepsIn text step)
    (inside : ∀ spot ∈ spots, spot.In text) :
    SameFirsts ((keepFirst spots).flatMap step) (spots.flatMap step) := fun found => by
  rw [keepFirst_eq_fresh]
  refine foldl_flatMap_fresh steps inside fun spot _ has => ?_
  rw [Found.has_empty] at has
  cases has

/-- Staying is a step. -/
theorem StepsIn.pure : StepsIn text fun spot => [spot] where
  onward inside member := by
    obtain rfl := List.mem_singleton.mp member
    exact ⟨inside, Nat.le_refl _⟩
  blind _ _ same member := by
    obtain rfl := List.mem_singleton.mp member
    exact ⟨_, List.mem_singleton_self _, same.symm⟩

end Steps

/-- Ways lead on in their text, and from one place to the same places. -/
theorem stepsIn_paths (text : List Char) (regex : Regex) : StepsIn text regex.paths where
  onward := onward_paths text regex
  blind inside also same member :=
    exists_mem_paths_of_samePlace (samePlace_of_offset_eq inside also same) member

/-! ### Stars that look at no spot twice -/

section Closure

variable {text : List Char} {step : Spot → List Spot} {greedy : Bool} {found : Found}

/-- Every step from a found spot at an offset or later has been taken. -/
def ClosedFrom (text : List Char) (step : Spot → List Spot) (found : Found) (offset : Nat) : Prop :=
  ∀ spot, spot.In text → found.has spot.offset → offset ≤ spot.offset →
    ∀ next ∈ advances step spot, found.has next.offset

/-- Of steps, those that move on are steps. -/
theorem StepsIn.advances (steps : StepsIn text step) : StepsIn text (advances step) where
  onward inside member := steps.onward inside (mem_advances.mp member).1
  blind inside also same member := by
    obtain ⟨there, further⟩ := mem_advances.mp member
    obtain ⟨next, step, offset⟩ := steps.blind inside also same there
    exact ⟨next, mem_advances.mpr ⟨step, by omega⟩, offset⟩

/-- As many repetitions as there are characters lead as far as any number of them. -/
theorem mem_repeats_of_advances (steps : StepsIn text step) {count : Nat} {middle next : Spot}
    (inside : spot.In text) (enough : spot.rest.length ≤ count)
    (early : middle ∈ repeats step greedy count spot) (late : next ∈ advances step middle) :
    next ∈ repeats step greedy count spot := by
  induction count generalizing spot with
  | zero =>
      obtain rfl := List.mem_singleton.mp early
      have further := (mem_advances.mp late).2
      have total := inside.offset_add
      have also := (steps.advances.onward inside late).1.offset_add
      omega
  | succ count ih =>
      rcases mem_repeats_succ.mp early with rfl | ⟨first, start, later⟩
      · exact mem_repeats_succ.mpr (.inr ⟨next, late, mem_repeats_self count next⟩)
      · have there := (steps.advances.onward inside start).1
        have further := (mem_advances.mp start).2
        have total := inside.offset_add
        have also := there.offset_add
        exact mem_repeats_succ.mpr (.inr ⟨first, start, ih there (by omega) later⟩)

/-- Repeated from a known offset, steps that lead from known offsets to known ones end at a known
one. -/
theorem has_of_mem_repeats (steps : StepsIn text step) {count : Nat} {next : Spot}
    (closed : ClosedFrom text step found spot.offset) (inside : spot.In text)
    (has : found.has spot.offset) (member : next ∈ repeats step greedy count spot) :
    found.has next.offset := by
  induction count generalizing spot with
  | zero => exact List.mem_singleton.mp member ▸ has
  | succ count ih =>
      rcases mem_repeats_succ.mp member with rfl | ⟨middle, first, later⟩
      · exact has
      · obtain ⟨there, after⟩ := steps.advances.onward inside first
        exact ih (fun other place seen far =>
          closed other place seen (Nat.le_trans after far)) there
          (closed spot inside has (Nat.le_refl _) middle first) later

/-- All repetitions from a spot leave no step open. -/
theorem ClosedFrom.foldl_repeats (steps : StepsIn text step) {count offset : Nat}
    (closed : ClosedFrom text step found offset) (inside : spot.In text)
    (enough : spot.rest.length ≤ count) :
    ClosedFrom text step ((repeats step greedy count spot).foldl Found.add found) offset := by
  intro other place has far next member
  rw [Found.has_foldl_add] at has ⊢
  rcases has with has | ⟨middle, reached, same⟩
  · exact .inl (closed other place has far next member)
  · -- What was reached at this offset goes on as the spot itself does.
    obtain ⟨following, later, offset⟩ := steps.advances.blind place
      (Onward.repeats steps.onward inside reached).1 same.symm member
    exact .inr ⟨following, mem_repeats_of_advances steps inside enough reached later, offset⟩

/-- The search for repetitions from several spots collects what all their repetitions do, where it
does so from each. -/
theorem foldl_closure (steps : StepsIn text step) {count : Spot → Nat} {offset : Nat}
    {nexts : List Spot}
    (each : ∀ spot, ∀ found : Found, spot ∈ nexts → ClosedFrom text step found offset →
      closure step greedy (count spot) found spot =
        (repeats step greedy (count spot) spot).foldl Found.add found)
    (inside : ∀ spot ∈ nexts, spot.In text ∧ spot.rest.length ≤ count spot)
    (closed : ClosedFrom text step found offset) :
    nexts.foldl (fun found spot => closure step greedy (count spot) found spot) found =
      (nexts.flatMap fun spot => repeats step greedy (count spot) spot).foldl Found.add found := by
  induction nexts generalizing found with
  | nil => rfl
  | cons spot rest ih =>
      obtain ⟨⟨place, enough⟩, later⟩ := List.forall_mem_cons.mp inside
      rw [List.foldl_cons, List.flatMap_cons, List.foldl_append,
        each spot found List.mem_cons_self closed]
      exact ih (fun other found member => each other found (List.mem_cons_of_mem _ member)) later
        (closed.foldl_repeats steps place enough)

/-- **The star of a search** collects what repeating its step any number of times leads to, though
it does not go on from a spot it has seen. -/
theorem closure_eq_foldl_repeats (steps : StepsIn text step) {count : Nat} (inside : spot.In text)
    (enough : spot.rest.length ≤ count) (closed : ClosedFrom text step found spot.offset) :
    closure step greedy count found spot =
      (repeats step greedy count spot).foldl Found.add found := by
  induction count generalizing found spot with
  | zero => rfl
  | succ count ih =>
      have each {offset : Nat} (far : offset ≤ spot.offset + 1) (next : Spot) (found : Found)
          (member : next ∈ advances step spot) (closed : ClosedFrom text step found offset) :
          closure step greedy count found next =
            (repeats step greedy count next).foldl Found.add found := by
        obtain ⟨there, _⟩ := steps.advances.onward inside member
        have further := (mem_advances.mp member).2
        have total := inside.offset_add
        have also := there.offset_add
        exact ih there (by omega) fun other place has later =>
          closed other place has (by omega)
      have shorter : ∀ next ∈ advances step spot, next.In text ∧ next.rest.length ≤ count := by
        intro next member
        obtain ⟨there, _⟩ := steps.advances.onward inside member
        have further := (mem_advances.mp member).2
        have total := inside.offset_add
        have also := there.offset_add
        exact ⟨there, by omega⟩
      rw [closure]
      split
      · rename_i has
        exact (Found.foldl_add_of_has fun next member =>
          has_of_mem_repeats steps closed inside has member).symm
      · rw [repeats]
        split
        · rw [List.foldl_append, ← foldl_closure steps (each (Nat.le_succ _)) shorter closed]
          rfl
        · refine foldl_closure steps (each (Nat.le_refl _)) shorter fun other place has far => ?_
          -- A spot behind the one just added was found before.
          rcases Found.has_add.mp has with has | same
          · intro next member
            exact Found.has_add.mpr (.inl (closed other place has (by omega) next member))
          · omega

end Closure

/-! ### Ways and paths -/

section Ways

variable {text : List Char} {step way : Spot → List Spot} {greedy : Bool} {count : Nat}

/-- Closing a group is a step. -/
theorem StepsIn.close (index : Option Nat) (start : Spot) :
    StepsIn text fun stop => [stop.close index start] where
  onward inside member := by
    obtain rfl := List.mem_singleton.mp member
    exact ⟨inside.close index start, by rw [Spot.offset_close]⟩
  blind _ _ same member := by
    obtain rfl := List.mem_singleton.mp member
    exact ⟨_, List.mem_singleton_self _, by rw [Spot.offset_close, Spot.offset_close, same]⟩

/-- Two kinds of steps side by side are steps. -/
theorem StepsIn.append (steps : StepsIn text step) (also : StepsIn text way) :
    StepsIn text fun spot => step spot ++ way spot where
  onward inside member :=
    (List.mem_append.mp member).elim (steps.onward inside) (also.onward inside)
  blind inside place same member := by
    rcases List.mem_append.mp member with early | late
    · obtain ⟨next, there, offset⟩ := steps.blind inside place same early
      exact ⟨next, List.mem_append_left _ there, offset⟩
    · obtain ⟨next, there, offset⟩ := also.blind inside place same late
      exact ⟨next, List.mem_append_right _ there, offset⟩

/-- Two kinds of steps one behind the other are steps. -/
theorem StepsIn.flatMap (steps : StepsIn text step) (also : StepsIn text way) :
    StepsIn text fun spot => (step spot).flatMap way where
  onward inside member := by
    obtain ⟨middle, early, late⟩ := List.mem_flatMap.mp member
    obtain ⟨there, before⟩ := steps.onward inside early
    obtain ⟨stop, after⟩ := also.onward there late
    exact ⟨stop, Nat.le_trans before after⟩
  blind inside place same member := by
    obtain ⟨middle, early, late⟩ := List.mem_flatMap.mp member
    obtain ⟨other, there, offset⟩ := steps.blind inside place same early
    obtain ⟨next, found, stop⟩ := also.blind (steps.onward inside early).1
      (steps.onward place there).1 offset.symm late
    exact ⟨next, List.mem_flatMap.mpr ⟨other, there, found⟩, stop⟩

/-- Repeated steps are steps. -/
theorem StepsIn.repeats (steps : StepsIn text step) (greedy : Bool) (count : Nat) :
    StepsIn text (repeats step greedy count) := by
  induction count with
  | zero => exact .pure
  | succ count ih =>
      have further := steps.advances.flatMap ih
      cases greedy with
      | true => exact further.append .pure
      | false => exact StepsIn.pure.append further

/-- Steps made a number of times are steps. -/
theorem StepsIn.times (steps : StepsIn text step) (count : Nat) :
    StepsIn text (times step count) := by
  induction count with
  | zero => exact .pure
  | succ count ih => exact steps.flatMap ih

/-- The repetitions of a body, whose number is limited or else by the characters left. -/
theorem StepsIn.many (steps : StepsIn text step) (greedy : Bool) (extra : Option Nat) :
    StepsIn text fun spot =>
      Regex.repeats step greedy (extra.getD (spot.rest.length + 1)) spot where
  onward inside member := (steps.repeats greedy _).onward inside member
  blind {spot other next} inside also same member := by
    have here := inside.offset_add
    have there := also.offset_add
    rw [show other.rest.length = spot.rest.length by omega]
    exact (steps.repeats greedy _).blind inside also same member

/-- Ways that stay in the text lead from spots of it to spots of it. -/
theorem Onward.forall_flatMap (onward : Onward text step) (inside : ∀ spot ∈ spots, spot.In text) :
    ∀ spot ∈ spots.flatMap step, spot.In text := by
  intro next member
  obtain ⟨spot, listed, member⟩ := List.mem_flatMap.mp member
  exact (onward (inside spot listed) member).1

/-- What the same is kept of leads to what the same is kept of. -/
theorem SameFirsts.flatMap_left (same : SameFirsts spots others) (steps : StepsIn text step)
    (inside : ∀ spot ∈ spots, spot.In text) (also : ∀ spot ∈ others, spot.In text) :
    SameFirsts (spots.flatMap step) (others.flatMap step) := by
  have kept := (sameFirsts_flatMap_keepFirst steps inside).symm
  rw [same.keepFirst_eq] at kept
  exact kept.trans (sameFirsts_flatMap_keepFirst steps also)

/-- Of the steps that `step` allows, `way` takes the first to each offset. -/
structure Prefers (text : List Char) (way step : Spot → List Spot) : Prop where
  steps : StepsIn text step
  keeps {spot : Spot} : spot.In text → way spot = keepFirst (step spot)

/-- Ways that prefer what steps do are steps. -/
theorem Prefers.stepsIn (prefers : Prefers text way step) : StepsIn text way where
  onward inside member := by
    rw [prefers.keeps inside] at member
    exact prefers.steps.onward inside (mem_of_mem_keepFirst member)
  blind inside also same member := by
    rw [prefers.keeps inside] at member
    obtain ⟨next, there, offset⟩ :=
      prefers.steps.blind inside also same (mem_of_mem_keepFirst member)
    obtain ⟨first, kept, place⟩ := exists_mem_keepFirst there
    exact ⟨first, prefers.keeps also ▸ kept, place.trans offset⟩

/-- Staying at wanted offsets only is a step. -/
theorem StepsIn.guard (isWanted : Nat → Bool) :
    StepsIn text fun spot => if isWanted spot.offset then [spot] else [] where
  onward {spot next} inside member := by
    change next ∈ (if isWanted spot.offset then [spot] else []) at member
    split at member
    · exact StepsIn.pure.onward inside member
    · cases member
  blind {spot other next} inside also same member := by
    change ∃ found ∈ (if isWanted other.offset then [other] else []), found.offset = next.offset
    rw [← same]
    split at member
    · rename_i wanted
      rw [if_pos wanted]
      exact StepsIn.pure.blind inside also same member
    · cases member

/-- Such ways keep what the steps do where both have to move on. -/
theorem Prefers.sameFirsts_advances (prefers : Prefers text way step) (inside : spot.In text) :
    SameFirsts (advances way spot) (advances step spot) := by
  have filtered (spots : List Spot) : spots.filter (spot.offset < ·.offset) =
      spots.flatMap fun next => if decide (spot.offset < next.offset) then [next] else [] := by
    induction spots with
    | nil => rfl
    | cons next rest ih => by_cases far : spot.offset < next.offset <;> simp [far, ih]
  rw [advances, advances, prefers.keeps inside, filtered, filtered]
  exact sameFirsts_flatMap_keepFirst (.guard (spot.offset < ·)) fun next member =>
    (prefers.steps.onward inside member).1

/-- Repetitions of the preferred steps and repetitions of all steps have the same preferred ends. -/
theorem Prefers.sameFirsts_further (prefers : Prefers text way step)
    {further : Spot → List Spot} {count : Nat} (inside : spot.In text)
    (ih : ∀ spot, spot.In text → SameFirsts (further spot) (repeats step greedy count spot)) :
    SameFirsts
      (if greedy then (advances way spot).flatMap further ++ [spot]
        else spot :: (advances way spot).flatMap further)
      (repeats step greedy (count + 1) spot) := by
  have onward (next : Spot) (member : next ∈ advances way spot) : next.In text :=
    (prefers.stepsIn.advances.onward inside member).1
  have later : SameFirsts ((advances way spot).flatMap further)
      ((advances step spot).flatMap (repeats step greedy count)) :=
    (SameFirsts.flatMap fun next member => ih next (onward next member)).trans
      ((prefers.sameFirsts_advances inside).flatMap_left (prefers.steps.repeats greedy count)
        onward
        fun _ member => (prefers.steps.advances.onward inside member).1)
  rw [repeats]
  split
  · exact later.append (.refl _)
  · exact (SameFirsts.refl [spot]).append later

/-- Such ways keep what the steps do when both are repeated. -/
theorem Prefers.sameFirsts_repeats (prefers : Prefers text way step) (inside : spot.In text) :
    SameFirsts (repeats way greedy count spot) (repeats step greedy count spot) := by
  induction count generalizing spot with
  | zero => exact .refl _
  | succ count ih => exact prefers.sameFirsts_further inside fun _ there => ih there

/-- Searched without a look back, such ways keep what the repeated steps do. -/
theorem Prefers.sameFirsts_atMost (prefers : Prefers text way step) (inside : spot.In text) :
    SameFirsts (atMost way greedy count spot) (repeats step greedy count spot) := by
  induction count generalizing spot with
  | zero => exact .refl _
  | succ count ih =>
      exact (sameFirsts_keepFirst _).trans
        (prefers.sameFirsts_further inside fun _ there => ih there)

/-- Ways that keep the first spots of a step do so when both are made a number of times. -/
theorem exactly_eq {ways : List Spot → List Spot} (steps : StepsIn text step)
    (keeps : ∀ spots : List Spot, Apart spots → (∀ spot ∈ spots, spot.In text) →
      ways spots = keepFirst (spots.flatMap step))
    (apart : Apart spots) (inside : ∀ spot ∈ spots, spot.In text) :
    exactly ways count spots = keepFirst (spots.flatMap (times step count)) := by
  induction count generalizing spots with
  | zero =>
      rw [exactly, show times step 0 = fun spot => [spot] from rfl, List.flatMap_singleton',
        keepFirst_of_apart apart]
  | succ count ih =>
      have there : ∀ spot ∈ spots.flatMap step, spot.In text :=
        Onward.forall_flatMap steps.onward inside
      have assoc : spots.flatMap (times step (count + 1)) =
          (spots.flatMap step).flatMap (times step count) := List.flatMap_assoc.symm
      rw [exactly, keeps spots apart inside, ih (apart_keepFirst _) fun spot member =>
        there spot (mem_of_mem_keepFirst member), assoc]
      exact (sameFirsts_flatMap_keepFirst (steps.times count) there).keepFirst_eq

/-- Spots stay apart when each takes a character. -/
theorem apart_filterMap_take? (apart : Apart spots) (inside : ∀ spot ∈ spots, spot.In text)
    (chars : CharSet) : Apart (spots.filterMap (·.take? chars)) := by
  refine List.pairwise_filterMap.mpr
    (apart.imp_of_mem fun first second distinct next taken other also => ?_)
  have here := ((inside _ first).take? taken).2
  have there := ((inside _ second).take? also).2
  omega

/-- Ways that keep the first ends of the paths prefer what the paths do. -/
theorem prefers_paths {regex : Regex}
    (keeps : ∀ spots : List Spot, Apart spots → (∀ spot ∈ spots, spot.In text) →
      regex.ways spots = keepFirst (spots.flatMap regex.paths)) :
    Prefers text (fun spot => regex.ways [spot]) regex.paths where
  steps := stepsIn_paths text regex
  keeps {spot} inside := by
    rw [keeps [spot] (List.pairwise_singleton _ _) (List.forall_mem_singleton.mpr inside),
      List.flatMap_singleton]

/-- A star collects the first ends of the repeated steps. -/
theorem spots_foldl_closure (prefers : Prefers text way step)
    (inside : ∀ spot ∈ spots, spot.In text) :
    (spots.foldl (fun found spot =>
        closure way greedy (spot.rest.length + 1) found spot) {}).spots =
      keepFirst (spots.flatMap fun spot => repeats step greedy (spot.rest.length + 1) spot) := by
  have started : ClosedFrom text way {} 0 := fun spot _ has => by
    rw [Found.has_empty] at has
    cases has
  have each (spot : Spot) (found : Found) (member : spot ∈ spots)
    (closed : ClosedFrom text way found 0) :
      closure way greedy (spot.rest.length + 1) found spot =
        (repeats way greedy (spot.rest.length + 1) spot).foldl Found.add found :=
    closure_eq_foldl_repeats prefers.stepsIn (inside spot member) (Nat.le_succ _)
      fun other place has _ => closed other place has (Nat.zero_le _)
  rw [foldl_closure prefers.stepsIn each (fun spot member =>
    ⟨inside spot member, Nat.le_succ _⟩) started]
  exact SameFirsts.keepFirst_eq <| SameFirsts.flatMap fun spot member =>
    prefers.sameFirsts_repeats (inside spot member)

/-- **The ways of an expression** are the first of its paths to each end. -/
theorem ways_eq_keepFirst_paths (regex : Regex) (apart : Apart spots)
    (inside : ∀ spot ∈ spots, spot.In text) :
    regex.ways spots = keepFirst (spots.flatMap regex.paths) := by
  induction regex generalizing spots with
  | empty =>
      rw [ways, show paths .empty = fun spot => [spot] from rfl, List.flatMap_singleton',
        keepFirst_of_apart apart]
  | set chars =>
      have listed : spots.flatMap (paths (.set chars)) = spots.filterMap (·.take? chars) :=
        (List.filterMap_eq_flatMap_toList _ _).symm
      rw [ways, listed, keepFirst_of_apart (apart_filterMap_take? apart inside chars)]
  | anchor place =>
      have listed : spots.flatMap (paths (.anchor place)) =
          spots.filter fun spot => place.holds spot.before spot.rest.head? := by
        clear apart inside
        induction spots with
        | nil => rfl
        | cons spot rest ih =>
            rw [List.flatMap_cons, ih, paths, List.filter_cons]
            split <;> rfl
      rw [ways, listed, keepFirst_of_apart (apart.filter _)]
  | seq first second ihFirst ihSecond =>
      have there : ∀ spot ∈ spots.flatMap first.paths, spot.In text :=
        Onward.forall_flatMap (onward_paths text first) inside
      have assoc : spots.flatMap (paths (.seq first second)) =
          (spots.flatMap first.paths).flatMap second.paths := List.flatMap_assoc.symm
      rw [ways, ihFirst apart inside, ihSecond (apart_keepFirst _) fun spot member =>
        there spot (mem_of_mem_keepFirst member), assoc]
      exact (sameFirsts_flatMap_keepFirst (stepsIn_paths text second) there).keepFirst_eq
  | alt first second ihFirst ihSecond =>
      rw [ways]
      refine SameFirsts.keepFirst_eq (SameFirsts.flatMap fun spot member => ?_)
      rw [(prefers_paths @ihFirst).keeps (inside spot member),
        (prefers_paths @ihSecond).keeps (inside spot member)]
      exact (sameFirsts_keepFirst _).append (sameFirsts_keepFirst _)
  | many body least extra greedy ih =>
      have prefers : Prefers text (fun spot => body.ways [spot]) body.paths := prefers_paths @ih
      have there : ∀ spot ∈ spots.flatMap (times body.paths least), spot.In text :=
        Onward.forall_flatMap ((stepsIn_paths text body).times least).onward inside
      have kept : ∀ spot ∈ keepFirst (spots.flatMap (times body.paths least)), spot.In text :=
        fun spot member => there spot (mem_of_mem_keepFirst member)
      have needed :
          exactly body.ways least spots = keepFirst (spots.flatMap (times body.paths least)) :=
        exactly_eq prefers.steps @ih apart inside
      have assoc : spots.flatMap (paths (.many body least extra greedy)) =
          (spots.flatMap (times body.paths least)).flatMap fun spot =>
            repeats body.paths greedy (extra.getD (spot.rest.length + 1)) spot :=
              List.flatMap_assoc.symm
      rw [assoc,
        ← (sameFirsts_flatMap_keepFirst (prefers.steps.many greedy extra) there).keepFirst_eq]
      cases extra with
      | none =>
          rw [ways, needed]
          exact spots_foldl_closure prefers kept
      | some count =>
          rw [ways, needed]
          exact SameFirsts.keepFirst_eq <| SameFirsts.flatMap fun spot member =>
            prefers.sameFirsts_atMost (kept spot member)
  | group index body ih =>
      rw [ways]
      refine SameFirsts.keepFirst_eq (SameFirsts.flatMap fun spot member => ?_)
      rw [(prefers_paths @ih).keeps (inside spot member), paths, List.map_eq_flatMap,
        List.map_eq_flatMap]
      exact sameFirsts_flatMap_keepFirst (.close index spot) fun stop reached =>
        (onward_paths text body (inside spot member) reached).1

/-- **The match of an expression** is the first that backtracking finds. -/
theorem matchAt_eq_head?_paths (regex : Regex) (inside : spot.In text) :
    regex.matchAt spot = (regex.paths spot).head? := by
  rw [matchAt, ways_eq_keepFirst_paths regex (List.pairwise_singleton _ _)
    (List.forall_mem_singleton.mpr inside), List.flatMap_singleton, head?_keepFirst]

end Ways

end Regex

end Transcode
