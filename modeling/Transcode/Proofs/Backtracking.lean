import Mathlib.Data.List.Forall2
import Transcode.Proofs.Lists
import Transcode.Regex.Basic

/-!
# Matching by backtracking

`Regex.paths` is the search for matches by plain backtracking: it tries what an expression allows in
the order of preference, and lists a spot as often as it is reached. What holds of single steps
holds of its ways (`Regex.Journey.of_mem_paths`), and spots that no place of an expression tells
apart lead on alike (`Regex.forall₂_paths`).
-/

namespace Transcode

/-! ### Spots of one text -/

namespace Spot

/-- A spot of a text. -/
structure In (text : List Char) (spot : Spot) : Prop where
  exists_read : ∃ read, text = read ++ spot.rest ∧ spot.offset = read.length ∧
    spot.before = read.getLast?

variable {text : List Char} {spot other : Spot}

theorem start_in (text : List Char) : (start text).In text := ⟨[], rfl, rfl, rfl⟩

namespace In

/-- What has been read and what is left make up the text. -/
theorem offset_add (inside : spot.In text) : spot.offset + spot.rest.length = text.length := by
  obtain ⟨read, rfl, offset, _⟩ := inside.exists_read
  rw [offset, List.length_append]

theorem rest_eq (inside : spot.In text) : spot.rest = text.drop spot.offset := by
  obtain ⟨read, rfl, offset, _⟩ := inside.exists_read
  rw [offset, List.drop_left]

/-- The character before is the last of what has been read. -/
theorem before_eq (inside : spot.In text) : spot.before = (text.take spot.offset).getLast? := by
  obtain ⟨read, rfl, offset, before⟩ := inside.exists_read
  rw [offset, List.take_left, before]

/-- The spot behind a character is one of the text. -/
theorem after {c : Char} {rest : List Char} (inside : spot.In text) (same : spot.rest = c :: rest) :
    (spot.after c rest).In text := by
  obtain ⟨read, rfl, offset, _⟩ := inside.exists_read
  refine ⟨read ++ [c], ?_, ?_, ?_⟩
  · rw [same, List.append_assoc]
    rfl
  · rw [List.length_append, ← offset]
    rfl
  · rw [List.getLast?_concat]
    rfl

/-- Taking a character goes on by one. -/
theorem take? {chars : CharSet} (inside : spot.In text) (taken : spot.take? chars = some other) :
    other.In text ∧ other.offset = spot.offset + 1 := by
  unfold Spot.take? at taken
  split at taken
  · cases taken
  · rename_i c rest same
    split at taken
    · cases taken
      exact ⟨inside.after same, rfl⟩
    · cases taken

end In

@[simp] theorem rest_close (index : Option Nat) (start : Spot) :
    (spot.close index start).rest = spot.rest := by
  cases index <;> rfl

@[simp] theorem offset_close (index : Option Nat) (start : Spot) :
    (spot.close index start).offset = spot.offset := by
  cases index <;> rfl

@[simp] theorem before_close (index : Option Nat) (start : Spot) :
    (spot.close index start).before = spot.before := by
  cases index <;> rfl

/-- Closing a group stays in the text. -/
theorem In.close (inside : spot.In text) (index : Option Nat) (start : Spot) :
    (spot.close index start).In text := by
  obtain ⟨read, same, offset, before⟩ := inside.exists_read
  exact ⟨read, by rw [rest_close, same], by rw [offset_close, offset], by rw [before_close, before]⟩

end Spot

namespace Regex

variable {spot other : Spot}

/-! ### All ways, tried one after the other -/

/-- The spots that at most a number of steps lead to, each as often as it is reached. -/
def repeats (step : Spot → List Spot) (greedy : Bool) : Nat → Spot → List Spot
  | 0, spot => [spot]
  | count + 1, spot =>
    let further := (advances step spot).flatMap (repeats step greedy count)
    if greedy then further ++ [spot] else spot :: further

/-- The spots that exactly a number of steps lead to, each as often as it is reached. -/
def times (step : Spot → List Spot) : Nat → Spot → List Spot
  | 0, spot => [spot]
  | count + 1, spot => (step spot).flatMap (times step count)

/-- The spots where a match can end that starts at a spot, the preferred one first, each as often as
there is a way to it. -/
def paths : Regex → Spot → List Spot
  | .empty, spot => [spot]
  | .set chars, spot => (spot.take? chars).toList
  | .anchor place, spot => if place.holds spot.before spot.rest.head? then [spot] else []
  | .seq first second, spot => (paths first spot).flatMap (paths second)
  | .alt first second, spot => paths first spot ++ paths second spot
  | .many body least extra greedy, spot =>
    (times (paths body) least spot).flatMap fun spot =>
      repeats (paths body) greedy (extra.getD (spot.rest.length + 1)) spot
  | .group index body, spot => (paths body spot).map (·.close index spot)

/-- Steps that stay in a text and lead no character back. -/
def Onward (text : List Char) (step : Spot → List Spot) : Prop :=
  ∀ {spot next : Spot}, spot.In text → next ∈ step spot → next.In text ∧ spot.offset ≤ next.offset

section Repeats

variable {step : Spot → List Spot} {greedy : Bool} {count : Nat} {next : Spot}

theorem mem_advances :
    next ∈ advances step spot ↔ next ∈ step spot ∧ spot.offset < next.offset := by
  rw [advances, List.mem_filter, decide_eq_true_eq]

/-- Repeating a step stays, or makes the step and repeats it. -/
theorem mem_repeats_succ : next ∈ repeats step greedy (count + 1) spot ↔
    next = spot ∨ ∃ middle ∈ advances step spot, next ∈ repeats step greedy count middle := by
  rw [repeats]
  split <;> simp [or_comm]

/-- Repeating a step may stay. -/
theorem mem_repeats_self (count : Nat) (spot : Spot) : spot ∈ repeats step greedy count spot := by
  cases count with
  | zero => exact List.mem_singleton_self spot
  | succ count => exact mem_repeats_succ.mpr (.inl rfl)

/-- What one step preserves, repetitions preserve. -/
theorem of_mem_repeats {holds : Spot → Prop}
    (stays : ∀ spot, holds spot → ∀ next ∈ step spot, holds next) (start : holds spot)
    (member : next ∈ repeats step greedy count spot) : holds next := by
  induction count generalizing spot with
  | zero => exact List.mem_singleton.mp member ▸ start
  | succ count ih =>
      rcases mem_repeats_succ.mp member with rfl | ⟨middle, first, later⟩
      · exact start
      · exact ih (stays spot start middle (mem_advances.mp first).1) later

/-- What a step keeps, making it so many times keeps. -/
theorem of_mem_times {holds : Spot → Prop}
    (stays : ∀ spot, holds spot → ∀ next ∈ step spot, holds next) (start : holds spot)
    (member : next ∈ times step count spot) : holds next := by
  induction count generalizing spot with
  | zero => exact List.mem_singleton.mp member ▸ start
  | succ count ih =>
      obtain ⟨middle, first, later⟩ := List.mem_flatMap.mp member
      exact ih (stays spot start middle first) later

/-- Repeating a step goes on. -/
theorem Onward.repeats {text : List Char} (onward : Onward text step) :
    Onward text (repeats step greedy count) := by
  intro start next inside member
  have stays (spot : Spot) (holds : spot.In text ∧ start.offset ≤ spot.offset) (next : Spot)
      (member : next ∈ step spot) : next.In text ∧ start.offset ≤ next.offset := by
    obtain ⟨there, after⟩ := onward holds.1 member
    exact ⟨there, Nat.le_trans holds.2 after⟩
  exact of_mem_repeats stays ⟨inside, Nat.le_refl _⟩ member

end Repeats

/-- Whether all sets that an expression reads characters of satisfy a condition. -/
def ReadsOnly (isRead : CharSet → Prop) : Regex → Prop
  | .empty | .anchor _ => True
  | .set chars => isRead chars
  | .seq first second | .alt first second => ReadsOnly isRead first ∧ ReadsOnly isRead second
  | .many body _ _ _ | .group _ body => ReadsOnly isRead body

/-- An expression reads characters of some sets. -/
theorem readsOnly_any (regex : Regex) : regex.ReadsOnly fun _ => True := by
  induction regex with
  | empty | set | anchor => trivial
  | seq _ _ ihFirst ihSecond | alt _ _ ihFirst ihSecond => exact ⟨ihFirst, ihSecond⟩
  | many _ _ _ _ ih | group _ _ ih => exact ih

/-- What can be said of a way as soon as it can be said of each character on it, if the characters
are read by sets that satisfy a condition. -/
structure Journey (isRead : CharSet → Prop) (R : Spot → Spot → Prop) : Prop where
  refl (spot : Spot) : R spot spot
  trans {start middle stop : Spot} : R start middle → R middle stop → R start stop
  take {start stop : Spot} {chars : CharSet} : isRead chars → start.take? chars = some stop →
    R start stop
  close {start stop : Spot} (index : Option Nat) : R start stop → R start (stop.close index start)

/-- **What holds of single steps** holds of all ways of an expression. -/
theorem Journey.of_mem_paths {isRead : CharSet → Prop} {R : Spot → Spot → Prop}
    (journey : Journey isRead R) {regex : Regex} (reads : regex.ReadsOnly isRead)
    (member : other ∈ regex.paths spot) : R spot other := by
  induction regex generalizing spot other with
  | empty =>
      obtain rfl := List.mem_singleton.mp member
      exact journey.refl _
  | set chars => exact journey.take reads (Option.mem_toList.mp member)
  | anchor place =>
      rw [paths] at member
      split at member
      · obtain rfl := List.mem_singleton.mp member
        exact journey.refl _
      · cases member
  | seq first second ihFirst ihSecond =>
      obtain ⟨middle, early, late⟩ := List.mem_flatMap.mp member
      exact journey.trans (ihFirst reads.1 early) (ihSecond reads.2 late)
  | alt first second ihFirst ihSecond =>
      exact (List.mem_append.mp member).elim (ihFirst reads.1) (ihSecond reads.2)
  | many body least extra greedy ih =>
      obtain ⟨middle, early, late⟩ := List.mem_flatMap.mp member
      have stays (next : Spot) (there : R spot next) (following : Spot)
          (member : following ∈ body.paths next) : R spot following :=
        journey.trans there (ih reads member)
      exact of_mem_repeats stays (of_mem_times stays (journey.refl spot) early) late
  | group index body ih =>
      obtain ⟨stop, inner, rfl⟩ := List.mem_map.mp member
      exact journey.close index (ih reads inner)

/-- Every way goes on in the text. -/
theorem onward_paths (text : List Char) (regex : Regex) : Onward text regex.paths := by
  intro spot next inside member
  have journey : Journey (fun _ => True) fun start stop : Spot => start.In text →
      stop.In text ∧ start.offset ≤ stop.offset :=
    { refl := fun _ inside => ⟨inside, Nat.le_refl _⟩
      trans := fun early late inside =>
        ⟨(late (early inside).1).1, Nat.le_trans (early inside).2 (late (early inside).1).2⟩
      take := fun _ taken inside => by
        obtain ⟨there, offset⟩ := inside.take? taken
        exact ⟨there, by omega⟩
      close := fun index onward inside =>
        ⟨(onward inside).1.close index _, by rw [Spot.offset_close]; exact (onward inside).2⟩ }
  exact journey.of_mem_paths regex.readsOnly_any member inside

/-! ### Spots that are not told apart -/

/-- A relation between spots that no expression tells apart, of those that ask only for some places:
they go on by the same characters, stand at places of the same kind, and lie alike to each other. -/
structure Simulation (asked : Anchor → Prop) (R : Spot → Spot → Prop) : Prop where
  take {spot other : Spot} (chars : CharSet) : R spot other →
    Option.Rel R (spot.take? chars) (other.take? chars)
  place {spot other : Spot} {anchor : Anchor} : R spot other → asked anchor →
    anchor.holds spot.before spot.rest.head? = anchor.holds other.before other.rest.head?
  length {spot other : Spot} : R spot other → spot.rest.length = other.rest.length
  lt {spot other next following : Spot} : R spot other → R next following →
    (spot.offset < next.offset ↔ other.offset < following.offset)
  close {spot other next following : Spot} (index : Option Nat) : R spot other → R next following →
    R (next.close index spot) (following.close index other)

/-- Whether all places that an expression asks for satisfy a condition. -/
def AsksOnly (asked : Anchor → Prop) : Regex → Prop
  | .empty | .set _ => True
  | .anchor place => asked place
  | .seq first second | .alt first second => AsksOnly asked first ∧ AsksOnly asked second
  | .many body _ _ _ | .group _ body => AsksOnly asked body

/-- Whether an expression asks for nothing else can be decided. -/
def decidableAsksOnly {asked : Anchor → Prop} [DecidablePred asked] :
    (regex : Regex) → Decidable (regex.AsksOnly asked)
  | .empty | .set _ => .isTrue trivial
  | .anchor place => inferInstanceAs (Decidable (asked place))
  | .seq first second | .alt first second =>
    @instDecidableAnd _ _ (decidableAsksOnly first) (decidableAsksOnly second)
  | .many body _ _ _ | .group _ body => decidableAsksOnly body

instance {asked : Anchor → Prop} [DecidablePred asked] (regex : Regex) :
    Decidable (regex.AsksOnly asked) := decidableAsksOnly regex

/-- An expression asks for some anchors. -/
theorem asksOnly_any (regex : Regex) : regex.AsksOnly fun _ => True := by
  induction regex with
  | empty | set | anchor => trivial
  | seq _ _ ihFirst ihSecond | alt _ _ ihFirst ihSecond => exact ⟨ihFirst, ihSecond⟩
  | many _ _ _ _ ih | group _ _ ih => exact ih

section Simulation

variable {asked : Anchor → Prop} {R : Spot → Spot → Prop} {step otherStep : Spot → List Spot}

/-- Steps that go on are related alike. -/
theorem forall₂_advances (simulation : Simulation asked R)
    (related : ∀ {spot other}, R spot other → List.Forall₂ R (step spot) (otherStep other))
    (start : R spot other) : List.Forall₂ R (advances step spot) (advances otherStep other) := by
  refine List.rel_filter (fun next following same => ?_) (related start)
  simp only [decide_eq_true_eq, simulation.lt start same]

/-- Repeated steps are related alike. -/
theorem forall₂_repeats (simulation : Simulation asked R)
    (related : ∀ {spot other}, R spot other → List.Forall₂ R (step spot) (otherStep other))
    (greedy : Bool) (count : Nat) (start : R spot other) :
    List.Forall₂ R (repeats step greedy count spot) (repeats otherStep greedy count other) := by
  induction count generalizing spot other with
  | zero => exact .cons start .nil
  | succ count ih =>
      have further := List.rel_flatMap (forall₂_advances simulation related start)
        fun _ _ same => ih same
      rw [repeats, repeats]
      split
      · exact List.rel_append further (.cons start .nil)
      · exact .cons start further

/-- Steps that are made so many times are related alike. -/
theorem forall₂_times
    (related : ∀ {spot other}, R spot other → List.Forall₂ R (step spot) (otherStep other))
    (count : Nat) (start : R spot other) :
    List.Forall₂ R (times step count spot) (times otherStep count other) := by
  induction count generalizing spot other with
  | zero => exact .cons start .nil
  | succ count ih => exact List.rel_flatMap (related start) fun _ _ same => ih same

/-- **From spots that are not told apart** all ways are the same. -/
theorem forall₂_paths (simulation : Simulation asked R) {regex : Regex}
    (asks : regex.AsksOnly asked) (start : R spot other) :
    List.Forall₂ R (regex.paths spot) (regex.paths other) := by
  induction regex generalizing spot other with
  | empty => exact .cons start .nil
  | set chars =>
      have related := simulation.take chars start
      rw [paths, paths]
      generalize spot.take? chars = next, other.take? chars = following at related ⊢
      cases related with
      | none => exact .nil
      | some same => exact .cons same .nil
  | anchor place =>
      rw [paths, paths, simulation.place start asks]
      split
      · exact .cons start .nil
      · exact .nil
  | seq first second ihFirst ihSecond =>
      exact List.rel_flatMap (ihFirst asks.1 start) fun _ _ same => ihSecond asks.2 same
  | alt first second ihFirst ihSecond =>
      exact List.rel_append (ihFirst asks.1 start) (ihSecond asks.2 start)
  | many body least extra greedy ih =>
      refine List.rel_flatMap (forall₂_times (fun same => ih asks same) least start)
        fun _ _ same => ?_
      rw [simulation.length same]
      exact forall₂_repeats simulation (fun same => ih asks same) greedy _ same
  | group index body ih =>
      exact List.rel_map (fun _ _ same => simulation.close index start same) (ih asks start)

end Simulation

/-- Spots of one place, whatever groups have matched on the way. -/
structure SamePlace (spot other : Spot) : Prop where
  rest_eq : spot.rest = other.rest
  before_eq : spot.before = other.before
  offset_eq : spot.offset = other.offset

/-- Two spots of one text at one offset are in the same place. -/
theorem samePlace_of_offset_eq {text : List Char} (inside : spot.In text) {other : Spot}
    (also : other.In text) (same : spot.offset = other.offset) : SamePlace spot other :=
  ⟨by rw [inside.rest_eq, also.rest_eq, same], by rw [inside.before_eq, also.before_eq, same], same⟩

/-- Groups do not matter for where an expression can go. -/
theorem simulation_samePlace : Simulation (fun _ => True) SamePlace where
  take chars same := by
    rw [Spot.take?, Spot.take?, same.rest_eq]
    split
    · exact .none
    · split
      · exact .some ⟨rfl, rfl, congrArg (· + 1) same.offset_eq⟩
      · exact .none
  place same _ := by rw [same.rest_eq, same.before_eq]
  length same := by rw [same.rest_eq]
  lt same also := by rw [same.offset_eq, also.offset_eq]
  close index _ same := ⟨by simp [same.rest_eq], by simp [same.before_eq], by simp [same.offset_eq]⟩

/-- From the same place the same places are come to. -/
theorem exists_mem_paths_of_samePlace {regex : Regex} {next : Spot} (same : SamePlace spot other)
    (member : next ∈ regex.paths spot) :
    ∃ following ∈ regex.paths other, following.offset = next.offset := by
  have related := forall₂_paths simulation_samePlace regex.asksOnly_any
    ⟨same.rest_eq.symm, same.before_eq.symm, same.offset_eq.symm⟩
  obtain ⟨following, there, place⟩ := exists_left_of_forall₂ related _ member
  exact ⟨following, there, place.offset_eq⟩

end Regex

end Transcode
