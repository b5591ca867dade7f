import Transcode.Output.Unit
import Transcode.Proofs.Dictionaries
import Transcode.Proofs.WellFormed

/-!
# Units out of a queue

Units come out one after another, each time the first of those that are left and need none of the
others (`Output.Arranges`). The order of the units is found without going through those that are
left: each unit counts the others that it waits for, and enters a queue when it waits for none.
Since the counts are right and the queue holds exactly what is ready (`Output.Queue.Tells`), which
taking one unit out preserves (`Output.Queue.Tells.next`), both come to the same order, or to the
same unit that does not get ready (`Output.arranges_orderedUnits`).
-/

namespace Transcode

namespace Output

variable {required : List Requirement} {all left : List Node} {out : List String} {node : Node}

/-! ### What is ready -/

/-- A unit needs another to come first. -/
def Needs (required : List Requirement) (unit base : String) : Prop := ⟨unit, base⟩ ∈ required

instance (required : List Requirement) (unit base : String) :
    Decidable (Needs required unit base) :=
  inferInstanceAs (Decidable (Requirement.mk unit base ∈ required))

/-- Whether everything that a unit needs is out. -/
def isReady (required : List Requirement) (out : List String) (node : Node) : Bool :=
  required.all fun requirement => requirement.unit ≠ node.id || out.contains requirement.base

/-- A unit is ready when all it needs is out. -/
theorem isReady_iff :
    isReady required out node ↔ ∀ base, Needs required node.id base → base ∈ out := by
  simp only [isReady, List.all_eq_true, Bool.or_eq_true, decide_eq_true_eq, List.contains_iff_mem]
  constructor
  · intro ready base needs
    exact (ready _ needs).resolve_left fun other => other rfl
  · rintro ready ⟨unit, base⟩ member
    by_cases same : unit = node.id
    · exact .inr (ready base (same ▸ member))
    · exact .inl same

theorem isReady_cons (ready : isReady required out node) (id : String) :
    isReady required (id :: out) node :=
  isReady_iff.mpr fun base needs => List.mem_cons_of_mem id (isReady_iff.mp ready base needs)

/-- Without one of them, nodes with ids of their own are the others. -/
theorem perm_cons_filter_ne (distinct : (left.map (·.id)).Nodup) {node : Node}
    (member : node ∈ left) : (node :: left.filter (·.id ≠ node.id)).Perm left := by
  have own : left.filter (fun other => !decide (other.id ≠ node.id)) = [node] := by
    have single : left.filter (fun other => !decide (other.id ≠ node.id)) =
        left.filter (· = node) := by
      refine List.filter_congr fun other there => ?_
      have same : other.id = node.id → other = node := fun equal =>
        List.inj_on_of_nodup_map distinct there member equal
      by_cases equal : other.id = node.id
      · obtain rfl := same equal
        simp
      · have different : other ≠ node := fun isNode => equal (congrArg Node.id isNode)
        simp [equal, different]
    rw [single, List.filter_eq, List.count_eq_one_of_mem (List.Nodup.of_map _ distinct) member]
    rfl
  have parts := List.filter_append_perm (fun other : Node => decide (other.id ≠ node.id)) left
  rw [own] at parts
  exact (List.perm_append_singleton node _).symm.trans parts

/-- What becomes of units that are left when others are out. -/
inductive Arranges (required : List Requirement) :
    List String → List Node → Except Failure (List Node) → Prop
  | done {out : List String} : Arranges required out [] (.ok [])
  | stuck {out : List String} {first : Node} {rest : List Node}
      (none : ∀ node ∈ first :: rest, ¬isReady required out node) :
      Arranges required out (first :: rest) (.error (.cyclic first.id))
  | next {out : List String} {left : List Node} {node : Node}
      {outcome : Except Failure (List Node)} (first : left.find? (isReady required out) = some node)
      (others : Arranges required (node.id :: out) (left.filter (·.id ≠ node.id)) outcome) :
      Arranges required out left (outcome.map (node :: ·))

/-- What becomes of the units that are left is determined. -/
theorem Arranges.eq {outcome other : Except Failure (List Node)}
    (arranges : Arranges required out left outcome) (again : Arranges required out left other) :
    outcome = other := by
  induction arranges generalizing other with
  | done =>
      cases again with
      | done => rfl
      | next first => cases first
  | stuck none =>
      cases again with
      | stuck => rfl
      | next first =>
          exact absurd (List.find?_some first) (none _ (List.mem_of_find?_eq_some first))
  | next first _ ih =>
      cases again with
      | done => cases first
      | stuck none =>
          exact absurd (List.find?_some first) (none _ (List.mem_of_find?_eq_some first))
      | next otherFirst others =>
          obtain rfl := Option.some.inj (first.symm.trans otherFirst)
          rw [ih others]

/-! ### Counting what a unit waits for -/

/-- How many of the units that a unit needs are not out, each counted once. -/
def waitCount (required : List Requirement) (out : List String) (unit : String) : Nat :=
  required.eraseDups.countP fun requirement =>
    requirement.unit = unit && !out.contains requirement.base

theorem waitCount_nil (unit : String) : waitCount required [] unit = needCount required unit := by
  simp [waitCount, needCount, List.countP_eq_length_filter]

/-- A unit that waits for none is ready. -/
theorem waitCount_eq_zero_iff : waitCount required out node.id = 0 ↔ isReady required out node := by
  rw [waitCount, List.countP_eq_zero, isReady_iff]
  constructor
  · intro none base needs
    by_contra missing
    exact none _ (List.mem_eraseDups.mpr needs) (by simpa using missing)
  · rintro ready ⟨unit, base⟩ member waits
    simp only [Bool.and_eq_true, decide_eq_true_eq, Bool.not_eq_true', List.contains_eq_mem,
      decide_eq_false_iff_not] at waits
    obtain ⟨rfl, missing⟩ := waits
    exact missing (ready base (List.mem_eraseDups.mp member))

/-- When a unit comes out, those that need it wait for one less. -/
theorem waitCount_eq_add {base : String} (new : base ∉ out) (unit : String) :
    waitCount required out unit =
      waitCount required (base :: out) unit + if Needs required unit base then 1 else 0 := by
  let requirement : Requirement := ⟨unit, base⟩
  have counted : (requirement.unit = unit && !out.contains requirement.base) = true := by
    simpa [requirement] using new
  have difference := countP_eq_add_of_nodup (nodup_eraseDups required)
    (fun requirement => requirement.unit = unit && !out.contains requirement.base) counted
  have others : waitCount required (base :: out) unit = required.eraseDups.countP fun requirement =>
      (decide (requirement.unit = unit) && !out.contains requirement.base) &&
        decide (requirement ≠ ⟨unit, base⟩) := by
    refine List.countP_congr fun requirement _ => ?_
    obtain ⟨other, needed⟩ := requirement
    by_cases same : other = unit
    · subst same
      simp [and_comm]
    · simp [same]
  simp only [waitCount, List.mem_eraseDups] at difference others ⊢
  rw [difference, others]
  rfl

namespace Queue

/-! ### Entering the queue -/

/-- A unit enters at its place among units that are kept in the order of creation. -/
theorem enter_filter {keeps : Node → Bool} (sorted : left.Pairwise (·.seq < ·.seq))
    (member : node ∈ left) (missing : ¬keeps node) :
    enter node (left.filter keeps) = left.filter fun other => keeps other || other = node := by
  induction left with
  | nil => cases member
  | cons head rest ih =>
      obtain ⟨later, sorted⟩ := List.pairwise_cons.mp sorted
      by_cases same : head = node
      · subst same
        have others : (rest.filter fun other => keeps other || other = head) =
            rest.filter keeps := by
          refine List.filter_congr fun other there => ?_
          have apart : other ≠ head := fun equal => Nat.lt_irrefl _ (equal ▸ later other there)
          simp [apart]
        rw [List.filter_cons_of_neg missing, List.filter_cons_of_pos (by simp), others]
        cases kept : rest.filter keeps with
        | nil => rfl
        | cons next _ =>
            have there : next ∈ rest := by
              apply (List.mem_filter (p := keeps)).mp _ |>.1
              rw [kept]
              exact List.mem_cons_self
            exact if_pos (later next there)
      · have there : node ∈ rest := (List.mem_cons.mp member).resolve_left (Ne.symm same)
        have tail := ih sorted there
        by_cases kept : keeps head
        · rw [List.filter_cons_of_pos kept, List.filter_cons_of_pos (by simp [kept]), enter,
            if_neg (Nat.lt_asymm (later node there)), tail]
        · rw [List.filter_cons_of_neg kept, List.filter_cons_of_neg (by simp [kept, same]), tail]

/-- What several units that are released do to a queue: each waits for one less, and those that wait
for none are ready, in their places. -/
theorem foldl_release {released : List Node} (queue : Queue) {keeps : Node → Bool}
    (count : String → Nat) (sorted : left.Pairwise (·.seq < ·.seq))
    (apart : (released.map (·.id)).Nodup) (there : ∀ unit ∈ released, unit ∈ left)
    (unready : ∀ unit ∈ released, ¬keeps unit)
    (counted : ∀ unit ∈ released, queue.waits.get? unit.id = some (count unit.id + 1))
    (isQueue : queue.ready = left.filter keeps) :
    (released.foldl release queue).ready = left.filter (fun unit =>
        keeps unit || (released.contains unit && count unit.id = 0)) ∧
      ∀ id, (released.foldl release queue).waits.get? id =
        if id ∈ released.map (·.id) then some (count id) else queue.waits.get? id := by
  induction released generalizing queue keeps with
  | nil =>
      refine ⟨isQueue.trans (List.filter_congr fun unit _ => ?_), fun id => ?_⟩
      · simp
      · simp
  | cons unit rest ih =>
      obtain ⟨own, apart⟩ := List.nodup_cons.mp apart
      obtain ⟨unitThere, there⟩ := List.forall_mem_cons.mp there
      obtain ⟨unitWaits, unready⟩ := List.forall_mem_cons.mp unready
      obtain ⟨unitCount, counted⟩ := List.forall_mem_cons.mp counted
      have fewer : waitsOf queue.waits unit - 1 = count unit.id := by
        rw [waitsOf, unitCount, Option.getD_some, Nat.add_sub_cancel]
      have differs {other : Node} (member : other ∈ rest) : other.id ≠ unit.id := by
        intro same
        exact own (List.mem_map.mpr ⟨other, member, same⟩)
      have waits : (queue.release unit).waits = queue.waits.insert unit.id (count unit.id) := by
        rw [release, fewer]
      have ready : (queue.release unit).ready =
          left.filter fun other => keeps other || (other = unit && count unit.id = 0) := by
        rw [release, fewer]
        dsimp only
        split
        · rename_i last
          rw [isQueue, enter_filter sorted unitThere unitWaits]
          refine List.filter_congr fun other _ => ?_
          simp [last]
        · rename_i more
          rw [isQueue]
          refine List.filter_congr fun other _ => ?_
          simp [more]
      obtain ⟨readyLater, waitsLater⟩ := ih (queue.release unit) apart there
        (fun other member => by
          have apart : other ≠ unit := fun same => differs member (congrArg Node.id same)
          simpa [apart] using unready other member)
        (fun other member => by
          rw [waits, Dict.get?_insert, if_neg (Ne.symm (differs member))]
          exact counted other member) ready
      rw [List.foldl_cons]
      constructor
      · rw [readyLater]
        refine List.filter_congr fun other _ => ?_
        by_cases same : other = unit
        · subst same
          cases keeps other <;> simp
        · simp [same]
      · intro id
        rw [waitsLater, waits, Dict.get?_insert, List.map_cons]
        by_cases listed : id ∈ rest.map (·.id)
        · simp [listed]
        · by_cases same : unit.id = id
          · subst same
            simp [listed]
          · simp [listed, same, Ne.symm same]

/-! ### Taking units out -/

/-- A queue tells which units are ready and how many others each unit waits for, when some are
out and the others are left. What is out waits for none. -/
structure Tells (required : List Requirement) (all : List Node) (out : List String)
    (left : List Node) (queue : Queue) : Prop where
  remain : left = all.filter fun unit => !out.contains unit.id
  closed : ∀ unit ∈ all, unit.id ∈ out → isReady required out unit
  ready : queue.ready = left.filter (isReady required out)
  waits : ∀ unit ∈ all, queue.waits.get? unit.id = some (waitCount required out unit.id)

namespace Tells

variable {queue : Queue}

/-- Before any unit is out, what needs nothing is ready. -/
theorem start (required : List Requirement) (all : List Node) :
    (Queue.start required all).Tells required all [] all where
  remain := by simp
  closed _ _ isOut := nomatch isOut
  ready := by
    refine List.filter_congr fun unit _ => ?_
    rw [Bool.eq_iff_iff, decide_eq_true_iff, ← waitCount_eq_zero_iff, waitCount_nil]
  waits unit member := by
    rw [waitCount_nil]
    apply Dict.get?_ofList
    · exact ⟨_, List.mem_map_of_mem member, rfl⟩
    · intro entry listed same
      obtain ⟨other, _, rfl⟩ := List.mem_map.mp listed
      exact congrArg (needCount required) same

/-- **One unit comes out.** The queue goes on to tell what is ready and what is waited for. -/
theorem next {rest : List Node} (tells : queue.Tells required all out left)
    (distinct : (all.map (·.id)).Nodup) (sorted : all.Pairwise (·.seq < ·.seq))
    (first : queue.ready = node :: rest) :
    ((dependents required all node.id).foldl release { queue with ready := rest }).Tells required
      all (node.id :: out) (left.filter (·.id ≠ node.id)) := by
  have isFirst : left.filter (isReady required out) = node :: rest := tells.ready.symm.trans first
  have member : node ∈ left.filter (isReady required out) := isFirst ▸ List.mem_cons_self
  obtain ⟨nodeLeft, nodeReady⟩ := List.mem_filter.mp member
  have leftEq := tells.remain
  rw [leftEq] at nodeLeft
  obtain ⟨nodeThere, nodeNew⟩ := List.mem_filter.mp nodeLeft
  have new : node.id ∉ out := by simpa using nodeNew
  have leftSorted : (left.filter (·.id ≠ node.id)).Pairwise (·.seq < ·.seq) := by
    rw [leftEq]
    exact (sorted.filter _).filter _
  have needs_iff {unit : Node} : unit ∈ dependents required all node.id ↔
      unit ∈ all ∧ Needs required unit.id node.id := by
    simp [dependents, Needs]
  have waiting {unit : Node} (isDependent : unit ∈ dependents required all node.id) :
      ¬isReady required out unit := by
    intro ready
    exact new (isReady_iff.mp ready _ (needs_iff.mp isDependent).2)
  -- What needs the unit is still left: what is out, and the unit itself, need nothing more.
  have dependentsLeft : ∀ unit ∈ dependents required all node.id,
      unit ∈ left.filter (·.id ≠ node.id) := by
    intro unit isDependent
    have there := (needs_iff.mp isDependent).1
    refine List.mem_filter.mpr ⟨?_, ?_⟩
    · rw [leftEq]
      refine List.mem_filter.mpr ⟨there, ?_⟩
      simpa using fun isOut => waiting isDependent (tells.closed unit there isOut)
    · refine decide_eq_true fun same => ?_
      have equal := List.inj_on_of_nodup_map distinct there nodeThere same
      exact waiting isDependent (equal ▸ nodeReady)
  have restEq : rest = (left.filter (·.id ≠ node.id)).filter (isReady required out) := by
    have apart : ((node :: rest).map (·.id)).Nodup := by
      rw [← isFirst, leftEq]
      exact distinct.sublist ((List.filter_sublist.trans List.filter_sublist).map _)
    have others : ∀ unit ∈ rest, unit.id ≠ node.id := by
      intro unit there same
      exact (List.nodup_cons.mp apart).1 (List.mem_map.mpr ⟨unit, there, same⟩)
    rw [List.filter_comm, isFirst, List.filter_cons_of_neg (by simp)]
    exact (List.filter_eq_self.mpr fun unit there => decide_eq_true (others unit there)).symm
  have apart : ((dependents required all node.id).map (·.id)).Nodup :=
    distinct.sublist (List.filter_sublist.map _)
  obtain ⟨ready, waits⟩ := foldl_release { queue with ready := rest }
    (waitCount required (node.id :: out)) leftSorted apart dependentsLeft (fun _ => waiting)
    (fun unit isDependent => by
      obtain ⟨there, needs⟩ := needs_iff.mp isDependent
      rw [tells.waits unit there, waitCount_eq_add new, if_pos needs]) restEq
  refine ⟨?remain, ?closed, ?ready, ?waits⟩
  case remain =>
    rw [leftEq, List.filter_filter]
    refine List.filter_congr fun unit _ => ?_
    by_cases same : unit.id = node.id <;> simp [same]
  case closed =>
    intro unit there isOut
    rcases List.mem_cons.mp isOut with same | isOut
    · obtain rfl := List.inj_on_of_nodup_map distinct there nodeThere same
      exact isReady_cons nodeReady _
    · exact isReady_cons (tells.closed unit there isOut) _
  case ready =>
    rw [ready]
    refine List.filter_congr fun unit there => ?_
    have unitThere : unit ∈ all := by
      rw [leftEq] at there
      exact (List.mem_filter.mp (List.mem_filter.mp there).1).1
    rw [Bool.eq_iff_iff, Bool.or_eq_true, Bool.and_eq_true, decide_eq_true_iff,
      waitCount_eq_zero_iff, List.contains_iff_mem]
    constructor
    · rintro (already | ⟨_, now⟩)
      · exact isReady_cons already _
      · exact now
    · intro now
      by_cases isDependent : unit ∈ dependents required all node.id
      · exact .inr ⟨isDependent, now⟩
      · refine .inl (isReady_iff.mpr fun base needs => ?_)
        rcases List.mem_cons.mp (isReady_iff.mp now base needs) with rfl | isOut
        · exact absurd (needs_iff.mpr ⟨unitThere, needs⟩) isDependent
        · exact isOut
  case waits =>
    intro unit there
    rw [waits]
    split
    · rfl
    · rename_i independent
      rw [tells.waits unit there, waitCount_eq_add new, if_neg, Nat.add_zero]
      intro needs
      exact independent (List.mem_map_of_mem (needs_iff.mpr ⟨there, needs⟩))

/-- Where nothing that is left is ready, the first unit that waits is the first that is left. -/
theorem find?_waits (tells : queue.Tells required all out left)
    (none : ∀ unit ∈ left, ¬isReady required out unit) :
    all.find? (fun unit => decide (0 < waitsOf queue.waits unit)) = left.head? := by
  rw [tells.remain, List.head?_filter]
  refine find?_congr_of_mem fun unit there => ?_
  rw [waitsOf, tells.waits unit there, Option.getD_some, Bool.eq_iff_iff, decide_eq_true_iff,
    Nat.pos_iff_ne_zero, Ne, waitCount_eq_zero_iff]
  constructor
  · intro waits
    simpa using mt (tells.closed unit there) waits
  · intro isLeft
    apply none
    rw [tells.remain]
    exact List.mem_filter.mpr ⟨there, isLeft⟩

end Tells

/-! ### The whole queue -/

/-- What comes of a queue, with the units that are left before it is drained, and what the units
wait for afterwards. -/
def outcome (all left : List Node) (drained : List Node × Dict Nat) : Except Failure (List Node) :=
  if drained.1.length < left.length then
    .error (.cyclic (((all.find? (0 < waitsOf drained.2 ·)).map (·.id)).getD ""))
  else .ok drained.1

/-- One unit comes out, and the others after it. -/
theorem outcome_cons {others : List Node} (one : left.length = others.length + 1) (node : Node)
    (drained : List Node × Dict Nat) : outcome all left (node :: drained.1, drained.2) =
      (outcome all others drained).map (node :: ·) := by
  rw [outcome, outcome, one, List.length_cons]
  by_cases fewer : drained.1.length < others.length
  · rw [if_pos fewer, if_pos (Nat.succ_lt_succ fewer)]
    rfl
  · rw [if_neg fewer, if_neg (mt Nat.lt_of_succ_lt_succ fewer)]
    rfl

/-- **Draining a queue** puts the units that are left in order, or comes to the first of those that
do not get ready. -/
theorem Tells.arranges {queue : Queue} {fuel : Nat} (tells : queue.Tells required all out left)
    (distinct : (all.map (·.id)).Nodup) (sorted : all.Pairwise (·.seq < ·.seq))
    (enough : left.length ≤ fuel) :
    Arranges required out left (outcome all left (drain (dependents required all) fuel queue)) := by
  induction fuel generalizing out left queue with
  | zero =>
      obtain rfl := List.length_eq_zero_iff.mp (Nat.le_zero.mp enough)
      exact .done
  | succ fuel ih =>
      unfold drain
      split
      · rename_i empty
        have none : left.filter (isReady required out) = [] := tells.ready.symm.trans empty
        have waits := List.filter_eq_nil_iff.mp none
        have culprit := tells.find?_waits waits
        cases left with
        | nil => exact .done
        | cons first rest =>
            have fewer : ([] : List Node).length < (first :: rest).length := Nat.zero_lt_succ _
            rw [outcome, if_pos fewer, culprit]
            exact .stuck waits
      · rename_i node rest first
        have found : left.find? (isReady required out) = some node := by
          rw [← List.head?_filter, ← tells.ready, first]
          rfl
        have one : left.length = (left.filter (·.id ≠ node.id)).length + 1 := by
          have apart : (left.map (·.id)).Nodup := by
            rw [tells.remain]
            exact distinct.sublist (List.filter_sublist.map _)
          exact (perm_cons_filter_ne apart (List.mem_of_find?_eq_some found)).length_eq.symm
        have later := ih (tells.next distinct sorted first) (by omega)
        dsimp only
        rw [outcome_cons one]
        exact .next found later

end Queue

variable {graph : CodeGraph}

theorem nodup_units (wellFormed : graph.WellFormed) : ((units graph).map (·.id)).Nodup :=
  wellFormed.nodeIds.sublist (List.filter_sublist.map _)

/-- **The order of units** is the one that comes of taking the first ready unit again and again. -/
theorem arranges_orderedUnits (wellFormed : graph.WellFormed) :
    Arranges (requirements graph) [] (units graph) (orderedUnits graph) :=
  (Queue.Tells.start (requirements graph) (units graph)).arranges (nodup_units wellFormed)
    (wellFormed.nodeOrder.filter _) (Nat.le_refl _)

end Output

end Transcode
