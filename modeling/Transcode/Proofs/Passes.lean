import Transcode.Proofs.Agreement

/-!
# Passes over the parts

A pass over the whole graph goes through the matches of all parts in one order of rank; a pass over
a part goes through its own matches in that order. A match of the whole graph is applied or stale
just as it is in its part, and changes nothing for the other parts. So the parts agree with the
whole graph after a pass if they did before (`InStep.foldlM`, `Agrees.exists_pass`).
-/

namespace Transcode

/-- A match of a valid rule replaces something. -/
theorem Match.Fits.replaced_ne_nil {rule : Rule} {found : Match} (fits : found.Fits rule)
    (valid : rule.Valid) : found.replaced ≠ [] := by
  obtain ⟨node, member, role⟩ := valid.hasReplaced
  obtain ⟨binding, bindingMember, _, replaced⟩ :=
    exists_left_of_forall₂ fits.bindings.flip node member
  have listed : binding ∈ found.replaced :=
    List.mem_filter.mpr ⟨bindingMember, by rw [replaced, role]; rfl⟩
  exact List.ne_nil_of_mem listed

namespace Pass

variable {rules : List Rule} {pass : Pass} {rule : Rule} {found : Match} {addition : Addition}

/-- What a pass has consumed is gone and does not come back. -/
def Forgets (pass : Pass) : Prop :=
  ∀ id ∈ pass.consumed, pass.graph.NodeSpent id ∧ pass.graph.hasNode id = false

/-- A pass after a match is applied. -/
def afterMatch (pass : Pass) (rule : Rule) (found : Match) (addition : Addition) : Pass where
  graph := addition.result pass.graph rule found
  consumed := found.replaced.map (·.node) ++ pass.consumed
  applied := pass.applied + 1

/-- A stale match is passed over. -/
theorem step_of_stale (at_ : rules[found.ruleIndex]? = some rule)
    (stale : pass.graph.stillValid rule found pass.consumed = false) :
    pass.step rules found = .ok pass := by
  unfold step
  rw [at_]
  dsimp only
  rw [stale]
  rfl

/-- A match still valid is applied. -/
theorem step_of_applies (at_ : rules[found.ruleIndex]? = some rule)
    (still : pass.graph.stillValid rule found pass.consumed = true)
    (applies : pass.graph.Applies rule found addition) :
    pass.step rules found = .ok (pass.afterMatch rule found addition) := by
  unfold step
  rw [at_]
  dsimp only
  rw [if_pos still, applies.outcome]
  rfl

/-- A pass that forgets what it used up does so behind a further match. -/
theorem Forgets.afterMatch (forgets : pass.Forgets) (settled : pass.graph.Settled)
    (applies : pass.graph.Applies rule found addition) :
    (pass.afterMatch rule found addition).Forgets := by
  intro id listed
  rcases List.mem_append.mp listed with replaced | earlier
  · obtain ⟨node, member, rfl⟩ := List.mem_map.mp
      (CodeGraph.hasNode_iff.mp (applies.live_replaced id replaced))
    have spent := settled.nodes node member
    refine ⟨applies.added.nodeSpent_result spent, ?_⟩
    rw [← Bool.not_eq_true]
    exact fun there => ((CodeGraph.hasNode_result_of_nodeSpent applies.added spent).mp there).2
      replaced
  · obtain ⟨spent, gone⟩ := forgets id earlier
    refine ⟨applies.added.nodeSpent_result spent, ?_⟩
    rw [← Bool.not_eq_true]
    intro there
    have before := ((CodeGraph.hasNode_result_of_nodeSpent applies.added spent).mp there).1
    rw [gone] at before
    cases before

end Pass

variable {ι : Type} [Fintype ι] [DecidableEq ι]

/-- Passes over the parts and a pass over the whole graph that have come equally far. -/
structure InStep (between : List Edge) (start : ι → CodeGraph) (naming : ι → Naming)
    (parts : ι → Pass) (whole : Pass) : Prop where
  accord : Accord between start naming (fun index => (parts index).graph) whole.graph
  forgets : whole.Forgets
  partsForget : ∀ index, (parts index).Forgets
  applied : whole.applied = ∑ index, (parts index).applied

namespace InStep

variable {between : List Edge} {start : ι → CodeGraph} {naming : ι → Naming} {parts : ι → Pass}
  {whole : Pass} {rules : List Rule}

/-- A match is applied in its part and in the whole graph. -/
theorem afterMatch (inStep : InStep between start naming parts whole)
    (noContainment : ∀ edge ∈ between, edge.kind ≠ .contains) {index : ι} {rule : Rule}
    {found other : Match} {addition wholeAddition : Addition} {further : Naming}
    (nonempty : found.replaced ≠ []) (relates : (naming index).Relates found other)
    (applies : (parts index).graph.Applies rule found addition)
    (wholeApplies : whole.graph.Applies rule other wholeAddition)
    (adds : (naming index).Adds further addition wholeAddition) :
    InStep between start (Function.update naming index further)
      (Function.update parts index ((parts index).afterMatch rule found addition))
      (whole.afterMatch rule other wholeAddition) := by
  have graphs : (fun place => (Function.update parts index
      ((parts index).afterMatch rule found addition) place).graph) =
        Function.update (fun place => (parts place).graph) index
          (addition.result (parts index).graph rule found) :=
    funext (Function.apply_update (fun _ => Pass.graph) parts index _)
  have agrees := inStep.accord.agrees
  have settled := (agrees.mirrors index).wholeSettled
  constructor
  · rw [graphs]
    exact inStep.accord.step noContainment relates applies wholeApplies adds nonempty
  · exact inStep.forgets.afterMatch settled wholeApplies
  · refine (Function.forall_update_iff parts fun _ part => part.Forgets).mpr
      ⟨?_, fun place _ => inStep.partsForget place⟩
    exact (inStep.partsForget index).afterMatch (agrees.mirrors index).partSettled applies
  · have counts : (fun place => (Function.update parts index
        ((parts index).afterMatch rule found addition) place).applied) =
          Function.update (fun place => (parts place).applied) index ((parts index).applied + 1) :=
      funext (Function.apply_update (fun _ => Pass.applied) parts index _)
    rw [counts, sum_update_add, ← inStep.applied]
    rfl

variable (valid : ∀ rule ∈ rules, rule.Valid)
  (isLocal : ∀ rule ∈ rules, rule.sourcePattern.Local)
  (noContainment : ∀ edge ∈ between, edge.kind ≠ .contains)

include valid isLocal noContainment

/-- **One match.** It is applied in its part and in the whole graph, or it is stale in both. -/
theorem step (inStep : InStep between start naming parts whole) {index : ι} {found other : Match}
    (relates : (naming index).Relates found other)
    (fits : ∃ rule, rules[other.ruleIndex]? = some rule ∧ other.Fits rule) :
    ∃ (naming' : ι → Naming) (part' whole' : Pass),
      (parts index).step rules found = .ok part' ∧ whole.step rules other = .ok whole' ∧
      InStep between start naming' (Function.update parts index part') whole' ∧
      ∀ place first second, (naming place).Relates first second →
        (naming' place).Relates first second := by
  obtain ⟨rule, at_, fits⟩ := fits
  have listed := List.mem_of_getElem? at_
  have partAt : rules[found.ruleIndex]? = some rule := relates.rule ▸ at_
  have mirrors := inStep.accord.agrees.mirrors index
  have same := mirrors.stillValid_eq relates (isLocal rule listed).tests
    (fun id consumed => (inStep.partsForget index id consumed).2)
    (fun id consumed => (inStep.forgets id consumed).2)
  cases still : whole.graph.stillValid rule other whole.consumed with
  | false =>
      refine ⟨naming, parts index, whole, Pass.step_of_stale partAt (same ▸ still),
        Pass.step_of_stale at_ still, ?_, fun _ _ _ => id⟩
      rwa [Function.update_eq_self]
  | true =>
      have partStill := same ▸ still
      have partFits := relates.fits fits
      obtain ⟨addition, applies⟩ := mirrors.partFormed.exists_applies (valid rule listed) partFits
        (CodeGraph.hasNode_of_stillValid partFits partStill)
      obtain ⟨wholeAddition, wholeApplies⟩ := mirrors.wholeFormed.exists_applies
        (valid rule listed) fits (CodeGraph.hasNode_of_stillValid fits still)
      obtain ⟨further, adds⟩ := mirrors.exists_adds applies wholeApplies
      have nonempty := partFits.replaced_ne_nil (valid rule listed)
      refine ⟨_, _, _, Pass.step_of_applies partAt partStill applies,
        Pass.step_of_applies at_ still wholeApplies,
        inStep.afterMatch noContainment nonempty relates applies wholeApplies adds, ?_⟩
      intro place first second related
      by_cases here : place = index
      · subst here
        rw [Function.update_self]
        exact adds.relates related
      · rwa [Function.update_of_ne here]

/-- **Passes in step.** A pass over the whole graph goes through matches of which each is one of
exactly one part; the passes over the parts each go through those of the part. -/
theorem foldlM {owns : ι → Match → Bool} {others : List Match} {found : ι → List Match}
    (owned : ∀ other ∈ others, ∃ index, ∀ place, owns place other = decide (place = index))
    (fits : ∀ other ∈ others, ∃ rule, rules[other.ruleIndex]? = some rule ∧ other.Fits rule)
    (inStep : InStep between start naming parts whole)
    (relates : ∀ index, List.Forall₂ (naming index).Relates (found index)
      (others.filter (owns index))) :
    ∃ (naming' : ι → Naming) (parts' : ι → Pass) (whole' : Pass),
      (∀ index, (found index).foldlM (Pass.step rules) (parts index) = .ok (parts' index)) ∧
      others.foldlM (Pass.step rules) whole = .ok whole' ∧
      InStep between start naming' parts' whole' := by
  induction others generalizing naming parts whole found with
  | nil =>
      refine ⟨naming, parts, whole, fun index => ?_, rfl, inStep⟩
      rw [List.forall₂_nil_right_iff.mp (relates index)]
      rfl
  | cons other rest ih =>
      obtain ⟨⟨index, owner⟩, ownedLater⟩ := List.forall_mem_cons.mp owned
      obtain ⟨otherFits, fitsLater⟩ := List.forall_mem_cons.mp fits
      have here : (other :: rest).filter (owns index) = other :: rest.filter (owns index) :=
        List.filter_cons_of_pos (by simp [owner])
      have elsewhere (place : ι) (different : place ≠ index) :
          (other :: rest).filter (owns place) = rest.filter (owns place) :=
        List.filter_cons_of_neg (by simp [owner, different])
      obtain ⟨first, later, related, laterRelated, split⟩ :=
        List.forall₂_cons_right_iff.mp (here ▸ relates index)
      obtain ⟨naming', part', whole', stepped, wholeStepped, inStep', grown⟩ :=
        inStep.step valid isLocal noContainment related otherFits
      -- What is left for each part, once its match is done.
      have left : ∀ place, List.Forall₂ (naming' place).Relates
          (Function.update found index later place) (rest.filter (owns place)) := by
        refine (Function.forall_update_iff found fun place left => List.Forall₂
          (naming' place).Relates left (rest.filter (owns place))).mpr
            ⟨?_, fun place different => ?_⟩
        · exact laterRelated.imp fun _ _ => grown index _ _
        · exact (elsewhere place different ▸ relates place).imp fun _ _ => grown place _ _
      obtain ⟨naming'', parts'', whole'', ran, wholeRan, inStep''⟩ :=
        ih ownedLater fitsLater inStep' left
      refine ⟨naming'', parts'', whole'', fun place => ?_, ?_, inStep''⟩
      · have done := ran place
        by_cases same : place = index
        · subst same
          rw [Function.update_self, Function.update_self] at done
          rw [split, List.foldlM_cons]
          exact bind_eq_ok_iff.mpr ⟨part', stepped, done⟩
        · rwa [Function.update_of_ne same, Function.update_of_ne same] at done
      · rw [List.foldlM_cons]
        exact bind_eq_ok_iff.mpr ⟨whole', wholeStepped, wholeRan⟩

end InStep

/-! ### Whole passes -/

/-- Things of which each has exactly one owner are as many as all owners have. -/
theorem length_eq_sum_of_owned {α : Type} {owns : ι → α → Bool} {items : List α}
    (owned : ∀ item ∈ items, ∃ index, ∀ place, owns place item = decide (place = index)) :
    items.length = ∑ index, (items.filter (owns index)).length := by
  induction items with
  | nil => simp
  | cons item rest ih =>
      obtain ⟨⟨index, owner⟩, later⟩ := List.forall_mem_cons.mp owned
      have each (place : ι) : ((item :: rest).filter (owns place)).length =
          (rest.filter (owns place)).length + if place = index then 1 else 0 := by
        rw [List.filter_cons, owner]
        by_cases same : place = index <;> simp [same]
      rw [Finset.sum_congr rfl fun place _ => each place, Finset.sum_add_distrib, ← ih later]
      simp

namespace Accord

variable {between : List Edge} {start : ι → CodeGraph} {naming : ι → Naming}
  {part : ι → CodeGraph} {whole : CodeGraph} {rules : List Rule}
  (accord : Accord between start naming part whole)
  (valid : ∀ rule ∈ rules, rule.Valid) (isLocal : ∀ rule ∈ rules, rule.sourcePattern.Local)
  (few : ∀ rule ∈ rules, (rule.assignments whole).length ≤ embeddingLimit)

include accord valid isLocal few

omit [DecidableEq ι] in
/-- The matches of a part, and those of the whole graph that are its own. -/
theorem forall₂_findMatches (index : ι) :
    List.Forall₂ (naming index).Relates ((part index).findMatches rules)
      ((whole.findMatches rules).filter (naming index).covers) :=
  (accord.agrees.mirrors index).forall₂_findMatches valid
    (fun rule listed => (isLocal rule listed).tests) few

/-- The parts have as many matches as the whole graph. -/
theorem length_findMatches : (whole.findMatches rules).length =
    ∑ index, ((part index).findMatches rules).length := by
  rw [length_eq_sum_of_owned fun found member =>
    accord.agrees.exists_owner valid isLocal member]
  exact Finset.sum_congr rfl fun index _ =>
    (accord.forall₂_findMatches valid isLocal few index).length_eq.symm

/-- **A pass.** After a pass over the whole graph and one over each part they still agree, and as
many matches have been applied in the parts as in the whole graph. -/
theorem exists_pass (noContainment : ∀ edge ∈ between, edge.kind ≠ .contains) :
    ∃ (naming' : ι → Naming) (parts' : ι → Pass) (whole' : Pass),
      (∀ index, Pass.run rules (part index) = .ok (parts' index)) ∧
      Pass.run rules whole = .ok whole' ∧
      Accord between start naming' (fun index => (parts' index).graph) whole'.graph ∧
      whole'.applied = ∑ index, (parts' index).applied := by
  have inStep : InStep between start naming (fun index => { graph := part index })
      { graph := whole } :=
    ⟨accord, by simp [Pass.Forgets], by simp [Pass.Forgets], by simp⟩
  obtain ⟨naming', parts', whole', ran, wholeRan, after⟩ := inStep.foldlM valid isLocal
    noContainment (fun found member => accord.agrees.exists_owner valid isLocal member)
    (fun found member => CodeGraph.fits_of_mem_findMatches member)
    (accord.forall₂_findMatches valid isLocal few)
  exact ⟨naming', parts', whole', ran, wholeRan, after.accord, after.applied⟩

end Accord

end Transcode
