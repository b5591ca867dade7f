import Transcode.Proofs.Staleness

/-!
# The rewrites of a pass

A pass goes through matches that were all found before its first rewrite. `Pass.rewrites` tells
which of them it applies, each with the pass as it was then and as it became. Each is an embedding
at its moment, and binds nothing that a rewrite before it has replaced, although the ids of what was
replaced may be given out again on the way (`CodeGraph.WellFormed.rewrites_sound`).
-/

namespace Transcode

/-- A match that a pass applies, with the pass before and after. -/
structure Rewrite where
  rule : Rule
  found : Match
  before : Pass
  after : Pass

/-- The matches that a pass applies of those that are left, in order. -/
def Pass.rewrites (rules : List Rule) (pass : Pass) : List Match → List Rewrite
  | [] => []
  | found :: rest =>
    match rules[found.ruleIndex]? with
    | none => pass.rewrites rules rest
    | some rule =>
      match pass.step rules found with
      | .error _ => []
      | .ok after =>
        if after.applied = pass.applied then after.rewrites rules rest
        else ⟨rule, found, pass, after⟩ :: after.rewrites rules rest

/-- The matches that a pass over a graph applies. -/
def CodeGraph.rewrites (graph : CodeGraph) (rules : List Rule) : List Rewrite :=
  ({ graph } : Pass).rewrites rules (graph.findMatches rules)

namespace Rewrite

/-- The nodes that are replaced. -/
def replaced (rewrite : Rewrite) : List String := rewrite.found.replaced.map (·.node)

/-- The nodes that are bound: those that are replaced and their context. -/
def bound (rewrite : Rewrite) : List String := rewrite.found.bindings.map (·.node)

/-- The match embeds the pattern of its rule in the graph as it is before the rewrite. -/
def IsEmbedding (rewrite : Rewrite) : Prop :=
  ∃ bound mapped, rewrite.rule.sourcePattern.Embeds rewrite.before.graph bound ∧
    rewrite.rule.sourcePattern.Maps rewrite.before.graph bound mapped ∧
    rewrite.found = rewrite.rule.matchOf rewrite.found.ruleIndex bound
      (mapped.map Search.matchedEdge)

/-- What is so of every rewrite of a pass. -/
structure Genuine (rules : List Rule) (rewrite : Rewrite) : Prop where
  formed : rewrite.before.graph.WellFormed
  listed : rules[rewrite.found.ruleIndex]? = some rewrite.rule
  embedding : rewrite.IsEmbedding
  apart : ∀ id ∈ rewrite.bound, id ∉ rewrite.before.consumed
  applies : ∃ addition, rewrite.before.graph.Applies rewrite.rule rewrite.found addition ∧
    rewrite.after = rewrite.before.afterMatch rewrite.rule rewrite.found addition

/-- Rewrites of which each starts where the one before has ended. -/
def Linked : Pass → List Rewrite → Pass → Prop
  | first, [], last => first = last
  | first, rewrite :: rest, last => rewrite.before = first ∧ Linked rewrite.after rest last

variable {rules : List Rule} {rewrite : Rewrite} {first last : Pass} {log : List Rewrite}

theorem replaced_subset_bound : rewrite.replaced ⊆ rewrite.bound :=
  List.map_subset _ List.filter_sublist.subset

namespace Genuine

/-- A genuine rewrite uses up the nodes it replaces. -/
theorem consumed_after (genuine : rewrite.Genuine rules) :
    rewrite.after.consumed = rewrite.replaced ++ rewrite.before.consumed := by
  obtain ⟨_, _, after⟩ := genuine.applies
  rw [after]
  rfl

/-- A genuine rewrite is counted once. -/
theorem applied_after (genuine : rewrite.Genuine rules) :
    rewrite.after.applied = rewrite.before.applied + 1 := by
  obtain ⟨_, _, after⟩ := genuine.applies
  rw [after]
  rfl

end Genuine

/-! ### Linked rewrites -/

/-- What is so where a pass ends, and so before a rewrite if it is so after it, is so at first. -/
@[elab_as_elim]
theorem Linked.head_induction_on {Fine : Rewrite → Prop}
    {motive : ∀ first log, Linked first log last → (∀ rewrite ∈ log, Fine rewrite) → Prop}
    (linked : Linked first log last) (fine : ∀ rewrite ∈ log, Fine rewrite)
    (ended : motive last [] rfl (List.forall_mem_nil _))
    (step : ∀ {rewrite rest} (here : Fine rewrite) (linked : Linked rewrite.after rest last)
      (later : ∀ rewrite ∈ rest, Fine rewrite), motive rewrite.after rest linked later →
        motive rewrite.before (rewrite :: rest) ⟨rfl, linked⟩
          (List.forall_mem_cons.mpr ⟨here, later⟩)) :
    motive first log linked fine := by
  induction log generalizing first with
  | nil =>
      obtain rfl : first = last := linked
      exact ended
  | cons head rest ih =>
      obtain ⟨rfl, linked⟩ := linked
      obtain ⟨here, later⟩ := List.forall_mem_cons.mp fine
      exact step here linked later (ih linked later)

/-- What a pass has consumed is not bound by its later rewrites. -/
theorem Linked.not_mem_bound (linked : Linked first log last)
    (genuine : ∀ rewrite ∈ log, rewrite.Genuine rules) {id : String}
    (consumed : id ∈ first.consumed) : ∀ rewrite ∈ log, id ∉ rewrite.bound := by
  induction linked, genuine using Linked.head_induction_on with
  | ended => simp
  | step here _ _ ih =>
      refine List.forall_mem_cons.mpr ⟨fun isBound => here.apart id isBound consumed, ih ?_⟩
      rw [here.consumed_after]
      exact List.mem_append_right _ consumed

/-- No rewrite binds, even as context, what an earlier one has replaced. -/
theorem Linked.pairwise_apart (linked : Linked first log last)
    (genuine : ∀ rewrite ∈ log, rewrite.Genuine rules) :
    log.Pairwise fun earlier later => ∀ id ∈ earlier.replaced, id ∉ later.bound := by
  induction linked, genuine using Linked.head_induction_on with
  | ended => exact .nil
  | step here linked later ih =>
      refine List.pairwise_cons.mpr ⟨fun rewrite member id replaced => ?_, ih⟩
      refine linked.not_mem_bound later ?_ rewrite member
      rw [here.consumed_after]
      exact List.mem_append_left _ replaced

/-- A pass counts its rewrites. -/
theorem Linked.applied_eq (linked : Linked first log last)
    (genuine : ∀ rewrite ∈ log, rewrite.Genuine rules) :
    last.applied = first.applied + log.length := by
  induction linked, genuine using Linked.head_induction_on with
  | ended => rfl
  | step here _ _ ih =>
      rw [ih, here.applied_after, List.length_cons]
      omega

/-- What every rewrite keeps is so in the end if it is so at first. -/
theorem Linked.induction {motive : CodeGraph → Prop} (linked : Linked first log last)
    (keep : ∀ rewrite ∈ log, motive rewrite.before.graph → motive rewrite.after.graph)
    (initial : motive first.graph) : motive last.graph := by
  induction linked, keep using Linked.head_induction_on with
  | ended => exact initial
  | step here _ _ ih => exact ih (here initial)

end Rewrite

namespace Pass

variable {start : CodeGraph} {rules : List Rule} {pass after : Pass} {rule : Rule} {found : Match}
  {rest : List Match}

/-- A match that is still valid binds nothing that has been consumed. -/
theorem not_mem_consumed_of_stillValid {graph : CodeGraph} {consumed : List String}
    (fits : found.Fits rule) (still : graph.stillValid rule found consumed) :
    ∀ id ∈ found.bindings.map (·.node), id ∉ consumed := by
  obtain ⟨bound, all, _⟩ := CodeGraph.stillValid_iff.mp still
  intro id listed
  obtain ⟨binding, member, rfl⟩ := List.mem_map.mp listed
  have aligned := List.map_snd_zip (Nat.le_of_eq fits.bindings.length_eq.symm)
  rw [← aligned] at member
  obtain ⟨entry, paired, rfl⟩ := List.mem_map.mp member
  obtain ⟨node, _, isBound⟩ := exists_left_of_forall₂ all.flip entry paired
  exact (CodeGraph.stillBound?_eq_some_iff.mp isBound).1

/-- A match that was applied was still valid. -/
theorem stillValid_of_applied (at_ : rules[found.ruleIndex]? = some rule)
    (stepped : pass.step rules found = .ok after) (grown : after.applied ≠ pass.applied) :
    pass.graph.stillValid rule found pass.consumed := by
  by_contra stale
  rw [step_of_stale at_ (Bool.eq_false_iff.mpr stale)] at stepped
  cases stepped
  exact grown rfl

/-- A match passed over adds no rewrite. -/
theorem rewrites_of_skipped (at_ : rules[found.ruleIndex]? = some rule)
    (stepped : pass.step rules found = .ok pass) :
    pass.rewrites rules (found :: rest) = pass.rewrites rules rest := by
  rw [rewrites, at_]
  dsimp only
  rw [stepped]
  exact if_pos rfl

/-- A match applied adds its rewrite. -/
theorem rewrites_of_applied (at_ : rules[found.ruleIndex]? = some rule)
    (stepped : pass.step rules found = .ok after) (grown : after.applied ≠ pass.applied) :
    pass.rewrites rules (found :: rest) =
      ⟨rule, found, pass, after⟩ :: after.rewrites rules rest := by
  rw [rewrites, at_]
  dsimp only
  rw [stepped]
  exact if_neg grown

/-- The applied matches are among those that the pass goes through, in their order. -/
theorem sublist_rewrites (pass : Pass) (rules : List Rule) (others : List Match) :
    ((pass.rewrites rules others).map (·.found)).Sublist others := by
  induction others generalizing pass with
  | nil => exact .slnil
  | cons found rest ih =>
      unfold rewrites
      split
      · exact (ih pass).cons _
      · split
        · exact List.nil_sublist _
        · split
          · exact (ih _).cons _
          · exact (ih _).cons_cons _

/-- **Rewrites of a pass.** A pass goes through its matches without failing, and all that it does is
told by its rewrites. -/
theorem Since.exists_rewrites (since : pass.Since start) (startFormed : start.WellFormed)
    (valid : ∀ rule ∈ rules, rule.Valid) {others : List Match}
    (listed : ∀ found ∈ others, found ∈ start.findMatches rules) :
    ∃ last, others.foldlM (Pass.step rules) pass = .ok last ∧
      Rewrite.Linked pass (pass.rewrites rules others) last ∧
      ∀ rewrite ∈ pass.rewrites rules others, rewrite.Genuine rules := by
  induction others generalizing pass with
  | nil => exact ⟨pass, rfl, rfl, by simp [rewrites]⟩
  | cons found rest ih =>
      obtain ⟨member, later⟩ := List.forall_mem_cons.mp listed
      obtain ⟨rule, at_, fits⟩ := CodeGraph.fits_of_mem_findMatches member
      obtain ⟨after, stepped, afterSince, same | applied⟩ := since.step startFormed valid member
      · subst same
        rw [rewrites_of_skipped at_ stepped, List.foldlM_cons, stepped]
        exact ih since later
      · obtain ⟨other, bound, mapped, addition, otherAt, embeds, maps, matched, applies, made⟩ :=
          applied
        obtain rfl : rule = other := Option.some.inj (at_.symm.trans otherAt)
        have grown : after.applied ≠ pass.applied := by
          rw [made]
          exact Nat.succ_ne_self _
        have apart := not_mem_consumed_of_stillValid fits (stillValid_of_applied at_ stepped grown)
        obtain ⟨last, ran, linked, genuine⟩ := ih afterSince later
        rw [rewrites_of_applied at_ stepped grown, List.foldlM_cons, stepped]
        refine ⟨last, ran, ⟨rfl, linked⟩, List.forall_mem_cons.mpr ⟨?_, genuine⟩⟩
        exact ⟨since.formed, at_, ⟨bound, mapped, embeds, maps, matched⟩, apart, addition, applies,
          made⟩

end Pass

namespace CodeGraph

namespace WellFormed

variable {graph : CodeGraph} {rules : List Rule} (wellFormed : graph.WellFormed)
  (valid : ∀ rule ∈ rules, rule.Valid)

include wellFormed valid

/-- A pass never fails, and its rewrites are linked and genuine. -/
theorem exists_rewrites :
    ∃ last, Pass.run rules graph = .ok last ∧
      Rewrite.Linked { graph } (graph.rewrites rules) last ∧
      ∀ rewrite ∈ graph.rewrites rules, rewrite.Genuine rules :=
  (Pass.Since.refl wellFormed).exists_rewrites wellFormed valid fun _ member => member

/-- What every rewrite keeps is so after any number of passes if it is so at first. -/
theorem stage_induction {motive : CodeGraph → Prop}
    (keep : ∀ rewrite : Rewrite, rewrite.Genuine rules → motive rewrite.before.graph →
      motive rewrite.after.graph) (initial : motive graph) (passes : Nat) :
    motive (graph.stage rules passes) := by
  induction passes with
  | zero => exact initial
  | succ passes ih =>
      obtain ⟨last, ran, linked, genuine⟩ := (wellFormed.stage valid passes).exists_rewrites valid
      rw [CodeGraph.stage, onePass_eq ran]
      exact linked.induction (fun rewrite member => keep rewrite (genuine rewrite member)) ih

/-- The match of the highest rank is the first to be applied. -/
theorem head?_rewrites :
    ((graph.rewrites rules).map (·.found)).head? = (graph.findMatches rules).head? := by
  cases listed : graph.findMatches rules with
  | nil => rw [CodeGraph.rewrites, listed, Pass.rewrites, List.map_nil]
  | cons found rest =>
      have member : found ∈ graph.findMatches rules := listed ▸ List.mem_cons_self
      obtain ⟨rule, index, at_, atMember⟩ := mem_findMatches_iff.mp member
      obtain ⟨fits, rfl⟩ := Rule.fits_of_mem_matchesAt atMember
      have ruleValid := valid rule (List.mem_of_getElem? at_)
      have still := wellFormed.stillValid_of_mem ruleValid atMember
      obtain ⟨addition, applies⟩ :=
        wellFormed.exists_applies ruleValid fits (hasNode_of_stillValid fits still)
      have stepped : ({ graph } : Pass).step rules found = _ :=
        Pass.step_of_applies at_ still applies
      rw [CodeGraph.rewrites, listed, Pass.rewrites_of_applied at_ stepped (Nat.succ_ne_self _)]
      rfl

/-- **Rewrites are sound.** A pass over a well-formed graph with valid rules applies matches one by
one, each to the graph that the last has left. Each is an embedding of its rule in that graph. None
binds a node that was replaced earlier in the pass, so no node is replaced twice. No match is
applied twice, and the match of the highest rank is applied. -/
theorem rewrites_sound :
    ∃ pass, Pass.run rules graph = .ok pass ∧
      pass.applied = (graph.rewrites rules).length ∧
      Rewrite.Linked { graph } (graph.rewrites rules) pass ∧
      (∀ rewrite ∈ graph.rewrites rules, rewrite.IsEmbedding ∧
        rules[rewrite.found.ruleIndex]? = some rewrite.rule ∧
        ∃ ids, rewrite.before.graph.applyMatch rewrite.rule rewrite.found =
          (.ok ids, rewrite.after.graph)) ∧
      (graph.rewrites rules).Pairwise (fun earlier later =>
        (∀ id ∈ earlier.replaced, id ∉ later.bound) ∧ earlier.replaced.Disjoint later.replaced) ∧
      ((graph.rewrites rules).map (·.found)).Sublist (graph.findMatches rules) ∧
      ((graph.rewrites rules).map (·.found)).Nodup ∧
      ((graph.rewrites rules).map (·.found)).head? = (graph.findMatches rules).head? := by
  obtain ⟨pass, ran, linked, genuine⟩ := wellFormed.exists_rewrites valid
  have sublist : ((graph.rewrites rules).map (·.found)).Sublist (graph.findMatches rules) :=
    Pass.sublist_rewrites _ _ _
  have distinct : (graph.findMatches rules).Nodup := by
    refine (wellFormed.pairwise_findMatches rules).imp ?_
    intro first second precedes same
    subst same
    simp [Match.Precedes] at precedes
  refine ⟨pass, ran, (linked.applied_eq genuine).trans (Nat.zero_add _), linked, ?_, ?_, sublist,
    distinct.sublist sublist, wellFormed.head?_rewrites valid⟩
  · intro rewrite member
    obtain ⟨addition, applies, made⟩ := (genuine rewrite member).applies
    refine ⟨(genuine rewrite member).embedding, (genuine rewrite member).listed,
      addition.nodes.map (·.id), ?_⟩
    rw [made]
    exact applies.outcome
  · refine (linked.pairwise_apart genuine).imp fun {earlier later} apart => ⟨apart, ?_⟩
    exact fun id replaced again => apart id replaced (Rewrite.replaced_subset_bound again)

end WellFormed

theorem findMatches_one (graph : CodeGraph) (rule : Rule) :
    graph.findMatches [rule] = graph.findMatchesOf rule :=
  congrArg Match.ranked (List.append_nil (rule.matchesAt 0 graph))

/-- Matches of one rule that are found in order of rank need no ranking. -/
theorem findMatches_singleton {graph : CodeGraph} {rule : Rule}
    (sorted : (rule.matchesAt 0 graph).Pairwise fun first second =>
      (Match.compareRank first second).isLE) :
    graph.findMatches [rule] = rule.matchesAt 0 graph := by
  rw [findMatches_one]
  exact List.mergeSort_of_pairwise sorted

/-- Two static methods, of which the one takes the id that the other had: the first rewrite replaces
`n5` by `n4`, the second `c` by a new `n5`. -/
theorem rewrites_sound_reusedId :
    ∃ (graph : CodeGraph) (pass : Pass), graph.WellFormed ∧
      (∀ rule ∈ [Builtin.staticToFunction], rule.Valid) ∧
      Pass.run [Builtin.staticToFunction] graph = .ok pass ∧ pass.applied = 2 ∧
      (graph.rewrites [Builtin.staticToFunction]).map (·.replaced) = [["n5"], ["c"]] ∧
      (graph.rewrites [Builtin.staticToFunction]).map (·.after.graph.hasNode "n5") =
        [false, true] ∧
      ∀ rewrite ∈ graph.rewrites [Builtin.staticToFunction], rewrite.IsEmbedding := by
  have valid : ∀ rule ∈ [Builtin.staticToFunction], rule.Valid :=
    List.forall_mem_singleton.mpr (Rule.valid_of_validate (by decide +kernel))
  obtain ⟨graph, wellFormed, tested⟩ := WellFormed.exists_ofData {
      nodes := [⟨"a", "A", .classType, ∅⟩, ⟨"b", "B", .classType, ∅⟩,
        ⟨"n5", "f", .method, Dict.empty.insert "modifiers" "static"⟩,
        ⟨"c", "g", .method, Dict.empty.insert "modifiers" "static"⟩]
      edges := [⟨"e0", "a", "n5", .contains, ∅⟩, ⟨"e1", "b", "c", .contains, ∅⟩] }
    (fun graph =>
      let found := Builtin.staticToFunction.matchesAt 0 graph
      let log := ({ graph } : Pass).rewrites [Builtin.staticToFunction] found
      found.Pairwise (fun first second => (Match.compareRank first second).isLE) ∧
        log.map (·.replaced) = [["n5"], ["c"]] ∧
        log.map (·.after.graph.hasNode "n5") = [false, true]) (by decide +kernel)
  obtain ⟨sorted, replaced, reused⟩ := of_decide_eq_true tested
  rw [← findMatches_singleton sorted] at replaced reused
  obtain ⟨pass, ran, counted, _, sound, _⟩ := wellFormed.rewrites_sound valid
  have two := congrArg List.length replaced
  rw [List.length_map] at two
  exact ⟨graph, pass, wellFormed, valid, ran, counted.trans two, replaced, reused,
    fun rewrite member => (sound rewrite member).1⟩

end CodeGraph

end Transcode
