import Transcode.Proofs.Relations

/-!
# What rewrites make

A rewrite makes nodes under ids that were never made before, and the history gets an entry for each
of them. So a graph grows by what its rewrites make (`CodeGraph.Grows`), rewrite by rewrite, along a
pass and through any number of passes (`CodeGraph.WellFormed.grows_stage`), whatever becomes of the
nodes later on.
-/

namespace Transcode

/-- A rule made a node. -/
structure Creation where
  node : String
  rule : Rule

/-- What a history says of a creation. -/
def Creation.entry (creation : Creation) : Provenance := ⟨creation.node, creation.rule.id⟩

namespace Rewrite

/-- The nodes that are there after a rewrite and were not there before. -/
def made (rewrite : Rewrite) : List String :=
  (rewrite.after.graph.nodes.map (·.id)).filter fun id => !rewrite.before.graph.hasNode id

/-- What a rewrite makes. -/
def creations (rewrite : Rewrite) : List Creation := rewrite.made.map (⟨·, rewrite.rule⟩)

end Rewrite

/-- A graph has become another in which all else is as old. The ids of what was made were not used
up before and are now. -/
structure CodeGraph.Grows (before : CodeGraph) (created : List Creation) (after : CodeGraph) :
    Prop where
  spent : ∀ id, before.NodeSpent id → after.NodeSpent id
  fresh : ∀ creation ∈ created, ¬before.NodeSpent creation.node
  used : ∀ creation ∈ created, after.NodeSpent creation.node
  distinct : (created.map (·.node)).Nodup
  history : after.history = before.history ++ created.map Creation.entry
  nodes : ∀ node ∈ after.nodes, node ∈ before.nodes ∨ node.id ∈ created.map (·.node)
  namespaceText : after.namespaceText = before.namespaceText

namespace CodeGraph.Grows

variable {before between after : CodeGraph} {created further : List Creation}

/-- A graph grows by nothing into itself. -/
theorem refl (graph : CodeGraph) : graph.Grows [] graph where
  spent _ spent := spent
  fresh := by simp
  used := by simp
  distinct := List.nodup_nil
  history := (List.append_nil _).symm
  nodes _ member := .inl member
  namespaceText := rfl

/-- Growth behind growth is growth by both. -/
theorem trans (first : before.Grows created between) (second : between.Grows further after) :
    before.Grows (created ++ further) after where
  spent id spent := second.spent id (first.spent id spent)
  fresh := by
    refine List.forall_mem_append.mpr ⟨first.fresh, fun creation member spent => ?_⟩
    exact second.fresh creation member (first.spent _ spent)
  used := by
    refine List.forall_mem_append.mpr ⟨fun creation member => ?_, second.used⟩
    exact second.spent _ (first.used creation member)
  distinct := by
    rw [List.map_append, List.nodup_append]
    refine ⟨first.distinct, second.distinct, fun id early other late same => ?_⟩
    obtain ⟨one, oneMember, rfl⟩ := List.mem_map.mp early
    obtain ⟨another, anotherMember, rfl⟩ := List.mem_map.mp late
    exact second.fresh another anotherMember (same ▸ first.used one oneMember)
  history := by
    rw [second.history, first.history, List.map_append, List.append_assoc]
  nodes node member := by
    rw [List.map_append, List.mem_append]
    rcases second.nodes node member with old | new
    · exact (first.nodes node old).imp_right .inl
    · exact .inr (.inr new)
  namespaceText := second.namespaceText.trans first.namespaceText

end CodeGraph.Grows

/-! ### One rewrite -/

/-- Nothing that an application adds has the id of a node that was there. -/
theorem CodeGraph.Applies.not_hasNode_of_mem {graph : CodeGraph} {rule : Rule} {found : Match}
    {addition : Addition} (applies : graph.Applies rule found addition)
    (wellFormed : graph.WellFormed) (valid : rule.Valid) {id : String}
    (member : id ∈ addition.nodes.map (·.id)) : ¬graph.hasNode id := by
  obtain ⟨other, otherApplies, new⟩ :=
    wellFormed.exists_applies_new valid applies.fits applies.live
  have outcome := applies.outcome.symm.trans otherApplies.outcome
  have same : addition.nodes.map (·.id) = other.nodes.map (·.id) :=
    Except.ok.inj (Prod.mk.inj outcome).1
  have distinct := new.placed.nodeIds
  rw [Addition.placed, List.map_append, ← same, List.nodup_append] at distinct
  exact fun there => distinct.2.2 id (hasNode_iff.mp there) id member rfl

namespace Rewrite

variable {rules : List Rule} {rewrite : Rewrite} {first last : Pass} {log : List Rewrite}

section Genuine

variable (genuine : rewrite.Genuine rules) (valid : rewrite.rule.Valid)

include genuine valid

/-- The nodes a rewrite made are those of its addition. -/
theorem Genuine.made_eq {addition : Addition}
    (applies : rewrite.before.graph.Applies rewrite.rule rewrite.found addition)
    (after : rewrite.after = rewrite.before.afterMatch rewrite.rule rewrite.found addition) :
    rewrite.made = addition.nodes.map (·.id) := by
  have nodes : rewrite.after.graph.nodes.map (·.id) =
      (rewrite.before.graph.nodes.filter (·.id ∉ rewrite.found.replaced.map (·.node))).map (·.id) ++
        addition.nodes.map (·.id) := by
    rw [after, ← List.map_append]
    rfl
  rw [made, nodes, List.filter_append, List.filter_eq_nil_iff.mpr, List.nil_append,
    List.filter_eq_self.mpr]
  · intro id member
    simpa using applies.not_hasNode_of_mem genuine.formed valid member
  · intro id member
    obtain ⟨node, kept, rfl⟩ := List.mem_map.mp member
    simpa using CodeGraph.hasNode_of_mem (List.mem_filter.mp kept).1

/-- A rewrite makes something. -/
theorem Genuine.made_ne_nil : rewrite.made ≠ [] := by
  obtain ⟨addition, applies, after⟩ := genuine.applies
  rw [genuine.made_eq valid applies after]
  intro none
  have size := applies.added.filled.length_eq
  rw [List.map_eq_nil_iff.mp none, List.length_nil] at size
  exact valid.hasTemplate (List.eq_nil_of_length_eq_zero size)

/-- **One rewrite.** -/
theorem Genuine.grows : rewrite.before.graph.Grows rewrite.creations rewrite.after.graph := by
  obtain ⟨addition, applies, after⟩ := genuine.applies
  have made := genuine.made_eq valid applies after
  have created : rewrite.creations.map (·.node) = addition.nodes.map (·.id) := by
    rw [creations, List.map_map, made]
    exact List.map_id _
  have added {creation : Creation} (member : creation ∈ rewrite.creations) :
      ∃ node ∈ addition.nodes, node.id = creation.node :=
    List.mem_map.mp (created ▸ List.mem_map_of_mem member)
  rw [after]
  refine ⟨fun id => applies.added.nodeSpent_result, fun creation member => ?_,
    fun creation member => ?_, created ▸ applies.nodup_nodes, ?_, fun node member => ?_, rfl⟩
  · obtain ⟨node, isNew, same⟩ := added member
    exact same ▸ applies.added.not_nodeSpent isNew
  · obtain ⟨node, isNew, same⟩ := added member
    exact same ▸ applies.added.nodeSpent_result_of_mem isNew
  · change rewrite.before.graph.history ++ _ = _
    rw [creations, made, List.map_map, List.map_map]
    rfl
  · rw [created]
    rcases List.mem_append.mp member with old | new
    · exact .inl (List.mem_filter.mp old).1
    · exact .inr (List.mem_map_of_mem new)

end Genuine

/-! ### Many rewrites -/

/-- The rewrites of a pass. -/
theorem Linked.grows (linked : Linked first log last)
    (genuine : ∀ rewrite ∈ log, rewrite.Genuine rules) (valid : ∀ rule ∈ rules, rule.Valid) :
    first.graph.Grows (log.flatMap creations) last.graph := by
  induction linked, genuine using Linked.head_induction_on with
  | ended => exact .refl _
  | step here _ _ ih =>
      have ruleValid := valid _ (List.mem_of_getElem? here.listed)
      exact (here.grows ruleValid).trans ih

/-- What comes before a rewrite of a pass, and what comes after it. -/
theorem Linked.grows_around (linked : Linked first log last)
    (genuine : ∀ rewrite ∈ log, rewrite.Genuine rules) (valid : ∀ rule ∈ rules, rule.Valid)
    (member : rewrite ∈ log) :
    (∃ created, first.graph.Grows created rewrite.before.graph) ∧
      ∃ created, rewrite.after.graph.Grows created last.graph := by
  induction linked, genuine using Linked.head_induction_on with
  | ended => cases member
  | step here linked later ih =>
      rcases List.mem_cons.mp member with rfl | member
      · exact ⟨⟨_, .refl _⟩, _, linked.grows later valid⟩
      · obtain ⟨⟨_, grows⟩, after⟩ := ih member
        have ruleValid := valid _ (List.mem_of_getElem? here.listed)
        exact ⟨⟨_, (here.grows ruleValid).trans grows⟩, after⟩

end Rewrite

namespace CodeGraph

/-- What is made in a number of passes. -/
def creationsOver (graph : CodeGraph) (rules : List Rule) (passes : Nat) : List Creation :=
  (graph.rewritesOver rules passes).flatMap Rewrite.creations

variable {graph : CodeGraph} {rules : List Rule}

section Passes

variable (wellFormed : graph.WellFormed) (valid : ∀ rule ∈ rules, rule.Valid)

include wellFormed valid

/-- Every rewrite of a run is genuine. -/
theorem WellFormed.genuine_of_mem_rewritesOver {passes : Nat} :
    ∀ rewrite ∈ graph.rewritesOver rules passes, rewrite.Genuine rules := by
  intro rewrite member
  obtain ⟨number, _, member⟩ := List.mem_flatMap.mp member
  obtain ⟨_, _, _, genuine⟩ := (wellFormed.stage valid number).exists_rewrites valid
  exact genuine rewrite member

/-- **Any number of passes.** -/
theorem WellFormed.grows_stage (passes : Nat) :
    graph.Grows (graph.creationsOver rules passes) (graph.stage rules passes) := by
  induction passes with
  | zero => exact .refl graph
  | succ passes ih =>
      obtain ⟨last, ran, linked, genuine⟩ := (wellFormed.stage valid passes).exists_rewrites valid
      have grows := linked.grows genuine valid
      rw [← onePass_eq ran] at grows
      rw [creationsOver, rewritesOver_succ, List.flatMap_append]
      exact ih.trans grows

/-- What comes before a rewrite of a number of passes, and what comes after it. -/
theorem WellFormed.grows_around {passes : Nat} {rewrite : Rewrite}
    (member : rewrite ∈ graph.rewritesOver rules passes) :
    (∃ created, graph.Grows created rewrite.before.graph) ∧
      ∃ created, rewrite.after.graph.Grows created (graph.stage rules passes) := by
  induction passes with
  | zero => cases member
  | succ passes ih =>
      obtain ⟨last, ran, linked, genuine⟩ := (wellFormed.stage valid passes).exists_rewrites valid
      have next : graph.stage rules (passes + 1) = last.graph := by
        rw [CodeGraph.stage, onePass_eq ran]
      rw [next]
      rw [rewritesOver_succ, List.mem_append] at member
      rcases member with earlier | here
      · obtain ⟨before, _, after⟩ := ih earlier
        exact ⟨before, _, after.trans (linked.grows genuine valid)⟩
      · obtain ⟨⟨_, before⟩, after⟩ := linked.grows_around genuine valid here
        exact ⟨⟨_, (wellFormed.grows_stage valid passes).trans before⟩, after⟩

end Passes

end CodeGraph

end Transcode
