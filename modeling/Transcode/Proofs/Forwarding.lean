import Transcode.Proofs.Application
import Transcode.Proofs.Dictionaries
import Transcode.Transform.Partition

/-!
# Ids that are used up

Ids are made from numbers that only grow, so an id that has been in use is never made again
(`CodeGraph.Settled`). Hence what a node is forwarded to can be followed through all replacements:
after a match is applied, an id that resolved to a replaced node resolves to what replaces it
(`CodeGraph.resolved?_result`).
-/

namespace Transcode

namespace CodeGraph

variable {graph : CodeGraph} {rule : Rule} {found : Match} {addition : Addition} {id : String}

/-! ### Ids that are used up -/

/-- An id that is not made any more. -/
def NodeSpent (graph : CodeGraph) (id : String) : Prop :=
  ∀ number, graph.nextNodeId ≤ number → id ≠ graph.nodeName number

/-- What can still be made has a number. -/
theorem exists_nodeName_of_not_nodeSpent (unspent : ¬graph.NodeSpent id) :
    ∃ number, graph.nextNodeId ≤ number ∧ id = graph.nodeName number := by
  unfold NodeSpent at unspent
  push Not at unspent
  exact unspent

/-- An edge id that is not made any more. -/
def EdgeSpent (graph : CodeGraph) (id : String) : Prop :=
  ∀ number, graph.nextEdgeId ≤ number → id ≠ graph.edgeName number

/-- A name with a number that was passed is spent. -/
theorem nodeSpent_nodeName (graph : CodeGraph) {number : Nat} (used : number < graph.nextNodeId) :
    graph.NodeSpent (graph.nodeName number) := by
  intro other later same
  rw [graph.nodeName_injective same] at used
  omega

/-- A name of an edge with a number that was passed is spent. -/
theorem edgeSpent_edgeName (graph : CodeGraph) {number : Nat} (used : number < graph.nextEdgeId) :
    graph.EdgeSpent (graph.edgeName number) := by
  intro other later same
  rw [graph.edgeName_injective same] at used
  omega

/-- Whatever has been in use is used up, and nodes that were replaced are gone. -/
structure Settled (graph : CodeGraph) : Prop where
  nodes : ∀ node ∈ graph.nodes, graph.NodeSpent node.id
  edges : ∀ edge ∈ graph.edges, graph.EdgeSpent edge.id
  history : ∀ entry ∈ graph.history, graph.NodeSpent entry.node
  forwarding : ∀ old new, graph.forwarding.get? old = some new →
    graph.NodeSpent old ∧ graph.NodeSpent new ∧ graph.hasNode old = false

end CodeGraph

namespace Addition.For

variable {graph : CodeGraph} {rule : Rule} {found : Match} {addition : Addition} {id : String}

/-! ### Ids of an addition -/

section Ids

variable (added : addition.For graph rule found)

include added

/-- New nodes have ids that were not spent. -/
theorem not_nodeSpent {node : Node} (member : node ∈ addition.nodes) :
    ¬graph.NodeSpent node.id := by
  obtain ⟨number, low, _, named⟩ := added.nodeNames node member
  exact fun spent => spent number low named

/-- New links have ids that were not spent. -/
theorem not_edgeSpent {link : Edge} (member : link ∈ addition.links) :
    ¬graph.EdgeSpent link.id := by
  obtain ⟨number, low, _, named⟩ := added.edgeNames link member
  exact fun spent => spent number low named

/-- Replaced nodes are replaced by nodes of the fragment. -/
theorem targets : ∀ replacement ∈ addition.replacements rule found,
    replacement.2 ∈ addition.nodes.map (·.id) := by
  obtain ⟨name, _, rooted⟩ := Option.bind_eq_some_iff.mp added.root
  exact fun _ member => CodeGraph.mem_of_mem_replacements (fun _ _ => mem_of_lookup_zip)
    (mem_of_lookup_zip rooted) member

theorem nodeSpent_result (spent : graph.NodeSpent id) :
    (addition.result graph rule found).NodeSpent id :=
  fun number later => spent number (Nat.le_trans added.laterNodes later)

theorem edgeSpent_result (spent : graph.EdgeSpent id) :
    (addition.result graph rule found).EdgeSpent id :=
  fun number later => spent number (Nat.le_trans added.laterEdges later)

/-- The ids of new nodes are spent after a match. -/
theorem nodeSpent_result_of_mem {node : Node} (member : node ∈ addition.nodes) :
    (addition.result graph rule found).NodeSpent node.id := by
  obtain ⟨number, _, high, named⟩ := added.nodeNames node member
  rw [named]
  exact CodeGraph.nodeSpent_nodeName (addition.result graph rule found) high

/-- The ids of new links are spent after a match. -/
theorem edgeSpent_result_of_mem {link : Edge} (member : link ∈ addition.links) :
    (addition.result graph rule found).EdgeSpent link.id := by
  obtain ⟨number, _, high, named⟩ := added.edgeNames link member
  rw [named]
  exact CodeGraph.edgeSpent_edgeName (addition.result graph rule found) high

/-- An id that was used up is not among the new ones. -/
theorem not_mem_of_nodeSpent (spent : graph.NodeSpent id) : id ∉ addition.nodes.map (·.id) := by
  intro new
  obtain ⟨node, member, rfl⟩ := List.mem_map.mp new
  exact added.not_nodeSpent member spent

/-- An edge id that was spent is none of a new link. -/
theorem not_mem_of_edgeSpent (spent : graph.EdgeSpent id) : id ∉ addition.links.map (·.id) := by
  intro new
  obtain ⟨link, member, rfl⟩ := List.mem_map.mp new
  exact added.not_edgeSpent member spent

end Ids

end Addition.For

namespace CodeGraph

variable {graph : CodeGraph} {rule : Rule} {found : Match} {addition : Addition} {id : String}

/-- After a match the nodes are those that stayed and the new ones. -/
theorem hasNode_result :
    (addition.result graph rule found).hasNode id ↔
      (graph.hasNode id ∧ id ∉ found.replaced.map (·.node)) ∨ id ∈ addition.nodes.map (·.id) := by
  rw [hasNode_iff, hasNode_iff, Addition.result, List.map_append, List.mem_append]
  refine or_congr_left ?_
  simp only [List.mem_map, List.mem_filter, decide_eq_true_eq]
  grind

/-- An id that was used up is there after the application if it was there and was not replaced. -/
theorem hasNode_result_of_nodeSpent (added : addition.For graph rule found)
    (spent : graph.NodeSpent id) :
    (addition.result graph rule found).hasNode id ↔
      graph.hasNode id ∧ id ∉ found.replaced.map (·.node) := by
  rw [hasNode_result, or_iff_left (added.not_mem_of_nodeSpent spent)]

/-- What an id is forwarded to after the application. -/
theorem get?_forwarding_result (distinct : (found.replaced.map (·.node)).Nodup) :
    (addition.result graph rule found).forwarding.get? id =
      ((addition.replacements rule found).lookup id).or (graph.forwarding.get? id) := by
  have keys : (addition.replacements rule found).map (·.1) = found.replaced.map (·.node) :=
    map_fst_additionReplacements addition
  rw [← keys] at distinct
  exact Dict.get?_foldl_insert distinct ..

/-- What is looked up is among the pairs. -/
theorem mem_of_lookup_eq_some {pairs : List (String × String)} {key value : String}
    (found : pairs.lookup key = some value) : (key, value) ∈ pairs := by
  obtain ⟨before, after, rfl, _⟩ := List.lookup_eq_some_iff.mp found
  exact List.mem_append_right before List.mem_cons_self

/-- Exactly what is replaced has a replacement. -/
theorem lookup_replacements_isSome_iff :
    ((addition.replacements rule found).lookup id).isSome ↔ id ∈ found.replaced.map (·.node) := by
  have keys : (addition.replacements rule found).map (·.1) = found.replaced.map (·.node) :=
    map_fst_additionReplacements addition
  rw [← keys]
  generalize addition.replacements rule found = replacements
  rw [← not_iff_not, Bool.not_eq_true, Option.isSome_eq_false_iff, Option.isNone_iff_eq_none,
    List.lookup_eq_none_iff]
  simp
  grind

/-- **Applying a match leaves a graph settled.** -/
theorem Settled.result (settled : graph.Settled) (added : addition.For graph rule found)
    (distinct : (found.replaced.map (·.node)).Nodup)
    (live : ∀ id ∈ found.replaced.map (·.node), graph.hasNode id) :
    (addition.result graph rule found).Settled where
  nodes node member := by
    rcases List.mem_append.mp member with old | new
    · exact added.nodeSpent_result (settled.nodes node (List.mem_filter.mp old).1)
    · exact added.nodeSpent_result_of_mem new
  edges edge member := by
    rcases List.mem_append.mp member with old | new
    · obtain ⟨before, there, rewritten⟩ := List.mem_filterMap.mp old
      rw [Edge.id_of_rewritten? rewritten]
      exact added.edgeSpent_result (settled.edges before there)
    · exact added.edgeSpent_result_of_mem new
  history entry member := by
    rcases List.mem_append.mp member with old | new
    · exact added.nodeSpent_result (settled.history entry old)
    · obtain ⟨node, there, rfl⟩ := List.mem_map.mp new
      exact added.nodeSpent_result_of_mem there
  forwarding old new forwarded := by
    rw [get?_forwarding_result distinct, Option.or_eq_some_iff] at forwarded
    rcases forwarded with replaced | ⟨_, earlier⟩
    · have listed := lookup_replacements_isSome_iff.mp (Option.isSome_of_eq_some replaced)
      obtain ⟨node, there, rfl⟩ := List.mem_map.mp (hasNode_iff.mp (live old listed))
      have spent := settled.nodes node there
      obtain ⟨target, isNew, rfl⟩ := List.mem_map.mp
        (added.targets _ (mem_of_lookup_eq_some replaced))
      refine ⟨added.nodeSpent_result spent, added.nodeSpent_result_of_mem isNew, ?_⟩
      rw [← Bool.not_eq_true, hasNode_result_of_nodeSpent added spent]
      exact fun stays => stays.2 listed
    · obtain ⟨spent, newSpent, gone⟩ := settled.forwarding old new earlier
      refine ⟨added.nodeSpent_result spent, added.nodeSpent_result newSpent, ?_⟩
      rw [← Bool.not_eq_true, hasNode_result_of_nodeSpent added spent, gone]
      simp

/-! ### Following replacements -/

/-- More steps do not lead past the node that survives. -/
theorem survivor?_mono {place : String} {fuel : Nat} (more : Nat)
    (found : graph.survivor? fuel id = some place) :
    graph.survivor? (fuel + more) id = some place := by
  induction fuel generalizing id with
  | zero =>
      unfold survivor? at found
      split at found
      · rename_i there
        cases found
        cases more <;> simp [survivor?, there]
      · cases found
  | succ fuel ih =>
      rw [Nat.succ_add]
      unfold survivor? at found ⊢
      split at found
      · rename_i there
        rw [if_pos there]
        exact found
      · rename_i gone
        rw [if_neg gone]
        obtain ⟨next, forwarded, later⟩ := Option.bind_eq_some_iff.mp found
        exact Option.bind_eq_some_iff.mpr ⟨next, forwarded, ih later⟩

theorem survivor?_of_hasNode (there : graph.hasNode id) (fuel : Nat) :
    graph.survivor? fuel id = some id := by
  cases fuel <;> simp [survivor?, there]

/-- What was there in place of a node is there still, or what replaces it now. -/
theorem survivor?_result (settled : graph.Settled) (added : addition.For graph rule found)
    (distinct : (found.replaced.map (·.node)).Nodup)
    (live : ∀ id ∈ found.replaced.map (·.node), graph.hasNode id)
    {place : String} {fuel : Nat} (spent : graph.NodeSpent id)
    (survives : graph.survivor? fuel id = some place) :
    (addition.result graph rule found).survivor? (fuel + 1) id =
      some (((addition.replacements rule found).lookup place).getD place) := by
  -- One step for a node that is there, which may be replaced now.
  have last {id : String} (there : graph.hasNode id) (spent : graph.NodeSpent id) (fuel : Nat) :
      (addition.result graph rule found).survivor? (fuel + 1) id =
        some (((addition.replacements rule found).lookup id).getD id) := by
    cases replaced : (addition.replacements rule found).lookup id with
    | none =>
        have stays : id ∉ found.replaced.map (·.node) := by
          rw [← lookup_replacements_isSome_iff, replaced]
          exact Bool.false_ne_true
        exact survivor?_of_hasNode
          ((hasNode_result_of_nodeSpent added spent).mpr ⟨there, stays⟩) _
    | some next =>
        have listed := lookup_replacements_isSome_iff.mp (Option.isSome_of_eq_some replaced)
        have gone : ¬(addition.result graph rule found).hasNode id := by
          rw [hasNode_result_of_nodeSpent added spent]
          exact fun stays => stays.2 listed
        have new := added.targets _ (mem_of_lookup_eq_some replaced)
        unfold survivor?
        rw [if_neg gone, get?_forwarding_result distinct, replaced]
        exact survivor?_of_hasNode (hasNode_result.mpr (.inr new)) _
  induction fuel generalizing id with
  | zero =>
      unfold survivor? at survives
      split at survives
      · rename_i there
        cases survives
        exact last there spent 0
      · cases survives
  | succ fuel ih =>
      unfold survivor? at survives
      split at survives
      · rename_i there
        cases survives
        exact last there spent _
      · rename_i gone
        obtain ⟨next, forwarded, later⟩ := Option.bind_eq_some_iff.mp survives
        obtain ⟨_, nextSpent, _⟩ := settled.forwarding id next forwarded
        have stillGone : ¬(addition.result graph rule found).hasNode id := by
          rw [hasNode_result_of_nodeSpent added spent]
          exact fun stays => gone stays.1
        have same : (addition.replacements rule found).lookup id = none := by
          rw [← Option.isNone_iff_eq_none, ← Option.isSome_eq_false_iff, ← Bool.not_eq_true,
            lookup_replacements_isSome_iff]
          exact fun listed => gone (live id listed)
        unfold survivor?
        rw [if_neg stillGone, get?_forwarding_result distinct, same, Option.none_or, forwarded]
        exact ih nextSpent later

/-- A replaced node is a new entry. -/
theorem Settled.size_forwarding_lt (settled : graph.Settled) (addition : Addition) (rule : Rule)
    (live : ∀ id ∈ found.replaced.map (·.node), graph.hasNode id)
    (nonempty : found.replaced ≠ []) :
    graph.forwarding.size < (addition.result graph rule found).forwarding.size := by
  have keys : (addition.replacements rule found).map (·.1) = found.replaced.map (·.node) :=
    map_fst_additionReplacements addition
  change _ < ((addition.replacements rule found).foldl _ graph.forwarding).size
  generalize addition.replacements rule found = replacements at keys
  cases replacements with
  | nil => exact absurd (List.map_eq_nil_iff.mp keys.symm) nonempty
  | cons first rest =>
      have missing : graph.forwarding.get? first.1 = none := by
        by_contra present
        obtain ⟨new, forwarded⟩ := Option.ne_none_iff_exists'.mp present
        have there := live first.1 (keys ▸ List.mem_cons_self)
        rw [(settled.forwarding first.1 new forwarded).2.2] at there
        cases there
      calc graph.forwarding.size < (graph.forwarding.insert first.1 first.2).size := by
            rw [Dict.size_insert_of_missing missing]
            exact Nat.lt_succ_self _
        _ ≤ _ := Dict.size_le_size_foldl_insert rest _

/-- **Following replacements.** After a match is applied, an id resolves to what it resolved to
before or to what replaces that. -/
theorem resolved?_result (settled : graph.Settled) (added : addition.For graph rule found)
    (distinct : (found.replaced.map (·.node)).Nodup)
    (live : ∀ id ∈ found.replaced.map (·.node), graph.hasNode id) (nonempty : found.replaced ≠ [])
    {place : String} (spent : graph.NodeSpent id) (resolved : graph.resolved? id = some place) :
    (addition.result graph rule found).resolved? id =
      some (((addition.replacements rule found).lookup place).getD place) := by
  have larger := settled.size_forwarding_lt addition rule live nonempty
  have followed := survivor?_result settled added distinct live spent resolved
  have enough := survivor?_mono
    ((addition.result graph rule found).forwarding.size - (graph.forwarding.size + 1)) followed
  rwa [Nat.add_sub_cancel' larger] at enough

end CodeGraph

end Transcode
