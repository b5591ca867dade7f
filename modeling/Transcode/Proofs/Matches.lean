import Mathlib.Data.Set.Card
import Transcode.Proofs.Embedding
import Transcode.Rule.Builtin

/-!
# Matches

The matches of a rule are its embeddings with edges chosen for them (`Rule.mem_matchesAt_iff`). They
are ranked by an order in which no two matches of one search are equal
(`CodeGraph.WellFormed.pairwise_findMatches`).
-/

namespace Transcode

/-! ### Rank -/

namespace Match

instance : Std.TransCmp compareRank :=
  inferInstanceAs (Std.TransCmp (compareLex
    (fun first second : Match => compareOn (·.confidence) second first)
    (compareLex (compareOn (·.ruleIndex))
      (compareLex (compareOn (·.rootSeq)) (compareOn fun found => found.bindings.map (·.seq))))))

/-- Lists of numbers are compared as lists. -/
theorem compare_numbers_eq_lt_iff (first second : List Nat) :
    compare first second = .lt ↔ first < second := by
  have byElements (first second : List Nat) :
      compare first second = List.compareLex compare first second := rfl
  induction first generalizing second with
  | nil =>
      rw [byElements]
      cases second <;> simp [List.compareLex_nil_nil, List.compareLex_nil_cons]
  | cons head rest ih =>
      rw [byElements]
      cases second with
      | nil => simp [List.compareLex_cons_nil]
      | cons head' rest' =>
          rw [List.compareLex_cons_cons, Ordering.then_eq_lt, List.cons_lt_cons_iff,
            Nat.compare_eq_lt, Nat.compare_eq_eq, ← byElements]
          exact or_congr_right (and_congr_right fun _ => ih rest')

/-- A match goes before another: its confidence is higher or, if that is equal, its rule comes
earlier, then its first replaced node, then the first bound node that differs. -/
def Precedes (first second : Match) : Prop :=
  second.confidence < first.confidence ∨ first.confidence = second.confidence ∧
    (first.ruleIndex < second.ruleIndex ∨ first.ruleIndex = second.ruleIndex ∧
      (first.rootSeq < second.rootSeq ∨ first.rootSeq = second.rootSeq ∧
        first.bindings.map (·.seq) < second.bindings.map (·.seq)))

/-- Matches are compared by the sequence numbers of what they bind, and then by their rules. -/
theorem compareRank_eq_lt_iff {first second : Match} :
    compareRank first second = .lt ↔ first.Precedes second := by
  simp only [compareRank, Ordering.then_eq_lt, Nat.compare_eq_lt, Nat.compare_eq_eq,
    compare_numbers_eq_lt_iff, Precedes, @eq_comm _ second.confidence]

/-- Matches of equal rank are of one rule and bind nodes with the same sequence numbers. -/
theorem eq_of_compareRank_eq {first second : Match} (same : compareRank first second = .eq) :
    first.ruleIndex = second.ruleIndex ∧
      first.bindings.map (·.seq) = second.bindings.map (·.seq) := by
  simp only [compareRank, Ordering.then_eq_eq, Std.LawfulEqOrd.compare_eq_iff_eq] at same
  exact ⟨same.2.1, same.2.2.2⟩

theorem ranked_perm (found : List Match) : (ranked found).Perm found := List.mergeSort_perm ..

/-- Ranking puts matches of which no two have equal rank in strict order. -/
theorem pairwise_ranked {found : List Match}
    (distinct : (found.map fun one => (one.ruleIndex, one.bindings.map (·.seq))).Nodup) :
    (ranked found).Pairwise Precedes := by
  have order : (ranked found).Pairwise fun first second => (compareRank first second).isLE :=
    List.pairwise_mergeSort (fun _ _ _ => Std.TransCmp.isLE_trans)
      (fun first second => by
        have swap : compareRank first second = (compareRank second first).swap :=
          Std.OrientedCmp.eq_swap
        rw [swap]
        cases compareRank second first <;> rfl) found
  have apart : (ranked found).Pairwise fun first second =>
      (first.ruleIndex, first.bindings.map (·.seq)) ≠
        (second.ruleIndex, second.bindings.map (·.seq)) :=
    List.pairwise_map.mp (((ranked_perm found).map _).nodup_iff.mpr distinct)
  refine (order.and apart).imp fun {first second} both => compareRank_eq_lt_iff.mp ?_
  have notEqual : compareRank first second ≠ .eq := fun same =>
    both.2 (Prod.ext (eq_of_compareRank_eq same).1 (eq_of_compareRank_eq same).2)
  have before := both.1
  cases rank : compareRank first second with
  | lt => rfl
  | eq => exact absurd rank notEqual
  | gt =>
      rw [rank] at before
      cases before

end Match

namespace Rule

variable {rule : Rule} {graph : CodeGraph} {index : Nat} {bound : List Node} {found : Match}

/-! ### The bindings of a match -/

section Bindings

variable (size : bound.length = rule.sourcePattern.nodes.length)

include size

/-- A match binds the nodes of its assignment. -/
theorem map_node_bindings : (rule.bindings bound).map (·.node) = bound.map (·.id) := by
  have nodes : (rule.sourcePattern.nodes.zip bound).map (·.2) = bound :=
    List.map_snd_zip (Nat.le_of_eq size)
  conv_rhs => rw [← nodes]
  simp only [bindings, List.map_map, Function.comp_def]

/-- A match notes the sequence numbers of what it binds. -/
theorem map_seq_bindings : (rule.bindings bound).map (·.seq) = bound.map (·.seq) := by
  have nodes : (rule.sourcePattern.nodes.zip bound).map (·.2) = bound :=
    List.map_snd_zip (Nat.le_of_eq size)
  conv_rhs => rw [← nodes]
  simp only [bindings, List.map_map, Function.comp_def]

/-- The bindings follow the nodes of the pattern. -/
theorem forall₂_bindings : List.Forall₂ (fun (place : PatternNode) (binding : Binding) =>
    binding.name = place.name ∧ binding.replaced = decide (place.role = .replaced))
    rule.sourcePattern.nodes (rule.bindings bound) := by
  unfold bindings
  generalize rule.sourcePattern.nodes = places at size
  induction places generalizing bound with
  | nil => exact .nil
  | cons place rest ih =>
      cases bound with
      | nil => cases size
      | cons node others => exact .cons ⟨rfl, rfl⟩ (ih (Nat.succ.inj size))

end Bindings

/-! ### The matches of a rule -/

/-- The search for a rule's source pattern. -/
def search (rule : Rule) (graph : CodeGraph) : Search :=
  ⟨graph, rule.sourcePattern, rule.sourcePattern.placedEdges⟩

/-- All assignments for a rule's source pattern that a search without a limit finds. -/
def assignments (rule : Rule) (graph : CodeGraph) : List (List Node) :=
  (rule.search graph).all (rule.search graph).candidates []

/-- The match that a rule makes of bound nodes and edges. -/
def matchOf (rule : Rule) (index : Nat) (bound : List Node) (matched : List MatchedEdge) :
    Match where
  rule := rule.id
  ruleIndex := index
  confidence := rule.confidence
  bindings := rule.bindings bound
  edges := matched
  rootSeq := (((rule.bindings bound).find? (·.replaced)).map (·.seq)).getD 0

/-- An assignment takes each place, by different nodes. -/
theorem length_of_mem_assignments (member : bound ∈ rule.assignments graph) :
    bound.length = rule.sourcePattern.nodes.length ∧ (bound.map (·.id)).Nodup := by
  obtain ⟨tail, rfl, length, ids⟩ := Search.exists_tail_of_mem_all Search.nodup_nothing member
  exact ⟨by simpa [Search.candidates, search] using length, ids⟩

/-- The assignments are what the pattern asks for. -/
theorem mem_assignments_iff (wellFormed : graph.WellFormed) (valid : rule.Valid) :
    bound ∈ rule.assignments graph ↔ rule.sourcePattern.Assigns graph bound := by
  have places := SourcePattern.forall₂_placedEdges valid.edgeEnds
  have inside : ∀ edge ∈ (rule.search graph).edges,
      max edge.source edge.target < rule.sourcePattern.nodes.length := by
    intro placed member
    obtain ⟨edge, _, at_⟩ := exists_left_of_forall₂ places placed member
    have := SourcePattern.position?_lt at_.source
    have := SourcePattern.position?_lt at_.target
    omega
  have edges : (∀ placed ∈ (rule.search graph).edges, (rule.search graph).Holds bound placed) ↔
      ∀ edge ∈ rule.sourcePattern.edges, ∃ there,
        rule.sourcePattern.Stands graph bound edge there := by
    simp only [Search.holds_iff]
    constructor
    · intro holds edge member
      obtain ⟨placed, placedMember, at_⟩ := exists_left_of_forall₂ places.flip edge member
      obtain ⟨there, between⟩ := holds placed placedMember
      exact ⟨there, (Search.between_iff_stands at_).mp between⟩
    · intro stands placed member
      obtain ⟨edge, edgeMember, at_⟩ := exists_left_of_forall₂ places placed member
      obtain ⟨there, stand⟩ := stands edge edgeMember
      exact ⟨there, (Search.between_iff_stands at_).mpr stand⟩
  rw [assignments, Search.mem_all_candidates_iff wellFormed inside, edges]
  exact ⟨fun ⟨accepted, distinct, connected, constraints⟩ =>
    ⟨accepted, distinct, connected, constraints⟩,
    fun assigns => ⟨assigns.accepted, assigns.distinct, assigns.connected, assigns.constraints⟩⟩

/-- An assignment is a match if its edges are assigned. -/
theorem matchOf?_eq_some_iff :
    rule.matchOf? index (rule.search graph) bound = some found ↔
      ∃ matched, (rule.search graph).assignEdges bound [] rule.sourcePattern.placedEdges =
        some matched ∧ rule.matchOf index bound matched = found :=
  Option.map_eq_some_iff

/-- In any graph, a match is made of an assignment. -/
theorem exists_of_mem_matchesAt (member : found ∈ rule.matchesAt index graph) :
    ∃ bound ∈ rule.assignments graph,
      rule.matchOf? index (rule.search graph) bound = some found := by
  obtain ⟨bound, embedding, made⟩ := List.mem_filterMap.mp member
  refine ⟨bound, ?_, made⟩
  change bound ∈ (rule.search graph).embeddings at embedding
  unfold Search.embeddings at embedding
  split at embedding
  · cases embedding
  · rw [Search.toList_extend _ _ _ (Nat.zero_le _)] at embedding
    exact List.mem_of_mem_take embedding

/-- A match that is found fits its rule, whatever the graph. -/
theorem fits_of_mem_matchesAt (member : found ∈ rule.matchesAt index graph) :
    found.Fits rule ∧ found.ruleIndex = index := by
  obtain ⟨bound, assignment, made⟩ := exists_of_mem_matchesAt member
  obtain ⟨matched, _, rfl⟩ := matchOf?_eq_some_iff.mp made
  obtain ⟨size, ids⟩ := length_of_mem_assignments assignment
  exact ⟨⟨forall₂_bindings size, (map_node_bindings size).symm ▸ ids⟩, rfl⟩

/-- The matches of a rule are made of the first assignments, up to the limit. -/
theorem matchesAt_eq (wellFormed : graph.WellFormed) :
    rule.matchesAt index graph =
      ((rule.assignments graph).take embeddingLimit).filterMap
        (rule.matchOf? index (rule.search graph)) := by
  change (rule.search graph).embeddings.filterMap _ = _
  rw [Search.embeddings_eq_take wellFormed, assignments]
  rfl

/-- Edges of a graph stand for the edges of a pattern if they are between the places of these. -/
theorem forall₂_between_iff (valid : rule.Valid) {mapped : List Edge} :
    List.Forall₂ ((rule.search graph).Between bound) rule.sourcePattern.placedEdges mapped ↔
      List.Forall₂ (rule.sourcePattern.Stands graph bound) rule.sourcePattern.edges mapped := by
  have places := SourcePattern.forall₂_placedEdges valid.edgeEnds
  generalize rule.sourcePattern.placedEdges = placedEdges at places ⊢
  generalize rule.sourcePattern.edges = edges at places ⊢
  induction places generalizing mapped with
  | nil => simp
  | cons at_ _ ih =>
      cases mapped with
      | nil => simp
      | cons there others =>
          rw [List.forall₂_cons, List.forall₂_cons]
          exact and_congr (Search.between_iff_stands at_) ih

/-- The edges of a match are different edges for those of the pattern. -/
theorem exists_maps (valid : rule.Valid)
    (made : rule.matchOf? index (rule.search graph) bound = some found) :
    ∃ mapped, rule.sourcePattern.Maps graph bound mapped ∧
      found = rule.matchOf index bound (mapped.map Search.matchedEdge) := by
  obtain ⟨matched, assigned, rfl⟩ := matchOf?_eq_some_iff.mp made
  obtain ⟨mapped, between, distinct, _, rfl⟩ := Search.assignEdges_sound assigned
  exact ⟨mapped, ⟨(forall₂_between_iff valid).mp between, distinct⟩, rfl⟩

/-- An assignment becomes a match whenever there are different edges for those of the pattern. -/
theorem exists_match (wellFormed : graph.WellFormed) (valid : rule.Valid) {mapped : List Edge}
    (maps : rule.sourcePattern.Maps graph bound mapped) (index : Nat) :
    ∃ found, rule.matchOf? index (rule.search graph) bound = some found := by
  have assigned : ((rule.search graph).assignEdges bound []
      rule.sourcePattern.placedEdges).isSome :=
    Search.assignEdges_isSome wellFormed ((forall₂_between_iff valid).mpr maps.stand) maps.distinct
      (by simp)
  obtain ⟨matched, assigned⟩ := Option.isSome_iff_exists.mp assigned
  exact ⟨_, matchOf?_eq_some_iff.mpr ⟨matched, assigned, rfl⟩⟩

theorem nodup_assignments (wellFormed : graph.WellFormed) : (rule.assignments graph).Nodup :=
  Search.nodup_all_candidates wellFormed

/-- An assignment takes nodes of the graph. -/
theorem mem_nodes_of_mem_assignments (wellFormed : graph.WellFormed)
    (member : bound ∈ rule.assignments graph) : ∀ node ∈ bound, node ∈ graph.nodes := by
  obtain ⟨tail, rfl, fits, _⟩ := (Search.mem_all_iff wellFormed
    (fun _ => Search.mem_nodes_of_candidates) Search.nodup_nothing).mp member
  intro node inTail
  obtain ⟨candidates, place, candidate⟩ := exists_left_of_forall₂ fits.flip node inTail
  exact Search.mem_nodes_of_candidates place node candidate

/-- What tells the nodes of a graph apart tells the matches of one rule apart. -/
theorem nodup_map_matchesAt {α : Type} (wellFormed : graph.WellFormed) {mark : Node → α}
    {view : Match → List α}
    (apart : ∀ first ∈ graph.nodes, ∀ second ∈ graph.nodes, mark first = mark second →
      first = second)
    (views : ∀ bound ∈ rule.assignments graph, ∀ matched,
      view (rule.matchOf index bound matched) = bound.map mark) :
    ((rule.matchesAt index graph).map view).Nodup := by
  rw [matchesAt_eq wellFormed, List.Nodup, List.pairwise_map, List.pairwise_filterMap]
  refine ((nodup_assignments wellFormed).sublist (List.take_sublist ..)).imp_of_mem ?_
  intro first second firstMember secondMember other firstMatch firstMade secondMatch secondMade same
  obtain ⟨firstEdges, _, rfl⟩ := matchOf?_eq_some_iff.mp firstMade
  obtain ⟨secondEdges, _, rfl⟩ := matchOf?_eq_some_iff.mp secondMade
  have firstThere := List.mem_of_mem_take firstMember
  have secondThere := List.mem_of_mem_take secondMember
  rw [views first firstThere, views second secondThere] at same
  refine other (eq_of_map_eq (fun left leftMember right rightMember => ?_) same)
  exact apart left (mem_nodes_of_mem_assignments wellFormed firstThere left leftMember)
    right (mem_nodes_of_mem_assignments wellFormed secondThere right rightMember)

end Rule

namespace CodeGraph

variable {graph : CodeGraph} {rule : Rule} {rules : List Rule} {found : Match}

/-! ### The matches of a list of rules -/

/-- The matches of a list of rules are those of each at its place. -/
theorem mem_findMatches_iff :
    found ∈ graph.findMatches rules ↔
      ∃ (rule : Rule) (index : Nat), rules[index]? = some rule ∧
        found ∈ rule.matchesAt index graph := by
  rw [findMatches, (Match.ranked_perm _).mem_iff, List.mem_flatMap, Prod.exists]
  simp only [List.mem_zipIdx_iff_getElem?]

/-- The matches of one rule are those at the first place. -/
theorem mem_findMatchesOf_iff :
    found ∈ graph.findMatchesOf rule ↔ found ∈ rule.matchesAt 0 graph :=
  (Match.ranked_perm _).mem_iff

/-- A match that is found for a list of rules fits the rule at its place in the list. -/
theorem fits_of_mem_findMatches (member : found ∈ graph.findMatches rules) :
    ∃ rule, rules[found.ruleIndex]? = some rule ∧ found.Fits rule := by
  obtain ⟨rule, index, at_, member⟩ := mem_findMatches_iff.mp member
  obtain ⟨fits, rfl⟩ := Rule.fits_of_mem_matchesAt member
  exact ⟨rule, at_, fits⟩

theorem fits_of_mem_findMatchesOf (member : found ∈ graph.findMatchesOf rule) :
    found.Fits rule :=
  (Rule.fits_of_mem_matchesAt (mem_findMatchesOf_iff.mp member)).1

/-- No two matches of one rule have the same assignment. -/
theorem WellFormed.nodup_findMatchesOf (wellFormed : graph.WellFormed) (rule : Rule) :
    ((graph.findMatchesOf rule).map fun found => found.bindings.map (·.node)).Nodup := by
  refine ((Match.ranked_perm _).map _).nodup_iff.mpr ?_
  exact Rule.nodup_map_matchesAt wellFormed
    (fun first firstMember second secondMember => wellFormed.eq_of_id firstMember secondMember)
    fun bound member _ => Rule.map_node_bindings (Rule.length_of_mem_assignments member).1

/-- The matches of a list of rules stand in strict order of rank. -/
theorem WellFormed.pairwise_findMatches (wellFormed : graph.WellFormed) (rules : List Rule) :
    (graph.findMatches rules).Pairwise Match.Precedes := by
  refine Match.pairwise_ranked ?_
  rw [List.map_flatMap, List.nodup_flatMap]
  constructor
  · rintro ⟨rule, index⟩ _
    have seqs : ((rule.matchesAt index graph).map fun found =>
        found.bindings.map (·.seq)).Nodup :=
      Rule.nodup_map_matchesAt wellFormed
        (fun first firstMember second secondMember => wellFormed.eq_of_seq firstMember secondMember)
        fun bound member _ => Rule.map_seq_bindings (Rule.length_of_mem_assignments member).1
    refine List.Nodup.of_map Prod.snd ?_
    rw [List.map_map]
    exact seqs
  · have indices : (rules.zipIdx.map (·.2)).Nodup := by
      rw [List.zipIdx_map_snd]
      exact List.nodup_range'
    refine (List.pairwise_map.mp indices).imp fun {first second} other => ?_
    intro key inFirst inSecond
    obtain ⟨left, leftMember, rfl⟩ := List.mem_map.mp inFirst
    obtain ⟨right, rightMember, same⟩ := List.mem_map.mp inSecond
    rw [(Rule.fits_of_mem_matchesAt leftMember).2, (Rule.fits_of_mem_matchesAt rightMember).2,
      Prod.mk.injEq] at same
    exact other same.1.symm

/-- There are as many assignments as the search without a limit finds. -/
theorem WellFormed.encard_assigns (wellFormed : graph.WellFormed) (valid : rule.Valid) :
    {bound | rule.sourcePattern.Assigns graph bound}.encard = (rule.assignments graph).length := by
  have same : {bound | rule.sourcePattern.Assigns graph bound} =
      ((rule.assignments graph).toFinset : Set (List Node)) := by
    ext bound
    rw [Set.mem_ofPred_eq, List.coe_toFinset, Set.mem_ofPred_eq,
      Rule.mem_assignments_iff wellFormed valid]
  rw [same, Set.encard_coe_eq_coe_finsetCard,
    List.toFinset_card_of_nodup (Rule.nodup_assignments wellFormed)]

/-- A match is an embedding with different edges of the graph for those of the pattern. -/
theorem WellFormed.exists_embeds (wellFormed : graph.WellFormed) (valid : rule.Valid) {index : Nat}
    (member : found ∈ rule.matchesAt index graph) :
    ∃ bound mapped, rule.sourcePattern.Embeds graph bound ∧
      rule.sourcePattern.Maps graph bound mapped ∧
      found = rule.matchOf index bound (mapped.map Search.matchedEdge) := by
  obtain ⟨bound, assignment, made⟩ := Rule.exists_of_mem_matchesAt member
  obtain ⟨mapped, maps, rfl⟩ := Rule.exists_maps valid made
  have assigns := (Rule.mem_assignments_iff wellFormed valid).mp assignment
  exact ⟨bound, mapped, ⟨assigns, mapped, maps⟩, maps, rfl⟩

/-- Within the limit, every embedding becomes a match. -/
theorem WellFormed.exists_mem_findMatchesOf (wellFormed : graph.WellFormed) (valid : rule.Valid)
    (few : (rule.assignments graph).length ≤ embeddingLimit) {bound : List Node}
    (embeds : rule.sourcePattern.Embeds graph bound) :
    ∃ found ∈ graph.findMatchesOf rule, found.bindings.map (·.node) = bound.map (·.id) := by
  obtain ⟨mapped, maps⟩ := embeds.mapped
  obtain ⟨found, made⟩ := Rule.exists_match wellFormed valid maps 0
  have assignment := (Rule.mem_assignments_iff wellFormed valid).mpr embeds.toAssigns
  refine ⟨found, mem_findMatchesOf_iff.mpr ?_, ?_⟩
  · rw [Rule.matchesAt_eq wellFormed, List.take_of_length_le few]
    exact List.mem_filterMap.mpr ⟨bound, assignment, made⟩
  · obtain ⟨matched, _, rfl⟩ := Rule.matchOf?_eq_some_iff.mp made
    exact Rule.map_node_bindings (Rule.length_of_mem_assignments assignment).1

/-- **The search for matches.** It finds embeddings only, each with different edges of the graph for
those of the pattern, and none twice; it finds every embedding once if there are no more assignments
than the limit; and the matches of a list of rules are in strict order of rank. -/
theorem findMatches_spec (wellFormed : graph.WellFormed) (valid : rule.Valid) :
    (∀ found ∈ graph.findMatchesOf rule, ∃ bound mapped,
      rule.sourcePattern.Embeds graph bound ∧ rule.sourcePattern.Maps graph bound mapped ∧
        found = rule.matchOf 0 bound (mapped.map Search.matchedEdge)) ∧
    ((graph.findMatchesOf rule).map fun found => found.bindings.map (·.node)).Nodup ∧
    ({bound | rule.sourcePattern.Assigns graph bound}.encard ≤ embeddingLimit →
      ∀ bound, rule.sourcePattern.Embeds graph bound →
        ((graph.findMatchesOf rule).map fun found => found.bindings.map (·.node)).count
          (bound.map (·.id)) = 1) ∧
    ∀ rules : List Rule, (graph.findMatches rules).Pairwise Match.Precedes := by
  have distinct := wellFormed.nodup_findMatchesOf rule
  refine ⟨fun found member => wellFormed.exists_embeds valid (mem_findMatchesOf_iff.mp member),
    distinct, fun few bound embeds => ?_, wellFormed.pairwise_findMatches⟩
  rw [wellFormed.encard_assigns valid, Nat.cast_le] at few
  obtain ⟨found, member, same⟩ := wellFormed.exists_mem_findMatchesOf valid few embeds
  exact List.count_eq_one_of_mem distinct (same ▸ List.mem_map_of_mem member)

/-- A class with a static method has one embedding of the rule for static methods. -/
theorem findMatches_spec_staticMethod :
    ∃ graph : CodeGraph, graph.WellFormed ∧ Builtin.staticToFunction.Valid ∧
      ∃ found ∈ graph.findMatchesOf Builtin.staticToFunction, ∃ bound mapped,
        Builtin.staticToFunction.sourcePattern.Embeds graph bound ∧
          Builtin.staticToFunction.sourcePattern.Maps graph bound mapped ∧
            found = Builtin.staticToFunction.matchOf 0 bound (mapped.map Search.matchedEdge) := by
  have valid : Builtin.staticToFunction.Valid := Rule.valid_of_validate (by decide +kernel)
  obtain ⟨graph, wellFormed, one⟩ := WellFormed.exists_ofData {
      nodes := [⟨"n0", "A", .classType, ∅⟩,
        ⟨"n1", "f", .method, Dict.empty.insert "modifiers" "static"⟩]
      edges := [⟨"e0", "n0", "n1", .contains, ∅⟩] }
    (fun graph => !(graph.findMatchesOf Builtin.staticToFunction).isEmpty) (by decide +kernel)
  obtain ⟨found, rest, split⟩ := List.exists_cons_of_ne_nil
    (fun empty : graph.findMatchesOf Builtin.staticToFunction = [] => by simp [empty] at one)
  have member : found ∈ graph.findMatchesOf Builtin.staticToFunction :=
    split ▸ List.mem_cons_self
  exact ⟨graph, wellFormed, valid, found, member,
    (findMatches_spec wellFormed valid).1 found member⟩

end CodeGraph

end Transcode
