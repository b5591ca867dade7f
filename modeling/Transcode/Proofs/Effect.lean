import Transcode.Proofs.Replanting

/-!
# What applying a match does

Applying a match of a valid rule takes the replaced nodes out of the graph, puts one node for each
template at the end, and sends every edge of a replaced node to what takes its place. Nothing else
changes (`CodeGraph.Effect`), however the replaced nodes hang together
(`CodeGraph.WellFormed.exists_effect`).
-/

namespace Transcode

namespace Match

/-- The nodes that a match replaces. -/
def replacedIds (found : Match) : List String := found.replaced.map (·.node)

/-- What becomes of an edge when nodes are put in the place of others: one elsewhere stays as it is,
one that the match has used up goes, and any other follows its ends unless it then says that a node
contains itself. -/
def fate (found : Match) (place : String → String) (edge : Edge) : Option Edge :=
  let moved := { edge with source := place edge.source, target := place edge.target }
  if edge.source ∉ found.replacedIds ∧ edge.target ∉ found.replacedIds then some edge
  else if edge.id ∈ found.edges.map (·.edge) then none
  else if moved.kind = .contains ∧ moved.source = moved.target then none
  else some moved

end Match

namespace TargetPattern

/-- The node that is made of the template with a name. -/
def Makes (pattern : TargetPattern) (made : List Node) (name id : String) : Prop :=
  ∃ template node, (template, node) ∈ pattern.nodes.zip made ∧ template.name = name ∧ node.id = id

end TargetPattern

namespace CodeGraph

/-- What a graph is after a match of a rule has made nodes and links of its fragment, where `place`
tells what is in the place of each node. -/
structure Effect (graph : CodeGraph) (rule : Rule) (found : Match) (made : List Node)
    (links : List Edge) (place : String → String) (after : CodeGraph) : Prop where
  /-- The replaced nodes are those bound to the nodes that the source pattern replaces. -/
  replaced : ∀ binding ∈ found.bindings,
    binding ∈ found.replaced ↔ rule.sourcePattern.isReplaced binding.name = true
  /-- The replaced nodes are gone, and the new ones come last. -/
  nodes : after.nodes = graph.nodes.filter (·.id ∉ found.replacedIds) ++ made
  /-- There is one new node for each template, filled in from the bound nodes. -/
  filled : List.Forall₂ (fun template node =>
    template.instantiate (graph.boundNode? found) = some node.spec) rule.targetPattern.nodes made
  newNodes : ∀ node ∈ made, ¬graph.hasNode node.id ∧ ∀ old ∈ graph.nodes, old.seq < node.seq
  /-- A node that is not replaced is in its own place. -/
  stays : ∀ id, id ∉ found.replacedIds → place id = id
  /-- The boundary says what is in the place of a replaced node; else it is the root. -/
  taken : ∀ binding ∈ found.replaced, ∃ name,
    (rule.targetPattern.boundary.get? binding.name).or rule.targetPattern.rootName? = some name ∧
      rule.targetPattern.Makes made name (place binding.node)
  /-- Every edge has stayed, moved or gone, in its place in the sequence, and the links come
  last. -/
  edges : after.edges = graph.edges.filterMap (found.fate place) ++ links
  /-- There is one link for each edge of the target pattern, between new nodes or bound ones. -/
  linked : List.Forall₂ (fun pattern link => link.kind = pattern.kind ∧ link.attributes = ∅ ∧
    ∀ name id, (name, id) ∈ [(pattern.source, link.source), (pattern.target, link.target)] →
      rule.targetPattern.Makes made name id ∨
        name ∉ rule.targetPattern.names ∧ found.node? name = some id)
    rule.targetPattern.edges links
  newLinks : ∀ link ∈ links, ¬graph.hasEdge link.id ∧ ∀ old ∈ graph.edges, old.seq < link.seq
  /-- No id stands for two nodes, and none for two edges. -/
  formed : after.WellFormed

end CodeGraph

/-! ### Every match has this effect -/

/-- The fate of an edge under an application. -/
theorem Addition.fate_eq (addition : Addition) (rule : Rule) (found : Match) (edge : Edge) :
    found.fate (addition.inPlace rule found) edge =
      edge.rewritten? found (addition.replacements rule found) := by
  have keys : (addition.replacements rule found).map (·.1) = found.replacedIds :=
    CodeGraph.map_fst_additionReplacements addition
  have elsewhere : (edge.source ∉ found.replacedIds ∧ edge.target ∉ found.replacedIds) ↔
      (!edge.touches found.replacedIds) = true := by
    rw [Bool.not_eq_true', Edge.touches_eq_false_iff]
  unfold Match.fate Edge.rewritten?
  rw [keys]
  by_cases away : (!edge.touches found.replacedIds) = true
  · rw [if_pos away, if_pos (elsewhere.mpr away)]
  · rw [if_neg away, if_neg (mt elsewhere.mp away)]
    by_cases matched : edge.id ∈ found.edges.map (·.edge)
    · have used : found.edges.any (·.edge = edge.id) := by simpa using matched
      rw [if_pos matched, if_pos (by rw [used, Bool.true_or])]
    · have unused : found.edges.any (·.edge = edge.id) = false := by simpa using matched
      rw [if_neg matched, unused, Bool.false_or]
      by_cases loop : (edge.moved (addition.replacements rule found)).isContainmentLoop
      · have isLoop := loop
        rw [Edge.isContainmentLoop, Bool.and_eq_true, decide_eq_true_eq,
          decide_eq_true_eq] at isLoop
        rw [if_pos loop]
        exact if_pos isLoop
      · have noLoop := loop
        rw [Edge.isContainmentLoop, Bool.and_eq_true, decide_eq_true_eq,
          decide_eq_true_eq] at noLoop
        rw [if_neg loop]
        exact if_neg noLoop

namespace CodeGraph

variable {graph : CodeGraph} {rule : Rule} {found : Match} {addition : Addition}

/-- A name of a fragment is that of the template that made the node. -/
theorem makes_of_lookup {name id : String}
    (looked : (addition.fragment rule).lookup name = some id) :
    rule.targetPattern.Makes addition.nodes name id := by
  have paired := mem_of_lookup_eq_some looked
  rw [Addition.fragment, TargetPattern.names, List.zip_map, List.mem_map] at paired
  obtain ⟨⟨template, node⟩, member, same⟩ := paired
  obtain ⟨isName, isId⟩ := Prod.mk.inj same
  exact ⟨template, node, member, isName, isId⟩

/-- An end of a link is a node of the fragment, or else a bound one. -/
theorem Applies.makes_or_bound (applies : graph.Applies rule found addition) {name id : String}
    (isEnd : Rule.endOf? (addition.fragment rule) found name = some id) :
    rule.targetPattern.Makes addition.nodes name id ∨
      name ∉ rule.targetPattern.names ∧ found.node? name = some id := by
  unfold Rule.endOf? at isEnd
  cases looked : (addition.fragment rule).lookup name with
  | some other =>
      rw [looked, Option.some_or] at isEnd
      exact .inl (Option.some.inj isEnd ▸ makes_of_lookup looked)
  | none =>
      rw [looked, Option.none_or] at isEnd
      refine .inr ⟨fun known => ?_, isEnd⟩
      obtain ⟨other, _, inFragment⟩ := exists_lookup_zip applies.length_names known
      rw [Addition.fragment, inFragment] at looked
      cases looked

/-- What is new has no id of the graph, and comes after all that is in it. -/
theorem WellFormed.new_of_placed (wellFormed : graph.WellFormed)
    (new : addition.New graph rule) :
    (∀ node ∈ addition.nodes, ¬graph.hasNode node.id ∧ ∀ old ∈ graph.nodes, old.seq < node.seq) ∧
      ∀ link ∈ addition.links, ¬graph.hasEdge link.id ∧
        ∀ old ∈ graph.edges, old.seq < link.seq := by
  have nodeIds := new.placed.nodeIds
  have edgeIds := new.placed.edgeIds
  rw [Addition.placed, List.map_append, List.nodup_append] at nodeIds edgeIds
  refine ⟨fun node made => ⟨fun there => ?_, fun old listed => ?_⟩,
    fun link made => ⟨fun there => ?_, fun old listed => ?_⟩⟩
  · exact nodeIds.2.2 node.id (hasNode_iff.mp there) node.id (List.mem_map_of_mem made) rfl
  · exact Nat.lt_of_lt_of_le (wellFormed.nodeBound old listed) (new.nodeSeqs node made)
  · exact edgeIds.2.2 link.id (hasEdge_iff.mp there) link.id (List.mem_map_of_mem made) rfl
  · exact Nat.lt_of_lt_of_le (wellFormed.edgeBound old listed) (new.linkSeqs link made)

/-- The effect of an application. -/
theorem Applies.effect (applies : graph.Applies rule found addition)
    (new : addition.New graph rule) (wellFormed : graph.WellFormed) (valid : rule.Valid) :
    graph.Effect rule found addition.nodes addition.links (addition.inPlace rule found)
      (addition.result graph rule found) where
  replaced binding member := by
    rw [Match.replaced, List.mem_filter, applies.fits.replaced_eq valid member]
    exact and_iff_right member
  nodes := rfl
  filled := applies.added.filled
  newNodes := (wellFormed.new_of_placed new).1
  stays _ untouched := Addition.inPlace_of_not_mem untouched
  taken binding member := by
    have looked := applies.lookup_standIn valid member
    obtain ⟨listed, replaced⟩ := List.mem_filter.mp member
    rw [applies.fits.replaced_eq valid listed] at replaced
    rw [Rule.standIn, if_pos replaced] at looked
    obtain ⟨root, isRoot, _⟩ := Option.bind_eq_some_iff.mp applies.added.root
    refine ⟨_, ?_, makes_of_lookup looked⟩
    rw [isRoot, Option.getD_some]
    cases rule.targetPattern.boundary.get? binding.name <;> rfl
  edges := congrArg (· ++ addition.links)
    (List.filterMap_congr fun edge _ => (addition.fate_eq rule found edge).symm)
  linked := by
    refine applies.added.linked.imp fun pattern link links => ⟨links.kind, links.attributes, ?_⟩
    rintro name id listed
    rcases List.mem_cons.mp listed with isSource | listed
    · obtain ⟨rfl, rfl⟩ := Prod.mk.inj isSource
      exact applies.makes_or_bound links.source
    · obtain ⟨rfl, rfl⟩ := Prod.mk.inj (List.mem_singleton.mp listed)
      exact applies.makes_or_bound links.target
  newLinks := (wellFormed.new_of_placed new).2
  formed := applies.formed

/-- **What applying a match does.** Any match of a valid rule that is found in a graph can be
applied. The replaced nodes give way to one node for each template; every edge has stayed, moved or
gone, and none has done so twice; and there is one link for each edge of the target pattern. -/
theorem WellFormed.exists_effect (wellFormed : graph.WellFormed) (valid : rule.Valid)
    (isMatch : found ∈ graph.findMatchesOf rule ∨ ∃ rules : List Rule,
      found ∈ graph.findMatches rules ∧ rules[found.ruleIndex]? = some rule) :
    ∃ made links place after, graph.applyMatch rule found = (.ok (made.map (·.id)), after) ∧
      graph.Effect rule found made links place after := by
  obtain ⟨index, member⟩ : ∃ index, found ∈ rule.matchesAt index graph := by
    rcases isMatch with one | ⟨rules, several, at_⟩
    · exact ⟨0, mem_findMatchesOf_iff.mp one⟩
    · obtain ⟨other, index, otherAt, member⟩ := mem_findMatches_iff.mp several
      obtain ⟨_, rfl⟩ := Rule.fits_of_mem_matchesAt member
      obtain rfl := Option.some.inj (at_.symm.trans otherAt)
      exact ⟨_, member⟩
  have fits := (Rule.fits_of_mem_matchesAt member).1
  have live := hasNode_of_stillValid fits (wellFormed.stillValid_of_mem valid member)
  obtain ⟨addition, applies, new⟩ := wellFormed.exists_applies_new valid fits live
  exact ⟨_, _, _, _, applies.outcome, applies.effect new wellFormed valid⟩

/-- A static method that calls itself leaves its class. The edge from the class is used up, and the
function that takes the place of the method calls itself. -/
theorem exists_effect_recursiveMethod :
    ∃ (graph : CodeGraph) (found : Match), graph.WellFormed ∧ Builtin.staticToFunction.Valid ∧
      found ∈ graph.findMatchesOf Builtin.staticToFunction ∧
      ∃ made links place after,
        graph.applyMatch Builtin.staticToFunction found = (.ok (made.map (·.id)), after) ∧
        graph.Effect Builtin.staticToFunction found made links place after ∧
        after.nodes.map (·.id) = ["n0", "n2"] ∧
        after.edges = [⟨"e1", .calls, "n2", "n2", ∅, 1⟩] := by
  have valid : Builtin.staticToFunction.Valid := Rule.valid_of_validate (by decide +kernel)
  obtain ⟨graph, wellFormed, tested⟩ := WellFormed.exists_ofData {
      nodes := [⟨"n0", "A", .classType, ∅⟩,
        ⟨"n1", "f", .method, Dict.empty.insert "modifiers" "static"⟩]
      edges := [⟨"e0", "n0", "n1", .contains, ∅⟩, ⟨"e1", "n1", "n1", .calls, ∅⟩] }
    (fun graph => (graph.findMatchesOf Builtin.staticToFunction).head?.any fun found =>
      let after := (graph.applyMatch Builtin.staticToFunction found).2
      after.nodes.map (·.id) = ["n0", "n2"] ∧
        after.edges = [⟨"e1", .calls, "n2", "n2", ∅, 1⟩]) (by decide +kernel)
  obtain ⟨found, isFirst, shown⟩ := (Option.any_eq_true _ _).mp tested
  have member := List.mem_of_mem_head? isFirst
  obtain ⟨made, links, place, after, applied, effect⟩ :=
    wellFormed.exists_effect valid (.inl member)
  rw [applied] at shown
  exact ⟨graph, found, wellFormed, valid, member, made, links, place, after, applied, effect,
    of_decide_eq_true shown⟩

end CodeGraph

end Transcode
