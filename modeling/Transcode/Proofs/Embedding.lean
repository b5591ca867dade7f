import Transcode.Proofs.Application
import Transcode.Proofs.Search

/-!
# Embeddings

What it means that nodes of a graph embed a pattern (`SourcePattern.Embeds`), apart from how they
are searched for. Edges for the edges of a pattern are chosen one after the other without a look
ahead; since edges between the same nodes can stand in for each other, that finds edges whenever
there are enough (`Search.assignEdges_isSome`).
-/

namespace Transcode

namespace SourcePattern

/-- An edge of a graph can stand for an edge of a pattern whose nodes are bound. -/
structure Stands (pattern : SourcePattern) (graph : CodeGraph) (bound : List Node)
    (edge : PatternEdge) (there : Edge) : Prop where
  member : there ∈ graph.edges
  kind : there.kind = edge.kind
  source : (pattern.lookup bound edge.source).map (·.id) = some there.source
  target : (pattern.lookup bound edge.target).map (·.id) = some there.target

/-- Different nodes of a graph, one for each node of a pattern, that pass its tests and conditions
and have an edge wherever the pattern has one. -/
structure Assigns (pattern : SourcePattern) (graph : CodeGraph) (bound : List Node) : Prop where
  accepted : List.Forall₂ (fun node place => node ∈ graph.nodes ∧ graph.accepts place node)
    bound pattern.nodes
  distinct : (bound.map (·.id)).Nodup
  connected : ∀ edge ∈ pattern.edges, ∃ there, pattern.Stands graph bound edge there
  constraints : pattern.constraintsHold bound

/-- Different edges of a graph, one for each edge of a pattern. -/
structure Maps (pattern : SourcePattern) (graph : CodeGraph) (bound : List Node)
    (mapped : List Edge) : Prop where
  stand : List.Forall₂ (pattern.Stands graph bound) pattern.edges mapped
  distinct : (mapped.map (·.id)).Nodup

/-- The nodes embed a pattern in a graph: there are also different edges for its edges. -/
structure Embeds (pattern : SourcePattern) (graph : CodeGraph) (bound : List Node) : Prop
    extends pattern.Assigns graph bound where
  mapped : ∃ mapped, pattern.Maps graph bound mapped

/-! ### Places -/

variable {pattern : SourcePattern} {bound : List Node}

theorem position?_lt {name : String} {place : Nat} (at_ : pattern.position? name = some place) :
    place < pattern.nodes.length :=
  (List.findIdx?_eq_some_iff_getElem.mp at_).1

/-- Every name of a pattern has a place. -/
theorem exists_position? {name : String} (known : name ∈ pattern.names) :
    ∃ place, pattern.position? name = some place := by
  rw [← Option.isSome_iff_exists, position?, List.findIdx?_isSome, List.any_eq_true]
  obtain ⟨node, member, same⟩ := List.mem_map.mp known
  exact ⟨node, member, decide_eq_true same⟩

/-- A placed edge says of places what an edge of the pattern says of names. -/
structure Places (pattern : SourcePattern) (edge : PatternEdge) (placed : PlacedEdge) : Prop where
  source : pattern.position? edge.source = some placed.source
  target : pattern.position? edge.target = some placed.target
  kind : placed.kind = edge.kind

/-- Every edge of a pattern between its own nodes has its places. -/
theorem forall₂_placedEdges
    (known : ∀ edge ∈ pattern.edges, edge.source ∈ pattern.names ∧ edge.target ∈ pattern.names) :
    List.Forall₂ pattern.Places pattern.edges pattern.placedEdges := by
  unfold placedEdges
  generalize pattern.edges = edges at known
  induction edges with
  | nil => exact .nil
  | cons edge rest ih =>
      obtain ⟨ends, others⟩ := List.forall_mem_cons.mp known
      obtain ⟨source, sourceEq⟩ := exists_position? ends.1
      obtain ⟨target, targetEq⟩ := exists_position? ends.2
      rw [List.filterMap_cons, sourceEq, targetEq]
      exact .cons ⟨sourceEq, targetEq, rfl⟩ (ih others)

/-- A name looks up what is bound at its place. -/
theorem lookup_of_position? {name : String} {place : Nat}
    (at_ : pattern.position? name = some place) : pattern.lookup bound name = bound[place]? := by
  rw [lookup, at_]
  rfl

end SourcePattern

namespace Search

variable {search : Search} {bound : List Node}

/-- An edge of the graph is one that a placed edge asks for between bound nodes. -/
def Between (search : Search) (bound : List Node) (edge : PlacedEdge) (there : Edge) : Prop :=
  ∃ source target, bound[edge.source]? = some source ∧ bound[edge.target]? = some target ∧
    search.graph.Leads edge.kind source.id target.id there

/-- A placed edge holds when some edge lies between what is bound. -/
theorem holds_iff {edge : PlacedEdge} :
    search.Holds bound edge ↔ ∃ there, search.Between bound edge there := by
  unfold Holds Between
  grind

/-- An edge lies between places as it stands for the edge of the pattern. -/
theorem between_iff_stands {edge : PatternEdge} {placed : PlacedEdge} {there : Edge}
    (places : search.pattern.Places edge placed) :
    search.Between bound placed there ↔ search.pattern.Stands search.graph bound edge there := by
  constructor
  · rintro ⟨source, target, sourceEq, targetEq, leads⟩
    refine ⟨leads.member, leads.kind.trans places.kind, ?_, ?_⟩
    · rw [SourcePattern.lookup_of_position? places.source, sourceEq, leads.source]
      rfl
    · rw [SourcePattern.lookup_of_position? places.target, targetEq, leads.target]
      rfl
  · intro stands
    have sourceEq := stands.source
    have targetEq := stands.target
    rw [SourcePattern.lookup_of_position? places.source] at sourceEq
    rw [SourcePattern.lookup_of_position? places.target] at targetEq
    obtain ⟨source, sourceAt, sourceId⟩ := Option.map_eq_some_iff.mp sourceEq
    obtain ⟨target, targetAt, targetId⟩ := Option.map_eq_some_iff.mp targetEq
    exact ⟨source, target, sourceAt, targetAt, stands.member, stands.kind.trans places.kind.symm,
      sourceId.symm, targetId.symm⟩

/-- An edge as part of a match. -/
def matchedEdge (there : Edge) : MatchedEdge := ⟨there.id, there.source, there.target⟩

/-- What `assignEdges` chooses for an edge. -/
theorem chosen_iff {used : List String} {edge : PlacedEdge} {source target : Node} {chosen : Edge}
    (found : ((search.graph.outgoingOf edge.kind source.id).find? fun candidate =>
      candidate.target = target.id && !used.contains candidate.id) = some chosen) :
    search.graph.Leads edge.kind source.id target.id chosen ∧ chosen.id ∉ used := by
  have leads := CodeGraph.mem_outgoingOf.mp (List.mem_of_find?_eq_some found)
  have fits := List.find?_some found
  simp only [Bool.and_eq_true, decide_eq_true_eq, Bool.not_eq_true', List.contains_eq_mem,
    decide_eq_false_iff_not] at fits
  exact ⟨fits.1 ▸ leads, fits.2⟩

/-- The edges that are chosen are different edges that the places ask for. -/
theorem assignEdges_sound {used : List String} {edges : List PlacedEdge}
    {matched : List MatchedEdge} (chosen : search.assignEdges bound used edges = some matched) :
    ∃ mapped, List.Forall₂ (search.Between bound) edges mapped ∧ (mapped.map (·.id)).Nodup ∧
      (∀ there ∈ mapped, there.id ∉ used) ∧ matched = mapped.map matchedEdge := by
  induction edges generalizing used matched with
  | nil =>
      cases chosen
      exact ⟨[], .nil, List.nodup_nil, by simp, rfl⟩
  | cons edge rest ih =>
      unfold assignEdges at chosen
      simp only [Option.bind_eq_bind, Option.bind_eq_some_iff, Option.pure_def,
        Option.some.injEq] at chosen
      obtain ⟨source, sourceEq, target, targetEq, first, found, others, later, rfl⟩ := chosen
      obtain ⟨leads, unused⟩ := chosen_iff found
      obtain ⟨mapped, between, distinct, apart, rfl⟩ := ih later
      refine ⟨first :: mapped, .cons ⟨source, target, sourceEq, targetEq, leads⟩ between, ?_, ?_,
        ?_⟩
      · rw [List.map_cons, List.nodup_cons]
        refine ⟨fun repeated => ?_, distinct⟩
        obtain ⟨there, member, same⟩ := List.mem_map.mp repeated
        exact apart there member (same ▸ List.mem_cons_self)
      · refine List.forall_mem_cons.mpr ⟨unused, fun there member => ?_⟩
        exact fun known => apart there member (List.mem_cons_of_mem _ known)
      · rw [List.map_cons, matchedEdge, leads.source, leads.target]

/-- Edges between the same nodes can stand in for each other. -/
theorem between_of_parallel {edge other : PlacedEdge} {first chosen : Edge}
    (firstFits : search.Between bound edge first) (chosenFits : search.Between bound edge chosen)
    (otherFits : search.Between bound other chosen) : search.Between bound other first := by
  obtain ⟨source, target, sourceEq, targetEq, leads⟩ := firstFits
  obtain ⟨source', target', sourceEq', targetEq', leads'⟩ := chosenFits
  rw [sourceEq] at sourceEq'
  rw [targetEq] at targetEq'
  cases sourceEq'
  cases targetEq'
  obtain ⟨otherSource, otherTarget, otherSourceEq, otherTargetEq, otherLeads⟩ := otherFits
  refine ⟨otherSource, otherTarget, otherSourceEq, otherTargetEq, leads.member, ?_, ?_, ?_⟩
  · exact leads.kind.trans (leads'.kind.symm.trans otherLeads.kind)
  · exact leads.source.trans (leads'.source.symm.trans otherLeads.source)
  · exact leads.target.trans (leads'.target.symm.trans otherLeads.target)

/-- If one edge is chosen where another was meant, the other can take its place elsewhere. -/
theorem exists_exchange (wellFormed : search.graph.WellFormed) {edge : PlacedEdge}
    {rest : List PlacedEdge} {first chosen : Edge} {mapped : List Edge}
    (firstFits : search.Between bound edge first) (chosenFits : search.Between bound edge chosen)
    (fits : List.Forall₂ (search.Between bound) rest mapped)
    (distinct : ((first :: mapped).map (·.id)).Nodup) :
    ∃ exchanged, List.Forall₂ (search.Between bound) rest exchanged ∧
      (exchanged.map (·.id)).Nodup ∧ chosen.id ∉ exchanged.map (·.id) ∧
      ∀ there ∈ exchanged, there ∈ first :: mapped := by
  rw [List.map_cons, List.nodup_cons] at distinct
  obtain ⟨own, distinct⟩ := distinct
  let exchange : Edge → Edge := fun there => if there.id = chosen.id then first else there
  have chosenMember : chosen ∈ search.graph.edges := by
    obtain ⟨_, _, _, _, leads⟩ := chosenFits
    exact leads.member
  refine ⟨mapped.map exchange, ?_, ?_, ?_, ?_⟩
  · rw [List.forall₂_map_right_iff]
    refine fits.imp fun other there between => ?_
    dsimp only [exchange]
    split
    · rename_i same
      have member : there ∈ search.graph.edges := by
        obtain ⟨_, _, _, _, leads⟩ := between
        exact leads.member
      obtain rfl := wellFormed.edge_eq_of_id member chosenMember same
      exact between_of_parallel firstFits chosenFits between
    · exact between
  · rw [List.map_map]
    refine (distinct.of_map _).map_on fun left leftMember right rightMember same => ?_
    have leftId := List.mem_map_of_mem (f := fun there : Edge => there.id) leftMember
    have rightId := List.mem_map_of_mem (f := fun there : Edge => there.id) rightMember
    have inj := List.inj_on_of_nodup_map distinct leftMember rightMember
    grind
  · intro listed
    obtain ⟨_, member, same⟩ := List.mem_map.mp listed
    obtain ⟨there, thereMember, rfl⟩ := List.mem_map.mp member
    have thereId := List.mem_map_of_mem (f := fun there : Edge => there.id) thereMember
    grind
  · intro _ member
    obtain ⟨there, thereMember, rfl⟩ := List.mem_map.mp member
    dsimp only [exchange]
    split
    · exact List.mem_cons_self
    · exact List.mem_cons_of_mem first thereMember

/-- **Choosing edges.** If there are different edges for all the places, then choosing the first
unused edge each time finds some. -/
theorem assignEdges_isSome (wellFormed : search.graph.WellFormed) {used : List String}
    {edges : List PlacedEdge} {mapped : List Edge}
    (fits : List.Forall₂ (search.Between bound) edges mapped)
    (distinct : (mapped.map (·.id)).Nodup) (apart : ∀ there ∈ mapped, there.id ∉ used) :
    (search.assignEdges bound used edges).isSome := by
  induction edges generalizing used mapped with
  | nil => rfl
  | cons edge rest ih =>
      cases fits with
      | @cons _ first _ others firstFits otherFits =>
          obtain ⟨source, target, sourceEq, targetEq, leads⟩ := id firstFits
          obtain ⟨unused, othersUnused⟩ := List.forall_mem_cons.mp apart
          obtain ⟨chosen, found⟩ : ∃ chosen, ((search.graph.outgoingOf edge.kind source.id).find?
              fun candidate => candidate.target = target.id && !used.contains candidate.id) =
                some chosen := by
            rw [← Option.isSome_iff_exists, List.find?_isSome]
            refine ⟨first, CodeGraph.mem_outgoingOf.mpr (leads.target.symm ▸ leads), ?_⟩
            simpa using ⟨leads.target, unused⟩
          obtain ⟨chosenLeads, chosenUnused⟩ := chosen_iff found
          obtain ⟨exchanged, fits, ids, new, known⟩ := exists_exchange wellFormed firstFits
            ⟨source, target, sourceEq, targetEq, chosenLeads⟩ otherFits distinct
          have unusedLater : ∀ there ∈ exchanged, there.id ∉ chosen.id :: used := by
            intro there member
            rw [List.mem_cons, not_or]
            refine ⟨fun same => new ?_, apart there (known there member)⟩
            rw [← same]
            exact List.mem_map_of_mem member
          obtain ⟨matched, later⟩ := Option.isSome_iff_exists.mp (ih fits ids unusedLater)
          unfold assignEdges
          rw [sourceEq, targetEq]
          simp only [Option.bind_eq_bind, Option.bind_some, found, later]
          rfl

end Search

end Transcode
