import Transcode.Proofs.Dictionaries
import Transcode.Proofs.JsonText
import Transcode.Proofs.Renaming

/-!
# Graphs written as JSON and read again

What a graph shows is written as JSON text that is read back as the same data
(`GraphData.decoder_toJson`). A well-formed graph comes back with its nodes and edges numbered anew
and the counters set to their numbers (`CodeGraph.WellFormed.ofJsonText_pretty`); apart from that it
is the graph that was written (`CodeGraph.WellFormed.relocated`).
-/

namespace Transcode

/-! ### Fields of records -/

namespace Field

variable {α β : Type} {record : Record}

/-- A field that is read is read with what is made of it. -/
theorem run_map {field : Field α} {x : α} (f : α → β) (read : field.run record = .ok x) :
    (f <$> field).run record = .ok (f x) := by
  change (field.run record).map f = _
  rw [read]
  rfl

/-- Two fields are read one after another. -/
theorem run_seq {function : Field (α → β)} {argument : Field α} {f : α → β} {value : α}
    (readFunction : function.run record = .ok f) (read : argument.run record = .ok value) :
    (function <*> argument).run record = .ok (f value) := by
  change (Field.apply function argument).run record = _
  unfold Field.apply
  dsimp only
  rw [readFunction, read]

/-- A field that stands once is read from its place. -/
theorem run_named {names : List String} {decode : Decoder α} {absent : Option α} {json : Json}
    {value : α} (once : (record.occurrences names).map (·.2) = [json])
    (read : decode json = .ok value) : (named names decode absent).run record = .ok value := by
  obtain ⟨entry, listed, rfl⟩ := List.map_eq_singleton_iff.mp once
  unfold named
  dsimp only
  rw [listed]
  dsimp only
  rw [read]

/-- A field that is missing has its default. -/
theorem run_named_missing {names : List String} {decode : Decoder α} {value : α}
    (missing : record.occurrences names = []) :
    (named names decode (some value)).run record = .ok value := by
  unfold named
  dsimp only
  rw [missing]

/-- A record is read field by field. -/
theorem decoder_object {fields : List String} {field : Field α} {entries : List (String × Json)}
    {value : α} (read : field.run { entries } = .ok value) :
    decoder fields field (.object entries) = .ok value := by
  unfold decoder Record.ofJson
  dsimp only
  rw [read]

end Field

/-! ### Values -/

theorem NodeKind.decoder_name (kind : NodeKind) :
    NodeKind.decoder (.text kind.name) = .ok kind := by
  cases kind <;> rfl

theorem EdgeKind.decoder_name (kind : EdgeKind) :
    EdgeKind.decoder (.text kind.name) = .ok kind := by
  cases kind <;> rfl

namespace Decoder

variable {α : Type} {decode : Decoder α} {encode : α → Json}

/-- Items are read one by one. -/
theorem list_map {values : List α} (each : ∀ value ∈ values, decode (encode value) = .ok value) :
    list decode (.array (values.map encode)) = .ok values := by
  change items decode (values.map encode) = .ok values
  induction values with
  | nil => rfl
  | cons value rest ih =>
      obtain ⟨here, later⟩ := List.forall_mem_cons.mp each
      rw [List.map_cons, items, here, ih later]
      rfl

/-- The entries of a dictionary are read one by one. -/
theorem dict_ofDict_of_forall {dict : Dict α}
    (each : ∀ entry ∈ dict.entries, decode (encode entry.2) = .ok entry.2) :
    Decoder.dict decode (Json.ofDict encode dict) = .ok dict := by
  have read (entries : List (String × α))
      (each : ∀ entry ∈ entries, decode (encode entry.2) = .ok entry.2) :
      Decoder.entries decode (entries.map fun entry => (entry.1, encode entry.2)) =
        .ok entries := by
    induction entries with
    | nil => rfl
    | cons entry rest ih =>
        obtain ⟨here, later⟩ := List.forall_mem_cons.mp each
        rw [List.map_cons, Decoder.entries, here, ih later]
        rfl
  unfold Decoder.dict Json.ofDict
  dsimp only
  rw [read dict.entries each]
  exact congrArg Except.ok dict.ofList_entries

theorem dict_ofDict (attributes : Attributes) :
    dict text (Json.ofDict .text attributes) = .ok attributes :=
  dict_ofDict_of_forall fun _ _ => rfl

end Decoder

/-! ### Graph data -/

/-- The numbers of a warning fit 64 bits. -/
def Warning.Fits : Warning → Prop
  | .nonTermination iterations pending => iterations < Nat.pow 2 64 ∧ pending < Nat.pow 2 64

/-- The data of a node is read back. -/
theorem NodeData.decoder_toJson (node : NodeData) : NodeData.decoder node.toJson = .ok node := by
  refine Field.decoder_object (Field.run_seq (f := mk node.id node.label node.kind)
    (Field.run_seq (f := mk node.id node.label)
      (Field.run_seq (f := mk node.id) (Field.run_map mk ?_) ?_) ?_) ?_)
  · exact Field.run_named rfl rfl
  · exact Field.run_named rfl rfl
  · exact Field.run_named rfl node.kind.decoder_name
  · exact Field.run_named rfl (Decoder.dict_ofDict node.attributes)

/-- The data of an edge is read back. -/
theorem EdgeData.decoder_toJson (edge : EdgeData) : EdgeData.decoder edge.toJson = .ok edge := by
  refine Field.decoder_object (Field.run_seq (f := mk edge.id edge.source edge.target edge.kind)
    (Field.run_seq (f := mk edge.id edge.source edge.target)
      (Field.run_seq (f := mk edge.id edge.source)
        (Field.run_seq (f := mk edge.id) (Field.run_map mk ?_) ?_) ?_) ?_) ?_)
  · exact Field.run_named rfl rfl
  · exact Field.run_named rfl rfl
  · exact Field.run_named rfl rfl
  · exact Field.run_named rfl edge.kind.decoder_name
  · exact Field.run_named rfl (Decoder.dict_ofDict edge.attributes)

/-- An entry of a history is read back. -/
theorem Provenance.decoder_toJson (entry : Provenance) :
    Provenance.decoder entry.toJson = .ok entry := by
  refine Field.decoder_object (Field.run_seq (f := mk entry.node) (Field.run_map mk ?_) ?_)
  · exact Field.run_named rfl rfl
  · exact Field.run_named rfl rfl

theorem Decoder.natural_of_lt {value : Nat} (bound : value < Nat.pow 2 64) :
    Decoder.natural (.natural value) = .ok value :=
  if_pos bound

/-- A value that does not nest too deep is decoded. -/
theorem Decoder.readable_eq {α : Type} {depth : Nat} {decode : Decoder α} {json : Json}
    (stored : (json.storedWithin? depth).isSome) :
    Decoder.readable depth decode json = decode json := by
  unfold readable
  obtain ⟨value, found⟩ := Option.isSome_iff_exists.mp stored
  rw [found]

/-- A warning is read back. -/
theorem Warning.decoder_toJson {warning : Warning} (fits : warning.Fits) :
    Warning.decoder warning.toJson = .ok warning := by
  cases warning with
  | nonTermination iterations pending =>
      refine (Decoder.readable_eq ?_).trans <|
        Field.decoder_object (Field.run_seq (f := fun pending => nonTermination iterations pending)
        (Field.run_seq (f := fun iterations pending => nonTermination iterations pending)
          (Field.run_map (fun _ iterations pending => nonTermination iterations pending)
            (x := ()) ?_) ?_) ?_)
      · simp [toJson, Json.maxDepth, Json.storedWithin?, Json.storedEntries?]
      · exact Field.run_named rfl rfl
      · exact Field.run_named rfl (Decoder.natural_of_lt fits.1)
      · exact Field.run_named rfl (Decoder.natural_of_lt fits.2)

/-- **Data is read back** from the value that it is written as. -/
theorem GraphData.decoder_toJson {data : GraphData}
    (fits : ∀ warning ∈ data.warnings, warning.Fits) :
    GraphData.decoder data.toJson = .ok data := by
  have nodes := Decoder.list_map fun node (_ : node ∈ data.nodes) => node.decoder_toJson
  have edges := Decoder.list_map fun edge (_ : edge ∈ data.edges) => edge.decoder_toJson
  have history := Decoder.list_map fun entry (_ : entry ∈ data.history) => entry.decoder_toJson
  have warnings := Decoder.list_map fun warning (member : warning ∈ data.warnings) =>
    Warning.decoder_toJson (fits warning member)
  refine Field.decoder_object (Field.run_seq (f := mk data.nodes data.edges data.history)
    (Field.run_seq (f := mk data.nodes data.edges)
      (Field.run_seq (f := mk data.nodes) (Field.run_map mk ?_) ?_) ?_) ?_)
  · exact Field.run_named (by cases data.history <;> cases data.warnings <;> rfl) nodes
  · exact Field.run_named (by cases data.history <;> cases data.warnings <;> rfl) edges
  · generalize data.history = entries at history ⊢
    cases entries with
    | nil => exact Field.run_named_missing (by cases data.warnings <;> rfl)
    | cons entry rest => exact Field.run_named (by cases data.warnings <;> rfl) history
  · generalize data.warnings = entries at warnings ⊢
    cases entries with
    | nil => exact Field.run_named_missing (by cases data.history <;> rfl)
    | cons entry rest => exact Field.run_named (by cases data.history <;> rfl) warnings

/-! ### Graph data as text -/

section Plain

/-- A dictionary of texts is plain. -/
theorem Json.plain_ofDict (attributes : Attributes) : (Json.ofDict .text attributes).Plain := by
  refine .object fun entry member => ?_
  obtain ⟨other, _, rfl⟩ := List.mem_map.mp member
  exact .text _

/-- The data of a node is plain. -/
theorem NodeData.plain_toJson (node : NodeData) : node.toJson.Plain := by
  refine .object fun entry member => ?_
  simp only [List.mem_cons, List.not_mem_nil, or_false] at member
  rcases member with rfl | rfl | rfl | rfl
  · exact .text _
  · exact .text _
  · exact .text _
  · exact Json.plain_ofDict _

/-- The data of an edge is plain. -/
theorem EdgeData.plain_toJson (edge : EdgeData) : edge.toJson.Plain := by
  refine .object fun entry member => ?_
  simp only [List.mem_cons, List.not_mem_nil, or_false] at member
  rcases member with rfl | rfl | rfl | rfl | rfl
  · exact .text _
  · exact .text _
  · exact .text _
  · exact .text _
  · exact Json.plain_ofDict _

/-- An entry of a history is plain. -/
theorem Provenance.plain_toJson (entry : Provenance) : entry.toJson.Plain := by
  refine .object fun field member => ?_
  simp only [List.mem_cons, List.not_mem_nil, or_false] at member
  rcases member with rfl | rfl <;> exact .text _

/-- A warning is plain. -/
theorem Warning.plain_toJson {warning : Warning} (fits : warning.Fits) : warning.toJson.Plain := by
  cases warning with
  | nonTermination iterations pending =>
      refine .object fun entry member => ?_
      simp only [List.mem_cons, List.not_mem_nil, or_false] at member
      rcases member with rfl | rfl | rfl
      · exact .text _
      · exact .natural fits.1
      · exact .natural fits.2

/-- An array of plain items is plain. -/
theorem Json.plain_array_map {α : Type} {encode : α → Json} {values : List α}
    (each : ∀ value ∈ values, (encode value).Plain) : (Json.array (values.map encode)).Plain := by
  refine .array fun item member => ?_
  obtain ⟨value, listed, rfl⟩ := List.mem_map.mp member
  exact each value listed

/-- An entry for plain items is plain. -/
theorem Json.plain_of_mem_entryIfAny {α : Type} {name : String} {encode : α → Json}
    {values : List α} (each : ∀ value ∈ values, (encode value).Plain) :
    ∀ entry ∈ Json.entryIfAny name encode values, entry.2.Plain := by
  intro entry member
  cases values with
  | nil => cases member
  | cons value rest =>
      obtain rfl := List.mem_singleton.mp member
      exact Json.plain_array_map each

/-- The data of a graph is plain. -/
theorem GraphData.plain_toJson {data : GraphData} (fits : ∀ warning ∈ data.warnings, warning.Fits) :
    data.toJson.Plain := by
  refine .object fun entry member => ?_
  simp only [List.mem_append, List.mem_cons, List.not_mem_nil, or_false] at member
  rcases member with ((rfl | rfl) | history) | warnings
  · exact Json.plain_array_map fun node _ => node.plain_toJson
  · exact Json.plain_array_map fun edge _ => edge.plain_toJson
  · exact Json.plain_of_mem_entryIfAny (fun entry _ => entry.plain_toJson) entry history
  · exact Json.plain_of_mem_entryIfAny (fun warning member =>
      Warning.plain_toJson (fits warning member))
      entry warnings

end Plain

/-! ### Loading -/

/-- Data that a graph can show: ids are used once and edges end at nodes. -/
structure GraphData.Loadable (data : GraphData) : Prop where
  nodeIds : (data.nodes.map (·.id)).Nodup
  edgeIds : (data.edges.map (·.id)).Nodup
  ends : ∀ edge ∈ data.edges,
    edge.source ∈ data.nodes.map (·.id) ∧ edge.target ∈ data.nodes.map (·.id)

namespace CodeGraph

variable {graph : CodeGraph}

/-- Edges with consecutive sequence numbers. -/
def numberedEdges (start : Nat) : List EdgeData → List Edge
  | [] => []
  | data :: rest =>
    ⟨data.id, data.kind, data.source, data.target, data.attributes, start⟩ ::
      numberedEdges (start + 1) rest

/-- Edges between nodes with ids of their own can all be added. -/
theorem addEdges_eq (items : List EdgeData) (graph : CodeGraph)
    (distinct : (graph.edges.map (·.id) ++ items.map (·.id)).Nodup)
    (ends : ∀ item ∈ items, graph.hasNode item.source ∧ graph.hasNode item.target)
    (bound : ∀ edge ∈ graph.edges, edge.seq < graph.nextEdgeSeq) :
    graph.addEdges items = .ok { graph with
      edges := graph.edges ++ numberedEdges graph.nextEdgeSeq items
      nextEdgeSeq := graph.nextEdgeSeq + items.length } := by
  induction items generalizing graph with
  | nil => simp [addEdges, numberedEdges]
  | cons data rest ih =>
      obtain ⟨here, others⟩ := List.forall_mem_cons.mp ends
      let edge : Edge :=
        ⟨data.id, data.kind, data.source, data.target, data.attributes, graph.nextEdgeSeq⟩
      let next : CodeGraph := { graph with
        edges := graph.edges ++ [edge]
        nextEdgeSeq := graph.nextEdgeSeq + 1 }
      have unused : edge.id ∉ graph.edges.map (·.id) := fun used =>
        (List.nodup_append.mp distinct).2.2 _ used _ List.mem_cons_self rfl
      have step : graph.addEdgeWithId data.id data.source data.target data.kind data.attributes =
          (.ok (), next) :=
        addEdgeWithId_eq graph unused here.1 here.2 bound data.kind data.attributes
      have later : ∀ other ∈ next.edges, other.seq < next.nextEdgeSeq := by
        intro other member
        rcases List.mem_append.mp member with old | new
        · exact Nat.lt_succ_of_lt (bound other old)
        · obtain rfl := List.mem_singleton.mp new
          exact Nat.lt_succ_self _
      -- The new edge has an id of the items, so the ids of both lists together stay the same.
      unfold addEdges
      rw [step]
      dsimp only
      rw [ih next (by simpa [next, edge] using distinct) others later]
      simp only [next, edge, numberedEdges, List.append_assoc, List.singleton_append,
        List.length_cons]
      rw [Nat.add_assoc, Nat.add_comm 1]

@[simp] theorem length_numbered (start : Nat) (items : List NodeData) :
    (numbered start items).length = items.length := by
  rw [← List.length_map (f := fun node : Node => node.seq), map_seq_numbered, List.length_range']

@[simp] theorem length_numberedEdges (start : Nat) (items : List EdgeData) :
    (numberedEdges start items).length = items.length := by
  induction items generalizing start with
  | nil => rfl
  | cons data rest ih => rw [numberedEdges, List.length_cons, ih, List.length_cons]

/-- The graph that data denotes: everything has its place as its number. -/
def placed (data : GraphData) : CodeGraph where
  nodes := numbered 0 data.nodes
  edges := numberedEdges 0 data.edges
  nextSeq := data.nodes.length
  nextEdgeSeq := data.edges.length
  nextNodeId := data.nodes.length
  nextEdgeId := data.edges.length
  history := data.history

/-- Data that can be loaded is loaded item by item. -/
theorem ofData_of_loadable {data : GraphData} (loadable : data.Loadable) :
    CodeGraph.ofData data = .ok (placed data) := by
  let withNodes : CodeGraph := { nodes := numbered 0 data.nodes, nextSeq := data.nodes.length }
  let withEdges : CodeGraph := { withNodes with
    edges := numberedEdges 0 data.edges
    nextEdgeSeq := data.edges.length }
  have nodes : ({} : CodeGraph).addNodes data.nodes = .ok withNodes := by
    rw [addNodes_eq _ _ (by simpa using loadable.nodeIds)]
    simp [withNodes]
  have edges : withNodes.addEdges data.edges = .ok withEdges := by
    rw [addEdges_eq _ _ (by simpa [withNodes] using loadable.edgeIds) _ (by simp [withNodes])]
    · simp [withNodes, withEdges]
    · intro item member
      simp only [hasNode_iff, withNodes, map_id_numbered]
      exact loadable.ends item member
  unfold CodeGraph.ofData
  rw [nodes]
  change withNodes.addEdges data.edges >>= _ = _
  rw [edges]
  simp [withEdges, withNodes, placed, nodeCount, edgeCount, bind, Except.bind, pure, Except.pure]

/-- A graph as it comes back from its data. -/
def reloaded (graph : CodeGraph) : CodeGraph where
  nodes := numbered 0 graph.toData.nodes
  edges := numberedEdges 0 graph.toData.edges
  nextSeq := graph.nodeCount
  nextEdgeSeq := graph.edgeCount
  nextNodeId := graph.nodeCount
  nextEdgeId := graph.edgeCount
  history := graph.history

/-- A well-formed graph shows data that can be loaded. -/
theorem WellFormed.loadable (wellFormed : graph.WellFormed) : graph.toData.Loadable where
  nodeIds := by simpa [toData, Function.comp_def] using wellFormed.nodeIds
  edgeIds := by simpa [toData, Function.comp_def] using wellFormed.edgeIds
  ends edge member := by
    obtain ⟨inside, there, rfl⟩ := List.mem_map.mp member
    have ends := wellFormed.endpoints inside there
    simpa [hasNode_iff, toData] using ends

/-- The data of a well-formed graph can be loaded. -/
theorem WellFormed.ofData_toData (wellFormed : graph.WellFormed) (warnings : List Warning) :
    CodeGraph.ofData { graph.toData with warnings } = .ok graph.reloaded := by
  have loadable : GraphData.Loadable { graph.toData with warnings } :=
    ⟨wellFormed.loadable.nodeIds, wellFormed.loadable.edgeIds, wellFormed.loadable.ends⟩
  rw [ofData_of_loadable loadable]
  simp [placed, reloaded, nodeCount, edgeCount, toData]

/-- **Writing and loading a graph.** The text of a well-formed graph, also with the warnings of a
run, denotes the graph with its numbers and counters set anew. -/
theorem WellFormed.ofJsonText_pretty (wellFormed : graph.WellFormed) {warnings : List Warning}
    (fits : ∀ warning ∈ warnings, warning.Fits) :
    CodeGraph.ofJsonText { graph.toData with warnings }.toJson.pretty = .ok graph.reloaded := by
  let data : GraphData := { graph.toData with warnings }
  have plain : data.toJson.Plain := GraphData.plain_toJson fits
  have decoded : GraphData.decoder data.toJson = .ok data := GraphData.decoder_toJson fits
  unfold CodeGraph.ofJsonText
  rw [Json.read?_pretty plain, Option.map_some, decoded]
  dsimp only
  rw [wellFormed.ofData_toData]

/-! ### What loading changes -/

/-- Nodes that are numbered anew are the nodes at other places. -/
theorem numbered_eq_map {place : Nat → Nat} {start : Nat} {nodes : List Node}
    (places : (nodes.map (·.seq)).map place = List.range' start nodes.length) :
    numbered start (nodes.map Node.data) = nodes.map (Node.placed place) := by
  induction nodes generalizing start with
  | nil => rfl
  | cons node rest ih =>
      rw [List.length_cons, List.range'_succ, List.map_cons, List.map_cons,
        List.cons.injEq] at places
      rw [List.map_cons, numbered, ih places.2, ← places.1]
      rfl

/-- Edges that are numbered anew are the edges at other places. -/
theorem numberedEdges_eq_map {place : Nat → Nat} {start : Nat} {edges : List Edge}
    (places : (edges.map (·.seq)).map place = List.range' start edges.length) :
    numberedEdges start (edges.map Edge.data) = edges.map (Edge.placed place) := by
  induction edges generalizing start with
  | nil => rfl
  | cons edge rest ih =>
      rw [List.length_cons, List.range'_succ, List.map_cons, List.map_cons,
        List.cons.injEq] at places
      rw [List.map_cons, numberedEdges, ih places.2, ← places.1]
      rfl

/-- Loading changes only sequence numbers of nodes and edges. -/
theorem WellFormed.relocated (wellFormed : graph.WellFormed) :
    ∃ place edgePlace, Relocated graph place edgePlace graph.reloaded := by
  obtain ⟨place, places, _⟩ := exists_extension id (nodup_map_of_pairwise wellFormed.nodeOrder)
    (show _ = (List.range' 0 graph.nodes.length).length by simp)
  obtain ⟨edgePlace, edgePlaces, _⟩ :=
    exists_extension id (nodup_map_of_pairwise wellFormed.edgeOrder)
      (show _ = (List.range' 0 graph.edges.length).length by simp)
  have nodes : graph.reloaded.nodes = graph.nodes.map (Node.placed place) := numbered_eq_map places
  refine ⟨place, edgePlace, nodes, numberedEdges_eq_map edgePlaces, rfl, ?_⟩
  have order := pairwise_numbered 0 graph.toData.nodes
  change graph.reloaded.nodes.Pairwise _ at order
  rw [nodes, List.pairwise_map] at order
  exact fun one oneMember other otherMember =>
    le_iff_of_pairwise wellFormed.nodeOrder order oneMember otherMember

end CodeGraph

end Transcode
