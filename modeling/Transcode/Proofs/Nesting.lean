import Transcode.Graph.Containment
import Transcode.Proofs.Forest

/-!
# Cycles of containment

The walk over containment finds a culprit if and only if containment has a cycle
(`CodeGraph.WellFormed.containmentCulprit?_eq_none_iff`). Without a cycle every node is finished
after all that it contains: a node that is met again has been finished, since what is entered and
not finished yet leads to the node that the walk is at.
-/

namespace Transcode

namespace CodeGraph

variable {graph : CodeGraph} {id : String} {ids before stack : List String}

/-- The contained ids are those of the nodes contained. -/
theorem mem_contained_iff {owner : String} :
    id ∈ graph.contained owner ↔ graph.Contains owner id := by
  simp only [contained, outgoingOf, outgoing, List.mem_map, List.mem_filter, decide_eq_true_eq]
  constructor
  · rintro ⟨edge, ⟨⟨member, source⟩, kind⟩, target⟩
    exact ⟨edge, member, kind, source, target⟩
  · rintro ⟨edge, leads⟩
    exact ⟨edge, ⟨⟨leads.member, leads.source⟩, leads.kind⟩, leads.target⟩

/-- The containers of an id are the nodes that contain it. -/
theorem mem_containers_iff {owner : String} :
    owner ∈ graph.containers id ↔ graph.Contains owner id := by
  simp only [containers, incomingOf, incoming, List.mem_map, List.mem_filter, decide_eq_true_eq]
  constructor
  · rintro ⟨edge, ⟨⟨member, target⟩, kind⟩, source⟩
    exact ⟨edge, member, kind, source, target⟩
  · rintro ⟨edge, leads⟩
    exact ⟨edge, ⟨⟨leads.member, leads.target⟩, leads.kind⟩, leads.source⟩

/-! ### Lists in order of containment -/

/-- In a list of nodes, all that a node contains comes after it. -/
def ContainedLater (graph : CodeGraph) : List String → Prop
  | [] => True
  | id :: rest => (∀ other, graph.Contains id other → other ∈ rest) ∧ graph.ContainedLater rest

/-- What a listed node contains is listed. -/
theorem ContainedLater.mem (later : graph.ContainedLater ids) {owner : String}
    (listed : owner ∈ ids) (contains : graph.Contains owner id) : id ∈ ids := by
  induction ids with
  | nil => cases listed
  | cons first rest ih =>
      rcases List.mem_cons.mp listed with rfl | listed
      · exact List.mem_cons_of_mem _ (later.1 id contains)
      · exact List.mem_cons_of_mem _ (ih later.2 listed)

/-- In a list of all nodes in which what is contained comes later, nothing is misplaced. -/
theorem misplaced?_eq_none (later : graph.ContainedLater ids) (distinct : ids.Nodup)
    (all : ∀ owner id, graph.Contains owner id → owner ∈ before ++ ids) :
    graph.misplaced? before ids = none := by
  induction ids generalizing before with
  | nil => rfl
  | cons id rest ih =>
      obtain ⟨own, distinct⟩ := List.nodup_cons.mp distinct
      have placed : (graph.containers id).find? (!(id :: before).contains ·) = none := by
        rw [List.find?_eq_none]
        intro owner listed
        have contains := mem_containers_iff.mp listed
        rw [Bool.not_eq_true, Bool.not_eq_false', List.contains_iff_mem]
        rcases List.mem_append.mp (all owner id contains) with earlier | here
        · exact List.mem_cons_of_mem id earlier
        · rcases List.mem_cons.mp here with rfl | after
          · exact List.mem_cons_self
          · exact absurd (later.2.mem after contains) own
      rw [misplaced?, placed]
      refine ih later.2 distinct fun owner other contains => ?_
      simpa [or_left_comm] using all owner other contains

/-- If nothing is misplaced in a list, no container comes after what it contains. -/
theorem idxOf_le_of_misplaced? (placed : graph.misplaced? before ids = none) {owner : String}
    (listed : id ∈ ids) (contains : graph.Contains owner id) :
    owner ∈ before ∨ ids.idxOf owner ≤ ids.idxOf id := by
  induction ids generalizing before with
  | nil => cases listed
  | cons first rest ih =>
      unfold misplaced? at placed
      split at placed
      · cases placed
      · rename_i known
        rw [List.find?_eq_none] at known
        by_cases same : first = id
        · subst same
          have here := known owner (mem_containers_iff.mpr contains)
          rw [Bool.not_eq_true, Bool.not_eq_false', List.contains_iff_mem, List.mem_cons] at here
          rcases here with rfl | earlier
          · exact .inr (Nat.le_refl _)
          · exact .inl earlier
        · have inRest := (List.mem_cons.mp listed).resolve_left (Ne.symm same)
          rcases ih placed inRest with earlier | less
          · rcases List.mem_cons.mp earlier with rfl | earlier
            · right
              rw [List.idxOf_cons_self]
              exact Nat.zero_le _
            · exact .inl earlier
          · by_cases isFirst : first = owner
            · right
              rw [isFirst, List.idxOf_cons_self]
              exact Nat.zero_le _
            · right
              rw [List.idxOf_cons_ne _ isFirst, List.idxOf_cons_ne _ same]
              exact Nat.succ_le_succ less

/-! ### The walk -/

/-- What is so of a walk that is under way, with the nodes that it has entered and not finished. -/
structure Walking (graph : CodeGraph) (stack : List String) (walked : Walk) : Prop where
  met : ∀ id, id ∈ walked.met ↔ id ∈ walked.finished ∨ id ∈ stack
  distinct : walked.finished.Nodup
  open_ : ∀ id ∈ stack, id ∉ walked.finished
  plain : ∀ id ∈ walked.finished, ¬graph.Contains id id
  later : graph.Acyclic → graph.ContainedLater walked.finished

/-- What becomes of a walk to some nodes: it stops at a node that contains itself, or goes on and
has met them. -/
inductive Comes (graph : CodeGraph) (stack : List String) (walked : Walk) (starts : List String) :
    Except String Walk → Prop
  | stops {culprit : String} (contains : graph.Contains culprit culprit) :
      Comes graph stack walked starts (.error culprit)
  | goesOn {after : Walk} (walking : graph.Walking stack after) (grows : walked.met ⊆ after.met)
      (met : ∀ id ∈ starts, id ∈ after.met) : Comes graph stack walked starts (.ok after)

variable {walked : Walk}

/-- What a walk has entered leads to where it is. -/
def Leading (graph : CodeGraph) (stack : List String) (id : String) : Prop :=
  ∀ earlier ∈ stack, Relation.TransGen graph.Contains earlier id

/-- A node is entered. -/
theorem Walking.enter (walking : graph.Walking stack walked) (new : id ∉ walked.met) :
    graph.Walking (id :: stack) { walked with met := id :: walked.met } where
  met other := by
    rw [List.mem_cons, List.mem_cons, walking.met]
    exact or_left_comm
  distinct := walking.distinct
  open_ := List.forall_mem_cons.mpr
    ⟨fun finished => new ((walking.met id).mpr (.inl finished)), walking.open_⟩
  plain := walking.plain
  later := walking.later

/-- A node is finished when all that it contains has been met. -/
theorem Walking.finish (walking : graph.Walking (id :: stack) walked)
    (leading : graph.Leading stack id) (plain : ¬graph.Contains id id) (apart : id ∉ stack)
    (met : ∀ other, graph.Contains id other → other ∈ walked.met) :
    graph.Walking stack { walked with finished := id :: walked.finished } where
  met other := by
    rw [walking.met, List.mem_cons, List.mem_cons]
    exact or_left_comm.trans or_assoc.symm
  distinct := List.nodup_cons.mpr ⟨walking.open_ id List.mem_cons_self, walking.distinct⟩
  open_ other inStack := by
    rw [List.mem_cons, not_or]
    exact ⟨fun same => apart (same ▸ inStack),
      walking.open_ other (List.mem_cons_of_mem id inStack)⟩
  plain := List.forall_mem_cons.mpr ⟨plain, walking.plain⟩
  later acyclic := by
    refine ⟨fun other contains => ?_, walking.later acyclic⟩
    rcases (walking.met other).mp (met other contains) with finished | inStack
    · exact finished
    · rcases List.mem_cons.mp inStack with rfl | inStack
      · exact absurd contains plain
      · exact absurd ((leading other inStack).tail contains) (acyclic other)

/-- A walk to each of several nodes in turn. -/
theorem comes_foldlM {step : Walk → String → Except String Walk} {fuel : Nat}
    (each : ∀ walked id, graph.Walking stack walked → graph.missing walked.met < fuel → id ∈ ids →
      graph.Comes stack walked [id] (step walked id))
    (walking : graph.Walking stack walked) (enough : graph.missing walked.met < fuel) :
    graph.Comes stack walked ids (ids.foldlM step walked) := by
  induction ids generalizing walked with
  | nil => exact .goesOn walking (fun _ old => old) (by simp)
  | cons first rest ih =>
      have here := each walked first walking enough List.mem_cons_self
      rw [List.foldlM_cons]
      generalize step walked first = outcome at here ⊢
      cases here with
      | stops contains => exact .stops contains
      | @goesOn between betweenWalking grows met =>
          have fewer := Nat.lt_of_le_of_lt (missing_le_of_subset grows) enough
          have later := ih (fun walked id walking enough member =>
            each walked id walking enough (List.mem_cons_of_mem _ member)) betweenWalking fewer
          change graph.Comes stack walked (first :: rest) (rest.foldlM step between)
          generalize rest.foldlM step between = outcome at later ⊢
          cases later with
          | stops contains => exact .stops contains
          | goesOn afterWalking growsMore metLater =>
              refine .goesOn afterWalking (fun _ old => growsMore (grows old)) ?_
              exact List.forall_mem_cons.mpr ⟨growsMore (met first List.mem_cons_self), metLater⟩

/-- **The walk.** With fuel for the nodes that are missing, a walk to a node goes on unless it comes
to one that contains itself. -/
theorem WellFormed.comes_walk (wellFormed : graph.WellFormed) {fuel : Nat}
    (walking : graph.Walking stack walked) (there : graph.hasNode id)
    (leading : graph.Leading stack id) (enough : graph.missing walked.met < fuel) :
    graph.Comes stack walked [id] (graph.walk fuel walked id) := by
  induction fuel generalizing walked stack id with
  | zero => exact absurd enough (Nat.not_lt_zero _)
  | succ fuel ih =>
      unfold walk
      split
      · rename_i met
        rw [List.contains_iff_mem] at met
        exact .goesOn walking (fun _ old => old) (List.forall_mem_singleton.mpr met)
      · rename_i unmet
        rw [List.contains_iff_mem] at unmet
        split
        · rename_i loop
          exact .stops (mem_contained_iff.mp (List.contains_iff_mem.mp loop))
        · rename_i noLoop
          rw [List.contains_iff_mem, mem_contained_iff] at noLoop
          have apart : id ∉ stack := fun inStack => unmet ((walking.met id).mpr (.inr inStack))
          have less := missing_cons_lt there unmet
          have inner := comes_foldlM (fun walked other walking enough member =>
            have contains := mem_contained_iff.mp member
            have leadingOn : graph.Leading (id :: stack) other := List.forall_mem_cons.mpr
              ⟨.single contains, fun earlier inStack => (leading earlier inStack).tail contains⟩
            ih walking (wellFormed.hasNode_of_contains contains).2 leadingOn enough)
            (walking.enter unmet) (Nat.lt_of_lt_of_le less (Nat.le_of_lt_succ enough))
          generalize (graph.contained id).foldlM (graph.walk fuel) _ = outcome at inner ⊢
          cases inner with
          | stops contains => exact .stops contains
          | goesOn innerWalking grows met =>
              refine .goesOn (innerWalking.finish leading noLoop apart fun other contains =>
                met other (mem_contained_iff.mpr contains)) (fun other old => ?_) ?_
              · exact grows (List.mem_cons_of_mem id old)
              · exact List.forall_mem_singleton.mpr (grows List.mem_cons_self)

/-- **Cycles of containment.** A culprit is found if and only if containment has a cycle. -/
theorem WellFormed.containmentCulprit?_eq_none_iff (wellFormed : graph.WellFormed) :
    graph.containmentCulprit? = none ↔ graph.Acyclic := by
  have start : graph.Walking [] {} := by
    constructor <;> simp [ContainedLater]
  have walked := comes_foldlM (fun walked id walking enough member =>
    wellFormed.comes_walk walking (hasNode_iff.mpr member) (by simp [Leading]) enough) start
    (graph.missing_lt_succ [])
  unfold containmentCulprit?
  generalize (graph.nodes.map (·.id)).foldlM (graph.walk (graph.nodeCount + 1)) {} = outcome
    at walked ⊢
  cases walked with
  | stops contains => exact iff_of_false (by simp) fun acyclic => acyclic _ (.single contains)
  | @goesOn after walking _ met =>
      have finished (id : String) (there : graph.hasNode id) : id ∈ after.finished := by
        have isMet := met id (hasNode_iff.mp there)
        rw [walking.met] at isMet
        exact isMet.resolve_right List.not_mem_nil
      constructor
      · intro placed id cycle
        have earlier (owner child : String) (contains : graph.Contains owner child) :
            after.finished.idxOf owner < after.finished.idxOf child := by
          obtain ⟨ownerThere, childThere⟩ := wellFormed.hasNode_of_contains contains
          have less := (idxOf_le_of_misplaced? placed (finished child childThere)
            contains).resolve_left List.not_mem_nil
          refine Nat.lt_of_le_of_ne less fun same => ?_
          obtain rfl := (List.idxOf_inj (finished owner ownerThere)).mp same
          exact walking.plain owner (finished owner ownerThere) contains
        have ordered : Relation.TransGen (· < ·) (after.finished.idxOf id)
            (after.finished.idxOf id) :=
          Relation.TransGen.lift after.finished.idxOf earlier id id cycle
        rw [Relation.transGen_eq_self] at ordered
        exact Nat.lt_irrefl _ ordered
      · intro acyclic
        refine misplaced?_eq_none (walking.later acyclic) walking.distinct
          fun owner id contains => ?_
        exact finished owner (wellFormed.hasNode_of_contains contains).1

end CodeGraph

end Transcode
