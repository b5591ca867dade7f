import Transcode.Error
import Transcode.Graph.Basic

/-!
# Cycles of containment

A graph can be written out only if no node contains itself, directly or through others. A walk from
every node in turn finishes a node after all it contains. If containment has a cycle then a node is
met with a container that is not finished after it, and the first such container is reported.
-/

namespace Transcode

/-- The nodes that a walk has met, and those it has finished, the latest first. -/
structure Walk where
  met : List String := []
  finished : List String := []

namespace CodeGraph

/-- The ids of the nodes that a node contains, in the order of the edges. -/
def contained (graph : CodeGraph) (id : String) : List String :=
  (graph.outgoingOf .contains id).map (·.target)

/-- The ids of the nodes that contain a node, in the order of the edges. -/
def containers (graph : CodeGraph) (id : String) : List String :=
  (graph.incomingOf .contains id).map (·.source)

/-- Walks from a node to all it contains; a node that contains itself directly stops the walk. A
walk is at most as deep as there are nodes, since a node is entered once. -/
def walk (graph : CodeGraph) : Nat → Walk → String → Except String Walk
  | 0, walked, _ => .ok walked
  | fuel + 1, walked, id =>
    if walked.met.contains id then .ok walked
    else if (graph.contained id).contains id then .error id
    else do
      let inner ← (graph.contained id).foldlM (graph.walk fuel)
        { walked with met := id :: walked.met }
      return { inner with finished := id :: inner.finished }

/-- The first container that is not listed before the node it contains. -/
def misplaced? (graph : CodeGraph) (before : List String) : List String → Option String
  | [] => none
  | id :: rest =>
    match (graph.containers id).find? (!(id :: before).contains ·) with
    | some container => some container
    | none => graph.misplaced? (id :: before) rest

/-- A node on a cycle of containment, if there is a cycle. -/
def containmentCulprit? (graph : CodeGraph) : Option String :=
  match (graph.nodes.map (·.id)).foldlM (graph.walk (graph.nodeCount + 1)) {} with
  | .error id => some id
  | .ok walked => graph.misplaced? [] walked.finished

end CodeGraph

end Transcode
