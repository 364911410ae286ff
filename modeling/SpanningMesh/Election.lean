import SpanningMesh.Packet.Basic

/-!
# The election of a mesh id

All nodes of a mesh agree on one small number, the mesh id.  Each starts with an
id of its own, backed by a weight: the id of the node, or the largest weight for
the designated root.  A node announces the id it holds to its neighbours and
takes over any that is backed by more weight, and remembers whom it came from.

When that neighbour announces less, the node follows it as long as the weight
still exceeds its own node id, and otherwise returns to its own id.
-/

namespace SpanningMesh

/-- The mesh id of the designated root. -/
def rootMeshId : UInt16 := 255

/-- The weight of the designated root. -/
def rootWeight : UInt32 := 4294967295

/-- What a node holds in the election. -/
structure Election where
  ownId : UInt16
  currentId : UInt16
  /-- The neighbour the id came from, or the node itself. -/
  source : UInt32
  weight : UInt32
  ownWeight : UInt32
deriving Repr, DecidableEq, Inhabited

/-- What an announcement did. -/
inductive ElectionOutcome where
  /-- It has the weight that is held already. -/
  | unchanged
  | ignored
  | adopted
  /-- The source has too little weight, and the node has its own id again. -/
  | reverted
deriving Repr, DecidableEq, Inhabited

namespace Election

/-- The state in which a node starts. -/
def start (node : UInt32) (root : Bool) (own : UInt16) : Election :=
  let id := if root then rootMeshId else own
  let weight := if root then rootWeight else node
  ⟨id, id, node, weight, weight⟩

/-- Go back to the own id and weight. -/
def revert (e : Election) (node : UInt32) : Election :=
  { e with currentId := e.ownId, source := node, weight := e.ownWeight }

/-- Take over the id and weight of an announcement. -/
def adopt (e : Election) (a : Announcement) : Election :=
  { e with currentId := a.id, source := a.sender, weight := a.weight }

/-- Hear an announcement.  The source may raise its weight or lose it, and anyone else must have
more weight than is held. -/
def apply (e : Election) (node : UInt32) (a : Announcement) : ElectionOutcome × Election :=
  if a.weight = e.weight then (.unchanged, e)
  else if a.sender = e.source then
    if node < a.weight then (.adopted, e.adopt a) else (.reverted, e.revert node)
  else if e.weight < a.weight then (.adopted, e.adopt a)
  else (.ignored, e)

/-- What a node announces: the id that it holds, with the weight of it. -/
def announce (e : Election) (node : UInt32) : Announcement := ⟨e.currentId, node, e.weight⟩

end Election

end SpanningMesh
