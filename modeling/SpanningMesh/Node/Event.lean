import SpanningMesh.Link.Basic

/-!
# Events of a node

What a node tells those who listen to it.  Most events are not told at once: the
node puts them on its agenda, so that a listener never runs in the middle of a
change.
-/

namespace SpanningMesh

/-- Something that happened to a node. -/
inductive Event where
  | connected (peer : UInt32)
  /-- A link was closed, to a peer that is 0 if it was never known. -/
  | dropped (peer : UInt32) (station : Bool)
  /-- The mesh behind the link to a peer is another. -/
  | changed (peer : UInt32)
  /-- A link was opened, to a peer that is not known yet. -/
  | opened (link : LinkId)
  | adjusted (offset : Int32)
  | measured (peer : UInt32) (delay : Int32)
  | meshId (id : UInt16)
  | received (sender : UInt32) (text : String)
deriving Repr, DecidableEq

/-- What one may listen for. -/
inductive EventKind where
  | connected
  | dropped
  | changed
  | opened
  | adjusted
  | measured
  | meshId
  | received
deriving Repr, DecidableEq

namespace EventKind

/-- All kinds of events. -/
def all : List EventKind :=
  [connected, dropped, changed, opened, adjusted, measured, meshId, received]

end EventKind

namespace Event

/-- The kind of an event. -/
def kind : Event → EventKind
  | connected _ => .connected
  | dropped .. => .dropped
  | changed _ => .changed
  | opened _ => .opened
  | adjusted _ => .adjusted
  | measured .. => .measured
  | meshId _ => .meshId
  | received .. => .received

end Event

end SpanningMesh
