import SpanningMesh.Clock
import SpanningMesh.Dispatch.Decision
import SpanningMesh.Dispatch.Handlers
import SpanningMesh.Election
import SpanningMesh.Node.Event
import SpanningMesh.Node.Settings
import SpanningMesh.Sequence
import SpanningMesh.Stability

/-!
# Nodes

A `Node` is one member of a mesh: its links, the agenda of what it does when, the
handlers of packets and the listeners of events.  It has no thread and no clock.
Its host feeds it the bytes that arrive and the time, and everything it does follows
from that.

What the host keeps, above all the connections under the links, is a state `σ` of
which the node knows only what `Host` tells.  What an application has the node do is
a value of a type `α`, and an `Application` says what it means.  A node without an
application has `α := Empty`.
-/

namespace SpanningMesh

/-- What a node needs of the state of its host. -/
class Host (σ : Type) where
  transport : LinkId → Transport σ
  /-- How much memory is free. -/
  headroom : σ → Nat

/-- What a task of a node does. -/
inductive Action (α : Type) where
  | exchange (link : LinkId)
  /-- Give a link up whose neighbour does not answer. -/
  | timeout (link : LinkId)
  | read (link : LinkId)
  | send (link : LinkId)
  | setClock (link : LinkId)
  | announce
  | tell (event : Event)
  | application (a : α)
deriving Repr

/-- What handles packets of some kind. -/
inductive Handler (α : Type) where
  | node
  | application (a : α)
deriving Repr

/-- What a node keeps for the election of the mesh id. -/
structure Candidacy where
  election : Election
  task : Option TaskId
  generation : SequenceId := ⟨0⟩
deriving Repr, Inhabited

/-- One member of a mesh. -/
structure Node (σ α : Type) where
  id : UInt32
  settings : Settings
  host : σ
  root : Bool := false
  /-- The open links, oldest first. -/
  links : List Link := []
  nextLink : Nat := 1
  agenda : Agenda (Action α) := {}
  handlers : HandlerTable UInt16 (Handler α) := {}
  listeners : HandlerTable EventKind α := {}
  tally : Tally := {}
  stability : Stability := .zero
  /-- The time of the last pass. -/
  now : Nat := 0
  clockShift : UInt32 := 0
  /-- The election of the mesh id, if the node takes part in it. -/
  candidacy : Option Candidacy := none

namespace Node

variable {σ α : Type}

/-- The kinds of packets that every node handles itself. -/
def ownKinds : List UInt16 :=
  [Kind.treeRequest, Kind.treeReply, Kind.timeSync, Kind.timeDelay, Kind.single, Kind.broadcast]

/-- A node without links, which handles the packets of its own kinds. -/
def create (id : UInt32) (settings : Settings) (host : σ) : Node σ α :=
  { id, settings, host, handlers := ⟨ownKinds.map (·, .node), 0⟩ }

/-! ## Looking -/

/-- The open link of a handle. -/
def link? (n : Node σ α) (id : LinkId) : Option Link := n.links.find? (·.id = id)

/-- The handles of the open links. -/
def linkIds (n : Node σ α) : List LinkId := n.links.map Link.id

/-- The first link to a peer. -/
def linkTo? (n : Node σ α) (peer : UInt32) : Option LinkId :=
  (n.links.find? (·.remote = peer)).map Link.id

/-- What the node knows of the mesh. -/
def view (n : Node σ α) : View LinkId := ⟨n.id, n.root, n.links.map fun l => ⟨l.id, l.subtree⟩⟩

/-- What the clock of the mesh shows at the node. -/
def time (n : Node σ α) : UInt32 := UInt32.ofNat n.now + n.clockShift

/-- The id of the mesh that the node holds, if it takes part in an election. -/
def meshId? (n : Node σ α) : Option UInt16 := n.candidacy.map (·.election.currentId)

/-! ## Changing parts -/

/-- Put a link in the place of the one with its handle. -/
def putLink (n : Node σ α) (l : Link) : Node σ α :=
  { n with links := n.links.map fun k => if k.id = l.id then l else k }

/-- Change the agenda. -/
def plan (n : Node σ α) (f : Agenda (Action α) → Agenda (Action α)) : Node σ α :=
  { n with agenda := f n.agenda }

/-- Tell an event in the next pass. -/
def schedule (n : Node σ α) (e : Event) : Node σ α := n.plan fun a => (a.addOnce (.tell e)).2

/-- Set the clock of the mesh on or back. -/
def adjustTime (n : Node σ α) (offset : Int32) : Node σ α :=
  { n with clockShift := n.clockShift + offset.toUInt32 }

/-- Have the application handle packets of a kind. -/
def onPacket (n : Node σ α) (kind : UInt16) (a : α) : Node σ α :=
  { n with handlers := n.handlers.register kind (.application a) }

/-- Have the application listen for events of a kind. -/
def onEvent (n : Node σ α) (kind : EventKind) (a : α) : Node σ α :=
  { n with listeners := n.listeners.register kind a }

/-- Add a task of the application. -/
def addTask (n : Node σ α) (interval : Nat) (runs : Runs) (a : α) : TaskId × Node σ α :=
  let (id, agenda) := n.agenda.add interval runs (.application a)
  (id, { n with agenda })

end Node

end SpanningMesh
