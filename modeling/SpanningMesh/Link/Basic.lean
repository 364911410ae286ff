import SpanningMesh.Agenda
import SpanningMesh.Frame
import SpanningMesh.Link.Outbox
import SpanningMesh.View.Admission

/-!
# Links

A `Link` is one connection of a node to a neighbour: who the neighbour is, the
tree it last announced, the bytes that came in and the frames that go out.  The
connection itself is a transport of the host.

A link is `unsynced` until its node has asked for the tree behind it, and
`synced` from the first tree that was accepted.  The id of the neighbour is
learnt once and does not change.
-/

namespace SpanningMesh

/-- The handle of a link in its node, never used twice. -/
structure LinkId where
  /-- The number, in the order of opening. -/
  number : Nat
deriving Repr, DecidableEq, Inhabited

namespace LinkId

/-- The name under which reports show a link. -/
def name (id : LinkId) : String := s!"link-{id.number}"

end LinkId

/-- How far a link has come. -/
inductive Phase where
  | unsynced
  | awaiting
  | synced
  | closing
deriving Repr, DecidableEq, Inhabited

namespace Phase

/-- The name under which reports show a phase. -/
def name : Phase → String
  | unsynced => "Unsynced"
  | awaiting => "AwaitingFirstSync"
  | synced => "Synced"
  | closing => "Closing"

end Phase

/-- The tasks that belong to a link. -/
structure LinkTasks where
  exchange : TaskId
  /-- Gives the link up if no answer comes. -/
  timeout : TaskId
  read : TaskId
  send : TaskId
  /-- Sets clocks with the neighbour, from the first accepted tree on. -/
  timeSync : Option TaskId := none
deriving Repr, DecidableEq, Inhabited

namespace LinkTasks

/-- The tasks that a link has, in the order in which they were added. -/
def all (t : LinkTasks) : List TaskId := [t.exchange, t.timeout, t.read, t.send] ++ t.timeSync.toList

end LinkTasks

/-- Why a link does not do what was asked of it. -/
inductive LinkError where
  | codec (e : CodecError)
  | topology (e : TopologyError)
  | outbox (e : OutboxError)
  | closed (id : LinkId)
  | unknown (id : LinkId)
deriving Repr, DecidableEq

namespace LinkError

/-- What is said of an error. -/
def message : LinkError → String
  | codec e => s!"wire error: {e.message}"
  | topology e => s!"topology error: {e.message}"
  | outbox e => s!"queue error: {e.message}"
  | closed id => s!"link {id.name} is closed"
  | unknown id => s!"unknown link {id.name}"

end LinkError

/-- One connection to a neighbour. -/
structure Link where
  id : LinkId
  station : Bool
  outbox : Outbox
  reassembler : Reassembler
  tasks : LinkTasks
  /-- The id of the neighbour, 0 until it is known. -/
  remote : UInt32 := 0
  phase : Phase := .unsynced
  /-- The tree the neighbour last announced. -/
  subtree : Tree := .unknown
  /-- The frames that came in, each with the time of its arrival, oldest first. -/
  inbox : List (Bytes × UInt32) := []
deriving Repr, Inhabited

namespace Link

/-- Learn who the neighbour is, and say whether that was news. -/
def identify (l : Link) (id : UInt32) : Bool × Link :=
  if l.remote = 0 ∧ id ≠ 0 then (true, { l with remote := id }) else (false, l)

/-- Put a tree in the place of the one that is stored, and say whether it is another. -/
def learn (l : Link) (t : Tree) : Change × Link := (.between l.subtree t, { l with subtree := t })

/-- Take in bytes that arrived at a time.  The number is how many frames they completed. -/
def receive (l : Link) (chunk : Bytes) (arrival : UInt32) : Except CodecError Nat × Link :=
  match l.reassembler.push chunk with
  | (.ok bodies, r) =>
      (.ok bodies.length, { l with reassembler := r, inbox := l.inbox ++ bodies.map (·, arrival) })
  | (.error e, r) => (.error e, { l with reassembler := r })

/-- Take the oldest frame out of the inbox, with the time at which it came in. -/
def nextFrame (l : Link) : Option ((Bytes × UInt32) × Link) :=
  match l.inbox with
  | [] => none
  | f :: fs => some (f, { l with inbox := fs })

/-- Take in a frame that is to go out. -/
def enqueue (l : Link) (frame : Bytes) (priority : Bool) (headroom : Nat) : Except LinkError Link :=
  if l.phase = .closing then .error (.closed l.id)
  else
    match l.outbox.enqueue frame priority headroom with
    | .ok q => .ok { l with outbox := q }
    | .error e => .error (.outbox e)

/-- Send what the transport takes. -/
def drain {τ : Type} (t : Transport τ) (l : Link) (s : τ) :
    Except OutboxError DrainReport × Link × τ :=
  let (r, q, s) := l.outbox.drain t s
  (r, { l with outbox := q }, s)

/-- Drop everything the link holds. -/
def shutdown (l : Link) : Link :=
  { l with
    phase := .closing
    outbox := l.outbox.clear
    reassembler := l.reassembler.clear
    inbox := []
    subtree := .unknown }

/-- Whether the link can carry data over its transport. -/
def isConnected {τ : Type} (t : Transport τ) (l : Link) (s : τ) : Bool :=
  l.phase ≠ .closing && t.isConnected s

/-- A link as reports show it. -/
def describe (l : Link) : String :=
  let fields := [s!"id: LinkId({l.id.number})", s!"remote_node_id: {l.remote}",
    s!"station: {l.station}", s!"state: {l.phase.name}", s!"pending: {l.outbox.length}"]
  "Link \x7b " ++ String.intercalate ", " fields ++ " \x7d"

end Link

end SpanningMesh
