import SpanningMesh.Node.ClockSync
import SpanningMesh.Node.TreeExchange

/-!
# Handling what arrives

Bytes that arrive are put together to frames at once and stamped with the time.  The
frames wait on their link until its read task handles them in order.  A frame is
forwarded as it is, flooded, handled here or dropped.  A frame whose bytes have no
meaning harms no one but is counted.

The handlers of the application may bring in more frames while frames are handled.
`lateFrames` bounds how many, so that a turn of the read task ends whatever they do.
-/

namespace SpanningMesh

/-- An application: what the values of a type mean to a node. -/
structure Application.Program (σ α : Type) where
  task : α → Node σ α → Node σ α
  handle : α → Packet → LinkId → UInt32 → Node σ α → Node σ α × Flow
  listen : α → Event → Node σ α → Node σ α

/-- The program that does nothing, which is all there is for `α := Empty`. -/
def Application.Program.idle (σ α : Type) : Program σ α :=
  ⟨fun _ n => n, fun _ _ _ _ n => (n, .pass), fun _ _ n => n⟩

instance (σ α : Type) : Inhabited (Application.Program σ α) := ⟨.idle σ α⟩

open Application (Program)

namespace Node

variable {σ α : Type}

/-- The handlers of packets in a node. -/
def handlersOf : Focus (Node σ α) (HandlerTable UInt16 (Handler α)) :=
  ⟨Node.handlers, fun t n => { n with handlers := t }⟩

/-- The listeners for events in a node. -/
def listenersOf : Focus (Node σ α) (HandlerTable EventKind α) :=
  ⟨Node.listeners, fun t n => { n with listeners := t }⟩

/-- Tell an event to those who listen for it. -/
def tell (p : Program σ α) (e : Event) (n : Node σ α) : Node σ α :=
  (HandlerTable.dispatch listenersOf (fun a n => (p.listen a e n, .pass)) e.kind n).1

/-- Count a frame whose bytes have no meaning. -/
def countMalformed (n : Node σ α) : Node σ α := { n with tally := n.tally.recordMalformed }

/-- Learn who the neighbour of a link is from its announcement. -/
def identifyPeer (n : Node σ α) (id : LinkId) (peer : UInt32) : Node σ α :=
  match n.link? id with
  | none => n
  | some l =>
      match l.identify peer with
      | (true, l) => (n.putLink l).schedule (.connected peer)
      | (false, _) => n

variable [Host σ]

/-- Take in bytes that arrived on a link.  A frame that is too large closes the link. -/
def arrive (n : Node σ α) (id : LinkId) (chunk : Bytes) : Node σ α :=
  match n.link? id with
  | none => n
  | some l =>
      match l.receive chunk n.time with
      | (.error _, _) => (n.close id).2
      | (.ok count, l) =>
          let n := n.putLink l
          if count = 0 then n else n.plan fun a => (a.enable l.tasks.read).2

/-- What the node itself does with a packet. -/
def handleOwn (p : Program σ α) (packet : Packet) (id : LinkId) (arrival : UInt32)
    (n : Node σ α) : Node σ α :=
  match packet.payload with
  | .treeRequest sender tree => n.hearTree id sender tree true
  | .treeReply sender tree => n.hearTree id sender tree false
  | .timeSync sender times => n.hearTimeSync id sender times arrival
  | .timeDelay sender times => n.hearTimeDelay sender times arrival
  | .single sender text | .broadcast sender text => n.tell p (.received sender text)
  | .meshId a => (n.identifyPeer id a.sender).hearAnnouncement a
  | .raw _ => n

/-- Run a handler of a packet, which is the node itself or one of the application. -/
def runHandler (p : Program σ α) (packet : Packet) (id : LinkId) (arrival : UInt32) :
    Handler α → Node σ α → Node σ α × Flow
  | .node, n => (n.handleOwn p packet id arrival, .pass)
  | .application a, n => p.handle a packet id arrival n

/-- Handle a frame here: all handlers of its kind are run.  One whose bytes have no meaning is
counted. -/
def handleFrame (p : Program σ α) (id : LinkId) (body : Bytes) (arrival : UInt32)
    (n : Node σ α) : Node σ α :=
  match Packet.decode body with
  | .error _ => n.countMalformed
  | .ok packet =>
      (HandlerTable.dispatch handlersOf (runHandler p packet id arrival) packet.header.kind n).1

/-- Pass a frame on through some links, as it is. -/
def forwardFrame (n : Node σ α) (ids : List LinkId) (body : Bytes) : Node σ α :=
  match Frame.ofBody body with
  | .error _ => n
  | .ok frame => (n.queueOnAll ids frame false).2

/-- Do with a frame what its header says. -/
def routeFrame (p : Program σ α) (id : LinkId) (body : Bytes) (arrival : UInt32)
    (n : Node σ α) : Node σ α :=
  match Header.peek body with
  | .error _ => n.countMalformed
  | .ok header =>
      let decision := Decision.make n.id header n.view.routeTo
      let n := { n with tally := n.tally.record decision }
      match decision with
      | .forward next => n.forwardFrame [next] body
      | .flood =>
          (n.forwardFrame (n.fanOut header.delivery (some id)) body).handleFrame p id body arrival
      | .handle => n.handleFrame p id body arrival
      | .drop _ => n

/-- How many frames may come in while frames are handled. -/
def lateFrames : Nat := 4294967296

/-- Handle frames of a link as long as there are any, but at most a number of them. -/
def readFrames (p : Program σ α) (id : LinkId) : Nat → Node σ α → Node σ α
  | 0, n => n
  | limit + 1, n =>
      match (n.link? id).bind Link.nextFrame with
      | none => n
      | some ((body, arrival), l) =>
          readFrames p id limit ((n.putLink l).routeFrame p id body arrival)

omit [Host σ] in
/-- How many frames a turn of the read task of a link handles at most. -/
def readLimit (n : Node σ α) (id : LinkId) : Nat :=
  ((n.link? id).map (·.inbox.length)).getD 0 + lateFrames

omit [Host σ] in
/-- Put the read task of a link to rest until more comes in. -/
def restReading (n : Node σ α) (id : LinkId) : Node σ α :=
  match n.link? id with
  | none => n
  | some l => n.plan fun a => (a.disable l.tasks.read).2

/-- Handle the frames that came in on a link. -/
def read (p : Program σ α) (id : LinkId) (n : Node σ α) : Node σ α :=
  (n.readFrames p id (n.readLimit id)).restReading id

end Node

end SpanningMesh
