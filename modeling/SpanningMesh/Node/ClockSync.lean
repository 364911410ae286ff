import SpanningMesh.Node.Sending
import SpanningMesh.View.TimeSource

/-!
# Setting clocks

Of the two ends of a link one adopts the time of the other.  That end sends a
request and moves its clock by the offset that the reply gives.  The other end,
when its turn comes, invites the first to do so.

Exchanges follow each other at once until the clocks agree, and then rest for the
usual interval.

The same exchange with any node, over several links, measures how long the way to
it takes.  It moves no clock.
-/

namespace SpanningMesh

namespace Node

variable {σ α : Type}

/-- Whether an offset is small enough for two clocks to agree. -/
def agrees (n : Node σ α) (offset : Int32) : Bool :=
  offset.toInt.natAbs < n.settings.clockAccuracy

/-- Move the clock by the offset that an exchange with the neighbour of a link gave. -/
def setClock (n : Node σ α) (id : LinkId) (offset : Int32) : Node σ α :=
  let n := n.adjustTime offset
  let n :=
    match (n.link? id).bind (·.tasks.timeSync) with
    | none => n
    | some task =>
        if n.agrees offset then n.plan fun a => (a.delay task n.settings.clockInterval).2
        else n.plan fun a => (a.force task).2
  n.schedule (.adjusted offset)

variable [Host σ]

/-- Begin to set clocks with the neighbour of a link. -/
def startClockSync (n : Node σ α) (id : LinkId) : Node σ α :=
  match n.link? id with
  | none => n
  | some l =>
      let times := if n.view.adoptsTimeFrom id then .request n.time else .invite
      (n.sendTo id (.timeSync n.id l.remote times) true).2

/-- Hear a step of setting clocks, which arrived at a time. -/
def hearTimeSync (n : Node σ α) (id : LinkId) (sender : UInt32) (x : TimeExchange)
    (arrival : UInt32) : Node σ α :=
  match x.stage with
  | .invite => (n.sendTo id (.timeSync n.id sender (.request n.time)) true).2
  | .request => (n.sendTo id (.timeSync n.id sender (x.reply arrival n.time)) true).2
  | .reply => n.setClock id (x.offset arrival)
  | .fault => n

/-- Start to measure the way to a node. -/
def measureDelay (n : Node σ α) (dest : UInt32) : Bool × Node σ α :=
  let (r, n) := n.sendPacket (.timeDelay n.id dest (.request n.time)) false
  (wasSent r, n)

/-- Hear a step of measuring a delay, which arrived at a time. -/
def hearTimeDelay (n : Node σ α) (sender : UInt32) (x : TimeExchange) (arrival : UInt32) :
    Node σ α :=
  match x.stage with
  | .request => (n.sendPacket (.timeDelay n.id sender (x.reply arrival n.time)) false).2
  | .reply => n.schedule (.measured sender (x.delay arrival))
  | .invite | .fault => n

end Node

end SpanningMesh
