import SpanningMesh.Node.Linking
import SpanningMesh.Packet.Application

/-!
# Sending packets

A packet leaves through the links that its delivery selects.  It waits there as a
frame until the send task of the link writes it to the connection.

A broadcast packet goes only through links on which a tree was accepted, since any
other link may close a circle.  A neighbour packet goes through every link.
-/

namespace SpanningMesh

namespace Node

variable {σ α : Type} [Host σ]

/-- Let a frame wait on a link. -/
def queueFrame (n : Node σ α) (id : LinkId) (frame : Bytes) (priority : Bool) :
    Except LinkError Unit × Node σ α :=
  match n.link? id with
  | none => (.error (.unknown id), n)
  | some l =>
      match l.enqueue frame priority (Host.headroom n.host) with
      | .error e => (.error e, n)
      | .ok l => (.ok (), (n.putLink l).plan fun a => (a.enable l.tasks.send).2)

/-- Let a packet wait on a link. -/
def sendTo (n : Node σ α) (id : LinkId) (p : Packet) (priority : Bool) :
    Except LinkError Unit × Node σ α :=
  match Frame.ofPacket p with
  | .error e => (.error (.codec e), n)
  | .ok frame => n.queueFrame id frame priority

omit [Host σ] in
/-- The links that a packet for several neighbours goes through. -/
def fanOut (n : Node σ α) (delivery : Delivery) (except : Option LinkId) : List LinkId :=
  (n.links.filter fun l =>
    some l.id ≠ except ∧ (delivery = .broadcast → l.phase = .synced)).map Link.id

/-- Let a frame wait on several links.  The number is how many of them took it. -/
def queueOnAll (n : Node σ α) (ids : List LinkId) (frame : Bytes) (priority : Bool) :
    Nat × Node σ α :=
  ids.foldl
    (fun (count, n) id =>
      match n.queueFrame id frame priority with
      | (.ok (), n) => (count + 1, n)
      | (.error _, n) => (count, n))
    (0, n)

/-- Send a packet through all links that its delivery allows, but one.  The number is how
many of them took it. -/
def sendToAll (n : Node σ α) (p : Packet) (except : Option LinkId) (priority : Bool) :
    Except LinkError Nat × Node σ α :=
  match Frame.ofPacket p with
  | .error e => (.error (.codec e), n)
  | .ok frame =>
      let (count, n) := n.queueOnAll (n.fanOut p.header.delivery except) frame priority
      (.ok count, n)

/-- Send a packet where its header says.  The number is how many links took it. -/
def sendPacket (n : Node σ α) (p : Packet) (priority : Bool) : Except LinkError Nat × Node σ α :=
  match Exit.choose p.header n.view.routeTo with
  | .link id =>
      match n.sendTo id p priority with
      | (.ok (), n) => (.ok 1, n)
      | (.error e, n) => (.error e, n)
  | .all => n.sendToAll p none priority
  | .unreachable => (.ok 0, n)

/-- Whether a packet was taken by some link. -/
def wasSent : Except LinkError Nat → Bool
  | .ok count => 0 < count
  | .error _ => false

/-- Send text to one node, and say whether a link took it. -/
def sendSingle (n : Node σ α) (dest : UInt32) (text : String) : Bool × Node σ α :=
  let (r, n) := n.sendPacket (.single n.id dest text) false
  (wasSent r, n)

/-- Send text to every node.  The number is how many links took it.  With `includeSelf` the
own listeners are told in the next pass. -/
def sendBroadcast (n : Node σ α) (text : String) (includeSelf : Bool) : Nat × Node σ α :=
  let (r, n) := n.sendToAll (.broadcast n.id text) none false
  (r.toOption.getD 0, if includeSelf then n.schedule (.received n.id text) else n)

/-- Send a value of the application to one node.  The number is how many links took it. -/
def sendValue {β : Type} [Application β] (n : Node σ α) (v : β) (dest : UInt32) :
    Except LinkError Nat × Node σ α :=
  match Packet.ofApplication v dest with
  | .error e => (.error (.codec e), n)
  | .ok p => n.sendPacket p false

/-- Write what waits on a link to its connection.  If there is no room the link tries again
later, and if the connection is broken the link is closed. -/
def flush (n : Node σ α) (id : LinkId) : Node σ α :=
  match n.link? id with
  | none => n
  | some l =>
      let (r, l, host) := l.drain (Host.transport id) n.host
      let n := { n with host }.putLink l
      match r with
      | .error _ => (n.close id).2
      | .ok report =>
          if report.blocked then n.plan fun a => (a.delay l.tasks.send n.settings.retryDelay).2
          else n.plan fun a => (a.disable l.tasks.send).2

end Node

end SpanningMesh
