import SpanningMesh.Node.Candidacy

/-!
# Opening and closing links

A link comes with four tasks that stay as long as the link does, and a fifth from
the moment on when the clocks are set with its neighbour.  The side that opened the
connection, the station, asks for the tree of the other at once.  The other side
waits and usually is asked first.

Closing a link takes everything along that belongs to it.  If there was a part of
the mesh behind it, all other neighbours learn in the next pass that it is gone.
-/

namespace SpanningMesh

namespace Node

variable {σ α : Type}

/-- Add the tasks of a link that is being opened. -/
def addLinkTasks (n : Node σ α) (id : LinkId) (station : Bool) : LinkTasks × Node σ α :=
  let s := n.settings
  let (exchange, a) := n.agenda.addPersistent s.exchangeInterval .forever (.exchange id)
  let (timeout, a) := a.addPersistent s.answerTimeout (.times 1) (.timeout id)
  let (read, a) := a.addPersistent 0 .forever (.read id)
  let (send, a) := a.addPersistent s.sendInterval .forever (.send id)
  let (_, agenda) := if station then a.enable exchange else a.enableDelayed exchange s.exchangeDelay
  ({ exchange, timeout, read, send }, { n with agenda })

/-- Open a link over a connection that the host has made.  `station` says whether this side
opened it. -/
def addLink (n : Node σ α) (station : Bool) : LinkId × Node σ α :=
  let id : LinkId := ⟨n.nextLink⟩
  let (tasks, n) := n.addLinkTasks id station
  let link : Link :=
    { id, station, tasks
      outbox := { maxPending := n.settings.queueLimit, minFree := n.settings.memoryReserve }
      reassembler := { limit := n.settings.frameLimit } }
  let n := { n with links := n.links ++ [link], nextLink := n.nextLink + 1 }
  (id, (n.schedule (.opened id)).hastenAnnouncement)

/-- Have all links but one exchange trees in the next pass. -/
def hastenExchanges (n : Node σ α) (except : Option LinkId) : Node σ α :=
  n.plan fun a =>
    (n.links.filter fun l => some l.id ≠ except).foldl (fun a l => (a.force l.tasks.exchange).2) a

variable [Host σ]

/-- Forget a link and all that belongs to it. -/
def dropLink (n : Node σ α) (l : Link) : Node σ α :=
  { n with
    links := n.links.filter (·.id ≠ l.id)
    host := (Host.transport l.id).close n.host
    agenda := l.tasks.all.foldl Agenda.erase n.agenda
    stability := n.stability.halve }

/-- Close a link.  The answer says whether it was open. -/
def close (n : Node σ α) (id : LinkId) : Bool × Node σ α :=
  match n.link? id with
  | none => (false, n)
  | some l =>
      let n := n.dropLink l
      let n :=
        if l.subtree.isEmpty then n else (n.hastenExchanges none).schedule (.changed l.remote)
      (true, (n.schedule (.dropped l.remote l.station)).losePeer l.remote)

/-- Note that the connection under a link is gone. -/
def disconnect (n : Node σ α) (id : LinkId) : Node σ α := (n.close id).2

end Node

end SpanningMesh
