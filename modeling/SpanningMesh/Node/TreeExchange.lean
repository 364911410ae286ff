import SpanningMesh.Node.Sending

/-!
# Exchanging trees with neighbours

A node asks each neighbour from time to time for the tree behind it and sends its
own along.  A neighbour that does not answer in time is given up, and so is one
whose tree may not hang on the link.

The first tree that is accepted settles who the neighbour is.  A tree that is new
makes the node ask all other neighbours in the next pass, and so spreads through
the mesh.  One that is known already shows that the mesh is stable, and the node
takes its time until it asks again.
-/

namespace SpanningMesh

namespace Node

variable {σ α : Type}

/-- Check a tree that a neighbour sent.  A neighbour of whom no tree was accepted before must
not be reachable through another link. -/
def checkAnnounced (n : Node σ α) (l : Link) (sender : UInt32) (tree : Tree) :
    Except TopologyError Unit := do
  n.view.checkTree l.id l.remote tree
  if l.phase ≠ .synced then n.view.checkPeer l.id sender

/-- Add the task that sets clocks on a link, unless it is there.  A station starts at once. -/
def addClockTask (n : Node σ α) (l : Link) : Link × Node σ α :=
  match l.tasks.timeSync with
  | some _ => (l, n)
  | none =>
      let (task, a) := n.agenda.addPersistent n.settings.clockInterval .forever (.setClock l.id)
      let (_, agenda) :=
        if l.station then a.enable task else a.enableDelayed task n.settings.clockDelay
      ({ l with tasks := { l.tasks with timeSync := some task } }, { n with agenda })

/-- Take the sender of the first accepted tree for the neighbour of a link. -/
def settle (n : Node σ α) (l : Link) (sender : UInt32) : Link × Node σ α :=
  let (news, l) := l.identify sender
  let n := if news then n.schedule (.connected sender) else n
  n.addClockTask { l with phase := .synced }

/-- Store an accepted tree.  If it is another than before, all other links exchange theirs in the
next pass. -/
def store (n : Node σ α) (l : Link) (sender : UInt32) (tree : Tree) : Node σ α :=
  let (change, l) := l.learn tree
  let n := n.putLink l
  match change with
  | .changed => (n.hastenExchanges (some l.id)).schedule (.changed sender)
  | .unchanged =>
      { n.plan fun a => (a.delay l.tasks.exchange n.settings.exchangeInterval).2 with
        stability := n.stability.bump }

/-- Accept a tree that may hang on its link. -/
def acceptTree (n : Node σ α) (l : Link) (sender : UInt32) (tree : Tree) : Node σ α :=
  let (l, n) := if l.phase ≠ .synced then n.settle l sender else (l, n)
  n.store l sender tree

variable [Host σ]

/-- Ask the neighbour of a link for its tree. -/
def exchange (n : Node σ α) (id : LinkId) : Node σ α :=
  match n.link? id with
  | none => n
  | some l =>
      let l := if l.phase = .unsynced then { l with phase := .awaiting } else l
      let n := n.putLink l
      let n := n.plan fun a => (a.restartDelayed l.tasks.timeout n.settings.answerTimeout).2
      (n.sendTo id (.treeRequest n.id l.remote (n.view.treeExcept id)) true).2

/-- Hear a tree from a neighbour.  `wanted` says whether it wants one in return. -/
def hearTree (n : Node σ α) (id : LinkId) (sender : UInt32) (tree : Tree) (wanted : Bool) :
    Node σ α :=
  match n.link? id with
  | none => n
  | some l =>
      match n.checkAnnounced l sender tree with
      | .error _ => (n.close id).2
      | .ok () =>
          let n := n.acceptTree l sender tree
          if wanted then (n.sendTo id (.treeReply n.id sender (n.view.treeExcept id)) true).2
          else n.plan fun a => (a.disable l.tasks.timeout).2

end Node

end SpanningMesh
