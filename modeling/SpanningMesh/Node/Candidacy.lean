import SpanningMesh.Node.Basic

/-!
# A node in the election

A node that takes part in the election announces the mesh id it holds from time to
time.  Whenever the id may be another, and whenever there is a new neighbour, it
announces the id in the next pass.

If the neighbour that the id came from is lost, the node returns to its own id.
-/

namespace SpanningMesh

namespace Node

variable {σ α : Type}

/-- Take part in the election, with an id of its own.  A node that takes part already goes
on as before. -/
def joinElection (n : Node σ α) (own : UInt16) : Node σ α :=
  match n.candidacy with
  | some _ => n
  | none =>
      let (task, agenda) := n.agenda.add n.settings.announceInterval .forever .announce
      { n with
        agenda
        handlers := n.handlers.register Kind.meshId .node
        candidacy := some { election := .start n.id n.root own, task := some task } }

/-- Announce the mesh id in the next pass. -/
def hastenAnnouncement (n : Node σ α) : Node σ α :=
  match n.candidacy.bind Candidacy.task with
  | some task => n.plan fun a => (a.force task).2
  | none => n

/-- Take over a new state of the election, which may bring another mesh id. -/
def setElection (n : Node σ α) (c : Candidacy) (election : Election) : Node σ α :=
  let n :=
    if election.currentId = c.election.currentId then
      { n with candidacy := some { c with election } }
    else
      let n := { n with candidacy := some { c with election, generation := c.generation.next } }
      n.schedule (.meshId election.currentId)
  n.hastenAnnouncement

/-- Hear an announcement from a neighbour. -/
def hearAnnouncement (n : Node σ α) (a : Announcement) : Node σ α :=
  match n.candidacy with
  | none => n
  | some c =>
      match c.election.apply n.id a with
      | (.unchanged, _) => n
      | (_, election) => n.setElection c election

/-- Note that the link to a peer was lost. -/
def losePeer (n : Node σ α) (peer : UInt32) : Node σ α :=
  match n.candidacy with
  | none => n
  | some c =>
      if peer = 0 ∨ peer ≠ c.election.source then n
      else n.setElection c (c.election.revert n.id)

end Node

end SpanningMesh
