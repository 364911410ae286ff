import SpanningMesh.Node.Receiving

/-!
# Running a node

`execute` is one pass over the agenda of a node.  All work of the protocol happens
there, in the order in which the tasks were added.  Everything else that a host or
an application asks of a node only changes its state and arms tasks.
-/

namespace SpanningMesh

open Application (Program)

namespace Node

variable {σ α : Type}

/-- The agenda of a node. -/
def agendaOf : Focus (Node σ α) (Agenda (Action α)) := ⟨Node.agenda, fun a n => { n with agenda := a }⟩

variable [Host σ]

/-- Announce the mesh id to all neighbours. -/
def announce (n : Node σ α) : Node σ α :=
  match n.candidacy with
  | none => n
  | some c => (n.sendPacket (.meshId (c.election.announce n.id)) false).2

/-- Do what a task says. -/
def perform (p : Program σ α) : Action α → Node σ α → Node σ α
  | .exchange id, n => n.exchange id
  | .timeout id, n => (n.close id).2
  | .read id, n => n.read p id
  | .send id, n => n.flush id
  | .setClock id, n => n.startClockSync id
  | .announce, n => n.announce
  | .tell e, n => n.tell p e
  | .application a, n => p.task a n

/-- Do everything that is due at a time.  The number is how many tasks ran. -/
def execute (p : Program σ α) (now : Nat) (n : Node σ α) : Nat × Node σ α :=
  let (n, count) := Agenda.execute agendaOf (perform p) now { n with now }
  (count, n)

/-- Close all links and forget all handlers and tasks. -/
def stop (n : Node σ α) : Node σ α :=
  let n := n.linkIds.foldl (fun n id => (n.close id).2) n
  { n with
    handlers := n.handlers.clear
    agenda := n.agenda.clear
    candidacy := n.candidacy.map fun c => { c with task := none } }

end Node

end SpanningMesh
