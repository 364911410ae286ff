import SpanningMesh.Link.Pipe
import SpanningMesh.Node.Receiving

/-!
# Hosts whose connections are pipes

In a simulated network the connections are pipes in memory.  The pipes are numbered
and belong to the network as a whole.  A host sees all of them and has an `Outlet` for
every link of its node, which says which end of which pipe lies under the link.

An outlet may be faulty and hold back the last bytes of every write.
-/

namespace SpanningMesh

/-- The end of a pipe that lies under a link. -/
structure Outlet where
  link : LinkId
  pipe : Nat
  side : PipeEnd
  /-- How many bytes of every write are held back. -/
  withheld : Nat := 0
deriving Repr, DecidableEq, Inhabited

/-- What the host of a node keeps in a network of pipes. -/
structure Outlets (ω : Type) where
  pipes : List Pipe := []
  outlets : List Outlet := []
  /-- How much memory is free. -/
  headroom : Nat := unlimited
  application : ω

namespace Outlets

variable {ω : Type}

/-- The outlet of a link. -/
def outlet? (s : Outlets ω) (link : LinkId) : Option Outlet := s.outlets.find? (·.link = link)

/-- The pipe of an outlet.  An outlet without a pipe is as good as closed. -/
def pipe (s : Outlets ω) (p : Outlet) : Pipe :=
  (s.pipes[p.pipe]?).getD { capacity := 0, closed := true }

/-- Put another pipe in the place of that of an outlet. -/
def setPipe (s : Outlets ω) (p : Outlet) (pipe : Pipe) : Outlets ω :=
  { s with pipes := s.pipes.set p.pipe pipe }

/-- Add a pipe of some capacity, and give it a number. -/
def addPipe (s : Outlets ω) (capacity : Nat) : Nat × Outlets ω :=
  (s.pipes.length, { s with pipes := s.pipes ++ [{ capacity }] })

/-- The connection of an outlet, which holds back what the outlet withholds. -/
def connection (p : Outlet) : Transport Pipe := (Pipe.transport p.side).withhold p.withheld

instance : Host (Outlets ω) where
  transport link := {
    write := fun bs s =>
      match s.outlet? link with
      | none => (0, s)
      | some p =>
          let (taken, pipe) := (connection p).write bs (s.pipe p)
          (taken, s.setPipe p pipe)
    space := fun s => ((s.outlet? link).map fun p => (connection p).space (s.pipe p)).getD 0
    close := fun s =>
      match s.outlet? link with
      | none => s
      | some p => s.setPipe p (s.pipe p).close
    isConnected := fun s =>
      ((s.outlet? link).map fun p => (connection p).isConnected (s.pipe p)).getD false }
  headroom := headroom

end Outlets

namespace Node

variable {ω α : Type}

/-- Open a link over one end of a pipe. -/
def plug (n : Node (Outlets ω) α) (station : Bool) (pipe : Nat) (side : PipeEnd)
    (withheld : Nat) : LinkId × Node (Outlets ω) α :=
  let (link, n) := n.addLink station
  (link, { n with host.outlets := n.host.outlets ++ [{ link, pipe, side, withheld }] })

end Node

end SpanningMesh
