import SpanningMesh.Network.Outlets
import SpanningMesh.Node.Run

/-!
# Simulated networks

A `Network` is a number of nodes, the pipes between them, and one time for all.  A
`Wire` is a connection that a station opened to an access point.

Whatever happens to a node happens through `act`, which lends the node the pipes of
the network and takes them back.
-/

namespace SpanningMesh

open Application (Program)

/-- A connection between two nodes. -/
structure Wire where
  station : Nat
  accessPoint : Nat
  stationLink : LinkId
  accessLink : LinkId
  /-- The number of the pipe, whose near end is that of the station. -/
  pipe : Nat
  up : Bool := true
deriving Repr, DecidableEq, Inhabited

/-- Nodes and what joins them. -/
structure Network (ω α : Type) where
  nodes : List (Node (Outlets ω) α) := []
  pipes : List Pipe := []
  wires : List Wire := []
  settings : Settings := {}
  pipeCapacity : Nat := 4096
  now : Nat := 0
  tick : Nat := 10

namespace Network

variable {ω α : Type}

/-- Let something happen to the node at a place.  Nothing happens where there is none. -/
def act {β : Type} (net : Network ω α) (i : Nat)
    (f : Node (Outlets ω) α → β × Node (Outlets ω) α) : Option β × Network ω α :=
  match net.nodes[i]? with
  | none => (none, net)
  | some node =>
      let (b, node) := f { node with host.pipes := net.pipes }
      (some b, { net with nodes := net.nodes.set i node, pipes := node.host.pipes })

/-- Change a node. -/
def modify (net : Network ω α) (i : Nat) (f : Node (Outlets ω) α → Node (Outlets ω) α) :
    Network ω α :=
  (net.act i fun n => ((), f n)).2

/-- Add a node that takes part in the election, and give it a place. -/
def addNode (net : Network ω α) (p : Program (Outlets ω) α) (id : UInt32) (root : Bool)
    (meshId : UInt16) (application : ω) : Nat × Network ω α :=
  let node : Node (Outlets ω) α := Node.create id net.settings { application }
  let node := (Node.execute p net.now { node with root }).2
  (net.nodes.length, { net with nodes := net.nodes ++ [node.joinElection meshId] })

/-- Connect two nodes.  The answer gives the two links and the number of the wire. -/
def connect (net : Network ω α) (station accessPoint : Nat) :
    Option (LinkId × LinkId) × Network ω α :=
  let pipe := net.pipes.length
  let added : Pipe := { capacity := net.pipeCapacity }
  let net := { net with pipes := net.pipes ++ [added] }
  let (a, net) := net.act station fun n => n.plug true pipe .near 0
  let (b, net) := net.act accessPoint fun n => n.plug false pipe .far 0
  match a, b with
  | some stationLink, some accessLink =>
      let wire : Wire := { station, accessPoint, stationLink, accessLink, pipe }
      (some (stationLink, accessLink), { net with wires := net.wires ++ [wire] })
  | _, _ => (none, net)

/-- The pipe of a wire. -/
def pipeOf (net : Network ω α) (w : Wire) : Pipe := (net.pipes[w.pipe]?).getD { capacity := 0 }

/-- Put another pipe in the place of that of a wire. -/
def setPipe (net : Network ω α) (w : Wire) (pipe : Pipe) : Network ω α :=
  { net with pipes := net.pipes.set w.pipe pipe }

/-- Take a wire down, and tell both of its ends. -/
def takeDown (net : Network ω α) (i : Nat) (w : Wire) : Network ω α :=
  let net := { net with wires := net.wires.set i { w with up := false } }
  let net := net.modify w.station (·.disconnect w.stationLink)
  net.modify w.accessPoint (·.disconnect w.accessLink)

/-- Close the pipe of a wire and take the wire down, if it is up. -/
def disconnect (net : Network ω α) (i : Nat) : Network ω α :=
  match net.wires[i]? with
  | none => net
  | some w => if w.up then (net.setPipe w (net.pipeOf w).close).takeDown i w else net

/-- Whether a wire is up. -/
def isUp (net : Network ω α) (i : Nat) : Option Bool := (net.wires[i]?).map Wire.up

end Network

end SpanningMesh
