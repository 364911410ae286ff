import SpanningMesh.Network.Basic

/-!
# Running a network

In one step the time goes on by a tick, every node does what is due, and then every
wire brings the bytes that were written to its other end.  A wire that was closed by
one of its ends brings what is left and goes down.
-/

namespace SpanningMesh

open Application (Program)

namespace Network

variable {ω α : Type}

/-- Bring what one end of a wire wrote to the link of a node. -/
def bring (net : Network ω α) (w : Wire) (reader : PipeEnd) (i : Nat) (link : LinkId) :
    Network ω α :=
  let (bytes, pipe) := (net.pipeOf w).read reader
  let net := net.setPipe w pipe
  if bytes.isEmpty then net else net.modify i (·.arrive link bytes)

/-- Bring what was written on a wire to both of its ends, that of the access point first. -/
def deliver (net : Network ω α) (i : Nat) : Network ω α :=
  match net.wires[i]? with
  | none => net
  | some w =>
      if w.up then
        let net := net.bring w .far w.accessPoint w.accessLink
        let net := net.bring w .near w.station w.stationLink
        if (net.pipeOf w).closed then net.takeDown i w else net
      else net

/-- Let every node do what is due. -/
def executeAll (net : Network ω α) (p : Program (Outlets ω) α) : Network ω α :=
  (List.range net.nodes.length).foldl
    (fun net i => net.modify i fun n => (n.execute p net.now).2) net

/-- Bring what was written on all wires. -/
def deliverAll (net : Network ω α) : Network ω α :=
  (List.range net.wires.length).foldl deliver net

/-- One step. -/
def step (p : Program (Outlets ω) α) (net : Network ω α) : Network ω α :=
  ({ net with now := Moment.after net.now net.tick }.executeAll p).deliverAll

/-- How many steps a span of time takes.  A span that leads beyond the last moment takes
none. -/
def stepsIn (net : Network ω α) (span : Nat) : Nat :=
  (Moment.after net.now span - net.now + net.tick - 1) / net.tick

/-- As many steps as a span of time takes. -/
def runFor (p : Program (Outlets ω) α) (span : Nat) (net : Network ω α) : Network ω α :=
  Nat.repeat (step p) (net.stepsIn span) net

end Network

end SpanningMesh
