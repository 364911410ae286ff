import SpanningMesh.Link.Transport

/-!
# Pipes

A `Pipe` joins two ends in memory.  Each direction holds a bounded number of
bytes until the other end reads them.  Closing either end closes both
directions for writing, and what was written before can still be read.
-/

namespace SpanningMesh

/-- Two directions of bytes between two ends. -/
structure Pipe where
  /-- How many bytes each direction holds at most. -/
  capacity : Nat
  /-- What the near end wrote and the far end did not read. -/
  toFar : Bytes := []
  /-- What the far end wrote and the near end did not read. -/
  toNear : Bytes := []
  closed : Bool := false
deriving Repr, DecidableEq, Inhabited

/-- One end of a pipe. -/
inductive PipeEnd where
  | near
  | far
deriving Repr, DecidableEq, Inhabited

namespace Pipe

/-- What an end wrote and the other did not read. -/
def outgoing (p : Pipe) : PipeEnd → Bytes
  | .near => p.toFar
  | .far => p.toNear

/-- Put other bytes on the way from an end. -/
def setOutgoing (p : Pipe) : PipeEnd → Bytes → Pipe
  | .near, bs => { p with toFar := bs }
  | .far, bs => { p with toNear := bs }

/-- How many bytes an end may write. -/
def space (p : Pipe) (e : PipeEnd) : Nat :=
  if p.closed then 0 else p.capacity - (p.outgoing e).length

/-- Write at one end as many bytes as there is room for. -/
def write (p : Pipe) (e : PipeEnd) (bs : Bytes) : Nat × Pipe :=
  let taken := bs.take (p.space e)
  (taken.length, p.setOutgoing e (p.outgoing e ++ taken))

/-- Read at one end everything the other wrote. -/
def read (p : Pipe) : PipeEnd → Bytes × Pipe
  | .near => (p.toNear, { p with toNear := [] })
  | .far => (p.toFar, { p with toFar := [] })

/-- Close both directions. -/
def close (p : Pipe) : Pipe := { p with closed := true }

/-- One end of a pipe as a transport. -/
def transport (e : PipeEnd) : Transport Pipe where
  write bs p := p.write e bs
  space p := p.space e
  close := close
  isConnected p := !p.closed

end Pipe

end SpanningMesh
