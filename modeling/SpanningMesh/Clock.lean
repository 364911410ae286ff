import SpanningMesh.Packet.Basic

/-!
# The arithmetic of time exchanges

An exchange has four times, each by the clock of the node that took it.  The
request leaves at `t0` and comes at `t1`, the reply leaves at `t2` and comes at
`t3`.  Clocks are words that run around, and a difference of two times is the
shortest way between them.

The offset brings the clock of the requester onto that of the responder, and the
delay is the time of one way.  Both are halves rounded toward zero.
-/

namespace SpanningMesh

/-- The shortest way from one time to another. -/
def timeBetween (start stop : UInt32) : Int := (stop - start).toInt32.toInt

namespace TimeExchange

/-- What the requester has to add to its clock, when the reply comes at a time. -/
def offset (x : TimeExchange) (t3 : UInt32) : Int32 :=
  .ofInt ((timeBetween x.t0 x.t1 + timeBetween t3 x.t2).tdiv 2)

/-- How long one way took, when the reply comes at a time. -/
def delay (x : TimeExchange) (t3 : UInt32) : Int32 :=
  .ofInt ((timeBetween x.t0 t3 - timeBetween x.t1 x.t2).tdiv 2)

end TimeExchange

end SpanningMesh
