/-!
# Sequence ids

A sequence id counts changes and may run around the end of its 32 bits.  Of two
ids the one that lies less than half of the circle ahead is the newer.  The id 0
stands for no id yet.  It is older than every other and is left out in counting.
-/

namespace SpanningMesh

/-- A counter of changes, 0 before the first. -/
structure SequenceId where
  value : UInt32 := 0
deriving Repr, DecidableEq, Inhabited

namespace SequenceId

/-- Whether an id was never counted. -/
def isUnset (s : SequenceId) : Bool := s.value == 0

/-- Half of the circle of ids. -/
def halfCircle : Nat := 0x80000000

/-- Whether one id is older than another.  Ids half of the circle apart are each older
than the other unless one of them is 0. -/
def isOlderThan (s t : SequenceId) : Bool :=
  if s = t then false
  else if s.value = 0 then true
  else if t.value = 0 then false
  else halfCircle ≤ (s.value - t.value).toNat

/-- The newer of two ids, and whether it is the second. -/
def update (s t : SequenceId) : Bool × SequenceId :=
  if s.isOlderThan t then (true, t) else (false, s)

/-- The next id, which is not 0. -/
def next (s : SequenceId) : SequenceId :=
  if s.value + 1 = 0 then ⟨1⟩ else ⟨s.value + 1⟩

end SequenceId

end SpanningMesh
