/-!
# Stability

A node grows more stable with every tree its peers announce and loses half of
its stability with every link it loses.  The measure stays between 0 and
`maxStability`.
-/

namespace SpanningMesh

/-- The highest stability. -/
def maxStability : Nat := 1000

/-- What one announced tree adds. -/
def stabilityStep : Nat := 25

/-- How settled the surroundings of a node are. -/
structure Stability where
  value : Nat := 0
  le_max : value ≤ maxStability := by decide
deriving Repr, DecidableEq

namespace Stability

/-- The stability of a node that heard nothing yet. -/
def zero : Stability := {}

instance : Inhabited Stability := ⟨zero⟩

/-- One step up, to the highest stability at most. -/
def bump (s : Stability) : Stability :=
  ⟨min (s.value + stabilityStep) maxStability, Nat.min_le_right ..⟩

/-- Half of the stability, rounded down. -/
def halve (s : Stability) : Stability :=
  ⟨s.value / 2, Nat.le_trans (Nat.div_le_self ..) s.le_max⟩

end Stability

end SpanningMesh
