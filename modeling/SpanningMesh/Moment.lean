/-!
# Moments

A moment is what the clock of a host shows: a count of milliseconds in a word of 64
bits.  Moments are natural numbers below `Moment.count`.  A delay that leads beyond
the last moment starts over at 0, which `after` accounts for.  Up to there it is a
plain sum (`after_of_lt`), and it is never more than one (`after_le`).
-/

namespace SpanningMesh

namespace Moment

/-- How many moments there are. -/
def count : Nat := 18446744073709551616

/-- The moment that is a delay after another. -/
def after (now delay : Nat) : Nat := (now + delay) % count

theorem after_of_lt {now delay : Nat} (h : now + delay < count) : after now delay = now + delay :=
  Nat.mod_eq_of_lt h

theorem after_le (now delay : Nat) : after now delay ≤ now + delay := Nat.mod_le ..

/-- From the last moment on the clock starts over. -/
example : after 18446744073709551615 1 = 0 := by decide

end Moment

end SpanningMesh
