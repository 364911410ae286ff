/-!
# Scanning text

A `Scan` takes a value off the front of a list of characters or fails.  The
steps here are those that every notation needs: one character, a fixed word, and
items with commas between them up to a closing bracket.
-/

namespace SpanningMesh

/-- A step that takes a value off the front of a text. -/
abbrev Scan := StateT (List Char) Option

namespace Scan

/-- The next character, which stays where it is. -/
def peek : Scan Char := fun cs => cs.head?.map (·, cs)

/-- The next character. -/
def next : Scan Char
  | [] => none
  | c :: cs => some (c, cs)

/-- One character, which must be the next. -/
def char (c : Char) : Scan Unit
  | [] => none
  | d :: cs => if c = d then some ((), cs) else none

/-- A fixed word, which must be next. -/
def word : List Char → Scan Unit
  | [] => pure ()
  | c :: cs => do char c; word cs

/-- The longest run of characters of a class. -/
def run (p : Char → Bool) : Scan (List Char) := fun cs => some (cs.takeWhile p, cs.dropWhile p)

/-- Skip the longest run of characters of a class. -/
def skip (p : Char → Bool) : Scan Unit := fun cs => some ((), cs.dropWhile p)

/-- All that is left, which stays where it is. -/
def rest : Scan (List Char) := get

/-- Whether a scan takes all of a text, and the value. -/
def all {α : Type} (s : Scan α) (cs : List Char) : Option α :=
  match s cs with
  | some (a, []) => some a
  | _ => none

/-- The number that decimal digits give. -/
def decimal (digits : List Char) : Nat :=
  digits.foldl (fun n c => 10 * n + (c.toNat - '0'.toNat)) 0

/-- The value of a hexadecimal digit. -/
def hexDigit? (c : Char) : Option Nat :=
  if c.isDigit then some (c.toNat - '0'.toNat)
  else if 'a' ≤ c ∧ c ≤ 'f' then some (c.toNat - 'a'.toNat + 10)
  else if 'A' ≤ c ∧ c ≤ 'F' then some (c.toNat - 'A'.toNat + 10)
  else none

/-- The number that hexadecimal digits give. -/
def hex? (digits : List Char) : Option Nat :=
  digits.foldlM (fun n c => (hexDigit? c).map (16 * n + ·)) 0

end Scan

end SpanningMesh
