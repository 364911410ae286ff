/-!
# Blanks around text

The characters with the Unicode property of white space, and text without those at
its two ends.
-/

namespace SpanningMesh

namespace Blank

/-- The first and the last number of every range of white space. -/
def ranges : List (Nat × Nat) := [(0x09, 0x0D), (0x20, 0x20), (0x85, 0x85), (0xA0, 0xA0),
  (0x1680, 0x1680), (0x2000, 0x200A), (0x2028, 0x2029), (0x202F, 0x202F), (0x205F, 0x205F),
  (0x3000, 0x3000)]

/-- Whether a character is white space. -/
def contains (c : Char) : Bool :=
  ranges.any fun (first, last) => first ≤ c.toNat && c.toNat ≤ last

/-- A text without the blanks at its two ends. -/
def trim (cs : List Char) : List Char :=
  ((cs.dropWhile contains).reverse.dropWhile contains).reverse

end Blank

end SpanningMesh
