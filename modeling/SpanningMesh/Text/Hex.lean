import SpanningMesh.Codec.Word
import SpanningMesh.Text.Scan

/-!
# Bytes in hexadecimal

Two lower-case digits for each byte.  The reader takes digits of either case, stops
where a pair is incomplete or holds something else, and gives what it has.
-/

namespace SpanningMesh

namespace Hex

/-- The digit of a value below 16. -/
def digit (n : Nat) : Char := Nat.digitChar n

/-- Bytes with two digits each. -/
def ofBytes (bs : Bytes) : String :=
  bs.foldl (fun s b => (s.push (digit (b.toNat / 16))).push (digit (b.toNat % 16))) ""

/-- Read pairs of digits behind the bytes that were read, of which the last comes first. -/
def readPairs (done : Bytes) : List Char → Bytes
  | a :: b :: cs =>
      match Scan.hex? [a, b] with
      | some n => readPairs (UInt8.ofNat n :: done) cs
      | none => done.reverse
  | _ => done.reverse

/-- The bytes of a text in which each has two digits. -/
def toBytes (text : String) : Bytes := readPairs [] text.toList

example : toBytes "00ff7A" = [0, 255, 122] := by decide

end Hex

end SpanningMesh
