/-!
# Little-endian words

Every number on the wire is a word of a fixed number of bytes, least significant
byte first.  `Word.toBytes` writes the low bytes of a natural number and
`Word.ofBytes` reads a run of bytes back as a number.

`ofBytes_toBytes` says that writing keeps a number up to the width of the word,
and `toBytes_ofBytes` that a run of bytes is the only one its number has at that
width.
-/

namespace SpanningMesh

/-- A run of bytes. -/
abbrev Bytes := List UInt8

namespace Word

/-- The lowest `width` bytes of a number, least significant first. -/
def toBytes : (width : Nat) → Nat → Bytes
  | 0, _ => []
  | width + 1, n => UInt8.ofNat n :: toBytes width (n / 256)

/-- The number a run of bytes stands for. -/
def ofBytes : Bytes → Nat
  | [] => 0
  | b :: bs => b.toNat + 256 * ofBytes bs

/-- How many numbers fit in a word. -/
def capacity : (width : Nat) → Nat
  | 0 => 1
  | width + 1 => 256 * capacity width

@[simp] theorem length_toBytes (width n : Nat) : (toBytes width n).length = width := by
  induction width generalizing n with
  | zero => rfl
  | succ width ih => simp [toBytes, ih]

/-- Reading a written word gives the number back modulo the width of the word. -/
theorem ofBytes_toBytes (width n : Nat) : ofBytes (toBytes width n) = n % capacity width := by
  induction width generalizing n with
  | zero => simp [toBytes, ofBytes, capacity, Nat.mod_one]
  | succ width ih =>
      rw [toBytes, ofBytes, ih, capacity, Nat.mod_mul]
      simp

/-- A number that fits in the width is read back as it was. -/
theorem ofBytes_toBytes_of_lt {width n : Nat} (h : n < capacity width) :
    ofBytes (toBytes width n) = n := by
  rw [ofBytes_toBytes, Nat.mod_eq_of_lt h]

theorem ofBytes_lt (bs : Bytes) : ofBytes bs < capacity bs.length := by
  induction bs with
  | nil => simp [ofBytes, capacity]
  | cons b bs ih =>
      have hb := b.toNat_lt
      simp only [ofBytes, List.length_cons, capacity]
      omega

/-- Writing the number of a run of bytes at the width of the run gives the run. -/
theorem toBytes_ofBytes (bs : Bytes) : toBytes bs.length (ofBytes bs) = bs := by
  induction bs with
  | nil => rfl
  | cons b bs ih =>
      have hb := b.toNat_lt
      have hdiv : (b.toNat + 256 * ofBytes bs) / 256 = ofBytes bs := by omega
      have hlow : UInt8.ofNat (b.toNat + 256 * ofBytes bs) = b := by
        apply UInt8.toNat_inj.mp
        rw [UInt8.toNat_ofNat']
        omega
      simp [ofBytes, toBytes, hdiv, hlow, ih]

end Word

end SpanningMesh
