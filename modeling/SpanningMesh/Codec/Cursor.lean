import SpanningMesh.Codec.Word
import SpanningMesh.Codec.Error

/-!
# Reading a buffer

A `Cursor` is a position in a received buffer: the offset that was reached and
the bytes that lie ahead.  A `Read` takes a value off the front and moves the
cursor on.  It also says where the cursor stands after a failure, since the
fields before the one that failed have been consumed.

`Read.take` is the only step that looks at the bytes, and it checks the bound
first, so no read leaves the buffer.  The check `holds` stops as soon as it
has seen enough, so that its cost is the length that was asked for and not what
the buffer holds.
-/

namespace SpanningMesh

/-! ## The bound -/

/-- Whether a list has at least `n` elements. -/
def holds {α : Type} : Nat → List α → Bool
  | 0, _ => true
  | _ + 1, [] => false
  | n + 1, _ :: xs => holds n xs

theorem holds_iff {α : Type} {n : Nat} {xs : List α} : holds n xs = true ↔ n ≤ xs.length := by
  induction n generalizing xs with
  | zero => simp [holds]
  | succ n ih => cases xs <;> simp [holds, ih]

/-! ## Cursors -/

/-- A position in a buffer. -/
structure Cursor where
  /-- How many bytes lie behind. -/
  offset : Nat
  rest : Bytes
deriving Repr, DecidableEq

namespace Cursor

/-- A cursor in front of a buffer. -/
def start (buf : Bytes) : Cursor := ⟨0, buf⟩

/-- The position at an offset, which must not lie past the end. -/
def atOffset (buf : Bytes) (offset : Nat) : Except CodecError Cursor :=
  if holds offset buf then .ok ⟨offset, buf.drop offset⟩
  else .error (.truncated offset 0 0)

/-- How many bytes are left. -/
def remaining (c : Cursor) : Nat := c.rest.length

/-- Whether no byte is left. -/
def atEnd (c : Cursor) : Bool := c.rest.isEmpty

end Cursor

/-! ## Reads -/

/-- A step that takes a value off a cursor and says where the cursor stands after. -/
def Read (α : Type) : Type := Cursor → Except CodecError α × Cursor

namespace Read

variable {α β : Type}

/-- Read nothing and give a value. -/
@[always_inline, inline] def pure (a : α) : Read α := fun c => (.ok a, c)

/-- Read one value and then, with it, another. -/
@[always_inline, inline] def bind (r : Read α) (f : α → Read β) : Read β := fun c =>
  match r c with
  | (.ok a, c') => f a c'
  | (.error e, c') => (.error e, c')

instance : Monad Read where
  pure := Read.pure
  bind := Read.bind

/-- Stop with an error where the cursor stands. -/
def fail (e : CodecError) : Read α := fun c => (.error e, c)

/-- Where the cursor stands. -/
def offset : Read Nat := fun c => (.ok c.offset, c)

/-- The next bytes, which must be as many as are wanted. -/
def take (n : Nat) : Read Bytes := fun c =>
  if holds n c.rest then (.ok (c.rest.take n), ⟨c.offset + n, c.rest.drop n⟩)
  else (.error (.truncated c.offset n c.remaining), c)

/-- Fail unless `n` bytes lie ahead, and consume none. -/
def require (n : Nat) : Read Unit := fun c =>
  if holds n c.rest then (.ok (), c) else (.error (.truncated c.offset n c.remaining), c)

/-- All bytes that are left. -/
def rest : Read Bytes := fun c => (.ok c.rest, ⟨c.offset + c.rest.length, []⟩)

/-- Fail unless the end was reached. -/
def finish : Read Unit := fun c =>
  if c.atEnd then (.ok (), c) else (.error (.malformed (.trailing c.remaining)), c)

/-- A little-endian word of some width. -/
def word (width : Nat) : Read Nat := do
  let bs ← take width
  return Word.ofBytes bs

/-- A value of an `Except`, or its error. -/
def ofExcept : Except CodecError α → Read α
  | .ok a => pure a
  | .error e => fail e

/-- The same read `count` times over, put in front of the values read before, newest
first. -/
def repeatOnto (r : Read α) : (count : Nat) → List α → Read (List α)
  | 0, acc => Read.pure acc
  | count + 1, acc => Read.bind r fun a => repeatOnto r count (a :: acc)

/-- The same read `count` times over, values in order. -/
def replicate (count : Nat) (r : Read α) : Read (List α) := do
  let acc ← repeatOnto r count []
  return acc.reverse

/-- The value read from the beginning of a buffer. -/
def run (r : Read α) (buf : Bytes) : Except CodecError α := (r (.start buf)).1

@[simp] theorem pure_apply (a : α) (c : Cursor) : (Pure.pure a : Read α) c = (.ok a, c) := rfl

@[simp] theorem bind_apply (r : Read α) (f : α → Read β) (c : Cursor) :
    (r >>= f) c = match r c with
      | (.ok a, c') => f a c'
      | (.error e, c') => (.error e, c') := rfl

/-- A run of bytes that lies ahead is taken whole. -/
theorem take_append (bs rest : Bytes) (offset : Nat) :
    take bs.length ⟨offset, bs ++ rest⟩ = (.ok bs, ⟨offset + bs.length, rest⟩) := by
  have h : holds bs.length (bs ++ rest) = true := holds_iff.mpr (by simp)
  simp [take, h]

end Read

end SpanningMesh
