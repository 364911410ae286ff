import SpanningMesh.Codec.Encoding
import SpanningMesh.Codec.Cursor

/-!
# Fields

A `Field` is a type with a wire form.  The fields here are the scalars and text.
Numbers are little-endian words, a truth value is one byte, and text is its UTF-8
bytes behind a two-byte length.  Any byte but zero reads as `true`.

`place` writes a value at an offset of a buffer and `fetch` reads one there.
Placing drops whatever the buffer held from the offset on and fills a gap before
it with zeros.
-/

namespace SpanningMesh

/-- A type with a wire form. -/
class Field (α : Type) where
  encode : α → Encoding
  decode : Read α

/-! ## Text -/

namespace Text

/-- The bytes of a text. -/
def toBytes (s : String) : Bytes := s.toByteArray.toList

/-- The text that some bytes spell in UTF-8. -/
def ofBytes? (bs : Bytes) : Option String := String.fromUTF8? bs.toByteArray

/-- The wire form of a text, whose length must fit in two bytes. -/
def encode (s : String) : Encoding :=
  if s.utf8ByteSize < 65536 then .word 2 s.utf8ByteSize ++ .raw (toBytes s)
  else .fail (.tooLarge s.utf8ByteSize)

/-- A text behind its length.  Its bytes must be valid. -/
def decode : Read String := do
  let size ← Read.word 2
  let start ← Read.offset
  let bs ← Read.take size
  match ofBytes? bs with
  | some s => return s
  | none => Read.fail (.malformed (.invalidText start))

end Text

/-! ## The fields of a packet -/

instance : Field UInt8 where
  encode v := .word 1 v.toNat
  decode := do return UInt8.ofNat (← Read.word 1)

instance : Field UInt16 where
  encode v := .word 2 v.toNat
  decode := do return UInt16.ofNat (← Read.word 2)

instance : Field Int16 where
  encode v := .word 2 v.toUInt16.toNat
  decode := do return (UInt16.ofNat (← Read.word 2)).toInt16

instance : Field UInt32 where
  encode v := .word 4 v.toNat
  decode := do return UInt32.ofNat (← Read.word 4)

instance : Field Bool where
  encode v := .word 1 v.toNat
  decode := do return (← Read.word 1) != 0

instance : Field String where
  encode := Text.encode
  decode := Text.decode

/-! ## Fields at an offset -/

namespace Field

variable {α : Type} [Field α]

/-- Write a value at an offset.  The bytes are those of the whole buffer after. -/
def place (v : α) (buf : Bytes) (offset : Nat) : Encoding :=
  .raw (buf.take offset ++ List.replicate (offset - buf.length) 0) ++ encode v

/-- Read a value at an offset, with the offset just after it. -/
def fetch (α : Type) [Field α] (buf : Bytes) (offset : Nat) : Except CodecError (α × Nat) := do
  let c ← Cursor.atOffset buf offset
  match Field.decode (α := α) c with
  | (.ok v, c') => return (v, c'.offset)
  | (.error e, _) => .error e

end Field

end SpanningMesh
