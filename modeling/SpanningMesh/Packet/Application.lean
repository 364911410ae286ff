import SpanningMesh.Packet.Codec

/-!
# Packets of applications

An application sends its own values by giving them a kind, a delivery and a wire
form.  The value travels as a raw payload.  It is read back from a packet of the
same kind whose payload is raw, and must use up every byte of it.
-/

namespace SpanningMesh

/-- A type of values that travel as packets of their own kind. -/
class Application (α : Type) extends Field α where
  kind : UInt16
  delivery : Delivery

namespace Packet

/-- The packet of a value.  A broadcast packet is for no node in particular. -/
def ofApplication {α : Type} [Application α] (v : α) (dest : UInt32) : Except CodecError Packet := do
  let data ← (Field.encode v).result
  let delivery := Application.delivery α
  return ⟨⟨Application.kind α, delivery, if delivery = .broadcast then 0 else dest⟩, .raw data⟩

/-- The value of an application that a packet carries. -/
def toApplication (α : Type) [Application α] (p : Packet) : Except CodecError α :=
  if p.header.kind = Application.kind α then
    match p.payload with
    | .raw data => Read.run (do let v ← Field.decode (α := α); Read.finish; return v) data
    | _ => .error (.malformed .notRaw)
  else .error (.malformed (.wrongKind p.header.kind (Application.kind α)))

end Packet

end SpanningMesh
