import SpanningMesh.Codec.Field

/-!
# Headers

Every packet begins with a header of eight bytes: its kind, how it travels and
the node it is for.

A packet travels in one of three ways.  A `neighbour` packet is handled by the
node at the other end of the link, a `single` packet goes hop by hop towards its
destination, and a `broadcast` packet is handled everywhere.  The destination
means something for a `single` packet only.
-/

namespace SpanningMesh

/-- How a packet travels through the mesh. -/
inductive Delivery where
  | neighbour
  | single
  | broadcast
deriving Repr, DecidableEq, Inhabited

namespace Delivery

/-- The code of a delivery on the wire. -/
def code : Delivery → UInt16
  | neighbour => 0
  | single => 1
  | broadcast => 2

/-- The delivery of a code. -/
def ofCode? : UInt16 → Option Delivery
  | 0 => some neighbour
  | 1 => some single
  | 2 => some broadcast
  | _ => none

/-- The delivery of a code, or the error that names the code. -/
def ofCode (code : UInt16) : Except CodecError Delivery :=
  match ofCode? code with
  | some d => .ok d
  | none => .error (.unknownDelivery code)

/-- The name under which reports show a delivery. -/
def name : Delivery → String
  | neighbour => "neighbour"
  | single => "single"
  | broadcast => "broadcast"

@[simp] theorem ofCode_code (d : Delivery) : ofCode d.code = .ok d := by cases d <;> rfl

instance : Field Delivery where
  encode d := Field.encode d.code
  decode := do Read.ofExcept (ofCode (← Field.decode))

end Delivery

/-- The fixed part at the front of every packet. -/
structure Header where
  /-- What the packet is, which decides how its payload is read. -/
  kind : UInt16
  delivery : Delivery
  /-- The node it is for, if it is for one. -/
  dest : UInt32
deriving Repr, DecidableEq, Inhabited

namespace Header

/-- The number of bytes of a header. -/
def size : Nat := 8

instance : Field Header where
  encode h := Field.encode h.kind ++ Field.encode h.delivery ++ Field.encode h.dest
  decode := do
    let kind ← Field.decode
    let delivery ← Field.decode
    let dest ← Field.decode
    return ⟨kind, delivery, dest⟩

/-- The header at the front of a packet, whatever follows it. -/
def peek (body : Bytes) : Except CodecError Header := Read.run Field.decode body

end Header

end SpanningMesh
