import SpanningMesh.Packet.Basic
import SpanningMesh.Tree.Codec

/-!
# The wire form of a packet

The header comes first and then the payload, field after field.  Writing follows
the payload, reading follows the kind in the header and must use up every byte.
A payload of an unknown kind is the rest of the bytes.

A tree announcement is read only if its sender is the node at the top of its
tree.
-/

namespace SpanningMesh

namespace Stage

instance : Field Stage where
  encode s := Field.encode s.code
  decode := do Read.ofExcept (ofCode (← Field.decode))

end Stage

instance : Field TimeExchange where
  encode x := Field.encode x.stage ++ Field.encode x.t0 ++ Field.encode x.t1 ++ Field.encode x.t2
  decode := do
    let stage ← Field.decode
    let t0 ← Field.decode
    let t1 ← Field.decode
    let t2 ← Field.decode
    return ⟨stage, t0, t1, t2⟩

instance : Field Announcement where
  encode a := Field.encode a.id ++ Field.encode a.sender ++ Field.encode a.weight
  decode := do
    let id ← Field.decode
    let sender ← Field.decode
    let weight ← Field.decode
    return ⟨id, sender, weight⟩

namespace Payload

/-- A payload as bytes. -/
def encode : Payload → Encoding
  | treeRequest sender tree | treeReply sender tree => Field.encode sender ++ Field.encode tree
  | timeSync sender times | timeDelay sender times => Field.encode sender ++ Field.encode times
  | single sender text | broadcast sender text => Field.encode sender ++ Field.encode text
  | meshId a => Field.encode a
  | raw data => .raw data

/-- A sender and the tree whose top it is. -/
def decodeTree : Read (UInt32 × Tree) := do
  let sender ← Field.decode (α := UInt32)
  let tree ← Field.decode (α := Tree)
  if tree.id = sender then return (sender, tree)
  else Read.fail (.malformed (.senderMismatch sender tree.id))

/-- A sender and the times it sent. -/
def decodeTimes : Read (UInt32 × TimeExchange) := do
  let sender ← Field.decode (α := UInt32)
  let times ← Field.decode (α := TimeExchange)
  return (sender, times)

/-- A sender and the text it sent. -/
def decodeText : Read (UInt32 × String) := do
  let sender ← Field.decode (α := UInt32)
  let text ← Field.decode (α := String)
  return (sender, text)

/-- The payload of a packet of some kind. -/
def decode (kind : UInt16) : Read Payload :=
  if kind = Kind.treeRequest then do
    let (sender, tree) ← decodeTree
    return treeRequest sender tree
  else if kind = Kind.treeReply then do
    let (sender, tree) ← decodeTree
    return treeReply sender tree
  else if kind = Kind.timeSync then do
    let (sender, times) ← decodeTimes
    return timeSync sender times
  else if kind = Kind.timeDelay then do
    let (sender, times) ← decodeTimes
    return timeDelay sender times
  else if kind = Kind.single then do
    let (sender, text) ← decodeText
    return single sender text
  else if kind = Kind.broadcast then do
    let (sender, text) ← decodeText
    return broadcast sender text
  else if kind = Kind.meshId then do
    let a ← Field.decode (α := Announcement)
    return meshId a
  else do
    let data ← Read.rest
    return raw data

end Payload

namespace Packet

/-- A packet as bytes, or the error of the first part that cannot be written. -/
def encode (p : Packet) : Except CodecError Bytes :=
  (Field.encode p.header ++ p.payload.encode).result

/-- The packet at the cursor, which must end where the buffer does. -/
def read : Read Packet := do
  let header ← Field.decode (α := Header)
  let payload ← Payload.decode header.kind
  Read.finish
  return ⟨header, payload⟩

/-- The packet that some bytes are. -/
def decode (body : Bytes) : Except CodecError Packet := Read.run read body

end Packet

end SpanningMesh
