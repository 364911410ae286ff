import SpanningMesh.Packet.Header
import SpanningMesh.Tree.Basic

/-!
# Packets

A packet is a header and a payload.  The mesh has seven kinds of its own.  Two
carry the tree behind a node to its neighbour, one as a request that wants an
answer and one as that answer.  Two carry the times of an exchange, to set a
clock or to measure a delay.  Two carry text from application to application.
One announces the mesh id a node holds.  Every other kind belongs to an
application, and its payload stays as it is.

The constructors here give each packet the kind and delivery that go with its
payload.  A `Packet` may pair any header with any payload: `encode` follows the
payload and `decode` follows the header.
-/

namespace SpanningMesh

/-! ## Kinds -/

namespace Kind

/-- An announcement of the id of the mesh. -/
def meshId : UInt16 := 1
/-- A time exchange that measures how long packets travel. -/
def timeDelay : UInt16 := 3
/-- A time exchange that sets the clock. -/
def timeSync : UInt16 := 4
/-- A tree that wants one in return. -/
def treeRequest : UInt16 := 5
/-- A tree that was asked for. -/
def treeReply : UInt16 := 6
/-- Text for all nodes. -/
def broadcast : UInt16 := 8
/-- Text for one node. -/
def single : UInt16 := 9
/-- The first kind that belongs to applications. -/
def firstApplication : UInt16 := 20

end Kind

/-! ## Payloads -/

/-- The stage of a time exchange. -/
inductive Stage where
  | fault
  | invite
  | request
  | reply
deriving Repr, DecidableEq, Inhabited

namespace Stage

/-- The code of a stage on the wire. -/
def code : Stage → Int16
  | fault => -1
  | invite => 0
  | request => 1
  | reply => 2

/-- The stage of a code, or the error that names the code. -/
def ofCode (code : Int16) : Except CodecError Stage :=
  if code = -1 then .ok fault
  else if code = 0 then .ok invite
  else if code = 1 then .ok request
  else if code = 2 then .ok reply
  else .error (.malformed (.unknownStage code.toInt))

@[simp] theorem ofCode_code (s : Stage) : ofCode s.code = .ok s := by cases s <;> rfl

end Stage

/-- The times of one exchange, in milliseconds of the clocks of its two nodes. -/
structure TimeExchange where
  stage : Stage
  t0 : UInt32 := 0
  t1 : UInt32 := 0
  t2 : UInt32 := 0
deriving Repr, DecidableEq, Inhabited

namespace TimeExchange

/-- Ask the peer to start an exchange. -/
def invite : TimeExchange := ⟨.invite, 0, 0, 0⟩

/-- A request that was sent at a time. -/
def request (t0 : UInt32) : TimeExchange := ⟨.request, t0, 0, 0⟩

/-- Answer a request that came at one time and is answered at another. -/
def reply (x : TimeExchange) (t1 t2 : UInt32) : TimeExchange := ⟨.reply, x.t0, t1, t2⟩

end TimeExchange

/-- The announcement of the mesh id that a node holds. -/
structure Announcement where
  id : UInt16
  sender : UInt32
  weight : UInt32
deriving Repr, DecidableEq, Inhabited

/-- What a packet carries. -/
inductive Payload where
  /-- The tree behind the sender, which wants one in return. -/
  | treeRequest (sender : UInt32) (tree : Tree)
  /-- The tree behind the sender, in return for one. -/
  | treeReply (sender : UInt32) (tree : Tree)
  | timeSync (sender : UInt32) (times : TimeExchange)
  | timeDelay (sender : UInt32) (times : TimeExchange)
  | single (sender : UInt32) (text : String)
  | broadcast (sender : UInt32) (text : String)
  | meshId (announcement : Announcement)
  | raw (data : Bytes)
deriving Repr, DecidableEq, Inhabited

namespace Payload

/-- The node a payload says it comes from. -/
def sender? : Payload → Option UInt32
  | treeRequest sender _ | treeReply sender _ => some sender
  | timeSync sender _ | timeDelay sender _ => some sender
  | single sender _ | broadcast sender _ => some sender
  | meshId a => some a.sender
  | raw _ => none

end Payload

/-! ## Packets -/

/-- One message, received or to be sent. -/
structure Packet where
  header : Header
  payload : Payload
deriving Repr, DecidableEq, Inhabited

namespace Packet

/-- A tree for a neighbour, who is to answer with its own. -/
def treeRequest (sender dest : UInt32) (tree : Tree) : Packet :=
  ⟨⟨Kind.treeRequest, .neighbour, dest⟩, .treeRequest sender tree⟩

/-- A tree for a neighbour, in answer. -/
def treeReply (sender dest : UInt32) (tree : Tree) : Packet :=
  ⟨⟨Kind.treeReply, .neighbour, dest⟩, .treeReply sender tree⟩

/-- A step of setting clocks with a neighbour. -/
def timeSync (sender dest : UInt32) (times : TimeExchange) : Packet :=
  ⟨⟨Kind.timeSync, .neighbour, dest⟩, .timeSync sender times⟩

/-- A step of measuring the delay to some node. -/
def timeDelay (sender dest : UInt32) (times : TimeExchange) : Packet :=
  ⟨⟨Kind.timeDelay, .single, dest⟩, .timeDelay sender times⟩

/-- Text from one node to another. -/
def single (sender dest : UInt32) (text : String) : Packet :=
  ⟨⟨Kind.single, .single, dest⟩, .single sender text⟩

/-- Text from a node to all others. -/
def broadcast (sender : UInt32) (text : String) : Packet :=
  ⟨⟨Kind.broadcast, .broadcast, 0⟩, .broadcast sender text⟩

/-- An announcement to a neighbour. -/
def meshId (a : Announcement) : Packet := ⟨⟨Kind.meshId, .neighbour, 0⟩, .meshId a⟩

/-- The node a packet says it comes from. -/
def sender? (p : Packet) : Option UInt32 := p.payload.sender?

end Packet

end SpanningMesh
