import SpanningMesh.Packet.Codec

/-!
# Frames

A stream of bytes carries packets as frames.  A frame is the length of a body in
four bytes and then the body.  The length does not count itself.

A `Reassembler` collects what arrives, in chunks of any size, and gives back the
bodies of the frames that are complete.  A length above its limit means that the
stream can no longer be trusted to stay aligned.  The error then repeats on every
further step until the buffer is cleared, since the bytes stay where they are.

`front` and `parse` say on lists of bytes what a frame is.  The bytes that wait lie
in an array, so that a chunk that completes nothing costs its own length and not
that of the frame it belongs to.  `waits` looks at the array alone and agrees with
`front` (`waits_iff`), so every step is the parse of all the bytes (`push_eq`).
-/

namespace SpanningMesh

namespace Frame

/-- The number of bytes of the length in front of a body. -/
def lengthSize : Nat := 4

/-- The largest body that is accepted unless another limit is set. -/
def defaultLimit : Nat := 65536

/-- A body behind its length, which must fit in four bytes. -/
def ofBody (body : Bytes) : Except CodecError Bytes :=
  if body.length < 4294967296 then .ok (Word.toBytes lengthSize body.length ++ body)
  else .error (.tooLarge body.length)

/-- A packet as a frame. -/
def ofPacket (p : Packet) : Except CodecError Bytes := do
  let body ← p.encode
  ofBody body

end Frame

/-- What has arrived of a stream and was not taken off it as frames. -/
structure Reassembler where
  /-- The largest body that is accepted. -/
  limit : Nat := Frame.defaultLimit
  buffer : Array UInt8 := #[]
deriving Repr, DecidableEq, Inhabited

namespace Reassembler

/-- How many bytes wait for more. -/
def buffered (r : Reassembler) : Nat := r.buffer.size

/-- Put bytes behind those that wait. -/
def extend (r : Reassembler) (chunk : Bytes) : Reassembler :=
  { r with buffer := r.buffer ++ chunk }

/-- Forget the bytes that wait. -/
def clear (r : Reassembler) : Reassembler := { r with buffer := #[] }

/-- What lies at the front of a buffer. -/
inductive Front where
  | incomplete
  | tooLarge (size : Nat)
  /-- A whole frame and the bytes behind it. -/
  | frame (body rest : Bytes)
deriving Repr, DecidableEq

/-- Look at the front of a buffer. -/
def front (limit : Nat) (buffer : Bytes) : Front :=
  if holds Frame.lengthSize buffer then
    let size := Word.ofBytes (buffer.take Frame.lengthSize)
    let behind := buffer.drop Frame.lengthSize
    if limit < size then .tooLarge size
    else if holds size behind then .frame (behind.take size) (behind.drop size)
    else .incomplete
  else .incomplete

/-- A frame takes at least the bytes of its length off the buffer. -/
theorem length_rest_of_front {limit : Nat} {buffer body rest : Bytes}
    (h : front limit buffer = .frame body rest) : rest.length < buffer.length := by
  by_cases hl : holds Frame.lengthSize buffer = true
  · have hlen := holds_iff.mp hl
    simp only [Frame.lengthSize] at hlen
    simp only [front, hl, if_true] at h
    by_cases hs : limit < Word.ofBytes (buffer.take Frame.lengthSize)
    · rw [if_pos hs] at h; cases h
    · rw [if_neg hs] at h
      by_cases hb : holds (Word.ofBytes (buffer.take Frame.lengthSize))
          (buffer.drop Frame.lengthSize) = true
      · rw [if_pos hb] at h
        cases h
        simp only [List.length_drop, Frame.lengthSize]
        omega
      · rw [if_neg hb] at h; cases h
  · simp only [front, hl] at h
    cases h

/-- The body of the first frame, if it is there as a whole. -/
def next (r : Reassembler) : Except CodecError (Option Bytes × Reassembler) :=
  match front r.limit r.buffer.toList with
  | .incomplete => .ok (none, r)
  | .tooLarge size => .error (.tooLarge size)
  | .frame body rest => .ok (some body, { r with buffer := rest.toArray })

/-- What came off a buffer: bodies in order, the bytes that remain, and the length that
stopped it. -/
structure Parsed where
  bodies : List Bytes
  /-- The bytes behind the last of them. -/
  rest : Bytes
  /-- The length above the limit at the front of the rest, if there is one. -/
  oversized : Option Nat
deriving Repr, DecidableEq

/-- Take whole frames off a buffer while there are any. -/
def parse (limit : Nat) (buffer : Bytes) : Parsed :=
  match _h : front limit buffer with
  | .incomplete => ⟨[], buffer, none⟩
  | .tooLarge size => ⟨[], buffer, some size⟩
  | .frame body rest =>
      let behind := parse limit rest
      { behind with bodies := body :: behind.bodies }
termination_by buffer.length
decreasing_by exact length_rest_of_front _h

/-- Whether bytes are the beginning of a frame that is not yet whole. -/
def waits (limit : Nat) (buffer : Array UInt8) : Bool :=
  if buffer.size < Frame.lengthSize then true
  else
    let size := Word.ofBytes (buffer.extract 0 Frame.lengthSize).toList
    size ≤ limit && buffer.size - Frame.lengthSize < size

theorem waits_iff {limit : Nat} {buffer : Array UInt8} :
    waits limit buffer = true ↔ front limit buffer.toList = .incomplete := by
  have take : (buffer.extract 0 Frame.lengthSize).toList = buffer.toList.take Frame.lengthSize := by
    simp
  by_cases hl : buffer.size < Frame.lengthSize
  · have : holds Frame.lengthSize buffer.toList = false := by
      rw [Bool.eq_false_iff, ne_eq, holds_iff, Array.length_toList]
      omega
    simp [waits, front, hl, this]
  · have held : holds Frame.lengthSize buffer.toList = true := by
      rw [holds_iff, Array.length_toList]
      omega
    simp only [waits, front, hl, held, if_false, if_true, take]
    generalize Word.ofBytes (buffer.toList.take Frame.lengthSize) = size
    have fits : (decide (size ≤ limit) && decide (buffer.size - Frame.lengthSize < size)) = true ↔
        ¬ limit < size ∧ ¬ size ≤ buffer.size - Frame.lengthSize := by
      simp
    rw [fits]
    have bound : holds size (buffer.toList.drop Frame.lengthSize) = true ↔
        size ≤ buffer.size - Frame.lengthSize := by
      rw [holds_iff, List.length_drop, Array.length_toList]
    by_cases hs : limit < size
    · simp [hs]
    · by_cases hb : size ≤ buffer.size - Frame.lengthSize
      · simp [hs, hb, bound.mpr hb]
      · simp [hs, hb, mt bound.mp hb]

/-- Add what arrived and take off every frame it completes.  On a length above the limit
the frames before it are lost, but they have left the buffer. -/
def push (r : Reassembler) (chunk : Bytes) : Except CodecError (List Bytes) × Reassembler :=
  let r := r.extend chunk
  if waits r.limit r.buffer then (.ok [], r)
  else
    let parsed := parse r.limit r.buffer.toList
    let r := { r with buffer := parsed.rest.toArray }
    match parsed.oversized with
    | none => (.ok parsed.bodies, r)
    | some size => (.error (.tooLarge size), r)

/-- A step is the parse of the bytes that waited and those that arrived. -/
theorem push_eq (r : Reassembler) (chunk : Bytes) :
    r.push chunk =
      let parsed := parse r.limit (r.buffer.toList ++ chunk)
      (match parsed.oversized with
        | none => .ok parsed.bodies
        | some size => .error (.tooLarge size),
      { r with buffer := parsed.rest.toArray }) := by
  have all : (r.extend chunk).buffer.toList = r.buffer.toList ++ chunk := by simp [extend]
  have limit : (r.extend chunk).limit = r.limit := rfl
  by_cases hw : waits r.limit (r.extend chunk).buffer = true
  · have hp : parse r.limit (r.buffer.toList ++ chunk) = ⟨[], r.buffer.toList ++ chunk, none⟩ := by
      have hf := waits_iff.mp hw
      rw [all] at hf
      rw [parse]
      split <;> simp_all
    have kept : r.extend chunk = { r with buffer := (r.buffer.toList ++ chunk).toArray } := by
      rw [← all]
      rfl
    simp only [push, limit, hw, if_true, hp]
    rw [kept]
  · simp only [push, limit, hw, all]
    cases (parse r.limit (r.buffer.toList ++ chunk)).oversized <;> rfl

end Reassembler

end SpanningMesh
