import SpanningMesh.Link.Transport

/-!
# What waits to be sent

An `Outbox` holds the frames that a link has still to send, in two lanes.  Frames
with priority go first, but a frame that is partly sent is finished before any
other.  A frame is taken in only if the host has memory to spare, and a regular
one only while its lane is not full.

`drain` writes as long as the transport has room.  A transport that takes a part
of what it had room for is broken, and the frame stays whole in the outbox.  Each
round of `drain` either stops or sends at least one byte, so it ends.
-/

namespace SpanningMesh

/-- Why a frame was not taken in or not sent. -/
inductive OutboxError where
  | full (pending : Nat)
  | memory (headroom needed : Nat)
  | partialWrite (requested written : Nat)
deriving Repr, DecidableEq

namespace OutboxError

/-- What is said of an error. -/
def message : OutboxError → String
  | full pending => s!"send queue full: {pending} frames pending"
  | memory headroom needed => s!"memory pressure: {headroom} bytes free, {needed} required"
  | partialWrite requested written => s!"transport accepted {written} of {requested} bytes"

end OutboxError

/-- What one drain did. -/
structure DrainReport where
  written : Nat := 0
  frames : Nat := 0
  blocked : Bool := false
deriving Repr, DecidableEq, Inhabited

/-- Frames that wait to be sent. -/
structure Outbox where
  maxPending : Nat
  /-- How much memory must stay free. -/
  minFree : Nat
  current : Option Bytes := none
  /-- Frames with priority, oldest first. -/
  express : List Bytes := []
  /-- Regular frames, oldest first. -/
  regular : List Bytes := []
deriving Repr, DecidableEq, Inhabited

namespace Outbox

/-- How many frames wait, the one in progress included. -/
def length (q : Outbox) : Nat :=
  q.express.length + q.regular.length + (if q.current.isSome then 1 else 0)

/-- Whether nothing waits. -/
def isEmpty (q : Outbox) : Bool := q.length == 0

/-- Throw away what waits, a frame that was begun too. -/
def clear (q : Outbox) : Outbox := { q with current := none, express := [], regular := [] }

/-- The memory a frame needs: what must stay free and its own size. -/
def needed (q : Outbox) (frame : Bytes) : Nat := min (q.minFree + frame.length) unlimited

/-- Let a frame wait, if there is memory for it.  Only regular frames are limited in number. -/
def enqueue (q : Outbox) (frame : Bytes) (priority : Bool) (headroom : Nat) :
    Except OutboxError Outbox :=
  if headroom < q.needed frame then .error (.memory headroom (q.needed frame))
  else if priority then .ok { q with express := q.express ++ [frame] }
  else if q.maxPending ≤ q.regular.length then .error (.full q.regular.length)
  else .ok { q with regular := q.regular ++ [frame] }

/-- The frame to send next, with the outbox in which it is the one in progress. -/
def start (q : Outbox) : Option (Bytes × Outbox) :=
  match q.current with
  | some frame => some (frame, q)
  | none =>
      match q.express with
      | frame :: rest => some (frame, { q with current := some frame, express := rest })
      | [] =>
          match q.regular with
          | frame :: rest => some (frame, { q with current := some frame, regular := rest })
          | [] => none

/-- How many bytes wait. -/
def bytes (q : Outbox) : Nat :=
  (q.current.getD []).length + q.express.flatten.length + q.regular.flatten.length

/-- The frame in progress after some of its bytes were sent. -/
def advance (q : Outbox) (frame : Bytes) (count : Nat) : Outbox :=
  let rest := frame.drop count
  { q with current := if rest.isEmpty then none else some rest }

/-- Starting a frame moves bytes and loses none. -/
theorem bytes_of_start {q q' : Outbox} {frame : Bytes} (h : q.start = some (frame, q')) :
    q'.current = some frame ∧ q'.bytes = q.bytes := by
  unfold start at h
  split at h
  · next f hf => cases h; exact ⟨hf, rfl⟩
  · next hf =>
      split at h
      · next f rest he =>
          cases h
          simp [bytes, hf, he]
      · next he =>
          split at h
          · next f rest hr =>
              cases h
              simp [bytes, hf, he, hr]
          · cases h

/-- Sending a byte leaves fewer to send. -/
theorem bytes_advance_lt {q : Outbox} {frame : Bytes} {count : Nat} (h : q.current = some frame)
    (hpos : 0 < count) (hle : count ≤ frame.length) : (q.advance frame count).bytes < q.bytes := by
  have hcur : (((q.advance frame count).current).getD []).length = frame.length - count := by
    simp only [advance]
    cases hd : frame.drop count with
    | nil =>
        have := congrArg List.length hd
        simp only [List.length_drop, List.length_nil] at this
        simp [this]
    | cons b bs =>
        have := congrArg List.length hd
        simp only [List.length_drop] at this
        simp [this]
  have h1 : (q.advance frame count).express = q.express := rfl
  have h2 : (q.advance frame count).regular = q.regular := rfl
  simp only [bytes, hcur, h1, h2, h, Option.getD_some]
  omega

variable {τ : Type}

/-- Write as much as the transport takes, on top of what was written before. -/
def drainOnto (t : Transport τ) (q : Outbox) (s : τ) (report : DrainReport) :
    Except OutboxError DrainReport × Outbox × τ :=
  match _hs : q.start with
  | none => (.ok report, q, s)
  | some (frame, q') =>
      let space := t.space s
      if space = 0 then (.ok { report with blocked := true }, q', s)
      else
        let offered := frame.take space
        let (written, s') := t.write offered s
        if _hw : written = 0 then (.ok { report with blocked := true }, q', s')
        else if _ho : written = offered.length then
          let finished := written = frame.length
          drainOnto t (q'.advance frame written) s'
            { report with
              written := report.written + written
              frames := if finished then report.frames + 1 else report.frames }
        else (.error (.partialWrite offered.length written), q', s')
termination_by q.bytes
decreasing_by
  have hb := bytes_of_start _hs
  rw [← hb.2]
  refine bytes_advance_lt hb.1 (Nat.pos_of_ne_zero _hw) ?_
  have hle : offered.length ≤ frame.length := by simp only [offered, List.length_take]; omega
  exact Nat.le_trans (Nat.le_of_eq _ho) hle

/-- Write as much as the transport takes. -/
def drain (t : Transport τ) (q : Outbox) (s : τ) : Except OutboxError DrainReport × Outbox × τ :=
  drainOnto t q s {}

end Outbox

end SpanningMesh
