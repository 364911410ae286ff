import Mathlib.Data.List.Perm.Subperm
import SpanningMesh.Link.Basic
import SpanningMesh.Proofs.Framing
import SpanningMesh.Proofs.Link.Draining

/-!
# From link to link

A `Conduit` is one way of a connection: a link that takes frames in and writes them, the pipe
under it, and the reassembler at the other end.  What is read off the pipe may be pushed into
the reassembler in any chunks, at any time.

Every message that the link accepts comes out once and as it was, in the order of its priority
class, whatever happens in which order (`Conduit.run_delivers`).  Messages of different classes
may overtake each other, but only between frames.

The invariant is `Conduit.Carries`.  The bytes between the last body that was delivered and the
next frame to be started are a stream of whole frames, however they are spread over the
reassembler, the hand of the reader, the pipe and the frame in progress.  No step looks at
where in it a frame begins.
-/

namespace SpanningMesh

/-- The end that reads what an end writes. -/
def PipeEnd.other : PipeEnd → PipeEnd
  | .near => .far
  | .far => .near

/-- What is read at one end is what waits of the other end's bytes, and it waits no longer. -/
theorem Pipe.read_other (p : Pipe) (e : PipeEnd) :
    p.read e.other = (p.outgoing e, p.setOutgoing e []) := by cases e <;> rfl

@[simp] theorem Pipe.outgoing_setOutgoing (p : Pipe) (e : PipeEnd) (bytes : Bytes) :
    (p.setOutgoing e bytes).outgoing e = bytes := by cases e <;> rfl

/-- A link that takes a frame in has it in its outbox and does not change otherwise. -/
theorem Link.enqueue_eq_ok {l l' : Link} {frame : Bytes} {priority : Bool} {headroom : Nat}
    (h : l.enqueue frame priority headroom = .ok l') :
    ∃ q, l.outbox.enqueue frame priority headroom = .ok q ∧ l' = { l with outbox := q } := by
  simp only [enqueue] at h
  split at h
  next => cases h
  next =>
    split at h
    next q queued =>
      cases h
      exact ⟨q, queued, rfl⟩
    next => cases h

namespace Conduit

/-! ## Messages by class -/

/-- A body with the priority class that it was sent in. -/
structure Message where
  priority : Bool
  body : Bytes
deriving Repr, DecidableEq

namespace Message

/-- The messages of one priority class. -/
def ofClass (priority : Bool) (ms : List Message) : List Message :=
  ms.filter (·.priority == priority)

variable {p : Bool} {ms ms' : List Message} {m : Message}

@[simp] theorem ofClass_append : ofClass p (ms ++ ms') = ofClass p ms ++ ofClass p ms' :=
  List.filter_append ..

theorem ofClass_singleton : ofClass p [m] = if p = m.priority then [m] else [] := by
  by_cases h : p = m.priority
  · simp [ofClass, h]
  · simp [ofClass, h, Ne.symm h]

theorem mem_ofClass : m ∈ ofClass p ms ↔ m ∈ ms ∧ m.priority = p := by
  simp [ofClass]

/-- Messages are those of the one class and those of the other. -/
theorem perm_ofClass (ms : List Message) : ms.Perm (ofClass true ms ++ ofClass false ms) := by
  have classes : ofClass false ms = ms.filter fun m => !(m.priority == true) := by
    refine List.filter_congr fun m _ => ?_
    cases m.priority <;> rfl
  rw [classes]
  exact (List.filter_append_perm _ ms).symm

/-- What comes first within each class is among the whole. -/
theorem subperm_of_ofClass (h : ∀ p, ofClass p ms <+: ofClass p ms') : ms.Subperm ms' :=
  ((perm_ofClass ms).subperm).trans
    ((((h true).sublist.append (h false).sublist).subperm).trans (perm_ofClass ms').symm.subperm)

/-- The same messages within each class are the same messages in some order. -/
theorem perm_of_ofClass (h : ∀ p, ofClass p ms = ofClass p ms') : ms.Perm ms' := by
  have classes := perm_ofClass ms
  rw [h true, h false] at classes
  exact classes.trans (perm_ofClass ms').symm

end Message

end Conduit

/-- One way of a connection. -/
structure Conduit where
  /-- The end of the pipe that the link writes to. -/
  side : PipeEnd
  sender : Link
  pipe : Pipe
  /-- What was read at the other end and not pushed yet. -/
  unread : Bytes := []
  receiver : Reassembler
  /-- The messages that the link took in, oldest first. -/
  accepted : List Conduit.Message := []
  /-- The bodies that came out, oldest first. -/
  delivered : List Bytes := []

namespace Conduit

/-! ## What happens on the way -/

/-- Send a message.  It counts as accepted only if the link takes its frame in. -/
def send (c : Conduit) (m : Message) (headroom : Nat) : Conduit :=
  match Frame.ofBody m.body with
  | .error _ => c
  | .ok frame =>
      match c.sender.enqueue frame m.priority headroom with
      | .error _ => c
      | .ok sender => { c with sender, accepted := c.accepted ++ [m] }

/-- Write what the pipe takes. -/
def write (c : Conduit) : Except OutboxError DrainReport × Conduit :=
  let (r, sender, pipe) := c.sender.drain (Pipe.transport c.side) c.pipe
  (r, { c with sender, pipe })

/-- Read all that the pipe holds. -/
def read (c : Conduit) : Conduit :=
  let (bytes, pipe) := c.pipe.read c.side.other
  { c with pipe, unread := c.unread ++ bytes }

/-- Push a chunk of what was read. -/
def push (c : Conduit) (size : Nat) : Except CodecError (List Bytes) × Conduit :=
  let (r, receiver) := c.receiver.push (c.unread.take size)
  (r, { c with
    receiver
    unread := c.unread.drop size
    delivered := c.delivered ++ r.toOption.getD [] })

/-- One step of the sender or of the receiver. -/
inductive Step where
  | send (m : Message) (headroom : Nat)
  | write
  | read
  | push (size : Nat)

/-- The conduit after a step. -/
def step (c : Conduit) : Step → Conduit
  | .send m headroom => c.send m headroom
  | .write => c.write.2
  | .read => c.read
  | .push size => (c.push size).2

/-- The conduit after several steps. -/
def run (c : Conduit) (steps : List Step) : Conduit := steps.foldl step c

/-- The messages that are sent have bodies of a limited length. -/
def Step.Within (limit : Nat) : Step → Prop
  | .send m _ => m.body.length ≤ limit
  | _ => True

/-- A link at one end of a new pipe and a new reassembler at the other. -/
def opened (side : PipeEnd) (sender : Link) (capacity limit : Nat) : Conduit :=
  { side, sender, pipe := { capacity }, receiver := .fresh limit }

/-! ## What stays true -/

/-- Of the messages that were accepted some came out, some are on the way, and the others wait
in their lanes. -/
structure Carries (c : Conduit) (out under : List Message) : Prop where
  fits : ∀ m ∈ c.accepted, Frame.Fits c.receiver.limit m.body
  delivered : c.delivered = out.map Message.body
  /-- The messages of a class are those that came out, those on the way and those that wait. -/
  lanes : ∀ p, ∃ waiting, c.sender.outbox.lane p = waiting.map (Frame.whole ·.body) ∧
    Message.ofClass p c.accepted =
      Message.ofClass p out ++ Message.ofClass p under ++ waiting
  /-- All bytes on the way are the frames of the messages on the way. -/
  stream : c.receiver.buffer.toList ++ c.unread ++ c.pipe.outgoing c.side ++
    c.sender.outbox.current.getD [] = Frame.stream (under.map Message.body)

variable {c : Conduit} {out under : List Message}

/-- All that is under way was accepted. -/
theorem Carries.mem_accepted (h : Carries c out under) {m : Message} (mem : m ∈ under) :
    m ∈ c.accepted := by
  obtain ⟨waiting, -, all⟩ := h.lanes m.priority
  have here : m ∈ Message.ofClass m.priority under := Message.mem_ofClass.mpr ⟨mem, rfl⟩
  have there : m ∈ Message.ofClass m.priority c.accepted := by
    rw [all]
    exact List.mem_append_left _ (List.mem_append_right _ here)
  exact (Message.mem_ofClass.mp there).1

/-- All that is under way fits the receiver. -/
theorem Carries.fits_under (h : Carries c out under) :
    ∀ body ∈ under.map Message.body, Frame.Fits c.receiver.limit body := by
  intro body there
  obtain ⟨m, mem, rfl⟩ := List.mem_map.mp there
  exact h.fits m (h.mem_accepted mem)

/-- A conduit that was just opened carries nothing. -/
theorem carries_opened (side : PipeEnd) {sender : Link} (capacity limit : Nat)
    (idle : sender.outbox.isEmpty = true) : Carries (opened side sender capacity limit) [] [] := by
  obtain ⟨current, lanes⟩ := Outbox.isEmpty_iff.mp idle
  refine ⟨by simp [opened], rfl, fun p => ⟨[], lanes p, rfl⟩, ?_⟩
  have bare : (opened side sender capacity limit).pipe.outgoing side = [] := by cases side <;> rfl
  simp [opened, Reassembler.fresh, current] at bare ⊢
  exact bare

/-- A message that is sent waits behind those of its class. -/
theorem Carries.send (h : Carries c out under) {m : Message}
    (within : m.body.length ≤ c.receiver.limit) (headroom : Nat) :
    Carries (c.send m headroom) out under := by
  unfold Conduit.send
  split
  next => exact h
  next frame framed =>
    obtain ⟨short, rfl⟩ := Frame.ofBody_eq_ok_iff.mp framed
    split
    next => exact h
    next sender taken =>
      obtain ⟨q, queued, rfl⟩ := Link.enqueue_eq_ok taken
      obtain ⟨current, lanes⟩ := Outbox.enqueue_lane queued
      refine ⟨?_, h.delivered, fun p => ?_, ?_⟩
      · intro m' mem
        rcases List.mem_append.mp mem with old | new
        · exact h.fits m' old
        · obtain rfl := List.mem_singleton.mp new
          exact ⟨short, within⟩
      · obtain ⟨waiting, lane, all⟩ := h.lanes p
        refine ⟨waiting ++ Message.ofClass p [m], ?_, ?_⟩
        · simp only [lanes, lane, Message.ofClass_singleton, List.map_append]
          split <;> rfl
        · simp only [Message.ofClass_append, all, List.append_assoc]
      · simpa only [current] using h.stream

/-- The conduit with another outbox and another pipe. -/
def put (c : Conduit) (q : Outbox) (p : Pipe) : Conduit :=
  { c with sender := { c.sender with outbox := q }, pipe := p }

/-- A frame that is started is on the way. -/
theorem Carries.start (h : Carries c out under) {frame : Bytes} {q : Outbox}
    (started : c.sender.outbox.start = some (frame, q)) :
    ∃ under', Carries (c.put q c.pipe) out under' := by
  obtain ⟨current, rfl | ⟨idle, first, lanes⟩⟩ := Outbox.start_lane started
  · exact ⟨under, h⟩
  · obtain ⟨waiting, lane, all⟩ := h.lanes first
    rw [lanes first, if_pos rfl] at lane
    obtain ⟨m, waiting, rfl, rfl, rest⟩ := List.map_eq_cons_iff.mp lane.symm
    have class_eq : m.priority = first := by
      have mem : m ∈ Message.ofClass first c.accepted := by
        rw [all]
        exact List.mem_append_right _ List.mem_cons_self
      exact (Message.mem_ofClass.mp mem).2
    refine ⟨under ++ [m], h.fits, h.delivered, fun p => ?_, ?_⟩
    · simp only [Message.ofClass_append, Message.ofClass_singleton, class_eq]
      by_cases hp : p = first
      · subst hp
        exact ⟨waiting, rest.symm, by simp [put, all]⟩
      · obtain ⟨others, lane, all⟩ := h.lanes p
        rw [lanes p, if_neg hp] at lane
        exact ⟨others, lane, by simp [put, all, hp]⟩
    · have bytes := h.stream
      rw [idle, Option.getD_none, List.append_nil] at bytes
      simp only [put, current, Option.getD_some, bytes, List.map_append, Frame.stream_append]
      simp

/-- Bytes of the frame in progress that move into the pipe stay on the way. -/
theorem Carries.move (h : Carries c out under) {frame : Bytes}
    (current : c.sender.outbox.current = some frame) (count : Nat) :
    Carries (c.put (c.sender.outbox.advance frame count)
      (c.pipe.setOutgoing c.side (c.pipe.outgoing c.side ++ frame.take count))) out under where
  fits := h.fits
  delivered := h.delivered
  lanes p := by
    obtain ⟨waiting, lane, all⟩ := h.lanes p
    exact ⟨waiting, (Outbox.lane_advance ..).trans lane, all⟩
  stream := by
    have bytes := h.stream
    rw [current, Option.getD_some] at bytes
    simp only [put, Outbox.current_advance, Pipe.outgoing_setOutgoing]
    rw [← bytes]
    simp only [List.append_assoc, List.take_append_drop]

/-- A write succeeds. -/
theorem Carries.write (h : Carries c out under) :
    (∃ report, c.write.1 = .ok report) ∧ ∃ under', Carries c.write.2 out under' := by
  have start : ∀ q q' p frame, (∃ under, Carries (c.put q p) out under) →
      q.start = some (frame, q') → ∃ under, Carries (c.put q' p) out under :=
    fun q q' p frame ⟨_, h⟩ started => h.start started
  have move : ∀ q p frame count, (∃ under, Carries (c.put q p) out under) →
      q.current = some frame → ∃ under, Carries (c.put (q.advance frame count)
        (p.setOutgoing c.side (p.outgoing c.side ++ frame.take count))) out under :=
    fun q p frame count ⟨under, h⟩ current => ⟨under, h.move current count⟩
  obtain ⟨report, q, p, drained, carries⟩ := Outbox.drainOnto_pipe start move {} ⟨under, h⟩
  simp only [Conduit.write, Link.drain, Outbox.drain, drained]
  exact ⟨⟨report, rfl⟩, carries⟩

theorem Carries.read (h : Carries c out under) : Carries c.read out under where
  fits := h.fits
  delivered := h.delivered
  lanes := h.lanes
  stream := by
    have bytes := h.stream
    simp only [Conduit.read, Pipe.read_other, Pipe.outgoing_setOutgoing, List.append_nil]
    rw [← bytes]
    simp only [List.append_assoc]

/-- A chunk that is pushed is taken, and the frames that it completes come out. -/
theorem Carries.push (h : Carries c out under) (size : Nat) :
    (∃ bodies, (c.push size).1 = .ok bodies) ∧
      ∃ out' under', Carries (c.push size).2 out' under' := by
  have ahead : (c.receiver.buffer.toList ++ c.unread.take size) ++ (c.unread.drop size ++
      c.pipe.outgoing c.side ++ c.sender.outbox.current.getD []) =
        Frame.stream (under.map Message.body) := by
    rw [← h.stream]
    conv_rhs => rw [← List.take_append_drop size c.unread]
    simp only [List.append_assoc]
  obtain ⟨fits, behind, bodies, rest⟩ := Reassembler.parse_prefix h.fits_under ahead
  obtain ⟨r, pushed, -, limit, buffer⟩ := Reassembler.push_of_fits fits
  obtain ⟨came, under', rfl, came_eq, under_eq⟩ := List.map_eq_append_iff.mp bodies
  simp only [Conduit.push, pushed]
  refine ⟨⟨_, rfl⟩, out ++ came, under', ?_, ?_, fun p => ?_, ?_⟩
  · simpa only [limit] using h.fits
  · simp [h.delivered, came_eq, Except.toOption]
  · obtain ⟨waiting, lane, all⟩ := h.lanes p
    exact ⟨waiting, lane, by simp [all]⟩
  · rw [under_eq, ← rest, buffer]
    simp only [List.append_assoc]

/-! ## Whole runs -/

/-- Every step keeps what is carried. -/
theorem Carries.step (h : Carries c out under) {step : Step}
    (within : step.Within c.receiver.limit) :
    ∃ out' under', Carries (c.step step) out' under' := by
  cases step with
  | send m headroom => exact ⟨out, under, h.send within headroom⟩
  | write => exact ⟨out, h.write.2⟩
  | read => exact ⟨out, under, h.read⟩
  | push size => exact (h.push size).2

/-- The end of the link and the limit of the reassembler stay. -/
theorem kept_step (c : Conduit) (step : Step) :
    (c.step step).side = c.side ∧ (c.step step).receiver.limit = c.receiver.limit := by
  cases step with
  | send m headroom =>
      simp only [Conduit.step, Conduit.send]
      split
      · exact ⟨rfl, rfl⟩
      · split <;> exact ⟨rfl, rfl⟩
  | write | read => exact ⟨rfl, rfl⟩
  | push size => exact ⟨rfl, Reassembler.limit_push c.receiver _⟩

/-- Whatever steps are taken, what was accepted has come out or is under way. -/
theorem Carries.run (h : Carries c out under) {steps : List Step}
    (within : ∀ step ∈ steps, step.Within c.receiver.limit) :
    (c.run steps).side = c.side ∧ ∃ out' under', Carries (c.run steps) out' under' := by
  induction steps generalizing c out under with
  | nil => exact ⟨rfl, out, under, h⟩
  | cons step steps ih =>
      obtain ⟨side, limit⟩ := kept_step c step
      obtain ⟨out', under', h⟩ := h.step (within step List.mem_cons_self)
      obtain ⟨side', carries⟩ := ih h fun later mem =>
        limit ▸ within later (List.mem_cons_of_mem _ mem)
      exact ⟨side'.trans side, carries⟩

/-- Where nothing is on the way and nothing waits, all that was accepted came out. -/
theorem Carries.perm (h : Carries c out under) (idle : c.sender.outbox.isEmpty = true)
    (piped : c.pipe.outgoing c.side = []) (unread : c.unread = [])
    (waiting : c.receiver.buffered = 0) : out.Perm c.accepted := by
  obtain ⟨current, lanes⟩ := Outbox.isEmpty_iff.mp idle
  have buffer : c.receiver.buffer.toList = [] := by
    rw [← List.length_eq_zero_iff, Array.length_toList]
    exact waiting
  have done := h.stream
  rw [buffer, unread, piped, current] at done
  obtain rfl : under = [] := List.map_eq_nil_iff.mp (Frame.stream_eq_nil_iff.mp done.symm)
  refine Message.perm_of_ofClass fun p => ?_
  obtain ⟨waiting, lane, all⟩ := h.lanes p
  rw [lanes p] at lane
  obtain rfl : waiting = [] := List.map_eq_nil_iff.mp lane.symm
  rw [all]
  simp [Message.ofClass]

/-- Whatever happens in which order on the way from a link to a reassembler: no write and no
push fails, and the bodies that came out are those of different accepted messages, in each
priority class the first ones of the class in the order of acceptance.  When nothing waits at
the link, in the pipe, between reading and pushing or in the reassembler, all have come out. -/
theorem run_delivers (side : PipeEnd) (sender : Link) (capacity limit : Nat) (steps : List Step)
    (idle : sender.outbox.isEmpty = true) (within : ∀ step ∈ steps, step.Within limit) :
    let c := (opened side sender capacity limit).run steps
    (∃ report, c.write.1 = .ok report) ∧ (∀ size, ∃ bodies, (c.push size).1 = .ok bodies) ∧
      ∃ out : List Message, c.delivered = out.map Message.body ∧ out.Subperm c.accepted ∧
        (∀ p, Message.ofClass p out <+: Message.ofClass p c.accepted) ∧
        (c.sender.outbox.isEmpty = true → c.pipe.outgoing side = [] → c.unread = [] →
          c.receiver.buffered = 0 → out.Perm c.accepted) := by
  obtain ⟨kept, out, under, h⟩ := (carries_opened side capacity limit idle).run within
  have prefixes : ∀ p, Message.ofClass p out <+:
      Message.ofClass p ((opened side sender capacity limit).run steps).accepted := by
    intro p
    obtain ⟨waiting, -, all⟩ := h.lanes p
    rw [all, List.append_assoc]
    exact List.prefix_append _ _
  refine ⟨h.write.1, fun size => (h.push size).1, out, h.delivered,
    Message.subperm_of_ofClass prefixes, prefixes, fun idle piped => h.perm idle ?_⟩
  rw [kept]
  exact piped

/-- A link whose outbox is empty. -/
def bareLink : Link :=
  { id := ⟨1⟩, station := true, outbox := { maxPending := 8, minFree := 0 }, reassembler := {},
    tasks := ⟨⟨1⟩, ⟨2⟩, ⟨3⟩, ⟨4⟩, none⟩ }

/-- A message with priority is sent while the first of two others is half on its way. -/
def overtaking : List Step :=
  [.send ⟨false, [7, 8]⟩ 100, .write, .send ⟨false, [5]⟩ 100, .send ⟨true, [9]⟩ 100, .read,
    .push 2, .write, .read, .push 9, .write, .read, .write, .read, .write, .push 4, .read,
    .push 50, .write, .read, .push 50]

/-- Through a pipe of three bytes the message with priority comes out second of three. -/
theorem run_delivers_overtaking :
    let c := (opened .near bareLink 3 2).run overtaking
    c.delivered = [[7, 8], [9], [5]] ∧
      ∃ out : List Message, c.delivered = out.map Message.body ∧ out.Perm c.accepted := by
  have idle : bareLink.outbox.isEmpty = true := rfl
  have within : ∀ step ∈ overtaking, step.Within 2 := by simp [overtaking, Step.Within]
  obtain ⟨-, -, out, bodies, -, -, all⟩ := run_delivers .near bareLink 3 2 overtaking idle within
  refine ⟨?_, out, bodies, all ?_ ?_ ?_ ?_⟩
  all_goals decide +kernel

end Conduit

end SpanningMesh
