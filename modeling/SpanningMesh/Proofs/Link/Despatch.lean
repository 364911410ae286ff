import SpanningMesh.Proofs.Link.Draining

/-!
# The writes of a drain

A drain offers a transport one piece of a frame after the other.  What it offers and what the
transport answers is seen by a transport that notes both (`Transport.noting`), and nothing else
of a drain can be seen from outside.

Whatever the transport, a drain is a run of whole writes (`Outbox.Sends`) and then one of four
ways to stop (`Outbox.Stops`): nothing is left, there is no room, a write is refused, or a write
is answered with some other number than was offered.  All a drain does to the outbox after its
last whole write is to start the next frame (`Outbox.drain_course`).
-/

namespace SpanningMesh

/-- A write as its transport sees it. -/
structure Write where
  offered : Bytes
  /-- The number that was answered. -/
  taken : Nat
deriving Repr, DecidableEq

namespace Write

/-- The bytes that the transport took. -/
def bytes (w : Write) : Bytes := w.offered.take w.taken

/-- The transport took nothing or everything. -/
def Fair (w : Write) : Prop := w.taken = 0 ∨ w.taken = w.offered.length

/-- The transport took everything, and that was something. -/
def Whole (w : Write) : Prop := w.taken ≠ 0 ∧ w.taken = w.offered.length

instance (w : Write) : Decidable w.Fair := inferInstanceAs (Decidable (_ ∨ _))

instance (w : Write) : Decidable w.Whole := inferInstanceAs (Decidable (_ ∧ _))

theorem Whole.fair {w : Write} (h : w.Whole) : w.Fair := .inr h.2

end Write

/-- A transport that notes its writes, oldest first. -/
def Transport.noting {τ : Type} (t : Transport τ) : Transport (τ × List Write) where
  write bs c :=
    let (taken, s) := t.write bs c.1
    (taken, s, c.2 ++ [⟨bs, taken⟩])
  space c := t.space c.1
  close c := (t.close c.1, c.2)
  isConnected c := t.isConnected c.1

/-- A transport with room for so many bytes.  It answers its first writes as it is told to, and
takes all that the others offer. -/
def Transport.budget : Transport (Nat × List Nat) where
  write bs s :=
    let taken := s.2.headD bs.length
    (taken, s.1 - taken, s.2.tail)
  space s := s.1
  close := id
  isConnected _ := true

/-- A report with some more writes in it, by which `k` frames are finished. -/
def DrainReport.add (report : DrainReport) (ws : List Write) (k : Nat) : DrainReport :=
  { report with
    written := report.written + (ws.flatMap Write.bytes).length
    frames := report.frames + k }

@[simp] theorem DrainReport.add_nil (report : DrainReport) : report.add [] 0 = report := rfl

/-- One whole write more. -/
theorem DrainReport.add_cons (report : DrainReport) {bs frame : Bytes} {ws : List Write} {k : Nat}
    (part : bs <+: frame) :
    DrainReport.add
      { report with
        written := report.written + bs.length
        frames := if bs.length = frame.length then report.frames + 1 else report.frames } ws k =
      report.add (⟨bs, bs.length⟩ :: ws) (if bs = frame then k + 1 else k) := by
  have finished : bs.length = frame.length ↔ bs = frame := ⟨part.eq_of_length, congrArg _⟩
  simp only [add, finished, List.flatMap_cons, List.length_append, Write.bytes, List.take_length,
    DrainReport.mk.injEq, and_true]
  split <;> omega

namespace Outbox

variable {τ : Type} {q q' : Outbox} {frame : Bytes} {ws : List Write} {k : Nat}

/-- The outbox with the next frame in progress, if there is one. -/
def started (q : Outbox) : Outbox := (q.start.map Prod.snd).getD q

theorem started_of_start (h : q.start = some (frame, q')) : q.started = q' := by
  rw [started, h]
  rfl

theorem started_of_start_eq_none (h : q.start = none) : q.started = q := by
  rw [started, h]
  rfl

/-- There is no frame to start in an empty outbox only. -/
theorem start_eq_none_iff : q.start = none ↔ q.isEmpty = true := by
  rw [isEmpty_iff, Bool.forall_bool, lane, lane, start]
  cases q.current with
  | some frame => simp
  | none => cases q.express <;> cases q.regular <;> simp

/-- Starting the next frame moves it and changes neither how many frames wait nor how many
bytes. -/
theorem length_of_start (h : q.start = some (frame, q')) : q'.length = q.length := by
  obtain ⟨current, rfl | ⟨idle, first, lanes⟩⟩ := start_lane h
  · rfl
  · have express := congrArg List.length (lanes true)
    have regular := congrArg List.length (lanes false)
    simp only [lane, List.length_append] at express regular
    rw [length, length, current, idle, express, regular]
    cases first <;> simp <;> omega

/-- To start a frame does not take it from the queue. -/
theorem isEmpty_started (q : Outbox) : q.started.isEmpty = q.isEmpty := by
  cases start : q.start with
  | none => rw [started_of_start_eq_none start]
  | some next => rw [started_of_start start, isEmpty, isEmpty, length_of_start start]

/-- Bytes that are sent wait no longer. -/
theorem bytes_advance {count : Nat} (h : q.current = some frame) (le : count ≤ frame.length) :
    (q.advance frame count).bytes + count = q.bytes := by
  rw [bytes, bytes, current_advance, h, Option.getD_some, List.length_drop]
  simp only [advance]
  omega

/-- The frames that wait, in the order in which they are to be sent as things are. -/
def pending (q : Outbox) : List Bytes := q.current.toList ++ q.express ++ q.regular

/-- What waits and in which order is the same after the next frame is started. -/
theorem pending_started (q : Outbox) : q.started.pending = q.pending := by
  cases start : q.start with
  | none => rw [started_of_start_eq_none start]
  | some next =>
      obtain ⟨frame, q'⟩ := next
      rw [started_of_start start]
      cases current : q.current with
      | some f =>
          rw [Outbox.start, current] at start
          cases start
          rfl
      | none =>
          obtain ⟨current', lanes⟩ := lane_start current start
          have express := lanes true
          have regular := lanes false
          simp only [lane] at express regular
          rw [pending, pending, current, current', regular]
          cases none : q.express.isEmpty with
          | false =>
              rw [none] at express
              simp [express]
          | true =>
              rw [none, List.isEmpty_iff.mp none] at express
              have rest : q'.express = [] := by simpa using express.symm
              simp [List.isEmpty_iff.mp none, rest]

/-! ## Whole writes -/

/-- The writes `ws` lead from one outbox to another, each of them takes some bytes of the frame
to send, and `k` frames are finished by them. -/
inductive Sends : Outbox → List Write → Nat → Outbox → Prop where
  | done (q : Outbox) : Sends q [] 0 q
  | send {q q' q₁ : Outbox} {frame bs : Bytes} {ws : List Write} {k : Nat}
      (start : q.start = some (frame, q')) (part : bs <+: frame) (some : bs ≠ [])
      (rest : Sends (q'.advance frame bs.length) ws k q₁) :
      Sends q (⟨bs, bs.length⟩ :: ws) (if bs = frame then k + 1 else k) q₁

/-- Every frame that is sent is written whole. -/
theorem Sends.whole (h : Sends q ws k q') : ∀ w ∈ ws, w.Whole := by
  induction h with
  | done => simp
  | send start part some rest ih =>
      rw [List.forall_mem_cons]
      exact ⟨⟨mt List.length_eq_zero_iff.mp some, rfl⟩, ih⟩

/-- What was sent waits no longer. -/
theorem Sends.bytes (h : Sends q ws k q') :
    (ws.flatMap Write.bytes).length + q'.bytes = q.bytes := by
  induction h with
  | done => simp
  | send start part some rest ih =>
      obtain ⟨current, same⟩ := bytes_of_start start
      rw [← same, ← bytes_advance current part.length_le, ← ih, List.flatMap_cons,
        List.length_append, Write.bytes, List.take_length]
      omega

/-- Every frame that is sent has at least one byte. -/
theorem Sends.length_le (h : Sends q ws k q') : ws.length ≤ (ws.flatMap Write.bytes).length := by
  induction h with
  | done => simp
  | send start part some rest ih =>
      have one := List.length_pos_iff.mpr some
      rw [List.flatMap_cons, List.length_append, Write.bytes, List.take_length, List.length_cons]
      omega

/-! ## How a drain goes -/

/-- The ways in which a drain stops at an outbox: the last write, if it is not a whole one, and
the result. -/
inductive Stops (q : Outbox) (report : DrainReport) :
    List Write → Except OutboxError DrainReport → Prop where
  | empty (none : q.start = none) : Stops q report [] (.ok report)
  | full {q' : Outbox} {frame : Bytes} (start : q.start = some (frame, q')) :
      Stops q report [] (.ok { report with blocked := true })
  | refused {q' : Outbox} {frame bs : Bytes} (start : q.start = some (frame, q'))
      (part : bs <+: frame) : Stops q report [⟨bs, 0⟩] (.ok { report with blocked := true })
  | broken {q' : Outbox} {frame bs : Bytes} {taken : Nat} (start : q.start = some (frame, q'))
      (part : bs <+: frame) (some : taken ≠ 0) (other : taken ≠ bs.length) :
      Stops q report [⟨bs, taken⟩] (.error (.partialWrite bs.length taken))

/-- At most one write is not whole, and it is the last one. -/
theorem Stops.last_cases {report : DrainReport} {r : Except OutboxError DrainReport}
    (h : Stops q report ws r) : ws = [] ∨ ∃ w, ws = [w] ∧ ¬ w.Whole := by
  cases h with
  | empty | full => exact .inl rfl
  | refused => exact .inr ⟨_, rfl, fun whole => whole.1 rfl⟩
  | broken _ _ _ other => exact .inr ⟨_, rfl, fun whole => other whole.2⟩

/-- If the last write is fair as well, the drain succeeds, and it is blocked just when something
is left. -/
theorem Stops.result_of_fair {report : DrainReport} {r : Except OutboxError DrainReport}
    (h : Stops q report ws r) (unblocked : report.blocked = false) (fair : ∀ w ∈ ws, w.Fair) :
    r = .ok { report with blocked := !q.isEmpty } ∧ ws.flatMap Write.bytes = [] := by
  have left {q' : Outbox} {frame : Bytes} (start : q.start = some (frame, q')) :
      (!q.isEmpty) = true := by
    rw [Bool.not_eq_true', ← Bool.not_eq_true, ← start_eq_none_iff, start]
    simp
  cases h with
  | empty none => rw [start_eq_none_iff.mp none, Bool.not_true, ← unblocked]; exact ⟨rfl, rfl⟩
  | full start | refused start => rw [left start]; exact ⟨rfl, rfl⟩
  | broken _ _ some other => exact ((fair _ List.mem_cons_self).elim some other).elim

/-- If the last write is not fair the drain fails and says so. -/
theorem Stops.result_of_unfair {report : DrainReport} {r : Except OutboxError DrainReport}
    {w : Write} (h : Stops q report ws r) (there : w ∈ ws) (unfair : ¬ w.Fair) :
    ws = [w] ∧ r = .error (.partialWrite w.offered.length w.taken) := by
  cases h with
  | empty | full => cases there
  | refused =>
      obtain rfl := List.mem_singleton.mp there
      exact absurd (.inl rfl) unfair
  | broken =>
      obtain rfl := List.mem_singleton.mp there
      exact ⟨rfl, rfl⟩

section Course

variable (t : Transport τ) (s : τ) {s' : τ} {taken : Nat} (report : DrainReport)

/-! One round of a drain, by what the transport answers. -/

/-- With nothing to send, draining ends well. -/
theorem drainOnto_of_empty (none : q.start = none) :
    q.drainOnto t s report = (.ok report, q, s) := by
  rw [drainOnto]
  split
  next => rfl
  next start => rw [none] at start; cases start

/-- Where the transport has no room, draining stops before the frame that it started. -/
theorem drainOnto_of_full (start : q.start = some (frame, q')) (full : t.space s = 0) :
    q.drainOnto t s report = (.ok { report with blocked := true }, q', s) := by
  rw [drainOnto]
  split
  next none => rw [start] at none; cases none
  next start' =>
    rw [start] at start'
    cases start'
    exact if_pos full

theorem drainOnto_of_write {bs : Bytes} (start : q.start = some (frame, q'))
    (room : t.space s ≠ 0) (wrote : t.write bs s = (taken, s'))
    (piece : bs = frame.take (t.space s)) :
    q.drainOnto t s report =
      if taken = 0 then (.ok { report with blocked := true }, q', s')
      else if taken = bs.length then
        (q'.advance frame taken).drainOnto t s'
          { report with
            written := report.written + taken
            frames := if taken = frame.length then report.frames + 1 else report.frames }
      else (.error (.partialWrite bs.length taken), q', s') := by
  subst piece
  rw [drainOnto]
  split
  next none => rw [start] at none; cases none
  next start' =>
    rw [start] at start'
    cases start'
    simp only [room, if_false, wrote, dite_eq_ite]

end Course

/-- A drain is a run of whole writes and a stop, and notes of it are as long as it is. -/
theorem drainOnto_course (t : Transport τ) (q : Outbox) (s : τ) (report : DrainReport)
    (past : List Write) :
    ∃ sent k q₁ last r s', Sends q sent k q₁ ∧ Stops q₁ (report.add sent k) last r ∧
      q.drainOnto t s report = (r, q₁.started, s') ∧
      q.drainOnto t.noting (s, past) report = (r, q₁.started, s', past ++ (sent ++ last)) := by
  fun_induction Outbox.drainOnto t q s report generalizing past with
  | case1 q s report none =>
      refine ⟨[], 0, q, [], _, s, .done q, .empty none, ?_, ?_⟩
      · rw [started_of_start_eq_none none, DrainReport.add_nil]
      · rw [drainOnto_of_empty t.noting (s, past) report none, started_of_start_eq_none none,
          DrainReport.add_nil, List.append_nil, List.append_nil]
  | case2 q s report frame q' start space full =>
      refine ⟨[], 0, q, [], _, s, .done q, .full start, ?_, ?_⟩
      · rw [started_of_start start, DrainReport.add_nil]
      · rw [drainOnto_of_full t.noting (s, past) report start full, started_of_start start,
          DrainReport.add_nil, List.append_nil, List.append_nil]
  | case3 q s report frame q' start space room offered s' wrote =>
      have noted : t.noting.write offered (s, past) = (0, s', past ++ [⟨offered, 0⟩]) := by
        simp only [Transport.noting, wrote]
      refine ⟨[], 0, q, _, _, s', .done q, .refused start (List.take_prefix space frame), ?_, ?_⟩
      · rw [started_of_start start, DrainReport.add_nil]
      · rw [drainOnto_of_write t.noting (s, past) report start room noted rfl, if_pos rfl,
          started_of_start start, DrainReport.add_nil, List.nil_append]
  | case4 q s report frame q' start space room offered s' wrote some finished ih =>
      have noted : t.noting.write offered (s, past) =
          (offered.length, s', past ++ [⟨offered, offered.length⟩]) := by
        simp only [Transport.noting, wrote]
      simp only [dite_eq_ite] at ih
      have prior : offered <+: frame := List.take_prefix space frame
      have some : offered ≠ [] := mt (fun none => by rw [none]; rfl) some
      obtain ⟨sent, k, q₁, last, r, s₁, sends, stops, drained, noting⟩ :=
        ih (past ++ [⟨offered, offered.length⟩])
      rw [DrainReport.add_cons report prior] at stops
      refine ⟨_, _, q₁, last, r, s₁, .send start prior some sends, stops, drained, ?_⟩
      rw [drainOnto_of_write t.noting (s, past) report start room noted rfl, if_neg ‹_›, if_pos rfl]
      refine noting.trans ?_
      rw [List.append_assoc]
      rfl
  | case5 q s report frame q' start space room offered written s' wrote some part =>
      have noted : t.noting.write offered (s, past) =
          (written, s', past ++ [⟨offered, written⟩]) := by
        simp only [Transport.noting, wrote]
      refine ⟨[], 0, q, _, _, s', .done q,
        .broken start (List.take_prefix space frame) some part, ?_, ?_⟩
      · rw [started_of_start start]
      · rw [drainOnto_of_write t.noting (s, past) report start room noted rfl, if_neg some,
          if_neg part, started_of_start start, List.nil_append]

/-- The writes of a drain, oldest first. -/
def writes (t : Transport τ) (q : Outbox) (s : τ) : List Write := (q.drain t.noting (s, [])).2.2.2

/-- Draining sends some frames whole, and then it stops. -/
theorem drain_course (t : Transport τ) (q : Outbox) (s : τ) :
    ∃ sent k q₁ last r s', Sends q sent k q₁ ∧ Stops q₁ (DrainReport.add {} sent k) last r ∧
      q.drain t s = (r, q₁.started, s') ∧ q.writes t s = sent ++ last := by
  obtain ⟨sent, k, q₁, last, r, s', sends, stops, drained, noting⟩ :=
    drainOnto_course t q s {} []
  refine ⟨sent, k, q₁, last, r, s', sends, stops, drained, ?_⟩
  rw [writes, drain, noting, List.nil_append]

end Outbox

end SpanningMesh
