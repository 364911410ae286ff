import SpanningMesh.Link.Outbox
import SpanningMesh.Link.Pipe

/-!
# Draining an outbox into a pipe

What an outbox does to its frames comes down to three things.  A frame that is taken in goes to
the end of its lane (`enqueue_lane`).  A frame that is started leaves the front of a lane and
becomes the one in progress (`start_lane`).  And some first bytes of the frame in progress move
into the pipe.

A drain is a run of steps of the last two kinds and nothing else.  So what both of them keep
holds after it, and a pipe never takes less than it has room for, so it does not fail
(`drainOnto_pipe`).
-/

namespace SpanningMesh

namespace Outbox

variable {q q' : Outbox} {frame : Bytes}

/-- The frames that wait with priority, or those that wait without. -/
def lane (q : Outbox) : Bool → List Bytes
  | true => q.express
  | false => q.regular

/-- An outbox is empty if nothing is in progress and nothing waits in either lane. -/
theorem isEmpty_iff : q.isEmpty = true ↔ q.current = none ∧ ∀ p, q.lane p = [] := by
  simp only [isEmpty, length, beq_iff_eq, Nat.add_eq_zero_iff, List.length_eq_zero_iff,
    Bool.forall_bool, lane]
  cases q.current with
  | none => simp [and_comm]
  | some frame => simp

/-- A frame that is taken in waits behind those of its lane. -/
theorem enqueue_lane {priority : Bool} {headroom : Nat}
    (h : q.enqueue frame priority headroom = .ok q') :
    q'.current = q.current ∧
      ∀ p, q'.lane p = q.lane p ++ if p = priority then [frame] else [] := by
  simp only [enqueue] at h
  split at h
  next => cases h
  next =>
    split at h
    next prior =>
      cases h
      refine ⟨rfl, fun p => ?_⟩
      cases p <;> simp [lane, prior]
    next ordinary =>
      split at h
      next => cases h
      next =>
        cases h
        refine ⟨rfl, fun p => ?_⟩
        cases p <;> simp [lane, ordinary]

/-- If no frame is in progress, the next one leaves the front of the priority lane, or of the
regular one if nothing waits with priority. -/
theorem lane_start (idle : q.current = none) (h : q.start = some (frame, q')) :
    q'.current = some frame ∧
      ∀ p, q.lane p = (if p = !q.express.isEmpty then [frame] else []) ++ q'.lane p := by
  simp only [start, idle] at h
  cases express : q.express with
  | cons f rest =>
      simp only [express] at h
      cases h
      refine ⟨rfl, fun p => ?_⟩
      cases p <;> simp [lane, express]
  | nil =>
      simp only [express] at h
      cases regular : q.regular with
      | cons f rest =>
          simp only [regular] at h
          cases h
          refine ⟨rfl, fun p => ?_⟩
          cases p <;> simp [lane, express, regular]
      | nil =>
          simp only [regular] at h
          cases h

/-- The frame to send next is the one in progress or, if there is none, leaves the front of a
lane. -/
theorem start_lane (h : q.start = some (frame, q')) :
    q'.current = some frame ∧ (q' = q ∨ q.current = none ∧
      ∃ first, ∀ p, q.lane p = (if p = first then [frame] else []) ++ q'.lane p) := by
  cases current : q.current with
  | none =>
      obtain ⟨current', lanes⟩ := lane_start current h
      exact ⟨current', .inr ⟨rfl, _, lanes⟩⟩
  | some f =>
      simp only [start, current] at h
      cases h
      exact ⟨current, .inl rfl⟩

@[simp] theorem lane_advance (q : Outbox) (frame : Bytes) (count : Nat) (p : Bool) :
    (q.advance frame count).lane p = q.lane p := by cases p <;> rfl

/-- Of a frame in progress what was not sent is left. -/
theorem current_advance (q : Outbox) (frame : Bytes) (count : Nat) :
    (q.advance frame count).current.getD [] = frame.drop count := by
  simp only [advance]
  split
  next sent => simp [List.isEmpty_iff.mp sent]
  next => rfl

/-- A pipe takes all that it has room for. -/
theorem write_space (e : PipeEnd) (p : Pipe) (frame : Bytes) :
    let offered := frame.take ((Pipe.transport e).space p)
    (Pipe.transport e).write offered p =
      (offered.length, p.setOutgoing e (p.outgoing e ++ offered)) := by
  have all : (frame.take (p.space e)).take (p.space e) = frame.take (p.space e) := by
    rw [List.take_take, Nat.min_self]
  simp only [Pipe.transport, Pipe.write, all]

/-- A drain into a pipe succeeds.  What starting a frame and moving bytes of it into the pipe
keep holds after it. -/
theorem drainOnto_pipe {e : PipeEnd} {P : Outbox → Pipe → Prop}
    (starts : ∀ q q' p frame, P q p → q.start = some (frame, q') → P q' p)
    (sends : ∀ q p frame count, P q p → q.current = some frame →
      P (q.advance frame count) (p.setOutgoing e (p.outgoing e ++ frame.take count)))
    {q : Outbox} {p : Pipe} (report : DrainReport) (h : P q p) :
    ∃ report' q' p', q.drainOnto (Pipe.transport e) p report = (.ok report', q', p') ∧ P q' p' := by
  fun_induction Outbox.drainOnto (Pipe.transport e) q p report with
  | case1 q p report started => exact ⟨_, _, _, rfl, h⟩
  | case2 q p report frame q' started space full =>
      exact ⟨_, _, _, rfl, starts _ _ _ _ h started⟩
  | case3 q p report frame q' started space room offered p' wrote =>
      have moved := wrote.symm.trans (write_space e p frame)
      have none : offered = [] := List.length_eq_zero_iff.mp (congrArg Prod.fst moved).symm
      have same : p' = p.setOutgoing e (p.outgoing e ++ offered) := congrArg Prod.snd moved
      have kept : p.setOutgoing e (p.outgoing e) = p := by cases e <;> rfl
      rw [none, List.append_nil, kept] at same
      exact ⟨_, _, _, rfl, same ▸ starts _ _ _ _ h started⟩
  | case4 q p report frame q' started space room offered p' wrote some finished ih =>
      obtain rfl : p' = p.setOutgoing e (p.outgoing e ++ offered) :=
        congrArg Prod.snd (wrote.symm.trans (write_space e p frame))
      have part : offered = frame.take offered.length :=
        List.prefix_iff_eq_take.mp (List.take_prefix space frame)
      have sent := sends _ _ _ offered.length (starts _ _ _ _ h started) (start_lane started).1
      rw [← part] at sent
      exact ih sent
  | case5 q p report frame q' started space room offered written p' wrote some part =>
      exact absurd (congrArg Prod.fst (wrote.symm.trans (write_space e p frame))) part

end Outbox

end SpanningMesh
