import SpanningMesh.Proofs.Link.Ledger

/-!
# Who waits for whom

A frame with priority overtakes every regular frame that has not been started.  A drain starts
the next frame before it knows whether there is room for any of it, so a drain that is blocked
can leave a regular frame started of which nothing was sent, and what comes then with priority
waits for it (`Ledger.started_frame_delays_priority`).

That is all that can happen.  While bytes of a regular frame are written, only such frames wait
with priority as were taken in after it was started, and none waits in the drain that starts it
(`Ledger.priority_waits_since_start`).
-/

namespace SpanningMesh

namespace Ledger

variable {τ : Type} {l : Ledger}

/-- The moments that follow are those of the writes, in order. -/
theorem map_write_following (l : Ledger) (ws : List Write) :
    (l.following ws).map Moment.write = ws := by
  induction ws generalizing l with
  | nil => rfl
  | cons w ws ih => rw [following, List.map_cons, ih]

/-- The books tell of every write of a call. -/
theorem Sound.tells_moments (h : l.Sound) (c : Outbox.Call τ) : ∀ m ∈ l.moments c, l.Tells m := by
  cases c with
  | enqueue parcel headroom => simp [moments, Outbox.writesBy, following]
  | drain t s =>
      obtain ⟨sent, k, q₁, last, r, s', sends, stops, -, writes⟩ :=
        Outbox.drain_course t l.outbox s
      rw [moments, Outbox.writesBy, writes]
      exact h.tells_following sends stops

/-- Nothing waits with priority while a regular frame is written that no earlier call started. -/
theorem Tells.express_eq_nil {m : Moment} (h : l.Tells m) {u : Underway}
    (underway : m.ledger.underway = some u) (regular : u.priority = false)
    (fresh : l.underway = none ∨ l.finished ≠ m.ledger.finished) :
    m.ledger.outbox.express = [] := by
  obtain ⟨bytes, k, proceeds⟩ := h.proceeds
  obtain ⟨later, all, express⟩ := h.sound.since u underway regular
  have before : u.before = l.accepted := by
    refine (proceeds.underway u underway).resolve_right ?_
    rintro ⟨rfl, u₀, held, -⟩
    obtain ⟨more, finished, none⟩ := proceeds.finished
    rw [List.length_eq_zero_iff.mp none, List.append_nil] at finished
    rcases fresh with idle | other
    · rw [idle] at held
      cases held
    · exact other finished.symm
  rw [proceeds.accepted, before] at all
  rw [express, List.self_eq_append_right.mp all]
  rfl

/-- Whatever calls an outbox had, every write of the next one is of bytes of the frame in
progress.  If that is a regular frame, then the frames that wait with priority are those that
were taken in since it was started.  None waits if it was started by this very call, that is if
no frame was in progress when the call began or one has been finished since. -/
theorem priority_waits_since_start (maxPending minFree : Nat) (calls : List (Outbox.Call τ))
    (c : Outbox.Call τ) :
    let q := calls.foldl Outbox.call { maxPending, minFree }
    let l := (opened maxPending minFree).run calls
    l.outbox = q ∧ (l.moments c).map Moment.write = q.writesBy c ∧
      ∀ m ∈ l.moments c, ∃ u, m.ledger.underway = some u ∧
        m.ledger.outbox.current = some u.rest ∧ m.write.offered <+: u.rest ∧
          (u.priority = false →
            (∃ later, m.ledger.accepted = u.before ++ later ∧
              m.ledger.outbox.express = Parcel.ofLane true later) ∧
            (q.current = none ∨ l.finished ≠ m.ledger.finished →
              m.ledger.outbox.express = [])) := by
  intro q l
  have sound : l.Sound := ((sound_opened maxPending minFree).run calls).1
  have outbox : l.outbox = q := ((sound_opened maxPending minFree).run calls).2
  refine ⟨outbox, outbox ▸ l.map_write_following _, fun m there => ?_⟩
  have told := sound.tells_moments c m there
  obtain ⟨u, underway, part⟩ := told.frame
  have current : m.ledger.outbox.current = some u.rest := by
    rw [told.sound.current, underway, Option.map_some]
  refine ⟨u, underway, current, part, fun regular => ⟨told.sound.since u underway regular, ?_⟩⟩
  intro fresh
  refine told.express_eq_nil underway regular (fresh.imp_left fun idle => ?_)
  rw [← outbox, sound.current] at idle
  exact Option.map_eq_none_iff.mp idle

/-- A regular frame is taken in, a drain finds no room, and a frame with priority is taken in. -/
def stalled : List (Outbox.Call (Nat × List Nat)) :=
  [.enqueue ⟨false, [1, 1]⟩ 100, .drain .budget (0, []), .enqueue ⟨true, [9]⟩ 100]

/-- The first write of the next drain is of the regular frame. -/
theorem first_moment_stalled :
    ⟨((opened 8 0).run stalled).start, ⟨[1, 1], 2⟩⟩ ∈
      ((opened 8 0).run stalled).moments (.drain .budget (9, [])) := by
  have writes : ((opened 8 0).run stalled).outbox.writesBy (.drain .budget (9, [])) =
      [⟨[1, 1], 2⟩, ⟨[9], 1⟩] := by decide +kernel
  rw [moments, writes]
  exact List.mem_cons_self

/-- When the regular frame is written at last, the frame that waits with priority is one that was
taken in since. -/
theorem priority_waits_since_start_stalled :
    let l := (opened 8 0).run stalled
    ∃ m ∈ l.moments (.drain .budget (9, [])), ∃ u, m.ledger.underway = some u ∧
      u.priority = false ∧ ∃ later, m.ledger.accepted = u.before ++ later ∧
        m.ledger.outbox.express = Parcel.ofLane true later := by
  intro l
  obtain ⟨-, -, tells⟩ := priority_waits_since_start 8 0 stalled (.drain .budget (9, []))
  obtain ⟨u, underway, -, -, waits⟩ := tells _ first_moment_stalled
  have lane : l.start.underway.map Underway.priority = some false := by decide +kernel
  have regular : u.priority = false := by
    rw [show l.start.underway = some u from underway] at lane
    exact Option.some.inj lane
  exact ⟨_, first_moment_stalled, u, underway, regular, (waits regular).1⟩

/-- The first bytes of a regular frame are written while a frame waits with priority, which is
sent after it. -/
theorem started_frame_delays_priority :
    let l := (opened 8 0).run stalled
    let c := Outbox.Call.drain .budget (9, [])
    (∃ m ∈ l.moments c, ∃ u, m.ledger.underway = some u ∧ u.priority = false ∧ u.sent = [] ∧
      m.write.Whole ∧ m.ledger.outbox.express = [[9]]) ∧
      (l.outbox.writesBy c).flatMap Write.bytes = [1, 1, 9] := by
  intro l c
  have underway : l.start.underway = some ⟨false, [], [1, 1], [⟨false, [1, 1]⟩]⟩ := by
    decide +kernel
  have waits : l.start.outbox.express = [[9]] := by decide +kernel
  refine ⟨⟨_, first_moment_stalled, _, underway, rfl, rfl, by decide, waits⟩, ?_⟩
  decide +kernel

end Ledger

end SpanningMesh
