import SpanningMesh.Proofs.Link.Ledger

/-!
# What goes into an outbox comes out of it

Whatever is asked of an outbox and whatever its transports answer, no frame is lost, doubled or
cut apart by another (`Ledger.frames_conserved`).  As long as every write is answered with
nothing or with all that was offered, what the transports took is one finished frame after the
other and then the first part of the frame in progress.

A drain ends, since every write but the last takes something.  It is blocked just when something
is left to send, and it fails just when a write is answered otherwise.  A drain that fails leaves
all frames as they were after the last whole write, but the next of them is started, and no frame
that comes later overtakes it (`Ledger.failed_drain_starts_next`).
-/

namespace SpanningMesh

namespace Ledger

variable {τ : Type} {l : Ledger}

/-- A frame that is taken in sends nothing. -/
theorem stream_enqueue (l : Ledger) (parcel : Parcel) (headroom : Nat) :
    (l.enqueue parcel headroom).stream = l.stream := by
  unfold Ledger.enqueue
  split <;> rfl

/-- If all writes are fair, the books have every byte that a transport took. -/
theorem Sound.stream_run (h : l.Sound) {calls : List (Outbox.Call τ)}
    (fair : ∀ w ∈ l.outbox.writesByAll calls, w.Fair) :
    (l.run calls).stream = l.stream ++ (l.outbox.writesByAll calls).flatMap Write.bytes := by
  induction calls generalizing l with
  | nil =>
      rw [Outbox.writesByAll, List.flatMap_nil, List.append_nil]
      rfl
  | cons c calls ih =>
      obtain ⟨sound, outbox⟩ := h.call c
      have first : (l.call c).stream = l.stream ++ (l.outbox.writesBy c).flatMap Write.bytes := by
        cases c with
        | enqueue parcel headroom => exact (stream_enqueue ..).trans (List.append_nil _).symm
        | drain t s =>
            obtain ⟨sent, k, q₁, last, r, s', -, stops, -, writes, -, -, proceeds⟩ := h.drain t s
            rw [Outbox.writesByAll, Outbox.writesBy, writes] at fair
            obtain ⟨-, none⟩ := stops.result_of_fair rfl fun w there =>
              fair w (List.mem_append_left _ (List.mem_append_right _ there))
            rw [Outbox.writesBy, writes, List.flatMap_append, none, List.append_nil,
              proceeds.stream]
      have rest := ih sound fun w there =>
        fair w (List.mem_append_right _ (outbox ▸ there))
      rw [Outbox.writesByAll, List.flatMap_append, ← List.append_assoc, ← first, ← outbox]
      exact rest

/-- What comes of a drain, by its writes. -/
theorem Sound.drain_result (h : l.Sound) (t : Transport τ) (s : τ) :
    (l.outbox.writes t s).length ≤ l.outbox.bytes + 1 ∧
      ((∀ w ∈ l.outbox.writes t s, w.Fair) → ∃ report s' new,
        l.outbox.drain t s = (.ok report, (l.call (.drain t s)).outbox, s') ∧
          (report.blocked = true ↔ (l.call (.drain t s)).outbox.isEmpty = false) ∧
          report.written = ((l.outbox.writes t s).flatMap Write.bytes).length ∧
          (l.call (.drain t s)).finished = l.finished ++ new ∧ report.frames = new.length) ∧
      ∀ w ∈ l.outbox.writes t s, ¬ w.Fair → ∃ sent k after s',
        l.outbox.writes t s = sent ++ [w] ∧ l.outbox.Sends sent k after ∧
          l.outbox.drain t s =
            (.error (.partialWrite w.offered.length w.taken), after.started, s') := by
  obtain ⟨sent, k, q₁, last, r, s', sends, stops, drained, writes, sound, outbox, proceeds⟩ :=
    h.drain t s
  rw [writes, outbox, drained]
  refine ⟨?_, fun fair => ?_, fun w there unfair => ?_⟩
  · have bytes := sends.bytes
    have whole := sends.length_le
    have rest : last.length ≤ 1 := by obtain rfl | ⟨w, rfl, -⟩ := stops.last_cases <;> simp
    rw [List.length_append]
    omega
  · obtain ⟨rfl, none⟩ := stops.result_of_fair rfl fun w there =>
      fair w (List.mem_append_right _ there)
    obtain ⟨new, finished, rfl⟩ := proceeds.finished
    refine ⟨_, s', new, rfl, ?_, ?_, finished, Nat.zero_add _⟩
    · rw [Outbox.isEmpty_started]
      simp
    · rw [List.flatMap_append, none, List.append_nil]
      exact Nat.zero_add _
  · have there : w ∈ last := by
      rcases List.mem_append.mp there with whole | there
      · exact absurd (sends.whole w whole).fair unfair
      · exact there
    obtain ⟨rfl, rfl⟩ := stops.result_of_unfair there unfair
    exact ⟨sent, k, q₁, s', rfl, sends, rfl⟩

/-- Whatever calls an outbox had, if every write was answered with nothing or with all that was
offered: the transports took the finished frames, whole and one after the other, and then a first
part of the frame in progress, whose rest the outbox has.  The frames that each lane took in are,
in this order, those that are finished, the one in progress and those that wait.

A drain that follows makes at most one write more than there are bytes to send.  If its writes
are answered likewise it succeeds.  It reports what the transport took and how many frames were
finished, and that it is blocked just when something is left.  If a write is answered otherwise
it was the last one and the drain fails.  The outbox is then as the whole writes before it
left it, but for the next frame, which is started.  What waits and in which order is the same. -/
theorem frames_conserved (maxPending minFree : Nat) (calls : List (Outbox.Call τ))
    (fair : ∀ w ∈ ({ maxPending, minFree } : Outbox).writesByAll calls, w.Fair) :
    let q := calls.foldl Outbox.call { maxPending, minFree }
    let l := (opened maxPending minFree).run calls
    (l.outbox = q ∧
      (({ maxPending, minFree } : Outbox).writesByAll calls).flatMap Write.bytes =
        (l.finished.map Parcel.frame).flatten ++ (l.underway.map Underway.sent).getD [] ∧
      q.current = l.underway.map Underway.rest ∧
      ∀ p, Parcel.ofLane p l.accepted = Parcel.ofLane p l.finished ++
        Parcel.ofLane p (l.underway.map Underway.parcel).toList ++ q.lane p) ∧
    ∀ (t : Transport τ) (s : τ),
      (q.writes t s).length ≤ q.bytes + 1 ∧
      ((∀ w ∈ q.writes t s, w.Fair) → ∃ report q' s' new,
        q.drain t s = (.ok report, q', s') ∧ (report.blocked = true ↔ q'.isEmpty = false) ∧
          report.written = ((q.writes t s).flatMap Write.bytes).length ∧
          (l.call (.drain t s)).finished = l.finished ++ new ∧ report.frames = new.length) ∧
      ∀ w ∈ q.writes t s, ¬ w.Fair → ∃ sent k after s',
        q.writes t s = sent ++ [w] ∧ q.Sends sent k after ∧
          q.drain t s = (.error (.partialWrite w.offered.length w.taken), after.started, s') ∧
          after.started.pending = after.pending := by
  intro q l
  have opened := sound_opened maxPending minFree
  have sound : l.Sound := (opened.run calls).1
  have outbox : l.outbox = q := (opened.run calls).2
  have stream := opened.stream_run fair
  refine ⟨⟨outbox, stream.symm, outbox ▸ sound.current, outbox ▸ sound.lanes⟩, fun t s => ?_⟩
  obtain ⟨few, succeeds, fails⟩ := sound.drain_result t s
  rw [outbox] at few succeeds fails
  refine ⟨few, fun fair => ?_, fun w there unfair => ?_⟩
  · obtain ⟨report, s', new, result⟩ := succeeds fair
    exact ⟨report, _, s', new, result⟩
  · obtain ⟨sent, k, after, s', writes, sends, result⟩ := fails w there unfair
    exact ⟨sent, k, after, s', writes, sends, result, after.pending_started⟩

/-- Two bytes of a regular frame are sent.  Then one comes with priority and another without. -/
def halfway : List (Outbox.Call (Nat × List Nat)) :=
  [.enqueue ⟨false, [1, 2, 3]⟩ 100, .drain .budget (2, []), .enqueue ⟨true, [9]⟩ 100,
    .enqueue ⟨false, [4]⟩ 100]

/-- If there is room for all of it the rest is sent, and if the second write is answered with five
bytes in place of one the drain fails. -/
theorem frames_conserved_halfway :
    (∀ w ∈ ({ maxPending := 8, minFree := 0 } : Outbox).writesByAll halfway, w.Fair) ∧
      let q := halfway.foldl Outbox.call { maxPending := 8, minFree := 0 }
      (∃ report q' s', q.drain .budget (9, []) = (.ok report, q', s') ∧ report.written = 3 ∧
        (report.blocked = true ↔ q'.isEmpty = false)) ∧
      ∃ sent k after s', q.Sends sent k after ∧
        q.drain .budget (9, [1, 5]) = (.error (.partialWrite 1 5), after.started, s') := by
  have fair : ∀ w ∈ ({ maxPending := 8, minFree := 0 } : Outbox).writesByAll halfway, w.Fair := by
    decide +kernel
  obtain ⟨-, drains⟩ := frames_conserved 8 0 halfway fair
  obtain ⟨-, succeeds, -⟩ := drains .budget (9, [])
  obtain ⟨-, -, fails⟩ := drains .budget (9, [1, 5])
  obtain ⟨report, q', s', new, drained, blocked, written, -⟩ := succeeds (by decide +kernel)
  obtain ⟨sent, k, after, s'', -, sends, failed, -⟩ :=
    fails ⟨[9], 5⟩ (by decide +kernel) (by decide)
  refine ⟨fair, ⟨report, q', s', drained, written.trans ?_, blocked⟩, sent, k, after, s'', sends,
    failed⟩
  decide +kernel

/-- Two regular frames are taken in. -/
def couple : List (Outbox.Call (Nat × List Nat)) :=
  [.enqueue ⟨false, [1, 1]⟩ 100, .enqueue ⟨false, [2, 2]⟩ 100]

/-- The outbox that a failed drain leaves is not the one that its last whole write left: the next
frame has been started.  A frame with priority that comes then is sent after it, and not before
it. -/
theorem failed_drain_starts_next :
    let q := couple.foldl Outbox.call { maxPending := 8, minFree := 0 }
    let after : Outbox := { maxPending := 8, minFree := 0, regular := [[2, 2]] }
    let failed := (q.drain .budget (9, [2, 1])).2.1
    let sent (q : Outbox) := (q.writesByAll
      [.enqueue ⟨true, [9]⟩ 100, .drain .budget (9, [])]).flatMap Write.bytes
    q.writes .budget (9, [2, 1]) = [⟨[1, 1], 2⟩, ⟨[2, 2], 1⟩] ∧ q.Sends [⟨[1, 1], 2⟩] 1 after ∧
      (q.drain .budget (9, [2, 1])).1 = .error (.partialWrite 2 1) ∧ failed ≠ after ∧
      sent failed = [2, 2, 9] ∧ sent after = [9, 2, 2] := by
  intro q after failed sent
  have start : q.start = some ([1, 1], { q with current := some [1, 1], regular := [[2, 2]] }) := rfl
  have first : q.Sends [⟨[1, 1], 2⟩] 1 after :=
    .send start (List.prefix_refl [1, 1]) (by decide) (.done after)
  obtain ⟨sound, outbox⟩ := (sound_opened 8 0).run couple
  obtain ⟨-, -, fails⟩ := sound.drain_result .budget (9, [2, 1])
  rw [outbox] at fails
  obtain ⟨_, _, _, _, -, -, drained⟩ := fails ⟨[2, 2], 1⟩ (by decide +kernel) (by decide)
  refine ⟨?_, first, congrArg Prod.fst drained, ?_, ?_, ?_⟩
  all_goals decide +kernel

end Ledger

end SpanningMesh
