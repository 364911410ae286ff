import SpanningMesh.Network.Outlets
import SpanningMesh.Proofs.Clock.Pair

/-!
# A clock that follows another

Every reply moves the clock of the follower by the mean of the two differences that are noted for
it: how far the leader was ahead when the follower asked, and how far when the reply arrived.  The
clocks then agree exactly if this mean is the difference that there is when the reply is handled
(`follower_after_reply`).

Only a reply that is handled changes how far the leader is ahead (`Sound.past_step`).  So the clocks
agree after a reply if no other was handled since its request was sent, and of two replies whose
exchanges overlap the second leads away again (`overlapping_replies_miss`).
-/

namespace SpanningMesh

namespace ClockPair

variable {σ : Type} [Host σ] {w v : ClockPair σ} {s t : Side} {x : TimeExchange} {asked m : Mark}
  {note : Note}

/-! ## How clocks change -/

/-- Nothing is handled at a node, or the step that is told next moves its clock.  The clock of the other
node goes on. -/
theorem Sound.time_handle (h : w.Sound) (s : Side) :
    ((w.node s).nextTold? (w.link s) = none ∧ ∀ t, (w.handle s).time t = w.time t) ∨
      ∃ x note arrival, (w.node s).nextTold? (w.link s) = some x ∧
        (w.notes s).head? = some note ∧ Came w.delay note arrival x s ∧
        (w.handle s).time s = w.time s + x.shift arrival ∧
        ∀ t, t ≠ s → (w.handle s).time t = w.time t := by
  have handled : ∀ t, (w.handle s).time t = (w.replace s
      ((w.node s).readFrames (.idle σ Empty) (w.link s) 1) (w.notes s).tail).time t :=
    fun t => time_emit ..
  simp only [handled]
  rcases h.next_cases s with
    empty | ⟨l, body, arrival, rest, note, notes, x, hl, inbox, noted, ⟨sender, dest, read⟩, came, -⟩
  · refine .inl ⟨?_, fun t => ?_⟩
    · cases hl : (w.node s).link? (w.link s) with
      | none => simp [Node.nextTold?, hl]
      | some l => simp [Node.nextTold?, hl, empty l hl]
    · rw [Node.readNext_of_empty empty, time_replace fun _ => rfl]
  · have ready := h.ready s l hl
    have heard := Node.hears_readNext ready.nodup ready.own hl inbox ⟨sender, dest, read⟩
    refine .inr ⟨x, note, arrival, ?_, by simp [noted], came, ?_, fun t other => ?_⟩
    · simp [Node.nextTold?, hl, inbox, read, Except.toOption, Packet.timeSync]
    · simp only [ClockPair.time, ClockPair.replace, Function.update_self]
      exact heard.2
    · exact time_replace (fun same => absurd same.symm other) _

/-! ## Moments that are noted -/

/-- A moment has come already.  If no reply was handled since, the leader is still as far ahead. -/
structure Past (w : ClockPair σ) (m : Mark) : Prop where
  le : m.replies ≤ w.replies
  gap : m.replies = w.replies → m.gap = w.gap

/-- The moments that are noted of a frame have come already, and it arrived after the follower had
asked. -/
structure Noted (w : ClockPair σ) (note : Note) : Prop where
  asked : w.Past note.asked
  heard : w.Past note.heard
  order : note.asked.replies ≤ note.heard.replies

/-- All moments that are noted in a pair have come already in another. -/
structure Dated (w v : ClockPair σ) : Prop where
  transit : ∀ s, ∀ a ∈ v.transit s, w.Past a.asked
  notes : ∀ s, ∀ note ∈ v.notes s, w.Noted note

omit [Host σ] in
theorem past_mark (w : ClockPair σ) : w.Past w.mark := ⟨Nat.le_refl _, fun _ => rfl⟩

omit [Host σ] in
/-- What was past stays past. -/
theorem Past.mono (past : w.Past m) (later : v.Past w.mark) : v.Past m where
  le := Nat.le_trans past.le later.le
  gap := by
    intro same
    have between : m.replies = w.mark.replies := Nat.le_antisymm past.le (same ▸ later.le)
    exact (past.gap between).trans (later.gap (between.symm.trans same))

omit [Host σ] in
theorem past_of_time (replies : v.replies = w.replies) (time : ∀ t, v.time t = w.time t) :
    v.Past w.mark := by
  refine ⟨Nat.le_of_eq replies.symm, fun _ => ?_⟩
  simp only [ClockPair.mark, ClockPair.gap, time]

omit [Host σ] in
/-- If no reply was handled since the follower asked, none was since the frame arrived. -/
theorem Noted.gap (noted : w.Noted note) (same : note.asked.replies = w.replies) :
    note.asked.gap = w.gap ∧ note.heard.gap = w.gap :=
  ⟨noted.asked.gap same,
    noted.heard.gap (Nat.le_antisymm noted.heard.le (same ▸ noted.order))⟩

omit [Host σ] in
/-- Moments that have come at one time have come at any later one. -/
theorem Dated.later (h : Dated w v) (later : v.Past w.mark) : Dated v v where
  transit s a ha := (h.transit s a ha).mono later
  notes s note waits :=
    let noted := h.notes s note waits
    ⟨noted.asked.mono later, noted.heard.mono later, noted.order⟩

omit [Host σ] in
theorem Dated.replace {notes : List Note} (h : Dated w v) (n : Node σ Empty)
    (noted : ∀ note ∈ notes, w.Noted note) : Dated w (v.replace s n notes) where
  transit := h.transit
  notes := (Function.forall_update_iff v.notes fun _ notes => ∀ note ∈ notes, w.Noted note).mpr
    ⟨noted, fun t _ => h.notes t⟩

omit [Host σ] in
theorem Dated.setTransit {letters : List Letter} (h : Dated w v)
    (past : ∀ a ∈ letters, w.Past a.asked) : Dated w (v.setTransit s letters) where
  transit := (Function.forall_update_iff v.transit fun _ letters => ∀ a ∈ letters, w.Past a.asked).mpr
    ⟨past, fun t _ => h.transit t⟩
  notes := h.notes

omit [Host σ] in
theorem Dated.setReplies (h : Dated w v) (replies : Nat) : Dated w (v.setReplies replies) :=
  ⟨h.transit, h.notes⟩

omit [Host σ] in
theorem Dated.emit (h : Dated w v) (s : Side) (past : w.Past asked) :
    Dated w (v.emit s asked) := by
  simp only [ClockPair.emit]
  split
  · exact h
  · refine (h.replace _ (h.notes s)).setTransit fun a ha => ?_
    rcases List.mem_append.mp ha with old | new
    · exact h.transit s.other a old
    · obtain ⟨f, -, rfl⟩ := List.mem_map.mp new
      exact past

omit [Host σ] in
/-- What a node asks first is asked now. -/
theorem Dated.begun (h : Dated w w) (s : Side) : w.Past (w.begun s) := by
  cases s with
  | follower => exact past_mark w
  | leader =>
      simp only [ClockPair.begun]
      cases noted : w.notes .leader with
      | nil => exact past_mark w
      | cons note notes => exact (h.notes .leader note (noted ▸ List.mem_cons_self)).asked

/-- What a step notes is what was noted before, and the moment that there is. -/
theorem Dated.step (h : Dated w w) (a : Step) : Dated w (w.step a) := by
  cases a with
  | wait =>
      refine ⟨fun s a ha => ?_, h.notes⟩
      obtain ⟨b, old, rfl⟩ := List.mem_map.mp ha
      exact h.transit s b old
  | tick s => exact (h.replace _ (h.notes s)).emit s (past_mark w)
  | deliver s =>
      simp only [ClockPair.step, ClockPair.deliver]
      split
      · exact h
      next a rest travelling =>
        split
        · have asked : w.Past a.asked := h.transit s a (travelling ▸ List.mem_cons_self)
          refine (h.replace _ fun note waits => ?_).setTransit fun b hb =>
            h.transit s b (travelling ▸ List.mem_cons_of_mem a hb)
          rcases List.mem_append.mp waits with old | new
          · exact h.notes s note old
          · rw [List.mem_singleton.mp new]
            exact ⟨asked, past_mark w, asked.le⟩
        · exact h
  | handle s =>
      have read := h.replace (s := s) ((w.node s).readFrames (.idle σ Empty) (w.link s) 1)
        fun note waits => h.notes s note (List.mem_of_mem_tail waits)
      exact (read.emit s (h.begun s)).setReplies _

/-- The leader gets further ahead, or less far, only when a reply is handled. -/
theorem Sound.past_handle (h : w.Sound) (s : Side) : (w.handle s).Past w.mark := by
  have replies : (w.handle s).replies = w.replies + (w.hearsReply s).toNat := rfl
  rcases h.time_handle s with ⟨nothing, time⟩ | ⟨x, note, arrival, next, -, -, moved, others⟩
  · have silent : w.hearsReply s = false := by simp [ClockPair.hearsReply, nothing]
    exact past_of_time (by simp [replies, silent]) time
  by_cases reply : x.stage = .reply
  · have heard : w.hearsReply s = true := by simp [ClockPair.hearsReply, next, reply]
    refine ⟨replies ▸ Nat.le_add_right _ _, fun same => ?_⟩
    rw [replies, heard] at same
    exact absurd same (Nat.ne_of_lt (Nat.lt_succ_self _))
  · have silent : w.hearsReply s = false := by simp [ClockPair.hearsReply, next, reply]
    refine past_of_time (by simp [replies, silent]) fun t => ?_
    by_cases here : t = s
    · rw [here, moved, x.shift_of_ne reply, UInt32.add_zero]
    · exact others t here

/-- A step leads to no earlier mark. -/
theorem Sound.past_step (h : w.Sound) (a : Step) : (w.step a).Past w.mark := by
  cases a with
  | wait =>
      refine ⟨Nat.le_refl _, fun _ => ?_⟩
      have same : w.time .leader + 1 - (w.time .follower + 1) =
          w.time .leader - w.time .follower := by grind
      simp only [ClockPair.step, ClockPair.mark, ClockPair.gap, time_wait, timeBetween, same]
  | tick s =>
      refine past_of_time (replies_emit ..) fun t => ?_
      simp only [ClockPair.step, ClockPair.tick, time_emit]
      exact time_replace (fun _ => Node.time_startClockSync ..) _
  | deliver s =>
      simp only [ClockPair.step, ClockPair.deliver]
      split
      · exact past_mark w
      next a rest travelling =>
        split
        next due =>
          have arrived := h.arrived (travelling ▸ List.mem_cons_self) due
          refine past_of_time rfl fun t => ?_
          rw [time_setTransit, time_replace fun _ => arrived.1]
        · exact past_mark w
  | handle s => exact h.past_handle s

/-- All that is on its way after a run was asked in the past. -/
theorem Sound.dated_run (h : w.Sound) (dated : Dated w w) (steps : List Step) :
    Dated (w.run steps) (w.run steps) := by
  induction steps generalizing w with
  | nil => exact dated
  | cons a steps ih => exact ih (h.step a) ((dated.step a).later (h.past_step a))

/-! ## What a reply does -/

/-- Nothing is on its way and nothing waits.  The follower adopts the time of the leader and the leader
does not adopt that of the follower, and both handle the steps of setting clocks themselves. -/
structure Fresh (w : ClockPair σ) : Prop where
  transit : ∀ s, w.transit s = []
  notes : ∀ s, w.notes s = []
  follows : (w.node .follower).view.adoptsTimeFrom (w.link .follower) = true
  leads : (w.node .leader).view.adoptsTimeFrom (w.link .leader) = false
  own : ∀ s, (w.node s).handlers.handlers Kind.timeSync = [.node]
  nodup : ∀ s, (w.node s).linkIds.Nodup
  idle : ∀ s l, (w.node s).link? (w.link s) = some l →
    l.outbox.frames = [] ∧ l.inbox = [] ∧ l.reassembler.buffer.toList = []

omit [Host σ] in
/-- Two clocks between which nothing travels are sound. -/
theorem Fresh.sound (h : w.Fresh) : w.Sound where
  transit := by
    intro s a ha
    rw [h.transit s] at ha
    cases ha
  ready := by
    intro s l hl
    obtain ⟨-, inbox, buffer⟩ := h.idle s l hl
    refine ⟨h.nodup s, h.own s, ?_, buffer, ?_⟩
    · cases s with
      | follower => exact h.follows
      | leader => exact h.leads
    · rw [inbox, h.notes s]
      exact .nil
  sent := fun s l hl => (h.idle s l hl).1

omit [Host σ] in
theorem Fresh.dated (h : w.Fresh) : Dated w w := by
  refine ⟨fun s a ha => ?_, fun s note waits => ?_⟩
  · rw [h.transit s] at ha
    cases ha
  · rw [h.notes s] at waits
    cases waits

/-- A reply moves the clock of the follower by the mean of two differences: how far the leader was
ahead when the follower asked, and how far when the reply arrived.  So the clocks agree after it
exactly if the mean is how far the leader is ahead when the reply is handled, and they do if no other
reply was handled since the follower asked.

Both differences have to stay within a signed word with the time that a frame takes. -/
theorem follower_after_reply {steps : List Step} (fresh : w.Fresh) (run : w.run steps = v)
    (next : (v.node .follower).nextTold? (v.link .follower) = some x) (reply : x.stage = .reply) :
    ∃ note, (v.notes .follower).head? = some note ∧
      (note.asked.gap + v.delay < 2147483648 → -2147483648 ≤ note.heard.gap - v.delay →
        (v.handle .follower).time .follower = v.time .follower +
            (Int32.ofInt ((note.asked.gap + note.heard.gap).tdiv 2)).toUInt32 ∧
          ((v.handle .follower).time .follower = (v.handle .follower).time .leader ↔
            (note.asked.gap + note.heard.gap).tdiv 2 = v.gap) ∧
          (note.asked.replies = v.replies →
            (v.handle .follower).time .follower = (v.handle .follower).time .leader)) := by
  have sound : v.Sound := run ▸ fresh.sound.run steps
  have dated : Dated v v := run ▸ fresh.sound.dated_run fresh.dated steps
  rcases sound.time_handle .follower with
    ⟨nothing, -⟩ | ⟨y, note, arrival, told, first, came, moved, others⟩
  · rw [nothing] at next
    cases next
  obtain rfl : x = y := Option.some.inj (next.symm.trans told)
  refine ⟨note, first, fun ahead behind => ?_⟩
  rcases came with invite | ⟨-, there, back⟩
  · rw [reply] at invite
    cases invite
  have offset := x.offset_eq there back ahead behind
  have shift : x.shift arrival =
      (Int32.ofInt ((note.asked.gap + note.heard.gap).tdiv 2)).toUInt32 := by
    simp only [TimeExchange.shift, reply, offset]
  have mean := timeBetween_mean x.t0 (x.t1 - .ofNat v.delay) arrival (x.t2 + .ofNat v.delay)
  rw [← there, ← back] at mean
  rw [moved, others .leader (by decide), shift]
  have agrees := add_eq_iff_timeBetween (s := v.time .follower) (t := v.time .leader) mean.1 mean.2
  refine ⟨rfl, agrees, fun same => agrees.mpr ?_⟩
  obtain ⟨asked, heard⟩ := (dated.notes .follower note (List.mem_of_mem_head? first)).gap same
  rw [asked, heard, ← Int.two_mul]
  exact Int.mul_tdiv_cancel_left _ (by decide)

/-! ## Exchanges that overlap -/

/-- Without an application there is one handler. -/
instance : DecidableEq (Handler Empty)
  | .node, .node => .isTrue rfl

/-- A node with a link on which it accepted a tree. -/
def joined (id : UInt32) (root : Bool) (peer : UInt32) : Node (Outlets Unit) Empty :=
  let n : Node (Outlets Unit) Empty := { Node.create id {} { application := () } with root }
  (n.addLink root).2.hearTree ⟨1⟩ peer ⟨peer, !root, []⟩ false

/-- A root and a node that adopts its time. -/
def corner : Side → Node (Outlets Unit) Empty
  | .follower => joined 1 false 2
  | .leader => joined 2 true 1

/-- The two of them, with clocks that differ. -/
def apart (difference : Int32) : ClockPair (Outlets Unit) where
  node s := (corner s).adjustTime (if s = .leader then difference else 0)
  link := fun _ => ⟨1⟩
  delay := 2

theorem fresh_apart (difference : Int32) : (apart difference).Fresh := by
  have same : ∀ s, Node.Feeds (fun _ _ => False) (corner s) ((apart difference).node s) :=
    fun s => Node.feeds_adjustTime (corner s) _
  refine ⟨fun _ => rfl, fun _ => rfl, ?_, ?_, fun s => ?_, fun s => ?_, fun s => ?_⟩
  · rw [(same .follower).view_eq]
    show (corner .follower).view.adoptsTimeFrom ⟨1⟩ = true
    decide +kernel
  · rw [(same .leader).view_eq]
    show (corner .leader).view.adoptsTimeFrom ⟨1⟩ = false
    decide +kernel
  · rw [(same s).handlers]
    cases s <;> decide +kernel
  · rw [(same s).linkIds_eq]
    cases s <;> decide +kernel
  · show ∀ l ∈ (corner s).link? ⟨1⟩,
      l.outbox.frames = [] ∧ l.inbox = [] ∧ l.reassembler.buffer.toList = []
    cases s <;> decide +kernel

/-- One exchange, from the tick of the follower to the arrival of the reply. -/
def exchange : List Step :=
  [.tick .follower, .wait, .wait, .deliver .leader, .handle .leader, .wait, .wait,
    .deliver .follower]

/-- A reply to the only request of a node brings its clock onto that of its neighbour. -/
theorem follower_after_reply_exchange :
    (apart 1000).Fresh ∧
      (((apart 1000).run exchange).node .follower).nextTold?
        (((apart 1000).run exchange).link .follower) = some ⟨.reply, 0, 1002, 1002⟩ ∧
      (((apart 1000).run exchange).handle .follower).time .follower =
        (((apart 1000).run exchange).handle .follower).time .leader := by
  have next : (((apart 1000).run exchange).node .follower).nextTold?
      (((apart 1000).run exchange).link .follower) = some ⟨.reply, 0, 1002, 1002⟩ := by
    decide +kernel
  have first : (((apart 1000).run exchange).notes .follower).head? =
      some ⟨⟨1000, 0⟩, ⟨1000, 0⟩⟩ := by
    decide +kernel
  have fresh := fresh_apart 1000
  obtain ⟨note, noted, met⟩ := follower_after_reply fresh rfl next rfl
  rw [first] at noted
  cases noted
  have ahead : (1000 : Int) + ((apart 1000).run exchange).delay < 2147483648 := by decide +kernel
  have behind : -2147483648 ≤ (1000 : Int) - ((apart 1000).run exchange).delay := by decide +kernel
  have alone : 0 = ((apart 1000).run exchange).replies := by decide +kernel
  obtain ⟨-, -, agree⟩ := met ahead behind
  exact ⟨fresh, next, agree alone⟩

/-- Two exchanges of which the second begins before the first ends, up to the arrival of the second
reply. -/
def overlapping : List Step :=
  [.tick .follower, .wait, .tick .follower, .wait, .deliver .leader, .handle .leader, .wait,
    .deliver .leader, .handle .leader, .wait, .deliver .follower, .handle .follower, .wait,
    .deliver .follower]

/-- A reply need not bring the clock of the follower onto that of the leader.  The second of two that
overlap leads away by half of the difference that the first one made up for.  And a difference that
leads out of a signed word on its way is made up for in the wrong direction. -/
theorem overlapping_replies_miss :
    ((apart 1000).Fresh ∧
      (((apart 1000).run overlapping).node .follower).nextTold?
        (((apart 1000).run overlapping).link .follower) = some ⟨.reply, 1, 1003, 1003⟩ ∧
      (((apart 1000).run overlapping).handle .follower).time .follower = 1505 ∧
      (((apart 1000).run overlapping).handle .follower).time .leader = 1005) ∧
    (apart 2147483646).Fresh ∧
      (((apart 2147483646).run exchange).node .follower).nextTold?
        (((apart 2147483646).run exchange).link .follower) =
          some ⟨.reply, 0, 2147483648, 2147483648⟩ ∧
      (((apart 2147483646).run exchange).handle .follower).time .follower = 2 ∧
      (((apart 2147483646).run exchange).handle .follower).time .leader = 2147483650 := by
  refine ⟨⟨fresh_apart 1000, ?_, ?_, ?_⟩, fresh_apart 2147483646, ?_, ?_, ?_⟩ <;> decide +kernel

end ClockPair

end SpanningMesh
