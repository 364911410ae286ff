import SpanningMesh.Proofs.Link.Despatch

/-!
# The books of an outbox

A `Ledger` is an outbox and what became of the frames that it was given: those that it took in,
those of which every byte was sent, and how much was sent of the one in progress.  The books are
written up with every call and every write, and no outbox reads them.

Any calls may come in any order, and every drain may have a transport of its own in any state,
so that nothing is assumed of what happens to a connection between two drains.

The invariant is `Ledger.Sound`.  The frames of each lane are, in the order in which they were
taken in, those that were finished, the one in progress and those that wait in the lane.
-/

namespace SpanningMesh

/-- A frame with the lane that it is for. -/
structure Parcel where
  priority : Bool
  frame : Bytes
deriving Repr, DecidableEq

namespace Parcel

variable {p : Bool} {as bs : List Parcel} {a : Parcel}

/-- The frames for one lane. -/
def ofLane (p : Bool) (as : List Parcel) : List Bytes :=
  (as.filter (·.priority == p)).map Parcel.frame

@[simp] theorem ofLane_nil : ofLane p [] = [] := rfl

@[simp] theorem ofLane_append : ofLane p (as ++ bs) = ofLane p as ++ ofLane p bs := by
  rw [ofLane, List.filter_append, List.map_append, ← ofLane, ← ofLane]

theorem ofLane_singleton : ofLane p [a] = if p = a.priority then [a.frame] else [] := by
  by_cases h : p = a.priority
  · simp [ofLane, h]
  · simp [ofLane, h, Ne.symm h]

end Parcel

/-- What is asked of an outbox. -/
inductive Outbox.Call (τ : Type) where
  | enqueue (parcel : Parcel) (headroom : Nat)
  | drain (t : Transport τ) (s : τ)

namespace Outbox

variable {τ : Type}

/-- The outbox after a call.  A frame that is refused leaves it as it was. -/
def call (q : Outbox) : Call τ → Outbox
  | .enqueue parcel headroom => (q.enqueue parcel.frame parcel.priority headroom).toOption.getD q
  | .drain t s => (q.drain t s).2.1

/-- The writes that a call leads to. -/
def writesBy (q : Outbox) : Call τ → List Write
  | .enqueue _ _ => []
  | .drain t s => q.writes t s

/-- The writes that several calls lead to, oldest first. -/
def writesByAll (q : Outbox) : List (Call τ) → List Write
  | [] => []
  | c :: cs => q.writesBy c ++ (q.call c).writesByAll cs

end Outbox

/-- The frame in progress, as the books have it. -/
structure Underway where
  priority : Bool
  /-- What was sent of it. -/
  sent : Bytes := []
  /-- What is left of it. -/
  rest : Bytes
  /-- The frames that had been taken in when it was started. -/
  before : List Parcel
deriving Repr, DecidableEq

namespace Underway

/-- All of a frame of which a part was sent. -/
def parcel (u : Underway) : Parcel := ⟨u.priority, u.sent ++ u.rest⟩

/-- Some more bytes are sent. -/
def send (u : Underway) (count : Nat) : Underway :=
  { u with sent := u.sent ++ u.rest.take count, rest := u.rest.drop count }

@[simp] theorem parcel_send (u : Underway) (count : Nat) : (u.send count).parcel = u.parcel := by
  simp [parcel, send]

end Underway

/-- An outbox with its books. -/
structure Ledger where
  outbox : Outbox
  /-- The frames that were taken in, oldest first. -/
  accepted : List Parcel := []
  /-- The frames of which all was sent, oldest first. -/
  finished : List Parcel := []
  underway : Option Underway := none

/-- A write, with the ledger as it was and the frame in progress. -/
structure Moment where
  ledger : Ledger
  write : Write

namespace Ledger

/-! ## Keeping the books -/

/-- A new outbox. -/
def opened (maxPending minFree : Nat) : Ledger := ⟨{ maxPending, minFree }, [], [], none⟩

/-- Take in a frame.  It is accepted only if the outbox has it. -/
def enqueue (l : Ledger) (parcel : Parcel) (headroom : Nat) : Ledger :=
  match l.outbox.enqueue parcel.frame parcel.priority headroom with
  | .ok outbox => { l with outbox, accepted := l.accepted ++ [parcel] }
  | .error _ => l

/-- Start the next frame, if none is in progress. -/
def start (l : Ledger) : Ledger :=
  match l.underway, l.outbox.start with
  | none, some (frame, outbox) =>
      let priority := !l.outbox.express.isEmpty
      { l with outbox, underway := some { priority, rest := frame, before := l.accepted } }
  | _, _ => l

/-- Send some bytes of the frame in progress. -/
def send (l : Ledger) (count : Nat) : Ledger :=
  match l.underway with
  | none => l
  | some u =>
      let outbox := l.outbox.advance u.rest count
      let u := u.send count
      if u.rest = [] then
        { l with outbox, finished := l.finished ++ [u.parcel], underway := none }
      else { l with outbox, underway := some u }

/-- The ledger after a write. -/
def write (l : Ledger) (w : Write) : Ledger := if w.Whole then l.start.send w.taken else l.start

/-- The ledger after a call.  A drain starts the next frame even if it writes nothing of it. -/
def call {τ : Type} (l : Ledger) : Outbox.Call τ → Ledger
  | .enqueue parcel headroom => l.enqueue parcel headroom
  | .drain t s => ((l.outbox.writes t s).foldl write l).start

/-- The ledger after several calls. -/
def run {τ : Type} (l : Ledger) (calls : List (Outbox.Call τ)) : Ledger := calls.foldl call l

/-- Each of several writes with the ledger at its time. -/
def following (l : Ledger) : List Write → List Moment
  | [] => []
  | w :: ws => ⟨l.start, w⟩ :: (l.write w).following ws

/-- The writes that a call leads to, each with the ledger at its time. -/
def moments {τ : Type} (l : Ledger) (c : Outbox.Call τ) : List Moment :=
  l.following (l.outbox.writesBy c)

/-- All that was sent, by the books: the finished frames and a first part of the one in
progress. -/
def stream (l : Ledger) : Bytes :=
  (l.finished.map Parcel.frame).flatten ++ (l.underway.map Underway.sent).getD []

/-! ## What stays true -/

/-- The books agree with the outbox. -/
structure Sound (l : Ledger) : Prop where
  current : l.outbox.current = l.underway.map Underway.rest
  lanes : ∀ p, Parcel.ofLane p l.accepted = Parcel.ofLane p l.finished ++
    Parcel.ofLane p (l.underway.map Underway.parcel).toList ++ l.outbox.lane p
  /-- While a regular frame is in progress, what waits with priority came after its start. -/
  since : ∀ u, l.underway = some u → u.priority = false →
    ∃ later, l.accepted = u.before ++ later ∧ l.outbox.express = Parcel.ofLane true later

variable {τ : Type} {l : Ledger} {frame bs : Bytes} {q q' q₁ : Outbox} {ws : List Write} {k : Nat}

/-- The ledger of a new queue is empty. -/
theorem sound_opened (maxPending minFree : Nat) : (opened maxPending minFree).Sound where
  current := rfl
  lanes p := by cases p <;> rfl
  since := by simp [opened]

theorem Sound.enqueue (h : l.Sound) (parcel : Parcel) (headroom : Nat) :
    (l.enqueue parcel headroom).Sound := by
  unfold Ledger.enqueue
  split
  next outbox taken =>
    obtain ⟨current, lanes⟩ := Outbox.enqueue_lane taken
    simp only [← Parcel.ofLane_singleton] at lanes
    refine ⟨current.trans h.current, fun p => ?_, fun u started regular => ?_⟩
    · rw [lanes, Parcel.ofLane_append, h.lanes p, List.append_assoc]
    · obtain ⟨later, all, express⟩ := h.since u started regular
      refine ⟨later ++ [parcel], by rw [all, List.append_assoc], (lanes true).trans ?_⟩
      rw [Parcel.ofLane_append, ← express]
      rfl
  next => exact h

/-- The books know what starting the next frame comes to. -/
theorem Sound.start_cases (h : l.Sound) :
    l.start = l ∧ l.outbox.start = none ∨
      (∃ u, l.start = l ∧ l.underway = some u ∧ l.outbox.start = some (u.rest, l.outbox)) ∨
      ∃ u q, l.start = { l with outbox := q, underway := some u } ∧ l.underway = none ∧
        l.outbox.start = some (u.rest, q) ∧ u.priority = !l.outbox.express.isEmpty ∧
        u.sent = [] ∧ u.before = l.accepted := by
  cases underway : l.underway with
  | some u =>
      have current := h.current
      rw [underway, Option.map_some] at current
      have start : l.outbox.start = some (u.rest, l.outbox) := by rw [Outbox.start, current]
      exact .inr (.inl ⟨u, by simp only [Ledger.start, underway], rfl, start⟩)
  | none =>
      cases start : l.outbox.start with
      | none => exact .inl ⟨by simp only [Ledger.start, underway, start], rfl⟩
      | some next =>
          obtain ⟨frame, q⟩ := next
          let u : Underway :=
            { priority := !l.outbox.express.isEmpty, rest := frame, before := l.accepted }
          have next : l.start = { l with outbox := q, underway := some u } := by
            simp only [Ledger.start, underway, start, u]
          exact .inr (.inr ⟨u, q, next, rfl, rfl, rfl, rfl, rfl⟩)

/-- The queue behind a ledger starts when the ledger does. -/
theorem Sound.outbox_start (h : l.Sound) : l.start.outbox = l.outbox.started := by
  obtain ⟨same, none⟩ | ⟨u, same, -, start⟩ | ⟨u, q, next, -, start, -⟩ := h.start_cases
  · rw [same, Outbox.started_of_start_eq_none none]
  · rw [same, Outbox.started_of_start start]
  · rw [next, Outbox.started_of_start start]

theorem Sound.start (h : l.Sound) : l.start.Sound := by
  obtain ⟨same, -⟩ | ⟨u, same, -⟩ | ⟨u, q, next, idle, start, lane, unsent, before⟩ :=
    h.start_cases
  · rw [same]; exact h
  · rw [same]; exact h
  · have none := h.current
    rw [idle, Option.map_none] at none
    obtain ⟨current, lanes⟩ := Outbox.lane_start none start
    rw [← lane] at lanes
    have parcel : u.parcel = ⟨u.priority, u.rest⟩ := by rw [Underway.parcel, unsent]; rfl
    rw [next]
    refine ⟨current, fun p => ?_, ?_⟩
    · have all := h.lanes p
      rw [idle, Option.map_none, Option.toList_none, Parcel.ofLane_nil, List.append_nil,
        lanes p] at all
      rw [all, Option.map_some, Option.toList_some, Parcel.ofLane_singleton, parcel]
      exact (List.append_assoc ..).symm
    · rintro u' started regular
      obtain rfl := Option.some.inj started
      refine ⟨[], by rw [before, List.append_nil], ?_⟩
      rw [regular, eq_comm, Bool.not_eq_false'] at lane
      have none := lanes true
      simp only [Outbox.lane, List.isEmpty_iff.mp lane] at none
      exact (List.append_eq_nil_iff.mp none.symm).2

theorem Sound.send (h : l.Sound) (count : Nat) : (l.send count).Sound := by
  cases underway : l.underway with
  | none =>
      simp only [Ledger.send, underway]
      exact h
  | some u =>
      have lanes := h.lanes
      have since := h.since u underway
      simp only [underway, Option.map_some, Option.toList_some] at lanes
      simp only [Ledger.send, underway]
      split
      next all =>
        have current : (l.outbox.advance u.rest count).current = none := by
          simp only [Underway.send] at all
          simp [Outbox.advance, all]
        refine ⟨current, fun p => ?_, by simp⟩
        rw [lanes p, Parcel.ofLane_append, Underway.parcel_send, Outbox.lane_advance]
        simp
      next more =>
        have current : (l.outbox.advance u.rest count).current = some (u.send count).rest := by
          simp only [Underway.send] at more
          simp [Outbox.advance, more, Underway.send]
        refine ⟨current, fun p => ?_, ?_⟩
        · rw [lanes p, Outbox.lane_advance]
          simp
        · rintro u' started regular
          obtain rfl := Option.some.inj started
          exact since regular

/-! ## What a drain adds to the books -/

/-- Without a new frame, some bytes are sent and `k` frames are finished on the way from one
ledger to another. -/
structure Proceeds (l : Ledger) (bytes : Bytes) (k : Nat) (l' : Ledger) : Prop where
  accepted : l'.accepted = l.accepted
  stream : l'.stream = l.stream ++ bytes
  finished : ∃ more, l'.finished = l.finished ++ more ∧ more.length = k
  /-- The frame in progress was started on the way, or it is the one that was in progress. -/
  underway : ∀ u, l'.underway = some u → u.before = l.accepted ∨
    k = 0 ∧ ∃ u₀, l.underway = some u₀ ∧ u₀.parcel = u.parcel ∧ u₀.before = u.before

theorem Proceeds.refl (l : Ledger) : l.Proceeds [] 0 l where
  accepted := rfl
  stream := (List.append_nil _).symm
  finished := ⟨[], (List.append_nil _).symm, rfl⟩
  underway u started := .inr ⟨rfl, u, started, rfl, rfl⟩

theorem Proceeds.trans {l₁ l₂ l₃ : Ledger} {bs cs : Bytes} {k n : Nat} (h : l₁.Proceeds bs k l₂)
    (h' : l₂.Proceeds cs n l₃) : l₁.Proceeds (bs ++ cs) (k + n) l₃ where
  accepted := h'.accepted.trans h.accepted
  stream := by rw [h'.stream, h.stream, List.append_assoc]
  finished := by
    obtain ⟨first, all, rfl⟩ := h.finished
    obtain ⟨second, all', rfl⟩ := h'.finished
    exact ⟨first ++ second, by rw [all', all, List.append_assoc], List.length_append⟩
  underway u started := by
    obtain new | ⟨rfl, u₁, started, parcel, before⟩ := h'.underway u started
    · exact .inl (new.trans h.accepted)
    · obtain new | ⟨rfl, u₀, started, parcel', before'⟩ := h.underway u₁ started
      · exact .inl (before.symm.trans new)
      · exact .inr ⟨rfl, u₀, started, parcel'.trans parcel, before'.trans before⟩

/-- Starting a frame sends nothing. -/
theorem Sound.proceeds_start (h : l.Sound) : l.Proceeds [] 0 l.start := by
  obtain ⟨same, -⟩ | ⟨u, same, -⟩ | ⟨u, q, next, idle, -, -, unsent, before⟩ := h.start_cases
  · rw [same]; exact .refl l
  · rw [same]; exact .refl l
  · rw [next]
    refine ⟨rfl, ?_, ⟨[], (List.append_nil _).symm, rfl⟩, fun u' started => .inl ?_⟩
    · simp [stream, idle, unsent]
    · exact Option.some.inj started ▸ before

/-- The frame in progress is finished with its last byte. -/
theorem proceeds_send {u : Underway} (underway : l.underway = some u) (count : Nat) :
    l.Proceeds (u.rest.take count) (if u.rest.length ≤ count then 1 else 0) (l.send count) := by
  have left : u.rest.length ≤ count ↔ (u.send count).rest = [] := List.drop_eq_nil_iff.symm
  simp only [Ledger.send, underway, left]
  split
  next finished =>
    have all : u.parcel.frame = u.sent ++ u.rest.take count := by
      rw [← Underway.parcel_send u count, Underway.parcel, finished, List.append_nil]
      rfl
    exact ⟨rfl, by simp [stream, underway, all], ⟨[u.parcel], by simp, rfl⟩, by simp⟩
  next more =>
    refine ⟨rfl, by simp [stream, underway, Underway.send],
      ⟨[], (List.append_nil _).symm, rfl⟩, fun u' started => .inr ⟨rfl, u, underway, ?_, ?_⟩⟩
    · rw [← Option.some.inj started, Underway.parcel_send]
    · rw [← Option.some.inj started]; rfl

/-- Bytes that the ledger sends leave the queue behind it. -/
theorem outbox_send {u : Underway} (underway : l.underway = some u) (count : Nat) :
    (l.send count).outbox = l.outbox.advance u.rest count := by
  simp only [Ledger.send, underway]
  split <;> rfl

/-- A frame that can be started is in progress once it is. -/
theorem Sound.underway_start (h : l.Sound) (start : l.outbox.start = some (frame, q)) :
    l.start.outbox = q ∧ ∃ u, l.start.underway = some u ∧ u.rest = frame := by
  refine ⟨h.outbox_start.trans (Outbox.started_of_start start), ?_⟩
  obtain ⟨-, none⟩ | ⟨u, same, underway, start'⟩ | ⟨u, q', next, -, start', -⟩ := h.start_cases
  · rw [start] at none; cases none
  · rw [start] at start'
    cases start'
    exact ⟨u, by rw [same, underway], rfl⟩
  · rw [start] at start'
    cases start'
    exact ⟨u, by rw [next], rfl⟩

/-- The books after a whole write. -/
theorem Sound.write (h : l.Sound) (start : l.outbox.start = some (frame, q)) (part : bs <+: frame)
    (some : bs ≠ []) :
    (l.write ⟨bs, bs.length⟩).Sound ∧
      (l.write ⟨bs, bs.length⟩).outbox = q.advance frame bs.length ∧
      l.Proceeds bs (if bs = frame then 1 else 0) (l.write ⟨bs, bs.length⟩) := by
  have whole : Write.Whole ⟨bs, bs.length⟩ := ⟨mt List.length_eq_zero_iff.mp some, rfl⟩
  obtain ⟨outbox, u, underway, rfl⟩ := h.underway_start start
  have finished : u.rest.length ≤ bs.length ↔ bs = u.rest :=
    ⟨part.eq_of_length_le, fun all => all ▸ Nat.le_refl _⟩
  have proceeds := h.proceeds_start.trans (proceeds_send underway bs.length)
  simp only [finished, ← List.prefix_iff_eq_take.mp part, List.nil_append, Nat.zero_add] at proceeds
  rw [Ledger.write, if_pos whole]
  exact ⟨h.start.send _, by rw [outbox_send underway, outbox], proceeds⟩

/-- A drain writes the frame in progress, as the books have it. -/
structure Tells (l : Ledger) (m : Moment) : Prop where
  sound : m.ledger.Sound
  frame : ∃ u, m.ledger.underway = some u ∧ m.write.offered <+: u.rest
  proceeds : ∃ bytes k, l.Proceeds bytes k m.ledger

theorem Sound.tells (h : l.Sound) (start : l.outbox.start = some (frame, q)) (part : bs <+: frame)
    (taken : Nat) : l.Tells ⟨l.start, ⟨bs, taken⟩⟩ := by
  obtain ⟨-, u, underway, rfl⟩ := h.underway_start start
  exact ⟨h.start, ⟨u, underway, part⟩, _, _, h.proceeds_start⟩

/-- The books after several whole writes. -/
theorem Sound.foldl_write (h : l.Sound) (sends : Outbox.Sends l.outbox ws k q₁) :
    (ws.foldl Ledger.write l).Sound ∧ (ws.foldl Ledger.write l).outbox = q₁ ∧
      l.Proceeds (ws.flatMap Write.bytes) k (ws.foldl Ledger.write l) := by
  generalize outbox : l.outbox = q at sends
  induction sends generalizing l with
  | done q => exact ⟨h, outbox, .refl l⟩
  | @send _ _ _ frame bs ws k start part some rest ih =>
      subst outbox
      obtain ⟨sound, outbox, proceeds⟩ := h.write start part some
      obtain ⟨sound', outbox', proceeds'⟩ := ih sound outbox
      have count : (if bs = frame then 1 else 0) + k = if bs = frame then k + 1 else k := by
        split <;> omega
      have bytes : (⟨bs, bs.length⟩ :: ws).flatMap Write.bytes = bs ++ ws.flatMap Write.bytes := by
        rw [List.flatMap_cons, Write.bytes, List.take_length]
      rw [bytes, ← count]
      exact ⟨sound', outbox', proceeds.trans proceeds'⟩

/-- All writes of a drain are told by the books. -/
theorem Sound.tells_following {report : DrainReport} {last : List Write}
    {r : Except OutboxError DrainReport} (h : l.Sound) (sends : Outbox.Sends l.outbox ws k q₁)
    (stops : Outbox.Stops q₁ report last r) : ∀ m ∈ l.following (ws ++ last), l.Tells m := by
  generalize outbox : l.outbox = q at sends
  induction sends generalizing l with
  | done q =>
      subst outbox
      intro m there
      cases stops with
      | empty | full => cases there
      | refused start part | broken start part =>
          obtain rfl := List.mem_singleton.mp there
          exact h.tells start part _
  | send start part some rest ih =>
      subst outbox
      obtain ⟨sound, outbox, proceeds⟩ := h.write start part some
      intro m there
      rcases List.mem_cons.mp there with rfl | later
      · exact h.tells start part _
      · obtain ⟨sound, frame, bytes, k, proceeds'⟩ := ih sound stops outbox m later
        exact ⟨sound, frame, _, _, proceeds.trans proceeds'⟩

/-- A frame that is under way stays so. -/
theorem Sound.start_start (h : l.Sound) : l.start.start = l.start := by
  obtain ⟨same, -⟩ | ⟨u, same, -⟩ | ⟨u, q, next, -⟩ := h.start_cases
  · rw [same, same]
  · rw [same, same]
  · rw [next]
    rfl

/-- The write that a drain stops at leaves the next frame started. -/
theorem Sound.start_foldl_last {report : DrainReport} {last : List Write}
    {r : Except OutboxError DrainReport} (h : l.Sound) (stops : Outbox.Stops q report last r) :
    (last.foldl Ledger.write l).start = l.start := by
  obtain rfl | ⟨w, rfl, part⟩ := stops.last_cases
  · rfl
  · rw [List.foldl_cons, List.foldl_nil, Ledger.write, if_neg part, h.start_start]

/-- A drain in the books: its whole writes, the stop behind them, and what comes of both. -/
theorem Sound.drain (h : l.Sound) (t : Transport τ) (s : τ) :
    ∃ sent k q₁ last r s', Outbox.Sends l.outbox sent k q₁ ∧
      Outbox.Stops q₁ (DrainReport.add {} sent k) last r ∧
      l.outbox.drain t s = (r, q₁.started, s') ∧ l.outbox.writes t s = sent ++ last ∧
      (l.call (.drain t s)).Sound ∧ (l.call (.drain t s)).outbox = q₁.started ∧
      l.Proceeds (sent.flatMap Write.bytes) k (l.call (.drain t s)) := by
  obtain ⟨sent, k, q₁, last, r, s', sends, stops, drained, writes⟩ :=
    Outbox.drain_course t l.outbox s
  refine ⟨sent, k, q₁, last, r, s', sends, stops, drained, writes, ?_⟩
  obtain ⟨sound, rfl, proceeds⟩ := h.foldl_write sends
  rw [Ledger.call, writes, List.foldl_append, sound.start_foldl_last stops]
  refine ⟨sound.start, sound.outbox_start, ?_⟩
  have all := proceeds.trans sound.proceeds_start
  rwa [List.append_nil, Nat.add_zero] at all

/-- Every call keeps the books in agreement with the outbox, and the outbox is the one that the
call leaves. -/
theorem Sound.call (h : l.Sound) (c : Outbox.Call τ) :
    (l.call c).Sound ∧ (l.call c).outbox = l.outbox.call c := by
  cases c with
  | enqueue parcel headroom =>
      refine ⟨h.enqueue parcel headroom, ?_⟩
      simp only [Ledger.call, Ledger.enqueue, Outbox.call]
      split
      next taken => rw [taken]; rfl
      next refused => rw [refused]; rfl
  | drain t s =>
      obtain ⟨sent, k, q₁, last, r, s', -, -, drained, -, sound, outbox, -⟩ := h.drain t s
      exact ⟨sound, outbox.trans (by rw [Outbox.call, drained])⟩

/-- Whatever is called, the ledger follows the queue. -/
theorem Sound.run (h : l.Sound) (calls : List (Outbox.Call τ)) :
    (l.run calls).Sound ∧ (l.run calls).outbox = calls.foldl Outbox.call l.outbox := by
  induction calls generalizing l with
  | nil => exact ⟨h, rfl⟩
  | cons c calls ih =>
      obtain ⟨sound, outbox⟩ := h.call c
      rw [List.foldl_cons, ← outbox]
      exact ih sound

end Ledger

end SpanningMesh
