import Mathlib.Logic.Function.Basic
import SpanningMesh.Proofs.Clock.Exchange

/-!
# Two nodes that set clocks

A `ClockPair` is two nodes at the ends of a link and the frames on their way between them.  The
follower adopts the time of the leader.  Their clocks go on together, every frame takes equally long
on its way, and frames arrive in the order in which they were sent.

A `Step` is one thing that can happen: a millisecond passes, a node begins to set clocks, the frame
that has travelled long enough arrives, or a node handles the next frame that waits.  What a node
sends leaves at once.  Steps may come in any order.

Several exchanges may be on their way at a time, and a node does not know to which of its requests a
reply belongs.  So the pair notes two moments for each frame, the one in which the follower sent the
request of its exchange and the one in which the frame arrived.  A `Mark` says of a moment how far the
leader was ahead and how many replies had been handled.  No node reads these notes.

A pair is `Sound` if all that is on its way and all that waits are steps of exchanges, with the times
at which they were sent and came.  Every step keeps it so (`Sound.run`).
-/

namespace SpanningMesh

open Application (Program)

/-- The two ends of a link. -/
inductive Side where
  | follower
  | leader
deriving DecidableEq, Repr

/-- The side across. -/
def Side.other : Side → Side
  | follower => leader
  | leader => follower

/-- The link once everything has left that waited to be sent. -/
def Link.emptied (l : Link) : Link := { l with outbox := l.outbox.clear }

namespace ClockPair

/-- What is noted of a moment. -/
structure Mark where
  /-- How far the leader is ahead. -/
  gap : Int
  /-- How many replies have been handled. -/
  replies : Nat
deriving DecidableEq, Repr

/-- A frame on its way. -/
structure Letter where
  frame : Bytes
  /-- For how long it has travelled. -/
  age : Nat := 0
  /-- When the follower asked. -/
  asked : Mark

/-- What is noted of a frame that waits. -/
structure Note where
  /-- When the follower asked. -/
  asked : Mark
  /-- When the frame arrived. -/
  heard : Mark
deriving DecidableEq, Repr

end ClockPair

/-- Two nodes, the frames on their way to each, and what is noted of those that wait. -/
structure ClockPair (σ : Type) where
  node : Side → Node σ Empty
  link : Side → LinkId
  /-- How long a frame takes from one to the other. -/
  delay : Nat
  transit : Side → List ClockPair.Letter := fun _ => []
  notes : Side → List ClockPair.Note := fun _ => []
  /-- How many replies have been handled. -/
  replies : Nat := 0

/-- The step of setting clocks that the next frame of a link tells, if there is one. -/
def Node.nextTold? {σ α : Type} (n : Node σ α) (id : LinkId) : Option TimeExchange := do
  let l ← n.link? id
  let (body, _) ← l.inbox.head?
  let packet ← (Packet.decode body).toOption
  match packet.payload with
  | .timeSync _ x => some x
  | _ => none

namespace ClockPair

variable {σ : Type}

/-! ## Steps -/

/-- What the clock of a side shows. -/
def time (w : ClockPair σ) (s : Side) : UInt32 := (w.node s).time

/-- How far the leader is ahead. -/
def gap (w : ClockPair σ) : Int := timeBetween (w.time .follower) (w.time .leader)

/-- What is to be noted of this moment. -/
def mark (w : ClockPair σ) : Mark := ⟨w.gap, w.replies⟩

/-- Whether the next frame that waits at a node is a reply. -/
def hearsReply (w : ClockPair σ) (s : Side) : Bool :=
  ((w.node s).nextTold? (w.link s)).any (·.stage = .reply)

/-- Something that can happen. -/
inductive Step where
  /-- A millisecond passes. -/
  | wait
  /-- A node begins to set clocks. -/
  | tick (s : Side)
  /-- The frame that has travelled long enough arrives. -/
  | deliver (s : Side)
  /-- A node handles the next frame that waits. -/
  | handle (s : Side)

/-- Put another node and other notes in the place of one. -/
def replace (w : ClockPair σ) (s : Side) (n : Node σ Empty) (notes : List Note) : ClockPair σ :=
  { w with node := Function.update w.node s n, notes := Function.update w.notes s notes }

/-- Put other frames on the way to a node. -/
def setTransit (w : ClockPair σ) (s : Side) (letters : List Letter) : ClockPair σ :=
  { w with transit := Function.update w.transit s letters }

/-- Put another count of replies in the place of the one there is. -/
def setReplies (w : ClockPair σ) (replies : Nat) : ClockPair σ := { w with replies }

/-- A millisecond passes at both nodes and for all that travels. -/
def wait (w : ClockPair σ) : ClockPair σ :=
  { w with
    node := fun s => { w.node s with now := (w.node s).now + 1 }
    transit := fun s => (w.transit s).map fun a => { a with age := a.age + 1 } }

/-- Everything leaves that waits to be sent by a node. -/
def emit (w : ClockPair σ) (s : Side) (asked : Mark) : ClockPair σ :=
  match (w.node s).link? (w.link s) with
  | none => w
  | some l =>
      (w.replace s ((w.node s).putLink l.emptied) (w.notes s)).setTransit
        s.other (w.transit s.other ++ l.outbox.frames.map fun frame => { frame, asked })

/-- When the exchange began that a node goes on with.  With the follower it begins now, and the leader
goes on with the one that the next frame belongs to. -/
def begun (w : ClockPair σ) : Side → Mark
  | .follower => w.mark
  | .leader => ((w.notes .leader).head?.map Note.asked).getD w.mark

variable [Host σ]

/-- A node begins to set clocks, and what it sends leaves at once. -/
def tick (w : ClockPair σ) (s : Side) : ClockPair σ :=
  (w.replace s ((w.node s).startClockSync (w.link s)) (w.notes s)).emit s w.mark

/-- Let the first frame that travels to a node come in, if it has been on its way as long as frames
are. -/
def deliver (w : ClockPair σ) (s : Side) : ClockPair σ :=
  match w.transit s with
  | [] => w
  | a :: rest =>
      if a.age = w.delay then
        (w.replace s ((w.node s).arrive (w.link s) a.frame)
          (w.notes s ++ [⟨a.asked, w.mark⟩])).setTransit s rest
      else w

/-- A node handles the next frame that waits, and what it sends leaves at once. -/
def handle (w : ClockPair σ) (s : Side) : ClockPair σ :=
  ((w.replace s ((w.node s).readFrames (.idle σ Empty) (w.link s) 1) (w.notes s).tail).emit s
    (w.begun s)).setReplies (w.replies + (w.hearsReply s).toNat)

/-- The pair after a step. -/
def step (w : ClockPair σ) : Step → ClockPair σ
  | .wait => w.wait
  | .tick s => w.tick s
  | .deliver s => w.deliver s
  | .handle s => w.handle s

/-- The pair after several steps. -/
def run (w : ClockPair σ) (steps : List Step) : ClockPair σ := steps.foldl step w

/-! ## What is known of the steps of an exchange -/

/-- What a step says that has been on its way to a node for some time. -/
def OnWay (delay : Nat) (leader : UInt32) (asked : Int) (age : Nat) (x : TimeExchange) : Side → Prop
  | .leader => x.stage = .request ∧ asked = timeBetween x.t0 (leader - .ofNat age)
  | .follower => x.stage = .invite ∨ x.stage = .reply ∧
      asked = timeBetween x.t0 (x.t1 - .ofNat delay) ∧ leader = x.t2 + .ofNat age

/-- What a step says that came to a node at some time. -/
def Came (delay : Nat) (note : Note) (arrival : UInt32) (x : TimeExchange) : Side → Prop
  | .leader => x.stage = .request ∧ note.asked.gap = timeBetween x.t0 (arrival - .ofNat delay)
  | .follower => x.stage = .invite ∨ x.stage = .reply ∧
      note.asked.gap = timeBetween x.t0 (x.t1 - .ofNat delay) ∧
      note.heard.gap = timeBetween arrival (x.t2 + .ofNat delay)

variable {w v : ClockPair σ} {s t : Side} {x y : TimeExchange} {asked m : Mark} {note : Note}

omit [Host σ] in
/-- What has travelled long enough comes as it was sent. -/
theorem came_of_onWay (h : OnWay w.delay (w.time .leader) asked.gap w.delay x s) :
    Came w.delay ⟨asked, w.mark⟩ (w.time s) x s := by
  cases s with
  | leader => exact h
  | follower =>
      refine h.imp_right fun ⟨reply, there, back⟩ => ⟨reply, there, ?_⟩
      rw [← back]
      rfl

/-- Frames that travel get older as the clock of the leader goes on. -/
theorem OnWay.wait {delay age : Nat} {leader : UInt32} {asked : Int}
    (h : OnWay delay leader asked age x s) :
    OnWay delay (leader + 1) asked (age + 1) x s := by
  have older : UInt32.ofNat (age + 1) = .ofNat age + 1 := UInt32.ofNat_add ..
  cases s with
  | leader =>
      have same : leader + 1 - (UInt32.ofNat age + 1) = leader - .ofNat age := by grind
      refine ⟨h.1, ?_⟩
      rw [older, same]
      exact h.2
  | follower =>
      refine h.imp_right fun ⟨reply, there, back⟩ => ⟨reply, there, ?_⟩
      rw [older, back]
      exact UInt32.add_assoc ..

omit [Host σ] in
/-- The step with which a node begins is as it is to be at once. -/
theorem onWay_firstStep (adopts : (w.node s).view.adoptsTimeFrom (w.link s) = decide (s = .follower)) :
    OnWay w.delay (w.time .leader) w.gap 0 ((w.node s).firstStep (w.link s)) s.other := by
  cases s with
  | follower =>
      have now : w.time .leader - UInt32.ofNat 0 = w.time .leader := UInt32.sub_zero ..
      refine ⟨?_, ?_⟩
      · simp [Node.firstStep, adopts, TimeExchange.request]
      · simp only [Node.firstStep, adopts, decide_true, if_true, TimeExchange.request, now]
        rfl
  | leader =>
      left
      simp [Node.firstStep, adopts, TimeExchange.invite]

omit [Host σ] in
/-- The answer to a step that came is as it is to be at once. -/
theorem onWay_answer {arrival : UInt32} {rest : List Note} (h : Came w.delay note arrival x s)
    (first : w.notes s = note :: rest) (answer : x.answer? arrival (w.time s) = some y) :
    OnWay w.delay (w.time .leader) (w.begun s).gap 0 y s.other := by
  cases s with
  | follower =>
      rcases h with invite | ⟨reply, -, -⟩
      · simp only [TimeExchange.answer?, invite, Option.some.injEq] at answer
        subst answer
        refine ⟨rfl, ?_⟩
        rw [show UInt32.ofNat 0 = 0 from rfl, UInt32.sub_zero]
        rfl
      · simp [TimeExchange.answer?, reply] at answer
  | leader =>
      obtain ⟨request, there⟩ := h
      simp only [TimeExchange.answer?, request, Option.some.injEq] at answer
      subst answer
      refine .inr ⟨rfl, ?_, (UInt32.add_zero _).symm⟩
      simp only [begun, first, List.head?_cons, Option.map_some, Option.getD_some]
      exact there

/-! ## Sound pairs -/

/-- A node with its link is ready for the next step of an exchange. -/
structure Ready (delay : Nat) (s : Side) (n : Node σ Empty) (id : LinkId) (l : Link)
    (notes : List Note) : Prop where
  nodup : n.linkIds.Nodup
  own : n.handlers.handlers Kind.timeSync = [.node]
  adopts : n.view.adoptsTimeFrom id = decide (s = .follower)
  buffer : l.reassembler.buffer.toList = []
  inbox : List.Forall₂ (fun f note => ∃ x, Packet.Tells x f.1 ∧ Came delay note f.2 x s) l.inbox
    notes

/-- Everything on the way and everything that waits is a step of an exchange, with the times at which
it was sent and came. -/
structure Sound (w : ClockPair σ) : Prop where
  transit : ∀ s, ∀ a ∈ w.transit s, ∃ x, Frame.Tells x a.frame ∧
    OnWay w.delay (w.time .leader) a.asked.gap a.age x s
  ready : ∀ s l, (w.node s).link? (w.link s) = some l →
    Ready w.delay s (w.node s) (w.link s) l (w.notes s)
  sent : ∀ s l, (w.node s).link? (w.link s) = some l → l.outbox.frames = []

omit [Host σ] in
/-- A node stays ready while it answers. -/
theorem Ready.of_answers {delay : Nat} {n m : Node σ Empty} {id : LinkId} {l l' : Link}
    {notes : List Note} {P : Bytes → Prop} (h : Ready delay s n id l notes)
    (answers : Node.Answers id P n m) (fed : l.Feeds (fun _ => P) l') : Ready delay s m id l' notes := by
  obtain ⟨es, rs, -, rfl⟩ := fed
  exact ⟨answers.linkIds ▸ h.nodup, answers.own.trans h.own, answers.view ▸ h.adopts, h.buffer,
    h.inbox⟩

omit [Host σ] in
/-- A link in the place of one is as ready with the frames that wait on it, if the node sees the same
behind it. -/
theorem Ready.putLink {delay : Nat} {n : Node σ Empty} {id : LinkId} {l l' : Link}
    {notes others : List Note} (h : Ready delay s n id l notes) (hl : n.link? id = some l)
    (same : l'.id = l.id) (subtree : l'.subtree = l.subtree)
    (buffer : l'.reassembler.buffer.toList = [])
    (inbox : List.Forall₂ (fun f note => ∃ x, Packet.Tells x f.1 ∧ Came delay note f.2 x s) l'.inbox
      others) : Ready delay s (n.putLink l') id l' others where
  nodup := Node.linkIds_putLink n l' ▸ h.nodup
  own := h.own
  adopts := by
    rw [Node.view_putLink_of_subtree_eq h.nodup hl same subtree]
    exact h.adopts
  buffer := buffer
  inbox := inbox

omit [Host σ] in
/-- The first frame that waits tells a step that came, and there is a note of it. -/
theorem Ready.next {delay : Nat} {n : Node σ Empty} {id : LinkId} {l : Link} {notes : List Note}
    {body : Bytes} {arrival : UInt32} {rest : List (Bytes × UInt32)}
    (h : Ready delay s n id l notes) (inbox : l.inbox = (body, arrival) :: rest) :
    ∃ note others x, notes = note :: others ∧ Packet.Tells x body ∧
      Came delay note arrival x s ∧
      List.Forall₂ (fun f note => ∃ x, Packet.Tells x f.1 ∧ Came delay note f.2 x s) rest others := by
  have all := h.inbox
  rw [inbox] at all
  obtain ⟨note, others, ⟨x, told, came⟩, behind, rfl⟩ := List.forall₂_cons_left_iff.mp all
  exact ⟨note, others, x, rfl, told, came, behind⟩

/-! ## What changes a pair -/

omit [Host σ] in
theorem replace_replace (w : ClockPair σ) (s : Side) (n m : Node σ Empty) (as bs : List Note) :
    (w.replace s n as).replace s m bs = w.replace s m bs := by
  simp only [ClockPair.replace, Function.update_idem]

omit [Host σ] in
theorem time_replace {n : Node σ Empty} (kept : s = t → n.time = (w.node s).time)
    (notes : List Note) : (w.replace s n notes).time t = w.time t := by
  by_cases same : t = s
  · simp only [ClockPair.time, ClockPair.replace, same, Function.update_self]
    exact kept same.symm
  · simp only [ClockPair.time, ClockPair.replace, Function.update_of_ne same]

omit [Host σ] in
theorem time_setTransit (w : ClockPair σ) (s : Side) (letters : List Letter) (t : Side) :
    (w.setTransit s letters).time t = w.time t := rfl

omit [Host σ] in
theorem time_wait (w : ClockPair σ) (s : Side) : w.wait.time s = w.time s + 1 := by
  have next : UInt32.ofNat ((w.node s).now + 1) = .ofNat (w.node s).now + 1 := UInt32.ofNat_add ..
  simp only [ClockPair.wait, ClockPair.time, Node.time, next]
  grind

omit [Host σ] in
theorem time_emit (w : ClockPair σ) (s : Side) (asked : Mark) (t : Side) :
    (w.emit s asked).time t = w.time t := by
  simp only [ClockPair.emit]
  split
  · rfl
  next l _ =>
    have same : ((w.node s).putLink l.emptied).time = (w.node s).time := rfl
    rw [time_setTransit, time_replace fun _ => same]

omit [Host σ] in
theorem replies_emit (w : ClockPair σ) (s : Side) (asked : Mark) :
    (w.emit s asked).replies = w.replies := by
  simp only [ClockPair.emit]
  split <;> rfl

omit [Host σ] in
/-- The node that is put in the place of one is ready too. -/
theorem Sound.replace {n : Node σ Empty} {notes : List Note} (h : w.Sound)
    (kept : s = .leader → n.time = (w.node s).time)
    (ready : ∀ l, n.link? (w.link s) = some l →
      Ready w.delay s n (w.link s) l notes ∧ l.outbox.frames = []) :
    (w.replace s n notes).Sound := by
  have each : ∀ t l, ((w.replace s n notes).node t).link? (w.link t) = some l →
      Ready w.delay t ((w.replace s n notes).node t) (w.link t) l ((w.replace s n notes).notes t) ∧
        l.outbox.frames = [] := by
    intro t l hl
    by_cases same : t = s
    · subst same
      simp only [ClockPair.replace, Function.update_self] at hl ⊢
      exact ready l hl
    · simp only [ClockPair.replace, Function.update_of_ne same] at hl ⊢
      exact ⟨h.ready t l hl, h.sent t l hl⟩
  refine ⟨fun t a ha => ?_, fun t l hl => (each t l hl).1, fun t l hl => (each t l hl).2⟩
  rw [time_replace kept]
  exact h.transit t a ha

omit [Host σ] in
/-- Letters may travel that tell true times. -/
theorem Sound.setTransit {letters : List Letter} (h : w.Sound)
    (told : ∀ a ∈ letters, ∃ x, Frame.Tells x a.frame ∧
      OnWay w.delay (w.time .leader) a.asked.gap a.age x s) : (w.setTransit s letters).Sound := by
  refine ⟨fun t a ha => ?_, h.ready, h.sent⟩
  by_cases same : t = s
  · subst same
    simp only [ClockPair.setTransit, Function.update_self] at ha
    exact told a ha
  · simp only [ClockPair.setTransit, Function.update_of_ne same] at ha
    exact h.transit t a ha

omit [Host σ] in
theorem Sound.setReplies (h : w.Sound) (replies : Nat) : (w.setReplies replies).Sound :=
  ⟨h.transit, h.ready, h.sent⟩

omit [Host σ] in
/-- A node that answers leaves the pair sound once what it sends has left. -/
theorem Sound.emit {m : Node σ Empty} {P : Bytes → Prop} (h : w.Sound)
    (answers : Node.Answers (w.link s) P (w.node s) m)
    (kept : s = .leader → m.time = (w.node s).time)
    (told : ∀ f, P f → ∃ x, Frame.Tells x f ∧ OnWay w.delay (w.time .leader) asked.gap 0 x s.other) :
    ((w.replace s m (w.notes s)).emit s asked).Sound := by
  have at_s : (w.replace s m (w.notes s)).node s = m := Function.update_self ..
  have notes : (w.replace s m (w.notes s)).notes s = w.notes s := Function.update_self ..
  have link : (w.replace s m (w.notes s)).link = w.link := rfl
  simp only [ClockPair.emit, at_s, notes, link]
  split
  next closed => exact h.replace kept fun l hl => nomatch closed.symm.trans hl
  next l' hl' =>
    obtain ⟨l, hl, fed⟩ := answers.link l' hl'
    have ready := (h.ready s l hl).of_answers answers fed
    have kept' : s = .leader → (m.putLink l'.emptied).time = (w.node s).time := kept
    rw [replace_replace]
    refine (h.replace kept' fun l'' hl'' => ?_).setTransit fun a ha => ?_
    · have found : (m.putLink l'.emptied).link? (w.link s) = some l'.emptied :=
        Node.link?_putLink_self hl' rfl
      rw [found] at hl''
      cases hl''
      exact ⟨ready.putLink hl' rfl rfl ready.buffer ready.inbox, rfl⟩
    · rw [time_replace kept']
      rcases List.mem_append.mp ha with old | new
      · exact h.transit s.other a old
      · obtain ⟨f, hf, rfl⟩ := List.mem_map.mp new
        rcases fed.steady.frames f hf with before | sent
        · rw [h.sent s l hl] at before
          cases before
        · exact told f sent

omit [Host σ] in
/-- The same after something about the node was settled that no frame speaks of. -/
theorem Sound.emit_after {n m : Node σ Empty} {notes : List Note} {P : Bytes → Prop}
    (h : (w.replace s n notes).Sound) (answers : Node.Answers (w.link s) P n m)
    (same : s = .leader → n.time = (w.node s).time) (kept : s = .leader → m.time = n.time)
    (told : ∀ f, P f → ∃ x, Frame.Tells x f ∧ OnWay w.delay (w.time .leader) asked.gap 0 x s.other) :
    ((w.replace s m notes).emit s asked).Sound := by
  have at_s : (w.replace s n notes).node s = n := Function.update_self ..
  have noted : (w.replace s n notes).notes s = notes := Function.update_self ..
  have leader := time_replace (w := w) same notes
  have sound : (((w.replace s n notes).replace s m ((w.replace s n notes).notes s)).emit s asked).Sound :=
    h.emit (at_s.symm ▸ answers) (at_s.symm ▸ kept) (leader ▸ told)
  rw [noted, replace_replace] at sound
  exact sound

/-! ## Steps keep a pair sound -/

omit [Host σ] in
/-- While time passes, all that travels gets older by as much. -/
theorem Sound.wait (h : w.Sound) : w.wait.Sound where
  transit := by
    intro s a ha
    obtain ⟨a, old, rfl⟩ := List.mem_map.mp ha
    obtain ⟨x, told, way⟩ := h.transit s a old
    exact ⟨x, told, w.time_wait .leader ▸ way.wait⟩
  ready := by
    intro s l hl
    have ready := h.ready s l hl
    exact ⟨ready.nodup, ready.own, ready.adopts, ready.buffer, ready.inbox⟩
  sent := fun s l hl => h.sent s l hl

/-- A node sends its first step with its own time. -/
theorem Sound.tick (h : w.Sound) (s : Side) : (w.tick s).Sound := by
  cases hl : (w.node s).link? (w.link s) with
  | none =>
      have nothing : (w.node s).startClockSync (w.link s) = w.node s := by
        simp only [Node.startClockSync, hl]
      simp only [ClockPair.tick, nothing]
      exact h.emit (P := fun _ => False) (.refl _ _ _) (fun _ => rfl) fun f hf => hf.elim
  | some l =>
      have ready := h.ready s l hl
      exact h.emit (Node.answers_startClockSync ready.nodup (w.link s))
        (fun _ => Node.time_startClockSync ..) fun f told => ⟨_, told, onWay_firstStep ready.adopts⟩

/-- Where a frame arrives that has travelled long enough, the node is ready for it. -/
theorem Sound.arrived (h : w.Sound) {a : Letter} (travels : a ∈ w.transit s)
    (due : a.age = w.delay) :
    ((w.node s).arrive (w.link s) a.frame).time = (w.node s).time ∧
      ∀ l', ((w.node s).arrive (w.link s) a.frame).link? (w.link s) = some l' →
        Ready w.delay s ((w.node s).arrive (w.link s) a.frame) (w.link s) l'
            (w.notes s ++ [⟨a.asked, w.mark⟩]) ∧
          l'.outbox.frames = [] := by
  obtain ⟨x, told, way⟩ := h.transit s a travels
  rw [due] at way
  cases hl : (w.node s).link? (w.link s) with
  | none =>
      rw [Node.arrive_of_none hl, hl]
      exact ⟨rfl, fun _ none => nomatch none⟩
  | some l =>
      have ready := h.ready s l hl
      obtain ⟨time, closed | ⟨body, r, told, emptied, view, handlers, found⟩⟩ :=
        Node.arrives ready.nodup hl ready.buffer told
      · rw [closed]
        exact ⟨time, fun _ none => nomatch none⟩
      · refine ⟨time, fun l' hl' => ?_⟩
        rw [found] at hl'
        cases hl'
        refine ⟨⟨?_, handlers ▸ ready.own, view ▸ ready.adopts, emptied, ?_⟩, h.sent s l hl⟩
        · rw [Node.linkIds_eq, view, ← Node.linkIds_eq]
          exact ready.nodup
        · exact List.rel_append ready.inbox (.cons ⟨x, told, came_of_onWay way⟩ .nil)

/-- A letter that arrives waits with the time of its arrival. -/
theorem Sound.deliver (h : w.Sound) (s : Side) : (w.deliver s).Sound := by
  simp only [ClockPair.deliver]
  split
  · exact h
  next a rest travelling =>
    split
    next due =>
      have behind : ∀ b ∈ rest, ∃ x, Frame.Tells x b.frame ∧
          OnWay w.delay (w.time .leader) b.asked.gap b.age x s := fun b hb =>
        h.transit s b (travelling ▸ List.mem_cons_of_mem a hb)
      have arrived := h.arrived (travelling ▸ List.mem_cons_self) due
      refine (h.replace (fun _ => arrived.1) arrived.2).setTransit ?_
      rw [time_replace fun _ => arrived.1]
      exact behind
    · exact h

omit [Host σ] in
/-- No frame waits at a node, or the next one tells a step that came, and there is a note of it. -/
theorem Sound.next_cases (h : w.Sound) (s : Side) :
    (∀ l, (w.node s).link? (w.link s) = some l → l.inbox = []) ∨
      ∃ l body arrival rest note notes x, (w.node s).link? (w.link s) = some l ∧
        l.inbox = (body, arrival) :: rest ∧ w.notes s = note :: notes ∧ Packet.Tells x body ∧
        Came w.delay note arrival x s ∧
        Ready w.delay s ((w.node s).putLink { l with inbox := rest }) (w.link s)
          { l with inbox := rest } notes := by
  by_cases empty : ∀ l, (w.node s).link? (w.link s) = some l → l.inbox = []
  · exact .inl empty
  · push Not at empty
    obtain ⟨l, hl, waits⟩ := empty
    obtain ⟨⟨body, arrival⟩, rest, inbox⟩ := List.exists_cons_of_ne_nil waits
    have ready := h.ready s l hl
    obtain ⟨note, notes, x, noted, told, came, others⟩ := ready.next inbox
    exact .inr ⟨l, body, arrival, rest, note, notes, x, hl, inbox, noted, told, came,
      ready.putLink hl rfl rfl ready.buffer others⟩

/-- A node answers with the times that it took. -/
theorem Sound.handle (h : w.Sound) (s : Side) : (w.handle s).Sound := by
  rcases h.next_cases s with
    empty | ⟨l, body, arrival, rest, note, notes, x, hl, inbox, noted, told, came, others⟩
  · have nothing := Node.readNext_of_empty (α := Empty) empty
    have sound : (w.replace s (w.node s) (w.notes s).tail).Sound := by
      refine h.replace (fun _ => rfl) fun l hl => ⟨?_, h.sent s l hl⟩
      have ready := h.ready s l hl
      have unnoted : w.notes s = [] := by
        have inbox := ready.inbox
        rw [empty l hl] at inbox
        exact List.forall₂_nil_left_iff.mp inbox
      rw [unnoted] at ready ⊢
      exact ready
    simp only [ClockPair.handle, nothing]
    exact (sound.emit_after (P := fun _ => False) (.refl _ _ _) (fun _ => rfl) (fun _ => rfl)
      fun f hf => hf.elim).setReplies _
  · have ready := h.ready s l hl
    have heard := Node.hears_readNext ready.nodup ready.own hl inbox told
    have taken : (w.replace s ((w.node s).putLink { l with inbox := rest }) notes).Sound := by
      refine h.replace (fun _ => rfl) fun l' hl' => ?_
      have found : ((w.node s).putLink { l with inbox := rest }).link? (w.link s) =
          some { l with inbox := rest } := Node.link?_putLink_self hl rfl
      rw [found] at hl'
      cases hl'
      exact ⟨others, h.sent s l hl⟩
    have kept : s = .leader →
        ((w.node s).readFrames (.idle σ Empty) (w.link s) 1).time = (w.node s).time := by
      rintro rfl
      have unmoved : x.shift arrival = 0 := by
        simp only [TimeExchange.shift, came.1]
      rw [heard.2, unmoved]
      exact UInt32.add_zero _
    simp only [ClockPair.handle, noted, List.tail_cons]
    refine (taken.emit_after heard.1 (fun _ => rfl) kept ?_).setReplies _
    rintro f ⟨y, answer, tells⟩
    exact ⟨y, tells, onWay_answer came noted answer⟩

theorem Sound.step (h : w.Sound) (a : Step) : (w.step a).Sound := by
  cases a with
  | wait => exact h.wait
  | tick s => exact h.tick s
  | deliver s => exact h.deliver s
  | handle s => exact h.handle s

/-- A pair of clocks stays sound whatever steps they take. -/
theorem Sound.run (h : w.Sound) (steps : List Step) : (w.run steps).Sound := by
  induction steps generalizing w with
  | nil => exact h
  | cons a steps ih => exact ih (h.step a)

end ClockPair

end SpanningMesh
