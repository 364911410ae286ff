import SpanningMesh.Proofs.Election.Turns
import SpanningMesh.Proofs.Node.Telling

/-!
# How frames are counted

The frames that a history has a node take from its inboxes are listed by `Node.taken`, each with the
view that the node had then.  The two decide what becomes of a frame (`Intake.fate`): it is
forwarded, dispatched to handlers or dropped.  Or it is to be handled here, but its payload has no
meaning.  Such a frame is spoiled.

The tally of a node is what comes of counting these frames, one after the other and nothing else.
Every frame adds to one counter, and a broadcast frame to that of floods as well.  Only a spoiled one
is counted twice, as handled when that is decided, and then as dropped.  So the counters come to the
number of frames taken and those spoiled among them (`frames_counted_by_fate`).

Handlers, listeners and tasks may run passes of their own, in which frames are taken, too.  A `Diary`
says which.  Nothing is asked of an application but that it does not change the tally otherwise
(`Node.Recounted`).
-/

namespace SpanningMesh

open Application (Program)

/-! ## What becomes of a frame -/

/-- What becomes of a frame that was taken from an inbox. -/
inductive Fate where
  | forwarded
  | dispatched
  /-- It is to be handled, but its payload has no meaning. -/
  | spoiled
  | dropped
deriving Repr, DecidableEq

/-- A frame that was taken from an inbox, and what the node knew of the mesh then. -/
structure Intake where
  body : Bytes
  view : View LinkId

namespace Intake

/-- What becomes of a frame that was taken in. -/
def fate (x : Intake) : Fate :=
  match Header.peek x.body with
  | .error _ => .dropped
  | .ok h =>
      match Decision.make x.view.node h x.view.routeTo with
      | .forward _ => .forwarded
      | .flood | .handle => if (Packet.decode x.body).isOk then .dispatched else .spoiled
      | .drop _ => .dropped

/-- Whether a header can be read that says that the frame is for everyone. -/
def isBroadcast (x : Intake) : Bool :=
  match Header.peek x.body with
  | .error _ => false
  | .ok h => h.delivery = .broadcast

/-- Count a frame. -/
def count (t : Tally) (x : Intake) : Tally where
  forwarded := t.forwarded + if x.fate = .forwarded then 1 else 0
  flooded := t.flooded + if x.isBroadcast then 1 else 0
  handled := t.handled + if x.fate = .dispatched ∨ x.fate = .spoiled then 1 else 0
  dropped := t.dropped + if x.fate = .dropped ∨ x.fate = .spoiled then 1 else 0

end Intake

/-- Exactly a frame for everyone is flooded. -/
theorem Decision.make_eq_flood_iff {κ : Type} {node : UInt32} {h : Header}
    {route : UInt32 → Option κ} : Decision.make node h route = .flood ↔ h.delivery = .broadcast := by
  simp only [make]
  cases h.delivery with
  | neighbour | broadcast => simp
  | single =>
      dsimp only
      split
      · simp
      · split <;> simp

/-- How many frames were counted, if floods are left out. -/
def Tally.total (t : Tally) : Nat := t.forwarded + t.handled + t.dropped

/-- How many frames of a list have a fate. -/
def Fate.among (f : Fate) (xs : List Intake) : Nat := xs.countP (·.fate = f)

namespace Fate

variable (f : Fate) (x : Intake) (xs : List Intake)

@[simp] theorem among_cons : f.among (x :: xs) = f.among xs + if x.fate = f then 1 else 0 := by
  simp [among, List.countP_cons]

/-- Every frame has one fate. -/
theorem among_all :
    forwarded.among xs + dispatched.among xs + spoiled.among xs + dropped.among xs = xs.length := by
  induction xs with
  | nil => rfl
  | cons x xs ih =>
      simp only [among_cons, List.length_cons]
      cases x.fate <;> simp <;> omega

end Fate

/-- Frames that are counted one after the other are counted by their fates. -/
theorem Intake.foldl_count (xs : List Intake) (t : Tally) :
    xs.foldl count t =
      { forwarded := t.forwarded + Fate.forwarded.among xs
        flooded := t.flooded + xs.countP isBroadcast
        handled := t.handled + Fate.dispatched.among xs + Fate.spoiled.among xs
        dropped := t.dropped + Fate.dropped.among xs + Fate.spoiled.among xs } := by
  induction xs generalizing t with
  | nil => rfl
  | cons x xs ih =>
      rw [List.foldl_cons, ih]
      simp only [count, Fate.among_cons, List.countP_cons, Tally.mk.injEq]
      cases x.fate <;> simp <;> omega

/-- The frames that callbacks take, in passes that they run themselves. -/
structure Application.Diary (σ α : Type) where
  task : α → Node σ α → List Intake
  handle : α → Packet → LinkId → UInt32 → Node σ α → List Intake
  listen : α → Event → Node σ α → List Intake

/-- The diary of callbacks that run no pass. -/
def Application.Diary.blank (σ α : Type) : Diary σ α :=
  ⟨fun _ _ => [], fun _ _ _ _ _ => [], fun _ _ _ => []⟩

open Application (Diary)

/-- What callbacks do is described by their diary: the frames that are in it are between the node
that a callback is called with and the one that it leaves. -/
structure Application.Diary.Describes {σ α : Type} (d : Diary σ α) (p : Program σ α)
    (R : List Intake → Node σ α → Node σ α → Prop) : Prop where
  task : ∀ a n, R (d.task a n) n (p.task a n)
  handle : ∀ a packet id arrival n,
    R (d.handle a packet id arrival n) n (p.handle a packet id arrival n).1
  listen : ∀ a e n, R (d.listen a e n) n (p.listen a e n)

namespace Node

variable {σ α : Type} {p : Program σ α} {d : Diary σ α} {n m k : Node σ α} {id : LinkId}
  {body : Bytes} {h : Header} {log log' : List Intake}

/-! ## The frames that are taken -/

/-- The frames that are taken while an event is told. -/
def takenInTell (p : Program σ α) (d : Diary σ α) (e : Event) (n : Node σ α) : List Intake :=
  (HandlerTable.callsOf listenersOf (fun a n => (p.listen a e n, .pass)) e.kind n).flatMap fun x =>
    d.listen x.1 e x.2

variable [Host σ]

/-- The frames that are taken while a handler has a packet. -/
def takenInCall (p : Program σ α) (d : Diary σ α) (packet : Packet) (id : LinkId)
    (arrival : UInt32) (x : Handler α × Node σ α) : List Intake :=
  match x.1 with
  | .node => (packet.payload.event?.toList).flatMap fun e => x.2.takenInTell p d e
  | .application a => d.handle a packet id arrival x.2

/-- The frames that are taken while a frame is handled. -/
def takenInFrame (p : Program σ α) (d : Diary σ α) (id : LinkId) (body : Bytes) (arrival : UInt32)
    (n : Node σ α) : List Intake :=
  match Packet.decode body with
  | .error _ => []
  | .ok packet =>
      (HandlerTable.callsOf handlersOf (runHandler p packet id arrival) packet.header.kind
        n).flatMap (takenInCall p d packet id arrival)

/-- A frame that is taken, and those that are taken while it is handled. -/
def takenWith (p : Program σ α) (d : Diary σ α) (id : LinkId) (body : Bytes) (arrival : UInt32)
    (n : Node σ α) : List Intake :=
  ⟨body, n.view⟩ ::
    match Header.peek body with
    | .error _ => []
    | .ok h => if n.takesIn h then (n.passOn id body h).takenInFrame p d id body arrival else []

/-- The frames that are taken when a link is read. -/
def takenOnLink (p : Program σ α) (d : Diary σ α) (id : LinkId) : Nat → Node σ α → List Intake
  | 0, _ => []
  | limit + 1, n =>
      match (n.link? id).bind Link.nextFrame with
      | none => []
      | some ((body, arrival), l) =>
          (n.putLink l).takenWith p d id body arrival ++
            takenOnLink p d id limit ((n.putLink l).routeFrame p id body arrival)

/-- The frames that are taken in a task. -/
def takenInTask (p : Program σ α) (d : Diary σ α) : Action α → Node σ α → List Intake
  | .read id, n => n.takenOnLink p d id (n.readLimit id)
  | .tell e, n => n.takenInTell p d e
  | .application a, n => d.task a n
  | .exchange _, _ | .timeout _, _ | .send _, _ | .setClock _, _ | .announce, _ => []

/-- The frames that are taken in a pass. -/
def takenInPass (p : Program σ α) (d : Diary σ α) (now : Nat) (n : Node σ α) : List Intake :=
  (Agenda.runsOfPass agendaOf (perform p) now { n with now }).flatMap fun r =>
    (r.start agendaOf now).takenInTask p d r.task.action

/-- The frames that an input has a node take. -/
def takenBy (p : Program σ α) (d : Diary σ α) (n : Node σ α) : Input α → List Intake
  | .execute now => n.takenInPass p d now
  | _ => []

/-- The frames that a history has a node take, in order. -/
def taken (p : Program σ α) (d : Diary σ α) (n : Node σ α) (events : List (σ × Input α)) :
    List Intake :=
  gathered p (takenBy p d) n events

/-! ## Counts -/

omit [Host σ] in
/-- The tally of a node became what it is by counting some frames. -/
def Counts (log : List Intake) (n m : Node σ α) : Prop := m.tally = log.foldl Intake.count n.tally

omit [Host σ] in
theorem counts_nil (same : m.tally = n.tally) : Counts [] n m := same

omit [Host σ] in
/-- What two courses took in is counted together. -/
theorem Counts.append (first : Counts log n m) (next : Counts log' m k) :
    Counts (log ++ log') n k := by
  rw [Counts, List.foldl_append, ← first, next]

omit [Host σ] in
theorem Counts.cons {x : Intake} (first : m.tally = Intake.count n.tally x)
    (next : Counts log m k) : Counts (x :: log) n k := by
  have one : Counts [x] n m := first
  exact one.append next

omit [Host σ] in
theorem tally_setElection (n : Node σ α) (c : Candidacy) (e : Election) :
    (n.setElection c e).tally = n.tally := by
  rw [setElection, (incidental_hastenAnnouncement _).tally]
  split <;> rfl

omit [Host σ] in
theorem tally_losePeer (n : Node σ α) (peer : UInt32) : (n.losePeer peer).tally = n.tally := by
  simp only [losePeer]
  split
  · rfl
  · split
    · rfl
    · exact tally_setElection n _ _

/-- In a turn no frame is counted. -/
theorem Turn.tally (turn : Turn Incidental n m) : m.tally = n.tally := by
  cases turn with
  | beside incidental => exact incidental.tally
  | join own new => simp only [joinElection, new]
  | hear a =>
      simp only [hearAnnouncement]
      split
      · rfl
      · split
        · rfl
        · exact tally_setElection n _ _
  | drop id =>
      rcases close_cases n id with ⟨-, same⟩ | ⟨l, k, -, incidental, closes⟩
      · rw [same]
      · rw [closes, tally_losePeer, incidental.tally]

/-- The election takes in no frames. -/
theorem Turns.counts (turns : Turns Incidental n m) : Counts [] n m := by
  refine counts_nil ?_
  induction turns with
  | refl => rfl
  | tail _ turn same => exact turn.tally.trans same

/-! ### One frame -/

omit [Host σ] in
/-- The fate of a frame is what is decided about its header. -/
theorem fate_of_peek (seen : Header.peek body = .ok h) :
    Intake.fate ⟨body, n.view⟩ =
      match Decision.make n.id h n.view.routeTo with
      | .forward _ => .forwarded
      | .flood | .handle => if (Packet.decode body).isOk then .dispatched else .spoiled
      | .drop _ => .dropped := by
  simp only [Intake.fate, seen]
  rfl

omit [Host σ] in
theorem isBroadcast_of_peek (seen : Header.peek body = .ok h) :
    Intake.isBroadcast ⟨body, n.view⟩ =
      decide (Decision.make n.id h n.view.routeTo = .flood) := by
  simp only [Intake.isBroadcast, seen, Decision.make_eq_flood_iff]

omit [Host σ] in
/-- A frame is counted as what is decided about it, unless it is spoiled. -/
theorem count_of_decision (seen : Header.peek body = .ok h)
    (decodes : n.takesIn h = true → (Packet.decode body).isOk = true) :
    Intake.count n.tally ⟨body, n.view⟩ = (n.counted h).tally := by
  simp only [Intake.count, fate_of_peek seen, isBroadcast_of_peek seen, counted, takesIn] at decodes ⊢
  cases decided : Decision.make n.id h n.view.routeTo with
  | forward next => simp [Tally.record]
  | flood | handle => simp [Tally.record, decodes (by rw [decided])]
  | drop reason => simp [Tally.record]

omit [Host σ] in
/-- A spoiled frame is counted once more. -/
theorem count_of_spoiled (seen : Header.peek body = .ok h) (takes : n.takesIn h = true)
    (spoiled : (Packet.decode body).isOk = false) :
    Intake.count n.tally ⟨body, n.view⟩ = (n.counted h).countMalformed.tally := by
  simp only [Intake.count, fate_of_peek seen, isBroadcast_of_peek seen, counted, takesIn] at takes ⊢
  cases decided : Decision.make n.id h n.view.routeTo with
  | flood | handle => simp [countMalformed, Tally.recordMalformed, Tally.record, spoiled]
  | forward | drop => simp [decided] at takes

omit [Host σ] in
/-- A frame without a header is malformed. -/
theorem count_of_unreadable {e : CodecError} (unreadable : Header.peek body = .error e) :
    Intake.count n.tally ⟨body, n.view⟩ = n.countMalformed.tally := by
  simp [Intake.count, Intake.fate, Intake.isBroadcast, unreadable, countMalformed,
    Tally.recordMalformed, Tally.record]

/-! ### One thing after another -/

omit [Host σ] in
theorem counts_tell (describes : d.Describes p Counts) (e : Event) (n : Node σ α) :
    Counts (n.takenInTell p d e) n (n.tell p e) :=
  HandlerTable.dispatch_compose (fun _ => rfl) (fun _ _ => rfl) .append _ _ _ n
    fun x _ => describes.listen x.1 e x.2

theorem counts_runHandler (describes : d.Describes p Counts) (packet : Packet) (id : LinkId)
    (arrival : UInt32) (x : Handler α × Node σ α) :
    Counts (takenInCall p d packet id arrival x) x.2
      (runHandler p packet id arrival x.1 x.2).1 := by
  obtain ⟨handler, n⟩ := x
  cases handler with
  | application a => exact describes.handle a packet id arrival n
  | node =>
      simp only [takenInCall, runHandler]
      cases tells : packet.payload.event? with
      | none => exact (turns_handleOwn tells p id arrival n).counts
      | some e =>
          rw [handleOwn_of_event tells]
          simpa using counts_tell describes e n

/-- A frame that is handled is not counted again if it can be read. -/
theorem counts_handleFrame (describes : d.Describes p Counts) (id : LinkId)
    (readable : (Packet.decode body).isOk = true) (arrival : UInt32) (n : Node σ α) :
    Counts (n.takenInFrame p d id body arrival) n (n.handleFrame p id body arrival) := by
  simp only [takenInFrame, handleFrame]
  cases decoded : Packet.decode body with
  | error e => simp [decoded, Except.isOk, Except.toBool] at readable
  | ok packet =>
      exact HandlerTable.dispatch_compose (fun _ => rfl) (fun _ _ => rfl) .append _ _ _ n
        fun x _ => counts_runHandler describes packet id arrival x

/-- A frame that is taken is counted, and then those that are taken while it is handled. -/
theorem counts_routeFrame (describes : d.Describes p Counts) (id : LinkId) (body : Bytes)
    (arrival : UInt32) (n : Node σ α) :
    Counts (n.takenWith p d id body arrival) n (n.routeFrame p id body arrival) := by
  cases seen : Header.peek body with
  | error e =>
      simp only [takenWith, routeFrame, seen]
      exact (count_of_unreadable seen).symm
  | ok h =>
      have passed : (n.passOn id body h).tally = (n.counted h).tally :=
        (incidental_forwardFrame (n.counted h) _ body).tally
      simp only [takenWith, routeFrame_eq p seen, seen]
      split
      next takes =>
        cases readable : (Packet.decode body).isOk with
        | true =>
            have first := passed.trans (count_of_decision seen fun _ => readable).symm
            exact .cons first (counts_handleFrame describes id readable arrival _)
        | false =>
            cases decoded : Packet.decode body with
            | ok packet => simp [decoded, Except.isOk, Except.toBool] at readable
            | error e =>
                simp only [takenInFrame, handleFrame, decoded]
                refine .cons (m := (n.counted h).countMalformed) ?_ (counts_nil ?_)
                · exact (count_of_spoiled seen takes readable).symm
                · simp only [countMalformed, passed]
      next passes =>
        exact .cons (passed.trans (count_of_decision seen (absurd · passes)).symm) (counts_nil rfl)

/-- All frames that are read are counted, one after the other. -/
theorem counts_readFrames (describes : d.Describes p Counts) (id : LinkId) (limit : Nat)
    (n : Node σ α) : Counts (n.takenOnLink p d id limit) n (n.readFrames p id limit) := by
  induction limit generalizing n with
  | zero => exact counts_nil rfl
  | succ limit ih =>
      simp only [takenOnLink, readFrames]
      cases (n.link? id).bind Link.nextFrame with
      | none => exact counts_nil rfl
      | some next =>
          obtain ⟨⟨body, arrival⟩, l⟩ := next
          have first := counts_routeFrame describes id body arrival (n.putLink l)
          exact .append first (ih _)

theorem counts_perform (describes : d.Describes p Counts) (a : Action α) (n : Node σ α) :
    Counts (n.takenInTask p d a) n (n.perform p a) := by
  cases a with
  | read id =>
      have read := counts_readFrames describes id (n.readLimit id) n
      have rests := (incidental_restReading (n.readFrames p id (n.readLimit id)) id).tally
      exact rests.trans read
  | tell e => exact counts_tell describes e n
  | application a => exact describes.task a n
  | exchange | timeout | send | setClock | announce =>
      exact (turns_perform (by simp) rfl (by simp) p n).counts

/-- A pass counts the frames that its tasks read. -/
theorem counts_execute (describes : d.Describes p Counts) (now : Nat) (n : Node σ α) :
    Counts (n.takenInPass p d now) n (n.execute p now).2 := by
  rw [execute_eq]
  exact Agenda.runs_compose agendaOf (perform p) now (R := Counts) (fun _ => rfl) .append _
    (fun r _ => counts_perform describes r.task.action (r.start agendaOf now))
    (n.agenda.dueIds now) (n.clocked now)

/-! ## Callbacks that run passes -/

/-- The frames that are taken while a node becomes another, by passes and by what does not count any
frame. -/
inductive Recounted : List Intake → Node σ α → Node σ α → Prop where
  | beside {n m : Node σ α} (same : m.tally = n.tally) : Recounted [] n m
  | pass (n : Node σ α) (now : Nat) (p : Program σ α) (d : Diary σ α)
      (task : ∀ a m, Recounted (d.task a m) m (p.task a m))
      (handle : ∀ a packet id arrival m,
        Recounted (d.handle a packet id arrival m) m (p.handle a packet id arrival m).1)
      (listen : ∀ a e m, Recounted (d.listen a e m) m (p.listen a e m)) :
      Recounted (n.takenInPass p d now) n (n.execute p now).2
  | andThen {log log' : List Intake} {n m k : Node σ α} (first : Recounted log n m)
      (next : Recounted log' m k) : Recounted (log ++ log') n k

/-- What an application makes a node do is counted too. -/
theorem Recounted.counts (recounted : Recounted log n m) : Counts log n m := by
  induction recounted with
  | beside same => exact same
  | pass n now p d _ _ _ task handle listen => exact counts_execute ⟨task, handle, listen⟩ now n
  | andThen _ _ first next => exact first.append next

/-- Whatever is asked of a node but a pass, no frame is counted. -/
theorem recounted_input (n : Node σ α) {i : Input α} (rests : ∀ now, i ≠ .execute now)
    (p : Program σ α) : Recounted [] n (n.obey p i) :=
  .beside (turns_input n rests p).counts

/-! ## Histories -/

theorem counts_obey (describes : d.Describes p Counts) (n : Node σ α) (i : Input α) :
    Counts (n.takenBy p d i) n (n.obey p i) := by
  cases i with
  | execute now => exact counts_execute describes now n
  | addLink | arrive | disconnect | close | send | stop | onPacket | onEvent | addTask
    | joinElection => exact (turns_input n (by simp) p).counts

/-- The tally of a node counts its history. -/
theorem counts_live (describes : d.Describes p Counts) (n : Node σ α)
    (events : List (σ × Input α)) : Counts (n.taken p d events) n (n.live p events) := by
  induction events generalizing n with
  | nil => exact counts_nil rfl
  | cons e events ih => exact .append (counts_obey describes { n with host := e.1 } e.2) (ih _)

/-- In every history of a node, whatever passes an application runs meanwhile, the tally is what comes
of counting the frames that were taken, one after the other.  So it tells how many frames were
forwarded, and how many were for everyone.  What it has as handled are those that were dispatched and
those that were spoiled, and what it has as dropped are those that were dropped and again those that
were spoiled.  The total is the number of frames that were taken and of those spoiled among them. -/
theorem frames_counted_by_fate (describes : d.Describes p Recounted) (n : Node σ α)
    (events : List (σ × Input α)) :
    let t := n.tally
    let t' := (n.live p events).tally
    let xs := n.taken p d events
    t' = xs.foldl Intake.count t ∧
    t'.forwarded = t.forwarded + Fate.forwarded.among xs ∧
    t'.flooded = t.flooded + xs.countP Intake.isBroadcast ∧
    t'.handled = t.handled + Fate.dispatched.among xs + Fate.spoiled.among xs ∧
    t'.dropped = t.dropped + Fate.dropped.among xs + Fate.spoiled.among xs ∧
    t'.total = t.total + xs.length + Fate.spoiled.among xs := by
  intro t t' xs
  have counts : t' = xs.foldl Intake.count t := counts_live ⟨fun a n => (describes.task a n).counts,
    fun a packet id arrival n => (describes.handle a packet id arrival n).counts,
    fun a e n => (describes.listen a e n).counts⟩ n events
  have fates := counts.trans (Intake.foldl_count xs t)
  refine ⟨counts, ?_⟩
  rw [fates]
  refine ⟨rfl, rfl, rfl, rfl, ?_⟩
  simp only [Tally.total, ← Fate.among_all xs]
  omega

/-- An application that closes the first link when it gets a text. -/
def curt : Program (Outlets Unit) Unit where
  task := fun _ n => n
  handle := fun _ _ _ _ n => (n, .pass)
  listen := fun _ e n =>
    match e with
    | .received _ _ => (n.close ⟨1⟩).2
    | _ => n

/-- One whose task runs a pass, too. -/
def hasty : Program (Outlets Unit) Unit :=
  { curt with task := fun _ n => (n.execute curt n.now).2 }

/-- What is taken in the pass that the task runs. -/
def hastyDiary : Diary (Outlets Unit) Unit :=
  { Diary.blank _ _ with task := fun _ n => n.takenInPass curt (.blank _ _) n.now }

/-- Five frames come in at once: a text without a sender, one byte, a text for a node that is not
known, a broadcast text, and the text without a sender again. -/
def mixedPost : List (Outlets Unit × Input Unit) :=
  ([.addTask 5 .forever (), .addLink true, .onEvent .received (),
    .arrive ⟨1⟩ [8, 0, 0, 0, 9, 0, 0, 0, 1, 0, 0, 0, 1, 0, 0, 0, 7,
      8, 0, 0, 0, 9, 0, 1, 0, 2, 0, 0, 0,
      14, 0, 0, 0, 8, 0, 2, 0, 0, 0, 0, 0, 2, 0, 0, 0, 0, 0,
      8, 0, 0, 0, 9, 0, 0, 0, 1, 0, 0, 0],
    .execute 0] : List (Input Unit)).map fun i => ({ application := () }, i)

/-- Four frames are taken before the link is closed, and they count as five. -/
theorem frames_counted_by_fate_mixedPost :
    hastyDiary.Describes hasty Recounted ∧
      (newcomer.taken hasty hastyDiary mixedPost).map Intake.fate =
        [.spoiled, .dropped, .dropped, .dispatched] ∧
      (newcomer.live hasty mixedPost).tally = { flooded := 1, handled := 2, dropped := 3 } ∧
      (newcomer.live hasty mixedPost).tally.total =
        newcomer.tally.total + (newcomer.taken hasty hastyDiary mixedPost).length +
          Fate.spoiled.among (newcomer.taken hasty hastyDiary mixedPost) := by
  have rests : ∀ n : Node (Outlets Unit) Unit, Recounted [] n n := fun _ => .beside rfl
  have listen : ∀ a e n, Recounted [] n (curt.listen a e n) := by
    intro a e n
    cases e with
    | received sender text => exact recounted_input n (i := .close ⟨1⟩) (by simp) curt
    | connected | dropped | changed | opened | adjusted | measured | meshId => exact rests n
  have describes : hastyDiary.Describes hasty Recounted :=
    ⟨fun _ n => .pass n n.now curt (.blank _ _) (fun _ => rests) (fun _ _ _ _ => rests) listen,
      fun _ _ _ _ => rests, listen⟩
  obtain ⟨-, -, -, -, -, total⟩ := frames_counted_by_fate describes newcomer mixedPost
  exact ⟨describes, by decide +kernel, by decide +kernel, total⟩

/-- One frame counts as two: it was not dispatched, but is counted as handled, and as dropped. -/
theorem spoiled_frame_counted_twice :
    let events : List (Outlets Unit × Input Unit) :=
      ([.addLink true, .arrive ⟨1⟩ [8, 0, 0, 0, 9, 0, 0, 0, 1, 0, 0, 0], .execute 0] :
        List (Input Unit)).map fun i => ({ application := () }, i)
    (newcomer.taken (.idle _ _) (.blank _ _) events).map Intake.fate = [.spoiled] ∧
      (newcomer.live (.idle _ _) events).tally = { handled := 1, dropped := 1 } := by
  decide +kernel

end Node

end SpanningMesh
