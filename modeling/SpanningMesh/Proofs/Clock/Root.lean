import SpanningMesh.Proofs.Clock.Exchange
import SpanningMesh.Proofs.Node.Identity

/-!
# The clock of the designated root

The designated root is the one that all others take the time from.  On a link whose turn it is to set
clocks it always invites its neighbour and asks for no time.  But a node that is invited itself asks
for the time, and one that gets a reply moves its clock by it, and neither looks at who is the root.

So the clock of the root stays where it is in every history in which no reply comes in that would
move it (`root_clock_unmoved`), and one such reply is enough to move it.

What moves is the *dial* of a node (`Node.dial`).  A node is `Anchored` if its clock is where it was,
it is the root, and no frame that waits would move it.
-/

namespace SpanningMesh

open Application (Program)

/-- By how much a packet that came in at some time moves the clock of the node that handles it. -/
def Payload.shift (arrival : UInt32) : Payload → UInt32
  | .timeSync _ x => x.shift arrival
  | _ => 0

/-- By how much a frame moves the clock of the node that handles it. -/
def Packet.shift (frame : Bytes × UInt32) : UInt32 :=
  match Packet.decode frame.1 with
  | .ok packet => packet.payload.shift frame.2
  | .error _ => 0

/-- How far a frame would shift the clock can be told from its payload. -/
theorem Packet.shift_of_decode {body : Bytes} {packet : Packet} {arrival : UInt32}
    (read : Packet.decode body = .ok packet) :
    Packet.shift (body, arrival) = packet.payload.shift arrival := by
  simp only [shift, read]

namespace Node

variable {σ α : Type} {n m k : Node σ α} {id : LinkId} {l : Link} {c : UInt32}

/-- No frame that waits to be read would move the clock. -/
def Still (n : Node σ α) : Prop := ∀ l ∈ n.links, ∀ f ∈ l.inbox, Packet.shift f = 0

instance (n : Node σ α) : Decidable n.Still :=
  inferInstanceAs (Decidable (∀ l ∈ n.links, ∀ f ∈ l.inbox, Packet.shift f = 0))

/-- A root whose clock is where it was, while nothing waits that would move it. -/
structure Anchored (c : UInt32) (n : Node σ α) : Prop where
  clockShift : n.clockShift = c
  root : n.root = true
  still : n.Still

/-- A change that leaves the dial as it is keeps the clock at anchor. -/
theorem Anchored.of_dial (h : Anchored c n) (same : m.dial = n.dial) (still : m.Still) :
    Anchored c m := by
  simp only [dial, Prod.mk.injEq] at same
  exact ⟨same.2.1.trans h.clockShift, same.2.2.trans h.root, still⟩

theorem Anchored.of_links_eq (h : Anchored c n) (links : m.links = n.links)
    (clockShift : m.clockShift = n.clockShift) (root : m.root = n.root) : Anchored c m :=
  ⟨clockShift.trans h.clockShift, root.trans h.root, by rw [Still, links]; exact h.still⟩

theorem Still.putLink (still : n.Still) (inbox : ∀ f ∈ l.inbox, Packet.shift f = 0) :
    (n.putLink l).Still := by
  intro k hk
  rcases mem_links_putLink hk with rfl | ⟨old, -⟩
  · exact inbox
  · exact still k old

variable [Host σ]

/-- Moves bring no new frames. -/
theorem Still.moves (still : n.Still) (moves : Moves (fun _ => True) n m) : m.Still := by
  intro k hk f hf
  obtain ⟨l, hl, follows⟩ := moves.follows k hk
  exact still l hl f (follows.inbox.subset hf)

/-- Moves keep the clock at anchor unless they set it. -/
theorem Anchored.moves (h : Anchored c n) (moves : Moves (fun _ => True) n m)
    (same : m.dial = n.dial) : Anchored c m :=
  h.of_dial same (h.still.moves moves)

/-! ## What else moves no clock -/

section

omit [Host σ]

theorem dial_hearAnnouncement (n : Node σ α) (a : Announcement) :
    (n.hearAnnouncement a).dial = n.dial := by
  simp only [hearAnnouncement]
  split
  · rfl
  · split
    · rfl
    · exact dial_setElection n _ _

theorem dial_identifyPeer (n : Node σ α) (id : LinkId) (peer : UInt32) :
    (n.identifyPeer id peer).dial = n.dial := by
  simp only [identifyPeer]
  split
  · rfl
  · split <;> rfl

theorem dial_addClockTask (n : Node σ α) (l : Link) : (n.addClockTask l).2.dial = n.dial := by
  simp only [addClockTask]
  split <;> rfl

theorem dial_acceptTree (n : Node σ α) (l : Link) (sender : UInt32) (tree : Tree) :
    (n.acceptTree l sender tree).dial = n.dial := by
  have settled : (n.settle l sender).2.dial = n.dial := by
    simp only [settle]
    refine (dial_addClockTask _ _).trans ?_
    split <;> rfl
  have stored : ∀ (m : Node σ α) l, (m.store l sender tree).dial = m.dial := by
    intro m l
    simp only [store]
    split <;> rfl
  simp only [acceptTree]
  split
  · exact (stored _ _).trans settled
  · exact stored n l

theorem dial_addLink (n : Node σ α) (station : Bool) : (n.addLink station).2.dial = n.dial :=
  dial_hastenAnnouncement _

theorem dial_joinElection (n : Node σ α) (own : UInt16) : (n.joinElection own).dial = n.dial := by
  simp only [joinElection]
  split <;> rfl

theorem dial_restReading (n : Node σ α) (id : LinkId) : (n.restReading id).dial = n.dial := by
  simp only [restReading]
  split <;> rfl

end

theorem dial_hearTree (n : Node σ α) (id : LinkId) (sender : UInt32) (tree : Tree) (wanted : Bool) :
    (n.hearTree id sender tree wanted).dial = n.dial := by
  simp only [hearTree]
  split
  · rfl
  · split
    · exact dial_close n id
    · split
      · exact (dial_sendTo ..).trans (dial_acceptTree ..)
      · exact dial_acceptTree ..

theorem dial_sendPacket (n : Node σ α) (packet : Packet) (priority : Bool) :
    (n.sendPacket packet priority).2.dial = n.dial :=
  sendPacket_keeps (dial_queueFrame n.dial) packet priority rfl

theorem dial_hearTimeDelay (n : Node σ α) (sender : UInt32) (x : TimeExchange) (arrival : UInt32) :
    (n.hearTimeDelay sender x arrival).dial = n.dial := by
  simp only [hearTimeDelay]
  split
  · exact dial_sendPacket ..
  · rfl
  · rfl
  · rfl

theorem dial_exchange (n : Node σ α) (id : LinkId) : (n.exchange id).dial = n.dial := by
  simp only [exchange]
  split
  · rfl
  · exact dial_sendTo ..

theorem dial_flush (n : Node σ α) (id : LinkId) : (n.flush id).dial = n.dial := by
  simp only [flush]
  split
  · rfl
  · split
    · exact dial_close ..
    · split <;> rfl

theorem dial_send (n : Node σ α) (s : Sending) : (n.send s).dial = n.dial := by
  cases s with
  | through id packet priority => exact dial_sendTo ..
  | packet packet priority => exact dial_sendPacket ..
  | toAll packet except priority =>
      exact sendToAll_keeps (dial_queueFrame n.dial) packet except priority rfl
  | single dest text => exact dial_sendPacket ..
  | measureDelay dest => exact dial_sendPacket ..
  | broadcast text includeSelf =>
      have sent := sendToAll_keeps (dial_queueFrame n.dial) (.broadcast n.id text) none false rfl
      simp only [send, sendBroadcast]
      split
      · exact sent
      · exact sent

theorem dial_arrive (n : Node σ α) (id : LinkId) (chunk : Bytes) :
    (n.arrive id chunk).dial = n.dial := by
  simp only [arrive]
  split
  · rfl
  · split
    · exact dial_close n id
    · split <;> rfl

theorem dial_stop (n : Node σ α) : n.stop.dial = n.dial := by
  have closed : ∀ (ids : List LinkId) (n : Node σ α),
      (ids.foldl (fun n id => (n.close id).2) n).dial = n.dial := by
    intro ids
    induction ids with
    | nil => exact fun _ => rfl
    | cons id ids ih => exact fun n => (ih _).trans (dial_close n id)
  exact closed n.linkIds n

/-! ## Passes -/

/-- What the node does with a packet that would not move its clock. -/
theorem Anchored.handleOwn {p : Program σ α} (respects : p.Respects (Anchored c))
    (h : Anchored c n) (id : LinkId) {packet : Packet} {arrival : UInt32}
    (unmoving : packet.payload.shift arrival = 0) : Anchored c (n.handleOwn p packet id arrival) := by
  have tell : ∀ e, Anchored c (n.tell p e) :=
    fun e => respects.tell (fun _ _ h => h.of_links_eq rfl rfl rfl) e h
  simp only [Node.handleOwn]
  split
  · exact h.moves (moves_hearTree n id _ true fun _ _ _ _ => trivial) (dial_hearTree ..)
  · exact h.moves (moves_hearTree n id _ false fun _ _ _ _ => trivial) (dial_hearTree ..)
  next sender x carries =>
    rw [carries, Payload.shift] at unmoving
    have heard := dial_hearTimeSync n id sender x arrival
    rw [unmoving, UInt32.add_zero] at heard
    exact h.moves (moves_hearTimeSync n id sender x arrival) heard
  · exact h.moves (moves_hearTimeDelay n _ _ arrival) (dial_hearTimeDelay ..)
  · exact tell _
  · exact tell _
  · exact h.moves ((moves_identifyPeer n id _).trans (moves_hearAnnouncement _ _))
      ((dial_hearAnnouncement ..).trans (dial_identifyPeer ..))
  · exact h

/-- To read frames that would not shift the clock keeps it at anchor. -/
theorem keepsReading_anchored {p : Program σ α} (respects : p.Respects (Anchored c)) (id : LinkId) :
    p.KeepsReading id (fun frame => Packet.shift frame = 0) (Anchored c) where
  aside h other := h.of_links_eq other.links other.clockShift other.root
  take next h := by
    obtain ⟨l, rest, found, waiting, rfl⟩ := inbox_of_next next
    have inbox := h.still l (mem_links_of_link? found)
    rw [waiting] at inbox
    exact ⟨inbox _ List.mem_cons_self, h.of_dial rfl
      (h.still.putLink fun f hf => inbox f (List.mem_cons_of_mem _ hf))⟩
  forward n ids body h := h.moves (moves_forwardFrame n ids body)
    (forwardFrame_keeps (dial_queueFrame n.dial) ids body rfl)
  own _ _ _ _ read unmoving h :=
    h.handleOwn respects id (Packet.shift_of_decode read ▸ unmoving)
  handle a packet arrival n h := respects.handle a packet id arrival n h

theorem Still.flush (still : n.Still) (id : LinkId) : (n.flush id).Still := by
  refine flush_keeps (fun l there q host => ?_) (fun m id still => ?_) (fun _ _ still => still)
    still id
  · exact Still.putLink (n := { n with host }) still (still l there)
  · exact still.moves (moves_close m id)

/-- No task sets the clock of the root while nothing that would shift it waits. -/
theorem Anchored.perform {p : Program σ α} (respects : p.Respects (Anchored c)) (h : Anchored c n)
    (a : Action α) : Anchored c (n.perform p a) := by
  cases a with
  | exchange id => exact h.moves (moves_exchange n id) (dial_exchange n id)
  | timeout id => exact h.moves (moves_close n id) (dial_close n id)
  | read id =>
      refine (keepsReading_anchored respects id).read (fun m h => ?_) h
      refine h.of_dial (dial_restReading m id) ?_
      simp only [restReading]
      split <;> exact h.still
  | send id => exact h.of_dial (dial_flush n id) (h.still.flush id)
  | setClock id => exact h.moves (moves_startClockSync n id) (dial_startClockSync n id)
  | announce => exact h.moves (moves_announce n) (announce_keeps (dial_queueFrame n.dial) rfl)
  | tell e => exact respects.tell (fun _ _ h => h.of_links_eq rfl rfl rfl) e h
  | application a => exact respects.task a n h

/-- A pass over the tasks keeps the clock at anchor. -/
theorem Anchored.execute {p : Program σ α} (respects : p.Respects (Anchored c)) (h : Anchored c n)
    (now : Nat) : Anchored c (n.execute p now).2 :=
  Agenda.turns_keeps (fun _ _ h => h.of_links_eq rfl rfl rfl) (fun x _ h => h.perform respects x.1)
    (h.of_links_eq rfl rfl rfl)

/-! ## What may be asked -/

/-- Nothing has come in on a new link. -/
theorem Still.addLink (still : n.Still) (station : Bool) : (n.addLink station).2.Still := by
  have opened : (n.opened station).Still := by
    intro l hl
    rcases List.mem_append.mp hl with old | new
    · exact still l old
    · rw [List.mem_singleton.mp new]
      intro f hf
      cases hf
  exact opened.moves (moves_opened n station)

/-- Only by bytes that arrive can something come to wait that moves the clock. -/
theorem Still.input (still : n.Still) {i : Input α} (rests : ∀ now, i ≠ .execute now)
    (arrives : ∀ id chunk, i = .arrive id chunk → (n.arrive id chunk).Still) {p : Program σ α} :
    (n.obey p i).Still := by
  cases i with
  | addLink station => exact still.addLink station
  | arrive id chunk => exact arrives id chunk rfl
  | disconnect id => exact still.moves (moves_close n id)
  | close id => exact still.moves (moves_close n id)
  | send s => exact still.moves (moves_send n s)
  | execute now => exact absurd rfl (rests now)
  | stop => exact fun l hl => absurd hl (links_stop n ▸ List.not_mem_nil)
  | joinElection own => exact still.moves (moves_joinElection n own)
  | onPacket | onEvent | addTask => exact still

/-- Nothing but a pass that may be asked of a node moves its clock. -/
theorem dial_obey (n : Node σ α) {i : Input α} (rests : ∀ now, i ≠ .execute now)
    (p : Program σ α) : (n.obey p i).dial = n.dial := by
  cases i with
  | addLink station => exact dial_addLink n station
  | arrive id chunk => exact dial_arrive n id chunk
  | disconnect id => exact dial_close n id
  | close id => exact dial_close n id
  | send s => exact dial_send n s
  | execute now => exact absurd rfl (rests now)
  | stop => exact dial_stop n
  | joinElection own => exact dial_joinElection n own
  | onPacket | onEvent | addTask => rfl

/-- What becomes of a root by all that may be asked of it, while no bytes arrive that would move its
clock, and by any change elsewhere than in its links, its clock and its being the root. -/
inductive ClockSpared : Node σ α → Node σ α → Prop where
  | elsewhere {n m : Node σ α} (links : m.links = n.links)
      (clockShift : m.clockShift = n.clockShift) (root : m.root = n.root) : ClockSpared n m
  | input (n : Node σ α) {i : Input α} (rests : ∀ now, i ≠ .execute now)
      (arrives : ∀ id chunk, i = .arrive id chunk → n.Still → (n.arrive id chunk).Still) :
      ClockSpared n (n.obey (.idle σ α) i)
  | execute (n : Node σ α) (now : Nat) (p : Program σ α) (task : ∀ a m, ClockSpared m (p.task a m))
      (handle : ∀ a packet id arrival m, ClockSpared m (p.handle a packet id arrival m).1)
      (listen : ∀ a e m, ClockSpared m (p.listen a e m)) : ClockSpared n (n.execute p now).2
  | andThen {n m k : Node σ α} (first : ClockSpared n m) (next : ClockSpared m k) :
      ClockSpared n k

theorem Anchored.spared (spared : ClockSpared n m) (h : Anchored c n) : Anchored c m := by
  induction spared with
  | elsewhere links clockShift root => exact h.of_links_eq links clockShift root
  | input n rests arrives =>
      exact h.of_dial (dial_obey n rests _)
        (h.still.input rests fun id chunk arrive => arrives id chunk arrive h.still)
  | execute n now p _ _ _ task handle listen =>
      exact h.execute ⟨fun a m => task a m,
        fun a packet id arrival m => handle a packet id arrival m, fun a e m => listen a e m⟩ now
  | andThen _ _ first next => exact next (first h)

end Node

/-- A program that does to its node what may be asked of it and anything elsewhere than in its links,
but does not set its clock, or make it the root or not, and has no reply come in that would move its
clock. -/
structure Application.Program.SparesClock {σ α : Type} [Host σ] (p : Program σ α) : Prop where
  task : ∀ a n, Node.ClockSpared n (p.task a n)
  handle : ∀ a packet id arrival n, Node.ClockSpared n (p.handle a packet id arrival n).1
  listen : ∀ a e n, Node.ClockSpared n (p.listen a e n)

/-- An application that spares the clock respects a clock at anchor. -/
theorem Application.Program.SparesClock.respects {σ α : Type} [Host σ] {p : Program σ α}
    (spares : p.SparesClock) (c : UInt32) : p.Respects (Node.Anchored c) where
  task a m h := h.spared (spares.task a m)
  handle a packet id arrival m h := h.spared (spares.handle a packet id arrival m)
  listen a e m h := h.spared (spares.listen a e m)

namespace Node

variable {σ α : Type} [Host σ] {p : Program σ α} {n : Node σ α} {c : UInt32}

/-! ## Histories -/

/-- An input keeps the clock at anchor if no frame waits after it that would shift the clock. -/
theorem Anchored.obey (spares : p.SparesClock) (h : Anchored c n) (i : Input α)
    (still : (n.obey p i).Still) : Anchored c (n.obey p i) := by
  cases i with
  | execute now => exact h.execute (spares.respects c) now
  | addLink | arrive | disconnect | close | send | stop | onPacket | onEvent | addTask
    | joinElection => exact h.of_dial (dial_obey n (by simp) p) still

/-- A history in which nothing comes in that would move the clock leaves a root anchored. -/
theorem Anchored.live (spares : p.SparesClock) (h : Anchored c n) (events : List (σ × Input α))
    (still : ∀ past, past <+: events → (n.live p past).Still) : Anchored c (n.live p events) := by
  induction events using List.reverseRecOn with
  | nil => exact h
  | append_singleton events e ih =>
      have before := ih fun past within => still past (within.trans (List.prefix_append _ _))
      have hosted : Anchored c { n.live p events with host := e.1 } :=
        before.of_links_eq rfl rfl rfl
      have after := still _ (List.prefix_refl _)
      rw [live_append] at after ⊢
      exact hosted.obey spares e.2 after

/-- In every history of a root in which no reply comes in that would move its clock, whatever else
comes in and whatever an application does meanwhile, its clock stays where it was.  It never is the
one to ask for the time unless it is invited. -/
theorem root_clock_unmoved (spares : p.SparesClock) (root : n.root = true) (new : n.links = [])
    (events : List (σ × Input α))
    (still : ∀ past, past <+: events → (n.live p past).Still) :
    (n.live p events).clockShift = n.clockShift ∧
      ∀ id, (n.live p events).firstStep id = .invite := by
  have start : Anchored n.clockShift n := ⟨rfl, root, by simp [Still, new]⟩
  have now := start.live spares events still
  refine ⟨now.clockShift, fun id => ?_⟩
  simp only [firstStep, View.adoptsTimeFrom, view, now.root, if_true, Bool.false_eq_true, if_false]

/-- The node 2 asks for the time and then invites the node 1 to ask, while the application opens and
closes links. -/
def timely : List (Outlets Unit × Input Unit) :=
  comingsAndGoings.take 3 ++ ([.execute 1,
    .arrive ⟨1⟩ [26, 0, 0, 0, 4, 0, 0, 0, 1, 0, 0, 0, 2, 0, 0, 0, 1, 0, 7, 0, 0, 0, 0, 0, 0, 0, 0, 0,
      0, 0],
    .arrive ⟨1⟩ [26, 0, 0, 0, 4, 0, 0, 0, 1, 0, 0, 0, 2, 0, 0, 0, 0, 0, 0, 0, 0, 0, 0, 0, 0, 0, 0, 0,
      0, 0],
    .onEvent .opened (), .execute 5, .execute 6] : List (Input Unit)).map
      fun i => ({ application := () }, i)

/-- The root answers both and stays by its clock. -/
theorem root_clock_unmoved_timely :
    let root : Node (Outlets Unit) Unit := { newcomer with root := true }
    restless.SparesClock ∧ root.root = true ∧ root.links = [] ∧
      (∀ past, past <+: timely → (root.live restless past).Still) ∧
      (root.live restless timely).linkIds = [⟨1⟩] ∧ (root.live restless timely).nextLink = 3 ∧
      (root.live restless timely).clockShift = 0 := by
  intro root
  have spares : restless.SparesClock := by
    refine ⟨fun _ n => .input n (i := .addLink true) (by simp) (by simp),
      fun _ _ _ _ _ => .elsewhere rfl rfl rfl, fun _ e n => ?_⟩
    cases e with
    | opened id => exact .input n (i := .close id) (by simp) (by simp)
    | connected | dropped | changed | adjusted | measured | meshId | received =>
        exact .elsewhere rfl rfl rfl
  have still : ∀ past, past <+: timely → (root.live restless past).Still := by
    have each : ∀ past ∈ timely.inits, (root.live restless past).Still := by decide +kernel
    exact fun past within => each past ((List.mem_inits _ _).mpr within)
  have unmoved := root_clock_unmoved (n := root) spares rfl rfl timely still
  exact ⟨spares, rfl, rfl, still, by decide +kernel, by decide +kernel, unmoved.1⟩

/-- The node 2 answers a question that no one asked. -/
def unasked : List (Outlets Unit × Input Empty) :=
  ([.addLink true,
    .arrive ⟨1⟩ [26, 0, 0, 0, 4, 0, 0, 0, 1, 0, 0, 0, 2, 0, 0, 0, 2, 0, 0, 0, 0, 0, 232, 3, 0, 0, 232,
      3, 0, 0],
    .execute 0] : List (Input Empty)).map fun i => ({ application := () }, i)

/-- The clock of the root moves by what the reply says. -/
theorem root_clock_moved_by_reply :
    let root : Node (Outlets Unit) Empty := { receiver with root := true }
    root.clockShift = 0 ∧ (root.live (.idle (Outlets Unit) Empty) unasked).root = true ∧
      (root.live (.idle (Outlets Unit) Empty) unasked).clockShift = 1000 := by
  refine ⟨rfl, ?_, ?_⟩
  · decide +kernel
  · decide +kernel

end Node

end SpanningMesh
