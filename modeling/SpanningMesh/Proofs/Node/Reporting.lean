import SpanningMesh.Proofs.Node.Churn
import SpanningMesh.Proofs.Node.Courses

/-!
# All that happens to links is noted

A node is `Reported` since another if it is in step, and if the events that it put on its agenda
meanwhile can be noted.  Everything that may be asked of a node keeps it so, but for a pass and for
stopping.  So does every action of a task, with an application that asks of its node what may be
asked (`Arranged`).
-/

namespace SpanningMesh

open Application (Program)

namespace Node

open Agenda (Brings)

section

variable {σ α : Type} [Host σ] {n m s : Node σ α} {l l' : Link} {id k : LinkId} {es : List Event}
  {busy : TaskId → Prop}

/-- A node is in step, and all events that it put on its agenda since it was another can be noted. -/
structure Reported (busy : TaskId → Prop) (s n : Node σ α) : Prop where
  step : InStep busy n
  recorded : Recorded s n

theorem Reported.of_moves (h : Reported busy s n) (moves : Moves (fun _ => True) n m)
    (recorded : Recorded n m) : Reported busy s m :=
  ⟨h.step.moves moves, h.recorded.trans recorded⟩

omit [Host σ] in
/-- What is neither the links nor the agenda may change. -/
theorem Reported.of_eq (h : Reported busy s n) (links : m.links = n.links)
    (nextLink : m.nextLink = n.nextLink) (agenda : m.agenda = n.agenda) : Reported busy s m :=
  ⟨h.step.of_eq links nextLink agenda,
    h.recorded.trans (Elsewhere.of_eq links nextLink agenda).recorded⟩

theorem Reported.queueFrame (n : Node σ α) (id : LinkId) (frame : Bytes) (priority : Bool)
    (h : Reported busy s n) : Reported busy s (n.queueFrame id frame priority).2 := by
  refine h.of_moves (moves_queueFrame n id frame priority) ?_
  simp only [Node.queueFrame]
  split
  · exact (Elsewhere.refl n).recorded
  next l found =>
    split
    · exact (Elsewhere.refl n).recorded
    next l' taken =>
      obtain ⟨express, regular, -, rfl⟩ := Link.feeds_of_enqueue taken
      have apart := h.step.apart (mem_links_of_link? found) (l.tasks.send_mem_duties l.id)
      dsimp only
      have put : Recorded n (n.putLink (l.fed express regular)) := recorded_putLink found rfl rfl
      exact put.plan apart.enable

theorem Reported.send (h : Reported busy s n) (x : Sending) : Reported busy s (n.send x) := by
  cases x with
  | through id packet priority => exact sendTo_keeps Reported.queueFrame id packet priority h
  | packet packet priority => exact sendPacket_keeps Reported.queueFrame packet priority h
  | toAll packet except priority => exact sendToAll_keeps Reported.queueFrame packet except priority h
  | single dest text => exact sendPacket_keeps Reported.queueFrame _ false h
  | measureDelay dest => exact sendPacket_keeps Reported.queueFrame _ false h
  | broadcast text includeSelf =>
      have sent := sendToAll_keeps Reported.queueFrame (.broadcast n.id text) none false h
      simp only [Node.send, sendBroadcast]
      split
      · exact sent.of_moves (moves_schedule _ _) (elsewhere_schedule _ rfl).recorded
      · exact sent

theorem Reported.setClock (h : Reported busy s n) (id : LinkId) (offset : Int32) :
    Reported busy s (n.setClock id offset) :=
  h.of_moves (moves_setClock n id offset) (elsewhere_setClock h.step id offset).recorded

theorem Reported.hearTimeSync (h : Reported busy s n) (id : LinkId) (sender : UInt32)
    (x : TimeExchange) (arrival : UInt32) :
    Reported busy s (n.hearTimeSync id sender x arrival) := by
  simp only [Node.hearTimeSync]
  split
  · exact sendTo_keeps Reported.queueFrame id _ true h
  · exact sendTo_keeps Reported.queueFrame id _ true h
  · exact h.setClock id _
  · exact h

theorem Reported.hearTimeDelay (h : Reported busy s n) (sender : UInt32) (x : TimeExchange)
    (arrival : UInt32) : Reported busy s (n.hearTimeDelay sender x arrival) := by
  simp only [Node.hearTimeDelay]
  split
  · exact sendPacket_keeps Reported.queueFrame _ false h
  · exact h.of_moves (moves_schedule _ _) (elsewhere_schedule _ rfl).recorded
  · exact h
  · exact h

omit [Host σ] in
/-- A link that meets its peer is recorded with that. -/
theorem recorded_identifyPeer (n : Node σ α) (id : LinkId) (peer : UInt32) :
    Recorded n (n.identifyPeer id peer) := by
  simp only [identifyPeer]
  split
  · exact (Elsewhere.refl n).recorded
  next l found =>
    have meets := l.meets_identify peer
    split
    next l' known =>
      rw [known] at meets
      exact recorded_of_meets found meets rfl rfl (Agenda.brings_addOnce n.agenda _)
    next => exact (Elsewhere.refl n).recorded

theorem Reported.exchange (h : Reported busy s n) (id : LinkId) :
    Reported busy s (n.exchange id) := by
  simp only [Node.exchange]
  split
  · exact h
  next l found =>
    have there := mem_links_of_link? found
    have asked := l.asked_noted
    have ends : l.asked.ends = l.ends := by
      simp only [Link.asked]
      split <;> rfl
    have apart : n.agenda.Apart l.asked.tasks.timeout :=
      asked.tasks ▸ h.step.apart there (l.tasks.timeout_mem_duties l.id)
    refine sendTo_keeps Reported.queueFrame id _ true (h.of_moves (moves_ask there) ?_)
    exact (recorded_putLink found asked.id ends).plan (apart.restartDelayed _)

/-! ### Accepting a tree -/

/-- Once a neighbour is settled, its link may have met it, and has the tasks it had but for the
clock. -/
theorem meets_settle (h : InStep busy n) (l : Link) (sender : UInt32) :
    (∃ es, l.Meets es (n.settle l sender).1 ∧
      Brings es n.agenda (n.settle l sender).2.agenda) ∧
      (n.settle l sender).1.tasks.exchange = l.tasks.exchange := by
  have meets := l.meets_identify sender
  have noted := l.identify_noted sender
  simp only [settle]
  generalize l.identify sender = r at meets noted ⊢
  obtain ⟨news, k⟩ := r
  simp only at meets noted ⊢
  obtain ⟨n₁, step, brings, eq⟩ : ∃ n₁, InStep busy n₁ ∧
      Brings (if news = true then [.connected sender] else []) n.agenda n₁.agenda ∧
      (if news = true then n.schedule (.connected sender) else n) = n₁ := by
    split
    · have notes : Moves (fun _ => False) n (n.schedule (.connected sender)) := moves_schedule n _
      exact ⟨_, h.moves notes, Agenda.brings_addOnce n.agenda _, rfl⟩
    · exact ⟨n, h, .refl _, rfl⟩
  rw [eq]
  have same : ∀ k : Link, (n₁.addClockTask k).1.id = k.id ∧ (n₁.addClockTask k).1.ends = k.ends ∧
      (n₁.addClockTask k).1.tasks.exchange = k.tasks.exchange := by
    intro k
    simp only [addClockTask]
    split <;> exact ⟨rfl, rfl, rfl⟩
  obtain ⟨id, ends, exchange⟩ := same { k with phase := .synced }
  obtain ⟨remote, station⟩ := Prod.mk.inj ends
  have clocked := brings.trans (brings_addClockTask step { k with phase := .synced })
  rw [List.append_nil] at clocked
  refine ⟨⟨_, ⟨id.trans meets.id, station.trans meets.station, ?_⟩, clocked⟩,
    exchange.trans (by rw [noted.tasks])⟩
  rw [remote]
  exact meets.peer

omit [Host σ] in
theorem elsewhere_store (n : Node σ α) (l : Link) (sender : UInt32) (tree : Tree)
    (apart : n.agenda.Apart l.tasks.exchange) :
    Elsewhere (n.putLink { l with subtree := tree }) (n.store l sender tree) := by
  simp only [store, Link.learn]
  split
  · exact (elsewhere_hastenExchanges _ _).trans (elsewhere_schedule _ rfl)
  · refine .trans (.plan (f := fun a => (a.delay l.tasks.exchange n.settings.exchangeInterval).2)
      (apart.postpone _)) ?_
    exact .of_eq rfl rfl rfl

/-- A tree that is accepted is recorded with what it changes. -/
theorem recorded_acceptTree (h : InStep busy n) (found : n.link? id = some l) (sender : UInt32)
    (tree : Tree) : Recorded n (n.acceptTree l sender tree) := by
  have there := mem_links_of_link? found
  have apart := h.apart there (l.tasks.exchange_mem_duties l.id)
  have known := h.lt_nextId there (l.tasks.exchange_mem_duties (α := α) l.id)
  -- Before the tree is stored, the neighbour may be settled, which leaves the links as they are.
  obtain ⟨n₁, k, es, stores, meets, brings, same, feeds⟩ : ∃ (n₁ : Node σ α) (k : Link) (es : _),
      n.acceptTree l sender tree = n₁.store k sender tree ∧ l.Meets es k ∧
      Brings es n.agenda n₁.agenda ∧ k.tasks.exchange = l.tasks.exchange ∧
      Feeds (fun _ _ => False) n n₁ := by
    simp only [acceptTree]
    split
    · obtain ⟨⟨es, meets, brings⟩, same⟩ := meets_settle h l sender
      exact ⟨_, _, es, rfl, meets, brings, same, (settle_spec n l sender).2⟩
    · exact ⟨n, l, [], rfl, ⟨rfl, rfl, .inl ⟨rfl, rfl⟩⟩, .refl _, rfl, .refl _ n⟩
  have put : Recorded n (n₁.putLink { k with subtree := tree }) := by
    have meets : l.Meets es { k with subtree := tree } := ⟨meets.id, meets.station, meets.peer⟩
    refine recorded_of_meets found meets ?_ feeds.nextLink brings
    simp only [putLink, feeds.links_eq]
  rw [stores]
  exact put.trans (elsewhere_store n₁ k sender tree (same ▸ apart.brings known brings)).recorded

/-- A tree is accepted, or its link is closed.  Both are reported. -/
theorem Reported.hearTree (h : Reported busy s n) (id : LinkId) (sender : UInt32) (tree : Tree)
    (wanted : Bool) : Reported busy s (n.hearTree id sender tree wanted) := by
  cases found : n.link? id with
  | none =>
      simp only [Node.hearTree, found]
      exact h
  | some l =>
      have there := mem_links_of_link? found
      cases admitted : n.checkAnnounced l sender tree with
      | error e =>
          simp only [Node.hearTree, found, admitted]
          exact h.of_moves (moves_close n id) (recorded_close h.step id)
      | ok u =>
          have recorded := recorded_acceptTree h.step found sender tree
          have accepted : Reported busy s (n.acceptTree l sender tree) :=
            h.of_moves (moves_acceptTree found sender fun _ => trivial) recorded
          simp only [Node.hearTree, found, admitted]
          split
          · exact sendTo_keeps Reported.queueFrame id _ true accepted
          · have apart := recorded.apart (h.step.apart there (l.tasks.timeout_mem_duties l.id))
              (h.step.lt_nextId there (l.tasks.timeout_mem_duties (α := α) l.id))
            obtain ⟨k, there', timeout⟩ := timeout_acceptTree there sender tree
            exact accepted.of_moves (.single (timeout ▸ .answered there'))
              (Elsewhere.plan apart.disable).recorded

theorem Reported.close (h : Reported busy s n) (id : LinkId) : Reported busy s (n.close id).2 :=
  h.of_moves (moves_close n id) (recorded_close h.step id)

/-! ## Inputs -/

theorem Reported.addLink (h : Reported busy s n) (station : Bool) :
    Reported busy s (n.addLink station).2 :=
  ⟨h.step.addLink station, h.recorded.trans (recorded_addLink h.step station)⟩

theorem Reported.arrive (h : Reported busy s n) (id : LinkId) (chunk : Bytes) :
    Reported busy s (n.arrive id chunk) := by
  refine ⟨h.step.arrive id chunk, h.recorded.trans ?_⟩
  simp only [Node.arrive]
  split
  · exact (Elsewhere.refl n).recorded
  next l found =>
    split
    · exact recorded_close h.step id
    next count l' taken =>
      obtain ⟨bodies, r, -, -, rfl⟩ := Link.receive_ok taken
      have apart := h.step.apart (mem_links_of_link? found) (l.tasks.read_mem_duties l.id)
      have put : Recorded n (n.putLink { l with
          reassembler := r, inbox := l.inbox ++ bodies.map (·, n.time) }) :=
        recorded_putLink found rfl rfl
      dsimp only
      split
      · exact put
      · exact put.plan apart.enable

/-- A link that cannot write is closed, which is reported. -/
theorem Reported.flush (h : Reported busy s n) (id : LinkId) : Reported busy s (n.flush id) := by
  refine ⟨h.step.flush id, h.recorded.trans ?_⟩
  cases found : n.link? id with
  | none =>
      rw [flush_of_none found]
      exact (Elsewhere.refl n).recorded
  | some l =>
      have there := mem_links_of_link? found
      have apart := h.step.apart there (l.tasks.send_mem_duties l.id)
      obtain ⟨q, host, cases⟩ := flush_cases found
      have same : l.Meets [] { l with outbox := q } := ⟨rfl, rfl, .inl ⟨rfl, rfl⟩⟩
      have wrote : Recorded n (n.written l q host) :=
        recorded_of_meets found same rfl rfl (.refl _)
      rcases cases with closes | waits | ⟨-, rests⟩
      · rw [closes]
        exact wrote.trans (recorded_close (h.step.written there q host) id)
      · rw [waits]
        exact wrote.plan (apart.postpone _)
      · rw [rests]
        exact wrote.plan apart.disable

/-- What may be asked of a node, other than a pass or to stop. -/
theorem Reported.input (h : Reported busy s n) {p : Program σ α} {i : Input α}
    (rests : ∀ now, i ≠ .execute now) (goes : i ≠ .stop) : Reported busy s (n.obey p i) := by
  cases i with
  | addLink station => exact h.addLink station
  | arrive id chunk => exact h.arrive id chunk
  | disconnect id => exact h.close id
  | close id => exact h.close id
  | send x => exact h.send x
  | execute now => exact absurd rfl (rests now)
  | stop => exact absurd rfl goes
  | onPacket kind a => exact h.of_eq rfl rfl rfl
  | onEvent kind a => exact h.of_eq rfl rfl rfl
  | addTask interval runs a =>
      exact h.of_moves (moves_addTask n _ _ a) (elsewhere_addTask n interval runs a).recorded
  | joinElection own =>
      exact h.of_moves (moves_joinElection n own) (elsewhere_joinElection n own).recorded

/-- What becomes of a node by all that may be asked of it but a pass and to stop, and by changes
elsewhere than in its links and its agenda. -/
inductive Arranged : Node σ α → Node σ α → Prop where
  | elsewhere {n m : Node σ α} (links : m.links = n.links) (nextLink : m.nextLink = n.nextLink)
      (agenda : m.agenda = n.agenda) : Arranged n m
  | input (n : Node σ α) {i : Input α} (rests : ∀ now, i ≠ .execute now) (goes : i ≠ .stop) :
      Arranged n (n.obey (.idle σ α) i)
  | andThen {n m k : Node σ α} (first : Arranged n m) (next : Arranged m k) : Arranged n k

theorem Reported.arranged (arranged : Arranged n m) (h : Reported busy s n) :
    Reported busy s m := by
  induction arranged with
  | elsewhere links nextLink agenda => exact h.of_eq links nextLink agenda
  | input n rests goes => exact h.input rests goes
  | andThen _ _ first next => exact next (first h)

end

end Node

/-- A program that does to its node what may be asked of it, but neither runs a pass nor stops it,
and does nothing else to its links and its agenda. -/
structure Application.Program.OnlyArranges {σ α : Type} [Host σ] (p : Program σ α) : Prop where
  task : ∀ a n, Node.Arranged n (p.task a n)
  handle : ∀ a packet id arrival n, Node.Arranged n (p.handle a packet id arrival n).1
  listen : ∀ a e n, Node.Arranged n (p.listen a e n)

/-! ## Actions -/

namespace Node

variable {σ α : Type} [Host σ] {p : Program σ α} {n s : Node σ α} {busy : TaskId → Prop}

theorem Reported.tell (arranges : p.OnlyArranges) (h : Reported busy s n) (e : Event) :
    Reported busy s (n.tell p e) := by
  have respects : p.Respects (Reported busy s) :=
    ⟨fun a n h => h.arranged (arranges.task a n),
      fun a packet id arrival n h => h.arranged (arranges.handle a packet id arrival n),
      fun a e n h => h.arranged (arranges.listen a e n)⟩
  exact respects.tell (fun _ _ h => h.of_eq rfl rfl rfl) e h

theorem Reported.handleOwn (arranges : p.OnlyArranges) (h : Reported busy s n) (packet : Packet)
    (id : LinkId) (arrival : UInt32) : Reported busy s (n.handleOwn p packet id arrival) := by
  simp only [Node.handleOwn]
  split
  · exact h.hearTree id _ _ true
  · exact h.hearTree id _ _ false
  · exact h.hearTimeSync id _ _ arrival
  · exact h.hearTimeDelay _ _ arrival
  · exact h.tell arranges _
  · exact h.tell arranges _
  · exact h.of_moves ((moves_identifyPeer n id _).trans (moves_hearAnnouncement _ _))
      ((recorded_identifyPeer n id _).trans (elsewhere_hearAnnouncement _ _).recorded)
  · exact h

theorem keepsReading_reported (arranges : p.OnlyArranges) (busy : TaskId → Prop) (s : Node σ α)
    (id : LinkId) : p.KeepsReading id (fun _ => True) (Reported busy s) where
  aside h other := h.of_eq other.links other.nextLink other.agenda
  take next h := by
    obtain ⟨k, rest, found, -, rfl⟩ := inbox_of_next next
    have there := mem_links_of_link? found
    exact ⟨trivial, h.step.putLink there rfl rfl (h.step.phases k there),
      h.recorded.trans (recorded_putLink found rfl rfl)⟩
  forward _ ids body h := forwardFrame_keeps Reported.queueFrame ids body h
  own _ _ packet arrival _ _ h := h.handleOwn arranges packet id arrival
  handle a packet arrival n h := h.arranged (arranges.handle a packet id arrival n)

/-- All that a task does is reported. -/
theorem Reported.perform (arranges : p.OnlyArranges) (h : Reported busy s n) (a : Action α) :
    Reported busy s (n.perform p a) := by
  cases a with
  | exchange id => exact h.exchange id
  | timeout id => exact h.close id
  | read id =>
      exact (keepsReading_reported arranges busy s id).read (fun _ h =>
        ⟨h.step.restReading id, h.recorded.trans (elsewhere_restReading h.step id).recorded⟩) h
  | send id => exact h.flush id
  | setClock id => exact startClockSync_keeps Reported.queueFrame id h
  | announce => exact announce_keeps Reported.queueFrame h
  | tell e => exact h.tell arranges e
  | application a => exact h.arranged (arranges.task a n)

end Node

end SpanningMesh
