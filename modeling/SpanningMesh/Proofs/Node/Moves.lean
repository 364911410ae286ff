import Mathlib.Logic.Relation
import SpanningMesh.Proofs.Agenda.Pass
import SpanningMesh.Proofs.Node.Chunks
import SpanningMesh.Proofs.Node.Keeping

/-!
# The moves of a node

Whatever a node does comes down to a few small changes of its links and its agenda, of which
`Move` lists all: a task is added that is about no link, a task of a link is armed, put off or
disabled, a link takes a frame in or notes something down, a link gets its clock task, a link is
dropped.  Each says which tasks it touches and what becomes of the link.

One lemma for each operation says that it is a number of moves (`Moves`).  What every move keeps is
then kept by everything that a node does with what arrived, and by whatever an application does in
between that keeps it as well (`Keeps`).

To put an exchange off is the one move that makes a node slower to tell its neighbours what it
learnt, so the moves say of which links this may happen.  Opening a link, taking bytes in and
stopping are no moves, and neither is what a pass does to the tasks that it runs.
-/

namespace SpanningMesh

open Application (Program)

/-- The link that an action is about. -/
def Action.link? {α : Type} : Action α → Option LinkId
  | exchange id | timeout id | read id | send id | setClock id => some id
  | announce | tell _ | application _ => none

namespace Link

/-- Whether the clock of a link is set, exactly if a tree was accepted on it. -/
def Timed (l : Link) : Prop := l.phase = .synced ↔ l.tasks.timeSync.isSome = true

/-- The link is who it was, has the tasks and the frames it had, and does not begin to close. -/
structure Noted (l l' : Link) : Prop where
  id : l'.id = l.id
  tasks : l'.tasks = l.tasks
  outbox : l'.outbox = l.outbox
  /-- Nothing came in, and what is left of what waited is the end of it. -/
  inbox : l'.inbox <:+ l.inbox
  phase : l'.phase = .closing → l.phase = .closing
  timed : l.Timed → l'.Timed

/-- The link is who it was, has the frames it had, and accepted its first tree. -/
structure Settled (clock : TaskId) (l l' : Link) : Prop where
  id : l'.id = l.id
  tasks : l'.tasks = { l.tasks with timeSync := some clock }
  outbox : l'.outbox = l.outbox
  inbox : l'.inbox <:+ l.inbox
  phase : l'.phase = .synced

theorem Noted.refl (l : Link) : Noted l l :=
  ⟨rfl, rfl, rfl, List.suffix_rfl, fun closing => closing, fun timed => timed⟩

/-- A link that comes to know its peer keeps its tasks and its frames. -/
theorem identify_noted (l : Link) (peer : UInt32) : Noted l (l.identify peer).2 := by
  simp only [identify]
  split
  · exact ⟨rfl, rfl, rfl, List.suffix_rfl, fun closing => closing, fun timed => timed⟩
  · exact .refl l

/-- A link that asks for a tree keeps its tasks and its frames. -/
theorem asked_noted (l : Link) : Noted l l.asked := by
  simp only [asked]
  split
  next unsynced =>
    refine ⟨rfl, rfl, rfl, List.suffix_rfl, (by simp), fun timed => ?_⟩
    simpa [Timed, unsynced] using timed
  next => exact .refl l

end Link

namespace Node

variable {σ α : Type} [Host σ]

/-- A change of a node.  It may put the exchanges of some links off. -/
inductive Move (off : LinkId → Prop) : Node σ α → Node σ α → Prop where
  | elsewhere {n m : Node σ α} (links : m.links = n.links) (nextLink : m.nextLink = n.nextLink)
      (settings : m.settings = n.settings) (agenda : m.agenda = n.agenda) : Move off n m
  | add (n : Node σ α) (interval : Nat) (runs : Runs) {action : Action α}
      (own : action.link? = none) : Move off n (n.plan fun a => (a.add interval runs action).2)
  | force (n : Node σ α) (id : TaskId) : Move off n (n.plan fun a => (a.force id).2)
  | delay {n : Node σ α} {l : Link} (there : l ∈ n.links) {id : TaskId}
      (which : off l.id ∧ l.tasks.exchange = id ∨ l.tasks.timeSync = some id) (delay : Nat) :
      Move off n (n.plan fun a => (a.delay id delay).2)
  | await {n : Node σ α} {l : Link} (there : l ∈ n.links) (delay : Nat) :
      Move off n (n.plan fun a => (a.restartDelayed l.tasks.timeout delay).2)
  | answered {n : Node σ α} {l : Link} (there : l ∈ n.links) :
      Move off n (n.plan fun a => (a.disable l.tasks.timeout).2)
  | put {n : Node σ α} {l l' : Link} (there : l ∈ n.links) (noted : l.Noted l') :
      Move off n (n.putLink l')
  | queue {n : Node σ α} {l : Link} (there : l ∈ n.links) (q : Outbox) :
      Move off n ((n.putLink { l with outbox := q }).plan fun a => (a.enable l.tasks.send).2)
  | settle {n : Node σ α} {l l' : Link} (there : l ∈ n.links) (new : l.tasks.timeSync = none)
      (settled : l.Settled ⟨n.agenda.nextId⟩ l') : Move off n ((n.addClockTask l).2.putLink l')
  | drop {n : Node σ α} {l : Link} (there : l ∈ n.links) : Move off n (n.dropLink l)

/-- A number of moves. -/
abbrev Moves (off : LinkId → Prop) : Node σ α → Node σ α → Prop := Relation.ReflTransGen (Move off)

variable {off : LinkId → Prop} {n m : Node σ α} {id : LinkId} {l l' : Link}

/-- What single moves keep is kept by any number of them. -/
theorem Moves.keeps {P : Node σ α → Prop} (each : ∀ {n m : Node σ α}, Move off n m → P n → P m)
    (moves : Moves off n m) (h : P n) : P m := by
  induction moves with
  | refl => exact h
  | tail _ move ih => exact each move ih

theorem moves_elsewhere (links : m.links = n.links) (nextLink : m.nextLink = n.nextLink)
    (settings : m.settings = n.settings) (agenda : m.agenda = n.agenda) : Moves off n m :=
  .single (.elsewhere links nextLink settings agenda)

omit [Host σ] in
theorem mem_putLink (there : l ∈ n.links) (same : l'.id = l.id) : l' ∈ (n.putLink l').links :=
  List.mem_map.mpr ⟨l, there, if_pos same.symm⟩

omit [Host σ] in
theorem mem_putLink_of_ne (there : l ∈ n.links) (other : l.id ≠ l'.id) :
    l ∈ (n.putLink l').links :=
  List.mem_map.mpr ⟨l, there, if_neg other⟩

/-! ## Notes and appointments -/

/-- An event waits as a task that runs once. -/
theorem moves_schedule (n : Node σ α) (e : Event) : Moves off n (n.schedule e) :=
  .single (.add n 0 (.times 1) rfl)

theorem moves_hastenAnnouncement (n : Node σ α) : Moves off n n.hastenAnnouncement := by
  simp only [hastenAnnouncement]
  split
  next task _ => exact .single (.force n task)
  next => exact .refl

/-- Making the next exchanges of some links due. -/
theorem moves_foldl_force (ls : List Link) (n : Node σ α) :
    Moves off n (n.plan fun a => ls.foldl (fun a l => (a.force l.tasks.exchange).2) a) := by
  induction ls generalizing n with
  | nil => exact .refl
  | cons l ls ih => exact .head (.force n l.tasks.exchange) (ih _)

theorem moves_hastenExchanges (n : Node σ α) (except : Option LinkId) :
    Moves off n (n.hastenExchanges except) :=
  moves_foldl_force _ n

theorem moves_setElection (n : Node σ α) (c : Candidacy) (e : Election) :
    Moves off n (n.setElection c e) := by
  simp only [setElection]
  refine .trans ?_ (moves_hastenAnnouncement _)
  split
  · exact moves_elsewhere rfl rfl rfl rfl
  · refine .trans ?_ (moves_schedule _ _)
    exact moves_elsewhere rfl rfl rfl rfl

theorem moves_hearAnnouncement (n : Node σ α) (a : Announcement) :
    Moves off n (n.hearAnnouncement a) := by
  simp only [hearAnnouncement]
  split
  · exact .refl
  · split
    · exact .refl
    · exact moves_setElection n _ _

theorem moves_losePeer (n : Node σ α) (peer : UInt32) : Moves off n (n.losePeer peer) := by
  simp only [losePeer]
  split
  · exact .refl
  · split
    · exact .refl
    · exact moves_setElection n _ _

theorem moves_joinElection (n : Node σ α) (own : UInt16) : Moves off n (n.joinElection own) := by
  simp only [joinElection]
  split
  · exact .refl
  · exact .tail (.single (.add n n.settings.announceInterval .forever rfl))
      (.elsewhere rfl rfl rfl rfl)

theorem moves_addTask (n : Node σ α) (interval : Nat) (runs : Runs) (a : α) :
    Moves off n (n.addTask interval runs a).2 :=
  .single (.add n interval runs rfl)

theorem moves_setClock (n : Node σ α) (id : LinkId) (offset : Int32) :
    Moves off n (n.setClock id offset) := by
  have adjusted : Moves off n (n.adjustTime offset) := moves_elsewhere rfl rfl rfl rfl
  simp only [setClock]
  refine .trans ?_ (moves_schedule _ _)
  split
  · exact adjusted
  next task found =>
    obtain ⟨l, there, clock⟩ := Option.bind_eq_some_iff.mp found
    split
    · exact .tail adjusted (.delay (mem_links_of_link? there) (.inr clock) _)
    · exact .tail adjusted (.force _ task)

/-! ## Closing -/

/-- A link that is closed goes together with its tasks. -/
theorem moves_close (n : Node σ α) (id : LinkId) : Moves off n (n.close id).2 := by
  simp only [close]
  split
  · exact .refl
  next l found =>
    refine .trans ?_ ((moves_schedule _ _).trans (moves_losePeer _ _))
    have dropped : Moves off n (n.dropLink l) := .single (.drop (mem_links_of_link? found))
    split
    · exact dropped
    · exact (dropped.trans (moves_hastenExchanges _ _)).trans (moves_schedule _ _)

/-! ## Sending -/

/-- A frame that is queued goes to its link, and the send task of the link is enabled. -/
theorem moves_queueFrame (n : Node σ α) (id : LinkId) (frame : Bytes) (priority : Bool) :
    Moves off n (n.queueFrame id frame priority).2 := by
  simp only [queueFrame]
  split
  · exact .refl
  next l found =>
    split
    · exact .refl
    next l' taken =>
      obtain ⟨express, regular, -, rfl⟩ := Link.feeds_of_enqueue taken
      exact .single (.queue (mem_links_of_link? found) _)

/-- What queues frames only makes moves. -/
theorem Moves.queueFrame (m : Node σ α) (id : LinkId) (frame : Bytes) (priority : Bool)
    (h : Moves off n m) : Moves off n (m.queueFrame id frame priority).2 :=
  h.trans (moves_queueFrame m id frame priority)

theorem moves_sendTo (n : Node σ α) (id : LinkId) (p : Packet) (priority : Bool) :
    Moves off n (n.sendTo id p priority).2 :=
  sendTo_keeps Moves.queueFrame id p priority .refl

theorem moves_forwardFrame (n : Node σ α) (ids : List LinkId) (body : Bytes) :
    Moves off n (n.forwardFrame ids body) :=
  forwardFrame_keeps Moves.queueFrame ids body .refl

theorem moves_sendToAll (n : Node σ α) (p : Packet) (except : Option LinkId) (priority : Bool) :
    Moves off n (n.sendToAll p except priority).2 :=
  sendToAll_keeps Moves.queueFrame p except priority .refl

theorem moves_sendPacket (n : Node σ α) (p : Packet) (priority : Bool) :
    Moves off n (n.sendPacket p priority).2 :=
  sendPacket_keeps Moves.queueFrame p priority .refl

theorem moves_send (n : Node σ α) (s : Sending) : Moves off n (n.send s) := by
  cases s with
  | through id packet priority => exact moves_sendTo n id packet priority
  | packet packet priority => exact moves_sendPacket n packet priority
  | toAll packet except priority => exact moves_sendToAll n packet except priority
  | single dest text => exact moves_sendPacket n _ false
  | measureDelay dest => exact moves_sendPacket n _ false
  | broadcast text includeSelf =>
      have sent : Moves off n _ := moves_sendToAll n (.broadcast n.id text) none false
      simp only [send, sendBroadcast]
      split
      · exact sent.trans (moves_schedule _ _)
      · exact sent

/-- To send is to move. -/
theorem Sent.moves (sent : Sent n m) : Moves off n m := by
  induction sent with
  | nothing => exact .refl
  | send _ s ih => exact ih.trans (moves_send _ s)
  | host _ s ih => exact .tail ih (.elsewhere rfl rfl rfl rfl)

theorem moves_announce (n : Node σ α) : Moves off n n.announce :=
  announce_keeps Moves.queueFrame .refl

theorem moves_startClockSync (n : Node σ α) (id : LinkId) : Moves off n (n.startClockSync id) :=
  startClockSync_keeps Moves.queueFrame id .refl

/-! ## Hearing -/

theorem moves_hearTimeSync (n : Node σ α) (id : LinkId) (sender : UInt32) (x : TimeExchange)
    (arrival : UInt32) : Moves off n (n.hearTimeSync id sender x arrival) := by
  simp only [hearTimeSync]
  split
  · exact moves_sendTo n id _ true
  · exact moves_sendTo n id _ true
  · exact moves_setClock n id _
  · exact .refl

theorem moves_hearTimeDelay (n : Node σ α) (sender : UInt32) (x : TimeExchange)
    (arrival : UInt32) : Moves off n (n.hearTimeDelay sender x arrival) := by
  simp only [hearTimeDelay]
  split
  · exact moves_sendPacket n _ false
  · exact moves_schedule n _
  · exact .refl
  · exact .refl

theorem moves_identifyPeer (n : Node σ α) (id : LinkId) (peer : UInt32) :
    Moves off n (n.identifyPeer id peer) := by
  simp only [identifyPeer]
  split
  · exact .refl
  next l found =>
    have noted := l.identify_noted peer
    split
    next l' known =>
      rw [known] at noted
      exact .head (.put (mem_links_of_link? found) noted) (moves_schedule _ _)
    next => exact .refl

/-- Before a neighbour is asked for its tree, a deadline is set for the answer. -/
theorem moves_ask (there : l ∈ n.links) {delay : Nat} :
    Moves off n ((n.putLink l.asked).plan fun a =>
      (a.restartDelayed l.asked.tasks.timeout delay).2) :=
  .tail (.single (.put there l.asked_noted)) (.await (mem_putLink there l.asked_noted.id) delay)

theorem moves_exchange (n : Node σ α) (id : LinkId) : Moves off n (n.exchange id) := by
  simp only [exchange]
  split
  · exact .refl
  next l found =>
    have there := mem_links_of_link? found
    refine .trans ?_ (moves_sendTo _ id _ true)
    exact moves_ask there

/-- Once a tree is on its link, to store one that brings nothing new puts the next exchange off. -/
theorem moves_store (n : Node σ α) (l : Link) (sender : UInt32) {tree : Tree}
    (there : { l with subtree := tree } ∈ (n.putLink { l with subtree := tree }).links)
    (slow : l.subtree = tree → off l.id) :
    Moves off (n.putLink { l with subtree := tree }) (n.store l sender tree) := by
  simp only [store, Link.learn]
  split
  · exact (moves_hastenExchanges _ _).trans (moves_schedule _ _)
  next same =>
    have same : l.subtree = tree := by
      by_contra new
      simp [Change.between, new] at same
    exact .tail (.single (.delay there (.inl ⟨slow same, rfl⟩) _)) (.elsewhere rfl rfl rfl rfl)

/-- To accept a tree is to store it once the link and its neighbour are settled. -/
theorem acceptTree_eq_store (found : n.link? id = some l) (sender : UInt32) (tree : Tree) :
    ∃ (n₁ : Node σ α) (k : Link), n.acceptTree l sender tree = n₁.store k sender tree ∧
      k.id = l.id ∧ k.subtree = l.subtree ∧
      { k with subtree := tree } ∈ (n₁.putLink { k with subtree := tree }).links ∧
      ∀ off, Moves off n (n₁.putLink { k with subtree := tree }) := by
  have there := mem_links_of_link? found
  simp only [acceptTree]
  by_cases synced : l.phase = .synced
  · rw [if_neg (not_not_intro synced)]
    refine ⟨n, l, rfl, rfl, rfl, mem_putLink there rfl, fun off => .single (.put there ?_)⟩
    exact ⟨rfl, rfl, rfl, List.suffix_rfl, fun closing => closing, fun timed => timed⟩
  · rw [if_pos synced]
    simp only [settle]
    have noted := l.identify_noted sender
    have same : (l.identify sender).2.station = l.station ∧
        (l.identify sender).2.subtree = l.subtree := by
      simp only [Link.identify]
      split <;> exact ⟨rfl, rfl⟩
    generalize l.identify sender = r at noted same ⊢
    obtain ⟨news, k⟩ := r
    simp only at noted same ⊢
    -- The neighbour is told first, which touches neither the link nor its tasks.
    have told : ∃ n₁ : Node σ α, (∀ off, Moves off n n₁) ∧ n₁.links = n.links ∧
        (if news = true then n.schedule (.connected sender) else n) = n₁ := by
      split
      · exact ⟨_, fun _ => moves_schedule n _, rfl, rfl⟩
      · exact ⟨_, fun _ => .refl, rfl, rfl⟩
    obtain ⟨n₁, told, links, eq⟩ := told
    rw [eq]
    have there₁ : l ∈ n₁.links := links ▸ there
    cases clock : l.tasks.timeSync with
    | some task =>
        have clocked : n₁.addClockTask { k with phase := .synced } =
            ({ k with phase := .synced }, n₁) := by
          simp only [addClockTask, noted.tasks, clock]
        rw [clocked]
        refine ⟨n₁, { k with phase := .synced }, rfl, noted.id, same.2,
          mem_putLink there₁ noted.id, fun off => (told off).tail (.put there₁ ?_)⟩
        refine ⟨noted.id, noted.tasks, noted.outbox, noted.inbox,
          (by simp), fun _ => ?_⟩
        simp [Link.Timed, noted.tasks, clock]
    | none =>
        have clocked : n₁.addClockTask { k with phase := .synced } =
            ({ k with phase := .synced,
                      tasks := { l.tasks with timeSync := some ⟨n₁.agenda.nextId⟩ } },
              (n₁.addClockTask l).2) := by
          simp only [addClockTask, noted.tasks, noted.id, same.1, clock]
          rfl
        have links₂ : (n₁.addClockTask l).2.links = n₁.links := by
          simp only [addClockTask, clock]
        rw [clocked]
        refine ⟨(n₁.addClockTask l).2, _, rfl, noted.id, same.2,
          mem_putLink (links₂ ▸ there₁) noted.id,
          fun off => (told off).tail (.settle there₁ clock ?_)⟩
        exact ⟨noted.id, rfl, noted.outbox, noted.inbox, rfl⟩

/-- Accepting a tree that brings nothing new puts the next exchange off. -/
theorem moves_acceptTree (found : n.link? id = some l) (sender : UInt32) {tree : Tree}
    (slow : l.subtree = tree → off l.id) : Moves off n (n.acceptTree l sender tree) := by
  obtain ⟨n₁, k, stores, same, subtree, there, moves⟩ := acceptTree_eq_store found sender tree
  rw [stores]
  exact (moves off).trans
    (moves_store n₁ k sender there fun known => same ▸ slow (subtree ▸ known))

omit [Host σ] in
/-- Of the links, storing a tree changes only the one that it came from. -/
theorem links_store (n : Node σ α) (l : Link) (sender : UInt32) (tree : Tree) :
    (n.store l sender tree).links = (n.putLink { l with subtree := tree }).links := by
  simp only [store, Link.learn]
  split <;> rfl

omit [Host σ] in
/-- A link on which a tree was accepted is given up by the same task as before. -/
theorem timeout_acceptTree (there : l ∈ n.links) (sender : UInt32) (tree : Tree) :
    ∃ k ∈ (n.acceptTree l sender tree).links, k.tasks.timeout = l.tasks.timeout := by
  have settled : (n.settle l sender).2.links = n.links ∧ (n.settle l sender).1.id = l.id ∧
      (n.settle l sender).1.tasks.timeout = l.tasks.timeout := by
    have noted := l.identify_noted sender
    have timeout := congrArg LinkTasks.timeout noted.tasks
    simp only [settle, addClockTask]
    split
    · exact ⟨by split <;> rfl, noted.id, timeout⟩
    · exact ⟨by dsimp only; split <;> rfl, noted.id, timeout⟩
  simp only [acceptTree]
  split
  · rw [links_store]
    exact ⟨{ (n.settle l sender).1 with subtree := tree },
      mem_putLink (settled.1.symm ▸ there) settled.2.1, settled.2.2⟩
  · rw [links_store]
    exact ⟨{ l with subtree := tree }, mem_putLink there rfl, rfl⟩

/-- A tree that was accepted is answered, or it is the answer. -/
theorem moves_answer (found : n.link? id = some l) (sender : UInt32) {tree : Tree} (wanted : Bool)
    (admitted : n.checkAnnounced l sender tree = .ok ()) :
    Moves off (n.acceptTree l sender tree) (n.hearTree id sender tree wanted) := by
  simp only [hearTree, found, admitted]
  split
  · exact moves_sendTo _ id _ true
  · obtain ⟨k, there, timeout⟩ := timeout_acceptTree (mem_links_of_link? found) sender tree
    exact .single (timeout ▸ .answered there)

/-- Hearing a tree that brings nothing new puts the next exchange off. -/
theorem moves_hearTree (n : Node σ α) (id : LinkId) (sender : UInt32) {tree : Tree} (wanted : Bool)
    (slow : ∀ l, n.link? id = some l → n.checkAnnounced l sender tree = .ok () →
      l.subtree = tree → off id) :
    Moves off n (n.hearTree id sender tree wanted) := by
  cases found : n.link? id with
  | none =>
      simp only [hearTree, found]
      exact .refl
  | some l =>
      cases admitted : n.checkAnnounced l sender tree with
      | error e =>
          simp only [hearTree, found, admitted]
          exact moves_close n id
      | ok u =>
          refine .trans ?_ (moves_answer found sender wanted admitted)
          exact moves_acceptTree found sender fun known =>
            id_of_link? found ▸ slow l found admitted known

/-- Taking the next frame of a link out of its inbox only notes something down. -/
theorem move_takeFrame {frame : Bytes × UInt32}
    (next : (n.link? id).bind Link.nextFrame = some (frame, l)) : Move off n (n.putLink l) := by
  obtain ⟨k, rest, found, waiting, rfl⟩ := inbox_of_next next
  have left : rest <:+ k.inbox := by
    rw [waiting]
    exact List.suffix_cons _ _
  exact .put (mem_links_of_link? found)
    ⟨rfl, rfl, rfl, left, fun closing => closing, fun timed => timed⟩

end Node

/-! ## What moves keep -/

/-- Every move keeps a property of a node, and so does everything that a program does. -/
structure Application.Program.Keeps {σ α : Type} [Host σ] (p : Program σ α)
    (P : Node σ α → Prop) : Prop where
  move : ∀ {n m}, Node.Move (fun _ => True) n m → P n → P m
  task : ∀ a n, P n → P (p.task a n)
  handle : ∀ a packet id arrival n, P n → P (p.handle a packet id arrival n).1
  listen : ∀ a e n, P n → P (p.listen a e n)

namespace Application.Program

variable {σ α : Type} [Host σ] {p : Program σ α} {P : Node σ α → Prop} {n : Node σ α}

/-- An application that only sends keeps whatever moves keep. -/
theorem OnlySends.keeps (only : p.OnlySends)
    (move : ∀ {n m}, Node.Move (fun _ => True) n m → P n → P m) : p.Keeps P where
  move := move
  task := fun a n => (only.task a n).moves.keeps move
  handle := fun a packet id arrival n => (only.handle a packet id arrival n).moves.keeps move
  listen := fun a e n => (only.listen a e n).moves.keeps move

namespace Keeps

theorem moves (keeps : p.Keeps P) {m : Node σ α} (moves : Node.Moves (fun _ => True) n m)
    (h : P n) : P m :=
  moves.keeps keeps.move h

theorem tell (keeps : p.Keeps P) (e : Event) (h : P n) : P (n.tell p e) :=
  HandlerTable.dispatch_keeps (fun _ _ => keeps.move (.elsewhere rfl rfl rfl rfl))
    (fun a _ m => keeps.listen a e m) h

theorem handleOwn (keeps : p.Keeps P) (packet : Packet) (id : LinkId) (arrival : UInt32)
    (h : P n) : P (n.handleOwn p packet id arrival) := by
  simp only [Node.handleOwn]
  split
  · exact keeps.moves (Node.moves_hearTree n id _ true fun _ _ _ _ => trivial) h
  · exact keeps.moves (Node.moves_hearTree n id _ false fun _ _ _ _ => trivial) h
  · exact keeps.moves (Node.moves_hearTimeSync n id _ _ arrival) h
  · exact keeps.moves (Node.moves_hearTimeDelay n _ _ arrival) h
  · exact keeps.tell _ h
  · exact keeps.tell _ h
  · exact keeps.moves ((Node.moves_identifyPeer n id _).trans (Node.moves_hearAnnouncement _ _)) h
  · exact h

/-- What every move keeps is kept by reading. -/
theorem reading (keeps : p.Keeps P) (id : LinkId) : p.KeepsReading id (fun _ => True) P where
  aside h other := keeps.move (.elsewhere other.links other.nextLink other.settings other.agenda) h
  take next h := ⟨trivial, keeps.move (Node.move_takeFrame next) h⟩
  forward n ids body h := keeps.moves (Node.moves_forwardFrame n ids body) h
  own _ _ packet arrival _ _ h := keeps.handleOwn packet id arrival h
  handle a packet arrival n h := keeps.handle a packet id arrival n h

/-- All actions but those of the tasks that read and send are kept to as well. -/
theorem perform (keeps : p.Keeps P) (a : Action α)
    (read : ∀ id, a = .read id → P n → P (n.read p id))
    (send : ∀ id, a = .send id → P n → P (n.flush id)) (h : P n) : P (n.perform p a) := by
  cases a with
  | exchange id => exact keeps.moves (Node.moves_exchange n id) h
  | timeout id => exact keeps.moves (Node.moves_close n id) h
  | read id => exact read id rfl h
  | send id => exact send id rfl h
  | setClock id => exact keeps.moves (Node.moves_startClockSync n id) h
  | announce => exact keeps.moves (Node.moves_announce n) h
  | tell e => exact keeps.tell e h
  | application a => exact keeps.task a n h

end Keeps

end Application.Program

end SpanningMesh
