import SpanningMesh.Proofs.Election.Turns

/-!
# The authority of a node

A node that is not the root never holds less than what it would have on its own: it holds its own id
under its own node id, as when it joined the election, or an id that is backed by more than its node
id (`Node.Authorised`).  This takes both rules by which a node leaves an id.  It follows its source
down only as long as the source still has more to offer, and it returns to its own id otherwise.

Whatever happens to a node comes down to `Node.Turn`s, and what is beside joining, hearing and
closing is nothing to the election.  A turn is `Accounted` for if the generation goes on and a new id
comes to be told exactly if the id changed.
-/

namespace SpanningMesh

open Application (Program)

namespace Election

variable {e e' : Election} {node : UInt32} {own : UInt16} {a : Announcement}

/-- What a node that is not the root may hold: exactly what it started with, or what has more weight
than its node id. -/
def Rightful (node : UInt32) (e : Election) : Prop :=
  e = start node false e.ownId ∨ node < e.weight

/-- What a node returns to is what it started with. -/
theorem rightful_revert (weight : e.ownWeight = node) : (e.revert node).Rightful node :=
  .inl (by simp [start, revert, weight])

/-- Whatever is announced, a node holds its own standing or a heavier one. -/
theorem Rightful.response (h : e.Rightful node) (weight : e.ownWeight = node)
    (response : e.Response node a e') : e'.Rightful node := by
  cases response with
  | same | ignore => exact h
  | follow _ _ more => exact .inr more
  | fall => exact rightful_revert weight
  | rise _ more =>
      have least : node ≤ e.weight := by
        rcases h with start | above
        · rw [start]
          exact UInt32.le_refl node
        · exact UInt32.le_of_lt above
      exact .inr (UInt32.lt_of_le_of_lt least more)

end Election

namespace Node

variable {σ α : Type} {n m k : Node σ α} {id : LinkId} {c : Candidacy} {e : Election}

/-! ## Authority -/

/-- A node that is not the root, and holds no less than it would have on its own. -/
structure Authorised (n : Node σ α) : Prop where
  regular : n.root = false
  weight : ∀ b, n.ballot = some b → b.1.ownWeight = n.id
  rightful : ∀ b, n.ballot = some b → b.1.Rightful n.id

theorem Authorised.of_new (regular : n.root = false) (new : n.candidacy = none) : Authorised n := by
  refine ⟨regular, fun b there => ?_, fun b there => ?_⟩
  all_goals simp [ballot, new] at there

/-- Authority is a matter of the ballot alone. -/
theorem Authorised.uninvolved (h : Authorised n) (uninvolved : Uninvolved n m) : Authorised m := by
  refine ⟨uninvolved.root.trans h.regular, fun b there => ?_, fun b there => ?_⟩
  · rw [uninvolved.id]
    exact h.weight b (uninvolved.ballot ▸ there)
  · rw [uninvolved.id]
    exact h.rightful b (uninvolved.ballot ▸ there)

theorem Authorised.setElection (h : Authorised n) (c : Candidacy) (weight : e.ownWeight = n.id)
    (rightful : e.Rightful n.id) : Authorised (n.setElection c e) := by
  have same : (n.setElection c e).id = n.id ∧ (n.setElection c e).root = n.root := by
    have fed := feeds_setElection (P := fun _ _ => True) n c e
    exact ⟨fed.id, fed.root⟩
  refine ⟨same.2.trans h.regular, fun b there => ?_, fun b there => ?_⟩
  all_goals
    rw [ballot_setElection] at there
    rw [same.1]
    cases there
  · exact weight
  · exact rightful

/-- A node follows only those that are heavier than itself. -/
theorem Authorised.hearAnnouncement (h : Authorised n) (a : Announcement) :
    Authorised (n.hearAnnouncement a) := by
  simp only [Node.hearAnnouncement]
  split
  · exact h
  next c takes =>
    have there : n.ballot = some (c.election, c.generation) := by simp [ballot, takes]
    split
    · exact h
    next outcome e _ result =>
      have response := c.election.response_apply n.id a
      have own : (c.election.apply n.id a).2.own = c.election.own := Election.own_apply
      rw [result] at response own
      have weight := (congrArg Standing.weight own).trans (h.weight _ there)
      exact h.setElection c weight
        ((h.rightful _ there).response (h.weight _ there) response)

/-- A node that loses its source goes back to its own standing. -/
theorem Authorised.losePeer (h : Authorised n) (peer : UInt32) : Authorised (n.losePeer peer) := by
  simp only [Node.losePeer]
  split
  · exact h
  next c takes =>
    have there : n.ballot = some (c.election, c.generation) := by simp [ballot, takes]
    split
    · exact h
    · exact h.setElection c (h.weight _ there) (Election.rightful_revert (h.weight _ there))

theorem Authorised.joinElection (h : Authorised n) (own : UInt16) :
    Authorised (n.joinElection own) := by
  simp only [Node.joinElection]
  split
  · exact h
  · refine ⟨h.regular, fun b there => ?_, fun b there => ?_⟩
    all_goals
      simp only [ballot, h.regular, Option.map_some, Option.some.injEq] at there
      subst there
    · rfl
    · exact .inl rfl

/-! ## Accounts -/

/-- If a node takes part in the election, its own id stays.  The generation goes on and an id comes to
be told, the one it holds then, exactly if that is another than before. -/
def Accounted (n m : Node σ α) : Prop :=
  ∀ b, n.ballot = some b → ∃ b', m.ballot = some b' ∧ b'.1.ownId = b.1.ownId ∧
    if b'.1.currentId = b.1.currentId then b'.2 = b.2 ∧ n.agenda.Hushed m.agenda
    else b'.2 = b.2.next ∧ ∃ waiting task, waiting.Sublist n.agenda.idNews ∧
      n.agenda.nextId ≤ task.number ∧ m.agenda.idNews = waiting ++ [(task, b'.1.currentId)]

/-- Where no ballot changes there is nothing to account for. -/
theorem Uninvolved.accounted (uninvolved : Uninvolved n m) : Accounted n m := by
  intro b there
  refine ⟨b, uninvolved.ballot.trans there, rfl, ?_⟩
  rw [if_pos rfl]
  exact ⟨rfl, uninvolved.hushed⟩

/-- What happens before without regard to the election does not count. -/
theorem Accounted.after (uninvolved : Uninvolved n m) (h : Accounted m k) : Accounted n k := by
  intro b there
  obtain ⟨b', held, own, account⟩ := h b (uninvolved.ballot.trans there)
  refine ⟨b', held, own, ?_⟩
  split
  next same =>
    rw [if_pos same] at account
    exact ⟨account.1, uninvolved.hushed.trans account.2⟩
  next other =>
    rw [if_neg other] at account
    obtain ⟨goesOn, waiting, task, waited, new, told⟩ := account
    exact ⟨goesOn, waiting, task, waited.trans uninvolved.hushed.idNews,
      Nat.le_trans uninvolved.hushed.next new, told⟩

/-- A new id goes with a new generation and an event. -/
theorem accounted_setElection (takes : n.candidacy = some c) (own : e.ownId = c.election.ownId) :
    Accounted n (n.setElection c e) := by
  intro b there
  obtain rfl : (c.election, c.generation) = b := by simpa [ballot, takes] using there
  refine ⟨_, ballot_setElection n c e, own, ?_⟩
  simp only [setElection]
  split
  next same =>
    have quiet := incidental_hastenAnnouncement { n with candidacy := some { c with election := e } }
    exact ⟨rfl, quiet.hushed⟩
  next other =>
    refine ⟨rfl, n.agenda.idNews, ⟨n.agenda.nextId⟩, .refl _, Nat.le_refl _, ?_⟩
    rw [idNews_hastenAnnouncement]
    exact n.agenda.idNews_addOnce e.currentId

theorem accounted_hearAnnouncement (n : Node σ α) (a : Announcement) :
    Accounted n (n.hearAnnouncement a) := by
  simp only [hearAnnouncement]
  split
  · exact (Uninvolved.refl n).accounted
  next c takes =>
    split
    · exact (Uninvolved.refl n).accounted
    next outcome e _ result =>
      have own : (c.election.apply n.id a).2.own = c.election.own := Election.own_apply
      rw [result] at own
      exact accounted_setElection takes (congrArg Standing.id own)

theorem accounted_losePeer (n : Node σ α) (peer : UInt32) : Accounted n (n.losePeer peer) := by
  simp only [losePeer]
  split
  · exact (Uninvolved.refl n).accounted
  next c takes =>
    split
    · exact (Uninvolved.refl n).accounted
    · exact accounted_setElection takes rfl

/-! ## What a turn does -/

variable [Host σ]

/-- No turn leaves a node with less than its own authority. -/
theorem Authorised.turn (h : Authorised n) (turn : Turn Uninvolved n m) : Authorised m := by
  cases turn with
  | beside uninvolved => exact h.uninvolved uninvolved
  | join own => exact h.joinElection own
  | hear a => exact h.hearAnnouncement a
  | drop id =>
      rcases close_cases n id with ⟨-, same⟩ | ⟨l, k, -, incidental, closes⟩
      · rw [same]
        exact h
      · rw [closes]
        exact (h.uninvolved incidental.toUninvolved).losePeer l.remote

/-- Every turn is accounted for. -/
theorem Turn.accounted (turn : Turn Uninvolved n m) : Accounted n m := by
  cases turn with
  | beside uninvolved => exact uninvolved.accounted
  | join own new =>
      intro b there
      simp [ballot, new] at there
  | hear a => exact accounted_hearAnnouncement n a
  | drop id =>
      rcases close_cases n id with ⟨-, same⟩ | ⟨l, k, -, incidental, closes⟩
      · rw [same]
        exact (Uninvolved.refl n).accounted
      · rw [closes]
        exact .after incidental.toUninvolved (accounted_losePeer k l.remote)

/-! ## Passes -/

theorem Turns.aside (turns : Turns Uninvolved n m) (uninvolved : Uninvolved m k) :
    Turns Uninvolved n k :=
  .tail turns (.beside uninvolved)

theorem Turns.tell {p : Program σ α} (respects : p.Respects (Turns Uninvolved n))
    (h : Turns Uninvolved n m) (e : Event) : Turns Uninvolved n (m.tell p e) :=
  respects.tell (fun _ _ h => h.aside (.of_agenda_eq rfl rfl rfl rfl)) e h

theorem Turns.handleOwn {p : Program σ α} (respects : p.Respects (Turns Uninvolved n))
    (h : Turns Uninvolved n m) (packet : Packet) (id : LinkId) (arrival : UInt32) :
    Turns Uninvolved n (m.handleOwn p packet id arrival) := by
  cases tells : packet.payload.event? with
  | none => exact h.trans (turns_handleOwn tells p id arrival m).uninvolved
  | some e =>
      rw [handleOwn_of_event tells]
      exact h.tell respects e

theorem keepsReading_turns {p : Program σ α} (respects : p.Respects (Turns Uninvolved n))
    (id : LinkId) : p.KeepsReading id (fun _ => True) (Turns Uninvolved n) where
  aside h other := h.aside (.aside other)
  take _ h := ⟨trivial, h.aside (incidental_putLink _ _).toUninvolved⟩
  forward m ids body h := h.aside (incidental_forwardFrame m ids body).toUninvolved
  own _ _ packet arrival _ _ h := h.handleOwn respects packet id arrival
  handle a packet arrival m h := respects.handle a packet id arrival m h

theorem Turns.perform {p : Program σ α} (respects : p.Respects (Turns Uninvolved n))
    (h : Turns Uninvolved n m) (a : Action α) : Turns Uninvolved n (m.perform p a) := by
  cases a with
  | read id =>
      exact (keepsReading_turns respects id).read
        (fun k h => h.aside (incidental_restReading k id).toUninvolved) h
  | tell e => exact h.tell respects e
  | application a => exact respects.task a m h
  | exchange | timeout | send | setClock | announce =>
      exact h.trans (turns_perform (by simp) rfl (by simp) p m).uninvolved

theorem Turns.execute {p : Program σ α} (respects : p.Respects (Turns Uninvolved n))
    (h : Turns Uninvolved n m) (now : Nat) : Turns Uninvolved n (m.execute p now).2 :=
  execute_keeps (fun _ _ h => h.aside ⟨rfl, rfl, rfl, Nat.le_refl _, .refl _⟩)
    (fun k id now h => h.aside ⟨rfl, rfl, rfl, k.agenda.hushed_begin id now⟩)
    (fun k id h => h.aside ⟨rfl, rfl, rfl, k.agenda.hushed_finish id⟩)
    (fun a _ h => h.perform respects a) h now

end Node

/-- A program that does to its node what may be asked of it, and otherwise nothing to the election. -/
def Application.Program.LeavesElection {σ α : Type} [Host σ] (p : Program σ α) : Prop :=
  p.Calls Node.Uninvolved (fun _ _ => True) (fun _ => True)

namespace Node

variable {σ α : Type} [Host σ] {p : Program σ α} {n m : Node σ α}

theorem Turns.respects (leaves : p.LeavesElection) : p.Respects (Turns Uninvolved n) :=
  leaves.respects fun called h => called.keeps (fun other h => h.aside other)
    (fun m _ rests _ h => h.trans (turns_input m rests _).uninvolved)
    (fun _ _ now _ respects h => h.execute respects now) h

/-! ## Histories -/

theorem turns_obey (leaves : p.LeavesElection) (n : Node σ α) (i : Input α) :
    Turns Uninvolved n (n.obey p i) := by
  cases i with
  | execute now => exact Turns.execute (Turns.respects leaves) .refl now
  | addLink | arrive | disconnect | close | send | stop | onPacket | onEvent | addTask
    | joinElection => exact (turns_input n (by simp) p).uninvolved

/-- A history is made of turns. -/
theorem turns_live (leaves : p.LeavesElection) (n : Node σ α) (events : List (σ × Input α)) :
    Turns Uninvolved n (n.live p events) := by
  induction events generalizing n with
  | nil => exact .refl
  | cons e events ih =>
      have hosted : Turns Uninvolved n { n with host := e.1 } :=
        Turns.aside .refl (.of_agenda_eq rfl rfl rfl rfl)
      exact hosted.trans ((turns_obey leaves _ e.2).trans (ih _))

/-- A turn of a node with no less than its own authority, which is accounted for and leaves the node
with no less. -/
structure Step (n m : Node σ α) : Prop where
  turn : Turn Uninvolved n m
  accounted : Accounted n m
  before : Authorised n
  after : Authorised m

/-- Turns are steps of the ballot, and authority is kept meanwhile. -/
theorem Authorised.steps (h : Authorised n) (turns : Turns Uninvolved n m) :
    Relation.ReflTransGen Step n m ∧ Authorised m := by
  induction turns with
  | refl => exact ⟨.refl, h⟩
  | tail _ turn ih =>
      have after := ih.2.turn turn
      exact ⟨.tail ih.1 ⟨turn, turn.accounted, ih.2, after⟩, after⟩

/-- The own id of a node in the election stays. -/
theorem ownId_of_steps (steps : Relation.ReflTransGen Step n m) {b : Election × SequenceId}
    (there : n.ballot = some b) : ∃ b', m.ballot = some b' ∧ b'.1.ownId = b.1.ownId := by
  induction steps with
  | refl => exact ⟨b, there, rfl⟩
  | tail _ step ih =>
      obtain ⟨b', held, own⟩ := ih
      obtain ⟨b'', now, same, -⟩ := step.accounted b' held
      exact ⟨b'', now, same.trans own⟩

/-- In every history of a node that is not the root, whatever announcements come in and whatever links
go down, the node holds exactly what it started with or what has more weight than its node id, and its
own id stays.  The history is made of turns, and in each of them the generation goes on and the new id
comes to be told exactly if the id changes. -/
theorem regular_keeps_authority (leaves : p.LeavesElection) (regular : n.root = false)
    (new : n.candidacy = none) (past rest : List (σ × Input α)) :
    Authorised (n.live p past) ∧
      Relation.ReflTransGen Step (n.live p past) (n.live p (past ++ rest)) ∧
      ∀ b, (n.live p past).ballot = some b →
        ∃ b', (n.live p (past ++ rest)).ballot = some b' ∧ b'.1.ownId = b.1.ownId := by
  have now := ((Authorised.of_new regular new).steps (turns_live leaves n past)).2
  have later := (now.steps (turns_live leaves _ rest)).1
  rw [← live_append] at later
  exact ⟨now, later, fun b there => ownId_of_steps later there⟩

/-- A neighbour that is backed by more announces its id, and then its link goes down. -/
def patronage : List (Outlets Unit × Input Unit) :=
  ([.joinElection 7, .addLink true,
    .arrive ⟨1⟩ [18, 0, 0, 0, 1, 0, 0, 0, 0, 0, 0, 0, 5, 0, 2, 0, 0, 0, 9, 0, 0, 0],
    .execute 0, .disconnect ⟨1⟩] : List (Input Unit)).map fun i => ({ application := () }, i)

/-- The node takes the id over and returns to its own, by two turns that count. -/
theorem regular_keeps_authority_patronage :
    restless.LeavesElection ∧ newcomer.root = false ∧ newcomer.candidacy = none ∧
      (newcomer.live restless (patronage.take 4)).ballot = some (⟨7, 5, 2, 9, 1⟩, ⟨1⟩) ∧
      (newcomer.live restless patronage).ballot = some (⟨7, 7, 1, 1, 1⟩, ⟨2⟩) ∧
      (newcomer.live restless patronage).agenda.idNews.map Prod.snd = [5, 7] ∧
      Authorised (newcomer.live restless (patronage.take 4)) ∧
      Relation.ReflTransGen Step (newcomer.live restless (patronage.take 4))
        (newcomer.live restless patronage) := by
  have leaves : restless.LeavesElection := by
    refine ⟨trivial, fun _ n => .input n (i := .addLink true) (by simp) trivial,
      fun _ _ _ _ n => .aside (.refl n), fun _ e n => ?_⟩
    cases e with
    | opened id => exact .input n (i := .close id) (by simp) trivial
    | connected | dropped | changed | adjusted | measured | meshId | received =>
        exact .aside (.refl n)
  have split : patronage.take 4 ++ patronage.drop 4 = patronage := List.take_append_drop ..
  have kept := regular_keeps_authority leaves (n := newcomer) rfl rfl (patronage.take 4)
    (patronage.drop 4)
  rw [split] at kept
  exact ⟨leaves, rfl, rfl, by decide +kernel, by decide +kernel, by decide +kernel, kept.1, kept.2.1⟩

end Node

end SpanningMesh
