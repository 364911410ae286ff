import SpanningMesh.Proofs.Election.Poll
import SpanningMesh.Proofs.Node.Churn
import SpanningMesh.Proofs.Node.News

/-!
# What leaves the election alone

The *ballot* of a node is what it holds in the election and the generation of its mesh id.  When the
id changes, the node puts an event on its agenda that tells of the new one.  `Agenda.idNews` lists
the ids that are yet to be told.

What happens to a node is nothing to the election if the ballot stays as it is and no id comes to be
told (`Node.Uninvolved`).  Most of what a node does is `Incidental`: it is nothing to the election,
and it does not count the frames that come in either.  Each operation has one lemma for that.  The
only ones without are those that route a frame and those by which a node joins the election, hears an
announcement or loses a neighbour.
-/

namespace SpanningMesh

open Application (Program)

/-- The mesh id that an event tells of. -/
def Event.meshId? : Event → Option UInt16
  | meshId i => some i
  | connected _ | dropped .. | changed _ | opened _ | adjusted _ | measured .. | received .. => none

/-! ## Ids that are yet to be told -/

namespace Agenda

variable {α : Type} {a b c : Agenda (Action α)}

/-- The mesh ids that are yet to be told, oldest first, each with the handle of its task. -/
def idNews (a : Agenda (Action α)) : List (TaskId × UInt16) :=
  a.news.filterMap fun x => x.2.meshId?.map (x.1, ·)

/-- An agenda became another, and no mesh id came to be told. -/
structure Hushed (a b : Agenda (Action α)) : Prop where
  next : a.nextId ≤ b.nextId
  idNews : b.idNews.Sublist a.idNews

theorem Hushed.refl (a : Agenda (Action α)) : Hushed a a := ⟨Nat.le_refl _, .refl _⟩

theorem Hushed.trans (first : Hushed a b) (next : Hushed b c) : Hushed a c :=
  ⟨Nat.le_trans first.next next.next, next.idNews.trans first.idNews⟩

theorem Hushed.of_news_eq (next : b.nextId = a.nextId) (news : b.news = a.news) : Hushed a b :=
  ⟨Nat.le_of_eq next.symm, by rw [Agenda.idNews, news]; exact .refl _⟩

theorem hushed_update (a : Agenda (Action α)) (i : TaskId) {f : Task (Action α) → Task (Action α)}
    (kept : ∀ t, (f t).action = t.action) : Hushed a (a.update i f) :=
  .of_news_eq rfl (news_update a i kept)

theorem hushed_erase (a : Agenda (Action α)) (i : TaskId) : Hushed a (a.erase i) := by
  refine ⟨Nat.le_refl _, ?_⟩
  rw [idNews, news_erase]
  exact List.filter_sublist.filterMap _

/-- A new task is hushed unless it tells of a new mesh id. -/
theorem hushed_insert (a : Agenda (Action α)) (interval : Nat) (runs : Runs) (persistent : Bool)
    (action : Action α) (silent : action.event?.bind Event.meshId? = none) :
    Hushed a (a.insert interval runs persistent action).2 := by
  refine ⟨Nat.le_succ _, ?_⟩
  have same : (a.insert interval runs persistent action).2.idNews = a.idNews := by
    cases tells : action.event? with
    | none => simp [idNews, news, insert, tells]
    | some e =>
        rw [tells] at silent
        simp only [Option.bind_some] at silent
        simp [idNews, news, insert, tells, silent]
  exact same ▸ .refl _

theorem hushed_enable (a : Agenda (Action α)) (i : TaskId) : Hushed a (a.enable i).2 := by
  simp only [enable]
  split
  · exact .refl a
  · dsimp only
    split
    · exact .refl a
    · exact hushed_update a i fun _ => rfl

theorem hushed_postpone (a : Agenda (Action α)) (i : TaskId) (due : Nat) :
    Hushed a (a.postpone i due).2 := by
  simp only [postpone]
  split
  · exact hushed_update a i (f := fun t => { t with due }) fun _ => rfl
  · exact .refl a

/-- The only deed by which a mesh id comes to be told is to add a task for it. -/
theorem hushed_after (a : Agenda (Action α)) {d : Deed (Action α)}
    (silent : ∀ interval runs persistent action, d = .insert interval runs persistent action →
      action.event?.bind Event.meshId? = none) : Hushed a (a.after d) := by
  cases d with
  | insert interval runs persistent action =>
      exact hushed_insert a _ _ _ _ (silent interval runs persistent action rfl)
  | enable i => exact hushed_enable a i
  | enableDelayed i delay =>
      simp only [after, enableDelayed]
      split
      · exact (hushed_enable a i).trans (hushed_postpone _ i _)
      · exact hushed_enable a i
  | restartDelayed i delay =>
      exact hushed_update a i (f := (·.armed (Moment.after a.now delay))) fun _ => rfl
  | delay i delay => exact hushed_postpone a i _
  | force i => exact hushed_postpone a i _
  | disable i =>
      simp only [after, disable]
      split
      · exact .refl a
      · dsimp only
        split
        · exact hushed_update a i fun _ => rfl
        · exact hushed_erase a i
  | remove i => exact hushed_erase a i
  | clear => exact ⟨Nat.le_refl _, List.nil_sublist _⟩

theorem hushed_begin (a : Agenda (Action α)) (i : TaskId) (now : Nat) : Hushed a (a.begin i now) :=
  hushed_update a i fun _ => rfl

theorem hushed_finish (a : Agenda (Action α)) (i : TaskId) : Hushed a (a.finish i) := by
  simp only [finish]
  split
  · exact .refl a
  · split
    · exact hushed_update a i fun _ => rfl
    · exact hushed_erase a i

/-- An event that is put on the agenda is the last that waits, under a new handle. -/
theorem idNews_addOnce (a : Agenda (Action α)) (i : UInt16) :
    (a.addOnce (.tell (.meshId i))).2.idNews = a.idNews ++ [(⟨a.nextId⟩, i)] := by
  simp [idNews, news, addOnce, add, insert, Action.event?, Event.meshId?]

end Agenda

namespace Node

variable {σ α : Type} {n m k : Node σ α} {id : LinkId} {l : Link}

/-! ## Bystanders -/

/-- What a node holds in the election, and the generation of its mesh id. -/
def ballot (n : Node σ α) : Option (Election × SequenceId) :=
  n.candidacy.map fun c => (c.election, c.generation)

/-- A node became another without regard to the election. -/
structure Uninvolved (n m : Node σ α) : Prop where
  id : m.id = n.id
  root : m.root = n.root
  ballot : m.ballot = n.ballot
  hushed : n.agenda.Hushed m.agenda

theorem Uninvolved.refl (n : Node σ α) : Uninvolved n n := ⟨rfl, rfl, rfl, .refl _⟩

theorem Uninvolved.trans (first : Uninvolved n m) (next : Uninvolved m k) : Uninvolved n k where
  id := next.id.trans first.id
  root := next.root.trans first.root
  ballot := next.ballot.trans first.ballot
  hushed := first.hushed.trans next.hushed

theorem Uninvolved.of_agenda_eq (id : m.id = n.id) (root : m.root = n.root)
    (candidacy : m.candidacy = n.candidacy) (agenda : m.agenda = n.agenda) : Uninvolved n m :=
  ⟨id, root, by rw [Node.ballot, candidacy]; rfl, by rw [agenda]; exact .refl _⟩

/-- What reading changes beside the links does not concern the election. -/
theorem Uninvolved.aside (aside : n.Aside m) : Uninvolved n m :=
  .of_agenda_eq aside.id aside.root aside.candidacy aside.agenda

/-- A node became another without regard to the election, and counted no frame that came in. -/
structure Incidental (n m : Node σ α) : Prop extends Uninvolved n m where
  tally : m.tally = n.tally

theorem Incidental.refl (n : Node σ α) : Incidental n n := ⟨.refl n, rfl⟩

theorem Incidental.trans (first : Incidental n m) (next : Incidental m k) : Incidental n k :=
  ⟨first.toUninvolved.trans next.toUninvolved, next.tally.trans first.tally⟩

theorem Incidental.of_agenda_eq (id : m.id = n.id) (root : m.root = n.root)
    (candidacy : m.candidacy = n.candidacy) (agenda : m.agenda = n.agenda)
    (tally : m.tally = n.tally) : Incidental n m :=
  ⟨.of_agenda_eq id root candidacy agenda, tally⟩

theorem incidental_plan (n : Node σ α) {f : Agenda (Action α) → Agenda (Action α)}
    (hushed : n.agenda.Hushed (f n.agenda)) : Incidental n (n.plan f) :=
  ⟨⟨rfl, rfl, rfl, hushed⟩, rfl⟩

theorem incidental_deed (n : Node σ α) {d : Agenda.Deed (Action α)}
    (silent : ∀ interval runs persistent action, d = .insert interval runs persistent action →
      action.event?.bind Event.meshId? = none) : Incidental n (n.plan (·.after d)) :=
  incidental_plan n (n.agenda.hushed_after silent)

theorem incidental_putLink (n : Node σ α) (l : Link) : Incidental n (n.putLink l) :=
  .of_agenda_eq rfl rfl rfl rfl rfl

/-- To arm a task or to put it to rest is incidental. -/
theorem incidental_arm (n : Node σ α) (d : Agenda.Deed (Action α))
    (arms : ∀ interval runs persistent action, d ≠ .insert interval runs persistent action := by
      simp) : Incidental n (n.plan (·.after d)) :=
  n.incidental_deed fun _ _ _ _ same => absurd same (arms _ _ _ _)

/-- Events other than a new mesh id are posted without a part in the election. -/
theorem incidental_schedule (n : Node σ α) {e : Event} (other : e.meshId? = none) :
    Incidental n (n.schedule e) :=
  n.incidental_plan (n.agenda.hushed_insert 0 (.times 1) false (.tell e) other)

theorem incidental_hastenAnnouncement (n : Node σ α) : Incidental n n.hastenAnnouncement := by
  simp only [hastenAnnouncement]
  split
  next task _ => exact n.incidental_arm (.force task)
  next => exact .refl n

theorem incidental_hastenExchanges (n : Node σ α) (except : Option LinkId) :
    Incidental n (n.hastenExchanges except) := by
  have each : ∀ (ls : List Link) (n : Node σ α),
      Incidental n (n.plan fun a => ls.foldl (fun a l => (a.force l.tasks.exchange).2) a) := by
    intro ls
    induction ls with
    | nil => exact .refl
    | cons l ls ih => exact fun n => (n.incidental_arm (.force l.tasks.exchange)).trans (ih _)
  exact each _ n

theorem incidental_adjustTime (n : Node σ α) (offset : Int32) : Incidental n (n.adjustTime offset) :=
  .of_agenda_eq rfl rfl rfl rfl rfl

theorem incidental_setClock (n : Node σ α) (id : LinkId) (offset : Int32) :
    Incidental n (n.setClock id offset) := by
  have adjusted := n.incidental_adjustTime offset
  simp only [setClock]
  refine .trans ?_ (incidental_schedule _ rfl)
  split
  · exact adjusted
  next task _ =>
    split
    · exact adjusted.trans (incidental_arm _ (.delay task _))
    · exact adjusted.trans (incidental_arm _ (.force task))

theorem incidental_restReading (n : Node σ α) (id : LinkId) : Incidental n (n.restReading id) := by
  simp only [restReading]
  split
  · exact .refl n
  next l _ => exact n.incidental_arm (.disable l.tasks.read)

theorem incidental_identifyPeer (n : Node σ α) (id : LinkId) (peer : UInt32) :
    Incidental n (n.identifyPeer id peer) := by
  simp only [identifyPeer]
  split
  · exact .refl n
  · split
    · exact (n.incidental_putLink _).trans (incidental_schedule _ rfl)
    · exact .refl n

/-! ### Links -/

theorem incidental_addClockTask (n : Node σ α) (l : Link) : Incidental n (n.addClockTask l).2 := by
  simp only [addClockTask]
  split
  · exact .refl n
  · have added := n.agenda.hushed_insert n.settings.clockInterval .forever true (.setClock l.id) rfl
    refine ⟨⟨rfl, rfl, rfl, added.trans ?_⟩, rfl⟩
    split
    · exact Agenda.hushed_enable _ _
    · exact Agenda.hushed_after _ (d := .enableDelayed _ _) (by simp)

/-- A tree that is stored changes links and tasks, and no part of the election. -/
theorem incidental_acceptTree (n : Node σ α) (l : Link) (sender : UInt32) (tree : Tree) :
    Incidental n (n.acceptTree l sender tree) := by
  have settled : Incidental n (n.settle l sender).2 := by
    simp only [settle]
    refine .trans ?_ (incidental_addClockTask _ _)
    split
    · exact n.incidental_schedule rfl
    · exact .refl n
  have stored : ∀ (m : Node σ α) l, Incidental m (m.store l sender tree) := by
    intro m l
    simp only [store]
    refine .trans (m.incidental_putLink { l with subtree := tree }) ?_
    split
    · exact (incidental_hastenExchanges _ _).trans (incidental_schedule _ rfl)
    · exact .trans (incidental_arm _ (.delay l.tasks.exchange _)) (.of_agenda_eq rfl rfl rfl rfl rfl)
  simp only [acceptTree]
  split
  · exact settled.trans (stored _ _)
  · exact stored n l

/-- A new link comes with its tasks.  None of them tells of a mesh id. -/
theorem incidental_addLink (n : Node σ α) (station : Bool) :
    Incidental n (n.addLink station).2 := by
  have added : ∀ (a : Agenda (Action α)) interval runs (action : Action α), action.event? = none →
      a.Hushed (a.addPersistent interval runs action).2 :=
    fun a interval runs action silent => a.hushed_insert interval runs true action (by simp [silent])
  have planned : n.agenda.Hushed (n.addLinkTasks ⟨n.nextLink⟩ station).2.agenda := by
    have all := (((added n.agenda n.settings.exchangeInterval .forever (.exchange ⟨n.nextLink⟩) rfl).trans
      (added _ n.settings.answerTimeout (.times 1) (.timeout ⟨n.nextLink⟩) rfl)).trans
      (added _ 0 .forever (.read ⟨n.nextLink⟩) rfl)).trans
      (added _ n.settings.sendInterval .forever (.send ⟨n.nextLink⟩) rfl)
    refine all.trans ?_
    cases station with
    | true => exact Agenda.hushed_enable _ _
    | false => exact Agenda.hushed_after _ (d := .enableDelayed _ _) (by simp)
  have opened : Incidental n (n.opened station) := ⟨⟨rfl, rfl, rfl, planned⟩, rfl⟩
  exact opened.trans ((incidental_schedule _ rfl).trans (incidental_hastenAnnouncement _))

theorem incidental_addTask (n : Node σ α) (interval : Nat) (runs : Runs) (a : α) :
    Incidental n (n.addTask interval runs a).2 :=
  ⟨⟨rfl, rfl, rfl, n.agenda.hushed_insert interval runs false (.application a) rfl⟩, rfl⟩

variable [Host σ]

/-- A link that goes takes its tasks along. -/
theorem incidental_dropLink (n : Node σ α) (l : Link) : Incidental n (n.dropLink l) := by
  have erased : ∀ (ids : List TaskId) (a : Agenda (Action α)),
      a.Hushed (ids.foldl Agenda.erase a) := by
    intro ids
    induction ids with
    | nil => exact .refl
    | cons i ids ih => exact fun a => (a.hushed_erase i).trans (ih _)
  exact ⟨⟨rfl, rfl, rfl, erased _ _⟩, rfl⟩

/-! ### Sending -/

/-- All that is sent comes down to frames that are queued on links. -/
theorem incidental_queueFrame (n : Node σ α) (id : LinkId) (frame : Bytes) (priority : Bool) :
    Incidental n (n.queueFrame id frame priority).2 := by
  simp only [queueFrame]
  split
  · exact .refl n
  · split
    · exact .refl n
    next l' _ =>
      exact (n.incidental_putLink l').trans (incidental_arm _ (.enable l'.tasks.send))

/-- What queues frames only is incidental. -/
theorem Incidental.queueFrame (m : Node σ α) (id : LinkId) (frame : Bytes) (priority : Bool)
    (h : Incidental n m) : Incidental n (m.queueFrame id frame priority).2 :=
  h.trans (incidental_queueFrame m id frame priority)

theorem incidental_sendTo (n : Node σ α) (id : LinkId) (p : Packet) (priority : Bool) :
    Incidental n (n.sendTo id p priority).2 :=
  sendTo_keeps Incidental.queueFrame id p priority (.refl n)

theorem incidental_forwardFrame (n : Node σ α) (ids : List LinkId) (body : Bytes) :
    Incidental n (n.forwardFrame ids body) :=
  forwardFrame_keeps Incidental.queueFrame ids body (.refl n)

theorem incidental_sendToAll (n : Node σ α) (p : Packet) (except : Option LinkId)
    (priority : Bool) : Incidental n (n.sendToAll p except priority).2 :=
  sendToAll_keeps Incidental.queueFrame p except priority (.refl n)

theorem incidental_sendPacket (n : Node σ α) (p : Packet) (priority : Bool) :
    Incidental n (n.sendPacket p priority).2 :=
  sendPacket_keeps Incidental.queueFrame p priority (.refl n)

theorem incidental_send (n : Node σ α) (s : Sending) : Incidental n (n.send s) := by
  cases s with
  | through id packet priority => exact n.incidental_sendTo id packet priority
  | packet packet priority => exact n.incidental_sendPacket packet priority
  | toAll packet except priority => exact n.incidental_sendToAll packet except priority
  | single dest text => exact n.incidental_sendPacket _ false
  | measureDelay dest => exact n.incidental_sendPacket _ false
  | broadcast text includeSelf =>
      have sent := n.incidental_sendToAll (.broadcast n.id text) none false
      simp only [send, sendBroadcast]
      split
      · exact sent.trans (incidental_schedule _ rfl)
      · exact sent

theorem incidental_announce (n : Node σ α) : Incidental n n.announce :=
  announce_keeps Incidental.queueFrame (.refl n)

theorem incidental_startClockSync (n : Node σ α) (id : LinkId) :
    Incidental n (n.startClockSync id) :=
  startClockSync_keeps Incidental.queueFrame id (.refl n)

theorem incidental_hearTimeSync (n : Node σ α) (id : LinkId) (sender : UInt32) (x : TimeExchange)
    (arrival : UInt32) : Incidental n (n.hearTimeSync id sender x arrival) := by
  simp only [hearTimeSync]
  split
  · exact n.incidental_sendTo id _ true
  · exact n.incidental_sendTo id _ true
  · exact n.incidental_setClock id _
  · exact .refl n

theorem incidental_hearTimeDelay (n : Node σ α) (sender : UInt32) (x : TimeExchange)
    (arrival : UInt32) : Incidental n (n.hearTimeDelay sender x arrival) := by
  simp only [hearTimeDelay]
  split
  · exact n.incidental_sendPacket _ false
  · exact n.incidental_schedule rfl
  · exact .refl n
  · exact .refl n

theorem incidental_exchange (n : Node σ α) (id : LinkId) : Incidental n (n.exchange id) := by
  simp only [exchange]
  split
  · exact .refl n
  next l _ =>
    refine .trans ?_ (incidental_sendTo _ id _ true)
    exact (n.incidental_putLink _).trans (incidental_arm _ (.restartDelayed l.asked.tasks.timeout _))

/-- To hear a tree that may hang on its link is incidental. -/
theorem incidental_hearTree {tree : Tree} {sender : UInt32} (found : n.link? id = some l)
    (ok : n.checkAnnounced l sender tree = .ok ()) (wanted : Bool) :
    Incidental n (n.hearTree id sender tree wanted) := by
  simp only [hearTree, found, ok]
  refine .trans (n.incidental_acceptTree l sender tree) ?_
  split
  · exact incidental_sendTo _ id _ true
  · exact incidental_arm _ (.disable l.tasks.timeout)

/-! ## What the election is about -/

omit [Host σ] in
/-- A new current id is given a new generation, and the same id keeps its own. -/
theorem ballot_setElection (n : Node σ α) (c : Candidacy) (e : Election) :
    (n.setElection c e).ballot =
      some (e, if e.currentId = c.election.currentId then c.generation else c.generation.next) := by
  rw [ballot, setElection, candidacy_hastenAnnouncement]
  split <;> rfl

omit [Host σ] in
/-- An announcement that is made sooner tells of no mesh id. -/
theorem idNews_hastenAnnouncement (n : Node σ α) :
    n.hastenAnnouncement.agenda.idNews = n.agenda.idNews := by
  simp only [hastenAnnouncement]
  split
  next task _ =>
    simp only [plan, Agenda.force, Agenda.postpone]
    split
    · have same := n.agenda.news_update task (f := fun t => { t with due := n.agenda.now })
        fun _ => rfl
      simp only [Agenda.idNews, same]
    · rfl
  next => rfl

/-- What a node does about a link that is lost is incidental, until it loses the neighbour. -/
theorem close_cases (n : Node σ α) (id : LinkId) :
    n.link? id = none ∧ (n.close id).2 = n ∨ ∃ l m, n.link? id = some l ∧ Incidental n m ∧
      (n.close id).2 = m.losePeer l.remote := by
  simp only [close]
  split
  next shut => exact .inl ⟨shut, rfl⟩
  next l found =>
    refine .inr ⟨l, _, found, ?_, rfl⟩
    refine .trans (n.incidental_dropLink l) (.trans ?_ (incidental_schedule _ rfl))
    split
    · exact .refl _
    · exact (incidental_hastenExchanges _ none).trans (incidental_schedule _ rfl)

end Node

end SpanningMesh
