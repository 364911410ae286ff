import SpanningMesh.Network.Outlets
import SpanningMesh.Proofs.Node.InStep

/-!
# Links that come and go

A node is in step with its agenda after every pass, since the actions of tasks are moves or what is
known to keep it in step, and since a pass does nothing else to the tasks it runs.

An application may interfere with all of it.  `Asked` is what it may do to its node: everything that
a host may ask of it, at any time and to any depth, a pass within a pass included, and any change
elsewhere.  It only leaves the agenda and the links themselves alone.  `Called` is the same within
bounds that are left open: which changes it makes elsewhere, and what it may ask.

So in every history of a node the persistent tasks are exactly those of its open links
(`persistent_tasks_of_links`).
-/

namespace SpanningMesh

open Application (Program)

namespace Node

variable {σ α : Type} [Host σ] {p : Program σ α} {n m : Node σ α} {busy : TaskId → Prop}

/-! ## Passes -/

/-- A turn keeps a node in step if the actions do. -/
theorem InStep.turn (keeps : ∀ busy a m, InStep busy m → InStep busy (m.perform p a))
    (h : InStep busy n) (now : Nat) (id : TaskId) :
    InStep busy (Agenda.turn agendaOf (Node.perform p) now id n).1 := by
  rw [Agenda.turn_eq]
  cases ran : Agenda.Run.ofTurn agendaOf now id n with
  | none => exact h
  | some r =>
      obtain ⟨-, -, rfl, rfl⟩ := (Agenda.ofTurn_eq_some_iff agendaOf now).mp ran
      exact (keeps _ r.task.action _ (h.begin r.id now)).finish

theorem InStep.perform (keeps : ∀ busy, p.Keeps (InStep busy)) (h : InStep busy n) (a : Action α) :
    InStep busy (n.perform p a) :=
  (keeps busy).perform a
    (fun id _ h => (((keeps busy).reading id).readFrames _ h).restReading id) (fun id _ h => h.flush id) h

/-- A pass consists of the turns of the tasks that are due. -/
theorem execute_eq (p : Program σ α) (now : Nat) (n : Node σ α) :
    (n.execute p now).2 = Agenda.afterTurns agendaOf (Node.perform p) now (n.agenda.dueIds now)
      (n.clocked now) := by
  simp only [Node.execute, Agenda.execute, Agenda.turns_eq]
  rfl

theorem InStep.execute (keeps : ∀ busy, p.Keeps (InStep busy)) (h : InStep busy n) (now : Nat) :
    InStep busy (n.execute p now).2 := by
  rw [execute_eq]
  exact Agenda.afterTurns_keeps _ _ now (InStep busy)
    (fun id _ h => h.turn (fun _ a _ h => h.perform keeps a) now id) _ (h.clocked now)

/-- A pass keeps what its tasks keep, if it does not matter how the tasks themselves are accounted
for. -/
theorem execute_keeps {P : Node σ α → Prop} (clock : ∀ n now, P n → P (n.clocked now))
    (begins : ∀ n id now, P n → P (n.plan (·.begin id now)))
    (finishes : ∀ n id, P n → P (n.plan (·.finish id)))
    (perform : ∀ a n, P n → P (n.perform p a)) (h : P n) (now : Nat) : P (n.execute p now).2 := by
  rw [execute_eq]
  refine Agenda.afterTurns_keeps _ _ now P (fun id m h => ?_) _ (clock n now h)
  rw [Agenda.turn_eq]
  cases ran : Agenda.Run.ofTurn agendaOf now id m with
  | none => exact h
  | some r =>
      obtain ⟨-, -, rfl, rfl⟩ := (Agenda.ofTurn_eq_some_iff agendaOf now).mp ran
      exact finishes _ r.id (perform r.task.action _ (begins r.context r.id now h))

/-! ## What may be asked -/

/-- Everything but a pass that may be asked of a node keeps it in step. -/
theorem InStep.input (h : InStep busy n) {i : Input α} (rests : ∀ now, i ≠ .execute now) :
    InStep busy (n.obey p i) := by
  cases i with
  | addLink station => exact h.addLink station
  | arrive id chunk => exact h.arrive id chunk
  | disconnect id => exact h.close id
  | close id => exact h.close id
  | send s =>
      have moves : Moves (fun _ => False) n (n.send s) := moves_send n s
      exact h.moves moves
  | execute now => exact absurd rfl (rests now)
  | stop => exact inStep_stop n
  | onPacket kind a => exact h.of_eq rfl rfl rfl
  | onEvent kind a => exact h.of_eq rfl rfl rfl
  | addTask interval runs a =>
      have moves : Moves (fun _ => False) n (n.addTask interval runs a).2 := moves_addTask n _ _ a
      exact h.moves moves
  | joinElection own =>
      have moves : Moves (fun _ => False) n (n.joinElection own) := moves_joinElection n own
      exact h.moves moves

/-- What becomes of a node by all that may be asked of it, and by changes elsewhere than in its
links and its agenda. -/
inductive Asked : Node σ α → Node σ α → Prop where
  | elsewhere {n m : Node σ α} (links : m.links = n.links) (nextLink : m.nextLink = n.nextLink)
      (agenda : m.agenda = n.agenda) : Asked n m
  | input (n : Node σ α) {i : Input α} (rests : ∀ now, i ≠ .execute now) :
      Asked n (n.obey (.idle σ α) i)
  | execute (n : Node σ α) (now : Nat) (p : Program σ α) (task : ∀ a m, Asked m (p.task a m))
      (handle : ∀ a packet id arrival m, Asked m (p.handle a packet id arrival m).1)
      (listen : ∀ a e m, Asked m (p.listen a e m)) : Asked n (n.execute p now).2
  | andThen {n m k : Node σ α} (first : Asked n m) (next : Asked m k) : Asked n k

/-- A node stays in step whatever an application asks of it. -/
theorem InStep.asked (asked : Asked n m) (h : InStep busy n) : InStep busy m := by
  induction asked generalizing busy with
  | elsewhere links nextLink agenda => exact h.of_eq links nextLink agenda
  | input n rests => exact h.input rests
  | execute n now p _ _ _ task handle listen =>
      exact h.execute (fun _ => ⟨fun move h => h.move move, fun a m => task a m,
        fun a packet id arrival m => handle a packet id arrival m, fun a e m => listen a e m⟩) now
  | andThen _ _ first next => exact next (first h)

/-- What becomes of a node by all that may be asked of it within some bounds: by inputs that are
allowed, by passes in which an application has callbacks that fit, and by changes aside. -/
inductive Called (Aside : Node σ α → Node σ α → Prop) (Allowed : Node σ α → Input α → Prop)
    (Fits : Program σ α → Prop) : Node σ α → Node σ α → Prop where
  | aside {n m : Node σ α} (aside : Aside n m) : Called Aside Allowed Fits n m
  | input (n : Node σ α) {i : Input α} (rests : ∀ now, i ≠ .execute now) (allowed : Allowed n i) :
      Called Aside Allowed Fits n (n.obey (.idle σ α) i)
  | execute (n : Node σ α) (now : Nat) (p : Program σ α) (fits : Fits p)
      (task : ∀ a m, Called Aside Allowed Fits m (p.task a m))
      (handle : ∀ a packet id arrival m,
        Called Aside Allowed Fits m (p.handle a packet id arrival m).1)
      (listen : ∀ a e m, Called Aside Allowed Fits m (p.listen a e m)) :
      Called Aside Allowed Fits n (n.execute p now).2
  | andThen {n m k : Node σ α} (first : Called Aside Allowed Fits n m)
      (next : Called Aside Allowed Fits m k) : Called Aside Allowed Fits n k

/-- What the changes aside, the inputs and the passes keep, everything keeps that may be asked. -/
theorem Called.keeps {Aside : Node σ α → Node σ α → Prop} {Allowed : Node σ α → Input α → Prop}
    {Fits : Program σ α → Prop} {P : Node σ α → Prop} (aside : ∀ {n m}, Aside n m → P n → P m)
    (input : ∀ n i, (∀ now, i ≠ .execute now) → Allowed n i → P n → P (n.obey (.idle σ α) i))
    (execute : ∀ p n now, Fits p → p.Respects P → P n → P (n.execute p now).2)
    (called : Called Aside Allowed Fits n m) (h : P n) : P m := by
  induction called with
  | aside other => exact aside other h
  | input n rests allowed => exact input n _ rests allowed h
  | execute n now p fits _ _ _ task handle listen =>
      exact execute p n now fits ⟨fun a m => task a m,
        fun a packet id arrival m => handle a packet id arrival m, fun a e m => listen a e m⟩ h
  | andThen _ _ first next => exact next (first h)

end Node

/-- A program that does to its node what may be asked of it, and nothing else to its links and its
agenda. -/
structure Application.Program.OnlyAsks {σ α : Type} [Host σ] (p : Program σ α) : Prop where
  task : ∀ a n, Node.Asked n (p.task a n)
  handle : ∀ a packet id arrival n, Node.Asked n (p.handle a packet id arrival n).1
  listen : ∀ a e n, Node.Asked n (p.listen a e n)

/-- A program that does to its node what may be asked of it within some bounds. -/
structure Application.Program.Calls {σ α : Type} [Host σ] (p : Program σ α)
    (Aside : Node σ α → Node σ α → Prop) (Allowed : Node σ α → Node.Input α → Prop)
    (Fits : Program σ α → Prop) : Prop where
  fits : Fits p
  task : ∀ a n, Node.Called Aside Allowed Fits n (p.task a n)
  handle : ∀ a packet id arrival n,
    Node.Called Aside Allowed Fits n (p.handle a packet id arrival n).1
  listen : ∀ a e n, Node.Called Aside Allowed Fits n (p.listen a e n)

/-- An application that only makes some calls respects what those calls keep. -/
theorem Application.Program.Calls.respects {σ α : Type} [Host σ] {p : Program σ α}
    {Aside : Node σ α → Node σ α → Prop} {Allowed : Node σ α → Node.Input α → Prop}
    {Fits : Program σ α → Prop} {P : Node σ α → Prop} (calls : p.Calls Aside Allowed Fits)
    (keeps : ∀ {n m}, Node.Called Aside Allowed Fits n m → P n → P m) : p.Respects P where
  task a n h := keeps (calls.task a n) h
  handle a packet id arrival n h := keeps (calls.handle a packet id arrival n) h
  listen a e n h := keeps (calls.listen a e n) h

theorem Application.Program.OnlyAsks.keeps {σ α : Type} [Host σ] {p : Program σ α}
    (asks : p.OnlyAsks) (busy : TaskId → Prop) : p.Keeps (Node.InStep busy) where
  move := fun move h => h.move move
  task := fun a n h => h.asked (asks.task a n)
  handle := fun a packet id arrival n h => h.asked (asks.handle a packet id arrival n)
  listen := fun a e n h => h.asked (asks.listen a e n)

theorem Application.Program.onlyAsks_idle (σ α : Type) [Host σ] :
    Program.OnlyAsks (.idle σ α) where
  task := fun _ _ => .elsewhere rfl rfl rfl
  handle := fun _ _ _ _ _ => .elsewhere rfl rfl rfl
  listen := fun _ _ _ => .elsewhere rfl rfl rfl

namespace Node

variable {σ α : Type} [Host σ] {p : Program σ α} {n m : Node σ α} {busy : TaskId → Prop}

/-! ## Histories -/

/-- The node after a history, in which the state of its host may change before each input. -/
def live (p : Program σ α) (n : Node σ α) (events : List (σ × Input α)) : Node σ α :=
  events.foldl (fun n e => ({ n with host := e.1 } : Node σ α).obey p e.2) n

theorem live_append (p : Program σ α) (n : Node σ α) (past rest : List (σ × Input α)) :
    n.live p (past ++ rest) = (n.live p past).live p rest :=
  List.foldl_append

theorem InStep.obey (asks : p.OnlyAsks) (h : InStep busy n) (i : Input α) :
    InStep busy (n.obey p i) := by
  cases i with
  | execute now => exact h.execute asks.keeps now
  | addLink | arrive | disconnect | close | send | stop | onPacket | onEvent | addTask
    | joinElection => exact h.input nofun

/-- A node is in step after any history. -/
theorem InStep.live (asks : p.OnlyAsks) (h : InStep busy n) (events : List (σ × Input α)) :
    InStep busy (n.live p events) := by
  induction events generalizing n with
  | nil => exact h
  | cons e events ih => exact ih ((h.hosted e.1).obey asks e.2)

omit [Host σ] in
theorem InStep.of_new (new : n.links = []) (none : n.agenda = {}) : InStep busy n := by
  refine ⟨none ▸ Agenda.tidy_nil _ _, ⟨?_, ?_⟩, ?_, ?_, ?_, ?_, ?_⟩
  all_goals simp [duties, linkIds, new, none, Agenda.find?]

omit [Host σ] in
/-- No two duties of links are for the same action. -/
theorem nodup_actions (different : n.linkIds.Nodup) : (n.duties.map Prod.snd).Nodup := by
  rw [duties, List.map_flatMap, List.nodup_flatMap]
  refine ⟨fun l _ => ?_, ?_⟩
  · cases clock : l.tasks.timeSync with
    | none => simp [LinkTasks.duties, clock]
    | some task => simp [LinkTasks.duties, clock]
  · refine (List.pairwise_map.mp different).imp fun {l k} other => ?_
    refine List.disjoint_left.mpr fun x hx hx' => ?_
    obtain ⟨d, hd, rfl⟩ := List.mem_map.mp hx
    obtain ⟨d', hd', same⟩ := List.mem_map.mp hx'
    have link := LinkTasks.link?_of_mem_duties hd'
    rw [same, LinkTasks.link?_of_mem_duties hd] at link
    exact other (Option.some.inj link)

/-- In every history of a node, whatever an application does with it meanwhile, the persistent tasks
on its agenda are those of its open links, and each is the task of one link.  Every open link still
has the tasks it was opened with, each for what it is there for, and its next exchange is to come.
It has a clock task exactly if it is synced, and it is not closing. -/
theorem persistent_tasks_of_links (asks : p.OnlyAsks) (new : n.links = []) (none : n.agenda = {})
    (events : List (σ × Input α)) :
    let m := n.live p events
    ((m.agenda.tasks.filter (·.2.persistent)).map Prod.fst).Perm (m.links.flatMap (·.tasks.all)) ∧
    (m.links.flatMap (·.tasks.all)).Nodup ∧
    ∀ l ∈ m.links,
      (∀ d ∈ l.tasks.duties l.id, ∃ t, m.agenda.find? d.1 = some t ∧ t.persistent = true ∧
        t.action = d.2) ∧
      m.agenda.isEnabled l.tasks.exchange = true ∧
      (l.tasks.timeSync.isSome = true ↔ l.phase = .synced) ∧ l.phase ≠ .closing := by
  intro m
  have h : InStep (fun _ => False) m := (InStep.of_new new none).live asks events
  have tasks : m.links.flatMap (·.tasks.all) = m.duties.map Prod.fst := by
    simp only [duties, List.map_flatMap, LinkTasks.map_fst_duties]
  have different : (m.duties.map Prod.fst).Nodup := h.staffed.nodup (nodup_actions h.different)
  refine ⟨?_, tasks ▸ different, fun l hl => ⟨fun d hd => ?_, h.ready l hl, ?_, (h.phases l hl).1⟩⟩
  · have registered : ((m.agenda.tasks.filter (·.2.persistent)).map Prod.fst).Nodup :=
      h.tidy.nodup.sublist (List.filter_sublist.map _)
    rw [tasks]
    exact (List.perm_ext_iff_of_nodup registered different).mpr fun id =>
      h.staffed.persistent_iff h.tidy.nodup id
  · obtain ⟨t, found, serves⟩ := h.staffed.duty d (mem_duties.mpr ⟨l, hl, hd⟩)
    exact ⟨t, found, serves.persistent, serves.action⟩
  · exact (h.phases l hl).2.symm

/-- An application that opens a link whenever its task runs, and closes every link of whose opening
it is told. -/
def restless : Program (Outlets Unit) Unit where
  task := fun _ n => (n.addLink true).2
  handle := fun _ _ _ _ n => (n, .pass)
  listen := fun _ e n =>
    match e with
    | .opened id => (n.close id).2
    | _ => n

/-- A link is opened and comes to be synced.  The application is not told of it, but of the next one
that it opens. -/
def comingsAndGoings : List (Outlets Unit × Input Unit) :=
  ([.addTask 5 .forever (), .execute 0,
    .arrive ⟨1⟩ [26, 0, 0, 0, 5, 0, 0, 0, 1, 0, 0, 0, 2, 0, 0, 0,
      2, 0, 0, 0, 0, 1, 0, 3, 0, 0, 0, 0, 0, 0],
    .execute 1, .onEvent .opened (), .execute 5, .execute 6] : List (Input Unit)).map
      fun i => ({ application := () }, i)

/-- The node 1 before it has any link. -/
def newcomer : Node (Outlets Unit) Unit := .create 1 {} { application := () }

/-- The second link is closed while its opening is told.  What is left are the tasks of the
first. -/
theorem persistent_tasks_of_links_restless :
    restless.OnlyAsks ∧ newcomer.links = [] ∧ newcomer.agenda = {} ∧
      (newcomer.live restless comingsAndGoings).nextLink = 3 ∧
      (newcomer.live restless comingsAndGoings).links.flatMap (·.tasks.all) =
        [⟨2⟩, ⟨3⟩, ⟨4⟩, ⟨5⟩, ⟨8⟩] ∧
      (((newcomer.live restless comingsAndGoings).agenda.tasks.filter (·.2.persistent)).map
        Prod.fst).Perm [⟨2⟩, ⟨3⟩, ⟨4⟩, ⟨5⟩, ⟨8⟩] := by
  have asks : restless.OnlyAsks := by
    refine ⟨fun _ n => .input n (i := .addLink true) nofun, fun _ _ _ _ _ => .elsewhere rfl rfl rfl,
      fun _ e n => ?_⟩
    cases e with
    | opened id => exact .input n (i := .close id) nofun
    | connected | dropped | changed | adjusted | measured | meshId | received =>
        exact .elsewhere rfl rfl rfl
  have tasks : (newcomer.live restless comingsAndGoings).links.flatMap (·.tasks.all) =
      [⟨2⟩, ⟨3⟩, ⟨4⟩, ⟨5⟩, ⟨8⟩] := by decide +kernel
  obtain ⟨registered, -⟩ := persistent_tasks_of_links (n := newcomer) asks rfl rfl comingsAndGoings
  exact ⟨asks, rfl, rfl, by decide +kernel, tasks, tasks ▸ registered⟩

end Node

end SpanningMesh
