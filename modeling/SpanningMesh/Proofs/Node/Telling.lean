import SpanningMesh.Proofs.Node.Reporting
import SpanningMesh.Proofs.Node.Serving

/-!
# Every event is told once

The events that wait on the agenda of a node are told in the next pass, in their order, and nothing
else is told in it.  What the pass itself brings waits for the one after it.  So at the end of every
pass the events that were told are those that had come to wait before it began
(`events_told_in_order`).

The listeners and handlers of an application, and its tasks, may have the node do all that may be
asked of it, but may neither run a pass nor stop it.  All that they bring about is told in the same
way.

What is told of one link is that it was opened, then who its peer is, once that is known, and at last
that it was closed, with this peer.
-/

namespace SpanningMesh

open Application (Program)

namespace Node

open Agenda (Run Clears)

variable {σ α : Type} [Host σ] {p : Program σ α} {n m : Node σ α} {log : List Notice} {now : Nat}
  {id : TaskId} {k : LinkId}

/-! ## What is told, and what comes to wait -/

omit [Host σ] in
/-- The events that came to wait since a node was another. -/
def postedSince (m n : Node σ α) : List Event :=
  (m.agenda.news.filter (n.agenda.nextId ≤ ·.1.number)).map Prod.snd

/-- The events that the actions of some runs put on the agenda. -/
def postedInRuns (p : Program σ α) (now : Nat) (runs : List (Run (Action α) (Node σ α))) :
    List Event :=
  runs.flatMap fun r => (r.stop agendaOf (perform p) now).postedSince (r.start agendaOf now)

omit [Host σ] in
/-- The events that are told in some runs. -/
def toldInRuns (runs : List (Run (Action α) (Node σ α))) : List Event :=
  runs.filterMap (·.task.action.event?)

omit [Host σ] in
theorem toldInRuns_append (runs runs' : List (Run (Action α) (Node σ α))) :
    toldInRuns (runs ++ runs') = toldInRuns runs ++ toldInRuns runs' :=
  List.filterMap_append

theorem postedInRuns_append (runs runs' : List (Run (Action α) (Node σ α))) :
    postedInRuns p now (runs ++ runs') = postedInRuns p now runs ++ postedInRuns p now runs' :=
  List.flatMap_append

/-- The runs of a pass, and none for any other input. -/
def runsOf (p : Program σ α) (n : Node σ α) : Input α → List (Run (Action α) (Node σ α))
  | .execute now => Agenda.runsOfPass agendaOf (perform p) now { n with now }
  | _ => []

/-- The events that an input has a node tell. -/
def toldBy (p : Program σ α) (n : Node σ α) (i : Input α) : List Event := toldInRuns (n.runsOf p i)

/-- The events that an input has a node put on its agenda.  In a pass these are those of each action
that runs in it. -/
def postedBy (p : Program σ α) (n : Node σ α) : Input α → List Event
  | .execute now => postedInRuns p now (n.runsOf p (.execute now))
  | i => (n.obey p i).postedSince n

/-- What the inputs of a history give, one after the other. -/
def gathered {β : Type} (p : Program σ α) (f : Node σ α → Input α → List β) :
    Node σ α → List (σ × Input α) → List β
  | _, [] => []
  | n, (host, i) :: events =>
      let n : Node σ α := { n with host }
      f n i ++ gathered p f (n.obey p i) events

/-- The events that a history has a node tell, in order. -/
def told (p : Program σ α) (n : Node σ α) (events : List (σ × Input α)) : List Event :=
  gathered p (toldBy p) n events

/-- The events that a history has a node put on its agenda, in order. -/
def posted (p : Program σ α) (n : Node σ α) (events : List (σ × Input α)) : List Event :=
  gathered p (postedBy p) n events

/-- What is told about the first input comes first. -/
theorem told_cons (e : σ × Input α) (events : List (σ × Input α)) :
    n.told p (e :: events) =
      ({ n with host := e.1 } : Node σ α).toldBy p e.2 ++
        (({ n with host := e.1 } : Node σ α).obey p e.2).told p events := rfl

theorem posted_cons (e : σ × Input α) (events : List (σ × Input α)) :
    n.posted p (e :: events) =
      ({ n with host := e.1 } : Node σ α).postedBy p e.2 ++
        (({ n with host := e.1 } : Node σ α).obey p e.2).posted p events := rfl

/-! ## Turns -/

/-- The links and tasks of a node are in step, and all events that wait are told in the next pass. -/
structure Current (n : Node σ α) : Prop where
  step : InStep (fun _ => False) n
  posted : n.agenda.Posted

omit [Host σ] in
/-- A task that is there to tell an event has its turn. -/
theorem Current.apart_of_rests (h : Current n) (le : n.agenda.now ≤ now)
    (rests : Run.ofTurn agendaOf now id n = none) : n.agenda.Apart id := by
  intro t there
  by_contra tells
  have ready := h.posted id t there (Option.isSome_iff_ne_none.mpr tells)
  have found := Agenda.find?_of_mem h.step.tidy.nodup there
  have idle := (h.step.tidy.at_rest found).1
  have runs : Run.ofTurn agendaOf now id n = some ⟨id, t, n⟩ := by
    refine (Agenda.ofTurn_eq_some_iff agendaOf now).mpr ⟨found, ?_, rfl, rfl⟩
    simp [Task.isDue, ready.enabled, idle, Nat.le_trans ready.due le]
  rw [rests] at runs
  cases runs

omit [Host σ] in
/-- What is told in a turn is what waits under its handle. -/
theorem Current.told_turn (h : Current n) (le : n.agenda.now ≤ now) (id : TaskId) :
    toldInRuns (Run.ofTurn agendaOf now id n).toList = n.agenda.newsUnder id := by
  cases ran : Run.ofTurn agendaOf now id n with
  | none => exact (h.apart_of_rests le ran).newsUnder.symm
  | some r =>
      obtain ⟨found, -, rfl, rfl⟩ := (Agenda.ofTurn_eq_some_iff agendaOf now).mp ran
      rw [Agenda.newsUnder_of_mem h.step.tidy.nodup (Agenda.mem_of_find? found)]
      cases tells : r.task.action.event? <;> simp [toldInRuns, tells]

/-- A turn takes the event of its task off the agenda, and what its action brings waits. -/
theorem Current.turn (arranges : p.OnlyArranges) (h : Current n) (le : n.agenda.now ≤ now)
    (known : id.number < n.agenda.nextId) :
    let m := (Agenda.turn agendaOf (Node.perform p) now id n).1
    Current m ∧ ∃ log, Accounts log n m ∧
      Clears [id] (log.map Notice.event) n.agenda m.agenda ∧
      log.map Notice.event = postedInRuns p now (Run.ofTurn agendaOf now id n).toList := by
  rw [Agenda.turn_eq]
  cases ran : Run.ofTurn agendaOf now id n with
  | none =>
      have kept := (h.apart_of_rests le ran).news_filter
      refine ⟨h, [], accounts_nil fun _ => rfl, ⟨rfl, Nat.le_refl _, [], ?_, rfl, by simp⟩, rfl⟩
      simpa using kept.symm
  | some r =>
      obtain ⟨-, -, rfl, rfl⟩ := (Agenda.ofTurn_eq_some_iff agendaOf now).mp ran
      have begins := h.step.begin r.id now
      have begun : Reported _ _ (r.context.plan (·.begin r.id now)) :=
        ⟨begins, (Elsewhere.refl _).recorded⟩
      obtain ⟨step, log, notes⟩ := begun.perform arranges r.task.action
      obtain ⟨clears, posted⟩ := h.posted.turn known notes.brings step.tidy.nodup
      refine ⟨⟨step.finish, posted⟩, log, ⟨notes.apt, notes.course⟩, clears, ?_⟩
      have fresh : postedSince (r.stop agendaOf (Node.perform p) now) (r.start agendaOf now) =
          log.map Notice.event := notes.brings.news_filter begins.tidy.fresh
      simp [postedInRuns, fresh]

/-- Some turns, one after the other. -/
theorem Current.turns (arranges : p.OnlyArranges) (h : Current n) (le : n.agenda.now ≤ now)
    {ids : List TaskId} (different : ids.Nodup) (known : ∀ i ∈ ids, i.number < n.agenda.nextId) :
    let m := Agenda.afterTurns agendaOf (Node.perform p) now ids n
    let runs := Agenda.runs agendaOf (Node.perform p) now ids n
    Current m ∧ toldInRuns runs = ids.flatMap n.agenda.newsUnder ∧
      ∃ log, Accounts log n m ∧ Clears ids (log.map Notice.event) n.agenda m.agenda ∧
        log.map Notice.event = postedInRuns p now runs := by
  induction ids generalizing n with
  | nil =>
      refine ⟨h, rfl, [], accounts_nil fun _ => rfl, ⟨rfl, Nat.le_refl _, [], ?_, rfl, ?_⟩, rfl⟩ <;>
        simp [Agenda.afterTurns]
  | cons i ids ih =>
      obtain ⟨other, different⟩ := List.nodup_cons.mp different
      have later : ∀ j ∈ ids, j.number < n.agenda.nextId :=
        fun j hj => known j (List.mem_cons_of_mem _ hj)
      obtain ⟨current, log, accounts, clears, posted⟩ :=
        h.turn arranges le (known i List.mem_cons_self)
      obtain ⟨current', told', log', accounts', clears', posted'⟩ :=
        ih current (clears.now ▸ le) different
          fun j hj => Nat.lt_of_lt_of_le (later j hj) clears.next
      have waits : ∀ j ∈ ids, _ = n.agenda.newsUnder j := fun j hj =>
        clears.newsUnder (List.mem_singleton.not.mpr fun same => other (same ▸ hj)) (later j hj)
      refine ⟨current', ?_, log ++ log', accounts.trans accounts', ?_, ?_⟩
      · rw [Agenda.runs, toldInRuns_append, h.told_turn le, told', List.flatMap_congr waits]
        rfl
      · rw [List.map_append]
        exact clears.trans clears' later
      · rw [List.map_append, posted, posted', Agenda.runs, postedInRuns_append]

/-! ## Inputs -/

/-- What an input has a node put on its agenda is noted in a log.  It waits behind what waits
already, which is told in its order. -/
structure Delivers (p : Program σ α) (n : Node σ α) (i : Input α) (log : List Notice) : Prop where
  current : Current (n.obey p i)
  accounts : Accounts log n (n.obey p i)
  posted : log.map Notice.event = n.postedBy p i
  balance : n.toldBy p i ++ (n.obey p i).agenda.news.map Prod.snd =
    n.agenda.news.map Prod.snd ++ n.postedBy p i

omit [Host σ] in
/-- News that waits is current at any later time. -/
theorem Current.clocked (h : Current n) (le : n.agenda.now ≤ now) : Current (n.clocked now) where
  step := h.step.clocked now
  posted i t there tells :=
    let ready := h.posted i t there tells
    ⟨ready.enabled, ready.pooled, ready.once, Nat.le_trans ready.due le⟩

/-- A pass tells all events that wait when it begins, and no others. -/
theorem Current.pass (arranges : p.OnlyArranges) (h : Current n) (le : n.agenda.now ≤ now) :
    n.toldBy p (.execute now) = n.agenda.news.map Prod.snd ∧
      (n.obey p (.execute now)).agenda.now = now ∧ ∃ log, Delivers p n (.execute now) log := by
  have different := h.step.tidy.nodup
  have due : (n.agenda.dueIds now).Sublist n.agenda.ids := List.filter_sublist.map Prod.fst
  obtain ⟨current, told, log, accounts, clears, posted⟩ :=
    (h.clocked le).turns arranges (Nat.le_refl now) (different.sublist due)
      fun i hi => h.step.tidy.fresh i (due.subset hi)
  rw [← execute_eq] at current accounts clears
  have all : n.toldBy p (.execute now) = n.agenda.news.map Prod.snd :=
    told.trans (h.posted.flatMap_dueIds different le)
  refine ⟨all, clears.now, log, current, ⟨accounts.apt, accounts.course⟩, posted, ?_⟩
  obtain ⟨added, news, events, -⟩ := clears.news
  have none : (n.clocked now).agenda.news.filter (·.1 ∉ n.agenda.dueIds now) = [] :=
    List.filter_eq_nil_iff.mpr fun x hx left =>
      of_decide_eq_true left (h.posted.mem_dueIds le hx)
  rw [none, List.nil_append] at news
  rw [all, show (n.obey p (.execute now)).agenda.news = added from news, events, posted]
  rfl

/-- Anything but a pass tells nothing. -/
theorem Current.input (h : Current n) {i : Input α} (rests : ∀ now, i ≠ .execute now)
    (goes : i ≠ .stop) :
    (n.obey p i).agenda.now = n.agenda.now ∧ ∃ log, Delivers p n i log := by
  have untold : n.toldBy p i = [] := by
    cases i with
    | execute now => exact absurd rfl (rests now)
    | addLink | arrive | disconnect | close | send | stop | onPacket | onEvent | addTask
      | joinElection => rfl
  have posted : n.postedBy p i = (n.obey p i).postedSince n := by
    cases i with
    | execute now => exact absurd rfl (rests now)
    | addLink | arrive | disconnect | close | send | stop | onPacket | onEvent | addTask
      | joinElection => rfl
  have start : Reported (fun _ => False) n n := ⟨h.step, (Elsewhere.refl n).recorded⟩
  obtain ⟨step, log, notes⟩ := start.input (p := p) rests goes
  have events : log.map Notice.event = n.postedBy p i :=
    (notes.brings.news_filter h.step.tidy.fresh).symm.trans posted.symm
  refine ⟨notes.brings.now, log, ⟨step, h.posted.brings notes.brings⟩, notes.toAccounts, events, ?_⟩
  obtain ⟨added, news, same, -⟩ := notes.brings.news
  rw [untold, news, List.map_append, same, events, List.nil_append]

theorem Current.obey (arranges : p.OnlyArranges) (h : Current n) {e : σ × Input α}
    {events : List (σ × Input α)} (goes : e.2 ≠ .stop)
    (clock : (n.agenda.now :: passTimes (e :: events)).Pairwise (· ≤ ·)) :
    ((n.obey p e.2).agenda.now :: passTimes events).Pairwise (· ≤ ·) ∧
      ∃ log, Delivers p n e.2 log := by
  rcases passTimes_cases clock with ⟨now, pass, le, clock⟩ | ⟨rests, clock⟩
  · obtain ⟨-, passed, delivers⟩ := h.pass arranges le
    rw [pass, passed]
    exact ⟨clock, delivers⟩
  · obtain ⟨kept, delivers⟩ := h.input (p := p) rests goes
    rw [kept]
    exact ⟨clock, delivers⟩

/-! ## Histories -/

omit [Host σ] in
theorem Current.hosted (h : Current n) (host : σ) : Current ({ n with host } : Node σ α) :=
  ⟨h.step.hosted host, h.posted⟩

/-- At the end of a pass the events that were told are those that waited at first, and those that
came to wait before the pass began. -/
theorem Current.told_pass (arranges : p.OnlyArranges) (h : Current n)
    {past rest : List (σ × Input α)} {host : σ} {now : Nat}
    (goes : ∀ e ∈ past, e.2 ≠ .stop)
    (clock : (n.agenda.now :: passTimes (past ++ (host, .execute now) :: rest)).Pairwise (· ≤ ·)) :
    n.told p (past ++ [(host, .execute now)]) = n.agenda.news.map Prod.snd ++ n.posted p past := by
  induction past generalizing n with
  | nil =>
      have le : n.agenda.now ≤ now := (List.pairwise_cons.mp clock).1 now List.mem_cons_self
      obtain ⟨all, -⟩ := (h.hosted host).pass arranges le
      rw [List.nil_append, told_cons, all]
      rfl
  | cons e past ih =>
      obtain ⟨clock, log, delivers⟩ :=
        (h.hosted e.1).obey arranges (goes e List.mem_cons_self) clock
      have later := ih delivers.current (fun e he => goes e (List.mem_cons_of_mem _ he)) clock
      rw [List.cons_append, told_cons, posted_cons, later, ← List.append_assoc, delivers.balance,
        List.append_assoc]

/-- Every input of a history can be given a log, and these logs account for the links. -/
theorem Current.logs (arranges : p.OnlyArranges) (h : Current n) {events : List (σ × Input α)}
    (goes : ∀ e ∈ events, e.2 ≠ .stop)
    (clock : (n.agenda.now :: passTimes events).Pairwise (· ≤ ·)) :
    ∃ logs : List (List Notice), ∀ past, past <+: events →
      ((logs.take past.length).flatten.map Notice.event = n.posted p past ∧
        Accounts (logs.take past.length).flatten n (n.live p past)) := by
  induction events generalizing n with
  | nil =>
      refine ⟨[], fun past behind => ?_⟩
      rw [List.prefix_nil.mp behind]
      exact ⟨rfl, accounts_nil fun _ => rfl⟩
  | cons e events ih =>
      obtain ⟨clock, log, delivers⟩ :=
        (h.hosted e.1).obey arranges (goes e List.mem_cons_self) clock
      obtain ⟨logs, later⟩ :=
        ih delivers.current (fun e he => goes e (List.mem_cons_of_mem _ he)) clock
      refine ⟨log :: logs, fun past behind => ?_⟩
      cases past with
      | nil => exact ⟨rfl, accounts_nil fun _ => rfl⟩
      | cons e' past =>
          obtain ⟨rfl, shorter⟩ := List.cons_prefix_cons.mp behind
          obtain ⟨events', accounts⟩ := later past shorter
          simp only [List.length_cons, List.take_succ_cons, List.flatten_cons]
          refine ⟨?_, .trans ⟨delivers.accounts.apt, delivers.accounts.course⟩ accounts⟩
          rw [List.map_append, delivers.posted, events']
          rfl

omit [Host σ] in
/-- What was noted of a link that was opened since and is open. -/
theorem Accounts.of_open (accounts : Accounts log n m) (unopened : n.link? k = none) {l : Link}
    (found : m.link? k = some l) : Notice.about k log = .opened k :: Course.met l.remote := by
  have path := accounts.course k
  rw [course_of_open found] at path
  by_cases new : n.nextLink ≤ k.number
  · rw [course_of_new unopened new] at path
    obtain ⟨-, ahead⟩ | ⟨peer, station, ⟨noted, running⟩ | ⟨-, closed⟩⟩ := path.of_ahead
    · cases ahead
    · cases running
      exact noted
    · cases closed
  · rw [course_of_closed unopened (Nat.lt_of_not_le new)] at path
    cases path.of_over.2

omit [Host σ] in
/-- What was noted of a link that was opened since and was closed. -/
theorem Accounts.of_closed (accounts : Accounts log n m) (unopened : n.link? k = none)
    (closed : m.link? k = none) (new : n.nextLink ≤ k.number) (known : k.number < m.nextLink) :
    ∃ peer station,
      Notice.about k log = .opened k :: Course.met peer ++ [.dropped peer station] := by
  have path := accounts.course k
  rw [course_of_new unopened new, course_of_closed closed known] at path
  obtain ⟨-, ahead⟩ | ⟨peer, station, ⟨-, running⟩ | ⟨noted, -⟩⟩ := path.of_ahead
  · cases ahead
  · cases running
  · exact ⟨peer, station, noted⟩

omit [Host σ] in
/-- Nothing was noted of a link that is still to be opened. -/
theorem Accounts.of_unopened (accounts : Accounts log n m) (unopened : n.link? k = none)
    (none : m.link? k = none) (ahead : m.nextLink ≤ k.number) : Notice.about k log = [] := by
  have path := accounts.course k
  rw [course_of_new none ahead] at path
  by_cases new : n.nextLink ≤ k.number
  · rw [course_of_new unopened new] at path
    obtain ⟨nothing, -⟩ | ⟨peer, station, ⟨-, running⟩ | ⟨-, closed⟩⟩ := path.of_ahead
    · exact nothing
    · cases running
    · cases closed
  · rw [course_of_closed unopened (Nat.lt_of_not_le new)] at path
    exact path.of_over.1

/-- In every history in which the clock does not run back and the node is not stopped, whatever an
application has it do meanwhile, each pass ends when exactly those events were told that had been put
on the agenda before it began, once each and in the order in which they were put there.

All events can be noted in logs, one for each input, so that an event has a link exactly if it tells
of one.  At any time what was noted of an open link is that it was opened, and then who its peer is,
once that is known.  Of a link that was closed it is the same, and at last that it was closed, with
the peer that it had.  Of a link that was not opened yet nothing was noted. -/
theorem events_told_in_order (arranges : p.OnlyArranges) (new : n.links = []) (none : n.agenda = {})
    (events : List (σ × Input α)) (goes : ∀ e ∈ events, e.2 ≠ .stop)
    (clock : (passTimes events).Pairwise (· ≤ ·)) :
    (∀ past host now, past ++ [(host, .execute now)] <+: events →
      n.told p (past ++ [(host, .execute now)]) = n.posted p past) ∧
    ∃ logs : List (List Notice), ∀ past, past <+: events →
      let m := n.live p past
      let log := (logs.take past.length).flatten
      log.map Notice.event = n.posted p past ∧ (∀ x ∈ log, x.link.isSome = x.event.ofLink) ∧
      ∀ k,
        (∀ l, m.link? k = some l → Notice.about k log = .opened k :: Course.met l.remote) ∧
        (m.link? k = Option.none → n.nextLink ≤ k.number → k.number < m.nextLink →
          ∃ peer station,
            Notice.about k log = .opened k :: Course.met peer ++ [.dropped peer station]) ∧
        (m.link? k = Option.none → m.nextLink ≤ k.number → Notice.about k log = []) := by
  have start : Current n := ⟨.of_new new none, fun i t there => by simp [none] at there⟩
  have clock : (n.agenda.now :: passTimes events).Pairwise (· ≤ ·) := by
    rw [none]
    exact List.pairwise_cons.mpr ⟨fun _ _ => Nat.zero_le _, clock⟩
  have fewer : ∀ past, past <+: events → ∀ e ∈ past, e.2 ≠ .stop :=
    fun past behind e he => goes e (behind.subset he)
  refine ⟨fun past host now behind => ?_, ?_⟩
  · obtain ⟨rest, rfl⟩ := behind
    rw [List.append_assoc] at clock goes
    have told := start.told_pass arranges (fun e he => goes e (List.mem_append_left _ he)) clock
    simpa [none, Agenda.news] using told
  · obtain ⟨logs, accounts⟩ := start.logs arranges goes clock
    refine ⟨logs, fun past behind => ?_⟩
    obtain ⟨events', accounts⟩ := accounts past behind
    refine ⟨events', accounts.apt, fun k => ?_⟩
    have unopened : n.link? k = Option.none := by simp [Node.link?, new]
    exact ⟨fun l => accounts.of_open unopened, accounts.of_closed unopened,
      accounts.of_unopened unopened⟩

/-- The second link is opened in the third pass and closed while that is told in the fourth, so that
it was closed is yet to be told. -/
theorem events_told_in_order_restless :
    let events := comingsAndGoings
    restless.OnlyArranges ∧ newcomer.links = [] ∧ newcomer.agenda = {} ∧
      (∀ e ∈ events, e.2 ≠ .stop) ∧ (passTimes events).Pairwise (· ≤ ·) ∧
      newcomer.told restless events = newcomer.posted restless (events.take 6) ∧
      newcomer.told restless events =
        [.opened ⟨1⟩, .connected 2, .changed 2, .opened ⟨2⟩] ∧
      ∃ log : List Notice, log.map Notice.event =
          [.opened ⟨1⟩, .connected 2, .changed 2, .opened ⟨2⟩, .dropped 0 true] ∧
        Notice.about ⟨1⟩ log = [.opened ⟨1⟩, .connected 2] ∧
        ∃ peer station,
          Notice.about ⟨2⟩ log = .opened ⟨2⟩ :: Course.met peer ++ [.dropped peer station] := by
  intro events
  have arranges : restless.OnlyArranges := by
    refine ⟨fun _ n => .input n (i := .addLink true) nofun nofun,
      fun _ _ _ _ _ => .elsewhere rfl rfl rfl, fun _ e n => ?_⟩
    cases e with
    | opened id => exact .input n (i := .close id) nofun nofun
    | connected | dropped | changed | adjusted | measured | meshId | received =>
        exact .elsewhere rfl rfl rfl
  have goes : ∀ e ∈ events, e.2 ≠ .stop := by
    simp [events, comingsAndGoings]
  have clock : (passTimes events).Pairwise (· ≤ ·) := by decide
  obtain ⟨told, logs, noted⟩ :=
    events_told_in_order (n := newcomer) arranges rfl rfl events goes clock
  obtain ⟨same, -, courses⟩ := noted events (List.prefix_refl events)
  have posted : newcomer.posted restless events =
      [.opened ⟨1⟩, .connected 2, .changed 2, .opened ⟨2⟩, .dropped 0 true] := by decide +kernel
  have known : ((newcomer.live restless events).link? ⟨1⟩).map Link.remote = some 2 := by
    decide +kernel
  obtain ⟨l, found, remote⟩ := Option.map_eq_some_iff.mp known
  have gone : (newcomer.live restless events).link? ⟨2⟩ = none :=
    Option.isNone_iff_eq_none.mp (by decide +kernel)
  have first := (courses ⟨1⟩).1 l found
  rw [remote] at first
  exact ⟨arranges, rfl, rfl, goes, clock, told (events.take 6) _ 6 (List.prefix_refl events),
    by decide +kernel, _, same.trans posted, first,
    (courses ⟨2⟩).2.1 gone (by decide) (by decide +kernel)⟩

end Node

end SpanningMesh
