import SpanningMesh.Proofs.Node.News

/-!
# The course of a link

A link is opened, its peer becomes known at some point or never, and it is closed.  An event tells of
each of these steps.  A `Path` leads from one point of the `Course` of a link to a later one, by the
events that tell of what is between them.

`Notes log a b` says that a node `a` became `b` and put the events of `log` on its agenda meanwhile,
and that the log accounts for the links.  Each of its events tells of a link if it is of that kind,
and those that tell of one lead along its course.  Many operations of a node do not touch the links,
and say nothing of them (`Elsewhere`).
-/

namespace SpanningMesh

open Application (Program)

/-- Whether an event tells how far a link is on its course. -/
def Event.ofLink : Event → Bool
  | opened _ | connected _ | dropped .. => true
  | changed _ | adjusted _ | measured .. | meshId _ | received .. => false

/-- An event, and the link it tells of. -/
structure Notice where
  event : Event
  link : Option LinkId
deriving Repr, DecidableEq

namespace Notice

/-- The events that tell of a link. -/
def about (k : LinkId) (log : List Notice) : List Event :=
  (log.filter (·.link = some k)).map Notice.event

theorem about_append (k : LinkId) (log log' : List Notice) :
    about k (log ++ log') = about k log ++ about k log' := by
  simp [about]

/-- What is noted about one link is all about that link. -/
theorem about_map_self (k : LinkId) (es : List Event) :
    about k (es.map (⟨·, some k⟩)) = es := by
  simp [about, List.filter_map, Function.comp_def]

theorem about_map_of_ne {k : LinkId} {link : Option LinkId} (other : link ≠ some k)
    (es : List Event) : about k (es.map (⟨·, link⟩)) = [] := by
  simp [about, List.filter_map, Function.comp_def, other]

end Notice

/-! ## Courses -/

/-- How far a link is on its course. -/
inductive Course where
  /-- The link is not open yet. -/
  | ahead
  /-- The link is open, to a peer that is 0 until it is known. -/
  | running (peer : UInt32) (station : Bool)
  /-- The link was closed. -/
  | over
deriving Repr, DecidableEq

namespace Course

/-- An event tells that a link is one step further. -/
inductive Step (k : LinkId) : Course → Event → Course → Prop where
  | opens (station : Bool) : Step k .ahead (.opened k) (.running 0 station)
  | connects {peer : UInt32} (known : peer ≠ 0) (station : Bool) :
      Step k (.running 0 station) (.connected peer) (.running peer station)
  | drops (peer : UInt32) (station : Bool) :
      Step k (.running peer station) (.dropped peer station) .over

/-- The way of a link along its course, by the events that tell of it. -/
inductive Path (k : LinkId) : Course → List Event → Course → Prop where
  | stays (c : Course) : Path k c [] c
  | goes {c d e : Course} {x : Event} {xs : List Event} (step : Step k c x d)
      (next : Path k d xs e) : Path k c (x :: xs) e

variable {k : LinkId} {c d e : Course} {x : Event} {xs ys : List Event} {peer : UInt32}
  {station : Bool}

theorem Path.of_step (step : Step k c x d) : Path k c [x] d := .goes step (.stays d)

theorem Path.of_eq (same : d = c) : Path k c [] d := by
  rw [same]
  exact .stays c

/-- Paths are laid end to end. -/
theorem Path.append (first : Path k c xs d) (next : Path k d ys e) : Path k c (xs ++ ys) e := by
  induction first with
  | stays => exact next
  | goes step _ ih => exact .goes step (ih next)

/-- Nothing is told of a link that was closed. -/
theorem Path.of_over (path : Path k .over xs d) : xs = [] ∧ d = .over := by
  cases path with
  | stays => exact ⟨rfl, rfl⟩
  | goes step => cases step

/-- What is told of a link whose peer is known is that it was closed, with this peer. -/
theorem Path.of_known (path : Path k (.running peer station) xs d) (known : peer ≠ 0) :
    xs = [] ∧ d = .running peer station ∨ xs = [.dropped peer station] ∧ d = .over := by
  cases path with
  | stays => exact .inl ⟨rfl, rfl⟩
  | goes step next =>
      cases step with
      | connects => exact absurd rfl known
      | drops =>
          obtain ⟨rfl, rfl⟩ := next.of_over
          exact .inr ⟨rfl, rfl⟩

/-- The event that told who the peer of a link is, if it is known. -/
def met (peer : UInt32) : List Event := if peer = 0 then [] else [.connected peer]

/-- What is told of a link that is open: its peer, once it is known, and that it was closed. -/
theorem Path.of_running (path : Path k (.running 0 station) xs d) :
    ∃ peer, xs = met peer ∧ d = .running peer station ∨
      xs = met peer ++ [.dropped peer station] ∧ d = .over := by
  cases path with
  | stays => exact ⟨0, .inl ⟨rfl, rfl⟩⟩
  | goes step next =>
      cases step with
      | @connects peer known =>
          rcases next.of_known known with ⟨rfl, rfl⟩ | ⟨rfl, rfl⟩
          · exact ⟨peer, .inl ⟨by simp [met, known], rfl⟩⟩
          · exact ⟨peer, .inr ⟨by simp [met, known], rfl⟩⟩
      | drops =>
          obtain ⟨rfl, rfl⟩ := next.of_over
          exact ⟨0, .inr ⟨rfl, rfl⟩⟩

/-- All that is told of a link, from before it was opened. -/
theorem Path.of_ahead (path : Path k .ahead xs d) :
    xs = [] ∧ d = .ahead ∨ ∃ peer station,
      xs = .opened k :: met peer ∧ d = .running peer station ∨
      xs = .opened k :: met peer ++ [.dropped peer station] ∧ d = .over := by
  cases path with
  | stays => exact .inl ⟨rfl, rfl⟩
  | goes step next =>
      cases step with
      | opens station =>
          obtain ⟨peer, ⟨rfl, rfl⟩ | ⟨rfl, rfl⟩⟩ := next.of_running
          · exact .inr ⟨peer, station, .inl ⟨rfl, rfl⟩⟩
          · exact .inr ⟨peer, station, .inr ⟨rfl, rfl⟩⟩

end Course

namespace Link

/-- Who the peer of a link is, and which side opened the link. -/
def ends (l : Link) : UInt32 × Bool := (l.remote, l.station)

/-- A link is the one it was, but its peer may have become known, as some events tell. -/
structure Meets (es : List Event) (l l' : Link) : Prop where
  id : l'.id = l.id
  station : l'.station = l.station
  peer : es = [] ∧ l'.remote = l.remote ∨
    es = [.connected l'.remote] ∧ l.remote = 0 ∧ l'.remote ≠ 0

/-- A link that comes to know its peer tells so once. -/
theorem meets_identify (l : Link) (peer : UInt32) :
    Meets (if (l.identify peer).1 = true then [.connected peer] else []) l (l.identify peer).2 := by
  simp only [identify]
  split
  next news => exact ⟨rfl, rfl, .inr ⟨rfl, news⟩⟩
  · exact ⟨rfl, rfl, .inl ⟨rfl, rfl⟩⟩

variable {es : List Event} {l l' : Link}

/-- What a link tells as it meets its peer is about that link. -/
theorem Meets.ofLink (meets : Meets es l l') : ∀ e ∈ es, e.ofLink = true := by
  rcases meets.peer with ⟨rfl, -⟩ | ⟨rfl, -⟩ <;> simp [Event.ofLink]

/-- A link that meets its peer goes on along its course. -/
theorem Meets.path (meets : Meets es l l') (k : LinkId) :
    Course.Path k (.running l.remote l.station) es (.running l'.remote l'.station) := by
  rw [meets.station]
  rcases meets.peer with ⟨rfl, same⟩ | ⟨rfl, unknown, known⟩
  · exact .of_eq (by rw [same])
  · exact unknown ▸ .of_step (.connects known l.station)

end Link

namespace Node

open Agenda (Brings)

section

variable {σ α : Type} {n m n' : Node σ α} {l l' : Link} {id k : LinkId} {es es' : List Event}
  {e : Event} {busy : TaskId → Prop} {log log' : List Notice}

/-- How far the link with a handle is on its course. -/
def course (n : Node σ α) (k : LinkId) : Course :=
  match n.link? k with
  | some l => .running l.remote l.station
  | none => if k.number < n.nextLink then .over else .ahead

theorem course_of_open (found : n.link? k = some l) : n.course k = .running l.remote l.station := by
  simp only [course, found]

theorem course_of_closed (none : n.link? k = none) (known : k.number < n.nextLink) :
    n.course k = .over := by
  simp only [course, none, if_pos known]

theorem course_of_new (none : n.link? k = none) (new : n.nextLink ≤ k.number) :
    n.course k = .ahead := by
  simp only [course, none, if_neg (Nat.not_lt.mpr new)]

/-- The course of a link depends on its two ends, and on whether its id is taken, alone. -/
theorem course_congr (known : k.number < m.nextLink ↔ k.number < n.nextLink)
    (ends : (m.link? k).map Link.ends = (n.link? k).map Link.ends) : m.course k = n.course k := by
  simp only [course, known]
  cases here : n.link? k with
  | none =>
      rw [here, Option.map_none, Option.map_eq_none_iff] at ends
      simp only [ends]
  | some l =>
      rw [here, Option.map_some, Option.map_eq_some_iff] at ends
      obtain ⟨l', there, same⟩ := ends
      simp only [Link.ends, Prod.mk.injEq] at same
      simp only [there, same.1, same.2]

/-! ## What a node notes -/

/-- A log accounts for what became of the links of a node. -/
structure Accounts (log : List Notice) (n m : Node σ α) : Prop where
  /-- An event tells of a link exactly if it is of that kind. -/
  apt : ∀ x ∈ log, x.link.isSome = x.event.ofLink
  /-- What is told of a link is how it came from where it was. -/
  course : ∀ k, Course.Path k (n.course k) (Notice.about k log) (m.course k)

theorem Accounts.trans (first : Accounts log n m) (next : Accounts log' m n') :
    Accounts (log ++ log') n n' where
  apt x hx := (List.mem_append.mp hx).elim (first.apt x) (next.apt x)
  course k := by
    rw [Notice.about_append]
    exact (first.course k).append (next.course k)

/-- Where no course changes there is nothing to tell. -/
theorem accounts_nil (same : ∀ k, m.course k = n.course k) : Accounts [] n m :=
  ⟨by simp, fun k => .of_eq (same k)⟩

/-- A node became another, and put the events of a log on its agenda meanwhile. -/
structure Notes (log : List Notice) (n m : Node σ α) : Prop extends Accounts log n m where
  brings : Brings (log.map Notice.event) n.agenda m.agenda

theorem Notes.trans (first : Notes log n m) (next : Notes log' m n') : Notes (log ++ log') n n' where
  toAccounts := first.toAccounts.trans next.toAccounts
  brings := by
    rw [List.map_append]
    exact first.brings.trans next.brings

/-- A node became another, and all events that it put on its agenda can be noted. -/
def Recorded (n m : Node σ α) : Prop := ∃ log, Notes log n m

theorem Recorded.trans (first : Recorded n m) (next : Recorded m n') : Recorded n n' := by
  obtain ⟨log, first⟩ := first
  obtain ⟨log', next⟩ := next
  exact ⟨log ++ log', first.trans next⟩

/-- A handle that no event waited under has none waiting later. -/
theorem Recorded.apart (recorded : Recorded n m) {i : TaskId} (apart : n.agenda.Apart i)
    (known : i.number < n.agenda.nextId) : m.agenda.Apart i := by
  obtain ⟨log, notes⟩ := recorded
  exact apart.brings known notes.brings

/-- One link came further on its course, and nothing became of the others. -/
theorem recorded_of_path (id : LinkId) (es es' : List Event) (aside : ∀ e ∈ es, e.ofLink = false)
    (told : ∀ e ∈ es', e.ofLink = true) (brings : Brings (es ++ es') n.agenda m.agenda)
    (path : Course.Path id (n.course id) es' (m.course id))
    (others : ∀ k, k ≠ id → m.course k = n.course k) : Recorded n m := by
  refine ⟨es.map (⟨·, none⟩) ++ es'.map (⟨·, some id⟩), ⟨fun x hx => ?_, fun k => ?_⟩, ?_⟩
  · rcases List.mem_append.mp hx with hx | hx
    · obtain ⟨e, he, rfl⟩ := List.mem_map.mp hx
      simp [aside e he]
    · obtain ⟨e, he, rfl⟩ := List.mem_map.mp hx
      simp [told e he]
  · rw [Notice.about_append, Notice.about_map_of_ne (by simp), List.nil_append]
    by_cases here : k = id
    · subst here
      rw [Notice.about_map_self]
      exact path
    · have other : some id ≠ some k := fun same => here (Option.some.inj same).symm
      rw [Notice.about_map_of_ne other]
      exact .of_eq (others k here)
  · simpa [Function.comp_def] using brings

/-- The links are as they were, and the events that came to wait tell of none. -/
structure Elsewhere (n m : Node σ α) : Prop where
  links : m.links = n.links
  nextLink : m.nextLink = n.nextLink
  brings : ∃ es, (∀ e ∈ es, e.ofLink = false) ∧ Brings es n.agenda m.agenda

theorem Elsewhere.plan {f : Agenda (Action α) → Agenda (Action α)}
    (brings : Brings [] n.agenda (f n.agenda)) : Elsewhere n (n.plan f) :=
  ⟨rfl, rfl, [], by simp, brings⟩

theorem Elsewhere.of_eq (links : m.links = n.links) (nextLink : m.nextLink = n.nextLink)
    (agenda : m.agenda = n.agenda) : Elsewhere n m :=
  ⟨links, nextLink, [], by simp, agenda ▸ .refl _⟩

theorem Elsewhere.refl (n : Node σ α) : Elsewhere n n := .of_eq rfl rfl rfl

theorem Elsewhere.trans (first : Elsewhere n m) (next : Elsewhere m n') : Elsewhere n n' := by
  obtain ⟨es, aside, brings⟩ := first.brings
  obtain ⟨es', aside', brings'⟩ := next.brings
  refine ⟨next.links.trans first.links, next.nextLink.trans first.nextLink, es ++ es', ?_,
    brings.trans brings'⟩
  exact fun e he => (List.mem_append.mp he).elim (aside e) (aside' e)

/-- What happens elsewhere leaves every course as it is. -/
theorem Elsewhere.course (elsewhere : Elsewhere n m) (k : LinkId) : m.course k = n.course k :=
  course_congr (by rw [elsewhere.nextLink]) (by rw [Node.link?, Node.link?, elsewhere.links])

/-- What happens elsewhere is recorded without a notice about a link. -/
theorem Elsewhere.recorded (elsewhere : Elsewhere n m) : Recorded n m := by
  obtain ⟨es, aside, brings⟩ := elsewhere.brings
  exact recorded_of_path ⟨0⟩ es [] aside (by simp) (by simpa using brings)
    (.of_eq (elsewhere.course _)) fun k _ => elsewhere.course k

theorem Recorded.plan (recorded : Recorded n m) {f : Agenda (Action α) → Agenda (Action α)}
    (brings : Brings [] m.agenda (f m.agenda)) : Recorded n (m.plan f) :=
  recorded.trans (Elsewhere.plan brings).recorded

/-- A link took the place of the one that it was. -/
theorem recorded_of_meets (found : n.link? id = some l) (meets : l.Meets es l')
    (links : m.links = (n.putLink l').links) (nextLink : m.nextLink = n.nextLink)
    (brings : Brings es n.agenda m.agenda) : Recorded n m := by
  have at_id : l'.id = id := meets.id.trans (id_of_link? found)
  have looked : ∀ k, m.link? k = (n.link? k).map fun x => if x.id = l'.id then l' else x := by
    intro k
    rw [← link?_putLink, Node.link?, Node.link?, links]
  refine recorded_of_path id [] es (by simp) meets.ofLink (by simpa using brings) ?_ ?_
  · have there : m.link? id = some l' := by
      rw [looked, found, Option.map_some, if_pos meets.id.symm]
    rw [course_of_open found, course_of_open there]
    exact meets.path id
  · intro k other
    refine course_congr (by rw [nextLink]) ?_
    rw [looked]
    cases here : n.link? k with
    | none => rfl
    | some x =>
        have apart : x.id ≠ l'.id := by
          rw [id_of_link? here, at_id]
          exact other
        rw [Option.map_some, if_neg apart]

/-- A link may change in what does not concern its course. -/
theorem recorded_putLink (found : n.link? id = some l) (same : l'.id = l.id)
    (ends : l'.ends = l.ends) : Recorded n (n.putLink l') := by
  obtain ⟨remote, station⟩ := Prod.mk.inj ends
  exact recorded_of_meets found ⟨same, station, .inl ⟨rfl, remote⟩⟩ rfl rfl (.refl _)

/-! ## What is elsewhere than in the links -/

theorem elsewhere_schedule (n : Node σ α) (aside : e.ofLink = false) : Elsewhere n (n.schedule e) :=
  ⟨rfl, rfl, [e], by simpa using aside, Agenda.brings_addOnce n.agenda e⟩

theorem elsewhere_hastenAnnouncement (n : Node σ α) : Elsewhere n n.hastenAnnouncement := by
  simp only [hastenAnnouncement]
  split
  · exact .plan (Agenda.brings_force n.agenda _)
  · exact .refl n

theorem elsewhere_foldl_force (ls : List Link) (n : Node σ α) :
    Elsewhere n (n.plan fun a => ls.foldl (fun a l => (a.force l.tasks.exchange).2) a) := by
  induction ls generalizing n with
  | nil => exact .refl n
  | cons l ls ih =>
      exact .trans (.plan (Agenda.brings_force n.agenda l.tasks.exchange))
        (ih (n.plan fun a => (a.force l.tasks.exchange).2))

theorem elsewhere_hastenExchanges (n : Node σ α) (except : Option LinkId) :
    Elsewhere n (n.hastenExchanges except) :=
  elsewhere_foldl_force _ n

theorem elsewhere_setElection (n : Node σ α) (c : Candidacy) (e : Election) :
    Elsewhere n (n.setElection c e) := by
  simp only [setElection]
  refine .trans ?_ (elsewhere_hastenAnnouncement _)
  split
  · exact .of_eq rfl rfl rfl
  · refine .trans ?_ (elsewhere_schedule _ rfl)
    exact .of_eq rfl rfl rfl

theorem elsewhere_hearAnnouncement (n : Node σ α) (a : Announcement) :
    Elsewhere n (n.hearAnnouncement a) := by
  simp only [hearAnnouncement]
  split
  · exact .refl n
  · split
    · exact .refl n
    · exact elsewhere_setElection n _ _

theorem elsewhere_losePeer (n : Node σ α) (peer : UInt32) : Elsewhere n (n.losePeer peer) := by
  simp only [losePeer]
  split
  · exact .refl n
  · split
    · exact .refl n
    · exact elsewhere_setElection n _ _

theorem elsewhere_addTask (n : Node σ α) (interval : Nat) (runs : Runs) (a : α) :
    Elsewhere n (n.addTask interval runs a).2 :=
  ⟨rfl, rfl, [], by simp, Agenda.brings_insert n.agenda interval runs false rfl⟩

theorem elsewhere_joinElection (n : Node σ α) (own : UInt16) :
    Elsewhere n (n.joinElection own) := by
  simp only [joinElection]
  split
  · exact .refl n
  · exact ⟨rfl, rfl, [], by simp, Agenda.brings_insert n.agenda _ .forever false rfl⟩

/-! ## The tasks of links -/

/-- No event waits under the handle of a task of a link. -/
theorem InStep.apart (h : InStep busy n) (there : l ∈ n.links) {d : TaskId × Action α}
    (hd : d ∈ l.tasks.duties l.id) : n.agenda.Apart d.1 := by
  intro t mem
  have found := Agenda.find?_of_mem h.tidy.nodup mem
  rw [h.staffed.action_eq (mem_duties.mpr ⟨l, there, hd⟩) found]
  have link := LinkTasks.link?_of_mem_duties hd
  cases action : d.2 with
  | tell | announce | application =>
      rw [action] at link
      cases link
  | exchange | timeout | read | send | setClock => rfl

theorem elsewhere_restReading (h : InStep busy n) (id : LinkId) :
    Elsewhere n (n.restReading id) := by
  simp only [restReading]
  split
  · exact .refl n
  next l found =>
    exact .plan (h.apart (mem_links_of_link? found) (l.tasks.read_mem_duties l.id)).disable

theorem elsewhere_setClock (h : InStep busy n) (id : LinkId) (offset : Int32) :
    Elsewhere n (n.setClock id offset) := by
  have adjusted : Elsewhere n (n.adjustTime offset) := .of_eq rfl rfl rfl
  simp only [setClock]
  refine .trans ?_ (elsewhere_schedule _ rfl)
  split
  · exact adjusted
  next task found =>
    obtain ⟨l, there, clock⟩ := Option.bind_eq_some_iff.mp found
    have apart := h.apart (mem_links_of_link? there) (l.tasks.clock_mem_duties clock l.id)
    refine adjusted.trans ?_
    split
    · exact .plan (apart.postpone _)
    · exact .plan (Agenda.brings_force _ task)

/-- The tasks of a link that is being opened tell nothing. -/
theorem brings_addLinkTasks (h : InStep busy n) (id : LinkId) (station : Bool) :
    Brings [] n.agenda (n.addLinkTasks id station).2.agenda := by
  let s := n.settings
  let a := (n.agenda.addPersistent s.exchangeInterval .forever (.exchange id)).2
  let b := (((a.addPersistent s.answerTimeout (.times 1) (.timeout id)).2.addPersistent 0 .forever
    (.read id)).2.addPersistent s.sendInterval .forever (.send id)).2
  have exchange : Brings [] n.agenda a := Agenda.brings_insert n.agenda _ _ true rfl
  have others : Brings [] a b :=
    ((Agenda.brings_insert a _ _ true rfl).trans (Agenda.brings_insert _ _ _ true rfl)).trans
      (Agenda.brings_insert _ _ _ true rfl)
  have known : n.agenda.nextId < a.nextId := Nat.lt_succ_self _
  have apart : b.Apart ⟨n.agenda.nextId⟩ :=
    (Agenda.apart_insert h.tidy.fresh _ _ true rfl).brings known others
  have armed : Brings [] b (if station then b.enable ⟨n.agenda.nextId⟩
      else b.enableDelayed ⟨n.agenda.nextId⟩ s.exchangeDelay).2 := by
    split
    · exact apart.enable
    · exact apart.enableDelayed _ (Nat.lt_of_lt_of_le known others.next)
  exact (exchange.trans others).trans armed

/-- The task that sets the clock of a link tells nothing. -/
theorem brings_addClockTask (h : InStep busy n) (l : Link) :
    Brings [] n.agenda (n.addClockTask l).2.agenda := by
  cases clock : l.tasks.timeSync with
  | some task =>
      simp only [addClockTask, clock]
      exact .refl _
  | none =>
      rw [(agenda_addClockTask n clock).2.2]
      have silent : (.setClock l.id : Action α).event? = none := rfl
      have added := Agenda.brings_insert n.agenda n.settings.clockInterval .forever true silent
      have apart := Agenda.apart_insert h.tidy.fresh n.settings.clockInterval .forever true silent
      refine added.trans ?_
      split
      · exact apart.enable
      · exact apart.enableDelayed _ (Nat.lt_succ_self _)

end

section

variable {σ α : Type} [Host σ] {n m s : Node σ α} {l l' : Link} {id k : LinkId} {es : List Event}
  {busy : TaskId → Prop}

/-! ## Opening and closing -/

omit [Host σ] in
/-- A new link is recorded with the notice that it was opened. -/
theorem recorded_addLink (h : InStep busy n) (station : Bool) :
    Recorded n (n.addLink station).2 := by
  let id : LinkId := ⟨n.nextLink⟩
  let m := (n.opened station).schedule (.opened id)
  have new : n.link? id = none := by
    refine List.find?_eq_none.mpr fun l hl => ?_
    have known := h.fresh l hl
    simp only [decide_eq_true_eq]
    exact fun same => Nat.lt_irrefl _ (same ▸ known)
  have brings : Brings [.opened id] n.agenda m.agenda :=
    (brings_addLinkTasks h id station).trans (Agenda.brings_addOnce _ _)
  obtain ⟨l, links, same, unknown, side⟩ : ∃ l : Link, m.links = n.links ++ [l] ∧ l.id = id ∧
      l.remote = 0 ∧ l.station = station := ⟨_, rfl, rfl, rfl, rfl⟩
  have looked : ∀ k, m.link? k = (n.link? k).or (if id = k then some l else none) := by
    intro k
    rw [Node.link?, links, List.find?_append, List.find?_singleton, same]
    simp [Node.link?]
  have opened : Recorded n m := by
    refine recorded_of_path id [] _ (by simp) (by simp [Event.ofLink]) brings ?_
      fun k other => ?_
    · have there : m.link? id = some l := by simp [looked, new]
      rw [course_of_new new (Nat.le_refl _), course_of_open there, unknown, side]
      exact .of_step (.opens station)
    · refine course_congr ?_ (by simp [looked, Ne.symm other])
      have apart : k.number ≠ n.nextLink := fun same => other (congrArg LinkId.mk same)
      change k.number < n.nextLink + 1 ↔ k.number < n.nextLink
      omega
  exact opened.trans (elsewhere_hastenAnnouncement m).recorded

/-- The tasks of a link that is closed leave the agenda, and no event does. -/
theorem brings_dropLink (h : InStep busy n) (there : l ∈ n.links) :
    Brings [] n.agenda (n.dropLink l).agenda := by
  refine Agenda.brings_foldl_erase fun i hi => ?_
  rw [← LinkTasks.map_fst_duties (α := α) l.tasks l.id] at hi
  obtain ⟨d, hd, rfl⟩ := List.mem_map.mp hi
  exact h.apart there hd

/-- A link that closes is recorded with the notice that it was dropped. -/
theorem recorded_close (h : InStep busy n) (id : LinkId) : Recorded n (n.close id).2 := by
  cases found : n.link? id with
  | none =>
      simp only [close, found]
      exact (Elsewhere.refl n).recorded
  | some l =>
      have there := mem_links_of_link? found
      let m := if l.subtree.isEmpty then n.dropLink l
        else ((n.dropLink l).hastenExchanges none).schedule (.changed l.remote)
      have closed : (n.close id).2 = (m.schedule (.dropped l.remote l.station)).losePeer l.remote := by
        simp only [close, found]
        rfl
      have aside : Elsewhere (n.dropLink l) m := by
        simp only [m]
        split
        · exact .refl _
        · exact (elsewhere_hastenExchanges _ none).trans (elsewhere_schedule _ rfl)
      obtain ⟨es, others, brings⟩ := aside.brings
      have known : id.number < n.nextLink := id_of_link? found ▸ h.fresh l there
      have links : (m.schedule (.dropped l.remote l.station)).links = (n.close id).2.links := by
        rw [closed, (elsewhere_losePeer _ _).links]
      have told : Recorded n (m.schedule (.dropped l.remote l.station)) := by
        refine recorded_of_path id es _ others (by simp [Event.ofLink])
          (((brings_dropLink h there).trans brings).trans (Agenda.brings_addOnce _ _)) ?_ fun k other => ?_
        · have gone : (m.schedule (.dropped l.remote l.station)).link? id = none := by
            rw [Node.link?, links]
            exact link?_close n id
          have next : id.number < (m.schedule (.dropped l.remote l.station)).nextLink :=
            aside.nextLink.symm ▸ known
          rw [course_of_open found, course_of_closed gone next]
          exact .of_step (.drops _ _)
        · refine course_congr (by rw [show Node.nextLink (m.schedule _) = n.nextLink from
            aside.nextLink]) ?_
          rw [Node.link?, links]
          exact congrArg _ (link?_close_of_ne other)
      rw [closed]
      exact told.trans (elsewhere_losePeer _ _).recorded

end

end Node

end SpanningMesh
