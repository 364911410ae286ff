import SpanningMesh.Proofs.Node.Staff

/-!
# Links and their tasks stay in step

Links open and close in many places, often while one of their own tasks runs, and the clock task of
a link comes later than the others.  A node is `InStep` if its agenda has just the tasks of its open
links on duty, and each link is where its tasks say that it is.

Moves keep a node in step, and so do opening a link, taking bytes in, stopping, and what a pass does
to a task before and after its action.  None of them asks whether the actions of some tasks run
meanwhile.
-/

namespace SpanningMesh

open Application (Program)

namespace Link

/-- A link is who it was and has the tasks that it was opened with, and nothing came in, so that what
is left of what waited is the end of it. -/
structure Follows (l l' : Link) : Prop where
  id : l'.id = l.id
  exchange : l'.tasks.exchange = l.tasks.exchange
  read : l'.tasks.read = l.tasks.read
  send : l'.tasks.send = l.tasks.send
  inbox : l'.inbox <:+ l.inbox
  phases : l.phase ≠ .closing ∧ l.Timed → l'.phase ≠ .closing ∧ l'.Timed

variable {l l' : Link} {clock : TaskId}

theorem Follows.refl (l : Link) : Follows l l :=
  ⟨rfl, rfl, rfl, rfl, List.suffix_rfl, fun phases => phases⟩

theorem Follows.trans {l'' : Link} (first : Follows l l') (next : Follows l' l'') :
    Follows l l'' where
  id := next.id.trans first.id
  exchange := next.exchange.trans first.exchange
  read := next.read.trans first.read
  send := next.send.trans first.send
  inbox := next.inbox.trans first.inbox
  phases := fun phases => next.phases (first.phases phases)

/-- A link that took note of something goes on where it was. -/
theorem Noted.follows (h : Noted l l') : Follows l l' where
  id := h.id
  exchange := by rw [h.tasks]
  read := by rw [h.tasks]
  send := by rw [h.tasks]
  inbox := h.inbox
  phases := fun phases => ⟨fun closing => phases.1 (h.phase closing), h.timed phases.2⟩

/-- A link that accepted its first tree goes on where it was, with one task more. -/
theorem Settled.follows (h : Settled clock l l') : Follows l l' where
  id := h.id
  exchange := by rw [h.tasks]
  read := by rw [h.tasks]
  send := by rw [h.tasks]
  inbox := h.inbox
  phases := fun _ => by simp [Timed, h.phase, h.tasks]

end Link

/-! ## Drains -/

namespace Outbox

variable {τ : Type} {t : Transport τ} {q q' : Outbox} {s s' : τ} {report report' : DrainReport}

/-- Nothing waits where nothing can be started. -/
theorem isEmpty_of_start (h : q.start = none) : q.isEmpty = true := by
  simp only [start] at h
  split at h
  · cases h
  next current =>
    split at h
    · cases h
    next express =>
      split at h
      · cases h
      next regular => simp [isEmpty, length, current, express, regular]

/-- A drain that was not blocked leaves nothing. -/
theorem isEmpty_of_drainOnto (h : q.drainOnto t s report = (.ok report', q', s'))
    (done : report'.blocked = false) : q'.isEmpty = true := by
  fun_induction Outbox.drainOnto t q s report with
  | case1 q s report started =>
      cases h
      exact isEmpty_of_start started
  | case2 =>
      cases h
      cases done
  | case3 =>
      cases h
      cases done
  | case4 q s report frame q' started space room offered s' wrote some finished ih =>
      exact ih h
  | case5 => cases h

end Outbox

namespace Node

section

variable {σ α : Type} {n m : Node σ α} {l l' k : Link} {d : TaskId × Action α}

/-- The duties of the tasks of all links. -/
def duties (n : Node σ α) : List (TaskId × Action α) :=
  n.links.flatMap fun l => l.tasks.duties l.id

/-- A node has the duties of its links. -/
theorem mem_duties : d ∈ n.duties ↔ ∃ l ∈ n.links, d ∈ l.tasks.duties l.id := List.mem_flatMap

/-- The links and the agenda of a node go together, while the actions of some tasks run. -/
structure InStep (busy : TaskId → Prop) (n : Node σ α) : Prop where
  tidy : n.agenda.Tidy busy
  staffed : n.agenda.Staffed n.duties
  /-- Links have handles of their own. -/
  different : n.linkIds.Nodup
  /-- The next handle is a new one. -/
  fresh : ∀ l ∈ n.links, l.id.number < n.nextLink
  /-- Every link waits for its next exchange. -/
  ready : ∀ l ∈ n.links, n.agenda.isEnabled l.tasks.exchange = true
  /-- A link exchanges trees before it reads. -/
  order : ∀ l ∈ n.links, l.tasks.exchange.number < l.tasks.read.number
  phases : ∀ l ∈ n.links, l.phase ≠ .closing ∧ l.Timed

variable {busy : TaskId → Prop} (h : InStep busy n)

include h

/-- A task is the task of one link only, and for one thing. -/
theorem InStep.eq_of_task (hl : l ∈ n.links) {d' : TaskId × Action α} (hd : d ∈ l.tasks.duties l.id)
    (hk : k ∈ n.links) (hd' : d' ∈ k.tasks.duties k.id) (same : d.1 = d'.1) : l = k ∧ d = d' := by
  have one : d = d' :=
    h.staffed.eq_of_fst_eq (mem_duties.mpr ⟨l, hl, hd⟩) (mem_duties.mpr ⟨k, hk, hd'⟩) same
  have link := LinkTasks.link?_of_mem_duties hd
  rw [one, LinkTasks.link?_of_mem_duties hd'] at link
  exact ⟨eq_of_id_eq h.different hl hk (Option.some.inj link).symm, one⟩

/-- The tasks of a link were all numbered before. -/
theorem InStep.lt_nextId (hl : l ∈ n.links) (hd : d ∈ l.tasks.duties l.id) :
    d.1.number < n.agenda.nextId :=
  h.staffed.lt_nextId h.tidy.fresh (mem_duties.mpr ⟨l, hl, hd⟩)

/-- Two duties are two tasks. -/
theorem InStep.task_ne (hl : l ∈ n.links) {e : TaskId × Action α} (hd : d ∈ l.tasks.duties l.id)
    (hk : k ∈ n.links) (he : e ∈ k.tasks.duties k.id) (other : d.2 ≠ e.2) : d.1 ≠ e.1 :=
  fun same => other ((h.eq_of_task hl hd hk he same).2 ▸ rfl)

/-! ## What keeps a node in step -/

theorem InStep.of_eq (links : m.links = n.links) (nextLink : m.nextLink = n.nextLink)
    (agenda : m.agenda = n.agenda) : InStep busy m where
  tidy := agenda ▸ h.tidy
  staffed := by
    rw [duties, links, agenda]
    exact h.staffed
  different := by
    rw [linkIds, links]
    exact h.different
  fresh := by
    rw [links, nextLink]
    exact h.fresh
  ready := by
    rw [links, agenda]
    exact h.ready
  order := links ▸ h.order
  phases := links ▸ h.phases

/-- A change of the agenda keeps a node in step if it leaves the duties and the exchanges as they
are. -/
theorem InStep.plan {busy' : TaskId → Prop} {f : Agenda (Action α) → Agenda (Action α)}
    (tidy : (f n.agenda).Tidy busy') (staffed : (f n.agenda).Staffed n.duties)
    (ready : ∀ l ∈ n.links, n.agenda.isEnabled l.tasks.exchange = true →
      (f n.agenda).isEnabled l.tasks.exchange = true) : InStep busy' (n.plan f) :=
  ⟨tidy, staffed, h.different, h.fresh, fun l hl => ready l hl (h.ready l hl), h.order, h.phases⟩

/-- A link with the same tasks takes the place of the one it was. -/
theorem InStep.putLink (there : l ∈ n.links) (id : l'.id = l.id) (tasks : l'.tasks = l.tasks)
    (phases : l'.phase ≠ .closing ∧ l'.Timed) : InStep busy (n.putLink l') := by
  have old : ∀ k ∈ (n.putLink l').links, ∃ k' ∈ n.links, k.id = k'.id ∧ k.tasks = k'.tasks := by
    intro k hk
    rcases mem_links_putLink hk with rfl | ⟨mem, -⟩
    · exact ⟨l, there, id, tasks⟩
    · exact ⟨k, mem, rfl, rfl⟩
  refine ⟨h.tidy, h.staffed.congr fun d => ?_, linkIds_putLink n l' ▸ h.different, ?_, ?_, ?_, ?_⟩
  · rw [mem_duties, mem_duties]
    constructor
    · rintro ⟨k, hk, hd⟩
      obtain ⟨k', hk', id, tasks⟩ := old k hk
      exact ⟨k', hk', id ▸ tasks ▸ hd⟩
    · rintro ⟨k, hk, hd⟩
      by_cases same : k.id = l.id
      · obtain rfl := eq_of_id_eq h.different hk there same
        exact ⟨l', mem_putLink hk id, by rwa [id, tasks]⟩
      · exact ⟨k, mem_putLink_of_ne hk (id ▸ same), hd⟩
  · intro k hk
    obtain ⟨k', hk', id, -⟩ := old k hk
    exact id ▸ h.fresh k' hk'
  · intro k hk
    obtain ⟨k', hk', -, tasks⟩ := old k hk
    exact tasks ▸ h.ready k' hk'
  · intro k hk
    obtain ⟨k', hk', -, tasks⟩ := old k hk
    exact tasks ▸ h.order k' hk'
  · intro k hk
    rcases mem_links_putLink hk with rfl | ⟨mem, -⟩
    · exact phases
    · exact h.phases k mem

theorem InStep.enable (i : TaskId) : InStep busy (n.plan fun a => (a.enable i).2) :=
  h.plan (h.tidy.enable i) (h.staffed.enable i) fun l _ =>
    (Agenda.wakes_enable True n.agenda i l.tasks.exchange).stays

/-- Whatever is put off or brought forward, it stays enabled. -/
theorem InStep.postpone (i : TaskId) (due : Agenda (Action α) → Nat) :
    InStep busy (n.plan fun a => (a.postpone i (due a)).2) :=
  h.plan (h.tidy.postpone i _) (h.staffed.postpone i _) fun l _ =>
    (Agenda.wakes_postpone n.agenda i l.tasks.exchange fun _ => .inl trivial).stays

/-- A task other than an exchange may be disabled. -/
theorem InStep.disable (hl : l ∈ n.links) (hd : d ∈ l.tasks.duties l.id)
    (other : ∀ id, d.2 ≠ .exchange id) : InStep busy (n.plan fun a => (a.disable d.1).2) := by
  refine h.plan (h.tidy.disable _) (h.staffed.disable _) fun k hk on => ?_
  have apart : k.tasks.exchange ≠ d.1 :=
    h.task_ne hk (k.tasks.exchange_mem_duties k.id) hl hd (other k.id).symm
  obtain ⟨t, found, on⟩ := Agenda.isEnabled_iff.mp on
  exact Agenda.isEnabled_iff.mpr ⟨t, by rw [Agenda.find?_disable, if_neg apart, found], on⟩

omit h in
/-- The duties once a link has its clock task. -/
theorem mem_duties_settle (different : n.linkIds.Nodup) (there : l ∈ n.links)
    (links : m.links = n.links) {clock : TaskId} (new : l.tasks.timeSync = none)
    (settled : l.Settled clock l') :
    d ∈ (m.putLink l').duties ↔ d ∈ n.duties ++ [(clock, .setClock l.id)] := by
  have mine : d ∈ l'.tasks.duties l'.id ↔
      d ∈ l.tasks.duties l.id ∨ d = (clock, .setClock l.id) := by
    rw [settled.tasks, settled.id, LinkTasks.mem_duties, LinkTasks.mem_duties]
    simp [new, or_assoc]
  rw [List.mem_append, List.mem_singleton, mem_duties, mem_duties]
  constructor
  · rintro ⟨k, hk, hd⟩
    rcases mem_links_putLink hk with rfl | ⟨mem, -⟩
    · exact (mine.mp hd).imp_left fun hd => ⟨l, there, hd⟩
    · exact .inl ⟨k, links ▸ mem, hd⟩
  · rintro (⟨k, hk, hd⟩ | new)
    · by_cases same : k.id = l.id
      · obtain rfl := eq_of_id_eq different hk there same
        exact ⟨l', mem_putLink (links ▸ there) settled.id, mine.mpr (.inl hd)⟩
      · exact ⟨k, mem_putLink_of_ne (links ▸ hk) (settled.id ▸ same), hd⟩
    · exact ⟨l', mem_putLink (links ▸ there) settled.id, mine.mpr (.inr new)⟩

/-- Without a link there are the duties of the others. -/
theorem InStep.mem_duties_drop (there : l ∈ n.links)
    (links : m.links = n.links.filter (·.id ≠ l.id)) :
    d ∈ m.duties ↔ d ∈ n.duties.filter fun d => d.1 ∉ l.tasks.all := by
  have task : d.1 ∈ l.tasks.all ↔ ∃ d' ∈ l.tasks.duties (α := α) l.id, d'.1 = d.1 := by
    rw [← LinkTasks.map_fst_duties (α := α) l.tasks l.id, List.mem_map]
  simp only [List.mem_filter, mem_duties, links, decide_eq_true_eq, task]
  constructor
  · rintro ⟨k, ⟨hk, other⟩, hd⟩
    refine ⟨⟨k, hk, hd⟩, ?_⟩
    rintro ⟨d', hd', same⟩
    exact other (congrArg Link.id (h.eq_of_task there hd' hk hd same).1).symm
  · rintro ⟨⟨k, hk, hd⟩, left⟩
    refine ⟨k, ⟨hk, fun same => left ?_⟩, hd⟩
    obtain rfl := eq_of_id_eq h.different hk there same
    exact ⟨d, hd, rfl⟩

end

section

variable {σ α : Type} [Host σ] {off : LinkId → Prop} {n m : Node σ α} {l l' k : Link}
  {busy : TaskId → Prop}

/-! ### Moves -/

variable {id : LinkId}

omit [Host σ] in
/-- The clock task of a link is inserted once and enabled at that. -/
theorem agenda_addClockTask (n : Node σ α) (new : l.tasks.timeSync = none) :
    (n.addClockTask l).2.links = n.links ∧ (n.addClockTask l).2.nextLink = n.nextLink ∧
      (n.addClockTask l).2.agenda =
        let a := (n.agenda.addPersistent n.settings.clockInterval .forever (.setClock l.id)).2
        if l.station then (a.enable ⟨n.agenda.nextId⟩).2
        else (a.enableDelayed ⟨n.agenda.nextId⟩ n.settings.clockDelay).2 := by
  simp only [addClockTask, new, true_and]
  split <;> rfl

/-- A move does to the agenda what deeds do. -/
theorem Move.deeds (move : Move off n m) :
    ∃ deeds : List (Agenda.Deed (Action α)), m.agenda = deeds.foldl Agenda.after n.agenda := by
  cases move with
  | elsewhere _ _ _ agenda => exact ⟨[], agenda⟩
  | add interval runs own => exact ⟨[.insert interval runs false _], rfl⟩
  | force id => exact ⟨[.force id], rfl⟩
  | delay there which delay => exact ⟨[.delay _ delay], rfl⟩
  | await there delay => exact ⟨[.restartDelayed _ delay], rfl⟩
  | answered there => exact ⟨[.disable _], rfl⟩
  | put there noted => exact ⟨[], rfl⟩
  | queue there q => exact ⟨[.enable _], rfl⟩
  | @settle l l' there new settled =>
      have agenda : ((n.addClockTask l).2.putLink l').agenda = _ := (agenda_addClockTask n new).2.2
      rw [agenda]
      by_cases station : l.station = true
      · rw [if_pos station]
        exact ⟨[.insert _ _ true _, .enable ⟨n.agenda.nextId⟩], rfl⟩
      · rw [if_neg station]
        exact ⟨[.insert _ _ true _, .enableDelayed ⟨n.agenda.nextId⟩ _], rfl⟩
  | @drop l there =>
      refine ⟨l.tasks.all.map .remove, ?_⟩
      rw [List.foldl_map]
      rfl

theorem Move.now (move : Move off n m) : m.agenda.now = n.agenda.now := by
  obtain ⟨deeds, agenda⟩ := move.deeds
  rw [agenda, Agenda.now_foldl_after]

/-- A move brings no link. -/
theorem Move.linkIds (move : Move off n m) : m.linkIds.Sublist n.linkIds := by
  cases move with
  | elsewhere links =>
      rw [Node.linkIds, links]
      exact .refl _
  | put => exact linkIds_putLink n _ ▸ .refl _
  | queue there q => exact linkIds_putLink n _ ▸ .refl _
  | settle there new =>
      rw [linkIds_putLink, Node.linkIds, (agenda_addClockTask n new).1]
      exact .refl _
  | drop => exact List.filter_sublist.map _
  | add | force | delay | await | answered => exact .refl _

/-- A move opens no link. -/
theorem Move.nextLink (move : Move off n m) : m.nextLink = n.nextLink := by
  cases move with
  | elsewhere _ nextLink => exact nextLink
  | settle there new => exact (agenda_addClockTask n new).2.1
  | put | queue | drop | add | force | delay | await | answered => rfl

theorem Move.settings (move : Move off n m) : m.settings = n.settings := by
  cases move with
  | elsewhere _ _ settings => exact settings
  | @settle l l' there new =>
      rw [show ((n.addClockTask l).2.putLink l').settings = (n.addClockTask l).2.settings from rfl]
      simp only [addClockTask, new]
  | put | queue | drop | add | force | delay | await | answered => rfl

/-- Every link was there before, and what it has to send is what it had, or the task that sends was
enabled. -/
theorem Move.follows (move : Move off n m) (hk : k ∈ m.links) :
    ∃ l ∈ n.links, l.Follows k ∧
      (k.outbox = l.outbox ∨ m.agenda = (n.agenda.enable l.tasks.send).2) := by
  cases move with
  | elsewhere links => exact ⟨k, links ▸ hk, .refl k, .inl rfl⟩
  | put there noted =>
      rcases mem_links_putLink hk with rfl | ⟨mem, -⟩
      · exact ⟨_, there, noted.follows, .inl noted.outbox⟩
      · exact ⟨k, mem, .refl k, .inl rfl⟩
  | queue there q =>
      rcases mem_links_putLink hk with rfl | ⟨mem, -⟩
      · exact ⟨_, there, ⟨rfl, rfl, rfl, rfl, List.suffix_rfl, fun phases => phases⟩, .inr rfl⟩
      · exact ⟨k, mem, .refl k, .inl rfl⟩
  | settle there new settled =>
      rcases mem_links_putLink hk with rfl | ⟨mem, -⟩
      · exact ⟨_, there, settled.follows, .inl settled.outbox⟩
      · exact ⟨k, (agenda_addClockTask n new).1 ▸ mem, .refl k, .inl rfl⟩
  | drop => exact ⟨k, (List.mem_filter.mp hk).1, .refl k, .inl rfl⟩
  | add | force | delay | await | answered => exact ⟨k, hk, .refl k, .inl rfl⟩

/-- What is neither a deadline nor about clocks stays enabled under every move, and it is due no
later than it was or than now, unless it is an exchange that is put off. -/
theorem Move.wakes (h : InStep busy n) (move : Move off n m) (hl : l ∈ n.links)
    {d : TaskId × Action α} (hd : d ∈ l.tasks.duties l.id) (open' : l.id ∈ m.linkIds)
    (timeless : ∀ k, d.2 ≠ .timeout k ∧ d.2 ≠ .setClock k) :
    Agenda.Wakes (∃ k, d.2 = .exchange k ∧ off k) d.1 n.agenda m.agenda := by
  have known := h.lt_nextId hl hd
  have timeout : ∀ k ∈ n.links, d.1 ≠ k.tasks.timeout := fun k hk =>
    h.task_ne hl hd hk (k.tasks.timeout_mem_duties k.id) (timeless k.id).1
  cases move with
  | elsewhere _ _ _ agenda => exact .of_find?_eq (by rw [agenda]) (by rw [agenda])
  | add interval runs own =>
      exact Agenda.wakes_insert _ h.tidy.fresh interval runs false _ known
  | force id => exact Agenda.wakes_postpone _ id _ fun _ => .inr (Nat.le_refl _)
  | @delay k there id which delay =>
      refine Agenda.wakes_postpone _ id _ fun same => .inl ?_
      rcases which with ⟨slow, exchange⟩ | clock
      · have one := h.eq_of_task hl hd there (k.tasks.exchange_mem_duties k.id)
          (same.trans exchange.symm)
        exact ⟨k.id, by rw [one.2], slow⟩
      · have one := h.eq_of_task hl hd there (LinkTasks.clock_mem_duties clock k.id) same
        exact absurd (by rw [one.2]) (timeless k.id).2
  | await there delay =>
      exact .of_find?_eq rfl (Agenda.find?_update_of_ne _ _ (timeout _ there))
  | answered there => exact Agenda.wakes_disable _ _ (timeout _ there)
  | put there noted => exact .of_find?_eq rfl rfl
  | queue there q => exact Agenda.wakes_enable _ n.agenda _ _
  | @settle k k' there new settled =>
      have agenda : ((n.addClockTask k).2.putLink k').agenda = _ := (agenda_addClockTask n new).2.2
      rw [agenda]
      have insert := Agenda.wakes_insert (∃ k, d.2 = .exchange k ∧ off k) h.tidy.fresh
        n.settings.clockInterval .forever true (.setClock k.id) known
      refine insert.trans ?_
      split
      · exact Agenda.wakes_enable _ _ _ _
      · refine Agenda.wakes_enableDelayed _ _ _ ?_
        intro same
        rw [same] at known
        exact Nat.lt_irrefl _ known
  | @drop k there =>
      refine Agenda.wakes_foldl_erase _ _ fun erased => ?_
      rw [← LinkTasks.map_fst_duties (α := α) k.tasks k.id, List.mem_map] at erased
      obtain ⟨d', hd', same⟩ := erased
      obtain ⟨rfl, -⟩ := h.eq_of_task hl hd there hd' same.symm
      obtain ⟨k, hk, same⟩ := List.mem_map.mp open'
      exact of_decide_eq_true (List.mem_filter.mp hk).2 same

/-- Every move keeps a node in step. -/
theorem InStep.move (h : InStep busy n) (move : Move off n m) : InStep busy m where
  tidy := by
    obtain ⟨deeds, agenda⟩ := move.deeds
    exact agenda ▸ h.tidy.foldl_after deeds
  staffed := by
    cases move with
    | elsewhere links nextLink _ agenda => exact (h.of_eq links nextLink agenda).staffed
    | add interval runs own => exact h.staffed.add h.tidy.fresh interval runs own
    | force id => exact h.staffed.postpone id _
    | delay there which delay => exact h.staffed.postpone _ _
    | await there delay => exact h.staffed.restartDelayed _ delay
    | answered there => exact h.staffed.disable _
    | put there noted =>
        have phases := noted.follows.phases (h.phases _ there)
        exact (h.putLink there noted.id noted.tasks phases).staffed
    | @queue l there q =>
        have put : InStep busy (n.putLink { l with outbox := q }) :=
          h.putLink there rfl rfl (h.phases l there)
        exact (put.enable _).staffed
    | @settle l l' there new settled =>
        have agenda : ((n.addClockTask l).2.putLink l').agenda = _ :=
          (agenda_addClockTask n new).2.2
        have enlisted : Agenda.Staffed (n.duties ++ [(⟨n.agenda.nextId⟩, .setClock l.id)])
            (n.agenda.addPersistent n.settings.clockInterval .forever (.setClock l.id)).2 :=
          h.staffed.enlist h.tidy.fresh (fun _ => rfl) (by simp)
        rw [agenda]
        refine Agenda.Staffed.congr ?_ fun d =>
          mem_duties_settle h.different there (agenda_addClockTask n new).1 new settled
        split
        · exact enlisted.enable _
        · exact enlisted.enableDelayed _ _
    | @drop l there =>
        exact (h.staffed.dismiss l.tasks.all).congr fun d => h.mem_duties_drop there rfl
  different := move.linkIds.nodup h.different
  fresh := by
    intro k hk
    obtain ⟨l, hl, follows, -⟩ := move.follows hk
    rw [follows.id, move.nextLink]
    exact h.fresh l hl
  ready := by
    intro k hk
    obtain ⟨l, hl, follows, -⟩ := move.follows hk
    rw [follows.exchange]
    have open' : l.id ∈ m.linkIds := follows.id ▸ List.mem_map_of_mem hk
    have exchange := l.tasks.exchange_mem_duties (α := α) l.id
    exact (move.wakes h hl exchange open' (by simp)).stays (h.ready l hl)
  order := by
    intro k hk
    obtain ⟨l, hl, follows, -⟩ := move.follows hk
    rw [follows.exchange, follows.read]
    exact h.order l hl
  phases := by
    intro k hk
    obtain ⟨l, hl, follows, -⟩ := move.follows hk
    exact follows.phases (h.phases l hl)

/-- A node stays in step whatever moves it makes. -/
theorem InStep.moves (h : InStep busy n) (moves : Moves off n m) : InStep busy m :=
  moves.keeps (fun move h => h.move move) h

/-- Every link that is there after some moves was there before them. -/
theorem Moves.follows (moves : Moves off n m) : ∀ k ∈ m.links, ∃ l ∈ n.links, l.Follows k := by
  induction moves with
  | refl => exact fun k hk => ⟨k, hk, .refl k⟩
  | tail _ move ih =>
      intro k hk
      obtain ⟨k', hk', next, -⟩ := move.follows hk
      obtain ⟨l, hl, first⟩ := ih k' hk'
      exact ⟨l, hl, first.trans next⟩

/-- Moves take no time. -/
theorem Moves.now (moves : Moves off n m) : m.agenda.now = n.agenda.now := by
  induction moves with
  | refl => rfl
  | tail _ move ih => exact move.now.trans ih

theorem now_close (n : Node σ α) (id : LinkId) : (n.close id).2.agenda.now = n.agenda.now := by
  have moves : Moves (fun _ => False) n (n.close id).2 := moves_close n id
  exact moves.now

theorem InStep.close (h : InStep busy n) (id : LinkId) : InStep busy (n.close id).2 := by
  have moves : Moves (fun _ => False) n (n.close id).2 := moves_close n id
  exact h.moves moves

/-! ### What is no move -/

/-- Bytes that arrive fill the inbox of their link and wake its read task. -/
theorem InStep.arrive (h : InStep busy n) (id : LinkId) (chunk : Bytes) :
    InStep busy (n.arrive id chunk) := by
  simp only [Node.arrive]
  split
  · exact h
  next l found =>
    have there := mem_links_of_link? found
    split
    · exact h.close id
    next count l' taken =>
      obtain ⟨bodies, r, -, -, rfl⟩ := Link.receive_ok taken
      have put : InStep busy (n.putLink { l with
          reassembler := r, inbox := l.inbox ++ bodies.map (·, n.time) }) :=
        h.putLink there rfl rfl (h.phases l there)
      split
      · exact put
      · exact put.enable _

omit [Host σ] in
theorem InStep.restReading (h : InStep busy n) (id : LinkId) : InStep busy (n.restReading id) := by
  simp only [Node.restReading]
  split
  · exact h
  next l found =>
    exact h.disable (mem_links_of_link? found) (l.tasks.read_mem_duties l.id) (by simp)

omit [Host σ] in
/-- The host is nothing that a node is in step with. -/
theorem InStep.hosted (h : InStep busy n) (host : σ) :
    InStep busy ({ n with host } : Node σ α) := by
  refine h.of_eq ?_ ?_ ?_ <;> rfl

omit [Host σ] in
/-- The node once frames that wait on a link were written to its connection. -/
def written (n : Node σ α) (l : Link) (q : Outbox) (host : σ) : Node σ α :=
  ({ n with host } : Node σ α).putLink { l with outbox := q }

omit [Host σ] in
theorem InStep.written (h : InStep busy n) (there : l ∈ n.links) (q : Outbox) (host : σ) :
    InStep busy (n.written l q host) :=
  (h.hosted host).putLink there rfl rfl (h.phases l there)

theorem flush_of_none (none : n.link? id = none) : n.flush id = n := by
  simp only [Node.flush, none]

/-- Once frames were written the link is closed, or its task waits for room, or nothing is left and
the task rests. -/
theorem flush_cases (found : n.link? id = some l) :
    ∃ q host, n.flush id = ((n.written l q host).close id).2 ∨
      n.flush id = (n.written l q host).plan
        (fun a => (a.delay l.tasks.send n.settings.retryDelay).2) ∨
      q.isEmpty = true ∧
        n.flush id = (n.written l q host).plan fun a => (a.disable l.tasks.send).2 := by
  simp only [Node.flush, found, Link.drain]
  generalize drained : l.outbox.drain (Host.transport id) n.host = outcome
  obtain ⟨r, q, host⟩ := outcome
  refine ⟨q, host, ?_⟩
  cases r with
  | error e => exact .inl rfl
  | ok report =>
      dsimp only
      split
      next blocked => exact .inr (.inl rfl)
      next done =>
        exact .inr (.inr ⟨Outbox.isEmpty_of_drainOnto drained (by simpa using done), rfl⟩)

/-- What is kept when frames are written and when a link is closed, and has nothing to do with the
agenda, is kept by the task that sends. -/
theorem flush_keeps {P : Node σ α → Prop}
    (written : ∀ l ∈ n.links, ∀ q host, P (n.written l q host))
    (close : ∀ m id, P m → P (m.close id).2) (plan : ∀ m f, P m → P (m.plan f)) (h : P n)
    (id : LinkId) : P (n.flush id) := by
  cases found : n.link? id with
  | none =>
      rw [flush_of_none found]
      exact h
  | some l =>
      have wrote := written l (mem_links_of_link? found)
      obtain ⟨q, host, closes | waits | ⟨-, rests⟩⟩ := flush_cases found
      · rw [closes]
        exact close _ id (wrote q host)
      · rw [waits]
        exact plan _ _ (wrote q host)
      · rw [rests]
        exact plan _ _ (wrote q host)

/-- What a link writes leaves its tasks in step.  A link that fails is closed. -/
theorem InStep.flush (h : InStep busy n) (id : LinkId) : InStep busy (n.flush id) := by
  cases found : n.link? id with
  | none =>
      rw [flush_of_none found]
      exact h
  | some l =>
      have there := mem_links_of_link? found
      obtain ⟨q, host, closes | waits | ⟨-, rests⟩⟩ := flush_cases found
      · rw [closes]
        exact (h.written there q host).close id
      · rw [waits]
        exact (h.written there q host).postpone _ _
      · rw [rests]
        exact (h.written there q host).disable (d := (l.tasks.send, .send l.id))
          (mem_putLink there rfl) (l.tasks.send_mem_duties l.id) (by simp)

omit [Host σ] in
theorem InStep.addLinkTasks (h : InStep busy n) (id : LinkId) (station : Bool) :
    ∃ tasks a, n.addLinkTasks id station = (tasks, { n with agenda := a }) ∧
      Agenda.Enrols busy n.duties id tasks n.agenda a := by
  let s := n.settings
  let a₁ := (n.agenda.addPersistent s.exchangeInterval .forever (.exchange id)).2
  let a₂ := (a₁.addPersistent s.answerTimeout (.times 1) (.timeout id)).2
  let a₃ := (a₂.addPersistent 0 .forever (.read id)).2
  let a₄ := (a₃.addPersistent s.sendInterval .forever (.send id)).2
  let tasks : LinkTasks :=
    { exchange := ⟨n.agenda.nextId⟩, timeout := ⟨n.agenda.nextId + 1⟩
      read := ⟨n.agenda.nextId + 2⟩, send := ⟨n.agenda.nextId + 3⟩ }
  have exchange : Agenda.Grows busy _ n.agenda a₁ :=
    (Agenda.Grows.refl h.tidy h.staffed).enlist (Nat.le_refl _) (fun _ => rfl) (by simp)
  have timeout : Agenda.Grows busy _ n.agenda a₂ :=
    exchange.enlist (Nat.le_add_right _ 1) (fun untimed => absurd rfl (untimed id)) (by simp)
  have read : Agenda.Grows busy _ n.agenda a₃ :=
    timeout.enlist (Nat.le_add_right _ 2) (fun _ => rfl) fun _ _ => rfl
  have send : Agenda.Grows busy _ n.agenda a₄ :=
    read.enlist (Nat.le_add_right _ 3) (fun _ => rfl) (by simp)
  have grows : Agenda.Grows busy (n.duties ++ tasks.duties id) n.agenda a₄ := by
    simpa [LinkTasks.duties, tasks, a₁, a₂, a₃, Agenda.addPersistent, Agenda.insert] using send
  obtain ⟨t, found, -⟩ :=
    grows.staffed.duty (tasks.exchange, .exchange id) (by simp [LinkTasks.mem_duties])
  have unread : a₄.isEnabled tasks.read = false := by
    rw [Agenda.isEnabled_addPersistent read.tidy.fresh,
      Agenda.isEnabled_addPersistent timeout.tidy.fresh]
    simp [tasks, a₃, a₂, a₁, Agenda.addPersistent, Agenda.insert]
  have unsent : a₄.isEnabled tasks.send = false := by
    rw [Agenda.isEnabled_addPersistent read.tidy.fresh]
    simp [tasks, a₃, a₂, a₁, Agenda.addPersistent, Agenda.insert]
  have rests : ∀ (a : Agenda (Action α)) i, a.find? i = a₄.find? i → a₄.isEnabled i = false →
      a.isEnabled i = false := by
    intro a i same off
    rwa [Agenda.isEnabled, same]
  have added : n.addLinkTasks id station = (tasks, { n with
      agenda := (if station then a₄.enable tasks.exchange
        else a₄.enableDelayed tasks.exchange s.exchangeDelay).2 }) := rfl
  refine ⟨tasks, _, added, ?_⟩
  by_cases dialled : station = true
  · rw [if_pos dialled]
    have others : ∀ i, i ≠ tasks.exchange → (a₄.enable tasks.exchange).2.find? i = a₄.find? i :=
      fun i other => by rw [Agenda.find?_enable, if_neg other]
    exact ⟨grows.enable _, rfl, by simp [tasks], Agenda.isEnabled_enable found,
      rests _ _ (others _ (by simp [tasks])) unread, rests _ _ (others _ (by simp [tasks])) unsent⟩
  · rw [if_neg dialled]
    have others : ∀ i, i ≠ tasks.exchange →
        (a₄.enableDelayed tasks.exchange s.exchangeDelay).2.find? i = a₄.find? i :=
      fun i other => Agenda.find?_enableDelayed_of_ne a₄ _ other
    exact ⟨grows.enableDelayed (Nat.le_refl _) _, rfl, by simp [tasks],
      Agenda.isEnabled_enableDelayed found _,
      rests _ _ (others _ (by simp [tasks])) unread, rests _ _ (others _ (by simp [tasks])) unsent⟩

omit [Host σ] in
/-- The node with one more link, before anyone is told of it. -/
def opened (n : Node σ α) (station : Bool) : Node σ α :=
  let id : LinkId := ⟨n.nextLink⟩
  let (tasks, m) := n.addLinkTasks id station
  let link : Link :=
    { id, station, tasks
      outbox := { maxPending := m.settings.queueLimit, minFree := m.settings.memoryReserve }
      reassembler := { limit := m.settings.frameLimit } }
  { m with links := n.links ++ [link], nextLink := n.nextLink + 1 }

/-- Once a link is there, the rest of opening it is a move. -/
theorem moves_opened (n : Node σ α) (station : Bool) :
    Moves off (n.opened station) (n.addLink station).2 :=
  (moves_schedule (n.opened station) (.opened ⟨n.nextLink⟩)).trans (moves_hastenAnnouncement _)

omit [Host σ] in
/-- A new link comes with tasks that serve it. -/
theorem InStep.opened (h : InStep busy n) (station : Bool) : InStep busy (n.opened station) := by
  obtain ⟨tasks, a, added, enrols⟩ := h.addLinkTasks ⟨n.nextLink⟩ station
  simp only [Node.opened, added]
  refine ⟨enrols.tidy, ?_, ?_, ?_, ?_, ?_, ?_⟩
  · simpa [duties] using enrols.staffed
  · have new : (⟨n.nextLink⟩ : LinkId) ∉ n.linkIds := by
      intro old
      obtain ⟨l, hl, same⟩ := List.mem_map.mp old
      have lt := h.fresh l hl
      rw [same] at lt
      exact Nat.lt_irrefl _ lt
    simp only [linkIds, List.map_append, List.map_cons, List.map_nil]
    exact h.different.append (List.nodup_singleton _) (by simpa [linkIds] using new)
  all_goals
    intro l hl
    rcases List.mem_append.mp hl with old | new
  · exact Nat.lt_succ_of_lt (h.fresh l old)
  · rw [List.mem_singleton.mp new]
    exact Nat.lt_succ_self _
  · have known := h.lt_nextId old (l.tasks.exchange_mem_duties l.id)
    exact (enrols.wakes _ known).stays (h.ready l old)
  · rw [List.mem_singleton.mp new]
    exact enrols.ready
  · exact h.order l old
  · rw [List.mem_singleton.mp new]
    exact enrols.order
  · exact h.phases l old
  · rw [List.mem_singleton.mp new]
    exact ⟨by simp, by simp [Link.Timed, enrols.clock]⟩

/-- A new link is in step from its beginning. -/
theorem InStep.addLink (h : InStep busy n) (station : Bool) :
    InStep busy (n.addLink station).2 := by
  have moves : Moves (fun _ => False) (n.opened station) _ := moves_opened n station
  exact (h.opened station).moves moves

theorem moves_foldl_close (n : Node σ α) (ids : List LinkId) :
    Moves off n (ids.foldl (fun n id => (n.close id).2) n) := by
  induction ids generalizing n with
  | nil => exact .refl
  | cons id ids ih => exact (moves_close n id).trans (ih _)

/-- Exactly the links that are named are closed. -/
theorem links_foldl_close (n : Node σ α) (ids : List LinkId) :
    (ids.foldl (fun n id => (n.close id).2) n).links = n.links.filter (·.id ∉ ids) := by
  induction ids generalizing n with
  | nil => simp
  | cons id ids ih =>
      rw [List.foldl_cons, ih, close_links, List.filter_filter]
      refine List.filter_congr fun l _ => ?_
      simp [Bool.and_comm]

/-- A node that stops has no links. -/
theorem links_stop (n : Node σ α) : n.stop.links = [] := by
  have closed := links_foldl_close n n.linkIds
  rw [List.filter_eq_nil_iff.mpr] at closed
  · exact closed
  · intro l hl left
    exact of_decide_eq_true left (List.mem_map_of_mem hl)

/-- A node that stops has neither links nor tasks. -/
theorem inStep_stop (n : Node σ α) : InStep busy n.stop := by
  have none := links_stop n
  have nothing : ∀ l, l ∉ n.stop.links := fun l hl => List.not_mem_nil (none ▸ hl)
  have staffed : n.stop.agenda.Staffed n.stop.duties :=
    ⟨fun d hd => absurd hd (by simp [duties, none]), fun _ _ found => by cases found⟩
  exact ⟨Agenda.tidy_nil _ _, staffed, by simp [linkIds, none],
    fun l hl => absurd hl (nothing l), fun l hl => absurd hl (nothing l),
    fun l hl => absurd hl (nothing l), fun l hl => absurd hl (nothing l)⟩

omit [Host σ]

/-- A task that runs is busy meanwhile. -/
theorem InStep.begin (h : InStep busy n) (id : TaskId) (now : Nat) :
    InStep (fun i => i = id ∨ busy i) (n.plan (·.begin id now)) := by
  refine h.plan (h.tidy.begin id now) (h.staffed.begin id now) fun l hl on => ?_
  obtain ⟨t, found, on⟩ := Agenda.isEnabled_iff.mp on
  by_cases same : l.tasks.exchange = id
  · obtain ⟨u, found', serves⟩ := h.staffed.duty (l.tasks.exchange, .exchange l.id)
      (mem_duties.mpr ⟨l, hl, l.tasks.exchange_mem_duties l.id⟩)
    obtain rfl := Option.some.inj (found'.symm.trans found)
    refine Agenda.isEnabled_iff.mpr ⟨u.begun now, ?_, ?_⟩
    · rw [Agenda.begin, same, Agenda.find?_update_self, ← same, found, Option.map_some]
    · rw [serves.enabled_begun (by simp)]
      exact on
  · refine Agenda.isEnabled_iff.mpr ⟨t, ?_, on⟩
    rw [Agenda.begin, Agenda.find?_update_of_ne _ _ same, found]

/-- A task that ran is no longer busy. -/
theorem InStep.finish {id : TaskId} (h : InStep (fun i => i = id ∨ busy i) n) :
    InStep busy (n.plan (·.finish id)) := by
  refine h.plan h.tidy.finish (h.staffed.finish id) fun l _ on => ?_
  obtain ⟨t, found, on⟩ := Agenda.isEnabled_iff.mp on
  by_cases same : l.tasks.exchange = id
  · refine Agenda.isEnabled_iff.mpr ⟨{ t with running := false }, ?_, on⟩
    rw [Agenda.find?_finish, if_pos same, found, Option.bind_some, on, Bool.true_or, if_pos rfl]
  · exact Agenda.isEnabled_iff.mpr ⟨t, by rw [Agenda.find?_finish, if_neg same, found], on⟩

/-- A node as it is when a pass begins. -/
def clocked (n : Node σ α) (now : Nat) : Node σ α :=
  agendaOf.modify (fun a => { a with now }) { n with now }

/-- Time passes without a task being forgotten. -/
theorem InStep.clocked (h : InStep busy n) (now : Nat) : InStep busy (n.clocked now) := by
  have timed : InStep busy ({ n with now } : Node σ α) := by
    refine h.of_eq ?_ ?_ ?_ <;> rfl
  exact timed.plan (f := fun a => { a with now }) (timed.tidy.clock now) (timed.staffed.clock now)
    fun _ _ on => on

end

end Node

end SpanningMesh
