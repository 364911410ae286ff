import SpanningMesh.Proofs.Node.Moves

/-!
# The tasks of links on an agenda

Every link has tasks on the agenda of its node, and each of them is there for one thing
(`LinkTasks.duties`).  An agenda is `Staffed` for some duties if it has a task in service for each
of them, and no other persistent task and no other task that is about a link.  A task that is in
service does what its duty says as often as it is enabled, but for the one that gives a link up, and
does not end.

What is done to an agenda keeps it staffed, since it never makes a task into another one.  Adding
the task of a link adds a duty, and removing the tasks of a link takes its duties away.

Whether a task waits for its next run is another matter, and how long it has to.  `Wakes` says that
a task which was enabled is enabled still, and due no later than it was or than now.
-/

namespace SpanningMesh

namespace LinkTasks

variable {α : Type} {t : LinkTasks} {id : LinkId} {d : TaskId × Action α}

/-- The tasks of a link with what they are for. -/
def duties (t : LinkTasks) (id : LinkId) : List (TaskId × Action α) :=
  [(t.exchange, .exchange id), (t.timeout, .timeout id), (t.read, .read id), (t.send, .send id)] ++
    t.timeSync.toList.map (·, .setClock id)

/-- The duties of a link are those of all its tasks. -/
theorem map_fst_duties (t : LinkTasks) (id : LinkId) :
    ((t.duties id : List (TaskId × Action α)).map Prod.fst) = t.all := by
  simp [duties, all, Function.comp_def]

/-- The tasks of a link exchange trees, watch the time, read and send, and its clock task sets the
clock. -/
theorem mem_duties : d ∈ t.duties id ↔
    d = (t.exchange, .exchange id) ∨ d = (t.timeout, .timeout id) ∨ d = (t.read, .read id) ∨
      d = (t.send, .send id) ∨ ∃ clock, t.timeSync = some clock ∧ d = (clock, .setClock id) := by
  simp only [duties, List.cons_append, List.nil_append, List.mem_cons, List.mem_map,
    Option.mem_toList, eq_comm (a := d)]

theorem exchange_mem_duties (t : LinkTasks) (id : LinkId) :
    (t.exchange, .exchange id) ∈ (t.duties id : List (TaskId × Action α)) :=
  mem_duties.mpr (.inl rfl)

theorem timeout_mem_duties (t : LinkTasks) (id : LinkId) :
    (t.timeout, .timeout id) ∈ (t.duties id : List (TaskId × Action α)) :=
  mem_duties.mpr (.inr (.inl rfl))

theorem read_mem_duties (t : LinkTasks) (id : LinkId) :
    (t.read, .read id) ∈ (t.duties id : List (TaskId × Action α)) :=
  mem_duties.mpr (.inr (.inr (.inl rfl)))

theorem send_mem_duties (t : LinkTasks) (id : LinkId) :
    (t.send, .send id) ∈ (t.duties id : List (TaskId × Action α)) :=
  mem_duties.mpr (.inr (.inr (.inr (.inl rfl))))

theorem clock_mem_duties {clock : TaskId} (h : t.timeSync = some clock) (id : LinkId) :
    (clock, .setClock id) ∈ (t.duties id : List (TaskId × Action α)) :=
  mem_duties.mpr (.inr (.inr (.inr (.inr ⟨clock, h, rfl⟩))))

/-- Among the duties of a link its own send task alone sends. -/
theorem eq_of_send_mem_duties {i : TaskId} {k : LinkId}
    (h : (i, .send k) ∈ (t.duties id : List (TaskId × Action α))) : i = t.send ∧ k = id := by
  simpa [mem_duties] using h

/-- Among the duties of a link its own read task alone reads. -/
theorem eq_of_read_mem_duties {i : TaskId} {k : LinkId}
    (h : (i, .read k) ∈ (t.duties id : List (TaskId × Action α))) : i = t.read ∧ k = id := by
  simpa [mem_duties] using h

/-- Every duty of a link concerns that link. -/
theorem link?_of_mem_duties (h : d ∈ t.duties id) : d.2.link? = some id := by
  rcases mem_duties.mp h with rfl | rfl | rfl | rfl | ⟨clock, -, rfl⟩ <;> rfl

end LinkTasks

/-! ## Tasks in service -/

namespace Task

variable {α : Type} {t : Task (Action α)} {x : Action α}

/-- The task of a link is there for an action. -/
structure Serves (t : Task (Action α)) (x : Action α) : Prop where
  persistent : t.persistent = true
  action : t.action = x
  /-- Only the task that gives a link up runs once. -/
  endless : (∀ id, x ≠ .timeout id) → t.runs = .forever ∧ t.left = .forever
  /-- Reading is due again at once. -/
  prompt : ∀ id, x = .read id → t.interval = 0

theorem Serves.armed (h : t.Serves x) (due : Nat) : (t.armed due).Serves x :=
  ⟨h.persistent, h.action, fun untimed => ⟨(h.endless untimed).1, (h.endless untimed).1⟩, h.prompt⟩

theorem Serves.begun (h : t.Serves x) (now : Nat) : (t.begun now).Serves x := by
  refine ⟨h.persistent, h.action, fun untimed => ⟨(h.endless untimed).1, ?_⟩, h.prompt⟩
  simp only [Task.begun, (h.endless untimed).2, Runs.afterOne]

/-- A task without an end stays enabled when it runs. -/
theorem Serves.enabled_begun (h : t.Serves x) (untimed : ∀ id, x ≠ .timeout id) (now : Nat) :
    (t.begun now).enabled = t.enabled := by
  simp [Task.begun, (h.endless untimed).2, Runs.afterOne, Runs.isOver]

end Task

namespace Agenda

variable {α : Type} {a a' : Agenda (Action α)} {ds ds' : List (TaskId × Action α)}
  {d d' : TaskId × Action α} {id i : TaskId} {t t' : Task (Action α)}

/-- The agenda has a task in service for each of some duties, and no other task that is persistent
or about a link. -/
structure Staffed (ds : List (TaskId × Action α)) (a : Agenda (Action α)) : Prop where
  duty : ∀ d ∈ ds, ∃ t, a.find? d.1 = some t ∧ t.Serves d.2
  owned : ∀ id t, a.find? id = some t → t.persistent = true ∨ t.action.link?.isSome = true →
    (id, t.action) ∈ ds

/-- Only which duties there are matters, and not their order. -/
theorem Staffed.congr (h : Staffed ds a) (same : ∀ d, d ∈ ds' ↔ d ∈ ds) : Staffed ds' a :=
  ⟨fun d hd => h.duty d ((same d).mp hd), fun id t found own =>
    (same _).mpr (h.owned id t found own)⟩

/-- A task on duty was added before. -/
theorem Staffed.lt_nextId (h : Staffed ds a) (fresh : ∀ i ∈ a.ids, i.number < a.nextId)
    (hd : d ∈ ds) : d.1.number < a.nextId := by
  obtain ⟨t, found, -⟩ := h.duty d hd
  exact fresh d.1 (mem_ids_of_find? found)

/-- A task has one duty. -/
theorem Staffed.eq_of_fst_eq (h : Staffed ds a) (hd : d ∈ ds) (hd' : d' ∈ ds) (same : d.1 = d'.1) :
    d = d' := by
  obtain ⟨t, found, serves⟩ := h.duty d hd
  obtain ⟨t', found', serves'⟩ := h.duty d' hd'
  obtain rfl := Option.some.inj (found.symm.trans (same ▸ found'))
  exact Prod.ext same (serves.action.symm.trans serves'.action)

/-- The duty of a task is what it does. -/
theorem Staffed.action_eq (h : Staffed ds a) (hd : d ∈ ds) (found : a.find? d.1 = some t) :
    t.action = d.2 := by
  obtain ⟨u, found', serves⟩ := h.duty d hd
  obtain rfl := Option.some.inj (found.symm.trans found')
  exact serves.action

/-! ### What keeps an agenda staffed -/

/-- To change one task, or to forget it, leaves an agenda staffed if the task stays what it is and
only one that is of no link is forgotten. -/
theorem Staffed.change (h : Staffed ds a) (i : TaskId)
    (f : Task (Action α) → Option (Task (Action α)))
    (found : ∀ id, a'.find? id = if id = i then (a.find? id).bind f else a.find? id)
    (serves : ∀ t x, t.Serves x → ∃ t', f t = some t' ∧ t'.Serves x)
    (same : ∀ t t', f t = some t' → t'.persistent = t.persistent ∧ t'.action = t.action) :
    Staffed ds a' where
  duty := by
    intro d hd
    obtain ⟨t, before, service⟩ := h.duty d hd
    rw [found]
    by_cases changed : d.1 = i
    · obtain ⟨t', after, service⟩ := serves t d.2 service
      exact ⟨t', by rw [if_pos changed, before, Option.bind_some, after], service⟩
    · exact ⟨t, by rw [if_neg changed, before], service⟩
  owned := by
    intro id t' after own
    rw [found] at after
    by_cases changed : id = i
    · rw [if_pos changed] at after
      obtain ⟨t, before, after⟩ := Option.bind_eq_some_iff.mp after
      obtain ⟨persistent, action⟩ := same t t' after
      rw [persistent, action] at own
      exact action ▸ h.owned id t before own
    · rw [if_neg changed] at after
      exact h.owned id t' after own

/-- A task may be changed as long as it goes on to serve its action. -/
theorem Staffed.update (h : Staffed ds a) (i : TaskId) (f : Task (Action α) → Task (Action α))
    (serves : ∀ t x, t.Serves x → (f t).Serves x)
    (same : ∀ t, (f t).persistent = t.persistent ∧ (f t).action = t.action) :
    Staffed ds (a.update i f) := by
  refine h.change i (fun t => some (f t)) (fun id => ?_) (fun t x s => ⟨f t, rfl, serves t x s⟩) ?_
  · rw [find?_update]
    cases a.find? id <;> rfl
  · rintro t t' ⟨rfl⟩
    exact same t

theorem Staffed.enable (h : Staffed ds a) (i : TaskId) : Staffed ds (a.enable i).2 := by
  refine h.change i (fun t => some (if t.enabled then t else t.armed a.now)) (fun id => ?_)
    (fun t x s => ⟨_, rfl, ?_⟩) ?_
  · rw [find?_enable]
    cases a.find? id <;> rfl
  · split
    · exact s
    · exact s.armed a.now
  · rintro t t' ⟨rfl⟩
    split <;> exact ⟨rfl, rfl⟩

theorem Staffed.postpone (h : Staffed ds a) (i : TaskId) (due : Nat) :
    Staffed ds (a.postpone i due).2 := by
  refine h.change i (fun t => some (if t.enabled then { t with due := due } else t)) (fun id => ?_)
    (fun t x s => ⟨_, rfl, ?_⟩) ?_
  · rw [find?_postpone]
    cases a.find? id <;> rfl
  · split
    · exact ⟨s.persistent, s.action, s.endless, s.prompt⟩
    · exact s
  · rintro t t' ⟨rfl⟩
    split <;> exact ⟨rfl, rfl⟩

theorem Staffed.enableDelayed (h : Staffed ds a) (i : TaskId) (delay : Nat) :
    Staffed ds (a.enableDelayed i delay).2 := by
  simp only [Agenda.enableDelayed]
  split
  · exact (h.enable i).postpone i _
  · exact h.enable i

theorem Staffed.restartDelayed (h : Staffed ds a) (i : TaskId) (delay : Nat) :
    Staffed ds (a.restartDelayed i delay).2 :=
  h.update i _ (fun _ _ s => s.armed _) fun _ => ⟨rfl, rfl⟩

/-- Only a persistent task is left when it is disabled, and duties are persistent. -/
theorem Staffed.disable (h : Staffed ds a) (i : TaskId) : Staffed ds (a.disable i).2 := by
  refine h.change i (fun t => if t.persistent then some { t with enabled := false } else none)
    (find?_disable a i) (fun t x s => ⟨{ t with enabled := false }, ?_, ?_⟩) ?_
  · rw [if_pos s.persistent]
  · exact ⟨s.persistent, s.action, s.endless, s.prompt⟩
  · intro t t' after
    obtain ⟨-, ⟨⟩⟩ := Option.ite_none_right_eq_some.mp after
    exact ⟨rfl, rfl⟩

theorem Staffed.begin (h : Staffed ds a) (i : TaskId) (now : Nat) : Staffed ds (a.begin i now) :=
  h.update i _ (fun _ _ s => s.begun now) fun _ => ⟨rfl, rfl⟩

/-- A task that ends its run stays if it is persistent, as duties are. -/
theorem Staffed.finish (h : Staffed ds a) (i : TaskId) : Staffed ds (a.finish i) := by
  refine h.change i
    (fun t => if t.enabled || t.persistent then some { t with running := false } else none)
    (find?_finish a i) (fun t x s => ⟨{ t with running := false }, ?_, ?_⟩) ?_
  · simp [s.persistent]
  · exact ⟨s.persistent, s.action, s.endless, s.prompt⟩
  · intro t t' after
    obtain ⟨-, ⟨⟩⟩ := Option.ite_none_right_eq_some.mp after
    exact ⟨rfl, rfl⟩

theorem Staffed.clock (h : Staffed ds a) (now : Nat) : Staffed ds { a with now } :=
  ⟨h.duty, h.owned⟩

/-- A pooled task that is about no link has no duty. -/
theorem Staffed.add (h : Staffed ds a) (fresh : ∀ i ∈ a.ids, i.number < a.nextId) (interval : Nat)
    (runs : Runs) {x : Action α} (own : x.link? = none) : Staffed ds (a.add interval runs x).2 where
  duty := by
    intro d hd
    obtain ⟨t, found, serves⟩ := h.duty d hd
    refine ⟨t, ?_, serves⟩
    have old : d.1 ≠ ⟨a.nextId⟩ := fun next => Nat.lt_irrefl _ (next ▸ h.lt_nextId fresh hd)
    rw [Agenda.add, find?_insert a fresh, if_neg old, found]
  owned := by
    intro id t found claim
    rw [Agenda.add, find?_insert a fresh] at found
    split at found
    · cases found
      simp [own] at claim
    · exact h.owned id t found claim

/-- A persistent task that is added takes up the duty that its action is. -/
theorem Staffed.enlist (h : Staffed ds a) (fresh : ∀ i ∈ a.ids, i.number < a.nextId)
    {interval : Nat} {runs : Runs} {x : Action α}
    (endless : (∀ id, x ≠ .timeout id) → runs = .forever) (prompt : ∀ id, x = .read id → interval = 0) :
    Staffed (ds ++ [(⟨a.nextId⟩, x)]) (a.addPersistent interval runs x).2 where
  duty := by
    intro d hd
    rw [Agenda.addPersistent, find?_insert a fresh]
    rcases List.mem_append.mp hd with old | new
    · obtain ⟨t, found, serves⟩ := h.duty d old
      have old : d.1 ≠ ⟨a.nextId⟩ := fun next => Nat.lt_irrefl _ (next ▸ h.lt_nextId fresh old)
      exact ⟨t, by rw [if_neg old, found], serves⟩
    · rw [List.mem_singleton.mp new, if_pos rfl]
      exact ⟨_, rfl, rfl, rfl, fun untimed => ⟨endless untimed, endless untimed⟩, prompt⟩
  owned := by
    intro id t found own
    rw [Agenda.addPersistent, find?_insert a fresh] at found
    split at found
    next next =>
      cases found
      exact List.mem_append_right _ (List.mem_singleton.mpr (by rw [next]))
    next => exact List.mem_append_left _ (h.owned id t found own)

/-- Tasks that are removed leave the duties of the others. -/
theorem Staffed.dismiss (h : Staffed ds a) (ids : List TaskId) :
    Staffed (ds.filter fun d => d.1 ∉ ids) (ids.foldl erase a) where
  duty := by
    intro d hd
    obtain ⟨hd, left⟩ := List.mem_filter.mp hd
    obtain ⟨t, found, serves⟩ := h.duty d hd
    exact ⟨t, by rw [find?_foldl_erase, if_neg (of_decide_eq_true left), found], serves⟩
  owned := by
    intro id t found own
    rw [find?_foldl_erase] at found
    split at found
    · cases found
    next left => exact List.mem_filter.mpr ⟨h.owned id t found own, decide_eq_true left⟩

/-! ### The persistent tasks are those with a duty -/

/-- The persistent tasks are those that have a duty. -/
theorem Staffed.persistent_iff (h : Staffed ds a) (different : a.ids.Nodup) (id : TaskId) :
    id ∈ (a.tasks.filter (·.2.persistent)).map Prod.fst ↔ id ∈ ds.map Prod.fst := by
  simp only [List.mem_map, List.mem_filter]
  constructor
  · rintro ⟨⟨i, t⟩, ⟨mem, persistent⟩, rfl⟩
    exact ⟨_, h.owned i t (find?_of_mem different mem) (.inl persistent), rfl⟩
  · rintro ⟨d, hd, rfl⟩
    obtain ⟨t, found, serves⟩ := h.duty d hd
    exact ⟨(d.1, t), ⟨mem_of_find? found, serves.persistent⟩, rfl⟩

/-- If no two duties are for the same action, then no two are of the same task. -/
theorem Staffed.nodup (h : Staffed ds a) (different : (ds.map Prod.snd).Nodup) :
    (ds.map Prod.fst).Nodup := by
  refine List.Nodup.map_on ?_ (List.Nodup.of_map _ different)
  exact fun d hd d' hd' same => h.eq_of_fst_eq hd hd' same

/-! ## Tasks that wait for their next run -/

theorem isEnabled_iff {a : Agenda (Action α)} :
    a.isEnabled id = true ↔ ∃ t, a.find? id = some t ∧ t.enabled = true := by
  simp only [isEnabled, Option.any_eq_true]

/-- A task that was enabled still is, and it is due no later than it was or than now, unless it may
be late. -/
structure Wakes (late : Prop) (id : TaskId) (a a' : Agenda (Action α)) : Prop where
  now : a'.now = a.now
  stays : a.isEnabled id = true → a'.isEnabled id = true
  due : ∀ t', a'.find? id = some t' → t'.enabled = true →
    late ∨ t'.due ≤ a.now ∨ ∃ t, a.find? id = some t ∧ t.enabled = true ∧ t.due = t'.due

variable {late : Prop}

theorem Wakes.of_find?_eq (now : a'.now = a.now) (same : a'.find? id = a.find? id) :
    Wakes late id a a' where
  now := now
  stays := by
    rw [isEnabled_iff, isEnabled_iff, same]
    exact fun on => on
  due := fun t' found on => .inr (.inr ⟨t', same ▸ found, on, rfl⟩)

/-- To change one task wakes another one as it was, and that one too if it stays enabled and is due
now. -/
theorem Wakes.of_change (i : TaskId) (f : Task (Action α) → Task (Action α)) (now : a'.now = a.now)
    (found : ∀ id, a'.find? id = if id = i then (a.find? id).map f else a.find? id)
    (stays : id = i → ∀ t, t.enabled = true → (f t).enabled = true)
    (due : id = i → ∀ t, (f t).enabled = true → late ∨ (f t).due ≤ a.now ∨
      t.enabled = true ∧ t.due = (f t).due) : Wakes late id a a' := by
  by_cases same : id = i
  · have after := found id
    rw [if_pos same] at after
    refine ⟨now, ?_, ?_⟩
    · rw [isEnabled_iff, isEnabled_iff]
      rintro ⟨t, before, on⟩
      exact ⟨f t, by rw [after, before, Option.map_some], stays same t on⟩
    · intro t' there on
      rw [after] at there
      obtain ⟨t, before, rfl⟩ := Option.map_eq_some_iff.mp there
      exact (due same t on).imp_right (Or.imp_right fun kept => ⟨t, before, kept⟩)
  · exact .of_find?_eq now (by rw [found, if_neg same])

theorem Wakes.mono (h : Wakes late id a a') {late' : Prop} (le : late → late') :
    Wakes late' id a a' :=
  ⟨h.now, h.stays, fun t' found on => (h.due t' found on).imp_left le⟩

theorem Wakes.trans {a'' : Agenda (Action α)} (h : Wakes late id a a') (h' : Wakes late id a' a'') :
    Wakes late id a a'' where
  now := h'.now.trans h.now
  stays := fun on => h'.stays (h.stays on)
  due := by
    intro t'' found on
    rcases h'.due t'' found on with is_late | soon | ⟨t', found, on, due⟩
    · exact .inl is_late
    · exact .inr (.inl (h.now ▸ soon))
    · exact due ▸ h.due t' found on

/-- To disable a task leaves the others as they are. -/
theorem wakes_disable (late : Prop) (a : Agenda (Action α)) (other : id ≠ i) :
    Wakes late id a (a.disable i).2 :=
  .of_find?_eq (now_after a (.disable i)) (by rw [find?_disable, if_neg other])

/-- To remove some tasks leaves the others as they are. -/
theorem wakes_foldl_erase (late : Prop) (a : Agenda (Action α)) {ids : List TaskId}
    (other : id ∉ ids) : Wakes late id a (ids.foldl erase a) :=
  .of_find?_eq (by rw [foldl_erase]) (by rw [find?_foldl_erase, if_neg other])

/-- A task that is added leaves those that were known as they are. -/
theorem wakes_insert (late : Prop) (fresh : ∀ i ∈ a.ids, i.number < a.nextId) (interval : Nat)
    (runs : Runs) (persistent : Bool) (x : Action α) (known : id.number < a.nextId) :
    Wakes late id a (a.insert interval runs persistent x).2 := by
  refine .of_find?_eq rfl ?_
  rw [find?_insert a fresh, if_neg]
  rintro rfl
  exact Nat.lt_irrefl _ known

/-- To enable a task leaves every other one as it is, and the task itself if it is enabled. -/
theorem wakes_enable (late : Prop) (a : Agenda (Action α)) (i id : TaskId) :
    Wakes late id a (a.enable i).2 := by
  refine .of_change i (fun t => if t.enabled then t else t.armed a.now) (now_after a (.enable i))
    (find?_enable a i) ?_ ?_
  · intro _ t on
    rw [if_pos on]
    exact on
  · intro _ t _
    split
    next on => exact .inr (.inr ⟨on, rfl⟩)
    next => exact .inr (.inl (Nat.le_refl _))

theorem now_postpone (a : Agenda (Action α)) (i : TaskId) (due : Nat) :
    (a.postpone i due).2.now = a.now := by
  simp only [Agenda.postpone]
  split <;> rfl

/-- A task that is put off may be late.  Every other one is as before. -/
theorem wakes_postpone (a : Agenda (Action α)) (i id : TaskId) {due : Nat}
    (soon : id = i → late ∨ due ≤ a.now) : Wakes late id a (a.postpone i due).2 := by
  refine .of_change i (fun t => if t.enabled then { t with due := due } else t)
    (now_postpone a i due) (find?_postpone a i due) ?_ ?_
  · intro _ t on
    rw [if_pos on]
    exact on
  · intro same t on
    split at on
    next on => exact (soon same).imp_right fun soon => .inl (by rw [if_pos on]; exact soon)
    next off => exact absurd on off

/-- To enable a task after a delay leaves every other one as it is. -/
theorem wakes_enableDelayed (late : Prop) (a : Agenda (Action α)) (delay : Nat) (other : id ≠ i) :
    Wakes late id a (a.enableDelayed i delay).2 := by
  simp only [Agenda.enableDelayed]
  split
  · exact (wakes_enable late a i id).trans (wakes_postpone _ i id fun same => absurd same other)
  · exact wakes_enable late a i id

/-- A persistent task that is added does not run until it is enabled. -/
theorem isEnabled_addPersistent (fresh : ∀ i ∈ a.ids, i.number < a.nextId) (interval : Nat)
    (runs : Runs) (x : Action α) (id : TaskId) :
    (a.addPersistent interval runs x).2.isEnabled id =
      if id = ⟨a.nextId⟩ then false else a.isEnabled id := by
  simp only [isEnabled, addPersistent, find?_insert a fresh]
  split <;> rfl

/-- A task that is there can be enabled. -/
theorem isEnabled_enable (found : a.find? id = some t) : (a.enable id).2.isEnabled id = true := by
  rw [isEnabled_iff, find?_enable, if_pos rfl, found, Option.map_some]
  refine ⟨_, rfl, ?_⟩
  split
  next on => exact on
  next => rfl

theorem isEnabled_enableDelayed (found : a.find? id = some t) (delay : Nat) :
    (a.enableDelayed id delay).2.isEnabled id = true := by
  have on := isEnabled_enable found
  have there : (a.enable id).1 = true := by simp [Agenda.enable, found]
  simp only [Agenda.enableDelayed, there, if_true]
  exact (wakes_postpone (a.enable id).2 id id fun _ => .inl trivial).stays on

/-- What is left of a task after its action waits as the action left it. -/
theorem wakes_finish (late : Prop) (a : Agenda (Action α)) (i id : TaskId) :
    Wakes late id a (a.finish i) := by
  have now : (a.finish i).now = a.now := by
    simp only [Agenda.finish]
    split
    · rfl
    · split <;> rfl
  by_cases same : id = i
  · have after := find?_finish a i id
    rw [if_pos same] at after
    refine ⟨now, ?_, ?_⟩
    · rw [isEnabled_iff, isEnabled_iff]
      rintro ⟨t, before, on⟩
      exact ⟨{ t with running := false }, by simp [after, before, on], on⟩
    · intro t' found on
      rw [after] at found
      obtain ⟨t, before, stays⟩ := Option.bind_eq_some_iff.mp found
      obtain ⟨-, ⟨⟩⟩ := Option.ite_none_right_eq_some.mp stays
      exact .inr (.inr ⟨t, before, on, rfl⟩)
  · exact .of_find?_eq now (by rw [find?_finish, if_neg same])

/-! ## Tasks that something waits for -/

/-- If something waits for a task it is enabled, and when it is enabled it is due by some time. -/
def Awaited (a : Agenda (Action α)) (id : TaskId) (waits : Prop) (bound : Nat) : Prop :=
  (waits → a.isEnabled id = true) ∧
    ∀ t, a.find? id = some t → t.enabled = true → t.due ≤ bound

variable {waits waits' : Prop} {bound : Nat}

/-- An operation after which no task is late keeps the promise.  It may also enable the task. -/
theorem Awaited.wakes (h : a.Awaited id waits bound) (wakes : Wakes late id a a') (prompt : ¬ late)
    (now : a.now ≤ bound) (more : waits' → waits ∨ a'.isEnabled id = true) :
    a'.Awaited id waits' bound := by
  have awake : waits' → a'.isEnabled id = true := fun waiting =>
    (more waiting).elim (fun waiting => wakes.stays (h.1 waiting)) fun on => on
  refine ⟨awake, fun t' found on => ?_⟩
  rcases wakes.due t' found on with is_late | soon | ⟨t, found, on, due⟩
  · exact absurd is_late prompt
  · exact Nat.le_trans soon now
  · exact due ▸ h.2 t found on

theorem Awaited.mono (h : a.Awaited id waits bound) {bound' : Nat} (le : bound ≤ bound') :
    a.Awaited id waits bound' :=
  ⟨h.1, fun t found on => Nat.le_trans (h.2 t found on) le⟩

/-- Nothing is promised for a task that is off as long as no work waits for it. -/
theorem awaited_of_disabled (off : a.isEnabled id = false) (idle : ¬ waits) (bound : Nat) :
    a.Awaited id waits bound := by
  refine ⟨fun waiting => absurd waiting idle, fun t found on => ?_⟩
  rw [isEnabled_iff.mpr ⟨t, found, on⟩] at off
  cases off

/-- A task may be disabled if nothing waits for it. -/
theorem awaited_disable (a : Agenda (Action α)) (id : TaskId) (bound : Nat) (idle : ¬ waits) :
    (a.disable id).2.Awaited id waits bound := by
  refine awaited_of_disabled ?_ idle bound
  rw [Agenda.isEnabled, find?_disable, if_pos rfl]
  cases a.find? id with
  | none => rfl
  | some t => by_cases persistent : t.persistent = true <;> simp [persistent]

/-- A task that is enabled may be put off, or brought forward. -/
theorem awaited_postpone (on : a.isEnabled id = true) (waits : Prop) {due : Nat}
    (le : due ≤ bound) : (a.postpone id due).2.Awaited id waits bound := by
  have stays : (a.postpone id due).2.isEnabled id = true :=
    (wakes_postpone a id id fun _ => .inl trivial).stays on
  refine ⟨fun _ => stays, fun t found on => ?_⟩
  rw [find?_postpone, if_pos rfl] at found
  obtain ⟨u, -, rfl⟩ := Option.map_eq_some_iff.mp found
  split at on
  next was => simpa only [if_pos was] using le
  next off => exact absurd on off

/-! ## New tasks on duty -/

/-- Tasks on duty were added to an agenda, and what it had before is as it was. -/
structure Grows (busy : TaskId → Prop) (ds : List (TaskId × Action α)) (a a' : Agenda (Action α)) :
    Prop where
  tidy : a'.Tidy busy
  staffed : a'.Staffed ds
  now : a'.now = a.now
  wakes : ∀ i, i.number < a.nextId → Wakes False i a a'

variable {busy : TaskId → Prop}

theorem Grows.refl (tidy : a.Tidy busy) (staffed : a.Staffed ds) : Grows busy ds a a where
  tidy := tidy
  staffed := staffed
  now := rfl
  wakes := fun _ _ => .of_find?_eq rfl rfl

/-- One more task that serves its action may be enlisted, and its duty with it. -/
theorem Grows.enlist (h : Grows busy ds a a') (next : a.nextId ≤ a'.nextId) {interval : Nat}
    {runs : Runs} {x : Action α} (endless : (∀ id, x ≠ .timeout id) → runs = .forever)
    (prompt : ∀ id, x = .read id → interval = 0) :
    Grows busy (ds ++ [(⟨a'.nextId⟩, x)]) a (a'.addPersistent interval runs x).2 where
  tidy := h.tidy.insert _ _ true _
  staffed := h.staffed.enlist h.tidy.fresh endless prompt
  now := h.now
  wakes := fun i known => (h.wakes i known).trans <|
    wakes_insert _ h.tidy.fresh _ _ true _ (Nat.lt_of_lt_of_le known next)

theorem Grows.enable (h : Grows busy ds a a') (i : TaskId) : Grows busy ds a (a'.enable i).2 where
  tidy := h.tidy.enable i
  staffed := h.staffed.enable i
  now := (now_after a' (.enable i)).trans h.now
  wakes := fun id known => (h.wakes id known).trans (wakes_enable _ a' i id)

/-- Only a new task may be enabled later. -/
theorem Grows.enableDelayed (h : Grows busy ds a a') (new : a.nextId ≤ i.number) (delay : Nat) :
    Grows busy ds a (a'.enableDelayed i delay).2 where
  tidy := h.tidy.after (.enableDelayed i delay)
  staffed := h.staffed.enableDelayed i delay
  now := (now_after a' (.enableDelayed i delay)).trans h.now
  wakes := by
    intro id known
    refine (h.wakes id known).trans (wakes_enableDelayed _ a' delay ?_)
    rintro rfl
    exact Nat.lt_irrefl _ (Nat.lt_of_lt_of_le known new)

/-- The tasks of a link that is opened were added.  Its exchange is enabled, and neither the task
that reads nor the one that sends is. -/
structure Enrols (busy : TaskId → Prop) (ds : List (TaskId × Action α)) (id : LinkId)
    (tasks : LinkTasks) (a a' : Agenda (Action α)) : Prop
    extends Grows busy (ds ++ tasks.duties id) a a' where
  clock : tasks.timeSync = none
  order : tasks.exchange.number < tasks.read.number
  ready : a'.isEnabled tasks.exchange = true
  read : a'.isEnabled tasks.read = false
  send : a'.isEnabled tasks.send = false

end Agenda

end SpanningMesh
