import SpanningMesh.Proofs.Node.Keeping
import SpanningMesh.Proofs.Node.InStep

/-!
# Events that wait to be told

A node does not tell an event at once.  It puts a task for it on its agenda, which runs once in the
next pass.  `Agenda.news` lists the events that wait there, oldest first.  A task that is `Posted` is
ready to tell its event in the next pass.

Besides a pass, nothing that happens to an agenda takes an event off it.  `Agenda.Brings es a b` says
that an agenda `a` became `b`, with the events `es` behind those that waited already.  Each operation
on agendas has a lemma for it.  Most of them concern the task of a link, or the task that announces,
and under its handle no event waits (`Agenda.Apart`).
-/

namespace SpanningMesh

/-- The event that an action tells. -/
def Action.event? {α : Type} : Action α → Option Event
  | tell e => some e
  | exchange _ | timeout _ | read _ | send _ | setClock _ | announce | application _ => none

namespace Task

variable {α : Type} {now : Nat} {t u v : Task α}

/-- A task is to run once, in the next pass. -/
structure Posted (now : Nat) (t : Task α) : Prop where
  enabled : t.enabled = true
  pooled : t.persistent = false
  once : t.left = .times 1
  due : t.due ≤ now

/-- A task is what it was, but it may have become due now. -/
def Hastened (now : Nat) (t u : Task α) : Prop := u = t ∨ u = { t with due := now }

theorem Hastened.action (h : Hastened now t u) : u.action = t.action := by
  rcases h with rfl | rfl <;> rfl

theorem Hastened.trans (first : Hastened now t u) (next : Hastened now u v) : Hastened now t v := by
  rcases next with rfl | rfl
  · exact first
  · rcases first with rfl | rfl <;> exact .inr rfl

/-- A task that is hastened stays posted. -/
theorem Posted.hastened (posted : t.Posted now) (h : Hastened now t u) : u.Posted now := by
  rcases h with rfl | rfl
  · exact posted
  · exact ⟨posted.enabled, posted.pooled, posted.once, Nat.le_refl now⟩

end Task

namespace Agenda

variable {α : Type} {a b c : Agenda (Action α)} {es es' : List Event} {e : Event} {i : TaskId}

/-- The events that wait, oldest first, each with the handle of its task. -/
def news (a : Agenda (Action α)) : List (TaskId × Event) :=
  a.tasks.filterMap fun x => x.2.action.event?.map (x.1, ·)

theorem mem_news : (i, e) ∈ a.news ↔ ∃ t, (i, t) ∈ a.tasks ∧ t.action.event? = some e := by
  simp [news]

/-- The events that wait under a handle, of which there is one at most. -/
def newsUnder (a : Agenda (Action α)) (i : TaskId) : List Event :=
  (a.news.filter (·.1 = i)).map Prod.snd

/-- Every event that waits is told in the next pass. -/
def Posted (a : Agenda (Action α)) : Prop :=
  ∀ i t, (i, t) ∈ a.tasks → t.action.event?.isSome = true → t.Posted a.now

/-- No event waits under a handle. -/
def Apart (a : Agenda (Action α)) (i : TaskId) : Prop :=
  ∀ t, (i, t) ∈ a.tasks → t.action.event? = none

theorem Apart.not_mem (apart : a.Apart i) : i ∉ a.news.map Prod.fst := by
  intro mem
  obtain ⟨⟨i, e⟩, waits, rfl⟩ := List.mem_map.mp mem
  obtain ⟨t, there, tells⟩ := mem_news.mp waits
  rw [apart t there] at tells
  cases tells

/-- An agenda became another, with some events behind those that waited. -/
structure Brings (es : List Event) (a b : Agenda (Action α)) : Prop where
  now : b.now = a.now
  next : a.nextId ≤ b.nextId
  news : ∃ added, b.news = a.news ++ added ∧ added.map Prod.snd = es ∧
    ∀ x ∈ added, a.nextId ≤ x.1.number
  /-- What tells an event was added meanwhile, or it was there before. -/
  waits : ∀ i t, (i, t) ∈ b.tasks → t.action.event?.isSome = true →
    a.nextId ≤ i.number ∧ t.Posted a.now ∨ ∃ u, (i, u) ∈ a.tasks ∧ Task.Hastened a.now u t

theorem Brings.of_tasks_eq (now : b.now = a.now) (next : b.nextId = a.nextId)
    (tasks : b.tasks = a.tasks) : Brings [] a b where
  now := now
  next := Nat.le_of_eq next.symm
  news := ⟨[], by simp [Agenda.news, tasks], rfl, by simp⟩
  waits i t there _ := .inr ⟨t, tasks ▸ there, .inl rfl⟩

theorem Brings.refl (a : Agenda (Action α)) : Brings [] a a := .of_tasks_eq rfl rfl rfl

/-- What two courses bring is brought in that order. -/
theorem Brings.trans (first : Brings es a b) (next : Brings es' b c) : Brings (es ++ es') a c where
  now := next.now.trans first.now
  next := Nat.le_trans first.next next.next
  news := by
    obtain ⟨added, news, events, new⟩ := first.news
    obtain ⟨added', news', events', new'⟩ := next.news
    refine ⟨added ++ added', by simp [news, news'], by simp [events, events'], fun x hx => ?_⟩
    rcases List.mem_append.mp hx with old | later
    · exact new x old
    · exact Nat.le_trans first.next (new' x later)
  waits := by
    intro i t there tells
    rcases next.waits i t there tells with ⟨new, posted⟩ | ⟨u, between, hastened⟩
    · exact .inl ⟨Nat.le_trans first.next new, first.now ▸ posted⟩
    rw [first.now] at hastened
    rcases first.waits i u between (hastened.action ▸ tells) with ⟨new, posted⟩ | ⟨v, before, h⟩
    · exact .inl ⟨new, posted.hastened hastened⟩
    · exact .inr ⟨v, before, h.trans hastened⟩

/-- All news that is brought is posted. -/
theorem Posted.brings (posted : a.Posted) (brings : Brings es a b) : b.Posted := by
  intro i t there tells
  rw [brings.now]
  rcases brings.waits i t there tells with ⟨-, new⟩ | ⟨u, before, hastened⟩
  · exact new
  · exact (posted i u before (hastened.action ▸ tells)).hastened hastened

/-- A handle that was given to something else has no event waiting under it later. -/
theorem Apart.brings (apart : a.Apart i) (known : i.number < a.nextId) (brings : Brings es a b) :
    b.Apart i := by
  intro t there
  by_contra tells
  rcases brings.waits i t there (Option.isSome_iff_ne_none.mpr tells) with ⟨new, -⟩ | ⟨u, before, h⟩
  · exact Nat.lt_irrefl _ (Nat.lt_of_lt_of_le known new)
  · exact tells (h.action ▸ apart u before)

/-! ## What brings events -/

/-- An event that is posted is the last of the news. -/
theorem brings_addOnce (a : Agenda (Action α)) (e : Event) :
    Brings [e] a (a.addOnce (.tell e)).2 where
  now := rfl
  next := Nat.le_succ _
  news := ⟨[(⟨a.nextId⟩, e)], by simp [Agenda.news, addOnce, add, insert, Action.event?], rfl,
    by simp⟩
  waits i t there _ := by
    rcases List.mem_append.mp there with old | new
    · exact .inr ⟨t, old, .inl rfl⟩
    · obtain ⟨rfl, rfl⟩ := Prod.mk.inj (List.mem_singleton.mp new)
      exact .inl ⟨Nat.le_refl _, rfl, rfl, rfl, Nat.le_refl _⟩

/-- Any other task that is added brings no event. -/
theorem brings_insert (a : Agenda (Action α)) (interval : Nat) (runs : Runs) (persistent : Bool)
    {action : Action α} (silent : action.event? = none) :
    Brings [] a (a.insert interval runs persistent action).2 where
  now := rfl
  next := Nat.le_succ _
  news := ⟨[], by simp [Agenda.news, insert, silent], rfl, by simp⟩
  waits i t there tells := by
    rcases List.mem_append.mp there with old | new
    · exact .inr ⟨t, old, .inl rfl⟩
    · obtain ⟨-, rfl⟩ := Prod.mk.inj (List.mem_singleton.mp new)
      simp [silent] at tells

/-- No event waits under the handle that any other task is given. -/
theorem apart_insert (fresh : ∀ i ∈ a.ids, i.number < a.nextId) (interval : Nat) (runs : Runs)
    (persistent : Bool) {action : Action α} (silent : action.event? = none) :
    (a.insert interval runs persistent action).2.Apart ⟨a.nextId⟩ := by
  intro t there
  rcases List.mem_append.mp there with old | new
  · exact absurd (fresh _ (List.mem_map_of_mem old)) (Nat.lt_irrefl _)
  · obtain ⟨-, rfl⟩ := Prod.mk.inj (List.mem_singleton.mp new)
    exact silent

theorem mem_update {k : TaskId} {f : Task (Action α) → Task (Action α)} {t : Task (Action α)}
    (there : (k, t) ∈ (a.update i f).tasks) :
    ∃ u, (k, u) ∈ a.tasks ∧ t = if k = i then f u else u := by
  obtain ⟨⟨j, u⟩, old, same⟩ := List.mem_map.mp there
  by_cases here : j = i
  · obtain ⟨rfl, rfl⟩ := Prod.mk.inj (same.symm.trans (if_pos here))
    exact ⟨u, old, (if_pos here).symm⟩
  · obtain ⟨rfl, rfl⟩ := Prod.mk.inj (same.symm.trans (if_neg here))
    exact ⟨_, old, (if_neg here).symm⟩

/-- News does not depend on when a task is due. -/
theorem news_update (a : Agenda (Action α)) (i : TaskId) {f : Task (Action α) → Task (Action α)}
    (kept : ∀ t, (f t).action = t.action) : (a.update i f).news = a.news := by
  simp only [news, update, List.filterMap_map]
  refine List.filterMap_congr fun x _ => ?_
  by_cases here : x.1 = i
  · simp [here, kept]
  · simp [here]

/-- The tasks with a handle that no event waits under may be changed at will. -/
theorem Apart.update (apart : a.Apart i) {f : Task (Action α) → Task (Action α)}
    (kept : ∀ t, (f t).action = t.action) : Brings [] a (a.update i f) where
  now := rfl
  next := Nat.le_refl _
  news := ⟨[], by simp [news_update a i kept], rfl, by simp⟩
  waits k t there tells := by
    obtain ⟨u, old, rfl⟩ := mem_update there
    by_cases here : k = i
    · subst here
      rw [if_pos rfl, kept, apart u old] at tells
      cases tells
    · exact .inr ⟨u, old, .inl (if_neg here)⟩

/-- The events under some handles are those of the tasks with these handles. -/
theorem filter_news (a : Agenda (Action α)) (p : TaskId → Prop) [DecidablePred p] :
    a.news.filter (p ·.1) =
      (a.tasks.filter (p ·.1)).filterMap fun x => x.2.action.event?.map (x.1, ·) := by
  simp only [news, List.filterMap_filter, List.filter_filterMap]
  refine List.filterMap_congr fun x _ => ?_
  cases x.2.action.event? with
  | none => simp
  | some e => by_cases here : p x.1 <;> simp [here, Option.filter]

theorem news_erase (a : Agenda (Action α)) (i : TaskId) :
    (a.erase i).news = a.news.filter (·.1 ≠ i) :=
  (filter_news a (· ≠ i)).symm

theorem Apart.newsUnder (apart : a.Apart i) : a.newsUnder i = [] := by
  have none : a.news.filter (·.1 = i) = [] :=
    List.filter_eq_nil_iff.mpr fun x hx same =>
      apart.not_mem (of_decide_eq_true same ▸ List.mem_map_of_mem hx)
  rw [Agenda.newsUnder, none, List.map_nil]

/-- To take away a task that tells nothing takes no news away. -/
theorem Apart.news_filter (apart : a.Apart i) : a.news.filter (·.1 ≠ i) = a.news := by
  refine List.filter_eq_self.mpr fun x hx => decide_eq_true fun here => ?_
  exact apart.not_mem (here ▸ List.mem_map_of_mem hx)

theorem Apart.erase (apart : a.Apart i) : Brings [] a (a.erase i) where
  now := rfl
  next := Nat.le_refl _
  news := ⟨[], by simp only [news_erase, apart.news_filter, List.append_nil], rfl, by simp⟩
  waits k t there _ := .inr ⟨t, (List.mem_filter.mp there).1, .inl rfl⟩

/-- No news is lost with tasks that tell nothing. -/
theorem brings_foldl_erase {ids : List TaskId} (apart : ∀ i ∈ ids, a.Apart i) :
    Brings [] a (ids.foldl Agenda.erase a) := by
  induction ids generalizing a with
  | nil => exact .refl a
  | cons i ids ih =>
      refine (apart i List.mem_cons_self).erase.trans (ih fun k hk t there => ?_)
      exact apart k (List.mem_cons_of_mem _ hk) t (List.mem_filter.mp there).1

theorem Apart.enable (apart : a.Apart i) : Brings [] a (a.enable i).2 := by
  simp only [Agenda.enable]
  split
  · exact .refl a
  · dsimp only
    split
    · exact .refl a
    · exact apart.update (f := (·.armed a.now)) fun _ => rfl

theorem Apart.postpone (apart : a.Apart i) (due : Nat) : Brings [] a (a.postpone i due).2 := by
  simp only [Agenda.postpone]
  split
  · exact apart.update (f := fun t => { t with due := due }) fun _ => rfl
  · exact .refl a

theorem Apart.enableDelayed (apart : a.Apart i) (delay : Nat) (known : i.number < a.nextId) :
    Brings [] a (a.enableDelayed i delay).2 := by
  simp only [Agenda.enableDelayed]
  split
  · exact apart.enable.trans ((apart.brings known apart.enable).postpone _)
  · exact apart.enable

theorem Apart.restartDelayed (apart : a.Apart i) (delay : Nat) :
    Brings [] a (a.restartDelayed i delay).2 :=
  apart.update (f := (·.armed (Moment.after a.now delay))) fun _ => rfl

theorem Apart.disable (apart : a.Apart i) : Brings [] a (a.disable i).2 := by
  simp only [Agenda.disable]
  split
  · exact .refl a
  · dsimp only
    split
    · exact apart.update (f := fun t => { t with enabled := false }) fun _ => rfl
    · exact apart.erase

/-- A task may be made due now whatever it does. -/
theorem brings_force (a : Agenda (Action α)) (i : TaskId) : Brings [] a (a.force i).2 := by
  simp only [Agenda.force, Agenda.postpone]
  split
  · let f (t : Task (Action α)) : Task (Action α) := { t with due := a.now }
    have news : (a.update i f).news = a.news := news_update a i fun _ => rfl
    refine ⟨rfl, Nat.le_refl _, ⟨[], by simp [f, news], rfl, by simp⟩, fun k t there _ => ?_⟩
    obtain ⟨u, old, rfl⟩ := mem_update there
    by_cases here : k = i
    · exact .inr ⟨u, old, .inr (if_pos here)⟩
    · exact .inr ⟨u, old, .inl (if_neg here)⟩
  · exact .refl a

/-! ## Turns -/

/-- News was given its number before. -/
theorem lt_of_mem_news (fresh : ∀ i ∈ a.ids, i.number < a.nextId) {x : TaskId × Event}
    (waits : x ∈ a.news) : x.1.number < a.nextId := by
  obtain ⟨t, there, -⟩ := mem_news.mp waits
  exact fresh x.1 (List.mem_map_of_mem there)

/-- The events that came to wait have the handles that were given out meanwhile. -/
theorem Brings.news_filter (brings : Brings es a b)
    (fresh : ∀ i ∈ a.ids, i.number < a.nextId) :
    (b.news.filter (a.nextId ≤ ·.1.number)).map Prod.snd = es := by
  obtain ⟨added, news, events, new⟩ := brings.news
  have old : a.news.filter (a.nextId ≤ ·.1.number) = [] :=
    List.filter_eq_nil_iff.mpr fun x hx => by
      simpa using lt_of_mem_news fresh hx
  have all : added.filter (a.nextId ≤ ·.1.number) = added :=
    List.filter_eq_self.mpr fun x hx => by simpa using new x hx
  rw [news, List.filter_append, old, all, List.nil_append, events]

/-- The events under some handles were told, and others came to wait meanwhile. -/
structure Clears (ids : List TaskId) (es : List Event) (a b : Agenda (Action α)) : Prop where
  now : b.now = a.now
  next : a.nextId ≤ b.nextId
  news : ∃ added, b.news = a.news.filter (·.1 ∉ ids) ++ added ∧ added.map Prod.snd = es ∧
    ∀ x ∈ added, a.nextId ≤ x.1.number

/-- Handles that are still to have their turns are not those of events which came meanwhile. -/
theorem Clears.trans {ids ids' : List TaskId} (first : Clears ids es a b)
    (next : Clears ids' es' b c) (known : ∀ i ∈ ids', i.number < a.nextId) :
    Clears (ids ++ ids') (es ++ es') a c where
  now := next.now.trans first.now
  next := Nat.le_trans first.next next.next
  news := by
    obtain ⟨added, news, events, new⟩ := first.news
    obtain ⟨added', news', events', new'⟩ := next.news
    have kept : added.filter (·.1 ∉ ids') = added :=
      List.filter_eq_self.mpr fun x hx => decide_eq_true fun mem =>
        Nat.lt_irrefl _ (Nat.lt_of_lt_of_le (known x.1 mem) (new x hx))
    refine ⟨added ++ added', ?_, by simp [events, events'], fun x hx => ?_⟩
    · rw [news', news, List.filter_append, List.filter_filter, kept, List.append_assoc]
      congr 1
      refine List.filter_congr fun x _ => ?_
      simp [Bool.and_comm]
    · rcases List.mem_append.mp hx with old | later
      · exact new x old
      · exact Nat.le_trans first.next (new' x later)

/-- What waits under any other handle waits still. -/
theorem Clears.newsUnder {ids : List TaskId} (clears : Clears ids es a b) (other : i ∉ ids)
    (known : i.number < a.nextId) : b.newsUnder i = a.newsUnder i := by
  obtain ⟨added, news, -, new⟩ := clears.news
  have none : added.filter (·.1 = i) = [] :=
    List.filter_eq_nil_iff.mpr fun x hx same =>
      absurd known (Nat.not_lt.mpr (of_decide_eq_true same ▸ new x hx))
  rw [Agenda.newsUnder, news, List.filter_append, none, List.append_nil, List.filter_filter]
  refine congrArg _ (List.filter_congr fun x _ => ?_)
  by_cases here : x.1 = i <;> simp [here, other]

/-- To have its turn changes nothing about the other tasks. -/
theorem mem_of_mem_finish {k : TaskId} {t : Task (Action α)} (there : (k, t) ∈ (a.finish i).tasks)
    (other : k ≠ i) : (k, t) ∈ a.tasks := by
  simp only [finish] at there
  split at there
  · exact there
  · split at there
    · obtain ⟨u, old, rfl⟩ := mem_update there
      rwa [if_neg other]
    · exact (List.mem_filter.mp there).1

/-- After its turn, a task that told an event is forgotten. -/
theorem news_finish (different : a.ids.Nodup) (spent : ∀ t, (i, t) ∈ a.tasks →
    t.action.event?.isSome = true → t.enabled = false ∧ t.persistent = false) :
    (a.finish i).news = a.news.filter (·.1 ≠ i) := by
  simp only [finish]
  split
  next none =>
    have apart : a.Apart i := fun t there =>
      absurd (List.mem_map_of_mem there) (find?_eq_none_iff.mp none)
    exact apart.news_filter.symm
  next t found =>
    split
    next stays =>
      have apart : a.Apart i := by
        intro u there
        obtain rfl := Option.some.inj ((find?_of_mem different there).symm.trans found)
        by_contra tells
        obtain ⟨off, pooled⟩ := spent u there (Option.isSome_iff_ne_none.mpr tells)
        simp [off, pooled] at stays
      rw [apart.news_filter]
      exact news_update a i (f := fun t => { t with running := false }) fun _ => rfl
    · exact news_erase a i

/-- When a task has its turn while all events that wait are due, what it tells waits no more.  What
its action brings is due in the next pass. -/
theorem Posted.turn {now : Nat} (posted : a.Posted) (known : i.number < a.nextId)
    (brings : Brings es (a.begin i now) b) (different : b.ids.Nodup) :
    Clears [i] es a (b.finish i) ∧ (b.finish i).Posted := by
  have begun : (a.begin i now).news = a.news := news_update a i fun _ => rfl
  have kept : (b.finish i).now = b.now ∧ (b.finish i).nextId = b.nextId := by
    simp only [finish]
    split
    · exact ⟨rfl, rfl⟩
    · split <;> exact ⟨rfl, rfl⟩
  have spent : ∀ u, (i, u) ∈ b.tasks → u.action.event?.isSome = true →
      u.enabled = false ∧ u.persistent = false := by
    intro u mem tells
    rcases brings.waits i u mem tells with ⟨new, -⟩ | ⟨v, before, hastened⟩
    · exact absurd known (Nat.not_lt.mpr new)
    · obtain ⟨w, old, rfl⟩ := mem_update before
      rw [if_pos rfl] at hastened
      have waits := posted i w old (hastened.action ▸ tells)
      rcases hastened with rfl | rfl <;>
        simp [Task.begun, waits.once, waits.pooled, Runs.afterOne, Runs.isOver]
  have told : (b.finish i).news = b.news.filter (·.1 ≠ i) := news_finish different spent
  refine ⟨⟨kept.1.trans brings.now, kept.2.symm ▸ brings.next, ?_⟩, fun k u mem tells => ?_⟩
  · obtain ⟨added, news, events, new⟩ := brings.news
    have others : added.filter (·.1 ≠ i) = added :=
      List.filter_eq_self.mpr fun x hx => decide_eq_true fun same =>
        absurd known (Nat.not_lt.mpr (same ▸ new x hx))
    refine ⟨added, ?_, events, new⟩
    rw [told, news, begun, List.filter_append, others]
    simp
  · have other : k ≠ i := by
      rintro rfl
      obtain ⟨e, tells⟩ := Option.isSome_iff_exists.mp tells
      have waits : (k, e) ∈ (b.finish k).news := mem_news.mpr ⟨u, mem, tells⟩
      rw [told] at waits
      simp at waits
    rw [kept.1, brings.now]
    rcases brings.waits k u (mem_of_mem_finish mem other) tells with ⟨-, new⟩ | ⟨v, before, h⟩
    · exact new
    · obtain ⟨w, old, rfl⟩ := mem_update before
      rw [if_neg other] at h
      exact (posted k w old (h.action ▸ tells)).hastened h

/-- The event that waits under the handle of a task, if it tells one. -/
theorem newsUnder_of_mem (different : a.ids.Nodup) {t : Task (Action α)}
    (there : (i, t) ∈ a.tasks) : a.newsUnder i = t.action.event?.toList := by
  obtain ⟨before, after, tasks⟩ := List.append_of_mem there
  have apart : ∀ x ∈ before ++ after, x.1 ≠ i := by
    intro x hx same
    rw [ids, tasks, List.map_append, List.map_cons, List.nodup_middle, ← List.map_append] at different
    exact (List.nodup_cons.mp different).1 (List.mem_map.mpr ⟨x, hx, same⟩)
  have none : ∀ xs : List (TaskId × Task (Action α)), (∀ x ∈ xs, x.1 ≠ i) →
      xs.filter (·.1 = i) = [] :=
    fun xs apart => List.filter_eq_nil_iff.mpr fun x hx => by simpa using apart x hx
  have only : a.tasks.filter (·.1 = i) = [(i, t)] := by
    rw [tasks, List.filter_append, none before fun x hx => apart x (List.mem_append_left _ hx),
      List.filter_cons_of_pos (by simp), none after fun x hx => apart x (List.mem_append_right _ hx),
      List.nil_append]
  rw [newsUnder, filter_news a (· = i), only]
  cases tells : t.action.event? <;> simp [tells]

/-- All events that wait are told by the tasks that are due, in the order in which they wait. -/
theorem Posted.flatMap_dueIds (posted : a.Posted) (different : a.ids.Nodup) {now : Nat}
    (le : a.now ≤ now) : (a.dueIds now).flatMap a.newsUnder = a.news.map Prod.snd := by
  have each : (a.dueIds now).flatMap a.newsUnder =
      (a.tasks.filter (·.2.isDue now)).flatMap fun x => x.2.action.event?.toList := by
    rw [dueIds, List.flatMap_map]
    exact List.flatMap_congr fun x hx => newsUnder_of_mem different (List.mem_filter.mp hx).1
  rw [each, ← List.filterMap_eq_flatMap_toList, List.filterMap_filter, news, List.map_filterMap]
  refine List.filterMap_congr fun x hx => ?_
  cases tells : x.2.action.event? with
  | none => simp
  | some e =>
      have ready := posted x.1 x.2 hx (by rw [tells]; rfl)
      simp [Task.isDue, ready.enabled, Nat.le_trans ready.due le]

/-- News is due at once. -/
theorem Posted.mem_dueIds (posted : a.Posted) {now : Nat} (le : a.now ≤ now) {x : TaskId × Event}
    (waits : x ∈ a.news) : x.1 ∈ a.dueIds now := by
  obtain ⟨t, there, tells⟩ := mem_news.mp waits
  have ready := posted x.1 t there (by rw [tells]; rfl)
  refine List.mem_map.mpr ⟨(x.1, t), List.mem_filter.mpr ⟨there, ?_⟩, rfl⟩
  simp [Task.isDue, ready.enabled, Nat.le_trans ready.due le]

end Agenda

end SpanningMesh
