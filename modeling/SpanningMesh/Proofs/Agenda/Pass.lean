import SpanningMesh.Proofs.Agenda.Tasks
import SpanningMesh.Proofs.Dispatch.Reentrance

/-!
# One pass over an agenda

What the action of a task does to the agenda it is on is a number of `Deed`s: it adds tasks,
removes them and arms them, its own task included.  Which ones may depend on everything there is
in the context, so nothing is asked of an action but that it runs no pass (`Deeds`).

A pass takes the tasks that are due when it begins, in the order of their handles.  `runs` lists
those that run, each with the context in which its turn comes.  A task has its turn only once, and
what a pass itself does to it, before and after its action, no other task can see.  So whether a
task runs is decided by the actions of the tasks before it (`exists_run_of_not_ran`).

Between passes no action is out of its task, and a pooled task is enabled or gone (`Tidy`).  While
an action runs, its task alone may differ from that.  This is why no task that is due is passed
over, and why nothing is left behind after a pass.
-/

namespace SpanningMesh

namespace Agenda

variable {α γ : Type}

/-! ## What is done to an agenda -/

/-- What is done to an agenda, other than to run a pass. -/
inductive Deed (α : Type) where
  | insert (interval : Nat) (runs : Runs) (persistent : Bool) (action : α)
  | enable (id : TaskId)
  | enableDelayed (id : TaskId) (delay : Nat)
  | restartDelayed (id : TaskId) (delay : Nat)
  | delay (id : TaskId) (delay : Nat)
  | force (id : TaskId)
  | disable (id : TaskId)
  | remove (id : TaskId)
  | clear
deriving Repr

/-- An agenda after a deed. -/
def after (a : Agenda α) : Deed α → Agenda α
  | .insert interval runs persistent action => (a.insert interval runs persistent action).2
  | .enable id => (a.enable id).2
  | .enableDelayed id delay => (a.enableDelayed id delay).2
  | .restartDelayed id delay => (a.restartDelayed id delay).2
  | .delay id delay => (a.delay id delay).2
  | .force id => (a.force id).2
  | .disable id => (a.disable id).2
  | .remove id => (a.remove id).2
  | .clear => a.clear

/-- No deed moves the clock. -/
theorem now_after (a : Agenda α) (d : Deed α) : (a.after d).now = a.now := by
  have enable : ∀ (a : Agenda α) id, (a.enable id).2.now = a.now := by
    intro a id
    simp only [Agenda.enable]
    split
    · rfl
    · dsimp only
      split <;> rfl
  have postpone : ∀ (a : Agenda α) id due, (a.postpone id due).2.now = a.now := by
    intro a id due
    simp only [Agenda.postpone]
    split <;> rfl
  cases d with
  | enable id => exact enable a id
  | enableDelayed id delay =>
      simp only [after, Agenda.enableDelayed]
      split
      · exact (postpone _ id _).trans (enable a id)
      · exact enable a id
  | delay id delay => exact postpone a id _
  | force id => exact postpone a id _
  | disable id =>
      simp only [after, Agenda.disable]
      split
      · rfl
      · dsimp only
        split <;> rfl
  | insert | restartDelayed | remove | clear => rfl

/-- Deeds take no time. -/
theorem now_foldl_after (a : Agenda α) (deeds : List (Deed α)) :
    (deeds.foldl after a).now = a.now := by
  induction deeds generalizing a with
  | nil => rfl
  | cons d deeds ih => rw [List.foldl_cons, ih, now_after]

/-- What actions do to the agenda is a number of deeds, whatever else they do. -/
def Deeds (agenda : Focus γ (Agenda α)) (run : α → γ → γ) : Prop :=
  ∀ x c, ∃ deeds : List (Deed α), agenda.get (run x c) = deeds.foldl after (agenda.get c)

/-- The contexts in which an agenda may be found between passes, if it was empty at first. -/
inductive Reachable (agenda : Focus γ (Agenda α)) (run : α → γ → γ) : γ → Prop where
  | empty {c : γ} (none : agenda.get c = {}) : Reachable agenda run c
  | deed {c c' : γ} (before : Reachable agenda run c) (d : Deed α)
      (done : agenda.get c' = (agenda.get c).after d) : Reachable agenda run c'
  | pass {c : γ} (before : Reachable agenda run c) (now : Nat) :
      Reachable agenda run (execute agenda run now c).1

/-! ## Tidy agendas -/

/-- Handles increase, and but for the tasks whose actions run, no action is out of its task and no
pooled task is disabled. -/
structure Tidy (busy : TaskId → Prop) (a : Agenda α) : Prop where
  /-- Handles are given in increasing order. -/
  sorted : a.ids.Pairwise (·.number < ·.number)
  /-- The next handle is a new one. -/
  fresh : ∀ id ∈ a.ids, id.number < a.nextId
  /-- No action is out of its task. -/
  idle : ∀ id t, a.find? id = some t → t.running = true → busy id
  /-- A pooled task is enabled. -/
  pooled : ∀ id t, a.find? id = some t → t.persistent = false → t.enabled = false → busy id

variable {busy : TaskId → Prop} {a : Agenda α} {id i : TaskId} {t : Task α}

theorem tidy_nil (nextId now : Nat) : Tidy busy (⟨[], nextId, now⟩ : Agenda α) where
  sorted := List.Pairwise.nil
  fresh := by
    intro id mem
    cases mem
  idle := by
    intro id t found
    cases found
  pooled := by
    intro id t found
    cases found

theorem Tidy.nodup (h : Tidy busy a) : a.ids.Nodup :=
  h.sorted.imp fun {i j} lt same => by
    rw [same] at lt
    exact Nat.lt_irrefl _ lt

/-- When no action runs, every action is in its task and every pooled task is enabled. -/
theorem Tidy.at_rest (h : Tidy (fun _ => False) a) (found : a.find? id = some t) :
    t.running = false ∧ (t.persistent = false → t.enabled = true) := by
  constructor
  · by_contra out
    exact h.idle id t found (by simpa using out)
  · intro pool
    by_contra off
    exact h.pooled id t found pool (by simpa using off)

/-- A change of one task keeps an agenda tidy if the action of the task runs, or else if it leaves
the action where it is and does not disable a pooled task. -/
theorem Tidy.update (h : Tidy busy a) (i : TaskId) (f : Task α → Task α)
    (kept : ∀ t, a.find? i = some t → ¬ busy i →
      ((f t).running = true → t.running = true) ∧
      ((f t).persistent = false → (f t).enabled = false →
        t.persistent = false ∧ t.enabled = false)) :
    Tidy busy (a.update i f) where
  sorted := ids_update a i f ▸ h.sorted
  fresh := ids_update a i f ▸ h.fresh
  idle := by
    intro id t found out
    by_cases same : id = i
    · subst same
      rw [find?_update_self] at found
      obtain ⟨u, before, rfl⟩ := Option.map_eq_some_iff.mp found
      by_contra rests
      exact rests (h.idle id u before ((kept u before rests).1 out))
    · rw [find?_update_of_ne a f same] at found
      exact h.idle id t found out
  pooled := by
    intro id t found pool off
    by_cases same : id = i
    · subst same
      rw [find?_update_self] at found
      obtain ⟨u, before, rfl⟩ := Option.map_eq_some_iff.mp found
      by_contra rests
      obtain ⟨pool', off'⟩ := (kept u before rests).2 pool off
      exact rests (h.pooled id u before pool' off')
    · rw [find?_update_of_ne a f same] at found
      exact h.pooled id t found pool off

theorem Tidy.erase (h : Tidy busy a) (i : TaskId) : Tidy busy (a.erase i) where
  sorted := ids_erase a i ▸ h.sorted.sublist List.filter_sublist
  fresh := by
    intro id mem
    rw [ids_erase] at mem
    exact h.fresh id (List.mem_filter.mp mem).1
  idle := by
    intro id t found
    rw [find?_erase] at found
    split at found
    · cases found
    · exact h.idle id t found
  pooled := by
    intro id t found
    rw [find?_erase] at found
    split at found
    · cases found
    · exact h.pooled id t found

/-- A new id lies behind all others. -/
theorem Tidy.insert (h : Tidy busy a) (interval : Nat) (runs : Runs) (persistent : Bool)
    (action : α) : Tidy busy (a.insert interval runs persistent action).2 where
  sorted := by
    rw [ids_insert, List.pairwise_append]
    refine ⟨h.sorted, List.pairwise_singleton _ _, fun id mem new last => ?_⟩
    rw [List.mem_singleton.mp last]
    exact h.fresh id mem
  fresh := by
    intro id mem
    rw [ids_insert, List.mem_append, List.mem_singleton] at mem
    rcases mem with old | rfl
    · exact Nat.lt_succ_of_lt (h.fresh id old)
    · exact Nat.lt_succ_self _
  idle := by
    intro id t found out
    rw [find?_insert a h.fresh] at found
    split at found
    · cases found
      cases out
    · exact h.idle id t found out
  pooled := by
    intro id t found pool off
    rw [find?_insert a h.fresh] at found
    split at found
    · cases found
      simp only at pool off
      simp [pool] at off
    · exact h.pooled id t found pool off

theorem Tidy.enable (h : Tidy busy a) (i : TaskId) : Tidy busy (a.enable i).2 := by
  simp only [Agenda.enable]
  split
  · exact h
  · dsimp only
    split
    · exact h
    · exact h.update i (·.armed a.now) fun t _ _ =>
        ⟨fun out => out, fun _ off => Bool.noConfusion off⟩

theorem Tidy.postpone (h : Tidy busy a) (i : TaskId) (due : Nat) :
    Tidy busy (a.postpone i due).2 := by
  simp only [Agenda.postpone]
  split
  · exact h.update i (fun t => { t with due := due }) fun t _ _ =>
      ⟨fun out => out, fun pool off => ⟨pool, off⟩⟩
  · exact h

theorem Tidy.disable (h : Tidy busy a) (i : TaskId) : Tidy busy (a.disable i).2 := by
  simp only [Agenda.disable]
  split
  · exact h
  next t found =>
    dsimp only
    split
    next stays =>
      refine h.update i _ fun u found' _ => ⟨fun out => out, fun pool _ => ?_⟩
      obtain rfl := Option.some.inj (found.symm.trans found')
      exact absurd stays (Bool.eq_false_iff.mp pool)
    next => exact h.erase i

/-- Every deed keeps an agenda tidy, also while actions run. -/
theorem Tidy.after (h : Tidy busy a) (d : Deed α) : Tidy busy (a.after d) := by
  cases d with
  | insert interval runs persistent action => exact h.insert interval runs persistent action
  | enable id => exact h.enable id
  | enableDelayed id delay =>
      simp only [Agenda.after, Agenda.enableDelayed]
      split
      · exact (h.enable id).postpone id _
      · exact h.enable id
  | restartDelayed id delay =>
      exact h.update id (·.armed (Moment.after a.now delay)) fun t _ _ =>
        ⟨fun out => out, fun _ off => Bool.noConfusion off⟩
  | delay id delay => exact h.postpone id _
  | force id => exact h.postpone id _
  | disable id => exact h.disable id
  | remove id => exact h.erase id
  | clear => exact tidy_nil a.nextId a.now

/-- No deeds make an agenda untidy. -/
theorem Tidy.foldl_after (h : Tidy busy a) (deeds : List (Deed α)) :
    Tidy busy (deeds.foldl Agenda.after a) := by
  induction deeds generalizing a with
  | nil => exact h
  | cons d deeds ih => exact ih (h.after d)

theorem Tidy.clock (h : Tidy busy a) (now : Nat) : Tidy busy { a with now } :=
  ⟨h.sorted, h.fresh, h.idle, h.pooled⟩

/-- While its action runs, a task may differ from the others. -/
theorem Tidy.begin (h : Tidy busy a) (id : TaskId) (now : Nat) :
    Tidy (fun i => i = id ∨ busy i) (a.begin id now) := by
  have more : Tidy (fun i => i = id ∨ busy i) a :=
    ⟨h.sorted, h.fresh, fun i t found out => .inr (h.idle i t found out),
      fun i t found pool off => .inr (h.pooled i t found pool off)⟩
  exact more.update id _ fun _ _ rests => absurd (.inl rfl) rests

theorem nextId_finish (a : Agenda α) (id : TaskId) : (a.finish id).nextId = a.nextId := by
  simp only [finish]
  split
  · rfl
  · split <;> rfl

/-- After its action a task is as tidy as the others. -/
theorem Tidy.finish (h : Tidy (fun i => i = id ∨ busy i) a) : Tidy busy (a.finish id) := by
  have others : ∀ i t, (a.finish id).find? i = some t →
      (i = id ∧ t.running = false ∧ (t.enabled || t.persistent) = true) ∨
        (i ≠ id ∧ a.find? i = some t) := by
    intro i t found
    rw [find?_finish] at found
    split at found
    next same =>
      obtain ⟨u, before, rest⟩ := Option.bind_eq_some_iff.mp found
      split at rest
      next stays =>
        cases rest
        exact .inl ⟨same, rfl, stays⟩
      next => cases rest
    next other => exact .inr ⟨other, found⟩
  have sublist : (a.finish id).ids.Sublist a.ids := by
    simp only [Agenda.finish]
    split
    · exact .refl _
    · split
      · exact ids_update a id _ ▸ .refl _
      · exact ids_erase a id ▸ List.filter_sublist
  refine ⟨h.sorted.sublist sublist,
    fun i mem => nextId_finish a id ▸ h.fresh i (sublist.mem mem), ?_, ?_⟩
  · intro i t found out
    rcases others i t found with ⟨-, idle, -⟩ | ⟨other, before⟩
    · rw [idle] at out
      cases out
    · exact (h.idle i t before out).resolve_left other
  · intro i t found pool off
    rcases others i t found with ⟨-, -, stays⟩ | ⟨other, before⟩
    · rw [pool, off] at stays
      cases stays
    · exact (h.pooled i t before pool off).resolve_left other

/-! ## The runs of a pass -/

/-- A task that runs in a pass, and the context in which its turn comes. -/
structure Run (α γ : Type) where
  id : TaskId
  task : Task α
  context : γ

section

variable (agenda : Focus γ (Agenda α)) (run : α → γ → γ) (now : Nat)

namespace Run

/-- The context in which the action starts.  The run is accounted for already. -/
def start (r : Run α γ) : γ := agenda.modify (·.begin r.id now) r.context

/-- The action and the context it starts in. -/
def call (r : Run α γ) : α × γ := (r.task.action, r.start agenda now)

/-- The context that the action leaves. -/
def stop (r : Run α γ) : γ := run r.task.action (r.start agenda now)

/-- The run of a task whose turn it is, if it runs. -/
def ofTurn (id : TaskId) (c : γ) : Option (Run α γ) :=
  ((agenda.get c).find? id).bind fun t =>
    if t.isDue now && !t.running then some ⟨id, t, c⟩ else none

end Run

/-- The runs when some tasks have their turns. -/
def runs : List TaskId → γ → List (Run α γ)
  | [], _ => []
  | id :: ids, c =>
      (Run.ofTurn agenda now id c).toList ++ runs ids (turn agenda run now id c).1

/-- The context after the turns of some tasks. -/
def afterTurns (ids : List TaskId) (c : γ) : γ :=
  ids.foldl (fun c id => (turn agenda run now id c).1) c

/-- Do what an action says and note it down with the context it starts in. -/
def noting (x : α) (c : γ × List (α × γ)) : γ × List (α × γ) := (run x c.1, c.2 ++ [(x, c.1)])

/-- A turn runs the task if it is due, and does nothing otherwise. -/
theorem turn_eq (id : TaskId) (c : γ) :
    turn agenda run now id c =
      match Run.ofTurn agenda now id c with
      | none => (c, false)
      | some r => (agenda.modify (·.finish id) (r.stop agenda run now), true) := by
  simp only [turn, Run.ofTurn]
  cases found : (agenda.get c).find? id with
  | none => rfl
  | some t =>
      by_cases due : (t.isDue now && !t.running) = true
      · simp only [Option.bind_some, if_pos due]
        rfl
      · simp only [Option.bind_some, if_neg due]

theorem turns_cons (id : TaskId) (ids : List TaskId) (c : γ) :
    turns agenda run now (id :: ids) c =
      let (c, ran) := turn agenda run now id c
      let (c, count) := turns agenda run now ids c
      (c, if ran then count + 1 else count) := by
  unfold turns
  rw [List.foldl_cons]
  dsimp only
  cases (turn agenda run now id c).2 with
  | false => rfl
  | true =>
      -- A count that starts one higher ends one higher.
      refine @List.foldl_hom _ _ _ (fun x : γ × Nat => (x.1, x.2 + 1)) _ _ ids
        ((turn agenda run now id c).1, 0) fun x id => ?_
      dsimp only
      cases (turn agenda run now id x.1).2 <;> rfl

/-- Turns count the runs that they make. -/
theorem turns_eq (ids : List TaskId) (c : γ) :
    turns agenda run now ids c =
      (afterTurns agenda run now ids c, (runs agenda run now ids c).length) := by
  induction ids generalizing c with
  | nil => rfl
  | cons id ids ih =>
      rw [turns_cons]
      simp only [ih, runs, afterTurns, List.foldl_cons, turn_eq]
      cases Run.ofTurn agenda now id c with
      | none => rfl
      | some r => simp [Nat.add_comm]

/-- To note each run beside the agenda does not change what the turn does. -/
theorem turn_noting (id : TaskId) (c : γ) (notes : List (α × γ)) :
    turn (agenda.beside (List (α × γ))) (noting run) now id (c, notes) =
      (((turn agenda run now id c).1,
        notes ++ (Run.ofTurn agenda now id c).toList.map (Run.call agenda now)),
        (turn agenda run now id c).2) := by
  rw [turn_eq, turn_eq]
  simp only [Run.ofTurn, Focus.beside]
  cases (agenda.get c).find? id with
  | none => simp
  | some t =>
      by_cases due : (t.isDue now && !t.running) = true
      · simp only [Option.bind_some, if_pos due]
        rfl
      · simp only [Option.bind_some, if_neg due, Option.toList_none, List.map_nil, List.append_nil]

/-- Turns in which each action notes that it runs make one note for each of the runs, in their
order, and do not differ otherwise. -/
theorem turns_noting (ids : List TaskId) (c : γ) (notes : List (α × γ)) :
    turns (agenda.beside (List (α × γ))) (noting run) now ids (c, notes) =
      ((afterTurns agenda run now ids c,
        notes ++ (runs agenda run now ids c).map (Run.call agenda now)),
        (runs agenda run now ids c).length) := by
  induction ids generalizing c notes with
  | nil => simp [turns, afterTurns, runs]
  | cons id ids ih =>
      rw [turns_cons, turn_noting]
      simp only [ih, runs, afterTurns, List.foldl_cons, turn_eq]
      cases Run.ofTurn agenda now id c with
      | none => simp
      | some r => simp [Nat.add_comm]

/-- What every turn keeps holds after several. -/
theorem afterTurns_keeps (P : γ → Prop) (each : ∀ id c, P c → P (turn agenda run now id c).1)
    (ids : List TaskId) {c : γ} (h : P c) : P (afterTurns agenda run now ids c) := by
  induction ids generalizing c with
  | nil => exact h
  | cons id ids ih => exact ih (each id c h)

/-! ## Which tasks run -/

/-- A task runs in its turn if it is there and due and does not run already. -/
theorem ofTurn_eq_some_iff {id : TaskId} {c : γ} {r : Run α γ} :
    Run.ofTurn agenda now id c = some r ↔
      (agenda.get c).find? id = some r.task ∧ (r.task.isDue now && !r.task.running) = true ∧
        r.id = id ∧ r.context = c := by
  obtain ⟨i, t, c'⟩ := r
  simp only [Run.ofTurn, Option.bind_eq_some_iff, Option.ite_none_right_eq_some,
    Option.some.injEq, Run.mk.injEq]
  constructor
  · rintro ⟨u, found, due, rfl, rfl, rfl⟩
    exact ⟨found, due, rfl, rfl⟩
  · rintro ⟨found, due, rfl, rfl⟩
    exact ⟨t, found, due, rfl, rfl, rfl⟩

/-- What holds of the turn of each task that runs, and of one thing after another, holds of all
turns. -/
theorem runs_compose {δ : Type} {R : List δ → γ → γ → Prop} (nothing : ∀ c, R [] c c)
    (trans : ∀ {ds ds' c c' c''}, R ds c c' → R ds' c' c'' → R (ds ++ ds') c c'')
    (deeds : Run α γ → List δ)
    (each : ∀ r, Run.ofTurn agenda now r.id r.context = some r →
      R (deeds r) r.context (agenda.modify (·.finish r.id) (r.stop agenda run now)))
    (ids : List TaskId) (c : γ) :
    R ((runs agenda run now ids c).flatMap deeds) c (afterTurns agenda run now ids c) := by
  induction ids generalizing c with
  | nil => exact nothing c
  | cons id ids ih =>
      rw [runs, List.flatMap_append]
      refine trans ?_ (ih _)
      rw [turn_eq]
      cases ran : Run.ofTurn agenda now id c with
      | none => exact nothing c
      | some r =>
          obtain ⟨-, -, rfl, rfl⟩ := (ofTurn_eq_some_iff agenda now).mp ran
          simpa using each r ran

/-- Tasks run in the order of their turns, each at most once for a turn. -/
theorem runs_sublist (ids : List TaskId) (c : γ) :
    ((runs agenda run now ids c).map Run.id).Sublist ids := by
  induction ids generalizing c with
  | nil => exact .refl _
  | cons id ids ih =>
      rw [runs]
      cases ran : Run.ofTurn agenda now id c with
      | none => exact (ih _).cons id
      | some r =>
          obtain ⟨-, -, same, -⟩ := (ofTurn_eq_some_iff agenda now).mp ran
          simp only [Option.toList_some, List.singleton_append, List.map_cons, same]
          exact (ih _).cons_cons id

/-- A task that runs is there in its turn, enabled and due. -/
theorem due_of_mem_runs {ids : List TaskId} {c : γ} {r : Run α γ}
    (h : r ∈ runs agenda run now ids c) :
    (agenda.get r.context).find? r.id = some r.task ∧ r.task.isDue now = true := by
  induction ids generalizing c with
  | nil => cases h
  | cons id ids ih =>
      rw [runs, List.mem_append, Option.mem_toList] at h
      rcases h with ran | later
      · obtain ⟨found, due, rfl, rfl⟩ := (ofTurn_eq_some_iff agenda now).mp ran
        exact ⟨found, (Bool.and_eq_true_iff.mp due).1⟩
      · exact ih later

variable {agenda run} (lawful : agenda.Lawful) (deeds : Deeds agenda run)

include lawful deeds

theorem Tidy.turn {c : γ} (h : Tidy busy (agenda.get c)) (id : TaskId) :
    Tidy busy (agenda.get (turn agenda run now id c).1) := by
  rw [turn_eq]
  cases ran : Run.ofTurn agenda now id c with
  | none => exact h
  | some r =>
      obtain ⟨-, -, rfl, rfl⟩ := (ofTurn_eq_some_iff agenda now).mp ran
      have begins : Tidy (fun i => i = r.id ∨ busy i) (agenda.get (r.start agenda now)) := by
        rw [Run.start, Focus.modify, lawful.get_set]
        exact h.begin r.id now
      obtain ⟨ds, done⟩ := deeds r.task.action (r.start agenda now)
      simp only [Focus.modify, lawful.get_set]
      refine Tidy.finish ?_
      rw [Run.stop, done]
      exact begins.foldl_after ds

theorem Tidy.afterTurns {c : γ} (h : Tidy busy (agenda.get c)) (ids : List TaskId) :
    Tidy busy (agenda.get (afterTurns agenda run now ids c)) :=
  afterTurns_keeps agenda run now (fun c => Tidy busy (agenda.get c))
    (fun id _ h => Tidy.turn now lawful deeds h id) ids h

/-- A pass leaves the agenda tidy, whatever the callbacks did. -/
theorem Tidy.execute {c : γ} (h : Tidy busy (agenda.get c)) :
    Tidy busy (agenda.get (execute agenda run now c).1) := by
  rw [Agenda.execute, turns_eq]
  refine Tidy.afterTurns now lawful deeds ?_ _
  rw [Focus.modify, lawful.get_set]
  exact ⟨h.sorted, h.fresh, h.idle, h.pooled⟩

/-- Between passes an agenda is tidy. -/
theorem Reachable.tidy {c : γ} (h : Reachable agenda run c) :
    Tidy (fun _ => False) (agenda.get c) := by
  induction h with
  | empty none => exact none ▸ tidy_nil _ _
  | deed _ d done ih => exact done ▸ ih.after d
  | pass _ now ih => exact ih.execute now lawful deeds

/-- If a task that is due does not run in its turn, then the action of an earlier task has removed
it, disabled it or put it off. -/
theorem exists_run_of_not_ran {c : γ} {ids : List TaskId} {id : TaskId} {t : Task α}
    (h : Tidy (fun _ => False) (agenda.get c)) (sorted : ids.Pairwise (·.number < ·.number))
    (mem : id ∈ ids) (found : (agenda.get c).find? id = some t) (due : t.isDue now = true)
    (rests : id ∉ (runs agenda run now ids c).map Run.id) :
    ∃ r ∈ runs agenda run now ids c, r.id.number < id.number ∧
      (∃ t, (agenda.get (r.start agenda now)).find? id = some t ∧ t.isDue now = true) ∧
      ∀ t, (agenda.get (r.stop agenda run now)).find? id = some t → t.isDue now = false := by
  induction ids generalizing c t with
  | nil => cases mem
  | cons k ids ih =>
      obtain ⟨first, later⟩ := List.pairwise_cons.mp sorted
      have tidy := h.turn now lawful deeds k
      simp only [runs, List.map_append, List.mem_append, not_or] at rests ⊢
      -- The task at the front runs if it is due, so the one that rests comes behind it.
      have behind : id ≠ k := by
        rintro rfl
        have idle : t.running = false := by
          by_contra out
          cases h.idle id t found (by simpa using out)
        have runs : Run.ofTurn agenda now id c = some ⟨id, t, c⟩ :=
          (ofTurn_eq_some_iff agenda now).mpr ⟨found, by simp [due, idle], rfl, rfl⟩
        simp [runs] at rests
      have left : id ∈ ids := (List.mem_cons.mp mem).resolve_left behind
      cases ran : Run.ofTurn agenda now k c with
      | none =>
          have after : (agenda.get (turn agenda run now k c).1).find? id = some t := by
            rw [turn_eq, ran]
            exact found
          obtain ⟨r, hr, effect⟩ := ih tidy later left after due rests.2
          exact ⟨r, .inr hr, effect⟩
      | some r =>
          obtain ⟨-, -, rfl, rfl⟩ := (ofTurn_eq_some_iff agenda now).mp ran
          have start : (agenda.get (r.start agenda now)).find? id = some t := by
            rw [Run.start, Focus.modify, lawful.get_set, begin, find?_update_of_ne _ _ behind,
              found]
          by_cases still : ∃ t, (agenda.get (r.stop agenda run now)).find? id = some t ∧
              t.isDue now = true
          · obtain ⟨t', stop, due'⟩ := still
            have after :
                (agenda.get (turn agenda run now r.id r.context).1).find? id = some t' := by
              rw [turn_eq, ran]
              simp only [Focus.modify, lawful.get_set]
              rw [find?_finish, if_neg behind, stop]
            obtain ⟨r', hr', effect⟩ := ih tidy later left after due' rests.2
            exact ⟨r', .inr hr', effect⟩
          · refine ⟨r, .inl (by simp), first id left, ⟨t, start, due⟩, fun t' stop => ?_⟩
            by_contra due'
            exact still ⟨t', stop, by simpa using due'⟩

end

/-! ## A pass as a whole -/

/-- The runs of a pass. -/
def runsOfPass (agenda : Focus γ (Agenda α)) (run : α → γ → γ) (now : Nat) (c : γ) :
    List (Run α γ) :=
  runs agenda run now ((agenda.get c).dueIds now) (agenda.modify (fun a => { a with now }) c)

theorem isDue_iff {now : Nat} : t.isDue now = true ↔ t.enabled = true ∧ t.due ≤ now := by
  simp [Task.isDue]

theorem isDue_eq_false_iff {now : Nat} :
    t.isDue now = false ↔ t.enabled = false ∨ now < t.due := by
  rw [← Bool.not_eq_true, isDue_iff, not_and_or, Bool.not_eq_true, Nat.not_le]

/-- Whatever the actions do to the agenda meanwhile, a pass runs different tasks in the order of
their handles.  Each was enabled and due when the pass began, and so it is in its turn.  A task that
was due and does not run was removed, disabled or put off by an action before it.  The number that
the pass gives is how many ran.  Afterwards every action is back in its task, and a pooled task is
enabled. -/
theorem execute_snapshot {agenda : Focus γ (Agenda α)} {run : α → γ → γ} (lawful : agenda.Lawful)
    (deeds : Deeds agenda run) {c : γ} (reachable : Reachable agenda run c) (now : Nat) :
    let ran := runsOfPass agenda run now c
    let c' := (execute agenda run now c).1
    (∀ notes, execute (agenda.beside (List (α × γ))) (noting run) now (c, notes) =
      ((c', notes ++ ran.map (Run.call agenda now)), ran.length)) ∧
    (execute agenda run now c).2 = ran.length ∧
    (ran.Pairwise fun r s => r.id.number < s.id.number) ∧
    (∀ r ∈ ran, r.id.number < (agenda.get c).nextId ∧
      (∃ t, (agenda.get c).find? r.id = some t ∧ t.enabled = true ∧ t.due ≤ now) ∧
      (agenda.get r.context).find? r.id = some r.task ∧ r.task.enabled = true ∧
      r.task.due ≤ now) ∧
    (∀ id t, (agenda.get c).find? id = some t → t.enabled = true → t.due ≤ now →
      (∃ r ∈ ran, r.id = id) ∨
      ∃ r ∈ ran, r.id.number < id.number ∧
        (∃ t, (agenda.get (r.start agenda now)).find? id = some t ∧ t.enabled = true ∧
          t.due ≤ now) ∧
        ((agenda.get (r.stop agenda run now)).find? id = none ∨
          ∃ t, (agenda.get (r.stop agenda run now)).find? id = some t ∧
            (t.enabled = false ∨ now < t.due))) ∧
    ∀ id t, (agenda.get c').find? id = some t →
      t.running = false ∧ (t.persistent = false → t.enabled = true) := by
  have tidy := reachable.tidy lawful deeds
  have begins : agenda.get (agenda.modify (fun a => { a with now }) c) =
      { agenda.get c with now } := lawful.get_set _ _
  have tidy' : Tidy (fun _ => False) (agenda.get (agenda.modify (fun a => { a with now }) c)) := by
    rw [begins]
    exact tidy.clock now
  have after := tidy.execute now lawful deeds
  have sorted : ((agenda.get c).dueIds now).Pairwise (·.number < ·.number) :=
    tidy.sorted.sublist (List.filter_sublist.map _)
  have sublist := runs_sublist agenda run now ((agenda.get c).dueIds now)
    (agenda.modify (fun a => { a with now }) c)
  refine ⟨fun notes => ?_, ?_, ?_, fun r hr => ?_, fun id t found on due => ?_,
    fun id t found => after.at_rest found⟩
  · rw [execute, execute, turns_eq agenda run]
    exact turns_noting agenda run now _ _ notes
  · rw [execute, turns_eq]
    rfl
  · have ordered := sorted.sublist sublist
    rw [List.pairwise_map] at ordered
    exact ordered
  · obtain ⟨t, found, due⟩ :=
      (mem_dueIds tidy.nodup).mp (sublist.mem (List.mem_map_of_mem (f := Run.id) hr))
    obtain ⟨here, due'⟩ := due_of_mem_runs agenda run now hr
    exact ⟨tidy.fresh _ (mem_ids_of_find? found), ⟨t, found, isDue_iff.mp due⟩, here,
      isDue_iff.mp due'⟩
  · by_cases ran : ∃ r ∈ runsOfPass agenda run now c, r.id = id
    · exact .inl ran
    have due' : t.isDue now = true := isDue_iff.mpr ⟨on, due⟩
    have rests : id ∉ (runsOfPass agenda run now c).map Run.id := fun mem =>
      ran (List.mem_map.mp mem)
    have found' : (agenda.get (agenda.modify (fun a => { a with now }) c)).find? id = some t := by
      rw [begins]
      exact found
    obtain ⟨r, hr, before, ⟨u, start, due⟩, stop⟩ := exists_run_of_not_ran now lawful deeds tidy'
      sorted ((mem_dueIds tidy.nodup).mpr ⟨t, found, due'⟩) found' due' rests
    refine .inr ⟨r, hr, before, ⟨u, start, isDue_iff.mp due⟩, ?_⟩
    cases left : (agenda.get (r.stop agenda run now)).find? id with
    | none => exact .inl rfl
    | some v => exact .inr ⟨v, rfl, isDue_eq_false_iff.mp (stop v left)⟩

/-- Action 0 disables the task 2 and adds another task.  The others do nothing. -/
def meddling : Nat → Agenda Nat → Agenda Nat
  | 0, a => ((a.disable ⟨2⟩).2.add 5 .forever 1).2
  | _, a => a

/-- Three tasks, the first of which has action 0. -/
def crew : Agenda Nat :=
  (((({} : Agenda Nat).add 5 .forever 0).2.add 5 .forever 1).2.add 0 (.times 1) 1).2

/-- Of the tasks 1, 2 and 3 the pass runs 1 and 3, and not the task 4 that was added meanwhile. -/
theorem execute_snapshot_crew :
    Deeds .whole meddling ∧ Reachable .whole meddling crew ∧
      (runsOfPass .whole meddling 7 crew).map Run.id = [⟨1⟩, ⟨3⟩] ∧
      (execute .whole meddling 7 crew).2 = 2 ∧
      (runsOfPass .whole meddling 7 crew).Pairwise fun r s => r.id.number < s.id.number := by
  have deeds : Deeds .whole meddling := by
    intro x c
    cases x with
    | zero => exact ⟨[.disable ⟨2⟩, .insert 5 .forever false 1], rfl⟩
    | succ x => exact ⟨[], rfl⟩
  have reachable : Reachable .whole meddling crew :=
    .deed (.deed (.deed (.empty rfl) (.insert 5 .forever false 0) rfl)
      (.insert 5 .forever false 1) rfl) (.insert 0 (.times 1) false 1) rfl
  obtain ⟨-, count, order, -⟩ := execute_snapshot Focus.lawful_whole deeds reachable 7
  refine ⟨deeds, reachable, by decide, ?_, order⟩
  rw [count]
  decide

end Agenda

end SpanningMesh
