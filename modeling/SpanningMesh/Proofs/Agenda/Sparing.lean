import SpanningMesh.Proofs.Agenda.Pass

/-!
# A task that nothing touches

A deed touches the one task that it names, and to clear an agenda touches every task.  What is
found under a handle stays the same while no deed touches it (`leaves_foldl_after`), and through
turns in which the task does not run (`leaves_afterTurns`).

Some turns do to a task that no action touches, neither its own nor another, one of two things,
which are decided by the task alone.  If it is not due, it does not run, also where its turn is
among them (`ne_of_mem_runs`).  If it is due and its turn is among them, it runs once and is
afterwards what the account of its run made of it (`find?_afterTurns`).
-/

namespace SpanningMesh

/-- What an agenda keeps of a task after its action.  A pooled task that is not enabled is
forgotten. -/
def Task.settled {α : Type} (t : Task α) : Option (Task α) :=
  if t.enabled || t.persistent then some { t with running := false } else none

namespace Agenda

variable {α γ : Type} {id i : TaskId} {a b c : Agenda α} {t : Task α}

/-! ## Deeds -/

/-- A deed is about a task. -/
def Deed.Touches (id : TaskId) : Deed α → Prop
  | .insert .. => False
  | .enable i | .enableDelayed i _ | .restartDelayed i _ | .delay i _ | .force i | .disable i
  | .remove i => i = id
  | .clear => True

instance (id : TaskId) : DecidablePred (Deed.Touches (α := α) id)
  | .insert .. => inferInstanceAs (Decidable False)
  | .enable _ | .enableDelayed _ _ | .restartDelayed _ _ | .delay _ _ | .force _ | .disable _
  | .remove _ => inferInstanceAs (Decidable (_ = _))
  | .clear => inferInstanceAs (Decidable True)

/-- What an agenda has under a handle is what it had, and the handle is not given anew. -/
structure Leaves (id : TaskId) (a b : Agenda α) : Prop where
  next : a.nextId ≤ b.nextId
  found : b.find? id = a.find? id

theorem Leaves.refl (id : TaskId) (a : Agenda α) : Leaves id a a := ⟨Nat.le_refl _, rfl⟩

theorem Leaves.trans (first : Leaves id a b) (next : Leaves id b c) : Leaves id a c :=
  ⟨Nat.le_trans first.next next.next, next.found.trans first.found⟩

theorem Leaves.known (h : Leaves id a b) (known : id.number < a.nextId) : id.number < b.nextId :=
  Nat.lt_of_lt_of_le known h.next

theorem leaves_update (a : Agenda α) (f : Task α → Task α) (other : id ≠ i) :
    Leaves id a (a.update i f) := ⟨Nat.le_refl _, find?_update_of_ne a f other⟩

theorem leaves_erase (a : Agenda α) (other : id ≠ i) : Leaves id a (a.erase i) :=
  ⟨Nat.le_refl _, by rw [find?_erase, if_neg other]⟩

/-- A new task takes an id that no known task has. -/
theorem leaves_insert (interval : Nat) (runs : Runs) (persistent : Bool) (action : α)
    (known : id.number < a.nextId) : Leaves id a (a.insert interval runs persistent action).2 := by
  have old : (⟨a.nextId⟩ : TaskId) ≠ id := by
    rintro rfl
    exact Nat.lt_irrefl _ known
  exact ⟨Nat.le_succ _, by simp [find?, insert, List.find?_append, old]⟩

theorem leaves_enable (a : Agenda α) (other : id ≠ i) : Leaves id a (a.enable i).2 := by
  simp only [enable]
  split
  · exact .refl id a
  · dsimp only
    split
    · exact .refl id a
    · exact leaves_update a _ other

theorem leaves_postpone (a : Agenda α) (due : Nat) (other : id ≠ i) :
    Leaves id a (a.postpone i due).2 := by
  simp only [postpone]
  split
  · exact leaves_update a (fun t => { t with due := due }) other
  · exact .refl id a

theorem leaves_disable (a : Agenda α) (other : id ≠ i) : Leaves id a (a.disable i).2 := by
  simp only [disable]
  split
  · exact .refl id a
  · dsimp only
    split
    · exact leaves_update a _ other
    · exact leaves_erase a other

theorem leaves_finish (a : Agenda α) (other : id ≠ i) : Leaves id a (a.finish i) :=
  ⟨Nat.le_of_eq (nextId_finish a i).symm, by rw [find?_finish, if_neg other]⟩

/-- A deed that is not about a task leaves it as it is. -/
theorem leaves_after {d : Deed α} (spared : ¬ d.Touches id) (known : id.number < a.nextId) :
    Leaves id a (a.after d) := by
  cases d with
  | insert interval runs persistent action =>
      exact leaves_insert interval runs persistent action known
  | enable i => exact leaves_enable a (Ne.symm spared)
  | enableDelayed i delay =>
      have first := leaves_enable a (Ne.symm spared)
      simp only [after, enableDelayed]
      split
      · exact first.trans (leaves_postpone _ _ (Ne.symm spared))
      · exact first
  | restartDelayed i delay =>
      exact leaves_update a (·.armed (Moment.after a.now delay)) (Ne.symm spared)
  | delay i delay => exact leaves_postpone a _ (Ne.symm spared)
  | force i => exact leaves_postpone a _ (Ne.symm spared)
  | disable i => exact leaves_disable a (Ne.symm spared)
  | remove i => exact leaves_erase a (Ne.symm spared)
  | clear => exact absurd trivial spared

/-- Deeds that do not touch a task leave it as it is. -/
theorem leaves_foldl_after {deeds : List (Deed α)} (spared : ∀ d ∈ deeds, ¬ d.Touches id)
    (known : id.number < a.nextId) : Leaves id a (deeds.foldl after a) := by
  induction deeds generalizing a with
  | nil => exact .refl id a
  | cons d deeds ih =>
      obtain ⟨here, rest⟩ := List.forall_mem_cons.mp spared
      have first := leaves_after here known
      exact first.trans (ih rest (first.known known))

/-! ## Turns -/

section

variable (agenda : Focus γ (Agenda α)) (run : α → γ → γ) (now : Nat)

/-- What the action of a task that runs does to the agenda is not about some task. -/
def Run.Spares (id : TaskId) (r : Run α γ) : Prop :=
  ∃ deeds : List (Deed α), agenda.get (r.stop agenda run now) =
    deeds.foldl after (agenda.get (r.start agenda now)) ∧ ∀ d ∈ deeds, ¬ d.Touches id

theorem runs_append (ids ids' : List TaskId) (c : γ) :
    runs agenda run now (ids ++ ids') c =
      runs agenda run now ids c ++ runs agenda run now ids' (afterTurns agenda run now ids c) := by
  induction ids generalizing c with
  | nil => rfl
  | cons i ids ih => rw [List.cons_append, runs, runs, ih, List.append_assoc]; rfl

theorem afterTurns_append (ids ids' : List TaskId) (c : γ) :
    afterTurns agenda run now (ids ++ ids') c =
      afterTurns agenda run now ids' (afterTurns agenda run now ids c) :=
  List.foldl_append

/-- A task that rests in its turn changes nothing. -/
theorem turn_of_none {c : γ} (rests : Run.ofTurn agenda now i c = none) :
    (turn agenda run now i c).1 = c := by
  rw [turn_eq, rests]

/-- A task that runs in its turn is finished when the callback is done. -/
theorem turn_of_some {c : γ} {r : Run α γ} (ran : Run.ofTurn agenda now i c = some r) :
    (turn agenda run now i c).1 = agenda.modify (·.finish i) (r.stop agenda run now) := by
  rw [turn_eq, ran]

/-- Where a task runs among others, its turn comes in the context that the turns before it leave,
and those after it go on with what it leaves. -/
theorem runs_split {ids : List TaskId} {c : γ} {before after : List (Run α γ)} {r : Run α γ}
    (h : runs agenda run now ids c = before ++ r :: after) :
    ∃ ids₁ ids₂, ids = ids₁ ++ r.id :: ids₂ ∧ r.context = afterTurns agenda run now ids₁ c ∧
      Run.ofTurn agenda now r.id r.context = some r ∧
      runs agenda run now ids₂ (turn agenda run now r.id r.context).1 = after := by
  induction ids generalizing c before with
  | nil =>
      have := congrArg List.length h
      simp [runs] at this
  | cons i ids ih =>
      rw [runs] at h
      cases ran : Run.ofTurn agenda now i c with
      | none =>
          rw [ran, Option.toList_none, List.nil_append, turn_of_none agenda run now ran] at h
          obtain ⟨ids₁, ids₂, rfl, context, turns⟩ := ih h
          exact ⟨i :: ids₁, ids₂, rfl, by
            rw [context, afterTurns, afterTurns, List.foldl_cons, turn_of_none agenda run now ran],
            turns⟩
      | some s =>
          rw [ran, Option.toList_some, List.singleton_append] at h
          cases before with
          | nil =>
              obtain ⟨rfl, rest⟩ := List.cons.inj h
              obtain ⟨-, -, rfl, rfl⟩ := (ofTurn_eq_some_iff agenda now).mp ran
              exact ⟨[], ids, rfl, rfl, ran, rest⟩
          | cons s' before =>
              obtain ⟨rfl, rest⟩ := List.cons.inj h
              obtain ⟨ids₁, ids₂, rfl, context, turns⟩ := ih rest
              exact ⟨i :: ids₁, ids₂, rfl, context, turns⟩

variable {agenda run now} (lawful : agenda.Lawful)

include lawful

/-- What a task's action, and no more than that, does to what is found under a handle. -/
theorem Run.Spares.leaves {r : Run α γ} (spares : r.Spares agenda run now id)
    (known : id.number < (agenda.get r.context).nextId) :
    Leaves id ((agenda.get r.context).begin r.id now) (agenda.get (r.stop agenda run now)) := by
  obtain ⟨deeds, done, spared⟩ := spares
  have start : agenda.get (r.start agenda now) = (agenda.get r.context).begin r.id now :=
    lawful.get_set _ _
  rw [done, start]
  exact leaves_foldl_after spared known

omit lawful in
/-- What runs in the turns of some tasks is one of them. -/
theorem ne_of_not_mem {ids : List TaskId} {c : γ} (other : id ∉ ids) {r : Run α γ}
    (ran : r ∈ runs agenda run now ids c) : id ≠ r.id := fun same =>
  other (same ▸ (runs_sublist agenda run now ids c).mem (List.mem_map_of_mem ran))

omit lawful in
theorem filter_runs_eq_nil {rs : List (Run α γ)} (others : ∀ r ∈ rs, id ≠ r.id) :
    rs.filter (·.id = id) = [] :=
  List.filter_eq_nil_iff.mpr fun r mem same => others r mem (of_decide_eq_true same).symm

/-- The turn of another task leaves a task as it is, if the action of the other task does. -/
theorem leaves_turn {r : Run α γ} (ran : Run.ofTurn agenda now r.id r.context = some r)
    (other : id ≠ r.id) (spares : r.Spares agenda run now id)
    (known : id.number < (agenda.get r.context).nextId) :
    Leaves id (agenda.get r.context) (agenda.get (turn agenda run now r.id r.context).1) := by
  rw [turn_of_some agenda run now ran, Focus.modify, lawful.get_set]
  exact (leaves_update _ _ other).trans ((spares.leaves lawful known).trans (leaves_finish _ other))

/-- So do the turns of other tasks, and its own turn when it does not run. -/
theorem leaves_afterTurns {ids : List TaskId} {c : γ}
    (others : ∀ r ∈ runs agenda run now ids c, id ≠ r.id ∧ r.Spares agenda run now id)
    (known : id.number < (agenda.get c).nextId) :
    Leaves id (agenda.get c) (agenda.get (afterTurns agenda run now ids c)) := by
  induction ids generalizing c with
  | nil => exact .refl id _
  | cons i ids ih =>
      have first : Leaves id (agenda.get c) (agenda.get (turn agenda run now i c).1) := by
        cases ran : Run.ofTurn agenda now i c with
        | none => rw [turn_of_none agenda run now ran]; exact .refl id _
        | some r =>
            obtain ⟨-, -, rfl, rfl⟩ := (ofTurn_eq_some_iff agenda now).mp ran
            obtain ⟨other, spares⟩ := others r (by simp [runs, ran])
            exact leaves_turn lawful ran other spares known
      have rest := ih (fun r later => others r (List.mem_append_right _ later)) (first.known known)
      exact first.trans rest

/-- A task that is not due does not run in the turns of some tasks, not even in its own, if no
action touches it. -/
theorem ne_of_mem_runs {ids : List TaskId} {c : γ}
    (spares : ∀ r ∈ runs agenda run now ids c, r.Spares agenda run now id)
    (known : id.number < (agenda.get c).nextId)
    (rests : ∀ t, (agenda.get c).find? id = some t → t.isDue now = false) :
    ∀ r ∈ runs agenda run now ids c, id ≠ r.id := by
  induction ids generalizing c with
  | nil =>
      intro r none
      cases none
  | cons i ids ih =>
      rw [runs] at spares ⊢
      cases ran : Run.ofTurn agenda now i c with
      | none =>
          rw [ran, turn_of_none agenda run now ran] at spares
          rw [turn_of_none agenda run now ran]
          exact ih spares known rests
      | some r =>
          obtain ⟨found, due, rfl, rfl⟩ := (ofTurn_eq_some_iff agenda now).mp ran
          rw [ran, Option.toList_some, List.singleton_append, List.forall_mem_cons] at spares
          rw [Option.toList_some, List.singleton_append, List.forall_mem_cons]
          have other : id ≠ r.id := by
            intro same
            rw [rests r.task (same ▸ found)] at due
            cases due
          have first := leaves_turn lawful ran other spares.1 known
          exact ⟨other, ih spares.2 (first.known known) fun t found =>
            rests t (first.found.symm.trans found)⟩

/-- A task that runs and that no action touches is what the account of the run made of it. -/
theorem find?_turn_self {r : Run α γ} (ran : Run.ofTurn agenda now r.id r.context = some r)
    (spares : r.Spares agenda run now r.id) (known : r.id.number < (agenda.get r.context).nextId) :
    (agenda.get r.context).nextId ≤ (agenda.get (turn agenda run now r.id r.context).1).nextId ∧
      (agenda.get (turn agenda run now r.id r.context).1).find? r.id =
        (r.task.begun now).settled := by
  have acted := spares.leaves lawful known
  obtain ⟨found, -, -, -⟩ := (ofTurn_eq_some_iff agenda now).mp ran
  have begun : (agenda.get (r.stop agenda run now)).find? r.id = some (r.task.begun now) := by
    rw [acted.found, begin, find?_update_self, found, Option.map_some]
  rw [turn_of_some agenda run now ran, Focus.modify, lawful.get_set]
  refine ⟨Nat.le_trans acted.next (Nat.le_of_eq (nextId_finish _ r.id).symm), ?_⟩
  rw [find?_finish, if_pos rfl, begun, Option.bind_some]
  rfl

/-- A task whose turn is among some turns, and that no action touches, runs if it is due. -/
theorem find?_afterTurns {ids : List TaskId} {c : γ} (different : ids.Nodup) (mem : id ∈ ids)
    (spares : ∀ r ∈ runs agenda run now ids c, r.Spares agenda run now id)
    (known : id.number < (agenda.get c).nextId) (found : (agenda.get c).find? id = some t)
    (due : t.isDue now = true) (idle : t.running = false) :
    ((runs agenda run now ids c).filter (·.id = id)).map Run.task = [t] ∧
      (agenda.get c).nextId ≤ (agenda.get (afterTurns agenda run now ids c)).nextId ∧
      (agenda.get (afterTurns agenda run now ids c)).find? id = (t.begun now).settled := by
  obtain ⟨ids₁, ids₂, rfl⟩ := List.append_of_mem mem
  have once := (List.nodup_cons.mp (List.nodup_middle.mp different)).1
  obtain ⟨first, last⟩ := not_or.mp (mt List.mem_append.mpr once)
  rw [runs_append, List.forall_mem_append] at spares
  -- The turns before it leave it as it was found.
  have before := leaves_afterTurns lawful
    (fun r ran => ⟨ne_of_not_mem first ran, spares.1 r ran⟩) known
  let r : Run α γ := ⟨id, t, afterTurns agenda run now ids₁ c⟩
  have ran : Run.ofTurn agenda now r.id r.context = some r :=
    (ofTurn_eq_some_iff agenda now).mpr ⟨before.found.trans found, by simp [r, due, idle], rfl, rfl⟩
  have turns : runs agenda run now (id :: ids₂) r.context =
      r :: runs agenda run now ids₂ (turn agenda run now id r.context).1 := by
    rw [runs, ran, Option.toList_some, List.singleton_append]
  rw [turns, List.forall_mem_cons] at spares
  -- Its own turn makes of it what it is accounted for, and those after it leave it so.
  have own := find?_turn_self lawful ran spares.2.1 (before.known known)
  have known' := Nat.lt_of_lt_of_le (before.known known) own.1
  have after := leaves_afterTurns lawful
    (fun s ran => ⟨ne_of_not_mem last ran, spares.2.2 s ran⟩) known'
  rw [runs_append, turns, List.filter_append,
    filter_runs_eq_nil fun s ran => ne_of_not_mem first ran, List.filter_cons_of_pos (by simp [r]),
    filter_runs_eq_nil fun s ran => ne_of_not_mem last ran, afterTurns_append]
  exact ⟨rfl, Nat.le_trans before.next (Nat.le_trans own.1 after.next), after.found.trans own.2⟩

omit lawful in
/-- A pass is the turns of the tasks that are due, by a clock that was moved on. -/
theorem execute_fst (c : γ) : (execute agenda run now c).1 =
    afterTurns agenda run now ((agenda.get c).dueIds now)
      (agenda.modify (fun a => { a with now := now }) c) := by
  rw [execute, turns_eq]

end

end Agenda

end SpanningMesh
