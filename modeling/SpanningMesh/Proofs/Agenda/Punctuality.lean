import SpanningMesh.Proofs.Agenda.Sparing

/-!
# A task left alone is on time

An `Order` is what is asked of a task when it is armed: how often it is to run, with which interval,
and when it is due first.  Four deeds arm a task (`Arms`).  They may be done between passes or by an
action within a pass (`Armed`).  A task that an earlier action arms may still have its turn in the
pass that goes on.  That run counts as one of those that were asked for.

From then on nothing touches the task, while there may be any deeds on others, by the actions of
tasks as well, and passes at any times (`LeftAlone`).  What the agenda has under its handle is then
decided by the order and by the times at which the task ran (`Stands`).  This holds turn by turn
(`Stands.afterTurns`), and so for each pass and from pass to pass.  The times of all runs follow
from the times of the passes (`runs_punctual`).

It is not asked that the times of the passes increase.
-/

namespace SpanningMesh

namespace Runs

/-- What is left after some runs. -/
def less : Runs → Nat → Runs
  | forever, _ => forever
  | times n, k => times (n - k)

/-- One more run is asked for after some runs. -/
def Allows : Runs → Nat → Prop
  | forever, _ => True
  | times n, k => k < n

instance (r : Runs) (k : Nat) : Decidable (r.Allows k) :=
  match r with
  | forever => inferInstanceAs (Decidable True)
  | times n => inferInstanceAs (Decidable (k < n))

theorem less_zero (r : Runs) : r.less 0 = r := by cases r <;> rfl

/-- One run less is left after each run. -/
theorem afterOne_less (r : Runs) (k : Nat) : (r.less k).afterOne = r.less (k + 1) := by
  cases r with
  | forever => rfl
  | times n => exact congrArg times (Nat.sub_sub n k 1)

/-- A task is over once it has had all runs that it is allowed. -/
theorem isOver_less (r : Runs) (k : Nat) : (!(r.less k).isOver) = decide (r.Allows k) := by
  cases r with
  | forever => rfl
  | times n =>
      show (!(n - k == 0)) = decide (k < n)
      rw [Bool.eq_iff_iff, Bool.not_eq_true', beq_eq_false_iff_ne, decide_eq_true_eq]
      omega

theorem allows_zero {r : Runs} (asked : r ≠ .times 0) : r.Allows 0 := by
  cases r with
  | forever => trivial
  | times n => exact Nat.pos_of_ne_zero fun none => asked (none ▸ rfl)

end Runs

namespace Agenda

variable {α γ : Type} {id : TaskId} {a b : Agenda α} {d : Deed α} {t : Task α}

/-! ## Orders -/

/-- What is asked of a task. -/
structure Order (α : Type) where
  interval : Nat
  runs : Runs
  persistent : Bool
  action : α
  /-- When it is due first. -/
  first : Nat
deriving Repr

namespace Order

variable (o : Order α) (ran : List Nat)

/-- When a task is due that ran at some times. -/
def next : Nat := ran.getLast?.elim o.first (· + o.interval)

/-- The task that ran at some times, if it is still there. -/
def task : Task α where
  interval := o.interval
  runs := o.runs
  left := o.runs.less ran.length
  due := o.next ran
  enabled := o.runs.Allows ran.length
  persistent := o.persistent
  action := o.action

/-- A run is accounted for as one more. -/
theorem begun_task {now : Nat} (allowed : o.runs.Allows ran.length)
    (short : now + o.interval < Moment.count) :
    (o.task ran).begun now = { o.task (ran ++ [now]) with running := true } := by
  have due : o.next (ran ++ [now]) = now + o.interval := by
    rw [next, List.getLast?_concat, Option.elim_some]
  simp only [Task.begun, task, due, Moment.after_of_lt short, Runs.afterOne_less,
    List.length_append, List.length_singleton, Runs.isOver_less, decide_eq_true allowed,
    Bool.true_and]

end Order

/-! ## To arm a task -/

/-- A deed arms a task with an order. -/
inductive Arms (a : Agenda α) : Deed α → TaskId → Order α → Prop where
  /-- A pooled task is armed when it is added. -/
  | add (interval : Nat) (runs : Runs) (action : α) :
      Arms a (.insert interval runs false action) ⟨a.nextId⟩
        ⟨interval, runs, false, action, a.now⟩
  /-- A task that is disabled is due now when it is enabled. -/
  | enable {id : TaskId} {t : Task α} (found : a.find? id = some t) (off : t.enabled = false) :
      Arms a (.enable id) id ⟨t.interval, t.runs, t.persistent, t.action, a.now⟩
  /-- A task that is enabled already is to have all its runs left. -/
  | enableDelayed {id : TaskId} {t : Task α} {delay : Nat} (found : a.find? id = some t)
      (unspent : t.enabled = true → t.left = t.runs) (short : a.now + delay < Moment.count) :
      Arms a (.enableDelayed id delay) id
        ⟨t.interval, t.runs, t.persistent, t.action, a.now + delay⟩
  /-- It does not matter whether the task was enabled. -/
  | restartDelayed {id : TaskId} {t : Task α} {delay : Nat} (found : a.find? id = some t)
      (short : a.now + delay < Moment.count) :
      Arms a (.restartDelayed id delay) id
        ⟨t.interval, t.runs, t.persistent, t.action, a.now + delay⟩

/-- A task that is armed is there with its order.  It may be that its action still runs. -/
theorem Arms.find? {o : Order α} (h : Arms a d id o) (asked : o.runs ≠ .times 0)
    (fresh : ∀ i ∈ a.ids, i.number < a.nextId) :
    ∃ out, (a.after d).find? id = some { o.task [] with running := out } := by
  have on : decide (o.runs.Allows 0) = true := decide_eq_true (Runs.allows_zero asked)
  cases h with
  | add interval runs action =>
      refine ⟨false, ?_⟩
      rw [after, find?_insert a fresh, if_pos rfl]
      simp [Order.task, Order.next, Runs.less_zero, on]
  | @enable _ t found off =>
      refine ⟨t.running, ?_⟩
      rw [after, find?_enable, if_pos rfl, found]
      simp [off, Task.armed, Order.task, Order.next, Runs.less_zero, on]
  | @enableDelayed _ t delay found unspent short =>
      refine ⟨t.running, ?_⟩
      have there : (a.enable id).1 = true := by simp [Agenda.enable, found]
      have now : (a.enable id).2.now = a.now := now_after a (.enable id)
      simp only [after, Agenda.enableDelayed, there, if_true]
      rw [Agenda.delay, find?_postpone, if_pos rfl, find?_enable, if_pos rfl, found, now,
        Moment.after_of_lt short]
      by_cases enabled : t.enabled = true
      · simp [enabled, unspent enabled, Order.task, Order.next, Runs.less_zero, on]
      · simp [enabled, Task.armed, Order.task, Order.next, Runs.less_zero, on]
  | @restartDelayed _ t delay found short =>
      refine ⟨t.running, ?_⟩
      show (a.update id (·.armed (Moment.after a.now delay))).find? id = _
      rw [find?_update_self, found, Moment.after_of_lt short]
      simp [Task.armed, Order.task, Order.next, Runs.less_zero, on]

section

variable (agenda : Focus γ (Agenda α)) (run : α → γ → γ)

/-- The actions that run under a handle. -/
def callsOf (id : TaskId) (rs : List (Run α γ)) : List α :=
  (rs.filter (·.id = id)).map (·.task.action)

/-- The contexts between passes in which a task has been armed, with the times at which it has run
since then. -/
inductive Armed (id : TaskId) (o : Order α) : List Nat → γ → Prop where
  | between {c c' : γ} {d : Deed α} (reachable : Reachable agenda run c)
      (arms : Arms (agenda.get c) d id o) (done : agenda.get c' = (agenda.get c).after d) :
      Armed id o [] c'
  /-- The action of a task arms it within a pass, and what comes after that in the pass does not
  touch it.  If its turn in this pass is still to come, it may run in it. -/
  | during {c : γ} {now : Nat} {before after : List (Run α γ)} {r : Run α γ}
      {first last : List (Deed α)} {d : Deed α} (reachable : Reachable agenda run c)
      (ran : runsOfPass agenda run now c = before ++ r :: after)
      (acts : agenda.get (r.stop agenda run now) =
        (first ++ d :: last).foldl Agenda.after (agenda.get (r.start agenda now)))
      (arms : Arms (first.foldl Agenda.after (agenda.get (r.start agenda now))) d id o)
      (spared : ∀ d ∈ last, ¬ d.Touches id) (spares : ∀ s ∈ after, s.Spares agenda run now id) :
      Armed id o ((callsOf id after).map fun _ => now) (execute agenda run now c).1

/-! ## To leave a task alone -/

/-- What a pass does with a task: when it is, and the actions that run under the handle. -/
structure Pass (α : Type) where
  time : Nat
  calls : List α
deriving Repr, DecidableEq

/-- A pass, as far as a task is concerned. -/
def passAt (id : TaskId) (now : Nat) (c : γ) : Pass α :=
  ⟨now, callsOf id (runsOfPass agenda run now c)⟩

/-- Passes come after one another, and nothing but these passes touches a task. -/
inductive LeftAlone (id : TaskId) (c : γ) : List (Pass α) → γ → Prop where
  | start : LeftAlone id c [] c
  | deeds {passes : List (Pass α)} {c₁ c₂ : γ} (before : LeftAlone id c passes c₁)
      {deeds : List (Deed α)} (spared : ∀ d ∈ deeds, ¬ d.Touches id)
      (done : agenda.get c₂ = deeds.foldl after (agenda.get c₁)) : LeftAlone id c passes c₂
  | pass {passes : List (Pass α)} {c₁ : γ} (before : LeftAlone id c passes c₁) (now : Nat)
      (spares : ∀ r ∈ runsOfPass agenda run now c₁, r.Spares agenda run now id) :
      LeftAlone id c (passes ++ [passAt agenda run id now c₁]) (execute agenda run now c₁).1

/-- The times at which the task ran. -/
def ranAt (passes : List (Pass α)) : List Nat := passes.flatMap fun p => p.calls.map fun _ => p.time

theorem ranAt_concat (passes : List (Pass α)) (p : Pass α) :
    ranAt (passes ++ [p]) = ranAt passes ++ p.calls.map fun _ => p.time := by
  simp [ranAt]

end

/-- Each pass runs the task if it is asked for once more and its time has come, and does not
otherwise. -/
def Punctual (o : Order α) (ran : List Nat) (passes : List (Pass α)) : Prop :=
  ∀ before p after, passes = before ++ p :: after →
    p.calls = if o.runs.Allows (ran ++ ranAt before).length ∧ o.next (ran ++ ranAt before) ≤ p.time
      then [o.action] else []

/-- A schedule is kept in one more pass if the task runs there exactly when it is due. -/
theorem Punctual.concat {o : Order α} {ran : List Nat} {passes : List (Pass α)} {p : Pass α}
    (h : Punctual o ran passes)
    (last : p.calls = if o.runs.Allows (ran ++ ranAt passes).length ∧
      o.next (ran ++ ranAt passes) ≤ p.time then [o.action] else []) :
    Punctual o ran (passes ++ [p]) := by
  intro before q after split
  rcases List.eq_nil_or_concat after with rfl | ⟨after, r, rfl⟩
  · obtain ⟨rfl, same⟩ := List.append_inj' split rfl
    cases same
    exact last
  · rw [List.concat_eq_append, ← List.cons_append, ← List.append_assoc] at split
    exact h before q after (List.append_inj' split rfl).1

/-! ## Where the task stands -/

/-- An agenda has what it is to have of a task that ran at some times since it was armed. -/
structure Stands (id : TaskId) (o : Order α) (ran : List Nat) (a : Agenda α) : Prop where
  tidy : Tidy (fun _ => False) a
  known : id.number < a.nextId
  found : a.find? id = (o.task ran).settled
  /-- It did not run more often than was asked. -/
  asked : ∀ n, o.runs = .times n → ran.length ≤ n

variable {o : Order α} {ran : List Nat} {agenda : Focus γ (Agenda α)} {run : α → γ → γ}

/-- What leaves a task as it is leaves it standing. -/
theorem Stands.leaves (h : Stands id o ran a) (tidy : Tidy (fun _ => False) b)
    (leaves : Leaves id a b) : Stands id o ran b :=
  ⟨tidy, leaves.known h.known, leaves.found.trans h.found, h.asked⟩

theorem Stands.clock (h : Stands id o ran a) (now : Nat) : Stands id o ran { a with now } :=
  ⟨h.tidy.clock now, h.known, h.found, h.asked⟩

/-- A task that has runs left is there. -/
theorem settled_task (allowed : o.runs.Allows ran.length) :
    (o.task ran).settled = some (o.task ran) := by
  have on : (o.task ran).enabled = true := decide_eq_true allowed
  rw [Task.settled, if_pos (by rw [on, Bool.true_or])]
  rfl

/-- The task that an action armed, its own or another one, is in its place after the action. -/
theorem find?_finish_armed {r : TaskId} (asked : o.runs ≠ .times 0) {out : Bool}
    (tidy : Tidy (fun i => i = r ∨ False) a)
    (found : a.find? id = some { o.task [] with running := out }) :
    (a.finish r).find? id = (o.task []).settled := by
  rw [find?_finish]
  split
  next => rw [found, Option.bind_some]; rfl
  next other =>
    have idle : out = false := by
      by_contra runs
      exact other ((tidy.idle id _ found (by simpa using runs)).resolve_right not_false)
    rw [found, settled_task (Runs.allows_zero asked), idle]
    rfl

/-- A task that ran at some times is due if it has runs left and its next time has come. -/
theorem isDue_of_settled {now : Nat} (found : (o.task ran).settled = some t) :
    t.isDue now = true ↔ o.runs.Allows ran.length ∧ o.next ran ≤ now := by
  rw [Task.settled, Option.ite_none_right_eq_some] at found
  obtain rfl := Option.some.inj found.2
  rw [isDue_iff]
  exact and_congr_left' (by simp [Order.task])

variable (lawful : agenda.Lawful) (deeds : Deeds agenda run) {c : γ} {passes : List (Pass α)}

include lawful deeds

/-- In some turns a task runs exactly when its turn is among them and it is due, by what was asked
of it and by when it ran before. -/
theorem Stands.afterTurns (h : Stands id o ran (agenda.get c)) {ids : List TaskId} {now : Nat}
    (different : ids.Nodup) (spares : ∀ r ∈ runs agenda run now ids c, r.Spares agenda run now id)
    (short : ∀ time ∈ (callsOf id (runs agenda run now ids c)).map fun _ => now,
      time + o.interval < Moment.count) :
    callsOf id (runs agenda run now ids c) =
        (if id ∈ ids ∧ o.runs.Allows ran.length ∧ o.next ran ≤ now then [o.action] else []) ∧
      Stands id o (ran ++ (callsOf id (runs agenda run now ids c)).map fun _ => now)
        (agenda.get (Agenda.afterTurns agenda run now ids c)) := by
  have tidy := h.tidy.afterTurns now lawful deeds ids
  by_cases due : id ∈ ids ∧ o.runs.Allows ran.length ∧ o.next ran ≤ now
  · have there := settled_task due.2.1
    obtain ⟨ran', next, found⟩ := find?_afterTurns lawful different due.1 spares h.known
      (h.found.trans there) ((isDue_of_settled there).mpr due.2) rfl
    have calls : callsOf id (runs agenda run now ids c) = [o.action] := by
      have actions := congrArg (List.map Task.action) ran'
      rw [List.map_map] at actions
      exact actions
    rw [calls] at short ⊢
    rw [if_pos due]
    refine ⟨rfl, tidy, Nat.lt_of_lt_of_le h.known next, found.trans ?_, fun n times => ?_⟩
    · rw [o.begun_task _ due.2.1 (short now (List.mem_singleton_self now))]
      rfl
    · have left := due.2.1
      rw [times] at left
      simpa using Nat.succ_le_of_lt left
  · have others : ∀ r ∈ runs agenda run now ids c, id ≠ r.id := by
      rcases not_and_or.mp due with other | rests
      · exact fun r ran => ne_of_not_mem other ran
      · exact ne_of_mem_runs lawful spares h.known fun t there =>
          Bool.eq_false_iff.mpr (mt (isDue_of_settled (h.found.symm.trans there)).mp rests)
    have leaves := leaves_afterTurns lawful (fun r ran => ⟨others r ran, spares r ran⟩) h.known
    rw [callsOf, filter_runs_eq_nil others, if_neg due]
    exact ⟨rfl, by simpa using h.leaves tidy leaves⟩

/-- After a turn in which an action armed a task, its own or that of another task, the task stands
at the beginning. -/
theorem stands_turn {now : Nat} {r : Run α γ} {first last : List (Deed α)}
    (ran : Run.ofTurn agenda now r.id r.context = some r)
    (tidy : Tidy (fun _ => False) (agenda.get r.context))
    (acts : agenda.get (r.stop agenda run now) =
      (first ++ d :: last).foldl Agenda.after (agenda.get (r.start agenda now)))
    (arms : Arms (first.foldl Agenda.after (agenda.get (r.start agenda now))) d id o)
    (spared : ∀ d ∈ last, ¬ d.Touches id) (asked : o.runs ≠ .times 0) :
    Stands id o [] (agenda.get (Agenda.turn agenda run now r.id r.context).1) := by
  have start : agenda.get (r.start agenda now) = (agenda.get r.context).begin r.id now :=
    lawful.get_set _ _
  have tidy₁ := (tidy.begin r.id now).foldl_after first
  rw [← start] at tidy₁
  obtain ⟨out, found⟩ := arms.find? asked tidy₁.fresh
  have known := (tidy₁.after d).fresh id (mem_ids_of_find? found)
  -- What the action does after it armed the task leaves the task alone.
  have acted := leaves_foldl_after spared known
  have tidy₂ := (tidy₁.after d).foldl_after last
  rw [List.foldl_append, List.foldl_cons] at acts
  rw [← acts] at acted tidy₂
  refine ⟨tidy.turn now lawful deeds r.id, ?_, ?_, fun n _ => Nat.zero_le n⟩
  · rw [turn_of_some agenda run now ran, Focus.modify, lawful.get_set, nextId_finish]
    exact acted.known known
  · rw [turn_of_some agenda run now ran, Focus.modify, lawful.get_set]
    exact find?_finish_armed asked tidy₂ (acted.found.trans found)

/-- A task that has been armed stands where it is to stand. -/
theorem Armed.stands (h : Armed agenda run id o ran c) (asked : o.runs ≠ .times 0)
    (short : ∀ time ∈ ran, time + o.interval < Moment.count) : Stands id o ran (agenda.get c) := by
  cases h with
  | @between c c' d reachable arms done =>
      have tidy := reachable.tidy lawful deeds
      have tidy' := tidy.after d
      obtain ⟨out, found⟩ := arms.find? asked tidy.fresh
      rw [← done] at tidy' found
      obtain ⟨idle, -⟩ := tidy'.at_rest found
      obtain rfl : out = false := idle
      exact ⟨tidy', tidy'.fresh id (mem_ids_of_find? found),
        found.trans (settled_task (Runs.allows_zero asked)).symm, fun n _ => Nat.zero_le n⟩
  | @during c now before after r first last d reachable ran acts arms spared spares =>
      obtain ⟨ids, ids', split, context, turn, rest⟩ := runs_split agenda run now ran
      have tidy := reachable.tidy lawful deeds
      -- The turns before leave no action out of its task, so the action starts with all at rest.
      have tidy' : Tidy (fun _ => False) (agenda.get r.context) := by
        rw [context]
        refine Tidy.afterTurns now lawful deeds ?_ ids
        rw [Focus.modify, lawful.get_set]
        exact tidy.clock now
      have turned := stands_turn lawful deeds turn tidy' acts arms spared asked
      -- The task may have its own turn among those that come after.
      have different := nodup_dueIds tidy.nodup now
      rw [split] at different
      subst rest
      obtain ⟨-, ends⟩ := turned.afterTurns lawful deeds
        (List.nodup_cons.mp different.of_append_right).2 spares short
      rw [execute_fst, split, afterTurns_append, ← context]
      exact ends

/-- A pass runs a task exactly when it is due, by what was asked of it and by when it ran before. -/
theorem Stands.pass (h : Stands id o ran (agenda.get c)) (now : Nat)
    (spares : ∀ r ∈ runsOfPass agenda run now c, r.Spares agenda run now id)
    (short : ∀ time ∈ (passAt agenda run id now c).calls.map fun _ => now,
      time + o.interval < Moment.count) :
    (passAt agenda run id now c).calls =
        (if o.runs.Allows ran.length ∧ o.next ran ≤ now then [o.action] else []) ∧
      Stands id o (ran ++ (passAt agenda run id now c).calls.map fun _ => now)
        (agenda.get (execute agenda run now c).1) := by
  have clocked : Stands id o ran
      (agenda.get (agenda.modify (fun a => { a with now := now }) c)) := by
    rw [Focus.modify, lawful.get_set]
    exact h.clock now
  obtain ⟨calls, stands⟩ :=
    clocked.afterTurns lawful deeds (nodup_dueIds h.tidy.nodup now) spares short
  have mem : o.runs.Allows ran.length ∧ o.next ran ≤ now → id ∈ (agenda.get c).dueIds now := by
    intro due
    have there := settled_task due.1
    exact (mem_dueIds h.tidy.nodup).mpr ⟨_, h.found.trans there, (isDue_of_settled there).mpr due⟩
  rw [execute_fst]
  exact ⟨calls.trans (if_congr (and_iff_right_of_imp mem) rfl rfl), stands⟩

/-- Passes that come after one another run a task whenever it is due. -/
theorem LeftAlone.stands {c' : γ} (alone : LeftAlone agenda run id c passes c')
    (h : Stands id o ran (agenda.get c))
    (short : ∀ time ∈ ran ++ ranAt passes, time + o.interval < Moment.count) :
    Punctual o ran passes ∧ Stands id o (ran ++ ranAt passes) (agenda.get c') := by
  induction alone with
  | start =>
      refine ⟨fun before p after none => ?_, by simpa [ranAt] using h⟩
      simp at none
  | @deeds passes c₁ c₂ before ds spared done ih =>
      obtain ⟨punctual, stands⟩ := ih short
      refine ⟨punctual, stands.leaves (done ▸ stands.tidy.foldl_after ds) ?_⟩
      rw [done]
      exact leaves_foldl_after spared stands.known
  | @pass passes c₁ before now spares ih =>
      rw [ranAt_concat, ← List.append_assoc] at short ⊢
      obtain ⟨punctual, stands⟩ := ih fun time mem => short time (List.mem_append_left _ mem)
      obtain ⟨calls, stands'⟩ := stands.pass lawful deeds now spares fun time mem =>
        short time (List.mem_append_right _ mem)
      exact ⟨punctual.concat calls, stands'⟩

/-- A task that was armed and is left alone runs in the first pass in which it is due, and after
that always in the first pass that comes no less than its interval after its last run, until it ran
as often as was asked.  It is enabled until then.  Afterwards a pooled task is gone, and a
persistent one is there and not enabled. -/
theorem runs_punctual {c' : γ} (armed : Armed agenda run id o ran c) (asked : o.runs ≠ .times 0)
    (alone : LeftAlone agenda run id c passes c')
    (short : ∀ time ∈ ran ++ ranAt passes, time + o.interval < Moment.count) :
    Punctual o ran passes ∧
      (∀ n, o.runs = .times n → (ran ++ ranAt passes).length ≤ n) ∧
      (o.runs.Allows (ran ++ ranAt passes).length → (agenda.get c').isEnabled id = true) ∧
      (¬ o.runs.Allows (ran ++ ranAt passes).length →
        (o.persistent = false → (agenda.get c').find? id = none) ∧
        (o.persistent = true → ∃ t, (agenda.get c').find? id = some t ∧ t.enabled = false)) := by
  have first := armed.stands lawful deeds asked fun time mem =>
    short time (List.mem_append_left _ mem)
  obtain ⟨punctual, stands⟩ := alone.stands lawful deeds first short
  refine ⟨punctual, stands.asked, fun allowed => ?_,
    fun spent => ⟨fun pooled => ?_, fun stays => ?_⟩⟩
  · rw [isEnabled, stands.found, settled_task allowed]
    exact decide_eq_true allowed
  · have off : (o.task (ran ++ ranAt passes)).enabled = false := decide_eq_false spent
    rw [stands.found, Task.settled, if_neg (by rw [off]; simp [Order.task, pooled])]
  · exact ⟨_, by rw [stands.found, Task.settled, if_pos (by simp [Order.task, stays])],
      decide_eq_false spent⟩

omit lawful deeds

/-- Action 0 adds a task that runs once.  The others do nothing. -/
def breeding : Nat → Agenda Nat → Agenda Nat
  | 0, a => (a.addOnce 2).2
  | _, a => a

theorem spares_breeding (id : TaskId) (now : Nat) (r : Run Nat (Agenda Nat)) :
    r.Spares .whole breeding now id := by
  obtain ⟨i, t, c⟩ := r
  cases act : t.action with
  | zero =>
      refine ⟨[.insert 0 (.times 1) false 2], ?_, fun d mem => ?_⟩
      · simp only [Run.stop, act]
        rfl
      · rw [List.mem_singleton.mp mem]
        exact not_false
  | succ n => exact ⟨[], by simp only [Run.stop, act]; rfl, by simp⟩

/-- A persistent task and a pooled one that breeds. -/
def nursery : Agenda Nat :=
  (((({} : Agenda Nat).addPersistent 10 (.times 2) 1).2).add 3 .forever 0).2

/-- The persistent task is to run twice and is first due at 5.  It runs at 7 and at 17. -/
theorem runs_punctual_nursery :
    ∃ c, LeftAlone .whole breeding ⟨1⟩ (nursery.restartDelayed ⟨1⟩ 5).2
        [⟨0, []⟩, ⟨7, [1]⟩, ⟨12, []⟩, ⟨17, [1]⟩, ⟨30, []⟩] c ∧
      Punctual ⟨10, .times 2, true, 1, 5⟩ []
        [⟨0, []⟩, ⟨7, [1]⟩, ⟨12, []⟩, ⟨17, [1]⟩, ⟨30, []⟩] ∧
      ∃ t, c.find? ⟨1⟩ = some t ∧ t.enabled = false := by
  have deeds : Deeds .whole breeding := by
    intro x c
    cases x with
    | zero => exact ⟨[.insert 0 (.times 1) false 2], rfl⟩
    | succ x => exact ⟨[], rfl⟩
  have reachable : Reachable .whole breeding nursery :=
    .deed (.deed (.empty rfl) (.insert 10 (.times 2) true 1) rfl) (.insert 3 .forever false 0) rfl
  have armed : Armed .whole breeding ⟨1⟩ ⟨10, .times 2, true, 1, 5⟩ []
      (nursery.restartDelayed ⟨1⟩ 5).2 :=
    .between reachable (d := .restartDelayed ⟨1⟩ 5)
      (.restartDelayed (t := ⟨10, .times 2, .times 2, 0, false, true, false, 1⟩) rfl (by decide))
      rfl
  have spares : ∀ now c, ∀ r ∈ runsOfPass .whole breeding now c, r.Spares .whole breeding now ⟨1⟩ :=
    fun now c r _ => spares_breeding ⟨1⟩ now r
  -- The task that breeds is removed after the second pass.
  have none : LeftAlone .whole breeding ⟨1⟩ (nursery.restartDelayed ⟨1⟩ 5).2 [] _ := .start
  have second := (none.pass 0 (spares _ _)).pass 7 (spares _ _)
  have other : ∀ d ∈ [Deed.remove ⟨2⟩], ¬ (d : Deed Nat).Touches ⟨1⟩ := by simp [Deed.Touches]
  have removed := second.deeds other rfl
  have alone := ((removed.pass 12 (spares _ _)).pass 17 (spares _ _)).pass 30 (spares _ _)
  obtain ⟨punctual, -, -, spent⟩ :=
    runs_punctual Focus.lawful_whole deeds armed (by decide) alone (by decide)
  exact ⟨_, alone, punctual, (spent (by decide)).2 rfl⟩

end Agenda

end SpanningMesh
