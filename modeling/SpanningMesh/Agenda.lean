import SpanningMesh.Focus
import SpanningMesh.Moment

/-!
# Agendas

An `Agenda` runs tasks by a clock of milliseconds that its owner moves on.  A task
has an interval, a number of runs, and the moment it is due.  A pooled task is
enabled from the start and is forgotten as soon as it is disabled or has no runs
left.  A persistent task starts disabled and stays until it is removed.

`execute` runs the tasks that are due when it begins, in the order in which they
were added.  What a task does may change the agenda itself.  A task that was
removed, disabled or put off by an earlier one does not run any more, and one that
became due meanwhile waits for the next pass.  Each run is accounted for before
the action starts, so the action may arm its own task anew, and a task whose
action is running does not run again inside it.

An action is a value here, and `run` says what it does.
-/

namespace SpanningMesh

/-- The handle of a task, never used twice. -/
structure TaskId where
  /-- The number, in the order of creation. -/
  number : Nat
deriving Repr, DecidableEq, Inhabited

namespace TaskId

/-- The name under which reports show a task. -/
def name (id : TaskId) : String := s!"task-{id.number}"

end TaskId

/-- How many times a task runs once it is enabled. -/
inductive Runs where
  | forever
  | times (n : Nat)
deriving Repr, DecidableEq, Inhabited

namespace Runs

/-- What is left after one more run. -/
def afterOne : Runs → Runs
  | forever => forever
  | times n => times (n - 1)

/-- Whether no run is left. -/
def isOver : Runs → Bool
  | forever => false
  | times n => n == 0

end Runs

/-- Something to do at certain times. -/
structure Task (α : Type) where
  interval : Nat
  runs : Runs
  left : Runs
  due : Nat
  enabled : Bool
  persistent : Bool
  running : Bool := false
  action : α
deriving Repr

namespace Task

variable {α : Type}

/-- Whether a task is to run at a time. -/
def isDue (t : Task α) (now : Nat) : Bool := t.enabled && t.due ≤ now

/-- Enabled with all its runs, due at a time. -/
def armed (t : Task α) (due : Nat) : Task α := { t with enabled := true, left := t.runs, due := due }

/-- Accounted for one run at a time. -/
def begun (t : Task α) (now : Nat) : Task α :=
  let left := t.left.afterOne
  { t with
    due := Moment.after now t.interval
    left := left
    enabled := t.enabled && !left.isOver
    running := true }

end Task

/-- Tasks and the time they are run by. -/
structure Agenda (α : Type) where
  tasks : List (TaskId × Task α) := []
  nextId : Nat := 1
  /-- The time of the last pass. -/
  now : Nat := 0
deriving Repr

namespace Agenda

variable {α γ : Type}

instance : Inhabited (Agenda α) := ⟨{}⟩

/-! ## Looking -/

/-- The task of an id. -/
def find? (a : Agenda α) (id : TaskId) : Option (Task α) :=
  (a.tasks.find? (·.1 = id)).map Prod.snd

/-- How many tasks there are. -/
def size (a : Agenda α) : Nat := a.tasks.length

/-- Whether a task exists and is enabled. -/
def isEnabled (a : Agenda α) (id : TaskId) : Bool := (a.find? id).any Task.enabled

/-- The handles of the tasks that are due at a time. -/
def dueIds (a : Agenda α) (now : Nat) : List TaskId :=
  (a.tasks.filter (·.2.isDue now)).map Prod.fst

/-! ## Adding and removing -/

/-- Add a task that is due now, and give it a handle. -/
def insert (a : Agenda α) (interval : Nat) (runs : Runs) (persistent : Bool) (action : α) :
    TaskId × Agenda α :=
  let id : TaskId := ⟨a.nextId⟩
  let task : Task α := ⟨interval, runs, runs, a.now, !persistent, persistent, false, action⟩
  (id, { a with tasks := a.tasks ++ [(id, task)], nextId := a.nextId + 1 })

/-- Add a pooled task. -/
def add (a : Agenda α) (interval : Nat) (runs : Runs) (action : α) : TaskId × Agenda α :=
  a.insert interval runs false action

/-- Add a pooled task that runs once, on the next pass. -/
def addOnce (a : Agenda α) (action : α) : TaskId × Agenda α := a.add 0 (.times 1) action

/-- Add a persistent task. -/
def addPersistent (a : Agenda α) (interval : Nat) (runs : Runs) (action : α) : TaskId × Agenda α :=
  a.insert interval runs true action

/-- Take a task off. -/
def erase (a : Agenda α) (id : TaskId) : Agenda α :=
  { a with tasks := a.tasks.filter (·.1 ≠ id) }

/-- Forget a task, and say whether it was there. -/
def remove (a : Agenda α) (id : TaskId) : Bool × Agenda α := ((a.find? id).isSome, a.erase id)

/-- Take all tasks off. -/
def clear (a : Agenda α) : Agenda α := { a with tasks := [] }

/-! ## Arming -/

/-- Change the task of an id. -/
def update (a : Agenda α) (id : TaskId) (f : Task α → Task α) : Agenda α :=
  { a with tasks := a.tasks.map fun (i, t) => if i = id then (i, f t) else (i, t) }

/-- Enable a disabled task, due now.  An enabled one stays as it is. -/
def enable (a : Agenda α) (id : TaskId) : Bool × Agenda α :=
  match a.find? id with
  | none => (false, a)
  | some t => (true, if t.enabled then a else a.update id (·.armed a.now))

/-- Set when an enabled task runs next. -/
def postpone (a : Agenda α) (id : TaskId) (due : Nat) : Bool × Agenda α :=
  if a.isEnabled id then (true, a.update id fun t => { t with due := due }) else (false, a)

/-- Put the next run of an enabled task off by a delay from now. -/
def delay (a : Agenda α) (id : TaskId) (delay : Nat) : Bool × Agenda α :=
  a.postpone id (Moment.after a.now delay)

/-- Make an enabled task due now. -/
def force (a : Agenda α) (id : TaskId) : Bool × Agenda α := a.postpone id a.now

/-- Enable a task if it is not, and put its next run off. -/
def enableDelayed (a : Agenda α) (id : TaskId) (delay : Nat) : Bool × Agenda α :=
  let (there, a) := a.enable id
  if there then a.delay id delay else (false, a)

/-- Enable a task with all its runs, whether or not it was enabled, after a delay. -/
def restartDelayed (a : Agenda α) (id : TaskId) (delay : Nat) : Bool × Agenda α :=
  ((a.find? id).isSome, a.update id (·.armed (Moment.after a.now delay)))

/-- Stop a task.  A pooled one is forgotten. -/
def disable (a : Agenda α) (id : TaskId) : Bool × Agenda α :=
  match a.find? id with
  | none => (false, a)
  | some t =>
      (true, if t.persistent then a.update id fun t => { t with enabled := false } else a.erase id)

/-! ## Running -/

/-- The agenda while a task runs at a time. -/
def begin (a : Agenda α) (id : TaskId) (now : Nat) : Agenda α := a.update id (·.begun now)

/-- The agenda after a task ran.  A pooled task with nothing left to do is forgotten. -/
def finish (a : Agenda α) (id : TaskId) : Agenda α :=
  match a.find? id with
  | none => a
  | some t =>
      if t.enabled || t.persistent then a.update id fun t => { t with running := false }
      else a.erase id

/-- The turn of one task in a pass, and whether it ran. -/
def turn (agenda : Focus γ (Agenda α)) (run : α → γ → γ) (now : Nat) (id : TaskId) (c : γ) :
    γ × Bool :=
  match (agenda.get c).find? id with
  | none => (c, false)
  | some t =>
      if t.isDue now && !t.running then
        let c := run t.action (agenda.modify (·.begin id now) c)
        (agenda.modify (·.finish id) c, true)
      else (c, false)

/-- The turns of several tasks, and how many ran. -/
def turns (agenda : Focus γ (Agenda α)) (run : α → γ → γ) (now : Nat) (ids : List TaskId) (c : γ) :
    γ × Nat :=
  ids.foldl
    (fun (c, n) id =>
      let (c, ran) := turn agenda run now id c
      (c, if ran then n + 1 else n))
    (c, 0)

/-- One pass at a time.  The number is how many tasks ran. -/
def execute (agenda : Focus γ (Agenda α)) (run : α → γ → γ) (now : Nat) (c : γ) : γ × Nat :=
  let due := (agenda.get c).dueIds now
  turns agenda run now due (agenda.modify (fun a => { a with now := now }) c)

end Agenda

end SpanningMesh
