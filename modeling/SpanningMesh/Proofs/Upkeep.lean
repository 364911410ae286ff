import SpanningMesh.Agenda
import SpanningMesh.Dispatch.Handlers

/-!
# What handlers and tasks keep up

A dispatch and a pass over an agenda both run things one after the other on a context
that they also change themselves: handlers leave their table and return, tasks are
marked as running and rescheduled.  A property of the context that these changes do not
touch holds after the run if everything that is run keeps it.

Which tasks a pass runs depends on what the tasks before did.  `Agenda.started` lists
them with the context each of them starts in, so that one need only look at these.
-/

namespace SpanningMesh

namespace HandlerTable

variable {κ η γ : Type} [DecidableEq κ] {table : Focus γ (HandlerTable κ η)}
  {run : η → γ → γ × Flow} {key : κ} {c : γ} {P : γ → Prop}

omit [DecidableEq κ] in
/-- What every handler keeps holds after all of them. -/
theorem runAll_keeps {hs : List η} (hrun : ∀ h ∈ hs, ∀ c, P c → P (run h c).1)
    (hc : P c) : P (runAll run hs c).1 := by
  simp only [runAll]
  -- The fold also counts, so the induction carries the counts along.
  generalize ({} : DispatchOutcome) = o
  induction hs generalizing c o with
  | nil => exact hc
  | cons h hs ih =>
      refine ih (fun h' hm => hrun h' (List.mem_cons_of_mem _ hm)) ?_ _
      exact hrun h List.mem_cons_self c hc

/-- What does not depend on the table and is kept by the handlers of a key holds after a
dispatch of the key. -/
theorem dispatch_keeps (hset : ∀ t c, P c → P (table.set t c))
    (hrun : ∀ h ∈ (table.get c).handlers key, ∀ c, P c → P (run h c).1)
    (hc : P c) : P (dispatch table run key c).1 := by
  have ran := runAll_keeps hrun (hset ((table.get c).remove key) c hc)
  unfold dispatch
  dsimp only
  split
  · exact hset _ _ ran
  · exact ran

end HandlerTable

namespace Agenda

variable {α γ : Type} {agenda : Focus γ (Agenda α)} {run : α → γ → γ} {now : Nat}
  {P : γ → Prop}

/-- The action of a task whose turn it is, and the context it starts in. -/
def begun (agenda : Focus γ (Agenda α)) (now : Nat) (id : TaskId) (c : γ) : Option (α × γ) :=
  match (agenda.get c).find? id with
  | none => none
  | some t =>
      if t.isDue now && !t.running then some (t.action, agenda.modify (·.begin id now) c) else none

/-- The actions that run when some tasks have their turns, and the contexts they start in. -/
def started (agenda : Focus γ (Agenda α)) (run : α → γ → γ) (now : Nat) :
    List TaskId → γ → List (α × γ)
  | [], _ => []
  | id :: ids, c =>
      (begun agenda now id c).toList ++ started agenda run now ids (turn agenda run now id c).1

/-- What does not depend on the agenda and is kept by the action of a task holds after its
turn. -/
theorem turn_keeps {id : TaskId} {c : γ} (hset : ∀ a c, P c → P (agenda.set a c))
    (hrun : ∀ x ∈ begun agenda now id c, P x.2 → P (run x.1 x.2)) (hc : P c) :
    P (turn agenda run now id c).1 := by
  simp only [turn]
  split
  · exact hc
  next t ht =>
    split
    next due =>
      have starts : (t.action, agenda.modify (·.begin id now) c) ∈ begun agenda now id c := by
        simp [begun, ht, due]
      exact hset _ _ (hrun _ starts (hset _ _ hc))
    next => exact hc

/-- What does not depend on the agenda and is kept by all actions that start holds after
the turns of some tasks. -/
theorem turns_keeps {ids : List TaskId} {c : γ} (hset : ∀ a c, P c → P (agenda.set a c))
    (hrun : ∀ x ∈ started agenda run now ids c, P x.2 → P (run x.1 x.2)) (hc : P c) :
    P (turns agenda run now ids c).1 := by
  simp only [turns]
  generalize 0 = count
  induction ids generalizing c count with
  | nil => exact hc
  | cons id ids ih =>
      have first : P (turn agenda run now id c).1 := turn_keeps hset
        (fun x hx => hrun x (List.mem_append_left _ (Option.mem_toList.mpr hx))) hc
      exact ih (fun x hx => hrun x (List.mem_append_right _ hx)) first _

end Agenda

end SpanningMesh
