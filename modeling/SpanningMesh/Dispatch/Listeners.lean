import SpanningMesh.Dispatch.Handlers

/-!
# Listeners of one event

`Listeners` is a table with a single key.  Firing runs the listeners that are
there, with all that a dispatch promises: one that is added meanwhile waits for the
next time.
-/

namespace SpanningMesh

/-- The listeners of one event, in the order in which they came. -/
abbrev Listeners (η : Type) := HandlerTable Unit η

namespace Listeners

variable {η γ : Type}

/-- The listeners in the order in which they came. -/
def toList (l : Listeners η) : List η := l.handlers ()

/-- Add a listener behind those that are there. -/
def push (l : Listeners η) (h : η) : Listeners η := l.register () h

/-- Run the listeners that are there now and count them. -/
def fire (list : Focus γ (Listeners η)) (run : η → γ → γ) (c : γ) : γ × Nat :=
  let (c, outcome) := HandlerTable.dispatch list (fun h c => (run h c, .pass)) () c
  (c, outcome.invoked)

@[simp] theorem toList_push (l : Listeners η) (h : η) : (l.push h).toList = l.toList ++ [h] := by
  simp [toList, push]

end Listeners

end SpanningMesh
