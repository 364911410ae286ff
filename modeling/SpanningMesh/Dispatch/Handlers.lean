import SpanningMesh.Focus

/-!
# Tables of handlers

A `HandlerTable` holds handlers by a key, such as the kind of packet they take or
the kind of event they wait for, in the order in which they were registered.  A
dispatch runs the handlers of one key.  A handler may do anything to the context
that holds the table: register more handlers, dispatch again, clear the table.

So that none of this can disturb the run, the handlers of the key leave the
table first.  A handler that is registered meanwhile waits for the next dispatch,
and a dispatch within a dispatch finds only such handlers.  After the run the
handlers go back in front of those that came meanwhile, unless the table was
cleared, which the count of clearings shows.

A handler is a value here, and `run` says what it does.
-/

namespace SpanningMesh

/-- What a handler says of what it was given.  The other handlers run either way. -/
inductive Flow where
  | pass
  | consumed
deriving Repr, DecidableEq, Inhabited

/-- Handlers by key. -/
structure HandlerTable (κ η : Type) where
  /-- Keys and handlers, for each key in the order of registration. -/
  entries : List (κ × η) := []
  clearings : Nat := 0
deriving Repr

/-- What a dispatch did. -/
structure DispatchOutcome where
  invoked : Nat := 0
  consumed : Nat := 0
deriving Repr, DecidableEq, Inhabited

namespace HandlerTable

variable {κ η γ : Type} [DecidableEq κ]

instance : Inhabited (HandlerTable κ η) := ⟨{}⟩

/-- The handlers of a key in the order of registration. -/
def handlers (t : HandlerTable κ η) (key : κ) : List η :=
  (t.entries.filter (·.1 == key)).map Prod.snd

/-- Add a handler behind those of its key. -/
def register (t : HandlerTable κ η) (key : κ) (h : η) : HandlerTable κ η :=
  { t with entries := t.entries ++ [(key, h)] }

/-- Remove all handlers, and count that. -/
def clear (t : HandlerTable κ η) : HandlerTable κ η := ⟨[], t.clearings + 1⟩

/-- Take the handlers of a key out. -/
def remove (t : HandlerTable κ η) (key : κ) : HandlerTable κ η :=
  { t with entries := t.entries.filter (·.1 != key) }

/-- Put handlers of a key in front of those there are. -/
def putBack (t : HandlerTable κ η) (key : κ) (hs : List η) : HandlerTable κ η :=
  { t with entries := hs.map (key, ·) ++ t.entries }

/-- Run handlers one after the other and count. -/
def runAll (run : η → γ → γ × Flow) (hs : List η) (c : γ) : γ × DispatchOutcome :=
  hs.foldl
    (fun (c, o) h =>
      let (c, flow) := run h c
      (c, ⟨o.invoked + 1, if flow = .consumed then o.consumed + 1 else o.consumed⟩))
    (c, {})

/-- Run the handlers of a key that are in the table now. -/
def dispatch (table : Focus γ (HandlerTable κ η)) (run : η → γ → γ × Flow) (key : κ) (c : γ) :
    γ × DispatchOutcome :=
  let t := table.get c
  let hs := t.handlers key
  let (c, outcome) := runAll run hs (table.set (t.remove key) c)
  let t' := table.get c
  (if t'.clearings = t.clearings then table.set (t'.putBack key hs) c else c, outcome)

@[simp] theorem handlers_register (t : HandlerTable κ η) (key k : κ) (h : η) :
    (t.register key h).handlers k = t.handlers k ++ if key = k then [h] else [] := by
  by_cases hk : key = k <;> simp [handlers, register, List.filter_append, hk]

@[simp] theorem handlers_clear (t : HandlerTable κ η) (key : κ) :
    t.clear.handlers key = [] := rfl

theorem handlers_remove (t : HandlerTable κ η) (key k : κ) :
    (t.remove key).handlers k = if key = k then [] else t.handlers k := by
  by_cases hk : key = k
  · subst hk
    simp [handlers, remove, List.filter_filter]
  · have hne : ∀ a : κ × η, (a.1 == k && a.1 != key) = (a.1 == k) := by
      intro a
      by_cases ha : a.1 = k
      · simp [ha, Ne.symm hk]
      · simp [ha]
    simp [handlers, remove, List.filter_filter, hk, hne]

theorem handlers_putBack (t : HandlerTable κ η) (key k : κ) (hs : List η) :
    (t.putBack key hs).handlers k = (if key = k then hs else []) ++ t.handlers k := by
  by_cases hk : key = k
  · subst hk
    simp [handlers, putBack, List.filter_append, List.filter_map, Function.comp_def]
  · simp [handlers, putBack, List.filter_append, List.filter_map, Function.comp_def, hk]

end HandlerTable

end SpanningMesh
