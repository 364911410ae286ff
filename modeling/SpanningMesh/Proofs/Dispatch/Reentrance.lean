import Mathlib.Data.List.DropRight
import SpanningMesh.Dispatch.Listeners

/-!
# Handlers that act on their own table

While a dispatch runs, the handlers of its key are not in the table.  Its handlers may do to the
table what anybody may: register handlers, clear it, dispatch again, in which case more handlers
leave the table and return.

`Acts` describes work of this kind on any context, to any depth, with the list of what was
registered and cleared on the way, in the order in which it happened.  Nothing is asked of a
handler but that its own runs are such work.  After such work the table holds for each key what was
registered since the last clearing, as if no handler had ever left it
(`HandlerTable.reentrant`).

One dispatch keeps this up for one reason.  What is registered while the handlers of a key are
out comes behind them, and they return in front of it.  If the table was cleared on the way,
nothing that was there before counts any more, and they do not return.
-/

namespace SpanningMesh

namespace Focus

variable {γ τ : Type}

/-- The part of a context that has something beside it. -/
def beside (f : Focus γ τ) (ν : Type) : Focus (γ × ν) τ :=
  ⟨fun c => f.get c.1, fun t c => (f.set t c.1, c.2)⟩

end Focus

namespace HandlerTable

variable {κ η γ ν : Type}

/-! ## The calls of a dispatch -/

section Calls

variable (run : η → γ → γ × Flow)

/-- Handlers that run one after the other, each with the context that it is given. -/
def calls : List η → γ → List (η × γ)
  | [], _ => []
  | h :: hs, c => (h, c) :: calls hs (run h c).1

/-- The context after all of some handlers. -/
def finish (hs : List η) (c : γ) : γ := hs.foldl (fun c h => (run h c).1) c

/-- Run a handler and note what it said. -/
def noting (note : η → Flow → ν) (h : η) (c : γ × List ν) : (γ × List ν) × Flow :=
  (((run h c.1).1, c.2 ++ [note h (run h c.1).2]), (run h c.1).2)

/-- Every handler is called, in order. -/
theorem calls_fst (hs : List η) (c : γ) : (calls run hs c).map Prod.fst = hs := by
  induction hs generalizing c with
  | nil => rfl
  | cons h hs ih => rw [calls, List.map_cons, ih]

/-- Run one more handler and count it. -/
def tally (s : γ × DispatchOutcome) (h : η) : γ × DispatchOutcome :=
  ((run h s.1).1, ⟨s.2.invoked + 1,
    if (run h s.1).2 = .consumed then s.2.consumed + 1 else s.2.consumed⟩)

/-- The tally counts the handlers that were called, and those that consumed. -/
theorem foldl_tally (hs : List η) (c : γ) (o : DispatchOutcome) :
    hs.foldl (tally run) (c, o) = (finish run hs c, ⟨o.invoked + hs.length,
      o.consumed + (calls run hs c).countP fun x => (run x.1 x.2).2 = .consumed⟩) := by
  induction hs generalizing c o with
  | nil => rfl
  | cons h hs ih =>
      rw [List.foldl_cons, tally, ih]
      by_cases said : (run h c).2 = .consumed
      · simp [finish, calls, said]
        omega
      · simp [finish, calls, said]
        omega

theorem runAll_eq (hs : List η) (c : γ) :
    runAll run hs c = (finish run hs c,
      ⟨hs.length, (calls run hs c).countP fun x => (run x.1 x.2).2 = .consumed⟩) := by
  have counted : runAll run hs c = hs.foldl (tally run) (c, {}) := rfl
  rw [counted, foldl_tally]
  simp

/-- To note each call beside the state does not change what the handlers do. -/
theorem finish_noting (note : η → Flow → ν) (hs : List η) (c : γ) (notes : List ν) :
    finish (noting run note) hs (c, notes) =
      (finish run hs c, notes ++ (calls run hs c).map fun x => note x.1 (run x.1 x.2).2) := by
  induction hs generalizing c notes with
  | nil => simp [finish, calls]
  | cons h hs ih =>
      have rest := ih (run h c).1 (notes ++ [note h (run h c).2])
      simp only [finish, List.foldl_cons, noting, calls] at rest ⊢
      rw [rest]
      simp

theorem countP_calls_noting (note : η → Flow → ν) (hs : List η) (c : γ) (notes : List ν) :
    (calls (noting run note) hs (c, notes)).countP
        (fun x => (noting run note x.1 x.2).2 = .consumed) =
      (calls run hs c).countP fun x => (run x.1 x.2).2 = .consumed := by
  induction hs generalizing c notes with
  | nil => rfl
  | cons h hs ih =>
      rw [calls, calls, List.countP_cons, List.countP_cons]
      exact congrArg (· + _) (ih _ _)

end Calls

variable [DecidableEq κ]

/-- The calls that a dispatch of a key makes: those of the handlers in the table, after they
have left it. -/
def callsOf (table : Focus γ (HandlerTable κ η)) (run : η → γ → γ × Flow) (key : κ) (c : γ) :
    List (η × γ) :=
  calls run ((table.get c).handlers key) (table.set ((table.get c).remove key) c)

/-- A dispatch in which each handler notes that it ran makes one note for each handler that the
table had for the key, in their order, and does not differ otherwise. -/
theorem dispatch_noting (table : Focus γ (HandlerTable κ η)) (run : η → γ → γ × Flow)
    (note : η → Flow → ν) (key : κ) (c : γ) (notes : List ν) :
    dispatch (table.beside (List ν)) (noting run note) key (c, notes) =
      (((dispatch table run key c).1,
        notes ++ (callsOf table run key c).map fun x => note x.1 (run x.1 x.2).2),
        (dispatch table run key c).2) := by
  simp only [dispatch, Focus.beside, runAll_eq, finish_noting, countP_calls_noting, callsOf]
  split <;> rfl

/-- The outcome of a dispatch counts its calls, and the ones that consumed. -/
theorem dispatch_outcome (table : Focus γ (HandlerTable κ η)) (run : η → γ → γ × Flow) (key : κ)
    (c : γ) : (dispatch table run key c).2 =
      ⟨(callsOf table run key c).length,
        (callsOf table run key c).countP fun x => (run x.1 x.2).2 = .consumed⟩ := by
  have all := congrArg List.length (calls_fst run ((table.get c).handlers key)
    (table.set ((table.get c).remove key) c))
  rw [List.length_map] at all
  simp only [dispatch, runAll_eq, callsOf, all]

/-! ## What is done to a table -/

/-- What is done to a table. -/
inductive Deed (κ η : Type) where
  | registered (key : κ) (h : η)
  | cleared
deriving Repr, DecidableEq

namespace Deed

/-- Whether a deed registers a handler. -/
def isRegistration : Deed κ η → Bool
  | registered _ _ => true
  | cleared => false

/-- The handler that is registered under a key. -/
def under (key : κ) : Deed κ η → Option η
  | registered k h => if k = key then some h else none
  | cleared => none

/-- The handlers that were registered under a key since the last clearing, in order. -/
def held (key : κ) (deeds : List (Deed κ η)) : List η :=
  (deeds.rtakeWhile isRegistration).filterMap (under key)

/-- How often the table was cleared. -/
def clearings (deeds : List (Deed κ η)) : Nat := deeds.countP (!·.isRegistration)

variable {key : κ} {deeds deeds' : List (Deed κ η)}

@[simp] theorem held_nil : held key ([] : List (Deed κ η)) = [] := rfl

/-- A handler that is registered comes last under its key. -/
theorem held_concat_registered (deeds : List (Deed κ η)) (key k : κ) (h : η) :
    held key (deeds ++ [registered k h]) = held key deeds ++ if k = key then [h] else [] := by
  simp only [held, List.rtakeWhile_concat, isRegistration, if_true, List.filterMap_append]
  by_cases hk : k = key
  · simp [under, hk]
  · simp [under, hk]

/-- Nothing is held once the table is cleared. -/
theorem held_concat_cleared (deeds : List (Deed κ η)) (key : κ) :
    held key (deeds ++ [cleared]) = [] := by
  simp [held, isRegistration]

omit [DecidableEq κ] in
@[simp] theorem clearings_append :
    clearings (deeds ++ deeds') = clearings deeds + clearings deeds' := List.countP_append

/-- What was registered before a clearing does not count after it. -/
theorem held_append :
    held key (deeds ++ deeds') =
      (if clearings deeds' = 0 then held key deeds else []) ++ held key deeds' := by
  induction deeds' using List.reverseRecOn with
  | nil => simp [clearings]
  | append_singleton deeds' deed ih =>
      rw [← List.append_assoc]
      cases deed with
      | registered k h =>
          have same : clearings (deeds' ++ [registered k h]) = clearings deeds' := by
            rw [clearings_append]
            rfl
          rw [held_concat_registered, held_concat_registered, ih, same, List.append_assoc]
      | cleared =>
          have some : clearings (deeds' ++ [(cleared : Deed κ η)]) ≠ 0 := by
            simp [clearings, isRegistration]
          rw [held_concat_cleared, held_concat_cleared, if_neg some, List.append_nil]

end Deed

open Deed (held)

/-! ## What a table holds afterwards -/

/-- A table is what another one became by some deeds: it has what was registered since the last
clearing, behind what there was if there was no clearing. -/
structure Follows (deeds : List (Deed κ η)) (t t' : HandlerTable κ η) : Prop where
  clearings : t'.clearings = t.clearings + Deed.clearings deeds
  handlers : ∀ key, t'.handlers key =
    (if Deed.clearings deeds = 0 then t.handlers key else []) ++ held key deeds

namespace Follows

variable {deeds deeds' : List (Deed κ η)} {t t' t'' : HandlerTable κ η}

theorem refl (t : HandlerTable κ η) : Follows [] t t :=
  ⟨rfl, fun _ => (List.append_nil _).symm⟩

theorem register (key : κ) (h : η) (t : HandlerTable κ η) :
    Follows [.registered key h] t (t.register key h) := by
  refine ⟨rfl, fun k => ?_⟩
  rw [handlers_register]
  exact congrArg (t.handlers k ++ ·) (Deed.held_concat_registered [] k key h).symm

theorem clear (t : HandlerTable κ η) : Follows [.cleared] t t.clear :=
  ⟨rfl, fun key => (Deed.held_concat_cleared [] key).symm⟩

theorem trans (h : Follows deeds t t') (h' : Follows deeds' t' t'') :
    Follows (deeds ++ deeds') t t'' := by
  constructor
  · rw [h'.clearings, h.clearings, Deed.clearings_append, Nat.add_assoc]
  · intro key
    rw [h'.handlers, h.handlers, Deed.held_append, Deed.clearings_append]
    by_cases later : Deed.clearings deeds' = 0
    · simp [later]
    · simp [later]

/-- What follows from a table without the handlers of a key follows from the whole table once
they are back, or from the table that was cleared meanwhile. -/
theorem putBack {key : κ} (h : Follows deeds (t.remove key) t') :
    Follows deeds t
      (if t'.clearings = t.clearings then t'.putBack key (t.handlers key) else t') := by
  have count : t'.clearings = t.clearings + Deed.clearings deeds := h.clearings
  by_cases none : Deed.clearings deeds = 0
  · rw [if_pos (by omega)]
    refine ⟨count, fun k => ?_⟩
    rw [handlers_putBack, h.handlers, handlers_remove]
    by_cases hk : key = k
    · simp [hk, none]
    · simp [hk, none]
  · rw [if_neg (by omega)]
    refine ⟨count, fun k => ?_⟩
    rw [h.handlers, if_neg none, if_neg none]

end Follows

/-! ## Work that acts on a table -/

omit [DecidableEq κ] in
/-- What holds of the calls of some handlers one by one holds of all together, if it holds of
doing nothing and of one thing after another. -/
theorem calls_compose {δ : Type} {R : List δ → γ → γ → Prop} (nothing : ∀ c, R [] c c)
    (trans : ∀ {ds ds' c c' c''}, R ds c c' → R ds' c' c'' → R (ds ++ ds') c c'')
    (run : η → γ → γ × Flow) (deeds : η × γ → List δ) (hs : List η) (c : γ)
    (each : ∀ x ∈ calls run hs c, R (deeds x) x.2 (run x.1 x.2).1) :
    R ((calls run hs c).flatMap deeds) c (finish run hs c) := by
  induction hs generalizing c with
  | nil => exact nothing c
  | cons h hs ih =>
      have first := each (h, c) List.mem_cons_self
      have rest := ih (run h c).1 fun x hx => each x (List.mem_cons_of_mem _ hx)
      exact trans first rest

/-- What holds of the calls of a dispatch holds of the dispatch, if it holds of all that is done to
the table and of one thing after another. -/
theorem dispatch_compose {δ : Type} {table : Focus γ (HandlerTable κ η)}
    {R : List δ → γ → γ → Prop} (nothing : ∀ c, R [] c c) (change : ∀ t c, R [] c (table.set t c))
    (trans : ∀ {ds ds' c c' c''}, R ds c c' → R ds' c' c'' → R (ds ++ ds') c c'')
    (run : η → γ → γ × Flow) (deeds : η × γ → List δ) (key : κ) (c : γ)
    (each : ∀ x ∈ callsOf table run key c, R (deeds x) x.2 (run x.1 x.2).1) :
    R ((callsOf table run key c).flatMap deeds) c (dispatch table run key c).1 := by
  have ran := trans (change ((table.get c).remove key) c)
    (calls_compose nothing trans run deeds _ _ each)
  simp only [dispatch, runAll_eq]
  split
  · have returned := fun t => trans ran (change t _)
    simp only [List.append_nil] at returned
    exact returned _
  · exact ran

/-- Work on a context, with what it does to the table.  It may do anything elsewhere, register,
clear and dispatch with any data `w`, one after the other and to any depth: what it does in a
dispatch is what the handlers do that are called.  A handler may do anything of this kind. -/
inductive Acts {ω : Type} (table : Focus γ (HandlerTable κ η)) (run : ω → η → γ → γ × Flow) :
    List (Deed κ η) → γ → γ → Prop
  | elsewhere {c c' : γ} (same : table.get c' = table.get c) : Acts table run [] c c'
  | register (key : κ) (h : η) (c : γ) :
      Acts table run [.registered key h] c (table.modify (·.register key h) c)
  | clear (c : γ) : Acts table run [.cleared] c (table.modify HandlerTable.clear c)
  | dispatch (w : ω) (key : κ) (c : γ) (deeds : η × γ → List (Deed κ η))
      (each : ∀ x ∈ callsOf table (run w) key c, Acts table run (deeds x) x.2 (run w x.1 x.2).1) :
      Acts table run ((callsOf table (run w) key c).flatMap deeds) c
        (HandlerTable.dispatch table (run w) key c).1
  | andThen {deeds deeds' : List (Deed κ η)} {c c' c'' : γ} (first : Acts table run deeds c c')
      (next : Acts table run deeds' c' c'') : Acts table run (deeds ++ deeds') c c''

section Acts

variable {ω : Type} {table : Focus γ (HandlerTable κ η)} {run : ω → η → γ → γ × Flow}
  {deeds : List (Deed κ η)} {c c' : γ}

/-- The table after a dispatch. -/
theorem get_dispatch (lawful : table.Lawful) (run : η → γ → γ × Flow) (key : κ) (c : γ) :
    table.get (dispatch table run key c).1 =
      let t := table.get c
      let t' := table.get (finish run (t.handlers key) (table.set (t.remove key) c))
      if t'.clearings = t.clearings then t'.putBack key (t.handlers key) else t' := by
  simp only [dispatch, runAll_eq]
  split
  · exact lawful.get_set _ _
  · rfl

/-- After work that acts on a table, the table follows from what it was by what was done. -/
theorem Acts.follows (lawful : table.Lawful) (acts : Acts table run deeds c c') :
    Follows deeds (table.get c) (table.get c') := by
  induction acts with
  | elsewhere same =>
      rw [same]
      exact .refl _
  | register key h c =>
      rw [Focus.modify, lawful.get_set]
      exact .register key h _
  | clear c =>
      rw [Focus.modify, lawful.get_set]
      exact .clear _
  | dispatch w key c deeds _ ih =>
      have ran := calls_compose (R := fun ds c c' => Follows ds (table.get c) (table.get c'))
        (fun c => .refl _) .trans (run w) deeds _ _ ih
      rw [lawful.get_set] at ran
      rw [get_dispatch lawful]
      exact ran.putBack
  | andThen _ _ first next => exact first.trans next

end Acts

end HandlerTable

/-! ## Listeners -/

namespace Listeners

open HandlerTable (noting dispatch_noting dispatch_outcome callsOf calls_fst)

variable {η γ : Type} {list : Focus γ (Listeners η)}

/-- Firing calls the listeners that are there, in their order, and counts them. -/
theorem fire_noting (act : η → γ → γ) (c : γ) (notes : List η) :
    (fire list act c).2 = (list.get c).toList.length ∧
      fire (list.beside (List η)) (fun h c => (act h c.1, c.2 ++ [h])) (c, notes) =
        (((fire list act c).1, notes ++ (list.get c).toList), (fire list act c).2) := by
  have called : (callsOf list (fun h c => (act h c, .pass)) () c).map Prod.fst =
      (list.get c).toList := calls_fst _ _ _
  constructor
  · rw [← called, List.length_map]
    simp only [fire, dispatch_outcome]
  · have noted := dispatch_noting list (fun h c => (act h c, .pass)) (fun h _ => h) () c notes
    rw [called] at noted
    simp only [fire]
    exact congrArg (fun x => (x.1, x.2.invoked)) noted

end Listeners

/-! ## Tables at any time -/

namespace HandlerTable

variable {κ η γ ω : Type} [DecidableEq κ]

/-- Whatever handlers do to the table that holds them, and to any depth: a dispatch runs the
handlers that it finds, each once and in the order in which they were registered, and counts
them.  And after any work the table holds for each key, in order, what was registered since the
last clearing, behind what there was if the table was not cleared; a new table holds nothing
else.  The same holds of a list of listeners. -/
theorem reentrant {ω' η' γ' : Type} {table : Focus γ (HandlerTable κ η)}
    {run : ω → η → γ → γ × Flow} {list : Focus γ' (Listeners η')} {act : ω' → η' → γ' → γ'}
    (lawful : table.Lawful) (lawful' : list.Lawful) :
    (∀ w key c, ∃ ran : List (η × Flow), ran.map Prod.fst = (table.get c).handlers key ∧
      (dispatch table (run w) key c).2 = ⟨ran.length, ran.countP (·.2 = .consumed)⟩ ∧
      ∀ notes, dispatch (table.beside (List (η × Flow))) (noting (run w) Prod.mk) key (c, notes) =
        (((dispatch table (run w) key c).1, notes ++ ran), (dispatch table (run w) key c).2)) ∧
    (∀ deeds c c', Acts table run deeds c c' → ∀ key, (table.get c').handlers key =
      (if Deed.clearings deeds = 0 then (table.get c).handlers key else []) ++
        Deed.held key deeds) ∧
    (∀ w c notes, (Listeners.fire list (act w) c).2 = (list.get c).toList.length ∧
      Listeners.fire (list.beside (List η')) (fun h c => (act w h c.1, c.2 ++ [h])) (c, notes) =
        (((Listeners.fire list (act w) c).1, notes ++ (list.get c).toList),
          (Listeners.fire list (act w) c).2)) ∧
    ∀ deeds c c', Acts list (fun w h c => (act w h c, .pass)) deeds c c' → (list.get c').toList =
      (if Deed.clearings deeds = 0 then (list.get c).toList else []) ++ Deed.held () deeds := by
  refine ⟨fun w key c => ?_, fun deeds c c' acts key => (acts.follows lawful).handlers key,
    fun w c notes => Listeners.fire_noting (act w) c notes,
    fun deeds c c' acts => (acts.follows lawful').handlers ()⟩
  have outcome := dispatch_outcome table (run w) key c
  refine ⟨(callsOf table (run w) key c).map fun x => (x.1, (run w x.1 x.2).2), ?_, ?_, ?_⟩
  · rw [List.map_map]
    exact calls_fst _ _ _
  · rw [outcome, List.length_map, List.countP_map]
    rfl
  · exact dispatch_noting table (run w) Prod.mk key c

/-- Handler 0 registers handler 1, dispatches again and registers handler 2.  Handler 1 clears
the table and registers handler 3.  The others do nothing. -/
def meddle : Nat → Nat → HandlerTable Nat Nat → HandlerTable Nat Nat × Flow
  | level + 1, 0, t =>
      let t := (dispatch .whole (meddle level) 7 (t.register 7 1)).1
      (t.register 7 2, .pass)
  | _, 1, t => (t.clear.register 7 3, .consumed)
  | _, _, t => (t, .pass)

/-- What handlers 0 and 1 do to the table. -/
def meddled (x : Nat × HandlerTable Nat Nat) : List (Deed Nat Nat) :=
  match x.1 with
  | 0 => [.registered 7 1, .cleared, .registered 7 3, .registered 7 2]
  | 1 => [.cleared, .registered 7 3]
  | _ => []

/-- A table with the handlers 0 and 4 under one key. -/
def pair : HandlerTable Nat Nat := { entries := [(7, 0), (7, 4)] }

/-- The handlers 0 and 4 leave the table, and the clearing keeps them from coming back. -/
theorem reentrant_meddle :
    ∃ deeds, Acts .whole meddle deeds pair (dispatch .whole (meddle 1) 7 pair).1 ∧
      Deed.held 7 deeds = [3, 2] ∧ (dispatch .whole (meddle 1) 7 pair).1.handlers 7 = [3, 2] ∧
      ∃ ran : List (Nat × Flow), ran.map Prod.fst = [0, 4] ∧
        (dispatch .whole (meddle 1) 7 pair).2 = ⟨ran.length, ran.countP (·.2 = .consumed)⟩ := by
  obtain ⟨runs, holds, -, -⟩ := @reentrant Nat Nat _ Nat _ Unit Nat _ .whole meddle .whole
    (fun _ _ t => t) Focus.lawful_whole Focus.lawful_whole
  have inner : ∀ x ∈ callsOf .whole (meddle 0) 7 ((pair.remove 7).register 7 1),
      Acts .whole meddle (meddled x) x.2 (meddle 0 x.1 x.2).1 := by
    intro x called
    obtain rfl := List.mem_singleton.mp called
    exact .andThen (.clear _) (.register 7 3 _)
  have outer : ∀ x ∈ callsOf .whole (meddle 1) 7 pair,
      Acts .whole meddle (meddled x) x.2 (meddle 1 x.1 x.2).1 := by
    intro x called
    rcases List.mem_cons.mp called with rfl | called
    · exact .andThen (.register 7 1 _) (.andThen (.dispatch 0 7 _ meddled inner) (.register 7 2 _))
    · obtain rfl := List.mem_singleton.mp called
      exact .elsewhere rfl
  have acts := Acts.dispatch 1 7 pair meddled outer
  have after := holds _ _ _ acts 7
  obtain ⟨ran, found, outcome, -⟩ := runs 1 7 pair
  have held : Deed.held 7 ((callsOf .whole (meddle 1) 7 pair).flatMap meddled) = [3, 2] := by decide
  refine ⟨_, acts, held, ?_, ran, found, outcome⟩
  rw [held] at after
  exact after

end HandlerTable

end SpanningMesh
