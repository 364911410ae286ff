import Mathlib.Data.List.Basic
import Mathlib.Data.List.Nodup
import SpanningMesh.Agenda

/-!
# What an agenda has under a handle

Everything that is done to an agenda adds tasks behind the others, takes some away or changes
the one task under a handle.  For each operation there is one lemma that says which task is found
under any handle afterwards.  Later proofs cite these and do not look at the list of tasks.

A look-up finds the first task with a handle.  That it is the only one follows where handles are
known to increase (`find?_of_mem`).
-/

namespace SpanningMesh

namespace Agenda

variable {α : Type} (a : Agenda α) {id i : TaskId} {t : Task α}

/-- The handles of the tasks, in the order in which they were added. -/
def ids : List TaskId := a.tasks.map Prod.fst

/-! ## Looking up -/

variable {a}

theorem mem_of_find? (h : a.find? id = some t) : (id, t) ∈ a.tasks := by
  obtain ⟨⟨i, u⟩, found, rfl⟩ := Option.map_eq_some_iff.mp h
  have same : i = id := by simpa using List.find?_some found
  exact same ▸ List.mem_of_find?_eq_some found

theorem mem_ids_of_find? (h : a.find? id = some t) : id ∈ a.ids :=
  List.mem_map_of_mem (f := Prod.fst) (mem_of_find? h)

/-- A task is found by its id if ids are different. -/
theorem find?_of_mem (different : a.ids.Nodup) (h : (id, t) ∈ a.tasks) : a.find? id = some t := by
  cases found : a.find? id with
  | none =>
      have none := List.find?_eq_none.mp (Option.map_eq_none_iff.mp found) _ h
      simp at none
  | some u =>
      have same := List.inj_on_of_nodup_map different h (mem_of_find? found) rfl
      exact congrArg some (congrArg Prod.snd same).symm

theorem find?_eq_none_iff : a.find? id = none ↔ id ∉ a.ids := by
  simp only [find?, Option.map_eq_none_iff, List.find?_eq_none, ids, List.mem_map, not_exists,
    not_and, decide_eq_true_eq]

/-- The ids that are due are those of the tasks that are. -/
theorem mem_dueIds {now : Nat} (different : a.ids.Nodup) :
    id ∈ a.dueIds now ↔ ∃ t, a.find? id = some t ∧ t.isDue now = true := by
  simp only [dueIds, List.mem_map, List.mem_filter]
  constructor
  · rintro ⟨⟨i, t⟩, ⟨mem, due⟩, rfl⟩
    exact ⟨t, find?_of_mem different mem, due⟩
  · rintro ⟨t, found, due⟩
    exact ⟨(id, t), ⟨mem_of_find? found, due⟩, rfl⟩

theorem nodup_dueIds (different : a.ids.Nodup) (now : Nat) : (a.dueIds now).Nodup :=
  different.sublist (List.filter_sublist.map Prod.fst)

variable (a)

/-! ## Adding and taking away -/

theorem ids_erase (i : TaskId) : (a.erase i).ids = a.ids.filter (· ≠ i) := by
  simp only [ids, erase, List.filter_map]
  rfl

/-- The task that is erased cannot be found any more, and all others can. -/
theorem find?_erase (i id : TaskId) :
    (a.erase i).find? id = if id = i then none else a.find? id := by
  by_cases same : id = i
  · rw [if_pos same, find?_eq_none_iff, ids_erase]
    simp [same]
  · have kept : (fun x : TaskId × Task α => decide (decide (x.1 ≠ i) = true ∧
        decide (x.1 = id) = true)) = fun x => decide (x.1 = id) := by
      funext x
      by_cases hx : x.1 = id
      · simp [hx, same]
      · simp [hx]
    simp only [if_neg same, find?, erase, List.find?_filter, kept]

/-- To forget some tasks one after the other is to keep the others. -/
theorem foldl_erase (ids : List TaskId) :
    ids.foldl erase a = { a with tasks := a.tasks.filter fun t => t.1 ∉ ids } := by
  induction ids generalizing a with
  | nil => simp
  | cons id ids ih =>
      rw [List.foldl_cons, ih]
      simp only [erase, List.filter_filter, List.mem_cons, not_or, Bool.decide_and]
      congr 2
      funext t
      rw [Bool.and_comm]

theorem find?_foldl_erase (ids : List TaskId) (id : TaskId) :
    (ids.foldl erase a).find? id = if id ∈ ids then none else a.find? id := by
  induction ids generalizing a with
  | nil => simp
  | cons i ids ih =>
      rw [List.foldl_cons, ih, find?_erase]
      by_cases later : id ∈ ids
      · simp [later]
      · by_cases same : id = i
        · simp [same]
        · simp [same, later]

theorem ids_insert (interval : Nat) (runs : Runs) (persistent : Bool) (action : α) :
    (a.insert interval runs persistent action).2.ids = a.ids ++ [⟨a.nextId⟩] := by
  simp [ids, insert]

/-- A task that is added is found under the next handle, unless that was taken. -/
theorem find?_insert (fresh : ∀ i ∈ a.ids, i.number < a.nextId) (interval : Nat) (runs : Runs)
    (persistent : Bool) (action : α) (id : TaskId) :
    (a.insert interval runs persistent action).2.find? id =
      if id = ⟨a.nextId⟩ then
        some ⟨interval, runs, runs, a.now, !persistent, persistent, false, action⟩
      else a.find? id := by
  have new : a.find? ⟨a.nextId⟩ = none :=
    find?_eq_none_iff.mpr fun taken => Nat.lt_irrefl _ (fresh _ taken)
  by_cases next : id = ⟨a.nextId⟩
  · subst next
    rw [if_pos rfl]
    simp only [find?, Option.map_eq_none_iff] at new
    simp [find?, insert, List.find?_append, new]
  · rw [if_neg next]
    simp [find?, insert, List.find?_append, Ne.symm next]

/-! ## Changing one task -/

theorem ids_update (i : TaskId) (f : Task α → Task α) : (a.update i f).ids = a.ids := by
  simp only [ids, update, List.map_map]
  refine List.map_congr_left fun x _ => ?_
  by_cases same : x.1 = i
  · simp [same]
  · simp [same]

theorem find?_update_self (f : Task α → Task α) :
    (a.update id f).find? id = (a.find? id).map f := by
  simp only [find?, update]
  induction a.tasks with
  | nil => rfl
  | cons t ts ih =>
      obtain ⟨i, t⟩ := t
      by_cases hi : i = id
      · simp [hi]
      · simpa [hi] using ih

theorem find?_update_of_ne (f : Task α → Task α) (other : id ≠ i) :
    (a.update i f).find? id = a.find? id := by
  simp only [find?, update]
  induction a.tasks with
  | nil => rfl
  | cons t ts ih =>
      obtain ⟨k, t⟩ := t
      by_cases hk : k = i
      · simpa [hk, Ne.symm other] using ih
      · by_cases hid : k = id
        · simp [hid, other]
        · simpa [hk, hid] using ih

/-- An update changes one task and leaves the others as they are. -/
theorem find?_update (i : TaskId) (f : Task α → Task α) (id : TaskId) :
    (a.update i f).find? id = if id = i then (a.find? id).map f else a.find? id := by
  by_cases same : id = i
  · rw [if_pos same, same, find?_update_self]
  · rw [if_neg same, find?_update_of_ne _ _ same]

/-- A task that rests is armed when it is enabled. -/
theorem find?_enable (i id : TaskId) :
    (a.enable i).2.find? id =
      if id = i then (a.find? id).map fun t => if t.enabled then t else t.armed a.now
      else a.find? id := by
  by_cases same : id = i
  · subst same
    rw [if_pos rfl]
    cases found : a.find? id with
    | none => simp [enable, found]
    | some t =>
        by_cases enabled : t.enabled = true
        · simp [enable, found, enabled]
        · simp [enable, found, enabled, find?_update_self]
  · rw [if_neg same]
    simp only [enable]
    split
    next => rfl
    next =>
      dsimp only
      split
      · rfl
      · exact find?_update_of_ne _ _ same

/-- Only a task that is enabled can be postponed. -/
theorem find?_postpone (i : TaskId) (due : Nat) (id : TaskId) :
    (a.postpone i due).2.find? id =
      if id = i then (a.find? id).map fun t => if t.enabled then { t with due := due } else t
      else a.find? id := by
  by_cases same : id = i
  · subst same
    rw [if_pos rfl]
    cases found : a.find? id with
    | none => simp [postpone, isEnabled, found]
    | some t =>
        by_cases enabled : t.enabled = true
        · simp [postpone, isEnabled, found, enabled, find?_update_self]
        · simp [postpone, isEnabled, found, enabled]
  · rw [if_neg same]
    simp only [postpone]
    split
    · exact find?_update_of_ne _ _ same
    · rfl

theorem find?_enableDelayed_of_ne (delay : Nat) (other : id ≠ i) :
    (a.enableDelayed i delay).2.find? id = a.find? id := by
  simp only [enableDelayed]
  split
  · rw [Agenda.delay, find?_postpone, if_neg other, find?_enable, if_neg other]
  · rw [find?_enable, if_neg other]

theorem find?_disable (i id : TaskId) :
    (a.disable i).2.find? id =
      if id = i then
        (a.find? id).bind fun t => if t.persistent then some { t with enabled := false } else none
      else a.find? id := by
  by_cases same : id = i
  · subst same
    rw [if_pos rfl]
    cases found : a.find? id with
    | none => simp [disable, found]
    | some t =>
        by_cases persistent : t.persistent = true
        · simp [disable, found, persistent, find?_update_self]
        · simp [disable, found, persistent, find?_erase]
  · rw [if_neg same]
    simp only [disable]
    split
    next => rfl
    next =>
      dsimp only
      split
      · exact find?_update_of_ne _ _ same
      · rw [find?_erase, if_neg same]

/-- A task that ran keeps what its action left of it, unless it is a pooled one that has nothing
left to do. -/
theorem find?_finish (i id : TaskId) :
    (a.finish i).find? id =
      if id = i then
        (a.find? id).bind fun t =>
          if t.enabled || t.persistent then some { t with running := false } else none
      else a.find? id := by
  by_cases same : id = i
  · subst same
    rw [if_pos rfl]
    cases found : a.find? id with
    | none => simp [finish, found]
    | some t =>
        by_cases stays : (t.enabled || t.persistent) = true
        · simp only [finish, found, stays, if_true, find?_update_self, Option.map_some,
            Option.bind_some]
        · simp only [finish, found, stays, Bool.false_eq_true, if_false, find?_erase, if_true,
            Option.bind_some]
  · rw [if_neg same]
    simp only [finish]
    split
    next => rfl
    next =>
      split
      · exact find?_update_of_ne _ _ same
      · rw [find?_erase, if_neg same]

end Agenda

end SpanningMesh
