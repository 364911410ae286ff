import Mathlib.Logic.Basic
import Mathlib.Logic.Function.Iterate
import SpanningMesh.Sequence

/-!
# The order of sequence ids

Counting leaves out 0, so the set ids are a circle of one less than all words, and after some
steps an id is that many places further on it (`toNat_next_iterate`).  The order is told from
the circle of all words.  On that one an id has come as many places as there were steps, or one
more if it passed 0 (`ahead_next_iterate`).

Of two different ids at least one is older than the other (`isOlderThan_or_iff`).  Both are only
if they are set and half of the circle apart (`isOlderThan_and_iff`).
-/

namespace SpanningMesh

namespace SequenceId

variable {s t : SequenceId} {k : Nat}

/-! ## Counting -/

/-- Ids go round and leave 0 out. -/
theorem toNat_next (s : SequenceId) : s.next.value.toNat = s.value.toNat % 4294967295 + 1 := by
  have lt := s.value.toNat_lt
  have succ : (s.value + 1).toNat = (s.value.toNat + 1) % 4294967296 := UInt32.toNat_add _ _
  unfold next
  split
  next around =>
    have zero : (s.value + 1).toNat = 0 := congrArg UInt32.toNat around
    show 1 = _
    omega
  next onward =>
    have pos : (s.value + 1).toNat ≠ 0 := fun zero => onward (UInt32.toNat_inj.mp zero)
    show (s.value + 1).toNat = _
    omega

/-- Some steps of counting lead that many places on, on the circle of the set ids. -/
theorem toNat_next_iterate (s : SequenceId) (k : Nat) :
    (next^[k + 1] s).value.toNat = (s.value.toNat + k) % 4294967295 + 1 := by
  induction k with
  | zero => exact toNat_next s
  | succ k ih =>
      rw [Function.iterate_succ_apply', toNat_next, ih]
      omega

/-- No id that follows another is 0. -/
theorem next_iterate_ne_zero (s : SequenceId) (h : 1 ≤ k) : (next^[k] s).value ≠ 0 := by
  obtain ⟨k, rfl⟩ := Nat.exists_eq_add_of_le' h
  intro zero
  have := toNat_next_iterate s k
  rw [zero] at this
  exact absurd this (Nat.succ_ne_zero _).symm

/-! ## Distances -/

/-- How many places ahead of one id another lies on the circle of all words. -/
def ahead (s t : SequenceId) : Nat := (t.value - s.value).toNat

theorem ahead_eq (s t : SequenceId) :
    s.ahead t = (4294967296 - s.value.toNat + t.value.toNat) % 4294967296 :=
  UInt32.toNat_sub _ _

/-- The way back is the rest of the circle. -/
theorem ahead_symm (s t : SequenceId) : t.ahead s = (4294967296 - s.ahead t) % 4294967296 := by
  have lt := s.value.toNat_lt
  have lt' := t.value.toNat_lt
  rw [ahead_eq, ahead_eq]
  omega

theorem ahead_eq_zero_iff : s.ahead t = 0 ↔ s = t := by
  have lt := s.value.toNat_lt
  have lt' := t.value.toNat_lt
  obtain ⟨a⟩ := s
  obtain ⟨b⟩ := t
  rw [ahead_eq, mk.injEq, ← UInt32.toNat_inj]
  simp only at lt lt' ⊢
  omega

/-- A set id comes as many places ahead as it is counted on, and one more if it passes 0. -/
theorem ahead_next_iterate (set : s.value ≠ 0) (h : k < 4294967295) :
    s.ahead (next^[k] s) = if s.value.toNat + k < 4294967296 then k else k + 1 := by
  have pos : s.value.toNat ≠ 0 := fun zero => set (UInt32.toNat_inj.mp zero)
  have lt := s.value.toNat_lt
  cases k with
  | zero => simp [ahead, lt]
  | succ k =>
      rw [ahead_eq, toNat_next_iterate]
      split <;> omega

/-! ## The order -/

/-- The id 0 is older than all others.  Of two others the older one lies at least half a circle
ahead of the younger one. -/
theorem isOlderThan_iff :
    s.isOlderThan t = true ↔ t.value ≠ 0 ∧ (s.value = 0 ∨ halfCircle ≤ t.ahead s) := by
  unfold isOlderThan
  split
  next same =>
    subst same
    simp [ahead, halfCircle]
  next different =>
    have ne : s.value ≠ t.value := fun eq => different (congrArg SequenceId.mk eq)
    split
    next unset => simp [unset, Ne.symm (unset ▸ ne)]
    next set => by_cases unset : t.value = 0 <;> simp [unset, set, ahead]

/-- Of two ids one is older than the other exactly when they differ. -/
theorem isOlderThan_or_iff : s.isOlderThan t = true ∨ t.isOlderThan s = true ↔ s ≠ t := by
  constructor
  · rintro older rfl
    simp [isOlderThan] at older
  · intro different
    have away : s.ahead t ≠ 0 := mt ahead_eq_zero_iff.mp different
    have ne : s.value ≠ t.value := fun eq => different (congrArg SequenceId.mk eq)
    have back := ahead_symm s t
    rw [isOlderThan_iff, isOlderThan_iff]
    by_cases unset : s.value = 0
    · exact .inl ⟨fun h => ne (unset.trans h.symm), .inl unset⟩
    · by_cases unset' : t.value = 0
      · exact .inr ⟨unset, .inl unset'⟩
      · simp only [halfCircle, unset, unset', ne_eq, not_false_eq_true, false_or, true_and]
        omega

/-- Two ids are each older than the other exactly when they are set and half of the circle
apart. -/
theorem isOlderThan_and_iff :
    s.isOlderThan t = true ∧ t.isOlderThan s = true ↔
      s.value ≠ 0 ∧ t.value ≠ 0 ∧ s.ahead t = halfCircle := by
  have back := ahead_symm s t
  have lt : s.ahead t < 4294967296 := UInt32.toNat_lt _
  rw [isOlderThan_iff, isOlderThan_iff]
  simp only [halfCircle]
  constructor
  · rintro ⟨⟨set', behind⟩, set, behind'⟩
    have far := behind.resolve_left set
    have far' := behind'.resolve_left set'
    exact ⟨set, set', by omega⟩
  · rintro ⟨set, set', half⟩
    exact ⟨⟨set', .inr (by omega)⟩, set, .inr (by omega)⟩

/-- An id is older than one that it is counted on to in less than half of a circle. -/
theorem isOlderThan_next_iterate (one : 1 ≤ k) (half : k ≤ 0x7FFFFFFE) :
    s.isOlderThan (next^[k] s) = true ∧ (next^[k] s).isOlderThan s = false := by
  have set := next_iterate_ne_zero s one
  simp only [isOlderThan_iff, Bool.eq_false_iff, ne_eq, halfCircle]
  by_cases unset : s.value = 0
  · exact ⟨⟨set, .inl unset⟩, fun older => older.1 unset⟩
  · -- The way there is less than half of the circle, past 0 too, so the way back is more.
    have near : s.ahead (next^[k] s) = k ∨ s.ahead (next^[k] s) = k + 1 := by
      rw [ahead_next_iterate unset (by omega)]
      split <;> simp
    have back := ahead_symm s (next^[k] s)
    refine ⟨⟨set, .inr (by omega)⟩, ?_⟩
    rintro ⟨-, zero | far⟩
    · exact set zero
    · omega

/-- An id that is counted on by less than half of a circle is set and newer than it was.  So it is
adopted in place of the old one, and the old one is not adopted in its place.  Any two different ids
that are not half of the circle apart are in order, one way and not the other. -/
theorem ordered_around :
    (∀ (s : SequenceId) (k : Nat), 1 ≤ k → k ≤ 0x7FFFFFFE →
      (next^[k] s).isUnset = false ∧
      s.isOlderThan (next^[k] s) = true ∧ (next^[k] s).isOlderThan s = false ∧
      s.update (next^[k] s) = (true, next^[k] s) ∧
      (next^[k] s).update s = (false, next^[k] s)) ∧
    ∀ s t : SequenceId, s.ahead t ≠ 0x80000000 →
      s = t ∨ Xor (s.isOlderThan t = true) (t.isOlderThan s = true) := by
  refine ⟨fun s k one half => ?_, fun s t apart => ?_⟩
  · obtain ⟨older, newer⟩ := isOlderThan_next_iterate (s := s) one half
    have set : (next^[k] s).isUnset = false := beq_false_of_ne (next_iterate_ne_zero s one)
    exact ⟨set, older, newer, by rw [update, older, if_pos rfl],
      by rw [update, newer, if_neg Bool.false_ne_true]⟩
  · refine (eq_or_ne s t).imp_right fun different => ?_
    have one := isOlderThan_or_iff.mpr different
    have notBoth := fun both => apart (isOlderThan_and_iff.mp both).2.2
    exact (xor_iff_or_and_not_and _ _).mpr ⟨one, notBoth⟩

/-- Three steps from the last id but one pass 0, and lead 4 places ahead. -/
theorem ordered_around_passing :
    next^[3] ⟨4294967294⟩ = ⟨2⟩ ∧ isOlderThan ⟨4294967294⟩ ⟨2⟩ = true ∧
      update ⟨4294967294⟩ ⟨2⟩ = (true, ⟨2⟩) ∧ update ⟨2⟩ ⟨4294967294⟩ = (false, ⟨2⟩) ∧
      ahead ⟨4294967294⟩ ⟨2⟩ = 4 ∧
      Xor (isOlderThan ⟨4294967294⟩ ⟨2⟩ = true) (isOlderThan ⟨2⟩ ⟨4294967294⟩ = true) := by
  have there : next^[3] ⟨4294967294⟩ = ⟨2⟩ := by decide
  obtain ⟨-, older, -, adopted, kept⟩ := ordered_around.1 ⟨4294967294⟩ 3 (by decide) (by decide)
  have apart : ahead ⟨4294967294⟩ ⟨2⟩ = 4 := by decide
  have order := ordered_around.2 ⟨4294967294⟩ ⟨2⟩ (by decide)
  rw [there] at older adopted kept
  exact ⟨there, older, adopted, kept, apart, order.resolve_left (by decide)⟩

end SequenceId

end SpanningMesh
