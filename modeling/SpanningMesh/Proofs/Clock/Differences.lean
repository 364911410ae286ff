import SpanningMesh.Clock

/-!
# Differences between clocks

A difference between two times is seen as the shortest way from one to the other.  As long as
that is a signed word it is the number by which the times are really apart, however often the clocks
ran around (`timeBetween_ofInt`).

The offset and the delay of an exchange halve a sum and a difference of two such ways.  Either may
take one bit more than a word, which halving takes away again (`toInt_half`), so nothing is cut off.

A `Trip` says in plain numbers how an exchange went.  From the four times of the clocks alone, the
requester learns what it wants to know about it (`TimeExchange.offset_delay_exact`).
-/

namespace SpanningMesh

/-! ## One difference -/

section

variable {s t : UInt32} {d : Nat}

/-- A clock that is moved by its difference to another shows the time of the other. -/
theorem add_timeBetween (s t : UInt32) : s + (Int32.ofInt (timeBetween s t)).toUInt32 = t := by
  have back : (Int32.ofInt (timeBetween s t)).toUInt32 = t - s := by
    rw [timeBetween, Int32.ofInt_toInt, UInt32.toUInt32_toInt32]
  rw [back]
  grind

/-- Clocks agree after one was moved by a number exactly if that was their difference. -/
theorem add_eq_iff_timeBetween {k : Int} (low : -2147483648 ≤ k) (high : k < 2147483648) :
    s + (Int32.ofInt k).toUInt32 = t ↔ k = timeBetween s t := by
  constructor
  · rintro rfl
    have moved : s + (Int32.ofInt k).toUInt32 - s = (Int32.ofInt k).toUInt32 := by grind
    rw [timeBetween, moved, Int32.toInt32_toUInt32, Int32.toInt_ofInt_of_le low high]
  · rintro rfl
    exact add_timeBetween s t

/-- Time that passed can be added, as long as the sum does not wrap around. -/
theorem timeBetween_of_lt (short : timeBetween s (t - .ofNat d) + d < 2147483648) :
    timeBetween s t = timeBetween s (t - .ofNat d) + d := by
  have later : t - s = t - .ofNat d - s + .ofNat d := by grind
  have low : -2147483648 ≤ timeBetween s (t - .ofNat d) := Int32.le_toInt _
  have sum : timeBetween s t = (timeBetween s (t - .ofNat d) + d).bmod Int32.size := by
    rw [timeBetween, later, UInt32.toInt32_add, UInt32.toInt32_ofNat', Int32.toInt_add,
      Int32.toInt_ofNat', Int32.size, Int.add_bmod_bmod]
    rfl
  rw [sum]
  exact Int.bmod_eq_of_le (show -2147483648 ≤ _ by omega) short

/-- Time that is still to pass can be taken off, as long as the difference does not wrap around. -/
theorem timeBetween_of_le (short : -2147483648 ≤ timeBetween s (t + .ofNat d) - d) :
    timeBetween s t = timeBetween s (t + .ofNat d) - d := by
  have earlier : t - s = t + .ofNat d - s - .ofNat d := by grind
  have high : timeBetween s (t + .ofNat d) < 2147483648 := Int32.toInt_lt _
  have sum : timeBetween s t = (timeBetween s (t + .ofNat d) - d).bmod Int32.size := by
    rw [timeBetween, earlier, UInt32.toInt32_sub, UInt32.toInt32_ofNat', Int32.toInt_sub,
      Int32.toInt_ofNat', Int32.size, Int.sub_bmod_bmod]
    rfl
  rw [sum]
  exact Int.bmod_eq_of_le short (show _ < 2147483648 by omega)

/-- A word is what a clock shows that has run for its number. -/
theorem ofInt_toNat (s : UInt32) : UInt32.ofInt s.toNat = s := by
  have inWord : (s.toNat : Int) % 2 ^ 32 = s.toNat := Int.emod_eq_of_lt (by omega) (by
    have := s.toNat_lt
    omega)
  rw [UInt32.ofInt, inWord, Int.toNat_natCast, UInt32.ofNat_toNat]

/-- The difference between what two clocks show is the one between the times they have run, in
signed words. -/
theorem timeBetween_ofInt_bmod (m n : Int) :
    timeBetween (.ofInt m) (.ofInt n) = (n - m).bmod Int32.size := by
  have word (k : Int) : (UInt32.ofInt k).toInt32.toInt = k.bmod Int32.size := by
    rw [UInt32.ofInt, UInt32.toInt32_ofNat', Int32.toInt_ofNat', Int.toNat_of_nonneg (by omega)]
    exact Int.emod_bmod k Int32.size
  rw [timeBetween, UInt32.toInt32_sub, Int32.toInt_sub, word, word]
  exact (Int.bmod_sub_bmod ..).trans (Int.sub_bmod_bmod ..)

/-- A difference that is a signed word is seen as it is. -/
theorem timeBetween_ofInt {m n k : Int} (apart : n - m = k) (low : -2147483648 ≤ k)
    (high : k < 2147483648) : timeBetween (.ofInt m) (.ofInt n) = k := by
  rw [timeBetween_ofInt_bmod, apart]
  exact Int.bmod_eq_of_le low high

/-! ## Halves -/

/-- Half of a number of one bit more than a word is a word. -/
theorem half_mem {k : Int} (low : -4294967296 ≤ k) (high : k < 4294967296) :
    -2147483648 ≤ k.tdiv 2 ∧ k.tdiv 2 < 2147483648 := by
  have sign : (2 : Int).sign = 1 := rfl
  rw [Int.tdiv_eq_ediv]
  split <;> omega

/-- To take such a half as a word cuts nothing off. -/
theorem toInt_half {k : Int} (low : -4294967296 ≤ k) (high : k < 4294967296) :
    (Int32.ofInt (k.tdiv 2)).toInt = k.tdiv 2 :=
  Int32.toInt_ofInt_of_le (half_mem low high).1 (half_mem low high).2

/-- A difference of clocks is a signed number of 32 bits. -/
theorem timeBetween_mem (s t : UInt32) :
    -2147483648 ≤ timeBetween s t ∧ timeBetween s t < 2147483648 :=
  ⟨Int32.le_toInt _, Int32.toInt_lt _⟩

/-- The mean of two differences is one that there may be. -/
theorem timeBetween_mean (s t s' t' : UInt32) :
    -2147483648 ≤ (timeBetween s t + timeBetween s' t').tdiv 2 ∧
      (timeBetween s t + timeBetween s' t').tdiv 2 < 2147483648 := by
  have first := timeBetween_mem s t
  have second := timeBetween_mem s' t'
  exact half_mem (by omega) (by omega)

end

namespace TimeExchange

/-- The offset is half of what the two ways make together. -/
theorem toInt_offset (x : TimeExchange) (arrival : UInt32) :
    (x.offset arrival).toInt = (timeBetween x.t0 x.t1 + timeBetween arrival x.t2).tdiv 2 := by
  have there := timeBetween_mem x.t0 x.t1
  have back := timeBetween_mem arrival x.t2
  exact toInt_half (by omega) (by omega)

/-- The delay is half of what the whole exchange took longer than the work of the responder. -/
theorem toInt_delay (x : TimeExchange) (arrival : UInt32) :
    (x.delay arrival).toInt = (timeBetween x.t0 arrival - timeBetween x.t1 x.t2).tdiv 2 := by
  have whole := timeBetween_mem x.t0 arrival
  have work := timeBetween_mem x.t1 x.t2
  exact toInt_half (by omega) (by omega)

/-! ## The four times of an exchange -/

/-- How an exchange went: when it began by the clock of the requester, by how much the clock of the
responder was ahead of that, and how long each part of it took. -/
structure Trip where
  start : UInt32
  ahead : Int
  /-- How long the request was under way. -/
  out : Nat
  /-- How long the responder took to answer. -/
  work : Nat
  /-- How long the reply was under way. -/
  back : Nat
deriving Repr, DecidableEq

namespace Trip

variable (trip : Trip)

/-- When the request came, by the clock of the responder had it not run around. -/
def received : Int := trip.start.toNat + trip.ahead + trip.out

/-- When the reply left, by the same clock. -/
def answered : Int := trip.received + trip.work

/-- When the reply came, by the clock of the requester had it not run around. -/
def home : Int := trip.start.toNat + trip.out + trip.work + trip.back

/-- What the reply says of the times. -/
def exchange : TimeExchange :=
  (request trip.start).reply (.ofInt trip.received) (.ofInt trip.answered)

/-- The time of the requester when the reply comes. -/
def arrival : UInt32 := .ofInt trip.home

/-- No difference between two of the times is too large for a signed word. -/
structure Visible : Prop where
  /-- What the request sees of the difference of the clocks. -/
  there : -2147483648 ≤ trip.ahead + trip.out ∧ trip.ahead + trip.out < 2147483648
  /-- What the reply sees of it. -/
  back : -2147483648 ≤ trip.ahead - trip.back ∧ trip.ahead - trip.back < 2147483648
  whole : trip.out + trip.work + trip.back < 2147483648

variable {trip}

/-- The requester sees the difference of the clocks with each way added on the side where it
counts, and how long the whole exchange and the work of the responder took. -/
theorem Visible.seen (h : trip.Visible) :
    timeBetween trip.exchange.t0 trip.exchange.t1 = trip.ahead + trip.out ∧
      timeBetween trip.arrival trip.exchange.t2 = trip.ahead - trip.back ∧
      timeBetween trip.exchange.t0 trip.arrival = trip.out + trip.work + trip.back ∧
      timeBetween trip.exchange.t1 trip.exchange.t2 = trip.work := by
  obtain ⟨there, back, whole⟩ := h
  have began : trip.exchange.t0 = .ofInt trip.start.toNat := (ofInt_toNat _).symm
  rw [began]
  refine ⟨timeBetween_ofInt ?_ there.1 there.2, timeBetween_ofInt ?_ back.1 back.2,
    timeBetween_ofInt ?_ (by omega) (by omega), timeBetween_ofInt ?_ (by omega) (by omega)⟩
  · show trip.start.toNat + trip.ahead + trip.out - trip.start.toNat = _
    omega
  · show trip.start.toNat + trip.ahead + trip.out + trip.work -
      (trip.start.toNat + trip.out + trip.work + trip.back) = _
    omega
  · show (trip.start.toNat : Int) + trip.out + trip.work + trip.back - trip.start.toNat = _
    omega
  · show trip.received + trip.work - trip.received = _
    omega

end Trip

/-- Whatever the four times of an exchange are, its offset and its delay are the halves they are
meant to be, for nothing is cut off.  If the differences between the times are words, then the offset
is by how much the clock of the responder was ahead, but for half of what one way took longer than
the other, and the delay is the mean of the two ways, however the clocks stood and however long the
responder took. -/
theorem offset_delay_exact :
    (∀ (x : TimeExchange) (arrival : UInt32),
      (x.offset arrival).toInt = (timeBetween x.t0 x.t1 + timeBetween arrival x.t2).tdiv 2 ∧
      (x.delay arrival).toInt = (timeBetween x.t0 arrival - timeBetween x.t1 x.t2).tdiv 2) ∧
    ∀ trip : Trip, trip.Visible →
      (trip.exchange.offset trip.arrival).toInt =
        (2 * trip.ahead + trip.out - trip.back).tdiv 2 ∧
      (trip.out = trip.back → (trip.exchange.offset trip.arrival).toInt = trip.ahead) ∧
      (trip.exchange.delay trip.arrival).toInt = ((trip.out + trip.back) / 2 : Nat) := by
  refine ⟨fun x arrival => ⟨toInt_offset x arrival, toInt_delay x arrival⟩, fun trip visible => ?_⟩
  obtain ⟨there, back, whole, work⟩ := visible.seen
  have offset : (trip.exchange.offset trip.arrival).toInt =
      (2 * trip.ahead + trip.out - trip.back).tdiv 2 := by
    rw [toInt_offset, there, back]
    congr 1
    omega
  have sum : (trip.out : Int) + trip.work + trip.back - trip.work =
      ((trip.out + trip.back : Nat) : Int) := by omega
  refine ⟨offset, fun even => ?_, ?_⟩
  · have twice : 2 * trip.ahead + (trip.out : Int) - trip.back = trip.ahead * 2 := by omega
    rw [offset, twice]
    exact Int.mul_tdiv_cancel _ (by decide)
  · rw [toInt_delay, whole, work, sum]
    exact Int.ofNat_tdiv (trip.out + trip.back) 2

/-- The clock of the requester runs around while the reply is under way, and that of the responder is
nearly half a round behind. -/
def Trip.around : Trip := ⟨4294967280, -2147483000, 30, 4, 21⟩

/-- One way took 9 longer than the other.  Half of that is too much in the offset, which is rounded
toward zero, and the delay is rounded down. -/
theorem offset_delay_exact_around :
    Trip.around.Visible ∧ (Trip.around.exchange.offset Trip.around.arrival).toInt = -2147482995 ∧
      (Trip.around.exchange.delay Trip.around.arrival).toInt = 25 := by
  have visible : Trip.around.Visible := ⟨by decide, by decide, by decide⟩
  obtain ⟨offset, -, delay⟩ := offset_delay_exact.2 Trip.around visible
  exact ⟨visible, offset, delay⟩

end TimeExchange

end SpanningMesh
