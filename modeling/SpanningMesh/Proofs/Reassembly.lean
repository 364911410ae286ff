import SpanningMesh.Frame

/-!
# Frames out of chunks

`Splits` says what a stream of bytes holds, without a word on how it arrives: frame after
frame, up to one that is not whole or whose length is above the limit.  Each stream splits in
one way only (`splits_iff`).

A reassembler that is fed a stream in chunks gives back the frames of the stream, wherever it
was cut (`feed_eq_splits`).  What carries over from one chunk to the next is that the bytes
that wait hold no whole frame (`Aligned`), or begin with a length above the limit (`Stuck`), and
that the frames of two runs of bytes are those of the first and then those of what the first
left over together with the second (`parse_append`).
-/

namespace SpanningMesh

namespace Reassembler

/-! ## What a stream holds -/

/-- What a stream holds: a length of four bytes and so many bytes of a body, over and over,
until the bytes end within a frame or a length is above the limit. -/
inductive Splits (limit : Nat) : Bytes → Parsed → Prop where
  /-- The bytes end within a length. -/
  | short {s : Bytes} : s.length < 4 → Splits limit s ⟨[], s, none⟩
  /-- The bytes end within a body. -/
  | cut {size body : Bytes} :
      size.length = 4 → Word.ofBytes size ≤ limit → body.length < Word.ofBytes size →
      Splits limit (size ++ body) ⟨[], size ++ body, none⟩
  /-- A length is above the limit. -/
  | oversized {size rest : Bytes} :
      size.length = 4 → limit < Word.ofBytes size →
      Splits limit (size ++ rest) ⟨[], size ++ rest, some (Word.ofBytes size)⟩
  /-- A whole frame stands in front. -/
  | frame {size body rest : Bytes} {behind : Parsed} :
      size.length = 4 → Word.ofBytes size ≤ limit → body.length = Word.ofBytes size →
      Splits limit rest behind →
      Splits limit (size ++ body ++ rest) { behind with bodies := body :: behind.bodies }

variable {limit : Nat} {s : Bytes} {parsed : Parsed}

/-- What stands behind a length decides what is at the front of a buffer. -/
theorem front_append {size rest : Bytes} (four : size.length = 4) :
    front limit (size ++ rest) =
      if limit < Word.ofBytes size then .tooLarge (Word.ofBytes size)
      else if Word.ofBytes size ≤ rest.length then
        .frame (rest.take (Word.ofBytes size)) (rest.drop (Word.ofBytes size))
      else .incomplete := by
  have long : holds Frame.lengthSize (size ++ rest) = true :=
    holds_iff.mpr (by simp [Frame.lengthSize, four])
  have front : (size ++ rest).take Frame.lengthSize = size := List.take_left' four
  have behind : (size ++ rest).drop Frame.lengthSize = rest := List.drop_left' four
  simp only [Reassembler.front, long, if_true, front, behind, holds_iff]

/-- Bytes without a whole frame are kept. -/
theorem parse_of_incomplete (h : front limit s = .incomplete) : parse limit s = ⟨[], s, none⟩ := by
  rw [parse]
  split <;> simp_all

/-- A frame that is too large ends the parse. -/
theorem parse_of_tooLarge {size : Nat} (h : front limit s = .tooLarge size) :
    parse limit s = ⟨[], s, some size⟩ := by
  rw [parse]
  split <;> simp_all

/-- Behind a frame the parse goes on. -/
theorem parse_of_frame {body rest : Bytes} (h : front limit s = .frame body rest) :
    parse limit s = { parse limit rest with bodies := body :: (parse limit rest).bodies } := by
  rw [parse]
  split <;> simp_all

/-- The parse of a stream is what it splits into. -/
theorem parse_eq_of_splits (h : Splits limit s parsed) : parse limit s = parsed := by
  induction h with
  | short few =>
      refine parse_of_incomplete ?_
      have : ¬ holds Frame.lengthSize _ = true := mt holds_iff.mp (Nat.not_le_of_lt few)
      simp [front, this]
  | cut four fits part =>
      refine parse_of_incomplete ?_
      rw [front_append four, if_neg (Nat.not_lt_of_le fits), if_neg (Nat.not_le_of_lt part)]
  | oversized four above =>
      refine parse_of_tooLarge ?_
      rw [front_append four, if_pos above]
  | @frame size body rest behind four fits whole _ ih =>
      have first : front limit (size ++ body ++ rest) = .frame body rest := by
        rw [List.append_assoc, front_append four, if_neg (Nat.not_lt_of_le fits), ← whole,
          if_pos (by simp), List.take_left, List.drop_left]
      rw [parse_of_frame first, ih]

/-- Every stream splits. -/
theorem exists_splits (limit : Nat) (s : Bytes) : ∃ parsed, Splits limit s parsed := by
  induction hn : s.length using Nat.strongRecOn generalizing s with
  | ind n ih =>
      by_cases few : s.length < 4
      · exact ⟨_, .short few⟩
      · have four : (s.take 4).length = 4 := List.length_take_of_le (Nat.le_of_not_lt few)
        rw [← List.take_append_drop 4 s]
        by_cases above : limit < Word.ofBytes (s.take 4)
        · exact ⟨_, .oversized four above⟩
        · have fits := Nat.le_of_not_lt above
          by_cases whole : Word.ofBytes (s.take 4) ≤ (s.drop 4).length
          · rw [← List.take_append_drop (Word.ofBytes (s.take 4)) (s.drop 4), ← List.append_assoc]
            obtain ⟨behind, split⟩ := ih _ (by simp; omega)
              ((s.drop 4).drop (Word.ofBytes (s.take 4))) rfl
            exact ⟨_, .frame four fits (List.length_take_of_le whole) split⟩
          · exact ⟨_, .cut four fits (Nat.lt_of_not_le whole)⟩

/-- A stream splits in one way, which is its parse. -/
theorem splits_iff : Splits limit s parsed ↔ parse limit s = parsed := by
  refine ⟨parse_eq_of_splits, ?_⟩
  rintro rfl
  obtain ⟨parsed, split⟩ := exists_splits limit s
  rwa [parse_eq_of_splits split]

/-! ## Streams in two parts -/

/-- Put bodies in front of those that came off a buffer. -/
def Parsed.after (bodies : List Bytes) (parsed : Parsed) : Parsed :=
  { parsed with bodies := bodies ++ parsed.bodies }

/-- The frames of two runs of bytes are those of the first, and then those of what it left
over and the second. -/
theorem parse_append (limit : Nat) (s t : Bytes) :
    parse limit (s ++ t) =
      (parse limit ((parse limit s).rest ++ t)).after (parse limit s).bodies := by
  obtain ⟨parsed, split⟩ := exists_splits limit s
  rw [parse_eq_of_splits split]
  induction split with
  | short | cut | oversized => rfl
  | @frame size body rest behind four fits whole _ ih =>
      have second : Splits limit (rest ++ t) (parse limit (rest ++ t)) := splits_iff.mpr rfl
      have split := Splits.frame four fits whole second
      rw [← List.append_assoc] at split
      rw [parse_eq_of_splits split, ih]
      rfl

/-- What is left over of a stream holds no whole frame: its parse is itself again. -/
theorem parse_rest (limit : Nat) (s : Bytes) :
    parse limit (parse limit s).rest = ⟨[], (parse limit s).rest, (parse limit s).oversized⟩ := by
  obtain ⟨parsed, split⟩ := exists_splits limit s
  rw [parse_eq_of_splits split]
  induction split with
  | short few => exact parse_eq_of_splits (.short few)
  | cut four fits part => exact parse_eq_of_splits (.cut four fits part)
  | oversized four above => exact parse_eq_of_splits (.oversized four above)
  | frame _ _ _ _ ih => exact ih

/-- Behind a length above the limit nothing is taken off a stream. -/
theorem parse_append_of_oversized {size : Nat} (h : parse limit s = ⟨[], s, some size⟩)
    (t : Bytes) : parse limit (s ++ t) = ⟨[], s ++ t, some size⟩ := by
  cases splits_iff.mpr h with
  | oversized four above =>
      rw [List.append_assoc]
      exact parse_eq_of_splits (.oversized four above)

/-- What waits for the rest of its frame is shorter than a length and the largest body. -/
theorem length_rest_le (h : (parse limit s).oversized = none) :
    (parse limit s).rest.length ≤ limit + 3 := by
  obtain ⟨parsed, split⟩ := exists_splits limit s
  rw [parse_eq_of_splits split] at h ⊢
  induction split with
  | short few => exact Nat.le_trans (Nat.le_of_lt_succ few) (Nat.le_add_left 3 limit)
  | cut four fits part =>
      rw [List.length_append]
      omega
  | oversized => cases h
  | frame _ _ _ _ ih => exact ih h

/-! ## Chunk by chunk -/

/-- What each chunk of a stream completes, or why it was refused, one chunk after the other. -/
def feed (r : Reassembler) : List Bytes → List (Except CodecError (List Bytes)) × Reassembler
  | [] => ([], r)
  | chunk :: chunks =>
      let (first, r) := r.push chunk
      let (rest, r) := r.feed chunks
      (first :: rest, r)

/-- The bytes that wait are the beginning of a frame that is not whole. -/
def Aligned (r : Reassembler) : Prop :=
  parse r.limit r.buffer.toList = ⟨[], r.buffer.toList, none⟩

/-- The bytes that wait begin with a length above the limit. -/
def Stuck (size : Nat) (r : Reassembler) : Prop :=
  parse r.limit r.buffer.toList = ⟨[], r.buffer.toList, some size⟩

variable {r : Reassembler} {chunk : Bytes} {chunks : List Bytes}

/-- A chunk completes the frames that a parse of all bytes shows. -/
theorem push_of_fits (h : (parse r.limit (r.buffer.toList ++ chunk)).oversized = none) :
    ∃ r', r.push chunk = (.ok (parse r.limit (r.buffer.toList ++ chunk)).bodies, r') ∧
      r'.Aligned ∧ r'.limit = r.limit ∧
      r'.buffer.toList = (parse r.limit (r.buffer.toList ++ chunk)).rest := by
  have left := parse_rest r.limit (r.buffer.toList ++ chunk)
  rw [push_eq]
  simp only [h] at left ⊢
  exact ⟨_, rfl, left, rfl, rfl⟩

/-- A frame that is too large leaves the reassembler stuck. -/
theorem push_of_oversized {size : Nat}
    (h : (parse r.limit (r.buffer.toList ++ chunk)).oversized = some size) :
    ∃ r', r.push chunk = (.error (.tooLarge size), r') ∧ r'.Stuck size := by
  have left := parse_rest r.limit (r.buffer.toList ++ chunk)
  rw [push_eq]
  simp only [h] at left ⊢
  exact ⟨_, rfl, left⟩

/-- A length above the limit in the first part of a stream is the one that the whole stream
has. -/
theorem oversized_append {size : Nat} (h : (parse limit s).oversized = some size) (t : Bytes) :
    (parse limit (s ++ t)).oversized = some size := by
  have left := parse_rest limit s
  rw [h] at left
  rw [parse_append, parse_append_of_oversized left]
  rfl

/-- A reassembler that is stuck refuses every chunk with the same length. -/
theorem Stuck.feed {size : Nat} (h : r.Stuck size) (chunks : List Bytes) :
    (r.feed chunks).1 = chunks.map fun _ => .error (.tooLarge size) := by
  induction chunks generalizing r with
  | nil => rfl
  | cons chunk chunks ih =>
      have all := parse_append_of_oversized h chunk
      obtain ⟨r', refused, stuck⟩ := push_of_oversized (congrArg Parsed.oversized all)
      simp only [Reassembler.feed, refused, ih stuck, List.map_cons]

/-- If no length of a stream is above the limit, its frames come off in order whatever its
chunks are, and what is left over of it waits. -/
theorem Aligned.feed (h : r.Aligned)
    (fits : (parse r.limit (r.buffer.toList ++ chunks.flatten)).oversized = none) :
    ∃ (runs : List (List Bytes)) (r' : Reassembler), r.feed chunks = (runs.map .ok, r') ∧
      runs.flatten = (parse r.limit (r.buffer.toList ++ chunks.flatten)).bodies ∧
      r'.buffer.toList = (parse r.limit (r.buffer.toList ++ chunks.flatten)).rest := by
  induction chunks generalizing r with
  | nil =>
      rw [List.flatten_nil, List.append_nil, h]
      exact ⟨[], r, rfl, rfl, rfl⟩
  | cons chunk chunks ih =>
      rw [List.flatten_cons, ← List.append_assoc] at fits ⊢
      cases first : (parse r.limit (r.buffer.toList ++ chunk)).oversized with
      | some size =>
          rw [oversized_append first] at fits
          cases fits
      | none =>
          obtain ⟨r', pushed, aligned, limit, buffer⟩ := push_of_fits first
          have behind := ih aligned
          rw [limit, buffer] at behind
          rw [parse_append] at fits ⊢
          obtain ⟨runs, r'', fed, bodies, rest⟩ := behind fits
          refine ⟨(parse r.limit (r.buffer.toList ++ chunk)).bodies :: runs, r'', ?_, ?_, rest⟩
          · simp only [Reassembler.feed, pushed, fed, List.map_cons]
          · rw [List.flatten_cons, bodies]
            rfl

/-- If a length of a stream is above the limit, some chunk is refused with it.  The frames that
came off before are the first of the stream, and the reassembler is stuck. -/
theorem Aligned.refuses {size : Nat} (h : r.Aligned)
    (above : (parse r.limit (r.buffer.toList ++ chunks.flatten)).oversized = some size) :
    ∃ (before : List Bytes) (chunk : Bytes) (after : List Bytes) (runs : List (List Bytes))
      (r' r'' : Reassembler), chunks = before ++ chunk :: after ∧
      r.feed before = (runs.map .ok, r') ∧
      runs.flatten <+: (parse r.limit (r.buffer.toList ++ chunks.flatten)).bodies ∧
      r'.push chunk = (.error (.tooLarge size), r'') ∧ r''.Stuck size := by
  induction chunks generalizing r with
  | nil =>
      rw [List.flatten_nil, List.append_nil, h] at above
      cases above
  | cons chunk chunks ih =>
      rw [List.flatten_cons, ← List.append_assoc] at above ⊢
      cases first : (parse r.limit (r.buffer.toList ++ chunk)).oversized with
      | some size' =>
          obtain rfl : size' = size :=
            Option.some.inj ((oversized_append first _).symm.trans above)
          obtain ⟨r', refused, stuck⟩ := push_of_oversized first
          exact ⟨[], chunk, chunks, [], r, r', rfl, rfl, List.nil_prefix, refused, stuck⟩
      | none =>
          obtain ⟨r', pushed, aligned, limit, buffer⟩ := push_of_fits first
          have behind := ih aligned
          rw [limit, buffer] at behind
          rw [parse_append] at above ⊢
          obtain ⟨before, last, after, runs, r₁, r₂, cut, fed, bodies, refused, stuck⟩ :=
            behind above
          refine ⟨chunk :: before, last, after,
            (parse r.limit (r.buffer.toList ++ chunk)).bodies :: runs, r₁, r₂,
            congrArg (chunk :: ·) cut, ?_, ?_, refused, stuck⟩
          · simp only [Reassembler.feed, pushed, fed, List.map_cons]
          · exact (List.prefix_append_right_inj _).mpr bodies

/-- The limit of a reassembler stays. -/
theorem limit_push (r : Reassembler) (chunk : Bytes) : (r.push chunk).2.limit = r.limit := by
  rw [push_eq]

theorem limit_feed (r : Reassembler) (chunks : List Bytes) : (r.feed chunks).2.limit = r.limit := by
  induction chunks generalizing r with
  | nil => rfl
  | cons chunk chunks ih => exact (ih _).trans (limit_push r chunk)

/-- After a chunk that was taken, less than a length and the largest body waits. -/
theorem buffered_le {bodies : List Bytes} (h : (r.push chunk).1 = .ok bodies) :
    (r.push chunk).2.buffered ≤ r.limit + 3 := by
  rw [push_eq] at h ⊢
  cases fits : (parse r.limit (r.buffer.toList ++ chunk)).oversized with
  | some size => simp [fits] at h
  | none => simpa [buffered] using length_rest_le fits

/-- A reassembler to which nothing has come yet. -/
def fresh (limit : Nat) : Reassembler := { limit }

theorem aligned_fresh (limit : Nat) : (fresh limit).Aligned :=
  parse_eq_of_splits (.short (Nat.zero_lt_succ 3))

/-- A fresh reassembler gives back what the stream it is fed holds, whatever its chunks are.

The stream splits in one way.  If no length in it is above the limit, every chunk is taken, the
frames come off in order and what is left over waits.  Otherwise some chunk is refused with the
length that is; the frames that came off before are the first of the stream, and every chunk
after that is refused in the same way.  After a chunk that was taken no more than the largest
body and three bytes wait. -/
theorem feed_eq_splits (limit : Nat) (chunks : List Bytes) :
    ∃ parsed, (∀ other, Splits limit chunks.flatten other ↔ other = parsed) ∧
      (parsed.oversized = none →
        ∃ (runs : List (List Bytes)) (r : Reassembler),
          (fresh limit).feed chunks = (runs.map .ok, r) ∧ runs.flatten = parsed.bodies ∧
            r.buffered = parsed.rest.length) ∧
      (∀ size, parsed.oversized = some size →
        ∃ (before : List Bytes) (chunk : Bytes) (after : List Bytes) (runs : List (List Bytes))
          (r r' : Reassembler), chunks = before ++ chunk :: after ∧
            (fresh limit).feed before = (runs.map .ok, r) ∧ runs.flatten <+: parsed.bodies ∧
            r.push chunk = (.error (.tooLarge size), r') ∧
            ∀ more, (r'.feed more).1 = more.map fun _ => .error (.tooLarge size)) ∧
      ∀ before chunk after bodies r, chunks = before ++ chunk :: after →
        ((fresh limit).feed before).2.push chunk = (.ok bodies, r) → r.buffered ≤ limit + 3 := by
  refine ⟨parse limit chunks.flatten, fun other => ?_, fun fits => ?_, fun size above => ?_, ?_⟩
  · rw [splits_iff, eq_comm]
  · obtain ⟨runs, r, fed, bodies, rest⟩ := (aligned_fresh limit).feed fits
    exact ⟨runs, r, fed, bodies, congrArg List.length rest⟩
  · obtain ⟨before, chunk, after, runs, r, r', cut, fed, bodies, refused, stuck⟩ :=
      (aligned_fresh limit).refuses above
    exact ⟨before, chunk, after, runs, r, r', cut, fed, bodies, refused, stuck.feed⟩
  · intro before chunk _ bodies r _ pushed
    have waits := buffered_le (congrArg Prod.fst pushed)
    rw [pushed, limit_feed] at waits
    exact waits

/-- Two cuts within lengths, and a frame in front of a length above the limit. -/
theorem feed_eq_splits_overrun :
    ∃ (before : List Bytes) (chunk : Bytes) (after : List Bytes) (runs : List (List Bytes))
      (r r' : Reassembler),
        [[2, 0], [0, 0, 7, 8, 5], [0, 0, 0, 9], [1]] = before ++ chunk :: after ∧
        (fresh 4).feed before = (runs.map .ok, r) ∧ runs.flatten <+: [[7, 8]] ∧
        r.push chunk = (.error (.tooLarge 5), r') ∧
        ∀ more, (r'.feed more).1 = more.map fun _ => .error (.tooLarge 5) := by
  obtain ⟨parsed, only, -, refuses, -⟩ :=
    feed_eq_splits 4 [[2, 0], [0, 0, 7, 8, 5], [0, 0, 0, 9], [1]]
  have split : Splits 4 ([2, 0, 0, 0] ++ [7, 8] ++ ([5, 0, 0, 0] ++ [9, 1]))
      ⟨[[7, 8]], [5, 0, 0, 0, 9, 1], some 5⟩ :=
    .frame rfl (by decide) rfl (.oversized rfl (by decide))
  obtain rfl := (only _).mp split
  exact refuses 5 rfl

end Reassembler

end SpanningMesh
