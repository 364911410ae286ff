import SpanningMesh.Proofs.Reassembly

/-!
# Streams of frames

A sender puts frames one after the other, and `Frame.stream` is the run of bytes that comes of
it.  Its parse gives the bodies back (`parse_stream`), and the beginning of it that has arrived
gives the first of them and leaves the beginning of the others (`parse_prefix`).

Neither looks at where a frame begins.  What comes off any bytes and what is left over of them
are together the bytes again (`stream_parse`), so nothing is lost in between.
-/

namespace SpanningMesh

namespace Frame

variable {body frame : Bytes}

/-- A body behind its length, whether or not the length fits. -/
def whole (body : Bytes) : Bytes := Word.toBytes lengthSize body.length ++ body

/-- A body can be framed exactly if its length can be written. -/
theorem ofBody_eq_ok_iff :
    ofBody body = .ok frame ↔ body.length < 4294967296 ∧ frame = whole body := by
  unfold ofBody
  split
  next fits =>
    simp only [Except.ok.injEq, fits, true_and]
    exact eq_comm
  next big => simp [big]

/-- The frames of some bodies, one after the other. -/
def stream (bodies : List Bytes) : Bytes := bodies.flatMap whole

@[simp] theorem stream_nil : stream [] = [] := rfl

@[simp] theorem stream_cons (body : Bytes) (bodies : List Bytes) :
    stream (body :: bodies) = whole body ++ stream bodies := rfl

@[simp] theorem stream_append (bodies bodies' : List Bytes) :
    stream (bodies ++ bodies') = stream bodies ++ stream bodies' := List.flatMap_append

theorem stream_eq_nil_iff {bodies : List Bytes} : stream bodies = [] ↔ bodies = [] := by
  cases bodies with
  | nil => simp
  | cons body bodies => simp [whole, lengthSize, Word.toBytes]

/-- A body has a frame, and a reassembler with a limit accepts it. -/
structure Fits (limit : Nat) (body : Bytes) : Prop where
  length_lt : body.length < 4294967296
  length_le : body.length ≤ limit

/-- The length in front of a body is read back. -/
theorem ofBytes_length (h : body.length < 4294967296) :
    Word.ofBytes (Word.toBytes lengthSize body.length) = body.length :=
  Word.ofBytes_toBytes_of_lt h

/-- A length in front of a body that it is the length of is the one that was written. -/
theorem whole_eq {size : Bytes} (four : size.length = 4)
    (length : body.length = Word.ofBytes size) : whole body = size ++ body := by
  rw [whole, length, lengthSize, ← four, Word.toBytes_ofBytes]

end Frame

namespace Reassembler

open SpanningMesh.Frame (stream Fits)

variable {limit : Nat} {s t : Bytes} {bodies : List Bytes}

/-- A stream of frames holds their bodies and nothing else. -/
theorem splits_stream (fits : ∀ body ∈ bodies, Fits limit body) :
    Splits limit (stream bodies) ⟨bodies, [], none⟩ := by
  induction bodies with
  | nil => exact .short (Nat.zero_lt_succ 3)
  | cons body bodies ih =>
      obtain ⟨lt, le⟩ := fits body List.mem_cons_self
      have size := Frame.ofBytes_length lt
      have behind := ih fun b hb => fits b (List.mem_cons_of_mem _ hb)
      exact .frame (Word.length_toBytes _ _) (size.symm ▸ le) size.symm behind

/-- The frames of bodies that fit are read back one by one. -/
theorem parse_stream (fits : ∀ body ∈ bodies, Fits limit body) :
    parse limit (stream bodies) = ⟨bodies, [], none⟩ :=
  parse_eq_of_splits (splits_stream fits)

/-- The frames that came off some bytes and what is left over of them are the bytes. -/
theorem stream_parse (limit : Nat) (s : Bytes) :
    stream (parse limit s).bodies ++ (parse limit s).rest = s := by
  obtain ⟨parsed, split⟩ := exists_splits limit s
  rw [parse_eq_of_splits split]
  induction split with
  | short | cut | oversized => rfl
  | frame four _ length _ ih =>
      rw [Frame.stream_cons, List.append_assoc, ih, Frame.whole_eq four length]

/-- The beginning of a stream of frames gives the first bodies, and what is left over of it is
the beginning of the other frames. -/
theorem parse_prefix (fits : ∀ body ∈ bodies, Fits limit body) (h : s ++ t = stream bodies) :
    (parse limit s).oversized = none ∧ ∃ behind, bodies = (parse limit s).bodies ++ behind ∧
      (parse limit s).rest ++ t = stream behind := by
  have all := parse_stream fits
  rw [← h] at all
  refine ⟨?_, (parse limit ((parse limit s).rest ++ t)).bodies, ?_, ?_⟩
  · cases above : (parse limit s).oversized with
    | none => rfl
    | some size =>
        have above := oversized_append above t
        rw [all] at above
        cases above
  · rw [parse_append] at all
    exact (congrArg Parsed.bodies all).symm
  · rw [parse_append] at all
    have bytes := stream_parse limit ((parse limit s).rest ++ t)
    have done : (parse limit ((parse limit s).rest ++ t)).rest = [] := congrArg Parsed.rest all
    rw [done, List.append_nil] at bytes
    exact bytes.symm

end Reassembler

end SpanningMesh
