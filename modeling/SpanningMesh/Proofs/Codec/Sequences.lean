import SpanningMesh.Proofs.Packet.RoundTrip

/-!
# Values one after another in a buffer

A buffer may be filled with values of different types, each placed where the one before it ended
(`Item.placeAll`), and read back in the same way by the types alone (`Item.fetchAll`).

To place a value at an offset is to bring the buffer to that length, by cutting it off or by adding
zeros (`Field.padTo`), and to write the value behind it.  So after the first value every other one
is written at the end of the buffer.  A reader takes exactly the bytes that were written for a value
(`FaithfulField`), wherever they stand and whatever comes behind them.  What was placed is therefore
fetched again with the same offsets (`Item.fetchAll_placeAll`), value by value.
-/

namespace SpanningMesh

open Read (Takes)

/-! ## Faithful fields -/

/-- A field whose reader takes exactly what was written of a value.  It may take other bytes for
the value as well. -/
class FaithfulField (α : Type) [Field α] : Prop where
  takes : ∀ {v : α} {bs}, Field.encode v = ⟨bs, none⟩ → Takes Field.decode bs v

instance {α : Type} [Field α] [CanonicalField α] : FaithfulField α where
  takes written := CanonicalField.recognises.takes written

/-- A truth value is written as one of the bytes that stand for it. -/
instance : FaithfulField Bool where
  takes {v bs} written := by
    refine Read.Recognises.bool.takes ⟨UInt8.ofNat v.toNat, ?_, by cases v <;> rfl⟩
    obtain rfl := Encoding.word_eq_iff.mp written
    cases v <;> rfl

/-- So are the flags of a tree. -/
instance : FaithfulField Tree where
  takes written := (Tree.recognises maxTreeDepth).takes (Tree.spelled_of_written written)

namespace Field

variable {α : Type} [Field α] {v : α} {bs : Bytes}

/-- A buffer cut off or filled up with zeros, so that it ends at an offset. -/
def padTo (buf : Bytes) (offset : Nat) : Bytes :=
  buf.take offset ++ List.replicate (offset - buf.length) 0

@[simp] theorem length_padTo (buf : Bytes) (offset : Nat) : (padTo buf offset).length = offset := by
  rw [padTo, List.length_append, List.length_take, List.length_replicate]
  omega

/-- A buffer that ends at an offset stays as it is. -/
@[simp] theorem padTo_length (buf : Bytes) : padTo buf buf.length = buf := by simp [padTo]

/-- A value is placed behind whatever stands before its offset. -/
theorem place_eq_append (v : α) (buf : Bytes) (offset : Nat) :
    place v buf offset = .raw (padTo buf offset) ++ encode v := rfl

/-- A value is placed behind what is left of the buffer. -/
theorem place_eq (written : encode v = ⟨bs, none⟩) (buf : Bytes) (offset : Nat) :
    place v buf offset = ⟨padTo buf offset ++ bs, none⟩ := by
  rw [place_eq_append, written]
  rfl

/-- Placing needs nothing of a buffer but what is left of it. -/
theorem place_padTo (v : α) (buf : Bytes) (offset : Nat) :
    place v (padTo buf offset) (padTo buf offset).length = place v buf offset := by
  rw [place_eq_append, place_eq_append, padTo_length]

/-- A value is fetched where it was written, whatever stands before and behind it. -/
theorem fetch_eq [FaithfulField α] (written : encode v = ⟨bs, none⟩) (front rest : Bytes) :
    fetch α (front ++ bs ++ rest) front.length = .ok (v, (front ++ bs).length) := by
  have cursor : Cursor.atOffset (front ++ bs ++ rest) front.length =
      .ok ⟨front.length, bs ++ rest⟩ := by
    have inside : holds front.length (front ++ bs ++ rest) = true := holds_iff.mpr (by simp)
    rw [Cursor.atOffset, if_pos inside, List.append_assoc, List.drop_left]
  have read := (FaithfulField.takes written).reads front.length rest
  simp only [fetch, cursor, bind, Except.bind, read, List.length_append]
  rfl

end Field

/-! ## Values of different types -/

/-- The types that are placed in buffers. -/
inductive Shape where
  | byte
  | word
  | signed
  | long
  | truth
  | text
  | tree
  | header
deriving Repr, DecidableEq

namespace Shape

/-- The type of the values of a shape. -/
def Value : Shape → Type
  | byte => UInt8
  | word => UInt16
  | signed => Int16
  | long => UInt32
  | truth => Bool
  | text => String
  | tree => Tree
  | header => Header

instance : (s : Shape) → Field s.Value
  | byte => inferInstanceAs (Field UInt8)
  | word => inferInstanceAs (Field UInt16)
  | signed => inferInstanceAs (Field Int16)
  | long => inferInstanceAs (Field UInt32)
  | truth => inferInstanceAs (Field Bool)
  | text => inferInstanceAs (Field String)
  | tree => inferInstanceAs (Field Tree)
  | header => inferInstanceAs (Field Header)

instance : (s : Shape) → FaithfulField s.Value
  | byte => inferInstanceAs (FaithfulField UInt8)
  | word => inferInstanceAs (FaithfulField UInt16)
  | signed => inferInstanceAs (FaithfulField Int16)
  | long => inferInstanceAs (FaithfulField UInt32)
  | truth => inferInstanceAs (FaithfulField Bool)
  | text => inferInstanceAs (FaithfulField String)
  | tree => inferInstanceAs (FaithfulField Tree)
  | header => inferInstanceAs (FaithfulField Header)

end Shape

/-- A value with its type. -/
structure Item where
  shape : Shape
  value : shape.Value

namespace Item

/-- Place values one after another, each where the one before it ended.  The offsets are those just
after the values. -/
def placeAll : List Item → Bytes → Nat → Except CodecError (Bytes × List Nat)
  | [], buf, _ => .ok (buf, [])
  | i :: items, buf, offset => do
      let buf ← (Field.place i.value buf offset).result
      let (buf', ends) ← placeAll items buf buf.length
      return (buf', buf.length :: ends)

/-- Fetch values of some types one after another, each where the one before it ended. -/
def fetchAll : List Shape → Bytes → Nat → Except CodecError (List Item × List Nat)
  | [], _, _ => .ok ([], [])
  | s :: shapes, buf, offset => do
      let (v, next) ← Field.fetch s.Value buf offset
      let (items, ends) ← fetchAll shapes buf next
      return (⟨s, v⟩ :: items, next :: ends)

/-- The first value brings the buffer to its offset, and nothing else does. -/
theorem placeAll_padTo (i : Item) (items : List Item) (buf : Bytes) (offset : Nat) :
    placeAll (i :: items) (Field.padTo buf offset) (Field.padTo buf offset).length =
      placeAll (i :: items) buf offset := by
  rw [placeAll, placeAll, Field.place_padTo]

/-- Values that are placed at the end of a buffer are fetched there, whatever comes behind them. -/
theorem fetchAll_placeAll_length (items : List Item)
    (complete : ∀ i ∈ items, (Field.encode i.value).fault = none) (front : Bytes) :
    ∃ bs ends, placeAll items front front.length = .ok (front ++ bs, ends) ∧
      ends.length = items.length ∧ ends.getLast?.getD front.length = (front ++ bs).length ∧
      ∀ rest,
        fetchAll (items.map shape) (front ++ bs ++ rest) front.length = .ok (items, ends) := by
  induction items generalizing front with
  | nil => exact ⟨[], [], by rw [placeAll, List.append_nil], rfl, by simp, fun _ => rfl⟩
  | cons i items ih =>
      obtain ⟨first, others⟩ := List.forall_mem_cons.mp complete
      let as := (Field.encode i.value).bytes
      have written : Field.encode i.value = ⟨as, none⟩ := by rw [← first]
      -- The others are placed at the end of a buffer that ends with the first.
      obtain ⟨bs, ends, placed, count, last, fetched⟩ := ih others (front ++ as)
      refine ⟨as ++ bs, (front ++ as).length :: ends, ?_, congrArg Nat.succ count, ?_,
        fun rest => ?_⟩
      · rw [placeAll, Field.place_eq written, Field.padTo_length]
        show (placeAll items (front ++ as) (front ++ as).length >>= _) = _
        rw [placed, List.append_assoc]
        rfl
      · rw [List.getLast?_cons, Option.getD_some, last, List.append_assoc]
      · have here := Field.fetch_eq written front (bs ++ rest)
        have behind := fetched rest
        simp only [List.append_assoc] at here behind ⊢
        rw [List.map_cons, fetchAll, here]
        show (fetchAll (items.map shape) _ _ >>= _) = _
        rw [behind]
        rfl

/-- Values that can be written are placed one after another from any offset of any buffer.  The
buffer keeps what it held up to that offset, filled up with zeros, and ends where the last value
does.  By their types alone the values are fetched from there, with the offsets at which they end,
also if more bytes follow. -/
theorem fetchAll_placeAll (items : List Item)
    (complete : ∀ i ∈ items, (Field.encode i.value).fault = none) (buf : Bytes) (offset : Nat) :
    ∃ buf' ends, placeAll items buf offset = .ok (buf', ends) ∧
      (items ≠ [] →
        buf'.take offset = buf.take offset ++ List.replicate (offset - buf.length) 0 ∧
        ends.getLast? = some buf'.length) ∧
      ∀ rest, fetchAll (items.map shape) (buf' ++ rest) offset = .ok (items, ends) := by
  cases items with
  | nil => exact ⟨buf, [], rfl, fun none => absurd rfl none, fun _ => rfl⟩
  | cons i items =>
      obtain ⟨bs, ends, placed, count, last, fetched⟩ :=
        fetchAll_placeAll_length (i :: items) complete (Field.padTo buf offset)
      rw [placeAll_padTo] at placed
      rw [Field.length_padTo] at fetched last
      refine ⟨_, ends, placed, fun _ => ⟨?_, ?_⟩, fetched⟩
      · exact List.take_left' (Field.length_padTo buf offset)
      · cases ends with
        | nil => cases count
        | cons n ends =>
            rw [List.getLast?_cons, Option.getD_some] at last
            rw [List.getLast?_cons, last]

/-- A text, a tree, a truth value, a number and a header, behind a gap of two bytes. -/
theorem fetchAll_placeAll_mixed :
    let items : List Item := [⟨.text, "añ"⟩, ⟨.tree, Tree.mk 7 true [Tree.mk 8 false []]⟩,
      ⟨.truth, true⟩, ⟨.signed, (-2 : Int16)⟩, ⟨.header, Header.mk 1 .single 9⟩]
    ∃ buf', placeAll items [1, 2] 4 = .ok (buf', [9, 23, 24, 26, 34]) ∧
      buf'.take 4 = [1, 2, 0, 0] ∧
      fetchAll (items.map shape) (buf' ++ [255]) 4 = .ok (items, [9, 23, 24, 26, 34]) := by
  intro items
  obtain ⟨buf', ends, placed, ends', fetched⟩ := fetchAll_placeAll items (by decide) [1, 2] 4
  have offsets : (placeAll items [1, 2] 4).toOption.map Prod.snd = some [9, 23, 24, 26, 34] := by
    decide +kernel
  rw [placed] at offsets
  obtain rfl : ends = [9, 23, 24, 26, 34] := Option.some.inj offsets
  exact ⟨buf', placed, (ends' (List.cons_ne_nil _ _)).1, fetched [255]⟩

end Item

end SpanningMesh
