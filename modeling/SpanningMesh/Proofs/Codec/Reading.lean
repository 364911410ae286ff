import Mathlib.Data.List.Forall2
import SpanningMesh.Codec.Field

/-!
# Reading what was written

`Takes r bs v` says that a read takes exactly the bytes `bs` off the front and gives the
value `v`, whatever comes behind them, and that it runs out of bytes when only a part of
them is there.  Reads follow each other as their bytes do (`Takes.bind`).

A `Spelling` says which runs of bytes stand for which value.  A read recognises a spelling
if it takes every run that is spelled so and succeeds on no other (`Recognises`).  What a
compound read recognises is put together from what its parts do, so both directions are
proved at once, field by field.

A field is canonical if its reader recognises exactly what its writer wrote.  The numbers
and the texts are.
-/

namespace SpanningMesh

/-! ## Complete encodings -/

namespace Encoding

/-- What was written in two parts is complete exactly when both parts are. -/
theorem append_eq_iff {a b : Encoding} {bs : Bytes} :
    a ++ b = ⟨bs, none⟩ ↔
      ∃ as bs', a = ⟨as, none⟩ ∧ b = ⟨bs', none⟩ ∧ bs = as ++ bs' := by
  obtain ⟨as, fault⟩ := a
  obtain ⟨bs', fault'⟩ := b
  cases fault with
  | some e => simp [append_of_fault (a := ⟨as, some e⟩) rfl]
  | none =>
      rw [append_of_ok rfl]
      simp only [mk.injEq, and_true, exists_and_left, exists_eq_left']
      constructor
      · rintro ⟨rfl, rfl⟩
        exact ⟨bs', ⟨rfl, rfl⟩, rfl⟩
      · rintro ⟨_, ⟨rfl, rfl⟩, rfl⟩
        exact ⟨rfl, rfl⟩

/-- Behind a complete part an encoding can be completed exactly when the rest can. -/
theorem exists_append_iff {a b : Encoding} {as : Bytes} (h : a = ⟨as, none⟩) :
    (∃ bs, a ++ b = ⟨bs, none⟩) ↔ ∃ bs, b = ⟨bs, none⟩ := by
  constructor
  · rintro ⟨_, whole⟩
    obtain ⟨_, bs, _, rest, _⟩ := append_eq_iff.mp whole
    exact ⟨bs, rest⟩
  · rintro ⟨bs, rest⟩
    exact ⟨_, append_eq_iff.mpr ⟨as, bs, h, rest, rfl⟩⟩

/-- A list of encodings is complete exactly when all of them are. -/
theorem concat_eq_iff {es : List Encoding} {bs : Bytes} :
    concat es = ⟨bs, none⟩ ↔ ∃ bss : List Bytes, es = bss.map (⟨·, none⟩) ∧ bs = bss.flatten := by
  induction es generalizing bs with
  | nil =>
      simp only [concat_nil, empty, mk.injEq, and_true, List.nil_eq, List.map_eq_nil_iff,
        exists_eq_left, List.flatten_nil]
  | cons e es ih =>
      rw [concat_cons, append_eq_iff]
      constructor
      · rintro ⟨as, bs', rfl, rest, rfl⟩
        obtain ⟨bss, rfl, rfl⟩ := ih.mp rest
        exact ⟨as :: bss, rfl, rfl⟩
      · rintro ⟨bss, he, rfl⟩
        cases bss with
        | nil => cases he
        | cons as bss =>
            obtain ⟨rfl, rfl⟩ := List.cons.inj he
            exact ⟨as, bss.flatten, rfl, ih.mpr ⟨bss, rfl, rfl⟩, rfl⟩

theorem word_eq_iff {width n : Nat} {bs : Bytes} :
    word width n = ⟨bs, none⟩ ↔ Word.toBytes width n = bs := by
  simp [word]

end Encoding

namespace Read

variable {α β : Type} {r : Read α} {f : α → Read β} {a : α} {b : β} {as bs : Bytes}
  {c c' : Cursor}

/-! ## Reads that succeeded -/

/-- Two reads succeed exactly when the first does and then the second. -/
theorem bind_eq_ok :
    (r >>= f) c = (.ok b, c') ↔ ∃ a c₁, r c = (.ok a, c₁) ∧ f a c₁ = (.ok b, c') := by
  rw [bind_apply]
  cases hr : r c with
  | mk res c₁ => cases res <;> simp

/-- A reader accepts bytes if it accepts some of them from the start. -/
theorem run_eq_ok : r.run bs = .ok a ↔ ∃ c', r (.start bs) = (.ok a, c') := by
  simp only [run]
  cases hr : r (.start bs) with
  | mk res c' => simp

/-- Bytes are taken from the front. -/
theorem take_eq_ok {n : Nat} :
    take n c = (.ok bs, c') ↔
      bs.length = n ∧ c.rest = bs ++ c'.rest ∧ c'.offset = c.offset + n := by
  obtain ⟨offset, ahead⟩ := c
  obtain ⟨offset', ahead'⟩ := c'
  by_cases h : holds n ahead = true
  · have long := holds_iff.mp h
    simp only [take, h, if_true, Prod.mk.injEq, Except.ok.injEq, Cursor.mk.injEq]
    constructor
    · rintro ⟨rfl, rfl, rfl⟩
      exact ⟨List.length_take_of_le long, (List.take_append_drop n ahead).symm, rfl⟩
    · rintro ⟨rfl, rfl, rfl⟩
      exact ⟨List.take_left, rfl, List.drop_left⟩
  · have short := mt holds_iff.mpr h
    simp only [take, h, Bool.false_eq_true, if_false, Prod.mk.injEq, reduceCtorEq, false_and,
      false_iff, not_and]
    rintro rfl rfl
    simp at short

/-! ## Reads that run out of bytes -/

/-- A read stops because the bytes end before it does. -/
def RunsOut (r : Read α) (c : Cursor) : Prop :=
  ∃ offset needed available c', r c = (.error (.truncated offset needed available), c')

/-- What follows a read that runs out is not begun. -/
theorem RunsOut.bind (h : RunsOut r c) (f : α → Read β) : RunsOut (r >>= f) c := by
  obtain ⟨offset, needed, available, c', h⟩ := h
  exact ⟨offset, needed, available, c', by rw [bind_apply, h]⟩

/-- A read runs out after one that succeeded. -/
theorem RunsOut.after (h : r c = (.ok a, c')) (h' : RunsOut (f a) c') : RunsOut (r >>= f) c := by
  obtain ⟨offset, needed, available, c'', h'⟩ := h'
  exact ⟨offset, needed, available, c'', by rw [bind_apply, h]; exact h'⟩

/-- There are not enough bytes to take. -/
theorem runsOut_take {n : Nat} (h : c.rest.length < n) : RunsOut (take n) c := by
  have short : holds n c.rest = false := by
    rw [Bool.eq_false_iff, ne_eq, holds_iff]
    omega
  exact ⟨c.offset, n, c.remaining, c, by simp [take, short]⟩

/-! ## Reads that take exactly some bytes -/

/-- A read takes exactly some bytes off the front and gives a value. -/
structure Takes (r : Read α) (bs : Bytes) (v : α) : Prop where
  /-- What comes behind the bytes stays where it is. -/
  reads : ∀ offset rest, r ⟨offset, bs ++ rest⟩ = (.ok v, ⟨offset + bs.length, rest⟩)
  /-- A part of the bytes is not enough. -/
  runsOut : ∀ offset n, n < bs.length → RunsOut r ⟨offset, bs.take n⟩

namespace Takes

theorem pure (v : α) : Takes (Pure.pure v : Read α) [] v where
  reads _ _ := rfl
  runsOut _ _ h := absurd h (Nat.not_lt_zero _)

/-- The bytes of two reads end within those of the first or within those of the second. -/
theorem runsOut_bind (h : Takes r as a)
    (h' : ∀ offset n, n < bs.length → RunsOut (f a) ⟨offset, bs.take n⟩) (offset n : Nat)
    (hn : n < (as ++ bs).length) : RunsOut (r >>= f) ⟨offset, (as ++ bs).take n⟩ := by
  rw [List.length_append] at hn
  rw [List.take_append]
  by_cases cut : n < as.length
  · rw [Nat.sub_eq_zero_of_le (Nat.le_of_lt cut), List.take_zero, List.append_nil]
    exact (h.runsOut offset n cut).bind f
  · rw [List.take_of_length_le (Nat.le_of_not_lt cut)]
    exact .after (h.reads offset _) (h' _ _ (by omega))

theorem bind (h : Takes r as a) (h' : Takes (f a) bs b) : Takes (r >>= f) (as ++ bs) b where
  reads offset rest := by
    have first := h.reads offset (bs ++ rest)
    have second := h'.reads (offset + as.length) rest
    rw [bind_apply, List.append_assoc, first]
    simp only [second, List.length_append, Nat.add_assoc]
  runsOut := h.runsOut_bind h'.runsOut

/-- A check that what follows has so many bytes does not get in the way. -/
theorem require {n : Nat} {g : Read β} (h : Takes g bs b) (hn : n ≤ bs.length) :
    Takes (Read.require n >>= fun _ => g) bs b where
  reads offset rest := by
    have long : holds n (bs ++ rest) = true := holds_iff.mpr (by simp; omega)
    rw [bind_apply, Read.require, if_pos long]
    exact h.reads offset rest
  runsOut offset k hk := by
    by_cases long : holds n (bs.take k) = true
    · have checked : Read.require n ⟨offset, bs.take k⟩ = (.ok (), ⟨offset, bs.take k⟩) :=
        if_pos long
      exact .after checked (h.runsOut offset k hk)
    · exact .bind ⟨offset, n, (bs.take k).length, ⟨offset, bs.take k⟩, if_neg long⟩ _

/-- A read of exactly some bytes reads them from the beginning of a longer buffer. -/
theorem run (h : Takes r bs a) (rest : Bytes) : r.run (bs ++ rest) = .ok a :=
  run_eq_ok.mpr ⟨_, h.reads 0 rest⟩

end Takes

/-! ## Spellings -/

/-- Which runs of bytes stand for which value. -/
abbrev Spelling (α : Type) : Type := Bytes → α → Prop

/-- A value spelled behind another, on which its spelling may depend. -/
def Spelling.andThen (S : Spelling α) (T : α → Spelling β) : Spelling β := fun bs b =>
  ∃ a as bs', S as a ∧ T a bs' b ∧ bs = as ++ bs'

/-- A read recognises a spelling: it takes every run of bytes that is spelled so, and what
it takes is. -/
structure Recognises (r : Read α) (S : Spelling α) : Prop where
  takes : ∀ {bs v}, S bs v → Takes r bs v
  spelled : ∀ {c v c'}, r c = (.ok v, c') → ∃ bs, S bs v ∧ c.rest = bs ++ c'.rest

namespace Recognises

variable {S S' : Spelling α} {T : α → Spelling β}

theorem congr (h : Recognises r S) (same : ∀ bs v, S bs v ↔ S' bs v) : Recognises r S' where
  takes spelled := h.takes ((same _ _).mpr spelled)
  spelled read := by
    obtain ⟨bs, spelled, rest⟩ := h.spelled read
    exact ⟨bs, (same _ _).mp spelled, rest⟩

theorem bind (h : Recognises r S) (h' : ∀ a, Recognises (f a) (T a)) :
    Recognises (r >>= f) (S.andThen T) where
  takes := by
    rintro _ b ⟨a, as, bs, first, second, rfl⟩
    exact (h.takes first).bind ((h' a).takes second)
  spelled read := by
    obtain ⟨a, c₁, first, second⟩ := bind_eq_ok.mp read
    obtain ⟨as, ha, front⟩ := h.spelled first
    obtain ⟨bs, hb, behind⟩ := (h' a).spelled second
    exact ⟨as ++ bs, ⟨a, as, bs, ha, hb, rfl⟩, by rw [front, behind, List.append_assoc]⟩

/-- A check of what was read takes no bytes. -/
theorem ofExcept (x : Except CodecError α) :
    Recognises (Read.ofExcept x) fun bs v => bs = [] ∧ x = .ok v where
  takes := by
    rintro _ v ⟨rfl, rfl⟩
    exact .pure v
  spelled read := by
    cases x with
    | ok v =>
        cases read
        exact ⟨[], ⟨rfl, rfl⟩, rfl⟩
    | error e => cases read

theorem pure (v : α) : Recognises (Pure.pure v : Read α) fun bs w => bs = [] ∧ v = w :=
  (ofExcept (.ok v)).congr fun _ _ => by rw [Except.ok.injEq]

/-- A check that refuses some values takes no bytes of those it lets through. -/
theorem check {p : Prop} [Decidable p] (v : α) (e : CodecError) :
    Recognises (if p then Pure.pure v else Read.fail e) fun bs w => bs = [] ∧ p ∧ v = w := by
  split
  next holds => exact (pure v).congr fun _ _ => by simp [holds]
  next fails => exact (ofExcept (.error e)).congr fun _ _ => by simp [fails]

/-- A read that is followed by some work on its value. -/
theorem map (h : Recognises r S) (g : α → β) :
    Recognises (r >>= fun a => Pure.pure (g a)) fun bs b => ∃ a, S bs a ∧ g a = b :=
  (h.bind fun a => pure (g a)).congr fun bs b => by
    constructor
    · rintro ⟨a, as, _, spelled, ⟨rfl, rfl⟩, rfl⟩
      exact ⟨a, by rwa [List.append_nil], rfl⟩
    · rintro ⟨a, spelled, rfl⟩
      exact ⟨a, bs, [], spelled, ⟨rfl, rfl⟩, (List.append_nil bs).symm⟩

/-- A read may look where the cursor stands. -/
theorem offset {f : Nat → Read α} (h : ∀ n, Recognises (f n) S) :
    Recognises (Read.offset >>= f) S where
  takes spelled :=
    { reads := fun offset rest => ((h offset).takes spelled).reads offset rest
      runsOut := fun offset n hn => .after rfl (((h offset).takes spelled).runsOut offset n hn) }
  spelled {c _ _} read := (h c.offset).spelled read

/-- A check that so many bytes follow keeps a spelling that has them. -/
theorem require {n : Nat} (h : Recognises r S) (long : ∀ bs v, S bs v → n ≤ bs.length) :
    Recognises (Read.require n >>= fun _ => r) S where
  takes spelled := (h.takes spelled).require (long _ _ spelled)
  spelled read := by
    obtain ⟨_, c₁, checked, read⟩ := bind_eq_ok.mp read
    simp only [Read.require] at checked
    split at checked
    · cases checked
      exact h.spelled read
    · cases checked

theorem take (n : Nat) : Recognises (Read.take n) fun bs v => bs = v ∧ v.length = n where
  takes := by
    rintro bs _ ⟨rfl, rfl⟩
    exact
      { reads := fun offset rest => take_append bs rest offset
        runsOut := fun _ _ hn => runsOut_take (by rw [List.length_take]; omega) }
  spelled read := by
    obtain ⟨size, rest, -⟩ := take_eq_ok.mp read
    exact ⟨_, ⟨rfl, size⟩, rest⟩

/-- A word is its number's bytes. -/
theorem word (width : Nat) :
    Recognises (Read.word width) fun bs n => n < Word.capacity width ∧ Word.toBytes width n = bs :=
  ((take width).map Word.ofBytes).congr fun bs n => by
    constructor
    · rintro ⟨v, ⟨rfl, rfl⟩, rfl⟩
      exact ⟨Word.ofBytes_lt bs, Word.toBytes_ofBytes bs⟩
    · rintro ⟨small, rfl⟩
      exact ⟨_, ⟨rfl, Word.length_toBytes width n⟩, Word.ofBytes_toBytes_of_lt small⟩

/-- The same read over and over takes the runs of bytes of its values. -/
theorem replicate (h : Recognises r S) (count : Nat) :
    Recognises (Read.replicate count r) fun bs vs =>
      vs.length = count ∧ ∃ bss, List.Forall₂ S bss vs ∧ bs = bss.flatten := by
  have onto : ∀ count (acc : List α), Recognises (repeatOnto r count acc) fun bs all =>
      ∃ vs, vs.length = count ∧ (∃ bss, List.Forall₂ S bss vs ∧ bs = bss.flatten) ∧
        vs.reverse ++ acc = all := by
    intro count
    induction count with
    | zero =>
        refine fun acc => (pure acc).congr fun bs all => ?_
        constructor
        · rintro ⟨rfl, rfl⟩
          exact ⟨[], rfl, ⟨[], .nil, rfl⟩, rfl⟩
        · rintro ⟨vs, none, ⟨bss, spelled, rfl⟩, rfl⟩
          obtain rfl := List.eq_nil_of_length_eq_zero none
          cases spelled
          exact ⟨rfl, rfl⟩
    | succ count ih =>
        refine fun acc => (h.bind fun a => ih (a :: acc)).congr fun bs all => ?_
        constructor
        · rintro ⟨v, as, _, first, ⟨vs, rfl, ⟨bss, spelled, rfl⟩, rfl⟩, rfl⟩
          exact ⟨v :: vs, rfl, ⟨as :: bss, .cons first spelled, rfl⟩, by simp⟩
        · rintro ⟨vs, size, ⟨bss, spelled, rfl⟩, rfl⟩
          cases spelled with
          | nil => cases size
          | @cons as v bss vs first spelled =>
              exact ⟨v, as, bss.flatten, first,
                ⟨vs, Nat.succ.inj size, ⟨bss, spelled, rfl⟩, by simp⟩, rfl⟩
  refine ((onto count []).map List.reverse).congr fun bs all => ?_
  constructor
  · rintro ⟨_, ⟨vs, size, spelled, rfl⟩, rfl⟩
    rw [List.append_nil, List.reverse_reverse]
    exact ⟨size, spelled⟩
  · rintro ⟨size, spelled⟩
    exact ⟨_, ⟨all, size, spelled, rfl⟩, by rw [List.append_nil, List.reverse_reverse]⟩

end Recognises

end Read

open Read (Recognises Spelling)

/-! ## Canonical fields -/

/-- A field whose reader recognises exactly the complete encodings of its values. -/
class CanonicalField (α : Type) [Field α] : Prop where
  recognises : Recognises (Field.decode (α := α)) fun bs v => Field.encode v = ⟨bs, none⟩

namespace Read.Recognises

variable {α β : Type} [Field α] [CanonicalField α] {P : β → Prop} {E : β → Encoding}

/-- A record is read field by field: each field that was read is one more thing that is known
of the record (`P`), and its encoding stands before those of the fields that follow (`E`). -/
theorem field (proj : β → α) {f : α → Read β}
    (h : ∀ a, Recognises (f a) fun bs b => (P b ∧ proj b = a) ∧ E b = ⟨bs, none⟩) :
    Recognises (Field.decode >>= f) fun bs b => P b ∧ Field.encode (proj b) ++ E b = ⟨bs, none⟩ :=
  (CanonicalField.recognises.bind h).congr fun bs b => by
    rw [Encoding.append_eq_iff]
    constructor
    · rintro ⟨_, as, bs, first, ⟨⟨known, rfl⟩, rest⟩, rfl⟩
      exact ⟨known, as, bs, first, rest, rfl⟩
    · rintro ⟨known, as, bs, first, rest, rfl⟩
      exact ⟨_, as, bs, first, ⟨⟨known, rfl⟩, rest⟩, rfl⟩

/-- A record is complete when its fields say which one it is. -/
theorem built (v : β) (known : ∀ b, v = b ↔ P b) :
    Recognises (Pure.pure v : Read β) fun bs b => P b ∧ .empty = (⟨bs, none⟩ : Encoding) :=
  (pure v).congr fun bs b => by
    rw [known, and_comm, Encoding.empty, Encoding.mk.injEq, and_iff_left rfl, @eq_comm _ bs]

/-- A record whose encoding is that of its fields, read in order, is recognised. -/
theorem record {r : Read β} (h : Recognises r fun bs b => True ∧ E b = ⟨bs, none⟩)
    {encode : β → Encoding} (same : ∀ b, E b = encode b) :
    Recognises r fun bs b => encode b = ⟨bs, none⟩ :=
  h.congr fun bs b => by rw [same, true_and]

end Read.Recognises

/-- A number that travels as a word of its own width is canonical. -/
theorem CanonicalField.of_word {α : Type} [Field α] {width : Nat} (toNat : α → Nat)
    (ofNat : Nat → α) (encode : ∀ v : α, Field.encode v = .word width (toNat v))
    (decode : Field.decode = Read.word width >>= fun n => pure (ofNat n))
    (small : ∀ v, toNat v < Word.capacity width) (ofNat_toNat : ∀ v, ofNat (toNat v) = v)
    (toNat_ofNat : ∀ n < Word.capacity width, toNat (ofNat n) = n) : CanonicalField α where
  recognises := by
    rw [decode]
    refine ((Recognises.word width).map ofNat).congr fun bs v => ?_
    rw [encode, Encoding.word_eq_iff]
    constructor
    · rintro ⟨n, ⟨fits, rfl⟩, rfl⟩
      rw [toNat_ofNat n fits]
    · rintro rfl
      exact ⟨toNat v, ⟨small v, rfl⟩, ofNat_toNat v⟩

instance : CanonicalField UInt8 :=
  .of_word UInt8.toNat UInt8.ofNat (fun _ => rfl) rfl UInt8.toNat_lt
    (fun _ => UInt8.ofNat_toNat) fun _ => UInt8.toNat_ofNat_of_lt'

instance : CanonicalField UInt16 :=
  .of_word UInt16.toNat UInt16.ofNat (fun _ => rfl) rfl UInt16.toNat_lt
    (fun _ => UInt16.ofNat_toNat) fun _ => UInt16.toNat_ofNat_of_lt'

instance : CanonicalField Int16 :=
  .of_word (·.toUInt16.toNat) (fun n => (UInt16.ofNat n).toInt16) (fun _ => rfl) rfl
    (fun v => v.toUInt16.toNat_lt) (fun v => by simp)
    fun n small => by simpa using UInt16.toNat_ofNat_of_lt' small

instance : CanonicalField UInt32 :=
  .of_word UInt32.toNat UInt32.ofNat (fun _ => rfl) rfl UInt32.toNat_lt
    (fun _ => UInt32.ofNat_toNat) fun _ => UInt32.toNat_ofNat_of_lt'

/-- A truth value is spelled by any byte that is zero exactly when it is false. -/
theorem Read.Recognises.bool :
    Recognises (Field.decode (α := Bool)) fun bs v => ∃ b : UInt8, bs = [b] ∧ (b != 0) = v := by
  have truth (b : UInt8) : (b.toNat != 0) = (b != 0) := by simp [bne, ← UInt8.toNat_inj]
  refine ((Recognises.word 1).map (· != 0)).congr fun bs v => ?_
  constructor
  · rintro ⟨n, ⟨small, rfl⟩, rfl⟩
    have same : (UInt8.ofNat n).toNat = n := UInt8.toNat_ofNat_of_lt' small
    exact ⟨UInt8.ofNat n, rfl, by rw [← truth, same]⟩
  · rintro ⟨b, rfl, rfl⟩
    exact ⟨b.toNat, ⟨b.toNat_lt, by simp [Word.toBytes]⟩, truth b⟩

/-! ## Text -/

namespace Text

/-- The loop that lists an array of bytes has the first of them in reverse and goes on with
the others. -/
theorem toList_loop_eq {bytes : ByteArray} (done ahead : Bytes)
    (h : bytes.data.toList = done ++ ahead) :
    ByteArray.toList.loop bytes done.length done.reverse = done ++ ahead := by
  have size : bytes.size = done.length + ahead.length := by
    rw [← List.length_append, ← h]
    rfl
  induction ahead generalizing done with
  | nil =>
      have stops : ¬ done.length < bytes.size := Nat.not_lt_of_le (Nat.le_of_eq size)
      rw [ByteArray.toList.loop, if_neg stops, List.reverse_reverse, List.append_nil]
  | cons b ahead ih =>
      have goesOn : done.length < bytes.size := size ▸ Nat.lt_add_of_pos_right (Nat.succ_pos _)
      have next : bytes.get! done.length = b := by
        rw [ByteArray.get!, ← Array.getElem!_toList, h]
        simp
      have behind := ih (done ++ [b]) (by rw [h, List.append_assoc]; rfl)
        (by rw [size, List.length_append]; simp; omega)
      rw [List.length_append, List.reverse_append, List.append_assoc] at behind
      rw [ByteArray.toList.loop, if_pos goesOn, next]
      exact behind

/-- The bytes of a text are those of its encoding. -/
theorem toBytes_eq (s : String) : toBytes s = s.toByteArray.data.toList :=
  toList_loop_eq [] _ rfl

theorem length_toBytes (s : String) : (toBytes s).length = s.utf8ByteSize := by
  rw [toBytes_eq]
  rfl

/-- Bytes spell a text exactly when they are its bytes. -/
theorem ofBytes?_eq_some_iff {bs : Bytes} {s : String} : ofBytes? bs = some s ↔ toBytes s = bs := by
  have list : bs.toByteArray.data.toList = bs := by rw [List.data_toByteArray]
  rw [toBytes_eq, ofBytes?, String.fromUTF8?]
  constructor
  · intro h
    split at h
    · obtain rfl := Option.some.inj h
      exact list
    · cases h
  · rintro rfl
    have same : s.toByteArray.data.toList.toByteArray = s.toByteArray := ByteArray.ext (by simp)
    rw [same, dif_pos s.isValidUTF8]
    rfl

/-- A complete encoding of a text is its length and its bytes. -/
theorem encode_eq_iff {s : String} {bs : Bytes} :
    encode s = ⟨bs, none⟩ ↔
      s.utf8ByteSize < 65536 ∧ bs = Word.toBytes 2 s.utf8ByteSize ++ toBytes s := by
  rw [encode]
  split
  next small => simp [small, Encoding.append_of_ok, Encoding.word, Encoding.raw, eq_comm]
  next large => simp [large, Encoding.fail]

/-- A text can be written exactly when its length can. -/
theorem exists_encode_iff {s : String} :
    (∃ bs, encode s = ⟨bs, none⟩) ↔ s.utf8ByteSize ≤ 65535 := by
  simp only [encode_eq_iff, exists_and_left, exists_eq, and_true, Nat.lt_succ_iff]

/-- The bytes of a text whose length is known are its spelling. -/
theorem recognises_bytes (size start : Nat) :
    Recognises (Read.take size >>= fun bs => match ofBytes? bs with
      | some s => Pure.pure s
      | none => Read.fail (.malformed (.invalidText start)))
      fun bs s => toBytes s = bs ∧ bs.length = size := by
  have meaning (as : Bytes) : Recognises (match ofBytes? as with
      | some s => Pure.pure s
      | none => Read.fail (.malformed (.invalidText start)))
      fun bs s => bs = [] ∧ ofBytes? as = some s := by
    cases ofBytes? as with
    | some s => exact (Recognises.pure s).congr fun _ _ => by rw [Option.some.injEq]
    | none => exact (Recognises.ofExcept (.error _)).congr fun _ _ => by simp
  refine ((Recognises.take size).bind meaning).congr fun bs s => ?_
  constructor
  · rintro ⟨as, _, _, ⟨rfl, rfl⟩, ⟨rfl, spelled⟩, rfl⟩
    rw [List.append_nil]
    exact ⟨ofBytes?_eq_some_iff.mp spelled, rfl⟩
  · rintro ⟨spelled, rfl⟩
    exact ⟨bs, bs, [], ⟨rfl, rfl⟩, ⟨rfl, ofBytes?_eq_some_iff.mpr spelled⟩, by simp⟩

instance : CanonicalField String where
  recognises := by
    refine ((Recognises.word 2).bind fun size => .offset (recognises_bytes size)).congr
      fun bs s => ?_
    rw [show Field.encode s = encode s from rfl, encode_eq_iff]
    constructor
    · rintro ⟨size, _, _, ⟨small, rfl⟩, ⟨rfl, rfl⟩, rfl⟩
      rw [length_toBytes] at small ⊢
      exact ⟨small, rfl⟩
    · rintro ⟨small, rfl⟩
      exact ⟨_, _, _, ⟨small, rfl⟩, ⟨rfl, length_toBytes s⟩, rfl⟩

end Text

end SpanningMesh
