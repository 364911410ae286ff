import SpanningMesh.Codec.Word
import SpanningMesh.Codec.Error

/-!
# What an encoder wrote

Writing a value can fail halfway, and what was written before stays written.  An
`Encoding` therefore holds both: the bytes, and the fault that stopped the
encoder, if one did.  Encodings are put one after the other with `++`, and
nothing follows a fault.

`Encoding.append_assoc` and the two unit laws make them a monoid, so a compound
value is written by appending the encodings of its parts.
-/

namespace SpanningMesh

/-- The bytes an encoder wrote, and the fault that stopped it. -/
structure Encoding where
  bytes : Bytes
  /-- The fault, if the encoder did not reach the end. -/
  fault : Option CodecError := none
deriving Repr, DecidableEq

namespace Encoding

/-- The encoding that writes nothing. -/
def empty : Encoding := ⟨[], none⟩

/-- Stop with a fault before anything is written. -/
def fail (e : CodecError) : Encoding := ⟨[], some e⟩

/-- Write one encoding after another, unless the first one stopped. -/
def append (a b : Encoding) : Encoding :=
  match a.fault with
  | none => ⟨a.bytes ++ b.bytes, b.fault⟩
  | some _ => a

instance : Append Encoding := ⟨append⟩

/-- A word of a number of bytes. -/
def word (width n : Nat) : Encoding := ⟨Word.toBytes width n, none⟩

/-- Bytes as they are. -/
def raw (bs : Bytes) : Encoding := ⟨bs, none⟩

/-- All encodings of a list, up to the first fault. -/
def concat (es : List Encoding) : Encoding := es.foldr append empty

/-- The bytes of a complete encoding, or its fault. -/
def result (e : Encoding) : Except CodecError Bytes :=
  match e.fault with
  | none => .ok e.bytes
  | some f => .error f

theorem append_of_ok {a : Encoding} (h : a.fault = none) (b : Encoding) :
    a ++ b = ⟨a.bytes ++ b.bytes, b.fault⟩ := by
  show append a b = _
  simp [append, h]

theorem append_of_fault {a : Encoding} {e : CodecError} (h : a.fault = some e) (b : Encoding) :
    a ++ b = a := by
  show append a b = _
  simp [append, h]

@[simp] theorem empty_append (a : Encoding) : empty ++ a = a := by
  rw [append_of_ok rfl]; simp [empty]

@[simp] theorem append_empty (a : Encoding) : a ++ empty = a := by
  cases h : a.fault with
  | none => rw [append_of_ok h]; cases a; simp_all [empty]
  | some e => rw [append_of_fault h]

theorem append_assoc (a b c : Encoding) : a ++ b ++ c = a ++ (b ++ c) := by
  cases ha : a.fault with
  | some e => rw [append_of_fault ha, append_of_fault ha, append_of_fault ha]
  | none =>
      cases hb : b.fault with
      | some e =>
          rw [append_of_fault (a := b) hb, append_of_fault (e := e)]
          rw [append_of_ok ha, hb]
      | none =>
          rw [append_of_ok ha b, append_of_ok hb c, append_of_ok ha, append_of_ok (by exact hb)]
          simp

@[simp] theorem concat_nil : concat [] = empty := rfl

@[simp] theorem concat_cons (e : Encoding) (es : List Encoding) :
    concat (e :: es) = e ++ concat es := rfl

/-- An encoding is complete exactly when its result is its bytes. -/
theorem result_eq_ok_iff {e : Encoding} {bs : Bytes} :
    e.result = .ok bs ↔ e = ⟨bs, none⟩ := by
  obtain ⟨b, f⟩ := e
  cases f <;> simp [result]

end Encoding

end SpanningMesh
