import SpanningMesh.Proofs.Packet.RoundTrip

/-!
# The wire form of packets is canonical

Three results on the whole format.  A packet whose header and payload match can be written
exactly if its text or tree fits, and is then read back, so no two of them share their bytes
(`Packet.round_trip`).  Whatever bytes are read as a packet are those that are written for it,
but for root flags above one (`Packet.canonical`).  And the bytes of a packet with a form of
its own say where they end: a part of them is truncated, and what follows them is counted as
left over (`Packet.self_delimiting`).

All three come from `Packet.decode_eq_ok_iff`, which says what is read, and from the spelling
of trees.
-/

namespace SpanningMesh

open Read (RunsOut Takes)

/-! ## What can be written -/

namespace Payload

/-- Whether the format can carry a payload: a text of at most 65535 bytes, and a tree of at
most `maxTreeDepth` levels with at most 65535 trees behind each node. -/
def Fits : Payload → Prop
  | treeRequest _ tree | treeReply _ tree => tree.depth ≤ maxTreeDepth ∧ tree.width ≤ 65535
  | single _ text | broadcast _ text => text.utf8ByteSize ≤ 65535
  | timeSync _ _ | timeDelay _ _ | meshId _ | raw _ => True

theorem exists_encode_iff {payload : Payload} :
    (∃ bs, payload.encode = ⟨bs, none⟩) ↔ payload.Fits := by
  cases payload with
  | treeRequest | treeReply =>
      exact (Encoding.exists_append_iff rfl).trans Tree.exists_written_iff
  | single | broadcast => exact (Encoding.exists_append_iff rfl).trans Text.exists_encode_iff
  | timeSync | timeDelay | meshId | raw => exact iff_of_true ⟨_, rfl⟩ trivial

end Payload

namespace Packet

variable {p : Packet} {body : Bytes}

/-- A packet can be written exactly if its payload fits. -/
theorem exists_encode_iff : (∃ body, p.encode = .ok body) ↔ p.payload.Fits := by
  rw [← Payload.exists_encode_iff, ← Encoding.exists_append_iff (a := Field.encode p.header) rfl]
  exact exists_congr fun _ => Encoding.result_eq_ok_iff

/-- A packet whose header and payload match is written exactly if its payload fits, and is
read back from what was written.  No other such packet has the same bytes. -/
theorem round_trip (fit : p.Matches) :
    ((∃ body, p.encode = .ok body) ↔ p.payload.Fits) ∧
      (∀ body, p.encode = .ok body → decode body = .ok p) ∧
      ∀ q body, Matches q → p.encode = .ok body → q.encode = .ok body → p = q := by
  refine ⟨exists_encode_iff, fun body => decode_of_encode fit, ?_⟩
  intro q body fit' written written'
  have back := decode_of_encode fit written
  rw [decode_of_encode fit' written'] at back
  exact (Except.ok.inj back).symm

/-- A tree of two nodes is written and comes back. -/
theorem round_trip_pair :
    (treeRequest 7 3 ⟨7, false, [⟨8, true, []⟩]⟩).Matches ∧
      ∃ body, (treeRequest 7 3 ⟨7, false, [⟨8, true, []⟩]⟩).encode = .ok body ∧
        decode body = .ok (treeRequest 7 3 ⟨7, false, [⟨8, true, []⟩]⟩) := by
  have fit : (treeRequest 7 3 ⟨7, false, [⟨8, true, []⟩]⟩).Matches := by decide
  obtain ⟨fits, back, -⟩ := round_trip fit
  obtain ⟨body, written⟩ := fits.mpr ⟨by decide, by decide⟩
  exact ⟨fit, body, written, back body written⟩

end Packet

/-! ## What is read is what is written -/

/-- Two runs of bytes are the same but for some offsets, at which a byte above one has become
one. -/
def SettledAt (offsets : List Nat) (bs bs' : Bytes) : Prop :=
  bs'.length = bs.length ∧ ∀ i (h : i < bs.length) (h' : i < bs'.length),
    bs'[i] = bs[i] ∨ i ∈ offsets ∧ 1 < bs[i] ∧ bs'[i] = 1

theorem SettledAt.refl (offsets : List Nat) (bs : Bytes) : SettledAt offsets bs bs :=
  ⟨rfl, fun _ _ _ => .inl rfl⟩

/-- Flags behind some bytes lie further on. -/
theorem SettledAt.behind {offsets : List Nat} {bs bs' : Bytes} (h : SettledAt offsets bs bs')
    {front : Bytes} {n : Nat} (hn : front.length = n) :
    SettledAt (offsets.map (n + ·)) (front ++ bs) (front ++ bs') := by
  obtain ⟨size, same⟩ := h
  refine ⟨by simp [size], fun i hi hi' => ?_⟩
  by_cases inside : i < front.length
  · left
    rw [List.getElem_append_left inside, List.getElem_append_left inside]
  · have outside := Nat.le_of_not_lt inside
    rw [List.getElem_append_right outside, List.getElem_append_right outside]
    rw [List.length_append] at hi
    refine (same (i - front.length) (by omega) (by omega)).imp_right fun ⟨flag, above, one⟩ =>
      ⟨List.mem_map.mpr ⟨_, flag, by omega⟩, above, one⟩

/-- The offsets of the root flags in the bytes of a tree: each node takes `minTreeSize` bytes,
and its flag stands behind the four bytes of its id. -/
def Tree.flagOffsets (t : Tree) : List Nat :=
  (List.range t.nodes.length).map fun k => minTreeSize * k + 4

/-- In a tree the flags are all that may be spelled in more than one way. -/
theorem Tree.settledAt_of_spelled {levels : Nat} {bs : Bytes} {t : Tree}
    (h : Spelled levels bs t) : SettledAt t.flagOffsets bs (settleFlags bs) := by
  have size := length_of_spelled h
  refine ⟨by simp [settleFlags], fun i hi _ => ?_⟩
  simp only [settleFlags, List.getElem_mapIdx]
  by_cases flag : i % minTreeSize = 4
  · by_cases above : 1 < bs[i]
    · have set : bs[i] ≠ 0 := fun unset => absurd (unset ▸ above) (by decide)
      have offset : i ∈ t.flagOffsets := by
        simp only [minTreeSize] at size flag
        refine List.mem_map.mpr ⟨i / minTreeSize, List.mem_range.mpr ?_, ?_⟩ <;>
          simp only [minTreeSize] <;> omega
      exact .inr ⟨offset, above, if_pos ⟨flag, set⟩⟩
    · have low : bs[i] = 0 ∨ bs[i] = 1 := by
        simp only [UInt8.lt_iff_toNat_lt, ← UInt8.toNat_inj, UInt8.toNat_zero, UInt8.toNat_one]
          at above ⊢
        omega
      rcases low with low | low <;> simp [low]
  · left
    simp [flag]

/-- The offsets of the root flags in the bytes of a payload: those of a tree lie behind the
four bytes of its sender. -/
def Payload.flagOffsets : Payload → List Nat
  | treeRequest _ tree | treeReply _ tree => tree.flagOffsets.map (4 + ·)
  | _ => []

theorem Payload.length_sender {sender : UInt32} {bs : Bytes}
    (h : Field.encode sender = ⟨bs, none⟩) : bs.length = 4 := by
  rw [← Encoding.word_eq_iff.mp h, Word.length_toBytes]

/-- A payload that was read can be written, with its flags in their usual spelling. -/
theorem Payload.encode_of_spelled {payload : Payload} {bs : Bytes} (h : payload.Spelled bs) :
    ∃ bs', payload.encode = ⟨bs', none⟩ ∧ SettledAt payload.flagOffsets bs bs' := by
  cases payload with
  | treeRequest sender tree | treeReply sender tree =>
      obtain ⟨front, behind, sender, spelled, rfl⟩ := h
      exact ⟨front ++ Tree.settleFlags behind,
        Encoding.append_eq_iff.mpr ⟨_, _, sender, Tree.written_of_spelled spelled, rfl⟩,
        (Tree.settledAt_of_spelled spelled).behind (length_sender sender)⟩
  | timeSync | timeDelay | single | broadcast | meshId | raw => exact ⟨bs, h, .refl _ bs⟩

theorem Header.length_of_encode {h : Header} {bs : Bytes} (written : Field.encode h = ⟨bs, none⟩) :
    bs.length = Header.size := by
  cases written
  rfl

/-- A payload that is not raw belongs to a kind with a form of its own. -/
theorem Payload.typed_of_ofKind {kind : UInt16} {payload : Payload} (h : payload.OfKind kind)
    (typed : ∀ data, payload ≠ .raw data) : kind ∈ Kind.typed := by
  cases payload with
  | treeRequest | treeReply =>
      obtain ⟨rfl, -⟩ := h
      decide
  | timeSync | timeDelay | single | broadcast | meshId =>
      obtain rfl := h
      decide
  | raw data => exact absurd rfl (typed data)

namespace Packet

/-- The offsets of the root flags in the bytes of a packet. -/
def flagOffsets (p : Packet) : List Nat := p.payload.flagOffsets.map (Header.size + ·)

/-- Whatever bytes are read as a packet: the header and the payload match, a tree has its
sender at the top and is not too deep, and the packet is written with the same bytes but for
root flags above one, which become one, and is read back from them. -/
theorem canonical {p : Packet} {body : Bytes} (h : decode body = .ok p) :
    p.Matches ∧
      (∀ sender tree,
        p.payload = .treeRequest sender tree ∨ p.payload = .treeReply sender tree →
          tree.id = sender ∧ tree.depth ≤ maxTreeDepth) ∧
      ∃ body', p.encode = .ok body' ∧ SettledAt p.flagOffsets body body' ∧
        decode body' = .ok p := by
  obtain ⟨fit, front, behind, header, spelled, rfl⟩ := decode_eq_ok_iff.mp h
  obtain ⟨behind', payload, settled⟩ := Payload.encode_of_spelled spelled
  have written : p.encode = .ok (front ++ behind') :=
    encode_eq_ok_iff.mpr ⟨front, behind', header, payload, rfl⟩
  refine ⟨fit, fun sender tree carries => ⟨id_of_decode_tree h carries, ?_⟩,
    front ++ behind', written, settled.behind (Header.length_of_encode header),
    decode_of_encode fit written⟩
  have fits := exists_encode_iff.mp ⟨_, written⟩
  rcases carries with carries | carries <;>
    · rw [carries] at fits
      exact fits.1

/-- A root flag of 42 becomes 1. -/
theorem canonical_flag :
    decode [6, 0, 0, 0, 3, 0, 0, 0, 5, 0, 0, 0, 5, 0, 0, 0, 42, 0, 0] =
        .ok (treeReply 5 3 ⟨5, true, []⟩) ∧
      ∃ body', (treeReply 5 3 ⟨5, true, []⟩).encode = .ok body' ∧
        SettledAt [16] [6, 0, 0, 0, 3, 0, 0, 0, 5, 0, 0, 0, 5, 0, 0, 0, 42, 0, 0] body' ∧
        decode body' = .ok (treeReply 5 3 ⟨5, true, []⟩) := by
  have read : decode [6, 0, 0, 0, 3, 0, 0, 0, 5, 0, 0, 0, 5, 0, 0, 0, 42, 0, 0] =
      .ok (treeReply 5 3 ⟨5, true, []⟩) := by rfl
  exact ⟨read, (canonical read).2.2⟩

/-! ## Where the bytes of a packet end -/

/-- The bytes of a packet with a payload of its own form say where they end.  Every part of
them that is not all of them is truncated, and whatever follows them is counted as left
over. -/
theorem self_delimiting {p : Packet} {body : Bytes} (h : decode body = .ok p)
    (typed : ∀ data, p.payload ≠ .raw data) :
    (∀ part, part <+: body → part ≠ body →
      ∃ offset needed available, decode part = .error (.truncated offset needed available)) ∧
      ∀ tail, tail ≠ [] → decode (body ++ tail) = .error (.malformed (.trailing tail.length)) := by
  obtain ⟨fit, front, behind, header, spelled, rfl⟩ := decode_eq_ok_iff.mp h
  have kind := Payload.typed_of_ofKind fit typed
  have first := CanonicalField.recognises.takes header
  have second := (Payload.recognises kind).takes ⟨fit, spelled⟩
  constructor
  · intro part isPart ne
    have cut : part.length < (front ++ behind).length :=
      Nat.lt_of_le_of_ne isPart.length_le fun same => ne (isPart.eq_of_length same)
    have out : RunsOut read (.start part) := by
      rw [List.prefix_iff_eq_take.mp isPart]
      exact first.runsOut_bind (fun offset n hn => (second.runsOut offset n hn).bind _) 0 _ cut
    obtain ⟨offset, needed, available, c', out⟩ := out
    exact ⟨offset, needed, available, congrArg Prod.fst out⟩
  · intro tail ne
    have ended : Read.finish ⟨0 + front.length + behind.length, tail⟩ =
        (.error (.malformed (.trailing tail.length)), ⟨0 + front.length + behind.length, tail⟩) :=
      if_neg (by simpa [Cursor.atEnd] using ne)
    have first := first.reads 0 (behind ++ tail)
    have second := second.reads (0 + front.length) tail
    rw [List.append_assoc, decode, Read.run, read, Cursor.start, Read.bind_apply, first]
    simp only [Read.bind_apply, second, ended]

/-- The bytes of a leaf in a tree request, less their last three or with two more. -/
theorem self_delimiting_leaf :
    decode [5, 0, 0, 0, 3, 0, 0, 0, 5, 0, 0, 0, 5, 0, 0, 0, 0, 0, 0] =
        .ok (treeRequest 5 3 ⟨5, false, []⟩) ∧
      (∃ offset needed available,
        decode [5, 0, 0, 0, 3, 0, 0, 0, 5, 0, 0, 0, 5, 0, 0, 0] =
          .error (.truncated offset needed available)) ∧
      decode ([5, 0, 0, 0, 3, 0, 0, 0, 5, 0, 0, 0, 5, 0, 0, 0, 0, 0, 0] ++ [1, 2]) =
        .error (.malformed (.trailing 2)) := by
  have read : decode [5, 0, 0, 0, 3, 0, 0, 0, 5, 0, 0, 0, 5, 0, 0, 0, 0, 0, 0] =
      .ok (treeRequest 5 3 ⟨5, false, []⟩) := by rfl
  obtain ⟨truncated, trailing⟩ := self_delimiting read (by rintro _ ⟨⟩)
  exact ⟨read, truncated _ ⟨[0, 0, 0], rfl⟩ (by decide), trailing [1, 2] (by decide)⟩

end Packet

end SpanningMesh
