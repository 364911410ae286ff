import SpanningMesh.Frame
import SpanningMesh.Proofs.Codec.Reading
import SpanningMesh.Proofs.Tree.Spelling

/-!
# Packets that come back

`Packet.decode_eq_ok_iff` says which bytes read as which packet: the header in its one form,
and then the payload as it is spelled (`Payload.Spelled`), if it is one that the kind in the
header asks for (`Payload.OfKind`).  The one payload without an end of its own is a raw one,
which is the rest of the bytes; every other is recognised by the reader of its kind
(`Payload.recognises`).

What was written is a spelling, so a packet whose header fits its payload is read back
(`Packet.decode_of_encode`).  Whatever bytes arrive, what can be read as a packet shows the
header of the packet at its front (`Packet.peek_of_decode`).
-/

namespace SpanningMesh

open Read (Recognises Spelling Takes)

/-! ## Fields of packets -/

/-- A value that travels as its code is canonical if the code is and no other code is its. -/
theorem CanonicalField.of_code {α γ : Type} [Field α] [Field γ] [CanonicalField γ] (code : α → γ)
    (ofCode : γ → Except CodecError α) (encode : ∀ v : α, Field.encode v = Field.encode (code v))
    (decode : Field.decode = Field.decode >>= fun c => Read.ofExcept (ofCode c))
    (ofCode_iff : ∀ {c v}, ofCode c = .ok v ↔ code v = c) : CanonicalField α where
  recognises := by
    rw [decode]
    refine ((recognises (α := γ)).bind fun c => .ofExcept (ofCode c)).congr fun bs v => ?_
    rw [encode]
    constructor
    · rintro ⟨c, as, _, written, ⟨rfl, known⟩, rfl⟩
      rw [ofCode_iff.mp known, written, List.append_nil]
    · exact fun written => ⟨_, bs, [], written, ⟨rfl, ofCode_iff.mpr rfl⟩, (bs.append_nil).symm⟩

/-- A code stands for the delivery that has it. -/
theorem Delivery.ofCode_eq_ok_iff {c : UInt16} {d : Delivery} : ofCode c = .ok d ↔ d.code = c := by
  constructor
  · intro known
    simp only [ofCode, ofCode?] at known
    split at known
    next known' =>
      split at known' <;> cases known' <;> cases known <;> rfl
    next => cases known
  · rintro rfl
    exact ofCode_code d

/-- A code stands for the stage that has it. -/
theorem Stage.ofCode_eq_ok_iff {c : Int16} {s : Stage} : ofCode c = .ok s ↔ s.code = c := by
  constructor
  · intro known
    simp only [ofCode] at known
    repeat'
      first
      | split at known
      | cases known
    all_goals
      subst_vars
      rfl
  · rintro rfl
    exact ofCode_code s

instance : CanonicalField Delivery :=
  .of_code Delivery.code Delivery.ofCode (fun _ => rfl) rfl Delivery.ofCode_eq_ok_iff

instance : CanonicalField Stage :=
  .of_code Stage.code Stage.ofCode (fun _ => rfl) rfl Stage.ofCode_eq_ok_iff

open CanonicalField (recognises)

instance : CanonicalField Header where
  recognises :=
    .record (.field Header.kind fun kind => .field Header.delivery fun delivery =>
      .field Header.dest fun dest => .built ⟨kind, delivery, dest⟩ fun h => by
        cases h; simp [eq_comm, and_assoc])
      fun h => by simp [Field.encode, Encoding.append_assoc]

instance : CanonicalField TimeExchange where
  recognises :=
    .record (.field TimeExchange.stage fun stage => .field TimeExchange.t0 fun t0 =>
      .field TimeExchange.t1 fun t1 => .field TimeExchange.t2 fun t2 =>
        .built ⟨stage, t0, t1, t2⟩ fun x => by cases x; simp [eq_comm, and_assoc])
      fun x => by simp [Field.encode, Encoding.append_assoc]

instance : CanonicalField Announcement where
  recognises :=
    .record (.field Announcement.id fun id => .field Announcement.sender fun sender =>
      .field Announcement.weight fun weight => .built ⟨id, sender, weight⟩ fun a => by
        cases a; simp [eq_comm, and_assoc])
      fun a => by simp [Field.encode, Encoding.append_assoc]

/-! ## Payloads -/

/-- The kinds whose payloads have a form of their own. -/
def Kind.typed : List UInt16 :=
  [meshId, timeDelay, timeSync, treeRequest, treeReply, broadcast, single]

namespace Payload

/-- Whether a payload is one that a packet of some kind carries: the payload of that kind, and
a tree only from the node at its top. -/
def OfKind (kind : UInt16) : Payload → Prop
  | treeRequest sender tree => kind = Kind.treeRequest ∧ tree.id = sender
  | treeReply sender tree => kind = Kind.treeReply ∧ tree.id = sender
  | timeSync _ _ => kind = Kind.timeSync
  | timeDelay _ _ => kind = Kind.timeDelay
  | single _ _ => kind = Kind.single
  | broadcast _ _ => kind = Kind.broadcast
  | meshId _ => kind = Kind.meshId
  | raw _ => kind ∉ Kind.typed

instance (kind : UInt16) : DecidablePred (OfKind kind)
  | treeRequest _ _ | treeReply _ _ => inferInstanceAs (Decidable (_ ∧ _))
  | timeSync _ _ | timeDelay _ _ | single _ _ | broadcast _ _ | meshId _ =>
      inferInstanceAs (Decidable (_ = _))
  | raw _ => inferInstanceAs (Decidable (_ ∉ _))

/-- Which bytes read as a payload.  Only the trees have more than one spelling. -/
def Spelled (bs : Bytes) : Payload → Prop
  | treeRequest sender tree | treeReply sender tree =>
      ∃ front behind, Field.encode sender = ⟨front, none⟩ ∧
        Tree.Spelled maxTreeDepth behind tree ∧ bs = front ++ behind
  | payload => payload.encode = ⟨bs, none⟩

/-- What was written for a payload is a spelling of it. -/
theorem spelled_of_encode {payload : Payload} {bs : Bytes} (h : payload.encode = ⟨bs, none⟩) :
    payload.Spelled bs := by
  cases payload with
  | treeRequest | treeReply =>
      obtain ⟨front, behind, sender, tree, rfl⟩ := Encoding.append_eq_iff.mp h
      exact ⟨front, behind, sender, Tree.spelled_of_written tree, rfl⟩
  | timeSync | timeDelay | single | broadcast | meshId | raw => exact h

/-- A tree is read behind its sender, and its top is the sender. -/
theorem recognises_tree : Recognises decodeTree fun bs read =>
    read.2.id = read.1 ∧ ∃ front behind, Field.encode read.1 = ⟨front, none⟩ ∧
      Tree.Spelled maxTreeDepth behind read.2 ∧ bs = front ++ behind := by
  refine ((recognises (α := UInt32)).bind fun sender => (Tree.recognises maxTreeDepth).bind
    fun tree => .check (sender, tree) (.malformed (.senderMismatch sender tree.id))).congr
    fun bs read => ?_
  constructor
  · rintro ⟨_, front, _, sender, ⟨_, behind, _, tree, ⟨rfl, top, rfl⟩, rfl⟩, rfl⟩
    exact ⟨top, front, behind, sender, tree, by rw [List.append_nil]⟩
  · rintro ⟨top, front, behind, sender, tree, rfl⟩
    exact ⟨_, front, behind, sender, ⟨_, behind, [], tree, ⟨rfl, top, rfl⟩, by simp⟩, rfl⟩

theorem recognises_times : Recognises decodeTimes fun bs read =>
    Field.encode read.1 ++ Field.encode read.2 = ⟨bs, none⟩ :=
  .record (.field Prod.fst fun sender => .field Prod.snd fun times =>
    .built (sender, times) fun read => by simp [Prod.ext_iff, eq_comm]) fun read => by simp

theorem recognises_text : Recognises decodeText fun bs read =>
    Field.encode read.1 ++ Field.encode read.2 = ⟨bs, none⟩ :=
  .record (.field Prod.fst fun sender => .field Prod.snd fun text =>
    .built (sender, text) fun read => by simp [Prod.ext_iff, eq_comm]) fun read => by simp

/-- The reader of a kind with a form of its own recognises the payloads of that kind. -/
theorem recognises {kind : UInt16} (h : kind ∈ Kind.typed) :
    Recognises (decode kind) fun bs payload => payload.OfKind kind ∧ payload.Spelled bs where
  takes {bs payload} spelled := by
    obtain ⟨ofKind, spelled⟩ := spelled
    cases payload with
    | treeRequest sender tree =>
        obtain ⟨rfl, top⟩ := ofKind
        exact (recognises_tree.map fun read => treeRequest read.1 read.2).takes
          ⟨(sender, tree), ⟨top, spelled⟩, rfl⟩
    | treeReply sender tree =>
        obtain ⟨rfl, top⟩ := ofKind
        exact (recognises_tree.map fun read => treeReply read.1 read.2).takes
          ⟨(sender, tree), ⟨top, spelled⟩, rfl⟩
    | timeSync sender times =>
        obtain rfl := ofKind
        exact (recognises_times.map fun read => timeSync read.1 read.2).takes
          ⟨(sender, times), spelled, rfl⟩
    | timeDelay sender times =>
        obtain rfl := ofKind
        exact (recognises_times.map fun read => timeDelay read.1 read.2).takes
          ⟨(sender, times), spelled, rfl⟩
    | single sender text =>
        obtain rfl := ofKind
        exact (recognises_text.map fun read => single read.1 read.2).takes
          ⟨(sender, text), spelled, rfl⟩
    | broadcast sender text =>
        obtain rfl := ofKind
        exact (recognises_text.map fun read => broadcast read.1 read.2).takes
          ⟨(sender, text), spelled, rfl⟩
    | meshId a =>
        obtain rfl := ofKind
        exact (CanonicalField.recognises.map meshId).takes ⟨a, spelled, rfl⟩
    | raw data => exact absurd h ofKind
  spelled {c payload c'} read := by
    simp only [Kind.typed, List.mem_cons, List.not_mem_nil, or_false] at h
    rcases h with rfl | rfl | rfl | rfl | rfl | rfl | rfl
    · obtain ⟨bs, ⟨a, spelled, rfl⟩, rest⟩ :=
        ((CanonicalField.recognises (α := Announcement)).map meshId).spelled read
      exact ⟨bs, ⟨rfl, spelled⟩, rest⟩
    · obtain ⟨bs, ⟨_, spelled, rfl⟩, rest⟩ :=
        (recognises_times.map fun read => timeDelay read.1 read.2).spelled read
      exact ⟨bs, ⟨rfl, spelled⟩, rest⟩
    · obtain ⟨bs, ⟨_, spelled, rfl⟩, rest⟩ :=
        (recognises_times.map fun read => timeSync read.1 read.2).spelled read
      exact ⟨bs, ⟨rfl, spelled⟩, rest⟩
    · obtain ⟨bs, ⟨_, ⟨top, spelled⟩, rfl⟩, rest⟩ :=
        (recognises_tree.map fun read => treeRequest read.1 read.2).spelled read
      exact ⟨bs, ⟨⟨rfl, top⟩, spelled⟩, rest⟩
    · obtain ⟨bs, ⟨_, ⟨top, spelled⟩, rfl⟩, rest⟩ :=
        (recognises_tree.map fun read => treeReply read.1 read.2).spelled read
      exact ⟨bs, ⟨⟨rfl, top⟩, spelled⟩, rest⟩
    · obtain ⟨bs, ⟨_, spelled, rfl⟩, rest⟩ :=
        (recognises_text.map fun read => broadcast read.1 read.2).spelled read
      exact ⟨bs, ⟨rfl, spelled⟩, rest⟩
    · obtain ⟨bs, ⟨_, spelled, rfl⟩, rest⟩ :=
        (recognises_text.map fun read => single read.1 read.2).spelled read
      exact ⟨bs, ⟨rfl, spelled⟩, rest⟩

/-- A payload of any other kind is all that follows the header. -/
theorem decode_untyped {kind : UInt16} (h : kind ∉ Kind.typed) (c : Cursor) :
    decode kind c = (.ok (raw c.rest), ⟨c.offset + c.rest.length, []⟩) := by
  simp only [Kind.typed, List.mem_cons, List.not_mem_nil, or_false, not_or] at h
  obtain ⟨h₁, h₃, h₄, h₅, h₆, h₈, h₉⟩ := h
  simp only [decode, h₁, h₃, h₄, h₅, h₆, h₈, h₉, if_false]
  rfl

/-- A payload is read up to the end exactly when all bytes that are left spell it. -/
theorem exists_decode_iff {kind : UInt16} {c : Cursor} {payload : Payload} :
    (∃ c', decode kind c = (.ok payload, c') ∧ c'.rest = []) ↔
      payload.OfKind kind ∧ payload.Spelled c.rest := by
  by_cases h : kind ∈ Kind.typed
  · constructor
    · rintro ⟨c', read, done⟩
      obtain ⟨bs, spelled, rest⟩ := (recognises h).spelled read
      rw [done, List.append_nil] at rest
      rwa [rest]
    · intro spelled
      have read := ((recognises h).takes spelled).reads c.offset []
      rw [List.append_nil] at read
      exact ⟨_, read, rfl⟩
  · rw [decode_untyped h]
    constructor
    · rintro ⟨_, read, -⟩
      cases read
      exact ⟨h, rfl⟩
    · rintro ⟨ofKind, spelled⟩
      cases payload with
      | raw data =>
          obtain rfl : data = c.rest := congrArg Encoding.bytes spelled
          exact ⟨_, rfl, rfl⟩
      | treeRequest | treeReply =>
          obtain ⟨rfl, -⟩ := ofKind
          exact absurd (by decide) h
      | timeSync | timeDelay | single | broadcast | meshId =>
          obtain rfl := ofKind
          exact absurd (by decide) h

end Payload

namespace Packet

variable {p : Packet} {body : Bytes}

/-! ## Whole packets -/

/-- The header names the kind that goes with the payload, and a tree has its sender at the
top. -/
def Matches (p : Packet) : Prop := p.payload.OfKind p.header.kind

instance : DecidablePred Matches := fun p => inferInstanceAs (Decidable (p.payload.OfKind _))

theorem matches_treeRequest {sender dest : UInt32} {tree : Tree} (top : tree.id = sender) :
    (treeRequest sender dest tree).Matches := ⟨rfl, top⟩

theorem matches_treeReply {sender dest : UInt32} {tree : Tree} (top : tree.id = sender) :
    (treeReply sender dest tree).Matches := ⟨rfl, top⟩

theorem matches_meshId {a : Announcement} : (meshId a).Matches := rfl

/-- Which bytes read as a packet, if its header and payload match. -/
def Spelled (body : Bytes) (p : Packet) : Prop :=
  ∃ front behind, Field.encode p.header = ⟨front, none⟩ ∧ p.payload.Spelled behind ∧
    body = front ++ behind

/-- What is read is exactly what is spelled, of packets whose header and payload match. -/
theorem decode_eq_ok_iff : decode body = .ok p ↔ p.Matches ∧ p.Spelled body := by
  constructor
  · intro h
    obtain ⟨c', h⟩ := Read.run_eq_ok.mp h
    obtain ⟨header, c₁, first, h⟩ := Read.bind_eq_ok.mp h
    obtain ⟨payload, c₂, second, h⟩ := Read.bind_eq_ok.mp h
    obtain ⟨_, c₃, last, h⟩ := Read.bind_eq_ok.mp h
    cases h
    obtain ⟨front, written, rest⟩ := CanonicalField.recognises.spelled first
    have done : c₂.rest = [] := by
      simp only [Read.finish] at last
      split at last
      next ended => exact List.isEmpty_iff.mp ended
      next => cases last
    obtain ⟨ofKind, spelled⟩ := Payload.exists_decode_iff.mp ⟨c₂, second, done⟩
    exact ⟨ofKind, front, c₁.rest, written, spelled, rest⟩
  · rintro ⟨ofKind, front, behind, written, spelled, rfl⟩
    have first := (CanonicalField.recognises.takes written).reads 0 behind
    obtain ⟨⟨offset, rest⟩, second, rfl⟩ :=
      Payload.exists_decode_iff (c := ⟨0 + front.length, behind⟩).mpr ⟨ofKind, spelled⟩
    exact Read.run_eq_ok.mpr
      ⟨_, Read.bind_eq_ok.mpr ⟨_, _, first, Read.bind_eq_ok.mpr ⟨_, _, second, rfl⟩⟩⟩

/-- A packet is written as its header and its payload. -/
theorem encode_eq_ok_iff : p.encode = .ok body ↔
    ∃ front behind, Field.encode p.header = ⟨front, none⟩ ∧ p.payload.encode = ⟨behind, none⟩ ∧
      body = front ++ behind :=
  Encoding.result_eq_ok_iff.trans Encoding.append_eq_iff

/-- A packet that was written is read back if its header and payload match. -/
theorem decode_of_encode (fit : p.Matches) (h : p.encode = .ok body) : decode body = .ok p := by
  obtain ⟨front, behind, header, written, rfl⟩ := encode_eq_ok_iff.mp h
  exact decode_eq_ok_iff.mpr
    ⟨fit, front, behind, header, Payload.spelled_of_encode written, rfl⟩

/-- A packet that can be read shows its header. -/
theorem peek_of_decode (h : decode body = .ok p) : Header.peek body = .ok p.header := by
  obtain ⟨-, front, behind, header, -, rfl⟩ := decode_eq_ok_iff.mp h
  exact (CanonicalField.recognises.takes header).run behind

/-- A tree that is read has its sender at the top. -/
theorem id_of_decode_tree {sender : UInt32} {tree : Tree} (h : decode body = .ok p)
    (carries : p.payload = .treeRequest sender tree ∨ p.payload = .treeReply sender tree) :
    tree.id = sender := by
  have fit := (decode_eq_ok_iff.mp h).1
  rw [Matches] at fit
  rcases carries with carries | carries <;>
    · rw [carries] at fit
      exact fit.2

end Packet

/-! ## Frames -/

/-- A packet as a frame is its bytes behind their length. -/
theorem Frame.ofPacket_eq_ok {p : Packet} {f : Bytes} (h : ofPacket p = .ok f) :
    p.encode = .ok (f.drop lengthSize) := by
  simp only [ofPacket] at h
  cases hp : p.encode with
  | error e => simp [hp, bind, Except.bind] at h
  | ok body =>
      simp only [hp, bind, Except.bind, ofBody] at h
      split at h
      · cases h
        rw [List.drop_left' (Word.length_toBytes _ _)]
      · cases h

end SpanningMesh
