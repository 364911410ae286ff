import SpanningMesh.Network.Outlets
import SpanningMesh.Proofs.Framing
import SpanningMesh.Proofs.Node.Chunks
import SpanningMesh.Proofs.Packet.Canonical

/-!
# What a neighbour accepts

The length of a body follows from the packet alone (`Packet.length_of_encode`).  Three bounds
are set on it, and in different places: a writer bounds each text and each row of subtrees by
the two bytes of its length, a frame bounds the body by its four bytes, and a reassembler
bounds the body by its limit.  Only the reader knows the last of them.

So a packet that can be written and framed need not be accepted at the other end.  With the
limit that is set unless another one is, a node accepts exactly the packets whose payload is
`Receivable`: their body comes in once, whatever the chunks are.  On any other packet the
reassembler refuses a chunk and the node closes the link (`Node.reception`).  A text that only
just fits the two bytes of its length is of that kind (`Packet.longest_text_refused`).
-/

namespace SpanningMesh

/-! ## How long a packet is -/

namespace Payload

/-- The number of bytes of a payload. -/
def size : Payload → Nat
  | treeRequest _ tree | treeReply _ tree => 4 + Tree.minTreeSize * tree.nodes.length
  | timeSync _ _ | timeDelay _ _ => 18
  | single _ text | broadcast _ text => 4 + (2 + text.utf8ByteSize)
  | meshId _ => 10
  | raw data => data.length

/-- Whether a body with this payload is within the limit of a reassembler with no other limit
set: at most 9360 nodes, 65522 bytes of text or 65528 bytes of an application. -/
def Receivable : Payload → Prop
  | treeRequest _ tree | treeReply _ tree => tree.nodes.length ≤ 9360
  | single _ text | broadcast _ text => text.utf8ByteSize ≤ 65522
  | raw data => data.length ≤ 65528
  | timeSync _ _ | timeDelay _ _ | meshId _ => True

/-- A payload takes as many bytes as its size tells. -/
theorem length_of_encode {payload : Payload} {bs : Bytes} (h : payload.encode = ⟨bs, none⟩) :
    bs.length = payload.size := by
  cases payload with
  | treeRequest | treeReply =>
      obtain ⟨front, behind, sender, written, rfl⟩ := Encoding.append_eq_iff.mp h
      rw [List.length_append, length_sender sender,
        Tree.length_of_spelled (Tree.spelled_of_written written), size]
  | single | broadcast =>
      obtain ⟨front, behind, sender, written, rfl⟩ := Encoding.append_eq_iff.mp h
      obtain ⟨-, rfl⟩ := Text.encode_eq_iff.mp written
      simp only [List.length_append, length_sender sender, Word.length_toBytes,
        Text.length_toBytes, size]
  | timeSync | timeDelay | meshId | raw =>
      cases h
      rfl

end Payload

namespace Packet

variable {p : Packet} {body : Bytes}

/-- The number of bytes of the body of a packet. -/
def size (p : Packet) : Nat := Header.size + p.payload.size

/-- A packet takes as many bytes as its size tells. -/
theorem length_of_encode (h : p.encode = .ok body) : body.length = p.size := by
  obtain ⟨front, behind, header, payload, rfl⟩ := encode_eq_ok_iff.mp h
  rw [List.length_append, Header.length_of_encode header, Payload.length_of_encode payload, size]

/-- A packet fits the limit exactly if its payload is receivable. -/
theorem size_le_defaultLimit_iff : p.size ≤ Frame.defaultLimit ↔ p.payload.Receivable := by
  obtain ⟨header, payload⟩ := p
  cases payload with
  | treeRequest | treeReply =>
      simp only [size, Payload.size, Payload.Receivable, Header.size, Frame.defaultLimit,
        Tree.minTreeSize]
      omega
  | single | broadcast | raw =>
      simp only [size, Payload.size, Payload.Receivable, Header.size, Frame.defaultLimit]
      omega
  | timeSync | timeDelay | meshId => exact iff_of_true (Nat.le_of_ble_eq_true rfl) trivial

end Packet

/-- A packet is framed exactly if it can be written and its length fits in four bytes. -/
theorem Frame.ofPacket_eq_ok_iff {p : Packet} {frame : Bytes} :
    ofPacket p = .ok frame ↔ ∃ body, p.encode = .ok body ∧ p.size < 4294967296 ∧
      frame = whole body := by
  cases written : p.encode with
  | error e => simp [ofPacket, written, bind, Except.bind]
  | ok body =>
      have framed : ofPacket p = ofBody body := by simp [ofPacket, written, bind, Except.bind]
      rw [framed, ofBody_eq_ok_iff, Packet.length_of_encode written]
      simp

/-! ## One frame in chunks -/

namespace Reassembler

variable {limit : Nat} {body : Bytes} {chunks : List Bytes}

/-- A body within the limit comes off once, and the reassembler is as before. -/
theorem feed_whole (fits : Frame.Fits limit body) (cut : chunks.flatten = Frame.whole body) :
    ∃ runs : List (List Bytes),
      (fresh limit).feed chunks = (runs.map .ok, fresh limit) ∧ runs.flatten = [body] := by
  have parsed : parse limit chunks.flatten = ⟨[body], [], none⟩ := by
    have one : ∀ b ∈ [body], Frame.Fits limit b := fun b hb => List.mem_singleton.mp hb ▸ fits
    rw [cut, ← List.append_nil (Frame.whole body)]
    exact parse_stream one
  obtain ⟨runs, r, fed, bodies, rest⟩ :=
    (aligned_fresh limit).feed (congrArg Parsed.oversized parsed)
  have kept := limit_feed (fresh limit) chunks
  rw [fed] at kept
  have emptied : r = fresh limit := by
    obtain ⟨_, buffer⟩ := r
    obtain rfl := kept
    obtain rfl := Array.toList_eq_nil_iff.mp (rest.trans (congrArg Parsed.rest parsed))
    rfl
  exact ⟨runs, emptied ▸ fed, bodies.trans (congrArg Parsed.bodies parsed)⟩

/-- One of the chunks is refused for a length, and no body comes off before it. -/
def Refuses (r : Reassembler) (chunks : List Bytes) (size : Nat) : Prop :=
  ∃ (before : List Bytes) (chunk : Bytes) (after : List Bytes) (runs : List (List Bytes))
    (r' : Reassembler), chunks = before ++ chunk :: after ∧
      r.feed before = (runs.map .ok, r') ∧ runs.flatten = [] ∧
      (r'.push chunk).1 = .error (.tooLarge size)

/-- At the frame of a body above the limit some chunk is refused. -/
theorem refuses_whole (framed : body.length < 4294967296) (above : limit < body.length)
    (cut : chunks.flatten = Frame.whole body) : (fresh limit).Refuses chunks body.length := by
  have parsed : parse limit chunks.flatten = ⟨[], chunks.flatten, some body.length⟩ := by
    have size := Frame.ofBytes_length framed
    have split : Splits limit (Frame.whole body) ⟨[], Frame.whole body,
        some (Word.ofBytes (Word.toBytes Frame.lengthSize body.length))⟩ :=
      .oversized (Word.length_toBytes _ _) (size.symm ▸ above)
    rw [cut, parse_eq_of_splits split, size]
  obtain ⟨before, chunk, after, runs, r, _, split, fed, first, refused, -⟩ :=
    (aligned_fresh limit).refuses (congrArg Parsed.oversized parsed)
  have first : runs.flatten <+: (parse limit chunks.flatten).bodies := first
  rw [parsed] at first
  exact ⟨before, chunk, after, runs, r, split, fed, List.prefix_nil.mp first,
    congrArg Prod.fst refused⟩

end Reassembler

/-! ## Chunks that arrive at a node -/

namespace Node

variable {σ α : Type} [Host σ] {n : Node σ α} {id : LinkId} {l : Link} {chunks : List Bytes}

/-- Give a node the chunks that arrive on a link. -/
def arriveAll (n : Node σ α) (id : LinkId) (chunks : List Bytes) : Node σ α :=
  chunks.foldl (fun n chunk => n.arrive id chunk) n

theorem arriveAll_of_none (h : n.link? id = none) (chunks : List Bytes) :
    n.arriveAll id chunks = n := by
  induction chunks with
  | nil => rfl
  | cons chunk chunks ih => rw [arriveAll, List.foldl_cons, arrive_of_none h, ← arriveAll, ih]

/-- Chunks that the reassembler of a link takes put their frames into its inbox. -/
theorem arriveAll_of_taken {runs : List (List Bytes)} {r : Reassembler}
    (h : n.link? id = some l) (fed : l.reassembler.feed chunks = (runs.map .ok, r)) :
    (n.arriveAll id chunks).link? id =
      some { l with reassembler := r, inbox := l.inbox ++ runs.flatten.map (·, n.time) } := by
  induction chunks generalizing n l runs with
  | nil =>
      obtain ⟨none, rfl⟩ := Prod.mk.inj fed
      obtain rfl := List.map_eq_nil_iff.mp none.symm
      simpa [arriveAll] using h
  | cons chunk chunks ih =>
      obtain ⟨results, rest⟩ := Prod.mk.inj fed
      obtain ⟨bodies, runs, rfl, first, others⟩ := List.map_eq_cons_iff.mp results.symm
      have pushed : l.reassembler.push chunk = (.ok bodies, (l.reassembler.push chunk).2) :=
        Prod.ext first.symm rfl
      have taken := (Link.receive_of_push pushed : l.receive chunk n.time = _)
      have found := ih (link?_arrive h taken) (Prod.ext others.symm rest)
      rw [time_arrive h taken] at found
      refine found.trans ?_
      simp

/-- At a chunk that the reassembler of a link refuses the link is closed, and stays so. -/
theorem arriveAll_of_refuses {size : Nat} (h : n.link? id = some l)
    (refuses : l.reassembler.Refuses chunks size) : (n.arriveAll id chunks).link? id = none := by
  obtain ⟨before, chunk, after, runs, r, rfl, fed, -, refused⟩ := refuses
  have found := arriveAll_of_taken h fed
  have closed := arrive_of_error found (Link.receive_of_error refused)
  have gone : ((n.arriveAll id before).arrive id chunk).link? id = none := by
    rw [closed]
    exact link?_close _ id
  have later : n.arriveAll id (before ++ chunk :: after) =
      ((n.arriveAll id before).arrive id chunk).arriveAll id after := by
    simp only [arriveAll, List.foldl_append, List.foldl_cons]
  rw [later, arriveAll_of_none gone, gone]

/-- Whether a packet that is sent comes in at the other end depends on its payload alone.  If
that is receivable, a new reassembler gives its body once whatever the chunks of its frame are,
and a link waits for more as before.  If it is not, the reassembler refuses some chunk before
anything came off, and the link is closed. -/
theorem reception {p : Packet} {frame : Bytes} (framed : Frame.ofPacket p = .ok frame) :
    ∃ body, p.encode = .ok body ∧ ∀ chunks : List Bytes, chunks.flatten = frame →
      (p.payload.Receivable →
        (∃ runs : List (List Bytes), (Reassembler.fresh Frame.defaultLimit).feed chunks =
          (runs.map .ok, .fresh Frame.defaultLimit) ∧ runs.flatten = [body]) ∧
        ∀ (n : Node σ α) (id : LinkId) (l : Link), n.link? id = some l →
          l.reassembler = .fresh Frame.defaultLimit →
            (n.arriveAll id chunks).link? id =
              some { l with inbox := l.inbox ++ [(body, n.time)] }) ∧
      (¬ p.payload.Receivable →
        (Reassembler.fresh Frame.defaultLimit).Refuses chunks p.size ∧
        ∀ (n : Node σ α) (id : LinkId) (l : Link), n.link? id = some l →
          l.reassembler = .fresh Frame.defaultLimit →
            (n.arriveAll id chunks).link? id = none) := by
  obtain ⟨body, written, short, rfl⟩ := Frame.ofPacket_eq_ok_iff.mp framed
  have length := Packet.length_of_encode written
  rw [← length] at short
  refine ⟨body, written, fun chunks cut => ⟨fun receivable => ?_, fun not_receivable => ?_⟩⟩
  · have within := Packet.size_le_defaultLimit_iff.mpr receivable
    rw [← length] at within
    obtain ⟨runs, fed, bodies⟩ := Reassembler.feed_whole ⟨short, within⟩ cut
    refine ⟨⟨runs, fed, bodies⟩, fun n id l h fresh => ?_⟩
    rw [← fresh] at fed
    rw [arriveAll_of_taken h fed, bodies]
    rfl
  · have above := Nat.lt_of_not_le (mt Packet.size_le_defaultLimit_iff.mp not_receivable)
    rw [← length] at above
    have refuses := Reassembler.refuses_whole short above cut
    rw [length] at refuses
    refine ⟨refuses, fun n id l h fresh => ?_⟩
    rw [← fresh] at refuses
    exact arriveAll_of_refuses h refuses

/-- A node with one new link. -/
def attached : Node (Outlets Unit) Empty :=
  (Node.addLink (.create 3 {} { application := () }) true).2

/-- The tree of a node that is alone, as a frame in two chunks. -/
def leafChunks : List Bytes :=
  [[19, 0, 0, 0, 6, 0, 0, 0, 3, 0, 0, 0, 5], [0, 0, 0, 5, 0, 0, 0, 1, 0, 0]]

theorem reception_leaf :
    Frame.ofPacket (.treeReply 5 3 ⟨5, true, []⟩) = .ok leafChunks.flatten ∧
      ∃ l body, attached.link? ⟨1⟩ = some l ∧
        (Packet.treeReply 5 3 ⟨5, true, []⟩).encode = .ok body ∧
        (attached.arriveAll ⟨1⟩ leafChunks).link? ⟨1⟩ =
          some { l with inbox := l.inbox ++ [(body, attached.time)] } := by
  have framed : Frame.ofPacket (.treeReply 5 3 ⟨5, true, []⟩) = .ok leafChunks.flatten := by rfl
  obtain ⟨body, written, received⟩ := @reception (Outlets Unit) Empty _ _ _ framed
  have receivable : (Packet.treeReply 5 3 ⟨5, true, []⟩).payload.Receivable := by
    show (Tree.nodes ⟨5, true, []⟩).length ≤ 9360
    decide
  obtain ⟨-, kept⟩ := (received leafChunks rfl).1 receivable
  obtain ⟨l, found, fresh⟩ : ∃ l, attached.link? ⟨1⟩ = some l ∧
      l.reassembler = .fresh Frame.defaultLimit := ⟨_, rfl, rfl⟩
  exact ⟨framed, l, body, found, written, kept attached ⟨1⟩ l found fresh⟩

end Node

/-! ## A text that is sent and not accepted -/

namespace Packet

/-- A text whose length can be written, but that leaves no room for what comes before it in a
body, has a frame that is refused. -/
theorem text_refused (sender dest : UInt32) {text : String} (short : text.utf8ByteSize ≤ 65535)
    (long : 65522 < text.utf8ByteSize) :
    ∃ frame, Frame.ofPacket (single sender dest text) = .ok frame ∧
      ∀ chunks : List Bytes, chunks.flatten = frame →
        (Reassembler.fresh Frame.defaultLimit).Refuses chunks (text.utf8ByteSize + 14) := by
  obtain ⟨body, written⟩ := (exists_encode_iff (p := single sender dest text)).mpr short
  have size : (single sender dest text).size = text.utf8ByteSize + 14 := by
    simp only [single, Packet.size, Payload.size, Header.size]
    omega
  have length := (length_of_encode written).trans size
  have framed : body.length < 4294967296 := by omega
  have above : Frame.defaultLimit < body.length := by
    simp only [Frame.defaultLimit]
    omega
  refine ⟨Frame.whole body, Frame.ofPacket_eq_ok_iff.mpr ⟨body, written, ?_, rfl⟩, ?_⟩
  · rw [← length_of_encode written]
    exact framed
  · intro chunks cut
    rw [← length]
    exact Reassembler.refuses_whole framed above cut

/-- A text of as many bytes as its length can count. -/
def longestText : String := String.ofList (List.replicate 65535 'x')

theorem size_longestText : longestText.utf8ByteSize = 65535 := by
  have counted : ∀ n, (String.ofList (List.replicate n 'x')).utf8ByteSize = n := by
    intro n
    induction n with
    | zero => rfl
    | succ n ih =>
        rw [List.replicate_succ', String.ofList_append, String.utf8ByteSize_append, ih]
        rfl
  exact counted 65535

/-- The longest text that can be written has a frame, and it is refused however it is cut. -/
theorem longest_text_refused :
    ∃ frame, Frame.ofPacket (single 1 2 longestText) = .ok frame ∧
      ∀ chunks : List Bytes, chunks.flatten = frame →
        (Reassembler.fresh Frame.defaultLimit).Refuses chunks 65549 := by
  have refused := text_refused 1 2 (Nat.le_of_eq size_longestText)
    (size_longestText.symm ▸ (by decide : 65522 < 65535))
  rw [size_longestText] at refused
  exact refused

end Packet

end SpanningMesh
