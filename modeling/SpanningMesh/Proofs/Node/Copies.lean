import SpanningMesh.Proofs.Node.History

/-!
# Copies of a packet at a node

A packet travels as a number of copies, frames with the same body.  How many *copies*
wait on each link says where it goes next, and the *bearings* of a node say where it
sends them: its view of the mesh and the phases of its links.

A frame that arrives is passed on through some links (`Node.onward`), and it may be handled after
that (`Node.takesIn`, `Node.routeFrame_eq`).  Unless a queue refuses it or a handler sends it again,
exactly one copy comes to wait on each of these links (`Node.copies_routeFrame`), and as long as no
handler changes the links they stay as they are (`Node.bearings_routeFrame`).  The same goes for a
packet that the node sends itself.
-/

namespace SpanningMesh

open Application (Program)

/-! ## Frames with the same body -/

/-- A frame has the given bytes behind its length. -/
def Frame.carries (body frame : Bytes) : Bool := frame.drop Frame.lengthSize == body

theorem Frame.carries_iff {body frame : Bytes} :
    Frame.carries body frame = true ↔ frame.drop Frame.lengthSize = body :=
  beq_iff_eq

theorem Frame.carries_ofBody {body frame : Bytes} (h : Frame.ofBody body = .ok frame) :
    Frame.carries body frame = true := by
  simp only [ofBody] at h
  split at h
  · cases h
    rw [carries_iff, List.drop_left' (Word.length_toBytes _ _)]
  · cases h

/-- A packet that was written shows its header. -/
theorem Packet.peek_of_encode {p : Packet} {body : Bytes} (h : p.encode = .ok body) :
    Header.peek body = .ok p.header := by
  obtain ⟨front, behind, written, -, rfl⟩ := encode_eq_ok_iff.mp h
  exact (CanonicalField.recognises.takes written).run behind

/-- A packet that was written goes out with the bytes that were written. -/
theorem Frame.ofPacket_of_encode {p : Packet} {body : Bytes} (h : p.encode = .ok body) :
    Frame.ofPacket p = Frame.ofBody body := by
  simp only [ofPacket, h, bind, Except.bind]

/-- How many frames with the given body wait. -/
def Outbox.copies (body : Bytes) (q : Outbox) : Nat := q.frames.countP (Frame.carries body)

namespace Link

variable {body frame : Bytes} {l l' : Link}

/-- A copy that is queued waits in addition to the others. -/
theorem copies_enqueue {priority : Bool} {headroom : Nat} (hf : Frame.carries body frame = true)
    (h : l.enqueue frame priority headroom = .ok l') :
    l'.outbox.copies body = l.outbox.copies body + 1 := by
  simp only [enqueue] at h
  split at h
  next => cases h
  next =>
    split at h
    next q hq =>
      cases h
      simp only [Outbox.enqueue] at hq
      split at hq
      next => cases hq
      next =>
        split at hq
        next =>
          cases hq
          simp only [Outbox.copies, Outbox.frames, List.countP_append, List.countP_singleton, hf]
          simp only [if_true]
          omega
        next =>
          split at hq
          next => cases hq
          next =>
            cases hq
            simp only [Outbox.copies, Outbox.frames, List.countP_append, List.countP_singleton, hf]
            simp only [if_true]
            omega
    next => cases h

theorem id_enqueue {priority : Bool} {headroom : Nat}
    (h : l.enqueue frame priority headroom = .ok l') : l'.id = l.id := by
  obtain ⟨es, rs, -, rfl⟩ := feeds_of_enqueue h
  rfl

end Link

namespace Node

variable {σ α : Type} {n m : Node σ α} {id k : LinkId} {l l' : Link} {body frame : Bytes}
  {h : Header}

/-! ## Where packets go -/

/-- What of a node decides where packets go. -/
def bearings (n : Node σ α) : View LinkId × List Phase := (n.view, n.links.map Link.phase)

theorem view_of_bearings (same : n.bearings = m.bearings) : n.view = m.view :=
  congrArg Prod.fst same

theorem id_of_bearings (same : n.bearings = m.bearings) : n.id = m.id :=
  congrArg (fun b => b.1.node) same

theorem linkIds_eq (n : Node σ α) : n.linkIds = n.view.branches.map Branch.link := by
  simp [linkIds, view, Function.comp_def]

theorem linkIds_of_bearings (same : n.bearings = m.bearings) : n.linkIds = m.linkIds := by
  rw [linkIds_eq, linkIds_eq, view_of_bearings same]

/-- All links of a node have accepted a tree. -/
def AllSynced (n : Node σ α) : Prop := ∀ l ∈ n.links, l.phase = .synced

theorem AllSynced.of_bearings (all : n.AllSynced) (same : m.bearings = n.bearings) :
    m.AllSynced := by
  have phases : m.links.map Link.phase = n.links.map Link.phase := congrArg Prod.snd same
  intro l hl
  obtain ⟨l', hl', eq⟩ := List.mem_map.mp (phases ▸ List.mem_map_of_mem (f := Link.phase) hl)
  exact eq ▸ all l' hl'

/-- A route leads through a link that has the destination behind it. -/
theorem exists_link_of_routeTo {dest : UInt32} (h : n.view.routeTo dest = some k) :
    ∃ l ∈ n.links, l.id = k ∧ dest ∈ l.subtree.ids := by
  simp only [View.routeTo] at h
  split at h
  next => cases h
  next known =>
    obtain ⟨branch, found, rfl⟩ := Option.map_eq_some_iff.mp h
    obtain ⟨l, hl, rfl⟩ := List.mem_map.mp (List.mem_of_find?_eq_some found)
    have holds : l.subtree.contains dest = true := by simpa using List.find?_some found
    exact ⟨l, hl, rfl, (Tree.contains_iff_mem_ids known).mp holds⟩

/-- The links that a frame which arrived on a link is passed on through. -/
def onward (n : Node σ α) (id : LinkId) (h : Header) : List LinkId :=
  match Decision.make n.id h n.view.routeTo with
  | .forward next => [next]
  | .flood => n.fanOut h.delivery (some id)
  | .handle | .drop _ => []

theorem takesIn_broadcast (broadcast : h.delivery = .broadcast) : n.takesIn h = true := by
  simp only [takesIn, Decision.make, broadcast]

/-- A broadcast goes on through all other links. -/
theorem onward_broadcast (broadcast : h.delivery = .broadcast) :
    n.onward id h = n.fanOut .broadcast (some id) := by
  simp only [onward, Decision.make, broadcast]

/-- A packet for one node is handled there alone. -/
theorem takesIn_single (single : h.delivery = .single) :
    n.takesIn h = true ↔ h.dest = n.id := by
  simp only [takesIn, Decision.make, single]
  by_cases dest : h.dest = n.id
  · simp [dest]
  · cases n.view.routeTo h.dest <;> simp [dest]

/-- A packet for one node goes on along the route to it. -/
theorem onward_single (single : h.delivery = .single) :
    n.onward id h = if h.dest = n.id then [] else (n.view.routeTo h.dest).toList := by
  simp only [onward, Decision.make, single]
  by_cases dest : h.dest = n.id
  · simp [dest]
  · cases n.view.routeTo h.dest <;> simp [dest]

/-- A broadcast packet goes through every link but the one that is left out. -/
theorem count_fanOut (hn : n.linkIds.Nodup) (synced : n.AllSynced) (except : Option LinkId)
    (hk : k ∈ n.linkIds) :
    (n.fanOut .broadcast except).count k = if some k = except then 0 else 1 := by
  have nodup : (n.fanOut .broadcast except).Nodup := hn.sublist (List.filter_sublist.map _)
  have mem : k ∈ n.fanOut .broadcast except ↔ some k ≠ except := by
    obtain ⟨l, hl, rfl⟩ := List.mem_map.mp hk
    simp only [fanOut, List.mem_map, List.mem_filter, decide_eq_true_eq]
    constructor
    · rintro ⟨l', ⟨-, ne, -⟩, same⟩
      exact same ▸ ne
    · exact fun ne => ⟨l, ⟨hl, ne, fun _ => synced l hl⟩, rfl⟩
  rw [nodup.count]
  by_cases hk : some k = except
  · rw [if_neg fun h => mem.mp h hk, if_pos hk]
  · rw [if_pos (mem.mpr hk), if_neg hk]

/-- The bearings of a node do not depend on what waits to be sent. -/
theorem Feeds.bearings {P : LinkId → Bytes → Prop} (fed : Feeds P n m) :
    m.bearings = n.bearings := by
  obtain ⟨es, rs, -, links⟩ := fed.links
  rw [Node.bearings, Node.bearings, fed.view_eq, links, List.map_map]
  rfl

/-! ## Copies that wait -/

/-- How many copies wait on a link. -/
def copies (body : Bytes) (n : Node σ α) (id : LinkId) : Nat :=
  ((n.link? id).map fun l => l.outbox.copies body).getD 0

theorem link?_putLink (n : Node σ α) (l : Link) (k : LinkId) :
    (n.putLink l).link? k = (n.link? k).map fun k => if k.id = l.id then l else k := by
  have same : (fun x : Link => decide (x.id = k)) ∘ (fun x => if x.id = l.id then l else x) =
      fun x => decide (x.id = k) := by
    funext x
    by_cases hx : x.id = l.id
    · simp [hx]
    · simp [hx]
  rw [link?, putLink, List.find?_map, same]
  rfl

theorem link?_putLink_of_ne {k : LinkId} (other : k ≠ l.id) :
    (n.putLink l).link? k = n.link? k := by
  rw [link?_putLink]
  cases found : n.link? k with
  | none => rfl
  | some x => rw [Option.map_some, if_neg (id_of_link? found ▸ other)]

theorem copies_putLink (hl : n.link? id = some l) (hid : l'.id = l.id) :
    (n.putLink l').copies body k = if k = id then l'.outbox.copies body else n.copies body k := by
  have at_id := id_of_link? hl
  split
  next hk =>
    subst hk
    simp [copies, link?_putLink, hl, hid]
  next hk =>
    rw [copies, link?_putLink_of_ne (hid.trans at_id ▸ hk), copies]

/-- A node is who it was, and its links are as they were. -/
structure Unmoved (n m : Node σ α) : Prop where
  id : m.id = n.id
  root : m.root = n.root
  links : m.links = n.links

theorem Unmoved.bearings (kept : Unmoved n m) : m.bearings = n.bearings := by
  simp only [Node.bearings, view, kept.id, kept.root, kept.links]

theorem Unmoved.copies (kept : Unmoved n m) (k : LinkId) : m.copies body k = n.copies body k := by
  simp only [Node.copies, link?, kept.links]

/-- Without an application no one does anything about an event. -/
theorem Unmoved.tell (kept : Unmoved n m) (e : Event) : Unmoved n (m.tell (.idle σ α) e) :=
  HandlerTable.dispatch_keeps (P := Unmoved n)
    (fun _ _ kept => ⟨kept.id, kept.root, kept.links⟩) (fun _ _ _ kept => kept) kept

variable [Host σ]

theorem copies_queueFrame {priority : Bool} (hf : Frame.carries body frame = true)
    (queued : n.queueFrame id frame priority = (.ok (), m)) :
    m.copies body k = n.copies body k + [id].count k := by
  simp only [queueFrame] at queued
  split at queued
  next => cases queued
  next l hl =>
    split at queued
    next => cases queued
    next l' hq =>
      cases queued
      have planned : ∀ (m : Node σ α) f, (m.plan f).copies body k = m.copies body k :=
        fun _ _ => rfl
      rw [planned, copies_putLink hl (Link.id_enqueue hq), Link.copies_enqueue hf hq]
      by_cases hk : k = id
      · subst hk
        simp [copies, hl]
      · simp [hk, Ne.symm hk]

/-! A frame is queued on several links one after the other. -/

section

variable {ids : List LinkId} {priority : Bool}

theorem queueOnAll_cons_ok (queued : n.queueFrame id frame priority = (.ok (), m)) :
    n.queueOnAll (id :: ids) frame priority =
      ((m.queueOnAll ids frame priority).1 + 1, (m.queueOnAll ids frame priority).2) := by
  unfold queueOnAll
  rw [List.foldl_cons]
  simp only [queued]
  -- A count that starts one higher ends one higher.
  refine @List.foldl_hom _ _ _ (fun r : Nat × Node σ α => (r.1 + 1, r.2)) _ _ ids (0, m)
    fun r id => ?_
  cases r.2.queueFrame id frame priority with
  | mk result m => cases result with
    | ok u => rfl
    | error e => rfl

theorem queueOnAll_cons_error {e : LinkError}
    (refused : n.queueFrame id frame priority = (.error e, m)) :
    n.queueOnAll (id :: ids) frame priority = m.queueOnAll ids frame priority := by
  unfold queueOnAll
  rw [List.foldl_cons]
  simp only [refused]

/-- A frame is queued at most once for each link. -/
theorem queueOnAll_le (n : Node σ α) (ids : List LinkId) (frame : Bytes) (priority : Bool) :
    (n.queueOnAll ids frame priority).1 ≤ ids.length := by
  induction ids generalizing n with
  | nil => exact Nat.le_refl 0
  | cons id ids ih =>
      cases hq : n.queueFrame id frame priority with
      | mk result m =>
          cases result with
          | ok u =>
              rw [queueOnAll_cons_ok hq]
              exact Nat.succ_le_succ (ih m)
          | error e =>
              rw [queueOnAll_cons_error hq]
              exact Nat.le_succ_of_le (ih m)

/-- If no queue refuses a frame, a copy comes to wait on each of the links. -/
theorem copies_queueOnAll (hf : Frame.carries body frame = true)
    (all : (n.queueOnAll ids frame priority).1 = ids.length) :
    (n.queueOnAll ids frame priority).2.copies body k = n.copies body k + ids.count k := by
  induction ids generalizing n with
  | nil => rfl
  | cons id ids ih =>
      cases hq : n.queueFrame id frame priority with
      | mk result m =>
          cases result with
          | ok u =>
              rw [queueOnAll_cons_ok hq] at all ⊢
              have rest := ih (Nat.succ_inj.mp all)
              rw [rest, copies_queueFrame hf hq, Nat.add_assoc, ← List.count_append,
                List.singleton_append]
          | error e =>
              rw [queueOnAll_cons_error hq] at all
              have le := queueOnAll_le m ids frame priority
              rw [all, List.length_cons] at le
              exact absurd le (Nat.not_succ_le_self _)

end

/-- If no queue refuses a packet for all neighbours, a copy comes to wait on each link that it
goes through. -/
theorem copies_sendToAll {packet : Packet} {except : Option LinkId} {priority : Bool}
    (written : packet.encode = .ok body)
    (all : (n.sendToAll packet except priority).1 =
      .ok (n.fanOut packet.header.delivery except).length) :
    (n.sendToAll packet except priority).2.copies body k =
      n.copies body k + (n.fanOut packet.header.delivery except).count k := by
  simp only [sendToAll, Frame.ofPacket_of_encode written] at all ⊢
  cases framed : Frame.ofBody body with
  | error e => simp [framed] at all
  | ok frame =>
      simp only [framed] at all ⊢
      exact copies_queueOnAll (Frame.carries_ofBody framed) (Except.ok.inj all)

/-- A packet for one node that is queued adds a copy on the link that leads there. -/
theorem copies_sendPacket {packet : Packet} {priority : Bool} {count : Nat}
    (written : packet.encode = .ok body) (single : packet.header.delivery = .single)
    (route : n.view.routeTo packet.header.dest = some id)
    (sent : (n.sendPacket packet priority).1 = .ok count) :
    (n.sendPacket packet priority).2.copies body k = n.copies body k + [id].count k := by
  have exit : Exit.choose packet.header n.view.routeTo = .link id := by
    simp only [Exit.choose, single, route]
  simp only [sendPacket, exit, sendTo, Frame.ofPacket_of_encode written] at sent ⊢
  cases framed : Frame.ofBody body with
  | error e => simp [framed] at sent
  | ok frame =>
      simp only [framed] at sent ⊢
      cases hq : n.queueFrame id frame priority with
      | mk result m =>
          simp only [hq] at sent ⊢
          cases result with
          | ok u => exact copies_queueFrame (Frame.carries_ofBody framed) hq
          | error e => cases sent

/-! ## What a node does with a copy -/

omit [Host σ] in
/-- The node with a frame counted that arrived. -/
def counted (n : Node σ α) (h : Header) : Node σ α :=
  { n with tally := n.tally.record (Decision.make n.id h n.view.routeTo) }

/-- Pass a frame on, without handling it. -/
def passOn (n : Node σ α) (id : LinkId) (body : Bytes) (h : Header) : Node σ α :=
  (n.counted h).forwardFrame (n.onward id h) body

/-- No queue refuses a frame that is passed on. -/
def PassesOn (n : Node σ α) (id : LinkId) (body : Bytes) (h : Header) : Prop :=
  (Frame.ofBody body).map (fun frame => ((n.counted h).queueOnAll (n.onward id h) frame false).1) =
    .ok (n.onward id h).length

instance (n : Node σ α) (id : LinkId) (body : Bytes) (h : Header) :
    Decidable (n.PassesOn id body h) :=
  inferInstanceAs (Decidable (_ = _))

/-- What handles a frame leaves the links as they are and does not send the packet again. -/
structure Quiet (p : Program σ α) (n : Node σ α) (id : LinkId) (body : Bytes)
    (arrival : UInt32) : Prop where
  bearings : (n.handleFrame p id body arrival).bearings = n.bearings
  copies : ∀ k, (n.handleFrame p id body arrival).copies body k = n.copies body k

theorem forwardFrame_nil (n : Node σ α) (body : Bytes) : n.forwardFrame [] body = n := by
  simp only [forwardFrame]
  split <;> rfl

/-- A frame that arrives is passed on, and it may be handled after that. -/
theorem routeFrame_eq (p : Program σ α) (seen : Header.peek body = .ok h) (arrival : UInt32)
    (n : Node σ α) :
    n.routeFrame p id body arrival =
      if n.takesIn h then (n.passOn id body h).handleFrame p id body arrival
      else n.passOn id body h := by
  simp only [routeFrame, seen]
  split
  next next decided => simp [takesIn, passOn, onward, counted, decided]
  next decided => simp [takesIn, passOn, onward, counted, decided, fanOut]
  next decided => simp [takesIn, passOn, onward, counted, decided, forwardFrame_nil]
  next reason decided => simp [takesIn, passOn, onward, counted, decided, forwardFrame_nil]

/-! ### Unless a queue refuses it -/

/-- To pass a frame on leaves the bearings as they are. -/
theorem bearings_passOn (hn : n.linkIds.Nodup) (id : LinkId) (body : Bytes) (h : Header) :
    (n.passOn id body h).bearings = n.bearings :=
  (feeds_forwardFrame (n := n.counted h) hn _ body).bearings

/-- Unless a queue refuses a frame, a copy comes to wait on each link that it is passed on
through. -/
theorem copies_passOn (ok : n.PassesOn id body h) :
    (n.passOn id body h).copies body k = n.copies body k + (n.onward id h).count k := by
  simp only [PassesOn] at ok
  cases framed : Frame.ofBody body with
  | error e => simp [framed, Except.map] at ok
  | ok frame =>
      simp only [framed, Except.map, Except.ok.injEq] at ok
      have counts := copies_queueOnAll (k := k) (Frame.carries_ofBody framed) ok
      simp only [passOn, forwardFrame, framed]
      exact counts

/-! ### Handled quietly -/

/-- A frame that is handled quietly leaves the bearings as they are. -/
theorem bearings_routeFrame {p : Program σ α} {arrival : UInt32} (hn : n.linkIds.Nodup)
    (seen : Header.peek body = .ok h)
    (quiet : n.takesIn h = true → (n.passOn id body h).Quiet p id body arrival) :
    (n.routeFrame p id body arrival).bearings = n.bearings := by
  rw [routeFrame_eq p seen]
  split
  next takes => exact (quiet takes).bearings.trans (bearings_passOn hn id body h)
  next => exact bearings_passOn hn id body h

/-- Unless a queue refuses a frame or its handlers send it again, exactly one copy comes to wait on
each link that it goes on through, and none on any other. -/
theorem copies_routeFrame {p : Program σ α} {arrival : UInt32} (seen : Header.peek body = .ok h)
    (ok : n.PassesOn id body h)
    (quiet : n.takesIn h = true → (n.passOn id body h).Quiet p id body arrival) :
    (n.routeFrame p id body arrival).copies body k =
      n.copies body k + (n.onward id h).count k := by
  rw [routeFrame_eq p seen]
  split
  next takes => exact ((quiet takes).copies k).trans (copies_passOn ok)
  next => exact copies_passOn ok

/-! ### Text -/

/-- Without an application no one does anything about text. -/
theorem unmoved_handleFrame_text {packet : Packet} {sender : UInt32} {text : String}
    (read : Packet.decode body = .ok packet)
    (carries : packet.payload = .single sender text ∨ packet.payload = .broadcast sender text)
    (arrival : UInt32) (n : Node σ α) :
    Unmoved n (n.handleFrame (.idle σ α) id body arrival) := by
  simp only [handleFrame, read]
  refine HandlerTable.dispatch_keeps (P := Unmoved n)
    (fun _ _ kept => ⟨kept.id, kept.root, kept.links⟩) (fun handler _ m kept => ?_)
    ⟨rfl, rfl, rfl⟩
  cases handler with
  | application a => exact kept
  | node =>
      rcases carries with carries | carries
      · simp only [runHandler, handleOwn, carries]
        exact kept.tell _
      · simp only [runHandler, handleOwn, carries]
        exact kept.tell _

/-- Without an application text is handled quietly. -/
theorem quiet_text {packet : Packet} {sender : UInt32} {text : String}
    (read : Packet.decode body = .ok packet)
    (carries : packet.payload = .single sender text ∨ packet.payload = .broadcast sender text)
    (arrival : UInt32) : n.Quiet (.idle σ α) id body arrival :=
  have kept := unmoved_handleFrame_text read carries arrival n
  ⟨kept.bearings, kept.copies⟩

end Node

end SpanningMesh
