import SpanningMesh.Proofs.Clock.Differences
import SpanningMesh.Proofs.Node.Keeping
import SpanningMesh.Proofs.Node.Reception

/-!
# A node's part in a time exchange

What a node does with a step of an exchange follows from the step, from when it came and from the
time it is.  It answers on the link (`TimeExchange.answer?`), or it moves its clock
(`TimeExchange.shift`), and nothing else about the link or about its view of the mesh changes
(`Node.hears_readNext`).

The offset of a reply is the mean of two differences between the clocks of the two nodes
(`TimeExchange.offset_eq`).  If every way takes equally long, they are the difference when the
request was sent and the difference when the reply came in.  A difference is a signed word, so it is
seen right only if the time of one way does not lead out of the words.
-/

namespace SpanningMesh

namespace TimeExchange

/-- The offset is the mean of the difference that the request saw and the one that the reply
saw. -/
theorem offset_eq {x : TimeExchange} {t3 : UInt32} {d : Nat} {asked heard : Int}
    (there : asked = timeBetween x.t0 (x.t1 - .ofNat d))
    (back : heard = timeBetween t3 (x.t2 + .ofNat d))
    (ahead : asked + d < 2147483648) (behind : -2147483648 ≤ heard - d) :
    x.offset t3 = .ofInt ((asked + heard).tdiv 2) := by
  subst there back
  have sum : timeBetween x.t0 (x.t1 - .ofNat d) + d + (timeBetween t3 (x.t2 + .ofNat d) - d) =
      timeBetween x.t0 (x.t1 - .ofNat d) + timeBetween t3 (x.t2 + .ofNat d) := by omega
  rw [offset, timeBetween_of_lt ahead, timeBetween_of_le behind, sum]

/-- What a node answers to a step that came at one time and is handled at another. -/
def answer? (x : TimeExchange) (arrival now : UInt32) : Option TimeExchange :=
  match x.stage with
  | .invite => some (.request now)
  | .request => some (x.reply arrival now)
  | .reply | .fault => none

/-- By how much a step that came at some time moves the clock of a node. -/
def shift (x : TimeExchange) (arrival : UInt32) : UInt32 :=
  match x.stage with
  | .reply => (x.offset arrival).toUInt32
  | .invite | .request | .fault => 0

/-- Only a reply shifts the clock. -/
theorem shift_of_ne {x : TimeExchange} (other : x.stage ≠ .reply) (arrival : UInt32) :
    x.shift arrival = 0 := by
  simp only [shift]
  split
  · contradiction
  · rfl
  · rfl
  · rfl

end TimeExchange

/-! ## Frames of an exchange -/

/-- A body tells a step of setting clocks. -/
def Packet.Tells (x : TimeExchange) (body : Bytes) : Prop :=
  ∃ sender dest, Packet.decode body = .ok (.timeSync sender dest x)

/-- A frame has a body that tells a step of setting clocks. -/
def Frame.Tells (x : TimeExchange) (frame : Bytes) : Prop :=
  ∃ body, body.length < 4294967296 ∧ frame = whole body ∧ Packet.Tells x body

/-- The frame of a time step tells that step. -/
theorem Frame.tells_of_ofPacket {sender dest : UInt32} {x : TimeExchange} {frame : Bytes}
    (framed : Frame.ofPacket (.timeSync sender dest x) = .ok frame) : Frame.Tells x frame := by
  obtain ⟨body, written, short, rfl⟩ := Frame.ofPacket_eq_ok_iff.mp framed
  have fit : (Packet.timeSync sender dest x).Matches := rfl
  exact ⟨body, Packet.length_of_encode written ▸ short, rfl, sender, dest,
    Packet.decode_of_encode fit written⟩

/-- A link on which no bytes wait takes a whole frame into its inbox, or its body is too large for
it. -/
theorem Link.receive_whole {l : Link} {body : Bytes} (short : body.length < 4294967296)
    (empty : l.reassembler.buffer.toList = []) (arrival : UInt32) :
    (∃ r : Reassembler, r.buffer.toList = [] ∧ l.receive (Frame.whole body) arrival =
        (.ok 1, { l with reassembler := r, inbox := l.inbox ++ [(body, arrival)] })) ∨
      ∃ e, (l.receive (Frame.whole body) arrival).1 = .error e := by
  have all : l.reassembler.buffer.toList ++ Frame.whole body = Frame.stream [body] := by
    simp [empty]
  by_cases large : l.reassembler.limit < body.length
  · right
    have size := Frame.ofBytes_length short
    have split : Reassembler.Splits l.reassembler.limit (Frame.stream [body])
        ⟨[], Frame.stream [body], some (Word.ofBytes (Word.toBytes Frame.lengthSize body.length))⟩ :=
      .oversized (Word.length_toBytes _ _) (size.symm ▸ large)
    have parsed := Reassembler.parse_eq_of_splits split
    rw [← all] at parsed
    obtain ⟨r, refused, -⟩ := Reassembler.push_of_oversized (congrArg _ parsed)
    exact ⟨_, Link.receive_of_error (congrArg Prod.fst refused)⟩
  · left
    have fits : ∀ b ∈ [body], Frame.Fits l.reassembler.limit b := fun b hb =>
      List.mem_singleton.mp hb ▸ ⟨short, Nat.le_of_not_lt large⟩
    have parsed := Reassembler.parse_stream fits
    rw [← all] at parsed
    obtain ⟨r, pushed, -, -, rest⟩ := Reassembler.push_of_fits (congrArg _ parsed)
    rw [parsed] at pushed rest
    exact ⟨r, rest, Link.receive_of_push pushed⟩

namespace Node

variable {σ α : Type} {n m o : Node σ α} {id : LinkId} {l : Link} {P Q : Bytes → Prop}

/-! ## What an exchange leaves alone -/

/-- The node sees the mesh as before and handles the steps of setting clocks as before, and what it
has sent through a link is of some kind. -/
structure Answers (id : LinkId) (P : Bytes → Prop) (n m : Node σ α) : Prop where
  view : m.view = n.view
  own : m.handlers.handlers Kind.timeSync = n.handlers.handlers Kind.timeSync
  link : ∀ l', m.link? id = some l' → ∃ l, n.link? id = some l ∧ l.Feeds (fun _ => P) l'

theorem Answers.refl (id : LinkId) (P : Bytes → Prop) (n : Node σ α) : Answers id P n n :=
  ⟨rfl, rfl, fun l hl => ⟨l, hl, .refl _ l⟩⟩

theorem Answers.mono (h : Answers id P n m) (hPQ : ∀ f, P f → Q f) : Answers id Q n m := by
  refine ⟨h.view, h.own, fun l' hl' => ?_⟩
  obtain ⟨l, hl, step⟩ := h.link l' hl'
  exact ⟨l, hl, step.mono hPQ⟩

/-- To answer opens and closes no link. -/
theorem Answers.linkIds (h : Answers id P n m) : m.linkIds = n.linkIds := by
  rw [linkIds_eq, linkIds_eq, h.view]

/-- A node that feeds its links answers with what it feeds to one of them. -/
theorem Feeds.answers (hn : n.linkIds.Nodup) (fed : Feeds (fun k f => k = id → P f) n m) :
    Answers id P n m where
  view := fed.view_eq
  own := fed.handlers ▸ rfl
  link := by
    intro l' hl'
    obtain ⟨l, hl, step⟩ := fed.exists_of_mem (mem_links_of_link? hl')
    have at_id : l.id = id := by
      obtain ⟨es, rs, -, rfl⟩ := step
      exact (id_of_link? hl' : (l.fed es rs).id = id)
    exact ⟨l, at_id ▸ link?_of_mem hn hl, step.mono fun f hf => hf at_id⟩

/-- What a node tells the time by, and whether others are to take theirs from it as the root. -/
def dial (n : Node σ α) : Nat × UInt32 × Bool := (n.now, n.clockShift, n.root)

/-- Clocks with the same dial show the same time. -/
theorem time_of_dial (same : m.dial = n.dial) : m.time = n.time := by
  simp only [dial, Prod.mk.injEq] at same
  rw [time, time, same.1, same.2.1]

variable [Host σ]

theorem dial_queueFrame (d : Nat × UInt32 × Bool) (n : Node σ α) (id : LinkId) (frame : Bytes)
    (priority : Bool) (h : n.dial = d) : (n.queueFrame id frame priority).2.dial = d := by
  simp only [queueFrame]
  split
  · exact h
  · split
    · exact h
    · exact h

theorem dial_sendTo (n : Node σ α) (id : LinkId) (p : Packet) (priority : Bool) :
    (n.sendTo id p priority).2.dial = n.dial :=
  sendTo_keeps (dial_queueFrame n.dial) id p priority rfl

/-- A step that is sent through a link is told there. -/
theorem answers_sendTo (hn : n.linkIds.Nodup) (id : LinkId) (sender dest : UInt32)
    (x : TimeExchange) :
    Answers id (Frame.Tells x) n (n.sendTo id (.timeSync sender dest x) true).2 := by
  have fed := (feeds_sendTo hn id (.timeSync sender dest x) true).mono
    (Q := fun k f => k = id → Frame.Tells x f) fun _ _ hf _ => Frame.tells_of_ofPacket hf.2
  exact fed.answers hn

/-! ## A tick -/

/-- The step with which a node begins to set clocks with the neighbour of a link. -/
def firstStep (n : Node σ α) (id : LinkId) : TimeExchange :=
  if n.view.adoptsTimeFrom id then .request n.time else .invite

/-- All that the start of a clock sync sends is its first step. -/
theorem answers_startClockSync (hn : n.linkIds.Nodup) (id : LinkId) :
    Answers id (Frame.Tells (n.firstStep id)) n (n.startClockSync id) := by
  simp only [startClockSync]
  split
  · exact .refl id _ n
  · exact answers_sendTo hn id _ _ _

theorem dial_startClockSync (n : Node σ α) (id : LinkId) : (n.startClockSync id).dial = n.dial :=
  startClockSync_keeps (dial_queueFrame n.dial) id rfl

theorem time_startClockSync (n : Node σ α) (id : LinkId) : (n.startClockSync id).time = n.time :=
  time_of_dial (dial_startClockSync n id)

/-! ## What moves no clock -/

section

omit [Host σ]

theorem dial_hastenAnnouncement (n : Node σ α) : n.hastenAnnouncement.dial = n.dial := by
  simp only [hastenAnnouncement]
  split <;> rfl

theorem dial_setElection (n : Node σ α) (c : Candidacy) (e : Election) :
    (n.setElection c e).dial = n.dial := by
  simp only [setElection]
  refine (dial_hastenAnnouncement _).trans ?_
  split <;> rfl

theorem dial_losePeer (n : Node σ α) (peer : UInt32) : (n.losePeer peer).dial = n.dial := by
  simp only [losePeer]
  split
  · rfl
  · split
    · rfl
    · exact dial_setElection n _ _

end

theorem dial_close (n : Node σ α) (id : LinkId) : (n.close id).2.dial = n.dial := by
  simp only [close]
  split
  · rfl
  · refine (dial_losePeer _ _).trans ?_
    split <;> rfl

/-! ## A step that came in -/

variable {x : TimeExchange} {body : Bytes} {arrival : UInt32}

/-- All that is sent about a time step is its answer. -/
theorem answers_hearTimeSync (hn : n.linkIds.Nodup) (id : LinkId) (sender : UInt32)
    (x : TimeExchange) (arrival : UInt32) :
    Answers id (fun f => ∃ y, x.answer? arrival n.time = some y ∧ Frame.Tells y f) n
      (n.hearTimeSync id sender x arrival) := by
  simp only [hearTimeSync, TimeExchange.answer?]
  cases x.stage with
  | invite => exact (answers_sendTo hn id _ _ _).mono fun f told => ⟨_, rfl, told⟩
  | request => exact (answers_sendTo hn id _ _ _).mono fun f told => ⟨_, rfl, told⟩
  | reply => exact (feeds_setClock n id _).answers hn
  | fault => exact .refl id _ n

/-- A reply moves the clock, and no other step does. -/
theorem dial_hearTimeSync (n : Node σ α) (id : LinkId) (sender : UInt32) (x : TimeExchange)
    (arrival : UInt32) :
    (n.hearTimeSync id sender x arrival).dial =
      (n.now, n.clockShift + x.shift arrival, n.root) := by
  have unmoved : n.dial = (n.now, n.clockShift + 0, n.root) := by rw [UInt32.add_zero, dial]
  simp only [hearTimeSync, TimeExchange.shift]
  cases x.stage with
  | invite => exact (dial_sendTo ..).trans unmoved
  | request => exact (dial_sendTo ..).trans unmoved
  | reply =>
      simp only [setClock]
      split
      · rfl
      · split <;> rfl
  | fault => exact unmoved

/-- A time step shifts the clock by what it asks for. -/
theorem time_hearTimeSync (n : Node σ α) (id : LinkId) (sender : UInt32) (x : TimeExchange)
    (arrival : UInt32) :
    (n.hearTimeSync id sender x arrival).time = n.time + x.shift arrival := by
  have heard := dial_hearTimeSync n id sender x arrival
  simp only [dial, Prod.mk.injEq] at heard
  rw [time, time, heard.1, heard.2.1, UInt32.add_assoc]

/-- The only handler of a key runs while it is out of the table, and goes back into it. -/
theorem dispatch_one {κ η γ : Type} [DecidableEq κ] (table : Focus γ (HandlerTable κ η))
    {run : η → γ → γ × Flow} {key : κ} {c : γ} {h : η}
    (alone : (table.get c).handlers key = [h])
    (kept : table.get (run h (table.set ((table.get c).remove key) c)).1 =
      (table.get c).remove key) :
    (HandlerTable.dispatch table run key c).1 =
      table.set (((table.get c).remove key).putBack key [h])
        (run h (table.set ((table.get c).remove key) c)).1 := by
  have uncleared : ((table.get c).remove key).clearings = (table.get c).clearings := rfl
  simp only [HandlerTable.dispatch, alone, HandlerTable.runAll, List.foldl_cons, List.foldl_nil,
    kept, uncleared, if_true]

/-- A frame that tells a step, on a node that handles these itself and alone. -/
theorem hears_handleFrame (hn : n.linkIds.Nodup)
    (own : n.handlers.handlers Kind.timeSync = [.node]) (told : Packet.Tells x body)
    (id : LinkId) (arrival : UInt32) :
    Answers id (fun f => ∃ y, x.answer? arrival n.time = some y ∧ Frame.Tells y f) n
        (n.handleFrame (.idle σ α) id body arrival) ∧
      (n.handleFrame (.idle σ α) id body arrival).time = n.time + x.shift arrival := by
  obtain ⟨sender, dest, read⟩ := told
  let silent : Node σ α := { n with handlers := n.handlers.remove Kind.timeSync }
  have heard := answers_hearTimeSync (n := silent) hn id sender x arrival
  have fed := feeds_hearTimeSync (n := silent) hn id sender x arrival
  have handled : n.handleFrame (.idle σ α) id body arrival =
      { silent.hearTimeSync id sender x arrival with
        handlers := (n.handlers.remove Kind.timeSync).putBack Kind.timeSync [.node] } := by
    simp only [handleFrame, read]
    exact dispatch_one handlersOf own fed.handlers
  rw [handled]
  refine ⟨⟨heard.view, ?_, heard.link⟩, time_hearTimeSync silent id sender x arrival⟩
  rw [own, HandlerTable.handlers_putBack, HandlerTable.handlers_remove]
  simp

/-- Reading the next frame of a link, if it tells a step. -/
theorem hears_readNext (hn : n.linkIds.Nodup) {rest : List (Bytes × UInt32)}
    (own : n.handlers.handlers Kind.timeSync = [.node]) (hl : n.link? id = some l)
    (waits : l.inbox = (body, arrival) :: rest) (told : Packet.Tells x body) :
    Answers id (fun f => ∃ y, x.answer? arrival n.time = some y ∧ Frame.Tells y f)
        (n.putLink { l with inbox := rest }) (n.readFrames (.idle σ α) id 1) ∧
      (n.readFrames (.idle σ α) id 1).time = n.time + x.shift arrival := by
  have next : (n.link? id).bind Link.nextFrame =
      some ((body, arrival), { l with inbox := rest }) := by
    rw [hl]
    simp only [Option.bind_some, Link.nextFrame, waits]
  have nodup : (n.putLink { l with inbox := rest }).linkIds.Nodup := linkIds_putLink n _ ▸ hn
  have routed : ∃ tally, n.readFrames (.idle σ α) id 1 =
      ({ n.putLink { l with inbox := rest } with tally } : Node σ α).handleFrame (.idle σ α) id body
        arrival := by
    obtain ⟨sender, dest, read⟩ := told
    refine ⟨n.tally.record (.handle : Decision LinkId), ?_⟩
    simp only [readFrames, next, routeFrame, Packet.peek_of_decode read]
    rfl
  obtain ⟨tally, routed⟩ := routed
  have heard := hears_handleFrame (n := { n.putLink { l with inbox := rest } with tally }) nodup own
    told id arrival
  rw [routed]
  exact ⟨⟨heard.1.view, heard.1.own, heard.1.link⟩, heard.2⟩

/-- Nothing is read if the link is closed or no frame waits on it. -/
theorem readNext_of_empty (empty : ∀ l, n.link? id = some l → l.inbox = []) :
    n.readFrames (.idle σ α) id 1 = n := by
  cases hl : n.link? id with
  | none => simp only [readFrames, hl, Option.bind_none]
  | some l => simp only [readFrames, hl, Option.bind_some, Link.nextFrame, empty l hl]

/-! ## A frame that arrives -/

/-- A frame that tells a step comes to wait on its link, or it closes the link. -/
theorem arrives (hn : n.linkIds.Nodup) (hl : n.link? id = some l)
    (empty : l.reassembler.buffer.toList = []) {frame : Bytes} (told : Frame.Tells x frame) :
    (n.arrive id frame).time = n.time ∧ ((n.arrive id frame).link? id = none ∨
      ∃ body r, Packet.Tells x body ∧ r.buffer.toList = [] ∧
        (n.arrive id frame).view = n.view ∧ (n.arrive id frame).handlers = n.handlers ∧
        (n.arrive id frame).link? id =
          some { l with reassembler := r, inbox := l.inbox ++ [(body, n.time)] }) := by
  obtain ⟨body, short, rfl, told⟩ := told
  rcases Link.receive_whole short empty n.time with ⟨r, emptied, taken⟩ | ⟨e, refused⟩
  · refine ⟨time_arrive hl taken, .inr ⟨body, r, told, emptied, ?_, ?_, link?_arrive hl taken⟩⟩
    · rw [arrive_of_ok hl taken]
      exact view_putLink_of_subtree_eq hn hl rfl rfl
    · rw [arrive_of_ok hl taken]
      rfl
  · rw [arrive_of_error hl refused]
    exact ⟨time_of_dial (dial_close n id), .inl (link?_close n id)⟩

end Node

end SpanningMesh
