import SpanningMesh.Network.Outlets
import SpanningMesh.Proofs.Node.Disjoint
import SpanningMesh.Proofs.Node.Sending
import SpanningMesh.Proofs.Packet.RoundTrip
import SpanningMesh.Proofs.Upkeep

/-!
# The history of a node

A history is what a host and an application ask of a node, one `Input` after the other:
links open and close, bytes arrive, packets are sent and tasks run.  Whatever the
application does meanwhile is sending.

A node that has opened no link is sound, and every input keeps it so, with one
exception.  Ids are compared only if they are not 0, so a neighbour that sends its tree
under the id 0 escapes the checks.  `heard` lists the senders of all trees that a
history has the node hear.  As long as none of them is 0, the trees behind the links
never share a node, and a route leads to the one link that has a node behind it
(`ids_run_distinct`).
-/

namespace SpanningMesh

open Application (Program)

/-- The sender of the tree that a payload carries. -/
def Payload.treeSender? : Payload → Option UInt32
  | treeRequest sender _ | treeReply sender _ => some sender
  | _ => none

namespace Node

variable {σ α : Type} {p : Program σ α} {n m : Node σ α} {id : LinkId} {body : Bytes}

/-! ## The trees that a node hears -/

/-- Whether the node itself handles packets of a kind. -/
def handlesItself (n : Node σ α) (kind : UInt16) : Bool :=
  (n.handlers.handlers kind).any fun
    | .node => true
    | .application _ => false

/-- Whether a frame is handled at a node. -/
def takesIn (n : Node σ α) (h : Header) : Bool :=
  match Decision.make n.id h n.view.routeTo with
  | .flood | .handle => true
  | .forward _ | .drop _ => false

/-- The sender of the tree that a frame has a node hear. -/
def heardInFrame (n : Node σ α) (body : Bytes) : Option UInt32 :=
  match Header.peek body, Packet.decode body with
  | .ok header, .ok packet =>
      if n.takesIn header && n.handlesItself packet.header.kind then packet.payload.treeSender?
      else none
  | _, _ => none

variable [Host σ]

/-- The senders of the trees that the frames of a link have a node hear. -/
def heardOnLink (p : Program σ α) (id : LinkId) : Nat → Node σ α → List UInt32
  | 0, _ => []
  | limit + 1, n =>
      match (n.link? id).bind Link.nextFrame with
      | none => []
      | some ((body, arrival), l) =>
          ((n.putLink l).heardInFrame body).toList ++
            heardOnLink p id limit ((n.putLink l).routeFrame p id body arrival)

/-- The senders of the trees that a task has a node hear. -/
def heardInTask (p : Program σ α) : Action α → Node σ α → List UInt32
  | .read id, n => n.heardOnLink p id (n.readLimit id)
  | _, _ => []

/-- The senders of the trees that a pass has a node hear. -/
def heardInPass (p : Program σ α) (now : Nat) (n : Node σ α) : List UInt32 :=
  (Agenda.started agendaOf (perform p) now (n.agenda.dueIds now)
    (agendaOf.modify (fun a => { a with now }) { n with now })).flatMap fun x =>
      x.2.heardInTask p x.1

/-! ## What keeps a node sound -/

theorem Sound.sent (h : Sound n) (sent : Sent n m) : Sound m := h.steady (sent.steady h.nodup)

theorem Sound.tell (hp : p.OnlySends) (h : Sound n) (e : Event) : Sound (n.tell p e) :=
  HandlerTable.dispatch_keeps (fun _ _ hc => hc.of_links_eq rfl rfl rfl)
    (fun _ _ _ hc => hc.sent (hp.listen _ _ _)) h

/-- Hearing a tree keeps a node sound, unless the tree comes under the id 0. -/
theorem Sound.hearTree {sender : UInt32} {tree : Tree} (h : Sound n) (hs : sender ≠ 0)
    (top : tree.id = sender) (wanted : Bool) : Sound (n.hearTree id sender tree wanted) := by
  unfold Node.hearTree
  split
  · exact h
  next l hl =>
    split
    · exact h.steady (P := fun _ _ => True) (steady_close n id)
    next ok =>
      have accepted := h.acceptTree hl hs top ok
      dsimp only
      split
      · exact accepted.steady (feeds_sendTo accepted.nodup id _ true).steady
      · exact accepted.steady (P := fun _ _ => True) (feeds_plan _ _).steady

/-- What the node does with a packet keeps it sound, unless the packet carries a tree under
the id 0. -/
theorem Sound.handleOwn (hp : p.OnlySends) (h : Sound n) {packet : Packet}
    (read : Packet.decode body = .ok packet)
    (heard : ∀ s ∈ packet.payload.treeSender?, s ≠ 0) (arrival : UInt32) :
    Sound (n.handleOwn p packet id arrival) := by
  simp only [Node.handleOwn]
  split
  next sender tree carries =>
    have top := Packet.id_of_decode_tree read (.inl carries)
    exact h.hearTree (heard sender (by simp [carries, Payload.treeSender?])) top true
  next sender tree carries =>
    have top := Packet.id_of_decode_tree read (.inr carries)
    exact h.hearTree (heard sender (by simp [carries, Payload.treeSender?])) top false
  · exact h.steady (feeds_hearTimeSync h.nodup _ _ _ _).steady
  · exact h.steady (feeds_hearTimeDelay h.nodup _ _ _).steady
  · exact h.tell hp _
  · exact h.tell hp _
  · exact (h.identifyPeer id _).steady (P := fun _ _ => True) (feeds_hearAnnouncement _ _).steady
  · exact h

/-- Handling a frame keeps a node sound, unless it has the node hear a tree under the
id 0. -/
theorem Sound.handleFrame (hp : p.OnlySends) (h : Sound n) (arrival : UInt32)
    (heard : ∀ packet, Packet.decode body = .ok packet → n.handlesItself packet.header.kind →
      ∀ s ∈ packet.payload.treeSender?, s ≠ 0) :
    Sound (n.handleFrame p id body arrival) := by
  simp only [Node.handleFrame]
  split
  · exact h.steady (P := fun _ _ => True) (feeds_countMalformed n).steady
  next packet read =>
    refine HandlerTable.dispatch_keeps (fun _ _ hc => hc.of_links_eq rfl rfl rfl) ?_ h
    intro handler hm m hc
    cases handler with
    | node =>
        have itself : n.handlesItself packet.header.kind := List.any_eq_true.mpr ⟨.node, hm, rfl⟩
        exact hc.handleOwn hp read (heard packet read itself) arrival
    | application a => exact hc.sent (hp.handle a packet id arrival m)

/-- Doing with a frame what its header says keeps a node sound, unless it has the node hear
a tree under the id 0. -/
theorem Sound.routeFrame (hp : p.OnlySends) (h : Sound n) (arrival : UInt32)
    (heard : ∀ s ∈ n.heardInFrame body, s ≠ 0) : Sound (n.routeFrame p id body arrival) := by
  unfold Node.routeFrame
  split
  · exact h.steady (P := fun _ _ => True) (feeds_countMalformed n).steady
  next header seen =>
    have counted : Sound
        { n with tally := n.tally.record (Decision.make n.id header n.view.routeTo) } :=
      h.of_links_eq rfl rfl rfl
    have here : n.takesIn header = true → ∀ packet, Packet.decode body = .ok packet →
        n.handlesItself packet.header.kind → ∀ s ∈ packet.payload.treeSender?, s ≠ 0 := by
      intro takes packet read itself s hs
      refine heard s ?_
      simp only [heardInFrame, seen, read, takes, itself, Bool.and_self, if_true]
      exact hs
    dsimp only
    split
    · exact counted.steady (feeds_forwardFrame counted.nodup _ _).steady
    next decided =>
      have forwarded := feeds_forwardFrame counted.nodup (n.fanOut header.delivery (some id)) body
      refine (counted.steady forwarded.steady).handleFrame hp arrival fun packet read itself => ?_
      rw [handlesItself, forwarded.handlers] at itself
      exact here (by rw [takesIn, decided]) packet read itself
    next decided => exact counted.handleFrame hp arrival (here (by rw [takesIn, decided]))
    · exact counted

/-- A node stays sound while it reads frames of senders that are known. -/
theorem Sound.readFrames (hp : p.OnlySends) (h : Sound n) (limit : Nat)
    (heard : ∀ s ∈ n.heardOnLink p id limit, s ≠ 0) : Sound (n.readFrames p id limit) := by
  induction limit generalizing n with
  | zero => exact h
  | succ limit ih =>
      simp only [Node.readFrames]
      simp only [heardOnLink] at heard
      split
      · exact h
      next body arrival l hf =>
        rw [hf] at heard
        simp only [List.mem_append, Option.mem_toList] at heard
        obtain ⟨k, hk, next⟩ := Option.bind_eq_some_iff.mp hf
        have keep := Link.steady_of_nextFrame (P := fun _ _ => True) next
        have taken := h.steady (steady_putLink hk keep)
        exact ih (taken.routeFrame hp arrival fun s hs => heard s (.inl hs))
          fun s hs => heard s (.inr hs)

/-- No task hurts a node whose senders are known. -/
theorem Sound.perform (hp : p.OnlySends) (h : Sound n) (a : Action α)
    (heard : ∀ s ∈ n.heardInTask p a, s ≠ 0) : Sound (n.perform p a) := by
  cases a with
  | exchange id => exact h.steady (steady_exchange h.nodup id)
  | timeout id => exact h.steady (P := fun _ _ => True) (steady_close n id)
  | read id =>
      exact (h.readFrames hp _ heard).steady (P := fun _ _ => True) (feeds_restReading _ id).steady
  | send id => exact h.steady (steady_flush n id)
  | setClock id => exact h.steady (feeds_startClockSync h.nodup id).steady
  | announce => exact h.steady (feeds_announce h.nodup).steady
  | tell e => exact h.tell hp e
  | application a => exact h.sent (hp.task a n)

/-- A pass keeps a node sound, unless it has the node hear a tree under the id 0. -/
theorem Sound.execute (hp : p.OnlySends) (h : Sound n) (now : Nat)
    (heard : ∀ s ∈ n.heardInPass p now, s ≠ 0) : Sound (n.execute p now).2 := by
  refine Agenda.turns_keeps (fun _ _ hc => hc.of_links_eq rfl rfl rfl) ?_
    (h.of_links_eq rfl rfl rfl)
  intro x hx hc
  exact hc.perform hp x.1 fun s hs => heard s (List.mem_flatMap.mpr ⟨x, hx, hs⟩)

theorem Sound.stop (h : Sound n) : Sound n.stop := by
  have closed : ∀ (ids : List LinkId) (n : Node σ α), Sound n →
      Sound (ids.foldl (fun n id => (n.close id).2) n) := by
    intro ids
    induction ids with
    | nil => exact fun _ h => h
    | cons id ids ih => exact fun n h => ih _ (h.steady (P := fun _ _ => True) (steady_close n id))
  exact (closed n.linkIds n h).of_links_eq rfl rfl rfl

/-! ## Histories -/

/-- What a host or an application asks of a node. -/
inductive Input (α : Type) where
  | addLink (station : Bool)
  | arrive (id : LinkId) (chunk : Bytes)
  | disconnect (id : LinkId)
  | close (id : LinkId)
  | send (s : Sending)
  | execute (now : Nat)
  | stop
  | onPacket (kind : UInt16) (a : α)
  | onEvent (kind : EventKind) (a : α)
  | addTask (interval : Nat) (runs : Runs) (a : α)
  | joinElection (own : UInt16)

/-- The node after an input. -/
def obey (p : Program σ α) (n : Node σ α) : Input α → Node σ α
  | .addLink station => (n.addLink station).2
  | .arrive id chunk => n.arrive id chunk
  | .disconnect id => n.disconnect id
  | .close id => (n.close id).2
  | .send s => n.send s
  | .execute now => (n.execute p now).2
  | .stop => n.stop
  | .onPacket kind a => n.onPacket kind a
  | .onEvent kind a => n.onEvent kind a
  | .addTask interval runs a => (n.addTask interval runs a).2
  | .joinElection own => n.joinElection own

/-- The node after a history. -/
def run (p : Program σ α) (n : Node σ α) (inputs : List (Input α)) : Node σ α :=
  inputs.foldl (obey p) n

/-- The senders of the trees that an input has a node hear. -/
def heardInInput (p : Program σ α) (n : Node σ α) : Input α → List UInt32
  | .execute now => n.heardInPass p now
  | _ => []

/-- The senders of the trees that a history has a node hear, in order. -/
def heard (p : Program σ α) (n : Node σ α) : List (Input α) → List UInt32
  | [] => []
  | i :: is => n.heardInInput p i ++ heard p (n.obey p i) is

omit [Host σ] in
/-- To join the election concerns no link. -/
theorem links_joinElection (n : Node σ α) (own : UInt16) :
    (n.joinElection own).links = n.links ∧ (n.joinElection own).id = n.id ∧
      (n.joinElection own).nextLink = n.nextLink := by
  simp only [joinElection]
  split <;> exact ⟨rfl, rfl, rfl⟩

/-- Every input keeps a node sound, unless it has the node hear a tree under the id 0. -/
theorem Sound.obey (hp : p.OnlySends) (h : Sound n) (i : Input α)
    (heard : ∀ s ∈ n.heardInInput p i, s ≠ 0) : Sound (n.obey p i) := by
  cases i with
  | addLink station => exact h.addLink station
  | arrive id chunk => exact h.steady (P := fun _ _ => True) (steady_arrive n id chunk)
  | disconnect id => exact h.steady (P := fun _ _ => True) (steady_close n id)
  | close id => exact h.steady (P := fun _ _ => True) (steady_close n id)
  | send s => exact h.steady (feeds_send h.nodup s).steady
  | execute now => exact h.execute hp now heard
  | stop => exact h.stop
  | onPacket kind a => exact h.of_links_eq rfl rfl rfl
  | onEvent kind a => exact h.of_links_eq rfl rfl rfl
  | addTask interval runs a => exact h.of_links_eq rfl rfl rfl
  | joinElection own =>
      obtain ⟨links, id, nextLink⟩ := links_joinElection n own
      exact h.of_links_eq id nextLink links

/-- A whole history keeps a node sound, unless it has the node hear a tree under the id 0. -/
theorem Sound.run (hp : p.OnlySends) (h : Sound n) (inputs : List (Input α))
    (heard : ∀ s ∈ n.heard p inputs, s ≠ 0) : Sound (n.run p inputs) := by
  induction inputs generalizing n with
  | nil => exact h
  | cons i is ih =>
      have first := h.obey hp i fun s hs => heard s (List.mem_append_left _ hs)
      exact ih first fun s hs => heard s (List.mem_append_right _ hs)

/-- In every history of a node that hears no tree under the id 0, the ids behind its links
are all different and different from its own, and a route leads to the one link that has a
node behind it. -/
theorem ids_run_distinct (hp : p.OnlySends) (hid : n.id ≠ 0) (new : n.links = [])
    (inputs : List (Input α)) (heard : ∀ s ∈ n.heard p inputs, s ≠ 0) :
    (n.run p inputs).view.ids.Nodup ∧
      ∀ x ≠ 0, ∀ k, (n.run p inputs).view.routeTo x = some k ↔
        (∃ l ∈ (n.run p inputs).links, l.id = k ∧ l.subtree.contains x = true) ∧
          ∀ l ∈ (n.run p inputs).links, l.subtree.contains x = true → l.id = k := by
  have sound := (Sound.of_links_eq_nil hid new).run hp inputs heard
  exact ⟨sound.nodup_ids, fun x hx k => sound.routeTo_eq_some_iff hx k⟩

/-- The node 2 sends the node 1 its tree, in which the node 3 is behind it. -/
def treeArrives : List (Input Empty) :=
  [.addLink true,
    .arrive ⟨1⟩ [26, 0, 0, 0, 5, 0, 0, 0, 1, 0, 0, 0, 2, 0, 0, 0,
      2, 0, 0, 0, 0, 1, 0, 3, 0, 0, 0, 0, 0, 0],
    .execute 0]

/-- The node 1 before it has any link. -/
def receiver : Node (Outlets Unit) Empty := .create 1 {} { application := () }

theorem ids_run_distinct_treeArrives :
    receiver.heard (.idle (Outlets Unit) Empty) treeArrives = [2] ∧
      (receiver.run (.idle (Outlets Unit) Empty) treeArrives).view.ids = [1, 2, 3] ∧
      (receiver.run (.idle (Outlets Unit) Empty) treeArrives).view.ids.Nodup := by
  have heard : receiver.heard (.idle (Outlets Unit) Empty) treeArrives = [2] := by decide +kernel
  have known : ∀ s ∈ receiver.heard (.idle (Outlets Unit) Empty) treeArrives, s ≠ 0 := by
    intro s hs
    rw [heard] at hs
    rw [List.mem_singleton.mp hs]
    decide
  have hid : receiver.id ≠ 0 := by decide
  have distinct := ids_run_distinct (Program.onlySends_idle _ _) hid rfl treeArrives known
  exact ⟨heard, by decide +kernel, distinct.1⟩

end Node

end SpanningMesh
