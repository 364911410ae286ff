import SpanningMesh.Proofs.Node.Copies

/-!
# What sending and reading keep

To send is to queue a frame on some links.  So every property of nodes that queueing a frame keeps is
kept by all that sends.

To read a link is to take the frames out of its inbox, one after the other, and to pass each on, to
handle it or to drop it.  A handler may be the node itself or an application.  `KeepsReading` asks of
a property that each of these steps keeps it.  If the property says of what kind the frames of the
inbox are, what the node itself does may rely on that.  Then to read the link keeps the property too,
whatever came in (`KeepsReading.read`).
-/

namespace SpanningMesh

open Application (Program)

namespace Node

/-! ## Sending -/

section

variable {σ α : Type} [Host σ] {P : Node σ α → Prop} {n : Node σ α}
  (queue : ∀ n id frame priority, P n → P (n.queueFrame id frame priority).2)

include queue

/-- What queueing a frame keeps is kept by sending a packet through a link. -/
theorem sendTo_keeps (id : LinkId) (p : Packet) (priority : Bool) (h : P n) :
    P (n.sendTo id p priority).2 := by
  simp only [sendTo]
  split
  · exact h
  · exact queue n id _ priority h

theorem queueOnAll_keeps (ids : List LinkId) (frame : Bytes) (priority : Bool) (h : P n) :
    P (n.queueOnAll ids frame priority).2 := by
  induction ids generalizing n with
  | nil => exact h
  | cons id ids ih =>
      have first := queue n id frame priority h
      cases queued : n.queueFrame id frame priority with
      | mk result m =>
          rw [queued] at first
          cases result with
          | ok u =>
              rw [queueOnAll_cons_ok queued]
              exact ih first
          | error e =>
              rw [queueOnAll_cons_error queued]
              exact ih first

theorem forwardFrame_keeps (ids : List LinkId) (body : Bytes) (h : P n) :
    P (n.forwardFrame ids body) := by
  simp only [forwardFrame]
  split
  · exact h
  · exact queueOnAll_keeps queue ids _ false h

theorem sendToAll_keeps (p : Packet) (except : Option LinkId) (priority : Bool) (h : P n) :
    P (n.sendToAll p except priority).2 := by
  simp only [sendToAll]
  split
  · exact h
  · exact queueOnAll_keeps queue _ _ priority h

theorem sendPacket_keeps (p : Packet) (priority : Bool) (h : P n) :
    P (n.sendPacket p priority).2 := by
  simp only [sendPacket]
  split
  next id _ =>
    have sent := sendTo_keeps queue id p priority h
    split
    next m hm =>
      rw [hm] at sent
      exact sent
    next e m hm =>
      rw [hm] at sent
      exact sent
  · exact sendToAll_keeps queue p none priority h
  · exact h

theorem announce_keeps (h : P n) : P n.announce := by
  simp only [announce]
  split
  · exact h
  · exact sendPacket_keeps queue _ false h

theorem startClockSync_keeps (id : LinkId) (h : P n) : P (n.startClockSync id) := by
  simp only [startClockSync]
  split
  · exact h
  · exact sendTo_keeps queue id _ true h

end

end Node

/-! ## Calling a program -/

/-- Whatever a program does when it is called keeps a property of nodes. -/
structure Application.Program.Respects {σ α : Type} (p : Program σ α) (P : Node σ α → Prop) :
    Prop where
  task : ∀ a n, P n → P (p.task a n)
  handle : ∀ a packet id arrival n, P n → P (p.handle a packet id arrival n).1
  listen : ∀ a e n, P n → P (p.listen a e n)

/-- Telling an event keeps what the program respects and what the listeners do not matter to. -/
theorem Application.Program.Respects.tell {σ α : Type} {p : Program σ α} {P : Node σ α → Prop}
    {n : Node σ α} (respects : p.Respects P)
    (table : ∀ (n : Node σ α) listeners, P n → P { n with listeners }) (e : Event) (h : P n) :
    P (n.tell p e) :=
  HandlerTable.dispatch_keeps (fun t m => table m t) (fun a _ m => respects.listen a e m) h

/-! ## Reading -/

/-- The frame that is read next is the first of the inbox, and is taken out of it. -/
theorem Node.inbox_of_next {σ α : Type} {n : Node σ α} {id : LinkId} {frame : Bytes × UInt32}
    {l : Link} (next : (n.link? id).bind Link.nextFrame = some (frame, l)) :
    ∃ k rest, n.link? id = some k ∧ k.inbox = frame :: rest ∧ l = { k with inbox := rest } := by
  obtain ⟨k, found, next⟩ := Option.bind_eq_some_iff.mp next
  simp only [Link.nextFrame] at next
  split at next
  · cases next
  next f rest waiting =>
    cases next
    exact ⟨k, rest, found, waiting, rfl⟩

/-- What the step for each frame keeps holds after all frames of a link were read. -/
theorem Node.readFrames_keeps {σ α : Type} [Host σ] {p : Program σ α} {id : LinkId}
    {P : Node σ α → Prop}
    (step : ∀ {n : Node σ α} {body : Bytes} {arrival : UInt32} {l : Link},
      (n.link? id).bind Link.nextFrame = some ((body, arrival), l) → P n →
        P ((n.putLink l).routeFrame p id body arrival))
    (limit : Nat) {n : Node σ α} (h : P n) : P (n.readFrames p id limit) := by
  induction limit generalizing n with
  | zero => exact h
  | succ limit ih =>
      simp only [Node.readFrames]
      split
      · exact h
      next next => exact ih (step next h)

/-- Two nodes differ in other things than in who they are, in their links and tasks, in what they are
set to, in their clocks, and in the election and whether they are the root. -/
structure Node.Aside {σ α : Type} (n m : Node σ α) : Prop where
  id : m.id = n.id
  links : m.links = n.links
  nextLink : m.nextLink = n.nextLink
  settings : m.settings = n.settings
  agenda : m.agenda = n.agenda
  clockShift : m.clockShift = n.clockShift
  root : m.root = n.root
  candidacy : m.candidacy = n.candidacy

/-- Each step of reading a link keeps a property of nodes, under which its frames are of a kind. -/
structure Application.Program.KeepsReading {σ α : Type} [Host σ] (p : Program σ α) (id : LinkId)
    (Kind : Bytes × UInt32 → Prop) (P : Node σ α → Prop) : Prop where
  aside : ∀ {n m : Node σ α}, P n → n.Aside m → P m
  take : ∀ {n : Node σ α} {frame : Bytes × UInt32} {l : Link},
    (n.link? id).bind Link.nextFrame = some (frame, l) → P n → Kind frame ∧ P (n.putLink l)
  forward : ∀ (n : Node σ α) ids body, P n → P (n.forwardFrame ids body)
  own : ∀ (n : Node σ α) {body : Bytes} {packet : Packet} {arrival : UInt32},
    Packet.decode body = .ok packet → Kind (body, arrival) → P n →
      P (n.handleOwn p packet id arrival)
  handle : ∀ a packet arrival n, P n → P (p.handle a packet id arrival n).1

namespace Application.Program.KeepsReading

variable {σ α : Type} [Host σ] {p : Program σ α} {id : LinkId} {Kind : Bytes × UInt32 → Prop}
  {P : Node σ α → Prop} {n : Node σ α} {body : Bytes} {arrival : UInt32}

/-- What the handlers of a frame keep is kept by handling it. -/
theorem handleFrame (keeps : p.KeepsReading id Kind P) (kind : Kind (body, arrival)) (h : P n) :
    P (n.handleFrame p id body arrival) := by
  simp only [Node.handleFrame]
  split
  · exact keeps.aside h ⟨rfl, rfl, rfl, rfl, rfl, rfl, rfl, rfl⟩
  next packet decoded =>
    refine HandlerTable.dispatch_keeps
      (fun _ _ h => keeps.aside h ⟨rfl, rfl, rfl, rfl, rfl, rfl, rfl, rfl⟩) ?_ h
    intro handler _ m h
    cases handler with
    | node => exact keeps.own m decoded kind h
    | application a => exact keeps.handle a packet arrival m h

/-- A frame is passed on, handled or dropped. -/
theorem routeFrame (keeps : p.KeepsReading id Kind P) (kind : Kind (body, arrival)) (h : P n) :
    P (n.routeFrame p id body arrival) := by
  cases seen : Header.peek body with
  | error e =>
      simp only [Node.routeFrame, seen]
      exact keeps.aside h ⟨rfl, rfl, rfl, rfl, rfl, rfl, rfl, rfl⟩
  | ok header =>
      have counted : P (n.counted header) := keeps.aside h ⟨rfl, rfl, rfl, rfl, rfl, rfl, rfl, rfl⟩
      have passed : P (n.passOn id body header) := keeps.forward _ _ body counted
      rw [Node.routeFrame_eq p seen]
      split
      · exact keeps.handleFrame kind passed
      · exact passed

/-- What a single frame keeps is kept by reading all that wait. -/
theorem readFrames (keeps : p.KeepsReading id Kind P) (limit : Nat) (h : P n) :
    P (n.readFrames p id limit) := by
  refine Node.readFrames_keeps (fun next h => ?_) limit h
  obtain ⟨kind, taken⟩ := keeps.take next h
  exact keeps.routeFrame kind taken

theorem read (keeps : p.KeepsReading id Kind P) (rest : ∀ n, P n → P (n.restReading id)) (h : P n) :
    P (n.read p id) :=
  rest _ (keeps.readFrames _ h)

end Application.Program.KeepsReading

end SpanningMesh
