import SpanningMesh.Proofs.Node.Steady

/-!
# Applications that only send

A `Sending` is a packet or a text to send, on behalf of an application.  `Sent n m` says
that the node `m` came from `n` by sending and by changes of what the host keeps, where
an application has its state.  A program that `OnlySends` does nothing else to its node,
whenever it runs.  All of it is steady.
-/

namespace SpanningMesh

open Application (Program)

namespace Node

variable {σ α : Type} [Host σ] {n m : Node σ α}

/-- A packet or a text to send.  A value of an application is sent as a packet. -/
inductive Sending where
  | through (id : LinkId) (packet : Packet) (priority : Bool)
  | packet (packet : Packet) (priority : Bool)
  | toAll (packet : Packet) (except : Option LinkId) (priority : Bool)
  | single (dest : UInt32) (text : String)
  | broadcast (text : String) (includeSelf : Bool)
  | measureDelay (dest : UInt32)

/-- The node after a sending. -/
def send (n : Node σ α) : Sending → Node σ α
  | .through id packet priority => (n.sendTo id packet priority).2
  | .packet packet priority => (n.sendPacket packet priority).2
  | .toAll packet except priority => (n.sendToAll packet except priority).2
  | .single dest text => (n.sendSingle dest text).2
  | .broadcast text includeSelf => (n.sendBroadcast text includeSelf).2
  | .measureDelay dest => (n.measureDelay dest).2

/-- To send is to queue frames. -/
theorem feeds_send (hn : n.linkIds.Nodup) (s : Sending) :
    Feeds (fun _ _ => True) n (n.send s) := by
  cases s with
  | through id packet priority =>
      exact (feeds_sendTo hn id packet priority).mono fun _ _ _ => trivial
  | packet packet priority =>
      exact (feeds_sendPacket hn packet priority).mono fun _ _ _ => trivial
  | toAll packet except priority =>
      exact (feeds_sendToAll hn packet except priority).mono fun _ _ _ => trivial
  | single dest text => exact (feeds_sendPacket hn _ false).mono fun _ _ _ => trivial
  | broadcast text includeSelf =>
      exact (feeds_sendBroadcast hn text includeSelf).mono fun _ _ _ => trivial
  | measureDelay dest => exact (feeds_sendPacket hn _ false).mono fun _ _ _ => trivial

/-- What becomes of a node by sending and by changes of what the host keeps. -/
inductive Sent (n : Node σ α) : Node σ α → Prop where
  | nothing : Sent n n
  | send {m : Node σ α} : Sent n m → (s : Sending) → Sent n (m.send s)
  | host {m : Node σ α} : Sent n m → (s : σ) → Sent n { m with host := s }

/-- Links are steady while an application sends. -/
theorem Sent.steady (hn : n.linkIds.Nodup) (h : Sent n m) : Steady (fun _ _ => True) n m := by
  induction h with
  | nothing => exact .refl _ n
  | send _ s ih => exact ih.trans (feeds_send (ih.nodup hn) s).steady
  | host _ s ih => exact ih.trans (.of_links_eq rfl rfl rfl)

end Node

/-- A program that sends and does nothing else to its node. -/
structure Application.Program.OnlySends {σ α : Type} [Host σ] (p : Program σ α) : Prop where
  task : ∀ a n, Node.Sent n (p.task a n)
  handle : ∀ a packet id arrival n, Node.Sent n (p.handle a packet id arrival n).1
  listen : ∀ a e n, Node.Sent n (p.listen a e n)

/-- The program that does nothing only sends. -/
theorem Application.Program.onlySends_idle (σ α : Type) [Host σ] :
    (Program.idle σ α).OnlySends :=
  ⟨fun _ _ => .nothing, fun _ _ _ _ _ => .nothing, fun _ _ _ => .nothing⟩

end SpanningMesh
