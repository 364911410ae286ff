import SpanningMesh.Codec.Word

/-!
# Transports

A `Transport` is what a link writes its bytes to.  It is a set of operations on
some state `τ` that holds the connection: a pipe between two nodes in memory, a
window in front of a socket, or all connections of a host.  Bytes that arrive do
not come through it.
-/

namespace SpanningMesh

/-- The number that stands for no limit, and the largest size there is. -/
def unlimited : Nat := 18446744073709551615

/-- The outbound side of one connection, kept in a state. -/
structure Transport (τ : Type) where
  /-- Offer bytes and learn how many were taken, 0 meaning none for now. -/
  write : Bytes → τ → Nat × τ
  space : τ → Nat
  close : τ → τ
  isConnected : τ → Bool

namespace Transport

variable {τ υ : Type}

/-- A transport that takes all but the last bytes of every write, and says so. -/
def withhold (t : Transport τ) (count : Nat) : Transport τ :=
  { t with write := fun bs s => t.write (bs.take (bs.length - count)) s }

/-- A connection that is not there. -/
def none : Transport τ := ⟨fun _ s => (0, s), fun _ => 0, id, fun _ => false⟩

end Transport

end SpanningMesh
