import SpanningMesh.Link.Transport

/-!
# Windows

A `Window` stands between a link and a writer that sends on its own time.  Chunks
wait for the writer in a queue, and the bytes that were handed over and are not
sent yet count against a limit.  A write takes a whole chunk, even beyond the
limit, so a link should ask for the space first.

The link notices that the writer has gone only when it asks.
-/

namespace SpanningMesh

/-- Chunks on their way to a writer. -/
structure Window where
  limit : Nat
  outstanding : Nat := 0
  chunks : List Bytes := []
  opened : Bool := true
  attended : Bool := true
deriving Repr, DecidableEq, Inhabited

namespace Window

/-- Whether chunks are taken in and fetched. -/
def isConnected (w : Window) : Bool := w.opened && w.attended

/-- How many bytes are left of the limit. -/
def space (w : Window) : Nat := if w.isConnected then w.limit - w.outstanding else 0

/-- Take a chunk in.  A window that is not connected takes nothing and is closed. -/
def write (w : Window) (bs : Bytes) : Nat × Window :=
  if w.isConnected then
    (bs.length, { w with outstanding := w.outstanding + bs.length, chunks := w.chunks ++ [bs] })
  else (0, { w with opened := false })

/-- Take no more chunks in. -/
def close (w : Window) : Window := { w with opened := false }

/-- The writer fetches the oldest chunk. -/
def fetch (w : Window) : Option Bytes × Window :=
  match w.chunks with
  | [] => (none, w)
  | c :: cs => (some c, { w with chunks := cs })

/-- The writer has sent a number of bytes. -/
def sent (w : Window) (count : Nat) : Window := { w with outstanding := w.outstanding - count }

/-- The writer goes away, and with it what it did not fetch. -/
def abandon (w : Window) : Window := { w with attended := false, chunks := [] }

/-- A window as the connection of a link. -/
def transport : Transport Window where
  write bs w := w.write bs
  space := space
  close := close
  isConnected := isConnected

end Window

end SpanningMesh
