import SpanningMesh.Packet.Header

/-!
# Where a packet goes

A packet that arrives is forwarded, flooded, handled here or dropped, as its
header and the routes of the node say.  A packet that leaves goes through one
link, through all links, or nowhere.

A `Tally` counts what became of the packets that arrived.  A flooded packet is
handled here as well and counts as both.
-/

namespace SpanningMesh

/-- Why a packet is dropped. -/
inductive DropReason where
  | noRoute
  | malformed
deriving Repr, DecidableEq

namespace DropReason

/-- What is said of a packet that is dropped. -/
def message : DropReason → String
  | noRoute => "no route to destination"
  | malformed => "malformed frame"

end DropReason

/-- What becomes of a packet that arrived. -/
inductive Decision (κ : Type) where
  | forward (link : κ)
  | flood
  | handle
  | drop (reason : DropReason)
deriving Repr, DecidableEq

namespace Decision

/-- Decide about an arrived packet at a node, with the routes it knows. -/
def make {κ : Type} (node : UInt32) (h : Header) (route : UInt32 → Option κ) : Decision κ :=
  match h.delivery with
  | .neighbour => handle
  | .broadcast => flood
  | .single =>
      if h.dest = node then handle
      else
        match route h.dest with
        | some link => forward link
        | none => drop .noRoute

end Decision

/-- Where a packet that leaves goes. -/
inductive Exit (κ : Type) where
  | link (l : κ)
  | all
  /-- Nowhere, since no link leads to its destination. -/
  | unreachable
deriving Repr, DecidableEq

namespace Exit

/-- Choose the exit of a packet.  A neighbour packet for no one in particular goes to all
neighbours. -/
def choose {κ : Type} (h : Header) (route : UInt32 → Option κ) : Exit κ :=
  let routed :=
    match route h.dest with
    | some l => link l
    | none => unreachable
  match h.delivery with
  | .broadcast => all
  | .neighbour => if h.dest = 0 then all else routed
  | .single => routed

end Exit

/-- What became of the packets that arrived. -/
structure Tally where
  forwarded : Nat := 0
  flooded : Nat := 0
  handled : Nat := 0
  dropped : Nat := 0
deriving Repr, DecidableEq, Inhabited

namespace Tally

/-- Count a packet by what was decided about it. -/
def record {κ : Type} (t : Tally) : Decision κ → Tally
  | .forward _ => { t with forwarded := t.forwarded + 1 }
  | .flood => { t with flooded := t.flooded + 1, handled := t.handled + 1 }
  | .handle => { t with handled := t.handled + 1 }
  | .drop _ => { t with dropped := t.dropped + 1 }

/-- Count a packet whose bytes have no meaning. -/
def recordMalformed (t : Tally) : Tally := t.record (.drop .malformed : Decision Unit)

end Tally

end SpanningMesh
