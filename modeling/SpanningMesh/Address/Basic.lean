/-!
# Socket addresses

The address of a socket is that of a host and a port.  A host has a version 4
address of four bytes or a version 6 address of eight groups of sixteen bits, which
may come with the number of the interface it belongs to, its scope.
-/

namespace SpanningMesh

/-- A version 4 address. -/
structure IPv4 where
  a : UInt8
  b : UInt8
  c : UInt8
  d : UInt8
deriving Repr, DecidableEq, Inhabited

namespace IPv4

/-- The first two bytes as one group. -/
def high (ip : IPv4) : UInt16 := UInt16.ofNat (256 * ip.a.toNat + ip.b.toNat)

/-- The last two bytes as one group. -/
def low (ip : IPv4) : UInt16 := UInt16.ofNat (256 * ip.c.toNat + ip.d.toNat)

/-- The address that the last two groups of a longer one make. -/
def ofGroups (high low : UInt16) : IPv4 :=
  ⟨UInt8.ofNat (high.toNat / 256), UInt8.ofNat high.toNat, UInt8.ofNat (low.toNat / 256),
    UInt8.ofNat low.toNat⟩

end IPv4

/-- A version 6 address. -/
structure IPv6 where
  groups : List UInt16
  length_groups : groups.length = 8
deriving DecidableEq

namespace IPv6

/-- The address of eight groups, if there are as many. -/
def ofGroups? (groups : List UInt16) : Option IPv6 :=
  if h : groups.length = 8 then some ⟨groups, h⟩ else none

/-- The version 4 address that a version 6 address stands for, if it is one of those. -/
def mapped? (ip : IPv6) : Option IPv4 :=
  match ip.groups with
  | [0, 0, 0, 0, 0, 0xFFFF, high, low] => some (.ofGroups high low)
  | _ => none

end IPv6

/-- The address of a socket. -/
inductive SocketAddress where
  | v4 (ip : IPv4) (port : UInt16)
  /-- By a version 6 address and its scope, which is 0 if there is none. -/
  | v6 (ip : IPv6) (scope : UInt32) (port : UInt16)
deriving DecidableEq

end SpanningMesh
