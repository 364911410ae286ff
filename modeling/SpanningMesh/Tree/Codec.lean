import SpanningMesh.Codec.Field
import SpanningMesh.Tree.Basic

/-!
# The wire form of a tree

A tree is written in pre-order.  Each node is its id (4 bytes), its root flag
(1 byte), the number of trees behind it (2 bytes), and then those trees.  A leaf
takes `minTreeSize` bytes.

Writing and reading both count down the levels that are left, from
`maxTreeDepth`, and stop with `treeTooDeep` when none is.  The reader checks,
before it starts on the trees behind a node, that there is at least a leaf's
worth of bytes for each of them.  So a forged count cannot make it work long.
-/

namespace SpanningMesh

namespace Tree

/-- The number of bytes of a leaf. -/
def minTreeSize : Nat := 7

/-- Write a tree that may have so many levels. -/
def encodeWithin : (levels : Nat) → Tree → Encoding
  | 0, _ => .fail (.malformed .treeTooDeep)
  | levels + 1, t =>
      if t.subs.length < 65536 then
        Field.encode t.id ++ Field.encode t.root ++ .word 2 t.subs.length
          ++ Encoding.concat (t.subs.map (encodeWithin levels))
      else .fail (.tooLarge t.subs.length)

/-- Read a tree that may have so many levels. -/
def decodeWithin : (levels : Nat) → Read Tree
  | 0 => Read.fail (.malformed .treeTooDeep)
  | levels + 1 => do
      let id ← Field.decode (α := UInt32)
      let root ← Field.decode (α := Bool)
      let count ← Read.word 2
      Read.require (count * minTreeSize)
      let subs ← Read.replicate count (decodeWithin levels)
      return ⟨id, root, subs⟩

instance : Field Tree where
  encode := encodeWithin maxTreeDepth
  decode := decodeWithin maxTreeDepth

end Tree

end SpanningMesh
