import SpanningMesh.View.Basic

/-!
# What may hang on a link

A mesh is a tree as long as no node can be reached in two ways.  A node checks
every tree that a peer announces before it stores it.  `checkTree` asks four things
in turn: the peer has not changed its id, the tree does not contain the node
itself, it names no node twice, and apart from its top it names no node that lies
behind another link.  The top itself is checked by `checkPeer`, once, when the
peer is heard of for the first time.
-/

namespace SpanningMesh

/-- Why a tree may not hang on a link. -/
inductive TopologyError where
  | cyclic (id : UInt32)
  | duplicate (id : UInt32)
  | identity (expected reported : UInt32)
deriving Repr, DecidableEq

namespace TopologyError

/-- What is said of a tree or a peer that is refused. -/
def message : TopologyError → String
  | cyclic id => s!"cyclic topology through node {id}"
  | duplicate id => s!"duplicate link to node {id}"
  | identity expected reported =>
      s!"link belongs to node {expected}, subtree describes {reported}"

end TopologyError

/-- The first value that was seen before. -/
def firstRepeat {α : Type} [DecidableEq α] (seen : List α) : List α → Option α
  | [] => none
  | x :: xs => if x ∈ seen then some x else firstRepeat (x :: seen) xs

namespace View

variable {κ : Type} [DecidableEq κ]

/-- Whether a node lies behind a link other than the given one. -/
def behindOther (v : View κ) (link : κ) (id : UInt32) : Bool :=
  (v.others link).any (·.tree.contains id)

/-- Check a tree that is to hang on a link.  `known` is the id of the peer, 0 if it is
not known. -/
def checkTree (v : View κ) (link : κ) (known : UInt32) (t : Tree) : Except TopologyError Unit :=
  if known ≠ 0 ∧ t.id ≠ known then .error (.identity known t.id)
  else if t.contains v.node then .error (.cyclic v.node)
  else
    match firstRepeat [] t.ids with
    | some id => .error (.cyclic id)
    | none =>
        match t.ids.find? (fun id => id != t.id && v.behindOther link id) with
        | some id => .error (.cyclic id)
        | none => .ok ()

/-- Check that a peer cannot be reached through another link. -/
def checkPeer (v : View κ) (link : κ) (id : UInt32) : Except TopologyError Unit :=
  if v.behindOther link id then .error (.duplicate id) else .ok ()

end View

end SpanningMesh
