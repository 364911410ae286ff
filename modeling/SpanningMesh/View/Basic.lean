import SpanningMesh.Tree.Basic

/-!
# What one node sees

A `View` is what a node knows of the mesh at one time: its own id and root flag,
and for every link the tree that lies behind it.  The links are in the order in
which they were opened.

The tree a node tells a peer about is its own view without the branch of their
link, since the peer knows that part better.  Branches of which nothing is known
yet are left out of it.

A route exists to a node that lies behind some link, and goes through the first
such link.  The id 0 stands for no node and is never found.
-/

namespace SpanningMesh

/-- A link and the tree behind it. -/
structure Branch (κ : Type) where
  link : κ
  /-- The tree behind it. -/
  tree : Tree
deriving Repr

/-- What a node knows of the mesh. -/
structure View (κ : Type) where
  node : UInt32
  root : Bool
  /-- What lies behind its links, oldest link first. -/
  branches : List (Branch κ)
deriving Repr

namespace View

variable {κ : Type} [DecidableEq κ]

/-- The node over the branches that are known. -/
def treeOver (v : View κ) (branches : List (Branch κ)) : Tree :=
  ⟨v.node, v.root, (branches.filter (·.tree.id != 0)).map Branch.tree⟩

/-- The branch of a link. -/
def branch? (v : View κ) (link : κ) : Option (Branch κ) := v.branches.find? (·.link = link)

/-- The branches of all links but one. -/
def others (v : View κ) (link : κ) : List (Branch κ) := v.branches.filter (·.link ≠ link)

/-- The view as a tree. -/
def tree (v : View κ) : Tree := v.treeOver v.branches

/-- The view as a tree, without the branch of a link. -/
def treeExcept (v : View κ) (link : κ) : Tree := v.treeOver (v.others link)

/-- The link that leads to a node. -/
def routeTo (v : View κ) (dest : UInt32) : Option κ :=
  if dest = 0 then none else (v.branches.find? (·.tree.contains dest)).map Branch.link

/-- Whether a node is known, the own one included. -/
def contains (v : View κ) (id : UInt32) : Bool :=
  id != 0 && (id == v.node || (v.routeTo id).isSome)

/-- Whether the designated root is known, the own node included. -/
def containsRoot (v : View κ) : Bool := v.root || v.branches.any (·.tree.containsRoot)

/-- The ids of the nodes behind all links. -/
def remoteIds (v : View κ) : List UInt32 := v.branches.flatMap (·.tree.ids)

/-- The ids of all known nodes, the own one first. -/
def ids (v : View κ) : List UInt32 := v.node :: v.remoteIds

/-- How many known nodes some branches have. -/
def countNodes (branches : List (Branch κ)) : Nat :=
  branches.foldr (fun b n => b.tree.size + n) 0

/-- How many nodes are known, the own one included. -/
def size (v : View κ) : Nat := 1 + countNodes v.branches

omit [DecidableEq κ] in
theorem length_ids_of_branches (bs : List (Branch κ)) :
    (bs.flatMap (·.tree.ids)).length = countNodes bs := by
  induction bs with
  | nil => rfl
  | cons b bs ih =>
      simp only [List.flatMap_cons, List.length_append, ih, Tree.length_ids]
      simp [countNodes]

omit [DecidableEq κ] in
/-- The size of a view is the number of its ids. -/
theorem length_ids (v : View κ) : v.ids.length = v.size := by
  simp only [ids, remoteIds, List.length_cons, length_ids_of_branches, size]
  omega

end View

/-! ## Replacing a tree -/

/-- Whether something new was learnt. -/
inductive Change where
  | changed
  | unchanged
deriving Repr, DecidableEq, Inhabited

namespace Change

/-- What a new tree in place of a stored one brings. -/
def between (stored incoming : Tree) : Change := if stored = incoming then unchanged else changed

end Change

end SpanningMesh
