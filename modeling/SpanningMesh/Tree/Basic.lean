/-!
# Trees of nodes

A `Tree` is a node and everything that is reachable through it: its id, whether
it is the designated root, and the trees behind its links in link order.  The id
0 stands for a node that is not known yet, and `Tree.unknown` is the tree of
which nothing is known.

Every question about the nodes of a tree is asked of one view, `Tree.nodes`, the
ids and root flags in pre-order.  `ids` leaves out the unknown nodes, `size`
counts the rest, and `contains` and `containsRoot` look for one node.  The same
functions by recursion over the tree are `ids_eq`, `size_eq`, `contains_eq` and
`containsRoot_eq`.

Equality is deep and minds the order of the links.
-/

namespace SpanningMesh

/-- A node and the trees behind its links. -/
structure Tree where
  /-- The id of the node, 0 if it is not known. -/
  id : UInt32
  root : Bool := false
  /-- The trees behind the links of the node, in link order. -/
  subs : List Tree := []
deriving Repr, Inhabited

namespace Tree

/-! ## Equality -/

mutual

/-- Equality of trees is decidable. -/
def decEq : (s t : Tree) → Decidable (s = t)
  | ⟨i, r, ss⟩, ⟨j, q, ts⟩ =>
      if h : i = j ∧ r = q then
        match decEqAll ss ts with
        | isTrue e => isTrue (by rw [h.1, h.2, e])
        | isFalse n => isFalse fun e => n (Tree.mk.inj e).2.2
      else isFalse fun e => h ⟨(Tree.mk.inj e).1, (Tree.mk.inj e).2.1⟩

/-- Equality of lists of trees is decidable. -/
def decEqAll : (ss ts : List Tree) → Decidable (ss = ts)
  | [], [] => isTrue rfl
  | [], _ :: _ => isFalse nofun
  | _ :: _, [] => isFalse nofun
  | s :: ss, t :: ts =>
      match decEq s t with
      | isTrue e =>
          match decEqAll ss ts with
          | isTrue f => isTrue (by rw [e, f])
          | isFalse n => isFalse fun h => n (List.cons.inj h).2
      | isFalse n => isFalse fun h => n (List.cons.inj h).1

end

instance : DecidableEq Tree := decEq

/-! ## The nodes of a tree -/

mutual

/-- The ids and root flags of all nodes, each node before those behind it. -/
def nodes : Tree → List (UInt32 × Bool)
  | ⟨id, root, subs⟩ => (id, root) :: nodesOfAll subs

/-- The nodes of several trees, one tree after the other. -/
def nodesOfAll : List Tree → List (UInt32 × Bool)
  | [] => []
  | t :: ts => t.nodes ++ nodesOfAll ts

end

theorem nodesOfAll_eq_flatMap (ts : List Tree) : nodesOfAll ts = ts.flatMap nodes := by
  induction ts with
  | nil => rfl
  | cons t ts ih => simp [nodesOfAll, ih]

theorem nodes_eq (t : Tree) : t.nodes = (t.id, t.root) :: t.subs.flatMap nodes := by
  obtain ⟨id, root, subs⟩ := t
  simp [nodes, nodesOfAll_eq_flatMap]

/-- The ids of the known nodes in pre-order. -/
def ids (t : Tree) : List UInt32 := (t.nodes.map Prod.fst).filter (· != 0)

/-- How many known nodes the tree has. -/
def size (t : Tree) : Nat := t.nodes.countP (·.1 != 0)

/-- Whether an id is that of some node, known or not. -/
def contains (t : Tree) (id : UInt32) : Bool := t.nodes.any (·.1 == id)

/-- Whether some node is the designated root. -/
def containsRoot (t : Tree) : Bool := t.nodes.any (·.2)

/-! Each of these functions is the recursion over the trees behind the links that one would write for
it. -/

/-- The ids of a tree are that of its top, if it is known, and those behind it. -/
theorem ids_eq (t : Tree) : t.ids = [t.id].filter (· != 0) ++ t.subs.flatMap ids := by
  have behind : t.subs.flatMap ids =
      ((t.subs.flatMap nodes).map Prod.fst).filter (· != 0) := by
    rw [List.map_flatMap, List.filter_flatMap]
    rfl
  rw [ids, nodes_eq, List.map_cons, behind, ← List.filter_append, List.singleton_append]

/-- The size of a tree is the sum of those behind its top, and one more if the top is known. -/
theorem size_eq (t : Tree) :
    t.size = (if t.id = 0 then 0 else 1) + t.subs.foldr (fun s n => s.size + n) 0 := by
  have behind : ∀ ts : List Tree,
      (ts.flatMap nodes).countP (·.1 != 0) = ts.foldr (fun s n => s.size + n) 0 := by
    intro ts
    induction ts with
    | nil => rfl
    | cons s ts ih => rw [List.flatMap_cons, List.countP_append, ih, List.foldr_cons, size]
  rw [size, nodes_eq, List.countP_cons, behind, Nat.add_comm]
  by_cases unknown : t.id = 0 <;> simp [unknown]

/-- A tree contains an id if its top has it or a tree behind the top contains it. -/
theorem contains_eq (t : Tree) (id : UInt32) :
    t.contains id = (t.id == id || t.subs.any (·.contains id)) := by
  rw [contains, nodes_eq, List.any_cons, List.any_flatMap]
  rfl

/-- A tree has the root if its top is the root or a tree behind the top has it. -/
theorem containsRoot_eq (t : Tree) : t.containsRoot = (t.root || t.subs.any containsRoot) := by
  rw [containsRoot, nodes_eq, List.any_cons, List.any_flatMap]
  rfl

/-- The size of a tree is the number of its ids. -/
theorem length_ids (t : Tree) : t.ids.length = t.size := by
  simp [ids, size, List.countP_eq_length_filter, List.filter_map, Function.comp_def]

/-- A known id is contained exactly when it is among the ids. -/
theorem contains_iff_mem_ids {t : Tree} {id : UInt32} (h : id ≠ 0) :
    t.contains id = true ↔ id ∈ t.ids := by
  simp [contains, ids, h]

/-! ## The depth of a tree -/

mutual

/-- The number of nodes on the longest way from the top down to a leaf. -/
def depth : Tree → Nat
  | ⟨_, _, subs⟩ => depthOfAll subs + 1

/-- The depth of the deepest of several trees. -/
def depthOfAll : List Tree → Nat
  | [] => 0
  | t :: ts => max t.depth (depthOfAll ts)

end

/-! ## The unknown tree -/

/-- The tree of which nothing is known. -/
def unknown : Tree := ⟨0, false, []⟩

/-- Whether neither the top nor anything behind it is known.  The root flag does not
count. -/
def isEmpty (t : Tree) : Bool := t.id == 0 && t.subs.isEmpty

/-! ## Examples -/

example : (⟨1, true, [⟨2, false, [⟨3, false, []⟩]⟩, ⟨0, false, []⟩]⟩ : Tree).ids = [1, 2, 3] := by
  decide

example : (⟨1, true, [⟨2, false, [⟨3, false, []⟩]⟩, ⟨0, false, []⟩]⟩ : Tree).depth = 3 := by
  decide

end Tree

end SpanningMesh
