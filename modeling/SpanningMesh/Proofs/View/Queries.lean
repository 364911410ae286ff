import SpanningMesh.Proofs.View.TimeSource

/-!
# What a view says of the mesh

A node asks its view whether it knows another node, which way leads there, how many nodes there are,
what their ids are and whether the root is among them.  It tells its peers a tree that is put
together from the same branches, without those of which nothing is known.  Each question is
answered from the branches in its own way: by counting, by listing, or by a search for the first
branch that holds an id.  The answers agree with each other, and with what the tree that is told
says, as long as the tree of a branch is unknown as a whole or known from its top on
(`Branch.Told`).
-/

namespace SpanningMesh

namespace View

variable {κ : Type} [DecidableEq κ] {v : View κ} {id : UInt32}

omit [DecidableEq κ] in
/-- The way to a node leads through the first link that has the id of the node behind it. -/
theorem routeTo_eq_find? (h : id ≠ 0) :
    v.routeTo id = (v.branches.find? (id ∈ ·.tree.ids)).map Branch.link := by
  have same : (fun b : Branch κ => b.tree.contains id) = fun b => decide (id ∈ b.tree.ids) := by
    funext b
    rw [Bool.eq_iff_iff, Tree.contains_iff_mem_ids h, decide_eq_true_eq]
  rw [routeTo, if_neg h, same]

omit [DecidableEq κ] in
/-- There is a way to the nodes whose ids lie behind some link. -/
theorem isSome_routeTo_iff (h : id ≠ 0) : (v.routeTo id).isSome = true ↔ id ∈ v.remoteIds := by
  rw [routeTo_eq_find? h, Option.isSome_map, List.find?_isSome, remoteIds, List.mem_flatMap]
  simp only [decide_eq_true_eq]

omit [DecidableEq κ] in
/-- The nodes that a view knows are those whose ids it lists. -/
theorem contains_iff : v.contains id = true ↔ id ≠ 0 ∧ id ∈ v.ids := by
  rw [contains, Bool.and_eq_true, bne_iff_ne, Bool.or_eq_true, beq_iff_eq, ids, List.mem_cons]
  exact and_congr_right fun known => or_congr_right (isSome_routeTo_iff known)

/-- Let every branch of a view be unknown or known from its top on.  Then its size is the number of
its ids, it knows exactly the nodes whose ids it lists, and the way to a node leads through the first
link with the id behind it.  As a tree it has the same ids in the same order, the same size and the
root exactly when the view has.  The tree that is told on a link is that of the view in which the
link has no branch. -/
theorem queries_agree (hv : v.node ≠ 0) (told : ∀ b ∈ v.branches, b.Told) :
    v.size = v.ids.length ∧
    (∀ id, v.contains id = true ↔ id ≠ 0 ∧ id ∈ v.ids) ∧
    (∀ id ≠ 0, v.routeTo id = (v.branches.find? (id ∈ ·.tree.ids)).map Branch.link) ∧
    (v.tree.ids = v.ids ∧ v.tree.size = v.size ∧ v.tree.containsRoot = v.containsRoot) ∧
    ∀ link, v.treeExcept link =
      ({ v with branches := v.branches.filter (·.link ≠ link) } : View κ).tree :=
  ⟨v.length_ids.symm, fun _ => contains_iff, fun _ known => routeTo_eq_find? known,
    ⟨ids_treeOver_told hv told, size_treeOver hv told, containsRoot_treeOver told⟩, fun _ => rfl⟩

/-- A view with a branch that is unknown, a node that is not known within a tree, and two branches
of one link, of which the second has the root. -/
def patchwork : View Nat :=
  ⟨1, false, [⟨10, .unknown⟩, ⟨11, ⟨2, false, [⟨0, false, [⟨7, false, []⟩]⟩]⟩⟩, ⟨12, ⟨7, false, []⟩⟩,
    ⟨11, ⟨4, true, []⟩⟩]⟩

theorem queries_agree_patchwork :
    patchwork.node ≠ 0 ∧ (∀ b ∈ patchwork.branches, b.Told) ∧
      patchwork.tree.ids = [1, 2, 7, 7, 4] ∧ patchwork.size = 5 ∧ patchwork.routeTo 7 = some 11 ∧
      patchwork.tree.containsRoot = true ∧ patchwork.treeExcept 11 = ⟨1, false, [⟨7, false, []⟩]⟩ := by
  have own : patchwork.node ≠ 0 := by decide
  have told : ∀ b ∈ patchwork.branches, b.Told := by decide
  obtain ⟨size, -, route, ⟨ids, -, root⟩, except⟩ := queries_agree own told
  exact ⟨own, told, ids, size, route 7 (by decide), root, except 11⟩

end View

end SpanningMesh
