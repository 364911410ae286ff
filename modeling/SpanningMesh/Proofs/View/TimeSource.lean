import SpanningMesh.Proofs.View.Admission
import SpanningMesh.View.TimeSource

/-!
# Time flows one way

The two ends of a link decide on their own whether to adopt the time of the other end, each by
what it sees.  Here the two decisions are compared, for any two nodes that have told each other
what they see.

An end that tells its tree leaves out the branch of the link and the branches of which nothing
is known.  So its peer sees as many nodes behind the link as the end itself sees apart from the
link, and a root there exactly when the end sees one (`View.size_treeOver`,
`View.containsRoot_treeOver`).  Both ends therefore weigh the same two trees
(`View.adoptsTimeFrom_eq_yieldsTo`).  Of two trees with different tops exactly one yields to the
other, unless both claim to have the root (`Tree.one_yields`).
-/

namespace SpanningMesh

/-- Nothing at all is known of a branch, or its top is. -/
def Branch.Told {κ : Type} (b : Branch κ) : Prop := b.tree = .unknown ∨ b.tree.id ≠ 0

instance {κ : Type} (b : Branch κ) : Decidable b.Told :=
  inferInstanceAs (Decidable (b.tree = .unknown ∨ b.tree.id ≠ 0))

/-- How many nodes of some branches have the root flag. -/
def rootFlags {κ : Type} (bs : List (Branch κ)) : Nat :=
  (bs.flatMap (·.tree.nodes)).countP (·.2)

/-- A branch holds the root if there is a root flag somewhere in the branches. -/
theorem any_containsRoot_iff {κ : Type} {bs : List (Branch κ)} :
    bs.any (·.tree.containsRoot) = true ↔ 0 < rootFlags bs := by
  rw [rootFlags, List.countP_pos_iff, ← List.any_eq_true, List.any_flatMap]
  rfl

/-! ## Two trees -/

namespace Tree

variable {s t : Tree}

theorem root_eq_false (h : t.containsRoot = false) : t.root = false := by
  rw [containsRoot_eq, Bool.or_eq_false_iff] at h
  exact h.1

/-- Whether the top of a tree takes the time of another tree: the other tree has the root, or
neither has it and the other tree is larger, or as large with the higher id at its top. -/
def yieldsTo (s t : Tree) : Bool :=
  !s.root && (t.containsRoot || !s.containsRoot &&
    (if s.size ≠ t.size then s.size < t.size else s.id < t.id))

/-- The tree without the root yields to the one that has it. -/
theorem yieldsTo_root (here : s.containsRoot = false) (there : t.containsRoot = true) :
    s.yieldsTo t = true ∧ t.yieldsTo s = false := by
  simp [yieldsTo, root_eq_false here, here, there]

/-- Without a root the size and the id order any two trees. -/
theorem one_yields_of_no_root (tops : s.id ≠ t.id) (here : s.containsRoot = false)
    (there : t.containsRoot = false) : (s.yieldsTo t ^^ t.yieldsTo s) = true := by
  simp only [yieldsTo, root_eq_false here, root_eq_false there, here, there, Bool.not_false,
    Bool.true_and, Bool.false_or]
  by_cases sizes : s.size = t.size
  · rcases UInt32.lt_or_lt_of_ne tops with lt | gt
    · simp [sizes, lt, UInt32.lt_asymm lt]
    · simp [sizes, gt, UInt32.lt_asymm gt]
  · rcases Nat.lt_or_gt_of_ne sizes with lt | gt
    · simp [sizes, Ne.symm sizes, lt, Nat.lt_asymm lt]
    · simp [sizes, Ne.symm sizes, gt, Nat.lt_asymm gt]

/-- Of two trees that do not both have the root exactly one yields to the other. -/
theorem one_yields (tops : s.id ≠ t.id)
    (roots : ¬ (s.containsRoot = true ∧ t.containsRoot = true)) :
    (s.yieldsTo t ^^ t.yieldsTo s) = true := by
  cases here : s.containsRoot with
  | true =>
      have there : t.containsRoot = false := by simpa [here] using roots
      obtain ⟨yields, stays⟩ := yieldsTo_root there here
      rw [yields, stays]
      rfl
  | false =>
      cases there : t.containsRoot with
      | true =>
          obtain ⟨yields, stays⟩ := yieldsTo_root here there
          rw [yields, stays]
          rfl
      | false => exact one_yields_of_no_root tops here there

end Tree

namespace View

variable {κ μ : Type} [DecidableEq κ] [DecidableEq μ] {v : View κ} {w : View μ} {l : κ} {m : μ}

/-! ## What the other end sees -/

omit [DecidableEq κ] in
/-- A branch of which nothing is known has no ids, so that it does not matter whether it is left
out. -/
theorem flatMap_ids_told {bs : List (Branch κ)} (told : ∀ b ∈ bs, b.Told) :
    (bs.filter (·.tree.id != 0)).flatMap (·.tree.ids) = bs.flatMap (·.tree.ids) := by
  induction bs with
  | nil => rfl
  | cons b bs ih =>
      obtain ⟨here, rest⟩ := List.forall_mem_cons.mp told
      rcases here with unknown | known
      · rw [List.filter_cons_of_neg (by rw [unknown]; decide), ih rest, List.flatMap_cons, unknown,
          Tree.ids_unknown, List.nil_append]
      · rw [List.filter_cons_of_pos (by simpa using known), List.flatMap_cons, List.flatMap_cons,
          ih rest]

omit [DecidableEq κ] in
/-- Such a branch has no root in it either. -/
theorem any_containsRoot_told {bs : List (Branch κ)} (told : ∀ b ∈ bs, b.Told) :
    (bs.filter (·.tree.id != 0)).any (·.tree.containsRoot) =
      bs.any (·.tree.containsRoot) := by
  rw [Bool.eq_iff_iff, List.any_filter]
  simp only [List.any_eq_true, Bool.and_eq_true, bne_iff_ne]
  constructor
  · rintro ⟨b, there, -, root⟩
    exact ⟨b, there, root⟩
  · rintro ⟨b, there, root⟩
    refine ⟨b, there, ?_, root⟩
    rcases told b there with unknown | known
    · rw [unknown] at root
      exact absurd root (by decide)
    · exact known

omit [DecidableEq κ] in
/-- The ids of a node over some branches are its own and those of the branches. -/
theorem ids_treeOver_told {bs : List (Branch κ)} (hv : v.node ≠ 0) (told : ∀ b ∈ bs, b.Told) :
    (v.treeOver bs).ids = v.node :: bs.flatMap (·.tree.ids) := by
  rw [ids_treeOver hv, flatMap_ids_told told]

omit [DecidableEq κ] in
/-- A node over some branches counts for one more than the branches do. -/
theorem size_treeOver {bs : List (Branch κ)} (hv : v.node ≠ 0) (told : ∀ b ∈ bs, b.Told) :
    (v.treeOver bs).size = 1 + countNodes bs := by
  rw [← Tree.length_ids, ids_treeOver_told hv told, List.length_cons, length_ids_of_branches,
    Nat.add_comm]

omit [DecidableEq κ] in
/-- A node over some branches has a root when it is one or a branch has one. -/
theorem containsRoot_treeOver {bs : List (Branch κ)} (told : ∀ b ∈ bs, b.Told) :
    (v.treeOver bs).containsRoot = (v.root || bs.any (·.tree.containsRoot)) := by
  rw [Tree.containsRoot_eq, ← any_containsRoot_told told, treeOver, List.any_map]
  rfl

/-- The node weighs what it tells against what it is told, and no more. -/
theorem adoptsTimeFrom_eq_yieldsTo {t : Tree} (hv : v.node ≠ 0) (told : ∀ b ∈ v.others l, b.Told)
    (there : v.branch? l = some ⟨l, t⟩) :
    v.adoptsTimeFrom l = (v.treeExcept l).yieldsTo t := by
  have top : (v.treeExcept l).root = v.root := rfl
  have id : (v.treeExcept l).id = v.node := rfl
  have size : (v.treeExcept l).size = 1 + countNodes (v.others l) := size_treeOver hv told
  have root : (v.treeExcept l).containsRoot =
      (v.root || (v.others l).any (·.tree.containsRoot)) := containsRoot_treeOver told
  rw [Tree.yieldsTo, top, id, size, root]
  simp only [adoptsTimeFrom, there]
  cases v.root <;> cases t.containsRoot <;>
    cases (v.others l).any (·.tree.containsRoot) <;> simp

/-! ## The two ends of a link -/

/-- Two nodes that have told each other what they see, and that do not both have a root to show:
exactly one of them adopts the time of the other. -/
theorem one_adopts (hv : v.node ≠ 0) (hw : w.node ≠ 0) (apart : v.node ≠ w.node)
    (told : ∀ b ∈ v.others l, b.Told) (told' : ∀ b ∈ w.others m, b.Told)
    (roots : ¬ ((v.treeExcept l).containsRoot = true ∧ (w.treeExcept m).containsRoot = true))
    (there : v.branch? l = some ⟨l, w.treeExcept m⟩)
    (there' : w.branch? m = some ⟨m, v.treeExcept l⟩) :
    (v.adoptsTimeFrom l ^^ w.adoptsTimeFrom m) = true := by
  rw [adoptsTimeFrom_eq_yieldsTo hv told there, adoptsTimeFrom_eq_yieldsTo hw told' there']
  exact Tree.one_yields apart roots

/-! ### A link among others -/

section

variable {a b : UInt32} {ra rb : Bool} {fa fa' : List (Branch κ)} {fb fb' : List (Branch μ)}
  {t : Tree}

/-- Without a branch the others are left. -/
theorem others_of_insert (free : ∀ x ∈ fa ++ fa', x.link ≠ l) :
    View.others ⟨a, ra, fa ++ ⟨l, t⟩ :: fa'⟩ l = fa ++ fa' := by
  obtain ⟨before, after⟩ := List.forall_mem_append.mp free
  rw [others, List.filter_append, List.filter_cons_of_neg (by simp),
    List.filter_eq_self.mpr (by simpa using before), List.filter_eq_self.mpr (by simpa using after)]

theorem branch?_of_insert (free : ∀ x ∈ fa ++ fa', x.link ≠ l) :
    View.branch? ⟨a, ra, fa ++ ⟨l, t⟩ :: fa'⟩ l = some ⟨l, t⟩ := by
  have before : fa.find? (·.link = l) = none := by
    rw [List.find?_eq_none]
    intro x there
    simpa using free x (List.mem_append_left _ there)
  rw [branch?, List.find?_append, before, Option.none_or, List.find?_cons_of_pos (by simp)]

/-- A tree without one branch is the tree over the others. -/
theorem treeExcept_of_insert (free : ∀ x ∈ fa ++ fa', x.link ≠ l) :
    View.treeExcept ⟨a, ra, fa ++ ⟨l, t⟩ :: fa'⟩ l = View.tree ⟨a, ra, fa ++ fa'⟩ := by
  rw [treeExcept, others_of_insert free]
  rfl

omit [DecidableEq κ] in
/-- A node that shows a root has it or is told of it. -/
theorem rootFlags_of_containsRoot (told : ∀ x ∈ fa, x.Told)
    (root : (View.tree ⟨a, ra, fa⟩).containsRoot = true) : 0 < ra.toNat + rootFlags fa := by
  rw [tree, containsRoot_treeOver told, Bool.or_eq_true, any_containsRoot_iff] at root
  rcases root with own | behind
  · rw [show ra = true from own]
    exact Nat.add_pos_left Nat.one_pos _
  · exact Nat.add_pos_right _ behind

/-- Let two nodes have any branches, each told or unknown, and put a link between them at any
place, on which each has the tree that the other tells.  With at most one root flag in all, exactly
one end adopts the time of the other. -/
theorem adopts_at_one_end (ha : a ≠ 0) (hb : b ≠ 0) (apart : a ≠ b)
    (free : ∀ x ∈ fa ++ fa', x.link ≠ l) (free' : ∀ y ∈ fb ++ fb', y.link ≠ m)
    (told : ∀ x ∈ fa ++ fa', x.Told) (told' : ∀ y ∈ fb ++ fb', y.Told)
    (roots : ra.toNat + rootFlags (fa ++ fa') + (rb.toNat + rootFlags (fb ++ fb')) ≤ 1) :
    let v : View κ := ⟨a, ra, fa ++ ⟨l, View.tree ⟨b, rb, fb ++ fb'⟩⟩ :: fa'⟩
    let w : View μ := ⟨b, rb, fb ++ ⟨m, View.tree ⟨a, ra, fa ++ fa'⟩⟩ :: fb'⟩
    (v.branch? l = some ⟨l, w.treeExcept m⟩ ∧ w.branch? m = some ⟨m, v.treeExcept l⟩) ∧
      (v.adoptsTimeFrom l ^^ w.adoptsTimeFrom m) = true := by
  intro v w
  have shown : v.treeExcept l = View.tree ⟨a, ra, fa ++ fa'⟩ := treeExcept_of_insert free
  have shown' : w.treeExcept m = View.tree ⟨b, rb, fb ++ fb'⟩ := treeExcept_of_insert free'
  have there : v.branch? l = some ⟨l, w.treeExcept m⟩ := by
    rw [shown']
    exact branch?_of_insert free
  have there' : w.branch? m = some ⟨m, v.treeExcept l⟩ := by
    rw [shown]
    exact branch?_of_insert free'
  have others : v.others l = fa ++ fa' := others_of_insert free
  have others' : w.others m = fb ++ fb' := others_of_insert free'
  refine ⟨⟨there, there'⟩, one_adopts ha hb apart (by rwa [others]) (by rwa [others']) ?_ there
    there'⟩
  rw [shown, shown']
  rintro ⟨root, root'⟩
  have := rootFlags_of_containsRoot told root
  have := rootFlags_of_containsRoot told' root'
  omega

/-- Node 1 has the root behind it.  Node 2 has a node behind it, and a link of which nothing is
known.  Both sides are as large, and node 2 adopts. -/
theorem adopts_at_one_end_root :
    let near : List (Branch Nat) := [⟨11, ⟨5, true, []⟩⟩]
    let far : List (Branch Nat) := [⟨20, ⟨6, false, []⟩⟩, ⟨22, .unknown⟩]
    let v : View Nat := ⟨1, false, ⟨10, ⟨2, false, [⟨6, false, []⟩]⟩⟩ :: near⟩
    let w : View Nat := ⟨2, false, far ++ [⟨21, ⟨1, false, [⟨5, true, []⟩]⟩⟩]⟩
    (∀ x ∈ near, x.Told) ∧ (∀ y ∈ far, y.Told) ∧ rootFlags near + rootFlags far ≤ 1 ∧
      (v.adoptsTimeFrom 10 ^^ w.adoptsTimeFrom 21) = true ∧ w.adoptsTimeFrom 21 = true := by
  intro near far v w
  have told : ∀ x ∈ near, x.Told := by decide
  have told' : ∀ y ∈ far, y.Told := by decide
  have roots : rootFlags near + rootFlags far ≤ 1 := by decide
  have ends := @adopts_at_one_end Nat Nat _ _ 10 21 1 2 false false [] near far [] (by decide)
    (by decide) (by decide) (by decide) (by decide) told (by decide) (by decide)
  exact ⟨told, told', roots, ends.2, by decide⟩

end

end View

end SpanningMesh
