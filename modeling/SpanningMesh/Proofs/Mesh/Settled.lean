import Mathlib.Logic.Relation
import SpanningMesh.Proofs.Mesh.LoopBreaking

/-!
# Settled meshes

A mesh has *settled* if every port holds the very tree that the port it faces would tell
now.  These equations speak of two nodes at a time, and yet they decide what the whole
mesh looks like: its cables make a forest, and every node knows the nodes of its
component and no others (`Settled.exact_views`).

Below the top of the tree at a port hang the trees at the ports that *follow* it: the
other ports of the node that the port faces.  Trees are finite, so no chain of followers
comes back to where it began.  If the tree at a port held the node of the port, there
would be such a chain.  So it does not, and since what a tree holds passes along every
other cable, each cable is a bridge.
-/

namespace SpanningMesh

open Relation (ReflTransGen TransGen)

variable {ι σ α : Type} {nodes : ι → Node σ α} {cables : Set (Cable ι)} {c d : Cable ι}
  {i j a b : ι} {p q r u w : Port ι} {x : UInt32}

/-- Two ports face each other over one of the cables. -/
def Facing (cables : Set (Cable ι)) (p q : Port ι) : Prop := ∃ c ∈ cables, c.Faces p q

theorem Facing.symm (h : Facing cables p q) : Facing cables q p := by
  obtain ⟨c, hc, faces⟩ := h
  exact ⟨c, hc, faces.symm⟩

theorem Facing.unique (plugged : Plugged cables) (h : Facing cables p q) (h' : Facing cables p r) :
    q = r := by
  obtain ⟨c, hc, faces⟩ := h
  obtain ⟨d, hd, faces'⟩ := h'
  obtain rfl := plugged c hc d hd _ _ _ faces faces'
  exact faces'.unique faces

theorem exists_faces (h : c.ends = s(a, b)) : ∃ u w, c.Faces u w ∧ u.node = a ∧ w.node = b := by
  rcases Sym2.eq_iff.mp h with ⟨rfl, rfl⟩ | ⟨rfl, rfl⟩
  · exact ⟨_, _, c.faces_ports, rfl, rfl⟩
  · exact ⟨_, _, c.faces_ports.symm, rfl, rfl⟩

/-- Every link belongs to a cable, and both its ends are synced and hold the tree that the
other end would send. -/
structure Settled (nodes : ι → Node σ α) (cables : Set (Cable ι)) : Prop where
  ids_ne : ∀ i, (nodes i).id ≠ 0
  ids_inj : Function.Injective fun i => (nodes i).id
  -- A cable joins two links, and no link is shared.  Their nodes may be one and the same.
  nodup : ∀ i, (nodes i).linkIds.Nodup
  plugged : Plugged cables
  distinct : ∀ c ∈ cables, c.dialer ≠ c.accepter
  wired : ∀ i, ∀ l ∈ (nodes i).links, ∃ q, Facing cables ⟨i, l.id⟩ q
  synced : ∀ p q, Facing cables p q → ∃ l, (nodes p.node).link? p.link = some l ∧
    l.phase = .synced ∧ l.subtree = (nodes q.node).view.treeExcept q.link

/-- The tree that a port holds. -/
def treeAt (nodes : ι → Node σ α) (p : Port ι) : Tree :=
  ((nodes p.node).link? p.link).elim .unknown Link.subtree

/-- A port is one of the other ports of the node that a port faces. -/
def Follows (cables : Set (Cable ι)) (p r : Port ι) : Prop :=
  ∃ q, Facing cables p q ∧ r.node = q.node ∧ r ≠ q ∧ ∃ u, Facing cables r u

theorem Follows.facing (h : Follows cables p r) : ∃ u, Facing cables r u := by
  obtain ⟨q, -, -, -, faces⟩ := h
  exact faces

namespace Settled

/-! ## The trees at ports -/

theorem irrefl (h : Settled nodes cables) : ¬ Facing cables p p := by
  rintro ⟨c, hc, ⟨hd, ha⟩ | ⟨hd, ha⟩⟩
  · exact h.distinct c hc (hd.trans ha.symm)
  · exact h.distinct c hc (hd.trans ha.symm)

/-- A link stores what the node at its other end knows beyond it. -/
theorem treeAt_eq (h : Settled nodes cables) (faces : Facing cables p q) :
    treeAt nodes p = (nodes q.node).view.treeExcept q.link := by
  obtain ⟨l, hl, -, tree⟩ := h.synced p q faces
  rw [treeAt, hl, ← tree]
  rfl

/-- The top of the tree at a port is the node that the port faces. -/
theorem id_treeAt (h : Settled nodes cables) (faces : Facing cables p q) :
    (treeAt nodes p).id = (nodes q.node).id := by
  rw [h.treeAt_eq faces]
  rfl

theorem treeAt_link (h : Settled nodes cables) {l : Link} (hl : l ∈ (nodes i).links) :
    treeAt nodes ⟨i, l.id⟩ = l.subtree := by
  rw [treeAt, Node.link?_of_mem (h.nodup i) hl]
  rfl

/-- A port of a cable is an open link. -/
theorem exists_link (h : Settled nodes cables) (faces : Facing cables p q) :
    ∃ l ∈ (nodes p.node).links, l.id = p.link ∧ l.subtree = treeAt nodes p := by
  obtain ⟨l, hl, -⟩ := h.synced p q faces
  refine ⟨l, Node.mem_links_of_link? hl, Node.id_of_link? hl, ?_⟩
  rw [treeAt, hl]
  rfl

theorem known (h : Settled nodes cables) {l : Link} (hl : l ∈ (nodes i).links) :
    l.subtree.id ≠ 0 := by
  obtain ⟨q, faces⟩ := h.wired i l hl
  rw [← h.treeAt_link hl, h.id_treeAt faces]
  exact h.ids_ne q.node

/-- Below the top of the tree at a port hang the trees of all other links of the node that
the port faces. -/
theorem subs_treeAt (h : Settled nodes cables) (faces : Facing cables p q) :
    (treeAt nodes p).subs =
      ((nodes q.node).links.filter (·.id ≠ q.link)).map Link.subtree := by
  have all : ∀ l ∈ (nodes q.node).links.filter (·.id ≠ q.link), l.subtree.id != 0 := by
    intro l hl
    exact bne_iff_ne.mpr (h.known (List.mem_of_mem_filter hl))
  rw [h.treeAt_eq faces]
  simp only [View.treeExcept, View.treeOver, View.others, Node.view, List.filter_map, List.map_map]
  exact congrArg _ (List.filter_eq_self.mpr all)

/-- The other links of the node that a port faces belong to ports that follow it. -/
theorem follows_link (h : Settled nodes cables) (faces : Facing cables p q) {l : Link}
    (hl : l ∈ (nodes q.node).links) (hne : l.id ≠ q.link) : Follows cables p ⟨q.node, l.id⟩ := by
  refine ⟨q, faces, rfl, fun same => hne ?_, h.wired _ l hl⟩
  rw [← same]

/-- Below the top of the tree at a port hang the trees of the ports that follow it. -/
theorem mem_subs_treeAt (h : Settled nodes cables) (faces : Facing cables p q) {s : Tree} :
    s ∈ (treeAt nodes p).subs ↔ ∃ r, Follows cables p r ∧ treeAt nodes r = s := by
  simp only [h.subs_treeAt faces, List.mem_map, List.mem_filter, decide_eq_true_eq]
  constructor
  · rintro ⟨l, ⟨hl, hne⟩, rfl⟩
    exact ⟨_, h.follows_link faces hl hne, h.treeAt_link hl⟩
  · rintro ⟨r, ⟨q', faces', same, hne, u, behind⟩, rfl⟩
    obtain rfl := faces.unique h.plugged faces'
    obtain ⟨l, hl, id, tree⟩ := h.exists_link behind
    refine ⟨l, ⟨same ▸ hl, fun id' => hne ?_⟩, tree⟩
    obtain ⟨i, k⟩ := r
    obtain ⟨i', k'⟩ := q
    exact Port.mk.injEq .. ▸ ⟨same, id.symm.trans id'⟩

/-- The tree behind a port starts with the node at the other end. -/
theorem ids_treeAt (h : Settled nodes cables) (faces : Facing cables p q) :
    (treeAt nodes p).ids = (nodes q.node).id :: (treeAt nodes p).subs.flatMap Tree.ids := by
  have top := h.id_treeAt faces
  rw [Tree.ids_eq_cons (top ▸ h.ids_ne q.node), top]

/-! ## Chains of followers -/

/-- The tree at a port that follows another is a smaller one. -/
theorem sizeOf_lt_of_follows (h : Settled nodes cables) (follows : Follows cables p r) :
    sizeOf (treeAt nodes r) < sizeOf (treeAt nodes p) := by
  have follows' := follows
  obtain ⟨q, faces, -⟩ := follows
  have below := (h.mem_subs_treeAt faces).mpr ⟨r, follows', rfl⟩
  have smaller := List.sizeOf_lt_of_mem below
  have parts : sizeOf (treeAt nodes p).subs < sizeOf (treeAt nodes p) := by
    cases treeAt nodes p
    simp only [Tree.mk.sizeOf_spec]
    omega
  omega

/-- Trees get smaller along a chain of ports, since each holds the next. -/
theorem sizeOf_lt_of_transGen (h : Settled nodes cables) (chain : TransGen (Follows cables) p r) :
    sizeOf (treeAt nodes r) < sizeOf (treeAt nodes p) := by
  induction chain with
  | single follows => exact h.sizeOf_lt_of_follows follows
  | tail _ follows ih => exact (h.sizeOf_lt_of_follows follows).trans ih

/-- So no chain of ports comes back to where it began. -/
theorem not_transGen_self (h : Settled nodes cables) : ¬ TransGen (Follows cables) p p :=
  fun chain => Nat.lt_irrefl _ (h.sizeOf_lt_of_transGen chain)

/-- No chain of followers leads from one port of a cable to the other. -/
theorem not_transGen_facing (h : Settled nodes cables) (faces : Facing cables p q) :
    ¬ TransGen (Follows cables) p q := by
  intro chain
  -- The chain runs along the cables of its ports, so it could be taken backwards as well:
  -- its second port and the last but one face each other too, or else follow in a circle.
  induction hn : sizeOf (treeAt nodes p) using Nat.strong_induction_on generalizing p q with
  | h n ih =>
    obtain ⟨p', first, rest⟩ := TransGen.head'_iff.mp chain
    have smaller := hn ▸ h.sizeOf_lt_of_follows first
    obtain ⟨q', faces', same, hne, behind⟩ := first
    obtain rfl := faces.unique h.plugged faces'
    rcases rest.cases_tail with rfl | ⟨r, middle, ⟨w, between, same', hne', -⟩⟩
    · exact hne rfl
    · by_cases hw : p' = w
      · subst hw
        rcases Relation.reflTransGen_iff_eq_or_transGen.mp middle with rfl | inner
        · exact h.irrefl between
        · exact ih _ smaller between.symm inner rfl
      · have last : Follows cables r p' := ⟨w, between, same.trans same', hw, behind⟩
        exact h.not_transGen_self (TransGen.tail' middle last)

/-! ## The nodes of the tree at a port -/

/-- The tree at a port holds the nodes that the port and the chains of followers from it face. -/
theorem mem_ids_treeAt (h : Settled nodes cables) (faces : Facing cables p q) :
    x ∈ (treeAt nodes p).ids ↔
      ∃ r u, ReflTransGen (Follows cables) p r ∧ Facing cables r u ∧ (nodes u.node).id = x := by
  induction hn : sizeOf (treeAt nodes p) using Nat.strong_induction_on generalizing p q with
  | h n ih =>
    have below : ∀ r, Follows cables p r → ∃ u, Facing cables r u ∧
        sizeOf (treeAt nodes r) < n := by
      intro r follows
      obtain ⟨u, faces'⟩ := follows.facing
      exact ⟨u, faces', hn ▸ h.sizeOf_lt_of_follows follows⟩
    rw [h.ids_treeAt faces, List.mem_cons, List.mem_flatMap]
    constructor
    · rintro (rfl | ⟨s, hs, hx⟩)
      · exact ⟨p, q, .refl, faces, rfl⟩
      · obtain ⟨r, follows, rfl⟩ := (h.mem_subs_treeAt faces).mp hs
        obtain ⟨u, faces', smaller⟩ := below r follows
        obtain ⟨r', u', chain, rest⟩ := (ih _ smaller faces' rfl).mp hx
        exact ⟨r', u', .head follows chain, rest⟩
    · rintro ⟨r, u, chain, faces', rfl⟩
      rcases chain.cases_head with rfl | ⟨r', follows, chain'⟩
      · obtain rfl := faces.unique h.plugged faces'
        exact .inl rfl
      · obtain ⟨u', faces'', smaller⟩ := below r' follows
        refine .inr ⟨_, (h.mem_subs_treeAt faces).mpr ⟨r', follows, rfl⟩, ?_⟩
        exact (ih _ smaller faces'' rfl).mpr ⟨r, u, chain', faces', rfl⟩

/-- The tree at a port does not hold the node of the port. -/
theorem own (h : Settled nodes cables) (faces : Facing cables p q) :
    (nodes p.node).id ∉ (treeAt nodes p).ids := by
  intro hx
  obtain ⟨r, u, chain, faces', same⟩ := (h.mem_ids_treeAt faces).mp hx
  have same : u.node = p.node := h.ids_inj same
  by_cases hu : p = u
  · subst hu
    obtain rfl := faces.unique h.plugged faces'.symm
    rcases Relation.reflTransGen_iff_eq_or_transGen.mp chain with rfl | chain'
    · exact h.irrefl faces
    · exact h.not_transGen_facing faces chain'
  · have last : Follows cables r p := ⟨u, faces', same.symm, hu, q, faces⟩
    exact h.not_transGen_self (TransGen.tail' chain last)

/-- What the tree at a port holds passes along every other cable. -/
theorem pass (h : Settled nodes cables) (hc : c ∈ cables) (faces : c.Faces p q) (hd : d ∈ cables)
    (hne : d ≠ c) (he : d.ends = s(a, b)) (ha : (nodes a).id ∈ (treeAt nodes p).ids) :
    (nodes b).id ∈ (treeAt nodes p).ids := by
  have facing : Facing cables p q := ⟨c, hc, faces⟩
  obtain ⟨u, w, along, rfl, rfl⟩ := exists_faces he
  obtain ⟨r, v, chain, behind, same⟩ := (h.mem_ids_treeAt facing).mp ha
  have same : v.node = u.node := h.ids_inj same
  rw [h.mem_ids_treeAt facing]
  by_cases hu : u = v
  · -- The cable is the one that led to the node, so it leads back to the port before.
    subst hu
    obtain rfl := behind.symm.unique h.plugged ⟨d, hd, along⟩
    rcases chain.cases_tail with rfl | ⟨r', chain', ⟨v', before, at_node, -⟩⟩
    · exact absurd (h.plugged d hd c hc _ _ _ along.symm faces) hne
    · exact ⟨r', v', chain', before, by rw [at_node]⟩
  · have follows : Follows cables r u := ⟨v, behind, same.symm, hu, w, d, hd, along⟩
    exact ⟨u, w, chain.tail follows, ⟨d, hd, along⟩, rfl⟩

/-! ## The shape of a settled mesh -/

/-- Every cable is a bridge, since the tree at either port holds what is joined with the
other without the cable. -/
theorem bridge (h : Settled nodes cables) (hc : c ∈ cables) : Bridge cables c := by
  intro joined
  have faces := c.faces_ports
  have facing : Facing cables c.dialer c.accepter := ⟨c, hc, faces⟩
  have start : (nodes c.accepter.node).id ∈ (treeAt nodes c.dialer).ids := by
    rw [h.ids_treeAt facing]
    exact List.mem_cons_self
  refine h.own facing (reachable_induction
    (P := fun k => (nodes k).id ∈ (treeAt nodes c.dialer).ids) joined.symm ?_ start)
  intro d hd a b he ha
  exact h.pass hc faces hd.1 hd.2 he ha

/-- Every cable is a bridge, since a way around it would be a chain that comes back. -/
theorem forest (h : Settled nodes cables) : Forest cables :=
  forest_iff_bridges.mpr fun _ hc => h.bridge hc

/-- Next to each other in a tree are neighbours in the mesh. -/
theorem grown (h : Settled nodes cables) (faces : Facing cables p q) :
    Grown (Near (fun i => (nodes i).id) cables) (treeAt nodes p) := by
  induction hn : sizeOf (treeAt nodes p) using Nat.strong_induction_on generalizing p q with
  | h n ih =>
    have top := h.id_treeAt faces
    have subs : ∀ s, s ∈ (treeAt nodes p).subs → _ := fun _ => (h.mem_subs_treeAt faces).mp
    rcases tree : treeAt nodes p with ⟨id, root, below⟩
    rw [tree] at top subs
    refine .node ?_ ?_
    · intro s hs
      obtain ⟨r, ⟨q', faces', same, -, u, d, hd, along⟩, rfl⟩ := subs s hs
      obtain rfl := faces.unique h.plugged faces'
      refine ⟨d, hd, r.node, u.node, along.ends_eq, ?_, (h.id_treeAt ⟨d, hd, along⟩).symm⟩
      rw [same]
      exact top.symm
    · intro s hs
      obtain ⟨r, follows, rfl⟩ := subs s hs
      obtain ⟨u, faces'⟩ := follows.facing
      exact ih _ (hn ▸ h.sizeOf_lt_of_follows follows) faces' rfl

/-- The trees of two links of a node have no node in common. -/
theorem apart (h : Settled nodes cables) {l k : Link} (hl : l ∈ (nodes i).links)
    (hk : k ∈ (nodes i).links) (hne : l.id ≠ k.id) : l.subtree.ids.Disjoint k.subtree.ids := by
  obtain ⟨q, facing⟩ := h.wired i l hl
  obtain ⟨r, facing'⟩ := h.wired i k hk
  have own := h.own facing
  have own' := h.own facing'
  have grown := h.grown facing
  have grown' := h.grown facing'
  have top := h.id_treeAt facing
  have top' := h.id_treeAt facing'
  rw [h.treeAt_link hl] at own grown top
  rw [h.treeAt_link hk] at own' grown' top'
  obtain ⟨c, hc, faces⟩ := facing
  obtain ⟨d, hd, faces'⟩ := facing'
  have apart : ¬ (graph (cables \ {c})).Reachable i q.node :=
    (h.bridge hc).not_reachable faces.ends_eq
  have other := (h.bridge hc).ne_of_faces faces faces' (Ne.symm hne)
  intro x hx hx'
  obtain ⟨j, hj, joined⟩ := grown.reachable_avoiding h.ids_inj h.ids_ne top own faces.touches hx
  obtain ⟨j', hj', joined'⟩ := grown'.reachable_behind h.ids_inj h.ids_ne hd other faces'.ends_eq
    top' own' faces.touches hx'
  obtain rfl := h.ids_inj (hj.trans hj'.symm)
  exact apart (joined'.trans joined.symm)

/-- No node appears twice in a tree. -/
theorem once (h : Settled nodes cables) (faces : Facing cables p q) :
    (treeAt nodes p).ids.Nodup := by
  induction hn : sizeOf (treeAt nodes p) using Nat.strong_induction_on generalizing p q with
  | h n ih =>
    rw [h.ids_treeAt faces, h.subs_treeAt faces, List.flatMap_map]
    have below : ∀ l ∈ (nodes q.node).links.filter (·.id ≠ q.link), l ∈ (nodes q.node).links :=
      fun l hl => List.mem_of_mem_filter hl
    refine Node.nodup_ids_over ?_ ?_ ?_ ?_
    · exact (h.nodup q.node).sublist (List.filter_sublist.map _)
    · intro l hl
      obtain ⟨r, faces'⟩ := h.wired _ l (below l hl)
      exact h.treeAt_link (below l hl) ▸ h.own faces'
    · intro l hl
      obtain ⟨r, faces'⟩ := h.wired _ l (below l hl)
      have hne : l.id ≠ q.link := of_decide_eq_true (List.mem_filter.mp hl).2
      have follows := h.follows_link faces (below l hl) hne
      rw [← h.treeAt_link (below l hl)]
      exact ih _ (hn ▸ h.sizeOf_lt_of_follows follows) faces' rfl
    · intro l hl k hk hne
      exact h.apart (below l hl) (below k hk) hne

/-- The id of every node that is joined with a node is known to it. -/
theorem mem_ids_of_reachable (h : Settled nodes cables) (joined : (graph cables).Reachable i j) :
    (nodes j).id ∈ (nodes i).view.ids := by
  refine reachable_induction (P := fun k => (nodes k).id ∈ (nodes i).view.ids) joined ?_ ?_
  · intro d hd a b he ha
    obtain ⟨u, w, along, rfl, rfl⟩ := exists_faces he
    rw [Node.ids_view, List.mem_cons, List.mem_flatMap] at ha ⊢
    rcases ha with ha | ⟨l, hl, ha⟩
    · -- The cable begins at the node itself.
      obtain rfl := h.ids_inj ha
      obtain ⟨l, hl, -, tree⟩ := h.exists_link ⟨d, hd, along⟩
      refine .inr ⟨l, hl, ?_⟩
      rw [tree, h.ids_treeAt ⟨d, hd, along⟩]
      exact List.mem_cons_self
    · obtain ⟨q, c, hc, faces⟩ := h.wired i l hl
      by_cases same : d = c
      · subst same
        rcases faces.eq_or_eq along with ⟨-, rfl⟩ | ⟨-, rfl⟩
        · refine .inr ⟨l, hl, ?_⟩
          rw [← h.treeAt_link hl, h.ids_treeAt ⟨d, hd, faces⟩]
          exact List.mem_cons_self
        · exact .inl rfl
      · rw [← h.treeAt_link hl] at ha
        exact .inr ⟨l, hl, h.treeAt_link hl ▸ h.pass hc faces hd same he ha⟩
  · rw [Node.ids_view]
    exact List.mem_cons_self

/-- Only the nodes that are joined with a node are known to it. -/
theorem reachable_of_mem_ids (h : Settled nodes cables) (hx : x ∈ (nodes i).view.ids) :
    ∃ j, (graph cables).Reachable i j ∧ (nodes j).id = x := by
  rw [Node.ids_view, List.mem_cons, List.mem_flatMap] at hx
  rcases hx with rfl | ⟨l, hl, hx⟩
  · exact ⟨i, .refl i, rfl⟩
  · obtain ⟨q, facing⟩ := h.wired i l hl
    have grown := h.grown facing
    have top := h.id_treeAt facing
    rw [h.treeAt_link hl] at grown top
    obtain ⟨j, hj, joined⟩ := grown.reachable h.ids_inj h.ids_ne top hx
    obtain ⟨c, hc, faces⟩ := facing
    exact ⟨j, (reachable_of_ends hc faces.ends_eq).trans joined, hj⟩

/-- No node appears twice in what a node knows. -/
theorem nodup_ids (h : Settled nodes cables) (i : ι) : (nodes i).view.ids.Nodup := by
  rw [Node.ids_view]
  refine Node.nodup_ids_over (h.nodup i) ?_ ?_ (fun l hl k hk => h.apart hl hk)
  · intro l hl
    obtain ⟨q, faces⟩ := h.wired i l hl
    exact h.treeAt_link hl ▸ h.own faces
  · intro l hl
    obtain ⟨q, faces⟩ := h.wired i l hl
    exact h.treeAt_link hl ▸ h.once faces

/-- In a settled mesh the cables make a forest, and what a node knows is its component. -/
theorem exact_views (h : Settled nodes cables) :
    Forest cables ∧ ∀ i, (nodes i).view.ids.Nodup ∧
      ∀ x, x ∈ (nodes i).view.ids ↔ ∃ j, (graph cables).Reachable i j ∧ (nodes j).id = x := by
  refine ⟨h.forest, fun i => ⟨h.nodup_ids i, fun x => ⟨h.reachable_of_mem_ids, ?_⟩⟩⟩
  rintro ⟨j, joined, rfl⟩
  exact h.mem_ids_of_reachable joined

end Settled

/-! ## Nodes that settled -/

namespace Mesh

/-- What holds of both directions of every cable holds of all ports that face each other. -/
theorem forall_facing {m : Mesh ι σ} {P : Port ι → Port ι → Prop}
    (h : ∀ c ∈ m.cables, P c.dialer c.accepter ∧ P c.accepter c.dialer)
    (facing : Facing m.cableSet p q) : P p q := by
  obtain ⟨c, hc, ⟨rfl, rfl⟩ | ⟨rfl, rfl⟩⟩ := facing
  · exact (h c hc).1
  · exact (h c hc).2

/-- A port is synced and holds the tree that the port it faces would send. -/
def HoldsTree (m : Mesh ι σ) (p q : Port ι) : Prop :=
  ((m.nodes p.node).link? p.link).map (fun l => (l.phase, l.subtree)) =
    some (.synced, (m.nodes q.node).view.treeExcept q.link)

instance (m : Mesh ι σ) (p q : Port ι) : Decidable (m.HoldsTree p q) :=
  inferInstanceAs (Decidable (_ = _))

/-- A coherent mesh has settled once its ports hold the right trees. -/
theorem Coherent.settled {ids : ι → UInt32} {m : Mesh ι σ} (inj : ids.Injective)
    (ne : ∀ i, ids i ≠ 0) (h : Coherent ids m) (distinct : ∀ c ∈ m.cables, c.dialer ≠ c.accepter)
    (trees : ∀ c ∈ m.cables, m.HoldsTree c.dialer c.accepter ∧ m.HoldsTree c.accepter c.dialer) :
    Settled m.nodes m.cableSet := by
  refine ⟨?_, ?_, ?_, h.plugged, distinct, ?_, ?_⟩
  · intro i
    rw [(h.fits i).id]
    exact ne i
  · intro i j same
    exact inj ((h.fits i).id.symm.trans (same.trans (h.fits j).id))
  · exact fun i => (h.fits i).sound.nodup
  · intro i l hl
    obtain ⟨c, hc, r, faces, -⟩ := (h.fits i).links l hl
    exact ⟨r, c, hc, faces⟩
  · intro p q facing
    obtain ⟨l, hl, same⟩ := Option.map_eq_some_iff.mp (forall_facing trees facing)
    exact ⟨l, hl, Prod.mk.inj same⟩

theorem settled_pair : Settled (pair.run settle).nodes (pair.run settle).cableSet :=
  (fresh_pair.run settle).settled fresh_pair.ids_inj fresh_pair.ids_ne (by decide +kernel)
    (by decide +kernel)

end Mesh

/-- The first of two settled nodes knows the second, so they are joined. -/
theorem Settled.exact_views_pair :
    Forest (Mesh.pair.run Mesh.settle).cableSet ∧
      ∃ j, (graph (Mesh.pair.run Mesh.settle).cableSet).Reachable 0 j ∧
        ((Mesh.pair.run Mesh.settle).nodes j).id = 2 := by
  obtain ⟨forest, views⟩ := Mesh.settled_pair.exact_views
  have known : 2 ∈ ((Mesh.pair.run Mesh.settle).nodes 0).view.ids := by decide +kernel
  exact ⟨forest, ((views 0).2 2).mp known⟩

end SpanningMesh
