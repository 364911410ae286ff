import SpanningMesh.Proofs.Mesh.Graph
import SpanningMesh.Proofs.View.Admission

/-!
# Trees that grew on a mesh

Nodes have ids, and two ids are *near* if a cable joins their nodes.  A tree has *grown*
on a mesh if every id in it is near the id above it.  A tree may be out of date and still
have grown, since cables are never taken back.

From the top of a grown tree every node in it is joined by cables between nodes of the
tree.  So a cable that touches a node outside of the tree is not needed for that
(`Grown.reachable_avoiding`).  The tree that a node tells through a cable consists of
trees that do not hold the node itself, each behind another cable, so what it tells is
joined with it without the cable (`Told.reachable`).  Both together decide on which side
of a bridge the nodes of a tree lie.
-/

namespace SpanningMesh

variable {ι : Type} {ids : ι → UInt32} {cables more : Set (Cable ι)} {c d : Cable ι} {i j u : ι}
  {t : Tree}

/-- A cable joins the nodes of two ids. -/
def Near (ids : ι → UInt32) (cables : Set (Cable ι)) (x y : UInt32) : Prop :=
  ∃ c ∈ cables, ∃ i j, c.ends = s(i, j) ∧ ids i = x ∧ ids j = y

theorem Near.mono {x y : UInt32} (h : Near ids cables x y) (sub : cables ⊆ more) :
    Near ids more x y := by
  obtain ⟨c, hc, rest⟩ := h
  exact ⟨c, sub hc, rest⟩

/-! ## Grown trees -/

/-- Every id of a tree is near the id above it. -/
inductive Grown (near : UInt32 → UInt32 → Prop) : Tree → Prop where
  | node {id : UInt32} {root : Bool} {subs : List Tree} :
      (∀ s ∈ subs, near id s.id) → (∀ s ∈ subs, Grown near s) → Grown near ⟨id, root, subs⟩

theorem Grown.mono {near near' : UInt32 → UInt32 → Prop} (h : Grown near t)
    (sub : ∀ x y, near x y → near' x y) : Grown near' t := by
  induction h with
  | node next _ ih => exact .node (fun s hs => sub _ _ (next s hs)) ih

/-- Every node of a grown tree is joined with the top, without any cable that touches a node
outside of the tree. -/
theorem Grown.reachable_avoiding (inj : ids.Injective) (ne : ∀ i, ids i ≠ 0)
    (h : Grown (Near ids cables) t) (top : t.id = ids i) (avoid : ids u ∉ t.ids)
    (touch : u ∈ c.ends) {x : UInt32} (hx : x ∈ t.ids) :
    ∃ j, ids j = x ∧ (graph (cables \ {c})).Reachable i j := by
  induction h generalizing i with
  | @node id root subs near _ ih =>
      obtain rfl : id = ids i := top
      rw [Tree.ids_eq_cons (ne i)] at avoid hx
      simp only [List.mem_cons, not_or] at avoid hx
      rcases hx with rfl | hx
      · exact ⟨i, rfl, .refl i⟩
      · obtain ⟨s, hs, hx⟩ := List.mem_flatMap.mp hx
        obtain ⟨d, hd, i', j, he, hi, hj⟩ := near s hs
        obtain rfl := inj hi
        have below : ∀ y ∈ s.ids, y ∈ subs.flatMap Tree.ids := fun y hy =>
          List.mem_flatMap.mpr ⟨s, hs, hy⟩
        have inside : ids j ∈ s.ids := hj ▸ Tree.id_mem_ids (hj ▸ ne j)
        have other : d ≠ c := by
          rintro rfl
          rw [he, Sym2.mem_iff] at touch
          rcases touch with rfl | rfl
          · exact avoid.1 rfl
          · exact avoid.2 (below _ inside)
        obtain ⟨k, hk, joined⟩ := ih s hs hj.symm (fun hu => avoid.2 (below _ hu)) hx
        have first : (graph (cables \ {c})).Reachable i' j := reachable_of_ends ⟨hd, other⟩ he
        exact ⟨k, hk, first.trans joined⟩

/-- Every node of a grown tree is joined with the top. -/
theorem Grown.reachable (inj : ids.Injective) (ne : ∀ i, ids i ≠ 0)
    (h : Grown (Near ids cables) t) (top : t.id = ids i) {x : UInt32} (hx : x ∈ t.ids) :
    ∃ j, ids j = x ∧ (graph cables).Reachable i j := by
  induction h generalizing i with
  | @node id root subs near _ ih =>
      obtain rfl : id = ids i := top
      rw [Tree.ids_eq_cons (ne i), List.mem_cons] at hx
      rcases hx with rfl | hx
      · exact ⟨i, rfl, .refl i⟩
      · obtain ⟨s, hs, inside⟩ := List.mem_flatMap.mp hx
        obtain ⟨d, hd, i', j, he, hi, hj⟩ := near s hs
        obtain rfl := inj hi
        obtain ⟨k, hk, joined⟩ := ih s hs hj.symm inside
        exact ⟨k, hk, (reachable_of_ends hd he).trans joined⟩

/-- A grown tree behind another cable of a node is joined with the node, without a cable that
touches the node, unless it holds the node itself. -/
theorem Grown.reachable_behind (inj : ids.Injective) (ne : ∀ i, ids i ≠ 0)
    (h : Grown (Near ids cables) t) (hd : d ∈ cables) (other : d ≠ c) (he : d.ends = s(i, j))
    (top : t.id = ids j) (avoid : ids i ∉ t.ids) (touch : i ∈ c.ends) {x : UInt32}
    (hx : x ∈ t.ids) : ∃ k, ids k = x ∧ (graph (cables \ {c})).Reachable i k := by
  obtain ⟨k, hk, joined⟩ := h.reachable_avoiding inj ne top avoid touch hx
  have first : (graph (cables \ {c})).Reachable i j := reachable_of_ends ⟨hd, other⟩ he
  exact ⟨k, hk, first.trans joined⟩

/-! ## What a node tells -/

/-- A tree that a node may tell through a cable: the node over grown trees, each of which
has the node at the far end of another cable at its top. -/
structure Told (ids : ι → UInt32) (cables : Set (Cable ι)) (c : Cable ι) (i : ι) (t : Tree) :
    Prop where
  top : t.id = ids i
  once : t.ids.Nodup
  grown : ∀ s ∈ t.subs, Grown (Near ids cables) s
  behind : ∀ s ∈ t.subs, ∃ d ∈ cables, d ≠ c ∧ ∃ j, d.ends = s(i, j) ∧ s.id = ids j

theorem Told.mono (h : Told ids cables c i t) (sub : cables ⊆ more) : Told ids more c i t where
  top := h.top
  once := h.once
  grown s hs := (h.grown s hs).mono fun _ _ near => near.mono sub
  behind := by
    intro s hs
    obtain ⟨d, hd, rest⟩ := h.behind s hs
    exact ⟨d, sub hd, rest⟩

/-- What a node tells has grown. -/
theorem Told.whole (h : Told ids cables c i t) : Grown (Near ids cables) t := by
  obtain ⟨id, root, subs⟩ := t
  refine .node (fun s hs => ?_) h.grown
  obtain ⟨d, hd, -, j, he, hj⟩ := h.behind s hs
  exact ⟨d, hd, i, j, he, h.top.symm, hj.symm⟩

/-- What a node tells through a cable is joined with it without the cable. -/
theorem Told.reachable (inj : ids.Injective) (ne : ∀ i, ids i ≠ 0) (h : Told ids cables c i t)
    (touch : i ∈ c.ends) {x : UInt32} (hx : x ∈ t.ids) :
    ∃ j, ids j = x ∧ (graph (cables \ {c})).Reachable i j := by
  have known : t.id ≠ 0 := h.top ▸ ne i
  have once := h.once
  rw [Tree.ids_eq_cons known] at hx once
  rcases List.mem_cons.mp hx with rfl | hx
  · exact ⟨i, h.top.symm, .refl i⟩
  · obtain ⟨s, hs, hx⟩ := List.mem_flatMap.mp hx
    obtain ⟨d, hd, hne, j, he, hj⟩ := h.behind s hs
    have avoid : ids i ∉ s.ids := fun hi =>
      (List.nodup_cons.mp once).1 (h.top ▸ List.mem_flatMap.mpr ⟨s, hs, hi⟩)
    exact (h.grown s hs).reachable_behind inj ne hd hne he hj avoid touch hx

end SpanningMesh
