import SpanningMesh.Proofs.Node.Steady
import SpanningMesh.Proofs.View.Admission

/-!
# The trees of a node stay apart

The checks of a tree do not alone keep the trees of a node apart.  The id at the top
of a tree is compared with the other trees only when the first tree of a link is
accepted.  Later the top must be the id that the link belongs to, which the other
trees were kept clear of meanwhile.  `Sound` says what makes this work: a link is
synced exactly if it holds a tree, and then the top of the tree is the neighbour.

Steady operations keep a sound node sound, and so do opening a link and accepting a
tree (`Sound.acceptTree`).  In a sound node all ids are different, so that a route is
never one of several (`Sound.routeTo_eq_some_iff`).
-/

namespace SpanningMesh

/-- A link that accepts a tree belongs to the sender of the tree. -/
theorem Link.remote_accepted {l : Link} {sender : UInt32} (tree : Tree) (hs : sender ≠ 0)
    (known : l.remote = 0 ∨ sender = l.remote) (synced : l.phase = .synced → l.remote ≠ 0) :
    (l.accepted sender tree).remote = sender := by
  show (if l.phase = .synced then l.remote else (l.identify sender).2.remote) = sender
  by_cases phase : l.phase = .synced
  · rw [if_pos phase]
    exact (known.resolve_left (synced phase)).symm
  · rw [if_neg phase, Link.identify]
    by_cases zero : l.remote = 0
    · rw [if_pos ⟨zero, hs⟩]
    · rw [if_neg fun c => zero c.1]
      exact (known.resolve_left zero).symm

namespace Node

variable {σ α : Type} {n n' : Node σ α} {l : Link} {sender : UInt32} {tree : Tree}

/-! ## The checks -/

/-- A tree is admitted exactly when the neighbour has kept its id and the ids, each once,
stay clear of the node and of the trees of all other links.  The top is compared with
these only if no tree was accepted before. -/
theorem checkAnnounced_eq_ok_iff (hn : n.id ≠ 0) (hs : sender ≠ 0) :
    n.checkAnnounced l sender tree = .ok () ↔
      (l.remote = 0 ∨ tree.id = l.remote) ∧ n.id ∉ tree.ids ∧ tree.ids.Nodup ∧
        (∀ x ∈ tree.ids, x ≠ tree.id → ∀ k ∈ n.links, k.id ≠ l.id → x ∉ k.subtree.ids) ∧
        (l.phase ≠ .synced → ∀ k ∈ n.links, k.id ≠ l.id → sender ∉ k.subtree.ids) := by
  have branches : n.view.branches = n.links.map fun k => ⟨k.id, k.subtree⟩ := rfl
  have tree_ok : n.view.checkTree l.id l.remote tree = .ok () ↔ _ := View.checkTree_eq_ok_iff hn
  have peer_ok : n.view.checkPeer l.id sender = .ok () ↔ _ := View.checkPeer_eq_ok_iff hs
  simp only [branches, List.forall_mem_map] at tree_ok peer_ok
  have split : n.checkAnnounced l sender tree = .ok () ↔
      n.view.checkTree l.id l.remote tree = .ok () ∧
        (l.phase ≠ .synced → n.view.checkPeer l.id sender = .ok ()) := by
    simp only [checkAnnounced]
    cases n.view.checkTree l.id l.remote tree with
    | error e => simp [bind, Except.bind]
    | ok u =>
        by_cases synced : l.phase = .synced
        · simp [bind, Except.bind, synced, pure, Except.pure]
        · simp [bind, Except.bind, synced]
  rw [split, tree_ok, peer_ok]
  simp only [and_assoc]
  rfl

/-! ## Sound nodes -/

/-- The trees behind the links of a node name no node twice and not the node itself. -/
structure Sound (n : Node σ α) : Prop where
  /-- The node has an id. -/
  id_ne : n.id ≠ 0
  /-- No two links have the same handle. -/
  nodup : n.linkIds.Nodup
  /-- The next handle is a new one. -/
  fresh : ∀ l ∈ n.links, l.id.number < n.nextLink
  /-- A link that is not synced holds no tree. -/
  blank : ∀ l ∈ n.links, l.phase ≠ .synced → l.subtree = .unknown
  /-- The top of the tree of a synced link is its neighbour. -/
  settled : ∀ l ∈ n.links, l.phase = .synced → l.remote ≠ 0 ∧ l.subtree.id = l.remote
  /-- No tree holds the node itself. -/
  own : ∀ l ∈ n.links, n.id ∉ l.subtree.ids
  /-- No tree holds a node twice. -/
  once : ∀ l ∈ n.links, l.subtree.ids.Nodup
  /-- No two trees hold the same node. -/
  apart : ∀ l ∈ n.links, ∀ k ∈ n.links, l.id ≠ k.id → l.subtree.ids.Disjoint k.subtree.ids

/-- A node without links is sound. -/
theorem Sound.of_links_eq_nil (hid : n.id ≠ 0) (h : n.links = []) : Sound n := by
  refine ⟨hid, ?_, ?_, ?_, ?_, ?_, ?_, ?_⟩
  · rw [linkIds, h]
    exact List.nodup_nil
  all_goals simp [h]

variable {P : LinkId → Bytes → Prop}

/-- A node is sound if each of its links was there in a sound node, with the same tree, and
if it is synced also with the same neighbour. -/
theorem Sound.of_links (h : Sound n) (hid : n'.id = n.id) (next : n'.nextLink = n.nextLink)
    (nodup : n'.linkIds.Nodup)
    (before : ∀ k ∈ n'.links, ∃ l ∈ n.links, k.id = l.id ∧ k.subtree = l.subtree ∧
      (k.phase = .synced ↔ l.phase = .synced) ∧ (l.phase = .synced → k.remote = l.remote)) :
    Sound n' where
  id_ne := hid ▸ h.id_ne
  nodup := nodup
  fresh := by
    intro k hk
    obtain ⟨l, hl, same, -⟩ := before k hk
    rw [same, next]
    exact h.fresh l hl
  blank := by
    intro k hk phase
    obtain ⟨l, hl, -, tree, synced, -⟩ := before k hk
    rw [tree]
    exact h.blank l hl (mt synced.mpr phase)
  settled := by
    intro k hk phase
    obtain ⟨l, hl, -, tree, synced, remote⟩ := before k hk
    have phase' := synced.mp phase
    rw [tree, remote phase']
    exact h.settled l hl phase'
  own := by
    intro k hk
    obtain ⟨l, hl, -, tree, -⟩ := before k hk
    rw [tree, hid]
    exact h.own l hl
  once := by
    intro k hk
    obtain ⟨l, hl, -, tree, -⟩ := before k hk
    rw [tree]
    exact h.once l hl
  apart := by
    intro k hk k' hk' hne
    obtain ⟨l, hl, same, tree, -⟩ := before k hk
    obtain ⟨l', hl', same', tree', -⟩ := before k' hk'
    rw [tree, tree']
    exact h.apart l hl l' hl' (same ▸ same' ▸ hne)

/-- What is steady keeps a node sound. -/
theorem Sound.steady (h : Sound n) (step : Steady P n n') : Sound n' := by
  refine h.of_links step.id step.nextLink (step.nodup h.nodup) fun k hk => ?_
  obtain ⟨l, hl, keep⟩ := step.links k hk
  exact ⟨l, hl, keep.id, keep.subtree, keep.synced, fun _ => keep.remote⟩

theorem Sound.of_links_eq (h : Sound n) (hid : n'.id = n.id) (hk : n'.nextLink = n.nextLink)
    (hl : n'.links = n.links) : Sound n' :=
  h.steady (P := fun _ _ => True) (.of_links_eq hid hk hl)

/-- A node is sound if its links are those of a sound node, but for one whose tree stays apart
from the others. -/
theorem Sound.of_new {new : Link} (h : Sound n) (hid : n'.id = n.id)
    (next : n.nextLink ≤ n'.nextLink) (nodup : n'.linkIds.Nodup)
    (cases : ∀ k ∈ n'.links, k = new ∨ k ∈ n.links ∧ k.id ≠ new.id)
    (fresh : new.id.number < n'.nextLink)
    (blank : new.phase ≠ .synced → new.subtree = .unknown)
    (settled : new.phase = .synced → new.remote ≠ 0 ∧ new.subtree.id = new.remote)
    (own : n.id ∉ new.subtree.ids) (once : new.subtree.ids.Nodup)
    (apart : ∀ k ∈ n.links, k.id ≠ new.id → new.subtree.ids.Disjoint k.subtree.ids) :
    Sound n' := by
  refine ⟨hid ▸ h.id_ne, nodup, ?_, ?_, ?_, ?_, ?_, ?_⟩
  · intro k hk
    rcases cases k hk with rfl | ⟨old, -⟩
    · exact fresh
    · exact Nat.lt_of_lt_of_le (h.fresh k old) next
  · intro k hk phase
    rcases cases k hk with rfl | ⟨old, -⟩
    · exact blank phase
    · exact h.blank k old phase
  · intro k hk phase
    rcases cases k hk with rfl | ⟨old, -⟩
    · exact settled phase
    · exact h.settled k old phase
  · intro k hk
    rw [hid]
    rcases cases k hk with rfl | ⟨old, -⟩
    · exact own
    · exact h.own k old
  · intro k hk
    rcases cases k hk with rfl | ⟨old, -⟩
    · exact once
    · exact h.once k old
  · intro k hk k' hk' hne
    rcases cases k hk with rfl | ⟨old, other⟩
    · rcases cases k' hk' with rfl | ⟨old', other'⟩
      · exact absurd rfl hne
      · exact apart k' old' other'
    · rcases cases k' hk' with rfl | ⟨old', other'⟩
      · exact fun x hx hx' => apart k old other hx' hx
      · exact h.apart k old k' old' hne

/-- A new link keeps a node sound. -/
theorem Sound.addLink (h : Sound n) (station : Bool) : Sound (n.addLink station).2 := by
  obtain ⟨new, hid, -, phase, blank, -, feeds⟩ :=
    feeds_addLink (P := fun _ _ => True) n station
  refine Sound.steady ?_ feeds.steady
  have empty : new.subtree.ids = [] := by rw [blank, Tree.ids_unknown]
  have other : ∀ l ∈ n.links, l.id ≠ new.id := by
    intro l hl same
    have below := h.fresh l hl
    rw [same, hid] at below
    exact Nat.lt_irrefl _ below
  refine h.of_new rfl (Nat.le_succ _) ?_ ?_ ?_ (fun _ => blank) ?_ ?_ ?_ ?_
  · simp only [linkIds, List.map_append, List.map_cons, List.map_nil]
    refine h.nodup.append (List.nodup_singleton _) ?_
    intro k hk hnew
    obtain ⟨l, hl, rfl⟩ := List.mem_map.mp hk
    exact other l hl (List.mem_singleton.mp hnew)
  · intro k hk
    rcases List.mem_append.mp hk with old | last
    · exact .inr ⟨old, other k old⟩
    · exact .inl (List.mem_singleton.mp last)
  · rw [hid]
    exact Nat.lt_succ_self _
  · intro synced
    rw [phase] at synced
    cases synced
  · rw [empty]
    exact List.not_mem_nil
  · rw [empty]
    exact List.nodup_nil
  · intro k _ _
    rw [empty]
    exact List.disjoint_nil_left _

/-- The links after one was replaced. -/
theorem mem_links_putLink {new k : Link} (hk : k ∈ (n.putLink new).links) :
    k = new ∨ k ∈ n.links ∧ k.id ≠ new.id := by
  obtain ⟨old, ho, rfl⟩ := List.mem_map.mp hk
  by_cases same : old.id = new.id
  · rw [if_pos same]
    exact .inl rfl
  · rw [if_neg same]
    exact .inr ⟨ho, same⟩

/-- Learning who the neighbour of a link is keeps a node sound. -/
theorem Sound.identifyPeer (h : Sound n) (id : LinkId) (peer : UInt32) :
    Sound (n.identifyPeer id peer) := by
  rcases identifyPeer_cases (P := fun _ _ => True) n id peer with same | ⟨l, hl, unknown, feeds⟩
  · rw [same]
    exact h
  · have hm := mem_links_of_link? hl
    have unsynced : l.phase ≠ .synced := fun synced => (h.settled l hm synced).1 unknown
    refine Sound.steady ?_ feeds.steady
    refine h.of_links rfl rfl (linkIds_putLink n _ ▸ h.nodup) fun k hk => ?_
    rcases mem_links_putLink hk with rfl | ⟨old, -⟩
    · exact ⟨l, hm, rfl, rfl, Iff.rfl, fun synced => absurd synced unsynced⟩
    · exact ⟨k, old, rfl, rfl, Iff.rfl, fun _ => rfl⟩

/-- The top of a tree that was admitted does not lie behind another link.  If a tree was
accepted before, its top was the same and was kept apart. -/
theorem Sound.top_apart (h : Sound n) (hl : l ∈ n.links) (hs : sender ≠ 0)
    (top : tree.id = sender) (ok : n.checkAnnounced l sender tree = .ok ()) :
    ∀ k ∈ n.links, k.id ≠ l.id → tree.id ∉ k.subtree.ids := by
  obtain ⟨known, -, -, -, first⟩ := (checkAnnounced_eq_ok_iff h.id_ne hs).mp ok
  by_cases synced : l.phase = .synced
  · obtain ⟨remote, same⟩ := h.settled l hl synced
    have old : tree.id = l.subtree.id := (known.resolve_left remote).trans same.symm
    have mem : l.subtree.id ∈ l.subtree.ids := Tree.id_mem_ids (same ▸ remote)
    intro k hk hne
    rw [old]
    exact fun hm => h.apart l hl k hk (Ne.symm hne) mem hm
  · rw [top]
    exact first synced

/-- Accepting a tree that was admitted keeps a node sound. -/
theorem Sound.acceptTree (h : Sound n) {id : LinkId} (hl : n.link? id = some l)
    (hs : sender ≠ 0) (top : tree.id = sender) (ok : n.checkAnnounced l sender tree = .ok ()) :
    Sound (n.acceptTree l sender tree) := by
  have hm := mem_links_of_link? hl
  obtain ⟨known, own, once, below, -⟩ := (checkAnnounced_eq_ok_iff h.id_ne hs).mp ok
  have clear : ∀ k ∈ n.links, k.id ≠ l.id → List.Disjoint tree.ids k.subtree.ids := by
    intro k hk hne x hx hx'
    by_cases e : x = tree.id
    · exact h.top_apart hm hs top ok k hk hne (e ▸ hx')
    · exact below x hx e k hk hne hx'
  obtain ⟨tasks, feeds⟩ := feeds_acceptTree (P := fun _ _ => True) n l sender tree
  refine Sound.steady ?_ feeds.steady
  generalize hnew : { l.accepted sender tree with tasks } = new
  have hid : new.id = l.id := by rw [← hnew]; rfl
  have phase : new.phase = .synced := by rw [← hnew]; rfl
  have subtree : new.subtree = tree := by rw [← hnew]; rfl
  have remote : new.remote = sender := by
    rw [← hnew]
    exact Link.remote_accepted tree hs (top ▸ known) fun synced => (h.settled l hm synced).1
  refine h.of_new rfl (Nat.le_refl _) ?_ (fun _ hk => mem_links_putLink hk) ?_ ?_ ?_ ?_ ?_ ?_
  · exact linkIds_putLink n new ▸ h.nodup
  · rw [hid]
    exact h.fresh l hm
  · exact fun unsynced => absurd phase unsynced
  · intro _
    rw [remote, subtree]
    exact ⟨hs, top⟩
  · rw [subtree]
    exact own
  · rw [subtree]
    exact once
  · rw [hid, subtree]
    exact clear

/-! ## What follows for the view -/

theorem ids_view (n : Node σ α) : n.view.ids = n.id :: n.links.flatMap (·.subtree.ids) := by
  simp [View.ids, View.remoteIds, view, List.flatMap_map]

/-- An id over trees that do not hold it and stay apart from each other. -/
theorem nodup_ids_over {x : UInt32} {links : List Link} (different : (links.map Link.id).Nodup)
    (own : ∀ l ∈ links, x ∉ l.subtree.ids) (once : ∀ l ∈ links, l.subtree.ids.Nodup)
    (apart : ∀ l ∈ links, ∀ k ∈ links, l.id ≠ k.id → l.subtree.ids.Disjoint k.subtree.ids) :
    (x :: links.flatMap (·.subtree.ids)).Nodup := by
  rw [List.nodup_cons]
  constructor
  · simp only [List.mem_flatMap, not_exists, not_and]
    exact own
  · rw [List.nodup_flatMap]
    refine ⟨once, ?_⟩
    have pairs : links.Pairwise fun l k => l.id ≠ k.id := List.pairwise_map.mp different
    exact pairs.imp_of_mem fun hl hk hne => apart _ hl _ hk hne

/-- All ids that a sound node knows are different. -/
theorem Sound.nodup_ids (h : Sound n) : n.view.ids.Nodup := by
  rw [ids_view]
  exact nodup_ids_over h.nodup h.own h.once h.apart

/-- In a sound node a route is the one link behind which a node lies. -/
theorem Sound.routeTo_eq_some_iff (h : Sound n) {x : UInt32} (hx : x ≠ 0) (k : LinkId) :
    n.view.routeTo x = some k ↔
      (∃ l ∈ n.links, l.id = k ∧ l.subtree.contains x = true) ∧
        ∀ l ∈ n.links, l.subtree.contains x = true → l.id = k := by
  have only : ∀ l ∈ n.links, ∀ k ∈ n.links, l.subtree.contains x = true →
      k.subtree.contains x = true → l.id = k.id := by
    intro l hl k hk hlx hkx
    by_contra hne
    rw [Tree.contains_iff_mem_ids hx] at hlx hkx
    exact h.apart l hl k hk hne hlx hkx
  have found : n.view.routeTo x = (n.links.find? (·.subtree.contains x)).map Link.id := by
    rw [View.routeTo, if_neg hx, view, List.find?_map, Option.map_map]
    rfl
  rw [found, Option.map_eq_some_iff]
  constructor
  · rintro ⟨l, hf, rfl⟩
    have hl := List.mem_of_find?_eq_some hf
    have hlx := List.find?_some hf
    exact ⟨⟨l, hl, rfl, hlx⟩, fun k hk hkx => only k hk l hl hkx hlx⟩
  · rintro ⟨⟨l, hl, rfl, hlx⟩, unique⟩
    obtain ⟨k, hf⟩ := Option.isSome_iff_exists.mp
      (List.find?_isSome.mpr ⟨l, hl, hlx⟩ : (n.links.find? (·.subtree.contains x)).isSome)
    have hkx := List.find?_some hf
    exact ⟨k, hf, unique k (List.mem_of_find?_eq_some hf) hkx⟩

end Node

end SpanningMesh
