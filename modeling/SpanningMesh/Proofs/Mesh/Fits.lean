import SpanningMesh.Proofs.Mesh.Growth
import SpanningMesh.Proofs.Node.Disjoint
import SpanningMesh.Proofs.Packet.RoundTrip

/-!
# Nodes that fit a mesh

A node *fits* some cables if it is sound and every link of it belongs to a cable, knows
no other neighbour than the node at the far end, holds a tree that has grown on the
cables, and only lets honest frames wait.  A frame is *honest* if its sender is the node
itself and a tree in it is one that the node may tell through the cable.

A node that fits goes on to do so while it hears honest frames.  The checks of trees
play no part in this.  What they do decide is whether the link stays open, and over a
bridge they always succeed (`Fits.checkAnnounced`): the nodes of the tree that is told
lie on one side of the bridge, and all other trees of the node on the other.
-/

namespace SpanningMesh

variable {ι : Type} {ids : ι → UInt32} {cables more : Set (Cable ι)} {c d : Cable ι} {i j : ι}
  {p q r : Port ι}

/-! ## Cables and ports -/

theorem Cable.Faces.touches (h : c.Faces p q) : p.node ∈ c.ends := by
  rw [h.ends_eq]
  exact Sym2.mem_mk_left _ _

/-- A cable has two ports and no more. -/
theorem Cable.Faces.eq_or_eq {p' q' : Port ι} (h : c.Faces p q) (h' : c.Faces p' q') :
    (p' = p ∧ q' = q) ∨ (p' = q ∧ q' = p) := by
  rcases h with ⟨rfl, rfl⟩ | ⟨rfl, rfl⟩ <;> rcases h' with ⟨rfl, rfl⟩ | ⟨rfl, rfl⟩ <;> simp

theorem Cable.Faces.unique (h : c.Faces p q) (h' : c.Faces p r) : r = q := by
  rcases h.eq_or_eq h' with ⟨-, rfl⟩ | ⟨hp, rfl⟩
  · rfl
  · exact hp

/-- Two links of a node belong to two cables, if one of these is a bridge. -/
theorem Bridge.ne_of_faces {k k' : LinkId} (bridge : Bridge cables c) (faces : c.Faces ⟨i, k⟩ q)
    (faces' : d.Faces ⟨i, k'⟩ r) (hne : k' ≠ k) : d ≠ c := by
  rintro rfl
  rcases faces.eq_or_eq faces' with ⟨same, -⟩ | ⟨same, -⟩
  · exact hne (Port.mk.inj same).2
  · refine bridge.not_reachable faces.ends_eq ?_
    rw [← same]

/-- No port belongs to two cables. -/
def Plugged (cables : Set (Cable ι)) : Prop :=
  ∀ c ∈ cables, ∀ d ∈ cables, ∀ p q r, c.Faces p q → d.Faces p r → c = d

/-! ## Honest frames -/

/-- What a node may say through a cable. -/
def Truthful (ids : ι → UInt32) (cables : Set (Cable ι)) (c : Cable ι) (i : ι) : Payload → Prop
  | .treeRequest sender tree | .treeReply sender tree =>
      sender = ids i ∧ Told ids cables c i tree
  | .meshId a => a.sender = ids i
  | _ => False

/-- A frame for the neighbour behind a cable that carries what the node may say. -/
def Honest (ids : ι → UInt32) (cables : Set (Cable ι)) (c : Cable ι) (i : ι) (frame : Bytes) :
    Prop :=
  ∃ packet, Packet.decode (frame.drop Frame.lengthSize) = .ok packet ∧
    packet.header.delivery = .neighbour ∧ Truthful ids cables c i packet.payload

/-- What is true of a mesh stays true when cables are added. -/
theorem Truthful.mono {payload : Payload} (h : Truthful ids cables c i payload)
    (sub : cables ⊆ more) : Truthful ids more c i payload := by
  cases payload with
  | treeRequest sender tree => exact ⟨h.1, h.2.mono sub⟩
  | treeReply sender tree => exact ⟨h.1, h.2.mono sub⟩
  | meshId a => exact h
  | timeSync | timeDelay | single | broadcast | raw => cases h

theorem Honest.mono {f : Bytes} (h : Honest ids cables c i f) (sub : cables ⊆ more) :
    Honest ids more c i f := by
  obtain ⟨packet, read, delivery, truthful⟩ := h
  exact ⟨packet, read, delivery, truthful.mono sub⟩

/-- A request with a tree that is true is honest. -/
theorem honest_treeRequest {f : Bytes} {dest : UInt32} {t : Tree} (told : Told ids cables c i t)
    (h : Frame.ofPacket (.treeRequest (ids i) dest t) = .ok f) : Honest ids cables c i f :=
  ⟨_, Packet.decode_of_encode (Packet.matches_treeRequest told.top) (Frame.ofPacket_eq_ok h), rfl, rfl,
    told⟩

theorem honest_treeReply {f : Bytes} {dest : UInt32} {t : Tree} (told : Told ids cables c i t)
    (h : Frame.ofPacket (.treeReply (ids i) dest t) = .ok f) : Honest ids cables c i f :=
  ⟨_, Packet.decode_of_encode (Packet.matches_treeReply told.top) (Frame.ofPacket_eq_ok h), rfl, rfl,
    told⟩

theorem honest_meshId {f : Bytes} {a : Announcement} (sender : a.sender = ids i)
    (h : Frame.ofPacket (.meshId a) = .ok f) : Honest ids cables c i f :=
  ⟨_, Packet.decode_of_encode Packet.matches_meshId (Frame.ofPacket_eq_ok h), rfl, sender⟩

/-! ## Links and nodes that fit -/

/-- What a link holds fits a cable between two nodes. -/
structure Link.Fits (ids : ι → UInt32) (cables : Set (Cable ι)) (c : Cable ι) (i j : ι)
    (l : Link) : Prop where
  remote : l.remote = 0 ∨ l.remote = ids j
  subtree : l.subtree = .unknown ∨ l.subtree.id = ids j ∧ Grown (Near ids cables) l.subtree
  frames : ∀ f ∈ l.outbox.frames, Honest ids cables c i f

namespace Node

variable {σ α : Type}

/-- A sound node all of whose links fit a cable. -/
structure Fits (ids : ι → UInt32) (cables : Set (Cable ι)) (i : ι) (n : Node σ α) : Prop where
  id : n.id = ids i
  sound : Sound n
  links : ∀ l ∈ n.links, ∃ c ∈ cables, ∃ q : Port ι, c.Faces ⟨i, l.id⟩ q ∧
    l.Fits ids cables c i q.node

variable {n n' : Node σ α} {k : LinkId} {l : Link} {t : Tree}

theorem Fits.mono (h : Fits ids cables i n) (sub : cables ⊆ more) : Fits ids more i n where
  id := h.id
  sound := h.sound
  links := by
    intro l hl
    obtain ⟨c, hc, q, faces, fits⟩ := h.links l hl
    refine ⟨c, sub hc, q, faces, fits.remote, ?_, fun f hf => (fits.frames f hf).mono sub⟩
    exact fits.subtree.imp_right fun ⟨top, grown⟩ =>
      ⟨top, grown.mono fun _ _ near => near.mono sub⟩

/-- The link of a port fits the cable of the port. -/
theorem Fits.link (h : Fits ids cables i n) (plugged : Plugged cables) (hl : l ∈ n.links)
    (hc : c ∈ cables) (faces : c.Faces ⟨i, l.id⟩ q) : l.Fits ids cables c i q.node := by
  obtain ⟨d, hd, r, faces', fits⟩ := h.links l hl
  obtain rfl := plugged c hc d hd _ _ _ faces faces'
  obtain rfl := faces.unique faces'
  exact fits

/-- What is steady keeps a node fitting if only honest frames come to wait. -/
theorem Fits.steady {P : LinkId → Bytes → Prop} (h : Fits ids cables i n) (step : Steady P n n')
    (honest : ∀ k f, P k f → ∀ c ∈ cables, ∀ q, c.Faces ⟨i, k⟩ q → Honest ids cables c i f) :
    Fits ids cables i n' where
  id := step.id.trans h.id
  sound := h.sound.steady step
  links := by
    intro l' hl'
    obtain ⟨l, hl, keep⟩ := step.links l' hl'
    obtain ⟨c, hc, q, faces, fits⟩ := h.links l hl
    refine ⟨c, hc, q, keep.id ▸ faces, keep.remote ▸ fits.remote, keep.subtree ▸ fits.subtree, ?_⟩
    intro f hf
    rcases keep.frames f hf with old | new
    · exact fits.frames f old
    · exact honest l.id f new c hc q faces

/-! ## What a node tells -/

/-- The tree that a node that fits sends through a link is one it may tell through the cable
of the link. -/
theorem Fits.told (h : Fits ids cables i n) (faces : c.Faces ⟨i, k⟩ q) :
    Told ids cables c i (n.view.treeExcept k) := by
  have subs : ∀ s ∈ (n.view.treeExcept k).subs,
      ∃ l ∈ n.links, l.id ≠ k ∧ l.subtree = s ∧ s.id ≠ 0 := by
    intro s hs
    obtain ⟨b, hb, rfl⟩ := List.mem_map.mp hs
    obtain ⟨hb, known⟩ := List.mem_filter.mp hb
    obtain ⟨hb, hne⟩ := List.mem_filter.mp hb
    obtain ⟨l, hl, rfl⟩ := List.mem_map.mp hb
    exact ⟨l, hl, by simpa using hne, rfl, by simpa using known⟩
  refine ⟨h.id, ?_, ?_, ?_⟩
  · exact h.sound.nodup_ids.sublist (View.ids_treeExcept_sublist h.sound.id_ne)
  · intro s hs
    obtain ⟨l, hl, -, rfl, known⟩ := subs s hs
    obtain ⟨d, hd, r, faces', fits⟩ := h.links l hl
    rcases fits.subtree with unknown | ⟨-, grown⟩
    · rw [unknown] at known
      exact absurd rfl known
    · exact grown
  · intro s hs
    obtain ⟨l, hl, hne, rfl, known⟩ := subs s hs
    obtain ⟨d, hd, r, faces', fits⟩ := h.links l hl
    rcases fits.subtree with unknown | ⟨top, -⟩
    · rw [unknown] at known
      exact absurd rfl known
    · refine ⟨d, hd, ?_, r.node, faces'.ends_eq, top⟩
      -- A cable with both ports at the node would have the node in its own tree.
      rintro rfl
      rcases faces.eq_or_eq faces' with ⟨same, -⟩ | ⟨-, rfl⟩
      · exact hne (Port.mk.inj same).2
      · have own : n.id = l.subtree.id := h.id.trans top.symm
        exact h.sound.own l hl (own ▸ Tree.id_mem_ids known)

/-! ## Trees that are told over a bridge -/

/-- Every tree of a node that fits, except that of one port, lies on the side of the node of
the cable at that port, if that is a bridge. -/
theorem Fits.reachable_behind (inj : ids.Injective) (ne : ∀ i, ids i ≠ 0)
    (h : Fits ids cables i n) (bridge : Bridge cables c) (faces : c.Faces ⟨i, k⟩ q)
    (hl : l ∈ n.links) (hne : l.id ≠ k) {x : UInt32} (hx : x ∈ l.subtree.ids) :
    ∃ j, ids j = x ∧ (graph (cables \ {c})).Reachable i j := by
  obtain ⟨d, hd, r, faces', fits⟩ := h.links l hl
  have other := bridge.ne_of_faces faces faces' hne
  rcases fits.subtree with unknown | ⟨top, grown⟩
  · rw [unknown] at hx
    cases hx
  · have avoid : ids i ∉ l.subtree.ids := h.id ▸ h.sound.own l hl
    exact grown.reachable_behind inj ne hd other faces'.ends_eq top avoid faces.touches hx

/-- A tree that is told over a bridge is admitted. -/
theorem Fits.checkAnnounced (inj : ids.Injective) (ne : ∀ i, ids i ≠ 0) (plugged : Plugged cables)
    (h : Fits ids cables i n) (hl : l ∈ n.links) (hc : c ∈ cables) (bridge : Bridge cables c)
    (faces : c.Faces ⟨i, l.id⟩ q) (told : Told ids cables c q.node t) :
    n.checkAnnounced l (ids q.node) t = .ok () := by
  have apart : ¬ (graph (cables \ {c})).Reachable i q.node := bridge.not_reachable faces.ends_eq
  have far : ∀ x ∈ t.ids, ∃ j, ids j = x ∧ (graph (cables \ {c})).Reachable q.node j :=
    fun x hx => told.reachable inj ne faces.symm.touches hx
  have clear : ∀ x ∈ t.ids, ∀ m ∈ n.links, m.id ≠ l.id → x ∉ m.subtree.ids := by
    intro x hx m hm hne hx'
    obtain ⟨j, hj, joined⟩ := far x hx
    obtain ⟨j', hj', joined'⟩ := h.reachable_behind inj ne bridge faces hm hne hx'
    obtain rfl := inj (hj'.trans hj.symm)
    exact apart (joined'.trans joined.symm)
  refine (checkAnnounced_eq_ok_iff h.sound.id_ne (ne q.node)).mpr ⟨?_, ?_, told.once, ?_, ?_⟩
  · rw [told.top]
    exact (h.link plugged hl hc faces).remote.imp_right Eq.symm
  · intro own
    obtain ⟨j, hj, joined⟩ := far _ own
    obtain rfl := inj (hj.trans h.id)
    exact apart joined.symm
  · exact fun x hx _ => clear x hx
  · exact fun _ => clear _ (told.top ▸ Tree.id_mem_ids (told.top ▸ ne q.node))

end Node

end SpanningMesh
