import SpanningMesh.Proofs.Node.Feeding

/-!
# What leaves the trees of a node alone

`Steady P` allows more than `Feeds P`.  Links may be closed, bytes may come in and an
exchange may begin.  But a link that is still there has the tree and the neighbour it
had, it is synced exactly if it was, and every frame that waits on it waited before or
satisfies `P`.

Of all a node does, only three things are not steady.  They are opening a link
(`feeds_addLink`), learning who its neighbour is (`identifyPeer_cases`) and accepting a
tree (`feeds_acceptTree`).
-/

namespace SpanningMesh

namespace Outbox

/-- The frames that wait, in the order of the lanes. -/
def frames (q : Outbox) : List Bytes := q.current.toList ++ q.express ++ q.regular

end Outbox

namespace Link

/-- The link has the tree and the neighbour it had, and no frames but those it had and
frames of some kind. -/
structure Steady (P : LinkId → Bytes → Prop) (l l' : Link) : Prop where
  id : l'.id = l.id
  subtree : l'.subtree = l.subtree
  /-- A tree was accepted exactly if one was accepted before. -/
  synced : l'.phase = .synced ↔ l.phase = .synced
  remote : l'.remote = l.remote
  frames : ∀ f ∈ l'.outbox.frames, f ∈ l.outbox.frames ∨ P l.id f

variable {P Q : LinkId → Bytes → Prop} {l l' l'' : Link}

/-- A link with the same tree, neighbour, phase and frames is steady. -/
theorem Steady.of_eq (hid : l'.id = l.id) (hs : l'.subtree = l.subtree)
    (hp : l'.phase = .synced ↔ l.phase = .synced) (hr : l'.remote = l.remote)
    (ho : l'.outbox = l.outbox) : Steady P l l' :=
  ⟨hid, hs, hp, hr, fun _ hf => .inl (ho ▸ hf)⟩

theorem Steady.refl (P : LinkId → Bytes → Prop) (l : Link) : Steady P l l :=
  .of_eq rfl rfl Iff.rfl rfl rfl

theorem Steady.trans (h : Steady P l l') (h' : Steady P l' l'') : Steady P l l'' where
  id := h'.id.trans h.id
  subtree := h'.subtree.trans h.subtree
  synced := h'.synced.trans h.synced
  remote := h'.remote.trans h.remote
  frames := by
    intro f hf
    rcases h'.frames f hf with old | new
    · exact h.frames f old
    · exact .inr (h.id ▸ new)

/-- A link that is only fed is steady. -/
theorem Feeds.steady (h : Feeds P l l') : Steady P l l' := by
  obtain ⟨es, rs, hP, rfl⟩ := h
  refine ⟨rfl, rfl, Iff.rfl, rfl, fun f hf => ?_⟩
  have cases : f ∈ l.outbox.frames ∨ f ∈ es ++ rs := by
    simp only [fed, Outbox.frames, List.mem_append] at hf ⊢
    tauto
  exact cases.imp_right (hP f)

/-- Bytes that arrive do not unsettle a link. -/
theorem steady_of_receive {chunk : Bytes} {arrival : UInt32} {r : Except CodecError Nat}
    (h : l.receive chunk arrival = (r, l')) : Steady P l l' := by
  simp only [receive] at h
  split at h
  · cases h
    exact .of_eq rfl rfl Iff.rfl rfl rfl
  · cases h
    exact .of_eq rfl rfl Iff.rfl rfl rfl

theorem steady_of_nextFrame {frame : Bytes × UInt32} (h : l.nextFrame = some (frame, l')) :
    Steady P l l' := by
  simp only [nextFrame] at h
  split at h
  · cases h
  · cases h
    exact .of_eq rfl rfl Iff.rfl rfl rfl

/-- The link once its neighbour was asked for its tree. -/
def asked (l : Link) : Link := if l.phase = .unsynced then { l with phase := .awaiting } else l

/-- The link once a tree was accepted on it, but for its tasks. -/
def accepted (l : Link) (sender : UInt32) (tree : Tree) : Link :=
  { l with
    phase := .synced
    subtree := tree
    remote := if l.phase = .synced then l.remote else (l.identify sender).2.remote }

theorem steady_asked (l : Link) : Steady P l l.asked := by
  simp only [asked]
  split
  next h => exact .of_eq rfl rfl (by simp [h]) rfl rfl
  · exact .refl P l

end Link

namespace Node

variable {σ α : Type} {n n' n'' : Node σ α} {l l' : Link} {id : LinkId}

/-- All links were there before, and those that are left are steady. -/
structure Steady (P : LinkId → Bytes → Prop) (n n' : Node σ α) : Prop where
  id : n'.id = n.id
  nextLink : n'.nextLink = n.nextLink
  linkIds : n'.linkIds.Sublist n.linkIds
  links : ∀ l' ∈ n'.links, ∃ l ∈ n.links, l.Steady P l'

variable {P Q : LinkId → Bytes → Prop}

theorem Steady.of_links_eq (hid : n'.id = n.id) (hk : n'.nextLink = n.nextLink)
    (hl : n'.links = n.links) : Steady P n n' :=
  ⟨hid, hk, by rw [Node.linkIds, Node.linkIds, hl], fun l hm => ⟨l, hl ▸ hm, .refl P l⟩⟩

theorem Steady.refl (P : LinkId → Bytes → Prop) (n : Node σ α) : Steady P n n :=
  .of_links_eq rfl rfl rfl

theorem Steady.trans (h : Steady P n n') (h' : Steady P n' n'') : Steady P n n'' where
  id := h'.id.trans h.id
  nextLink := h'.nextLink.trans h.nextLink
  linkIds := h'.linkIds.trans h.linkIds
  links := by
    intro l'' hl''
    obtain ⟨l', hl', step'⟩ := h'.links l'' hl''
    obtain ⟨l, hl, step⟩ := h.links l' hl'
    exact ⟨l, hl, step.trans step'⟩

theorem Steady.nodup (h : Steady P n n') (hn : n.linkIds.Nodup) : n'.linkIds.Nodup :=
  h.linkIds.nodup hn

/-- A node that is only fed is steady. -/
theorem Feeds.steady (h : Feeds P n n') : Steady P n n' where
  id := h.id
  nextLink := h.nextLink
  linkIds := h.linkIds_eq ▸ .refl _
  links := by
    intro l' hl'
    obtain ⟨l, hl, fed⟩ := h.exists_of_mem hl'
    exact ⟨l, hl, fed.steady⟩

theorem linkIds_putLink (n : Node σ α) (l : Link) : (n.putLink l).linkIds = n.linkIds := by
  rw [linkIds, linkIds, putLink, List.map_map]
  refine List.map_congr_left fun k _ => ?_
  by_cases hk : k.id = l.id
  · simp [hk]
  · simp [hk]

/-- A steady link takes the place of the one it was. -/
theorem steady_putLink (hl : n.link? id = some l) (h : l.Steady P l') :
    Steady P n (n.putLink l') where
  id := rfl
  nextLink := rfl
  linkIds := linkIds_putLink n l' ▸ .refl _
  links := by
    intro k' hk'
    obtain ⟨k, hk, rfl⟩ := List.mem_map.mp hk'
    by_cases hid : k.id = l'.id
    · rw [if_pos hid]
      exact ⟨l, mem_links_of_link? hl, h⟩
    · rw [if_neg hid]
      exact ⟨k, hk, .refl P k⟩

/-! ## What is steady -/

variable [Host σ]

/-- Closing a link takes it out and leaves the others as they are. -/
theorem close_links (n : Node σ α) (id : LinkId) :
    (n.close id).2.links = n.links.filter (·.id ≠ id) := by
  simp only [close]
  split
  next h =>
    refine (List.filter_eq_self.mpr fun l hl => ?_).symm
    have := List.find?_eq_none.mp h l hl
    simpa using this
  next l h =>
    have dropped : (n.dropLink l).links = n.links.filter (·.id ≠ id) := by
      rw [← id_of_link? h]
      rfl
    have told : ∀ m : Node σ α, ((m.schedule (.dropped l.remote l.station)).losePeer l.remote).links
        = m.links := fun m =>
      ((feeds_schedule m (.dropped l.remote l.station)).trans (feeds_losePeer _ l.remote)).links_eq
    dsimp only
    rw [told, ← dropped]
    split <;> rfl

/-- The links that are left are as they were. -/
theorem steady_close (n : Node σ α) (id : LinkId) : Steady P n (n.close id).2 := by
  have rest : (n.close id).2.id = n.id ∧ (n.close id).2.nextLink = n.nextLink := by
    simp only [close]
    split
    · exact ⟨rfl, rfl⟩
    next l h =>
      have told := fun m : Node σ α =>
        (feeds_schedule (P := P) m (.dropped l.remote l.station)).trans (feeds_losePeer _ l.remote)
      dsimp only
      rw [(told _).id, (told _).nextLink]
      split <;> exact ⟨rfl, rfl⟩
  refine ⟨rest.1, rest.2, ?_, ?_⟩
  · rw [linkIds, linkIds, close_links]
    exact (List.filter_sublist).map _
  · intro l hl
    rw [close_links, List.mem_filter] at hl
    exact ⟨l, hl.1, .refl P l⟩

/-- Bytes that arrive fill an inbox or close their link. -/
theorem steady_arrive (n : Node σ α) (id : LinkId) (chunk : Bytes) :
    Steady P n (n.arrive id chunk) := by
  unfold arrive
  split
  · exact .refl P n
  next l hl =>
    split
    · exact steady_close n id
    next count l' h =>
      have put := steady_putLink hl (Link.steady_of_receive (P := P) h)
      dsimp only
      split
      · exact put
      · exact put.trans (feeds_plan _ _).steady

/-- What is sent leaves the frame in progress cut short, so nothing is said of frames. -/
theorem steady_flush (n : Node σ α) (id : LinkId) : Steady (fun _ _ => True) n (n.flush id) := by
  simp only [flush]
  split
  · exact .refl _ n
  next l hl =>
    generalize hd : l.drain (Host.transport id) n.host = drained
    obtain ⟨r, l', host⟩ := drained
    have step : l.Steady (fun _ _ => True) l' := by
      cases hd
      exact ⟨rfl, rfl, Iff.rfl, rfl, fun _ _ => .inr trivial⟩
    have same : Steady (fun _ _ => True) n { n with host } := .of_links_eq rfl rfl rfl
    have there : ({ n with host } : Node σ α).link? id = some l := hl
    have put := same.trans (steady_putLink there step)
    dsimp only
    split
    · exact put.trans (steady_close _ id)
    · split
      · exact put.trans (feeds_plan _ _).steady
      · exact put.trans (feeds_plan _ _).steady

omit [Host σ] in
/-- A link that keeps its handle and its tree leaves the view as it was. -/
theorem view_putLink_of_subtree_eq (hn : n.linkIds.Nodup) (hl : n.link? id = some l)
    (hid : l'.id = l.id) (hs : l'.subtree = l.subtree) : (n.putLink l').view = n.view := by
  have same : ∀ k ∈ n.links,
      (⟨(if k.id = l'.id then l' else k).id, (if k.id = l'.id then l' else k).subtree⟩ :
        Branch LinkId) = ⟨k.id, k.subtree⟩ := by
    intro k hk
    by_cases h : k.id = l'.id
    · obtain rfl := eq_of_id_eq hn hk (mem_links_of_link? hl) (h.trans hid)
      rw [if_pos h, hid, hs]
    · rw [if_neg h]
  simp only [view, putLink, List.map_map, View.mk.injEq, true_and]
  exact List.map_congr_left same

/-- What asking for a tree sends is the tree of the view without the branch of the link. -/
theorem steady_exchange (hn : n.linkIds.Nodup) (id : LinkId) :
    Steady (fun k f => k = id ∧ ∃ dest,
        Frame.ofPacket (.treeRequest n.id dest (n.view.treeExcept id)) = .ok f)
      n (n.exchange id) := by
  simp only [exchange]
  split
  · exact .refl _ n
  next l hl =>
    have asked := Link.steady_asked (P := fun k f => k = id ∧ ∃ dest,
      Frame.ofPacket (.treeRequest n.id dest (n.view.treeExcept id)) = .ok f) l
    have put := (steady_putLink hl asked).trans (feeds_plan _ fun a =>
      (a.restartDelayed l.asked.tasks.timeout n.settings.answerTimeout).2).steady
    have view : ∀ f, ((n.putLink l.asked).plan f).view = n.view := fun f =>
      view_putLink_of_subtree_eq hn hl asked.id asked.subtree
    refine put.trans ((feeds_sendTo (put.nodup hn) id _ true).mono ?_).steady
    rintro k f ⟨hk, hf⟩
    change Frame.ofPacket (.treeRequest n.id l.asked.remote
      (((n.putLink l.asked).plan _).view.treeExcept id)) = .ok f at hf
    rw [view] at hf
    exact ⟨hk, _, hf⟩

omit [Host σ]

/-! ## What opening a link does -/

/-- A new link goes behind the others.  Nothing is known of its neighbour and nothing waits
on it. -/
theorem feeds_addLink (n : Node σ α) (station : Bool) :
    ∃ l : Link, l.id = ⟨n.nextLink⟩ ∧ l.remote = 0 ∧ l.phase = .unsynced ∧
      l.subtree = .unknown ∧ l.outbox.frames = [] ∧
      Feeds P { n with links := n.links ++ [l], nextLink := n.nextLink + 1 }
        (n.addLink station).2 := by
  let new : Link :=
    { id := ⟨n.nextLink⟩, station, tasks := (n.addLinkTasks ⟨n.nextLink⟩ station).1
      outbox := { maxPending := n.settings.queueLimit, minFree := n.settings.memoryReserve }
      reassembler := { limit := n.settings.frameLimit } }
  have planned : Feeds P { n with links := n.links ++ [new], nextLink := n.nextLink + 1 }
      { (n.addLinkTasks ⟨n.nextLink⟩ station).2 with
        links := n.links ++ [new], nextLink := n.nextLink + 1 } :=
    .of_links_eq rfl rfl rfl rfl rfl rfl
  exact ⟨new, rfl, rfl, rfl, rfl, rfl,
    (planned.trans (feeds_schedule _ (.opened ⟨n.nextLink⟩))).trans (feeds_hastenAnnouncement _)⟩

/-- A new link has a handle of its own. -/
theorem nodup_addLink (hn : n.linkIds.Nodup) (fresh : ∀ l ∈ n.links, l.id.number < n.nextLink)
    (station : Bool) : (n.addLink station).2.linkIds.Nodup := by
  obtain ⟨new, id, -, -, -, -, feeds⟩ := feeds_addLink (P := fun _ _ => False) n station
  have other : new.id ∉ n.linkIds := by
    intro old
    obtain ⟨l, hl, same⟩ := List.mem_map.mp old
    have last := same ▸ fresh l hl
    simp [id] at last
  rw [linkIds, feeds.links_eq, List.map_append]
  exact hn.append (List.nodup_singleton _) (by simpa [linkIds] using other)

/-- The next handle is a new one again. -/
theorem fresh_addLink (fresh : ∀ l ∈ n.links, l.id.number < n.nextLink) (station : Bool) :
    ∀ l ∈ (n.addLink station).2.links, l.id.number < (n.addLink station).2.nextLink := by
  obtain ⟨new, id, -, -, -, -, feeds⟩ := feeds_addLink (P := fun _ _ => False) n station
  have nextLink : (n.addLink station).2.nextLink = n.nextLink + 1 := feeds.nextLink
  intro l hl
  rw [nextLink]
  rcases List.mem_append.mp (feeds.links_eq ▸ hl) with old | last
  · exact Nat.lt_succ_of_lt (fresh l old)
  · rw [List.mem_singleton.mp last, id]
    exact Nat.lt_succ_self _

/-! ## What learning of a neighbour does -/

/-- Only a neighbour that was not known becomes known. -/
theorem identifyPeer_cases (n : Node σ α) (id : LinkId) (peer : UInt32) :
    n.identifyPeer id peer = n ∨ ∃ l, n.link? id = some l ∧ l.remote = 0 ∧
      Feeds P (n.putLink { l with remote := peer }) (n.identifyPeer id peer) := by
  simp only [identifyPeer]
  split
  · exact .inl rfl
  next l hl =>
    simp only [Link.identify]
    by_cases news : l.remote = 0 ∧ peer ≠ 0
    · rw [if_pos news]
      exact .inr ⟨l, hl, news.1, feeds_schedule _ _⟩
    · rw [if_neg news]
      exact .inl rfl

/-! ## What accepting a tree does -/

/-- The clock task changes a link in its tasks only. -/
theorem addClockTask_spec (n : Node σ α) (l : Link) :
    (∃ tasks, (n.addClockTask l).1 = { l with tasks }) ∧
      Feeds (fun _ _ => False) n (n.addClockTask l).2 := by
  simp only [addClockTask]
  split
  · exact ⟨⟨_, rfl⟩, .refl _ n⟩
  · exact ⟨⟨_, rfl⟩, feeds_plan n fun _ => _⟩

/-- The first accepted tree makes the link synced and settles the neighbour. -/
theorem settle_spec (n : Node σ α) (l : Link) (sender : UInt32) :
    (∃ tasks, (n.settle l sender).1 =
        { l with tasks, phase := .synced, remote := (l.identify sender).2.remote }) ∧
      Feeds (fun _ _ => False) n (n.settle l sender).2 := by
  have known : (l.identify sender).2 = { l with remote := (l.identify sender).2.remote } := by
    simp only [Link.identify]
    split <;> rfl
  simp only [settle]
  generalize l.identify sender = r at known ⊢
  obtain ⟨news, l'⟩ := r
  simp only at known ⊢
  obtain ⟨⟨tasks, link⟩, rest⟩ := addClockTask_spec
    (if news then n.schedule (.connected sender) else n) { l' with phase := .synced }
  refine ⟨⟨tasks, ?_⟩, Feeds.trans ?_ rest⟩
  · rw [link, known]
  · split
    · exact feeds_schedule n _
    · exact .refl _ n

/-- Storing a tree puts it on its link. -/
theorem feeds_store (n : Node σ α) (l : Link) (sender : UInt32) (tree : Tree) :
    Feeds P (n.putLink { l with subtree := tree }) (n.store l sender tree) := by
  unfold store Link.learn
  dsimp only
  split
  · exact (feeds_hastenExchanges _ _).trans (feeds_schedule _ _)
  · exact .of_links_eq rfl rfl rfl rfl rfl rfl

/-- Accepting a tree puts it on its link, which then is synced. -/
theorem feeds_acceptTree (n : Node σ α) (l : Link) (sender : UInt32) (tree : Tree) :
    ∃ tasks, Feeds P (n.putLink { l.accepted sender tree with tasks })
      (n.acceptTree l sender tree) := by
  simp only [acceptTree, Link.accepted]
  by_cases synced : l.phase = .synced
  · refine ⟨l.tasks, ?_⟩
    simp only [synced, ne_eq, not_true, if_false, if_true]
    rw [← synced]
    exact feeds_store n l sender tree
  · obtain ⟨⟨tasks, link⟩, rest⟩ := settle_spec n l sender
    refine ⟨tasks, ?_⟩
    simp only [synced, ne_eq, not_false_eq_true, if_true, if_false]
    refine Feeds.trans ?_ (feeds_store _ _ sender tree)
    rw [link]
    refine .of_links_eq rest.id rest.root rest.settings rest.nextLink rest.handlers ?_
    rw [putLink, rest.links_eq]
    rfl

end Node

end SpanningMesh
