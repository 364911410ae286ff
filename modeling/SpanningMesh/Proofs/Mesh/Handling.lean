import SpanningMesh.Proofs.Mesh.Fits
import SpanningMesh.Proofs.Upkeep
import SpanningMesh.Node.Run

/-!
# What becomes of a node that fits

Every move of a node that fits some cables makes it a node that fits them too.
`Becomes` adds that no link was opened and that links of some kind were not closed.

A tree that is heard may close the link it came through, but only if the link does not
belong to a bridge.  No other link is closed by hearing a frame (`becomes_routeFrame`).
-/

namespace SpanningMesh

namespace Node

variable {ι σ α : Type} {ids : ι → UInt32} {cables : Set (Cable ι)} {c : Cable ι} {i : ι}
  {p q : Port ι} {n n' n'' : Node σ α} {k : LinkId} {l : Link} {t : Tree}
  {S : LinkId → Prop}

/-- A node became one that fits, with no new link, and some of its links stayed. -/
structure Becomes (ids : ι → UInt32) (cables : Set (Cable ι)) (i : ι) (S : LinkId → Prop)
    (n n' : Node σ α) : Prop where
  fits : Fits ids cables i n'
  nextLink : n'.nextLink = n.nextLink
  kept : ∀ k ∈ n.linkIds, S k → k ∈ n'.linkIds

theorem Fits.becomes (h : Fits ids cables i n) : Becomes ids cables i S n n :=
  ⟨h, rfl, fun _ hk _ => hk⟩

theorem Becomes.trans (h : Becomes ids cables i S n n')
    (h' : Becomes ids cables i S n' n'') : Becomes ids cables i S n n'' where
  fits := h'.fits
  nextLink := h'.nextLink.trans h.nextLink
  kept k hk stays := h'.kept k (h.kept k hk stays) stays

/-- A node becomes what steady changes make of it that let only honest frames wait. -/
theorem Fits.becomes_steady {P : LinkId → Bytes → Prop} (h : Fits ids cables i n)
    (step : Steady P n n') (same : n'.linkIds = n.linkIds)
    (honest : ∀ k f, P k f → ∀ c ∈ cables, ∀ q, c.Faces ⟨i, k⟩ q → Honest ids cables c i f) :
    Becomes ids cables i S n n' :=
  ⟨h.steady step honest, step.nextLink, fun _ hk _ => same ▸ hk⟩

/-- A node becomes what it was if no frames come to wait. -/
theorem Fits.becomes_feeds (h : Fits ids cables i n) (step : Feeds (fun _ _ => False) n n') :
    Becomes ids cables i S n n' :=
  h.becomes_steady step.steady step.linkIds_eq fun _ _ hf => hf.elim

theorem Fits.becomes_of_links_eq (h : Fits ids cables i n) (hid : n'.id = n.id)
    (next : n'.nextLink = n.nextLink) (links : n'.links = n.links) :
    Becomes ids cables i S n n' := by
  refine h.becomes_steady (P := fun _ _ => False) (.of_links_eq hid next links) ?_ ?_
  · rw [linkIds, linkIds, links]
  · exact fun _ _ hf => hf.elim

/-- A node that fits may close any link. -/
theorem Fits.becomes_close [Host σ] (h : Fits ids cables i n) (k : LinkId) :
    Becomes ids cables i (· ≠ k) n (n.close k).2 := by
  have step : Steady (fun _ _ => False) n (n.close k).2 := steady_close n k
  refine ⟨h.steady step fun _ _ hf => hf.elim, step.nextLink, fun k' hk' hne => ?_⟩
  rw [linkIds, close_links, List.mem_map]
  obtain ⟨l, hl, rfl⟩ := List.mem_map.mp hk'
  exact ⟨l, List.mem_filter.mpr ⟨hl, by simpa using hne⟩, rfl⟩

/-! ## Moves of a node alone -/

/-- A node that fits may open a link that belongs to a cable. -/
theorem Fits.addLink {station : Bool} (h : Fits ids cables i n) (hc : c ∈ cables)
    (faces : c.Faces ⟨i, ⟨n.nextLink⟩⟩ q) : Fits ids cables i (n.addLink station).2 := by
  have sound := h.sound.addLink station
  obtain ⟨new, hid, remote, -, blank, waits, feeds⟩ :=
    feeds_addLink (P := fun _ _ => False) n station
  refine ⟨feeds.id.trans h.id, sound, fun l hl => ?_⟩
  rw [feeds.links_eq] at hl
  rcases List.mem_append.mp hl with old | last
  · exact h.links l old
  · rw [List.mem_singleton.mp last]
    refine ⟨c, hc, q, hid ▸ faces, .inl remote, .inl blank, fun f hf => ?_⟩
    rw [waits] at hf
    cases hf

section
variable [Host σ]

theorem linkIds_exchange (hn : n.linkIds.Nodup) : (n.exchange k).linkIds = n.linkIds := by
  simp only [exchange]
  split
  · rfl
  next l hl =>
    have nodup : ((n.putLink l.asked).plan fun a => (a.restartDelayed l.asked.tasks.timeout
        n.settings.answerTimeout).2).linkIds.Nodup := linkIds_putLink n l.asked ▸ hn
    exact (feeds_sendTo nodup k _ true).linkIds_eq.trans (linkIds_putLink n l.asked)

/-- What a node tells its neighbours about the mesh is true. -/
theorem Fits.becomes_exchange (h : Fits ids cables i n) (k : LinkId) :
    Becomes ids cables i S n (n.exchange k) := by
  refine h.becomes_steady (steady_exchange h.sound.nodup k) (linkIds_exchange h.sound.nodup) ?_
  rintro _ f ⟨rfl, dest, hf⟩ c - q faces
  rw [h.id] at hf
  exact honest_treeRequest (h.told faces) hf

/-- A node announces itself under its own id. -/
theorem Fits.becomes_announce (h : Fits ids cables i n) :
    Becomes ids cables i S n n.announce := by
  have step := feeds_announce h.sound.nodup
  refine h.becomes_steady step.steady step.linkIds_eq ?_
  rintro _ f ⟨candidacy, -, hf⟩ c - q -
  exact honest_meshId h.id hf

end

/-! ## Learning who the neighbour is -/

/-- A node that fits stays so if a link of it is replaced by one that fits. -/
theorem Fits.putLink {new : Link} (h : Fits ids cables i n) (sound : Sound (n.putLink new))
    (hc : c ∈ cables) (faces : c.Faces ⟨i, new.id⟩ q) (fits : new.Fits ids cables c i q.node) :
    Fits ids cables i (n.putLink new) where
  id := h.id
  sound := sound
  links := by
    intro k hk
    rcases mem_links_putLink hk with rfl | ⟨old, -⟩
    · exact ⟨c, hc, q, faces, fits⟩
    · exact h.links k old

/-- The peer of a link is the node at the other end of the cable. -/
theorem Fits.becomes_identifyPeer (plugged : Plugged cables) (h : Fits ids cables i n)
    (hc : c ∈ cables) (faces : c.Faces ⟨i, k⟩ q) :
    Becomes ids cables i S n (n.identifyPeer k (ids q.node)) := by
  have sound := h.sound.identifyPeer k (ids q.node)
  rcases identifyPeer_cases (P := fun _ _ => False) n k (ids q.node) with same | ⟨l, hl, -, feeds⟩
  · rw [same]
    exact h.becomes
  · obtain rfl := id_of_link? hl
    have old := h.link plugged (mem_links_of_link? hl) hc faces
    have sound' : Sound (n.putLink { l with remote := ids q.node }) :=
      sound.of_links_eq feeds.id.symm feeds.nextLink.symm feeds.links_eq.symm
    have put := h.putLink sound' hc faces ⟨.inr rfl, old.subtree, old.frames⟩
    have same : (n.putLink { l with remote := ids q.node }).linkIds = n.linkIds :=
      linkIds_putLink ..
    exact ⟨(put.becomes_feeds (S := S) feeds).fits, feeds.nextLink,
      fun k hk _ => feeds.linkIds_eq ▸ same ▸ hk⟩

/-! ## Hearing a tree -/

/-- Accepting a tree that was told keeps a node fitting. -/
theorem Fits.becomes_acceptTree (plugged : Plugged cables) (ne : ∀ i, ids i ≠ 0)
    (h : Fits ids cables i n) (hl : n.link? k = some l) (hc : c ∈ cables)
    (faces : c.Faces ⟨i, k⟩ q) (told : Told ids cables c q.node t)
    (ok : n.checkAnnounced l (ids q.node) t = .ok ()) :
    Becomes ids cables i S n (n.acceptTree l (ids q.node) t) := by
  have sound := h.sound.acceptTree hl (ne q.node) told.top ok
  obtain ⟨tasks, feeds⟩ := feeds_acceptTree (P := fun _ _ => False) n l (ids q.node) t
  obtain rfl := id_of_link? hl
  have hm := mem_links_of_link? hl
  have old := h.link plugged hm hc faces
  have sound' : Sound (n.putLink { l.accepted (ids q.node) t with tasks }) :=
    sound.of_links_eq feeds.id.symm feeds.nextLink.symm feeds.links_eq.symm
  have remote : (l.accepted (ids q.node) t).remote = ids q.node :=
    Link.remote_accepted t (ne q.node) (old.remote.imp_right Eq.symm) fun synced =>
      (h.sound.settled l hm synced).1
  have put := h.putLink sound' hc faces ⟨.inr remote, .inr ⟨told.top, told.whole⟩, old.frames⟩
  have same : (n.putLink { l.accepted (ids q.node) t with tasks }).linkIds = n.linkIds :=
    linkIds_putLink ..
  exact ⟨(put.becomes_feeds (S := S) feeds).fits, feeds.nextLink,
    fun k hk _ => feeds.linkIds_eq ▸ same ▸ hk⟩

variable [Host σ]

/-- Hearing a tree that was told closes no link but the one it came through, and that only
if the link does not belong to a bridge. -/
theorem Fits.becomes_hearTree (inj : ids.Injective) (ne : ∀ i, ids i ≠ 0)
    (plugged : Plugged cables) (h : Fits ids cables i n) (hc : c ∈ cables)
    (faces : c.Faces ⟨i, k⟩ q) (told : Told ids cables c q.node t) (wanted : Bool) :
    Becomes ids cables i (fun k' => k' ≠ k ∨ Bridge cables c) n
      (n.hearTree k (ids q.node) t wanted) := by
  unfold hearTree
  split
  · exact h.becomes
  next l hl =>
    have hm := mem_links_of_link? hl
    have faces' : c.Faces ⟨i, l.id⟩ q := id_of_link? hl ▸ faces
    split
    next e rejected =>
      have closed := h.becomes_close k
      refine ⟨closed.fits, closed.nextLink, fun k' hk' stays => closed.kept k' hk' ?_⟩
      refine stays.resolve_right fun bridge => ?_
      have ok := h.checkAnnounced inj ne plugged hm hc bridge faces' told
      rw [ok] at rejected
      cases rejected
    next ok =>
      have accepted := h.becomes_acceptTree (S := fun k' => k' ≠ k ∨ Bridge cables c)
        plugged ne hl hc faces told ok
      refine accepted.trans ?_
      dsimp only
      split
      · have sent := feeds_sendTo accepted.fits.sound.nodup k
          (.treeReply (n.acceptTree l (ids q.node) t).id (ids q.node)
            ((n.acceptTree l (ids q.node) t).view.treeExcept k)) true
        refine accepted.fits.becomes_steady sent.steady sent.linkIds_eq ?_
        rintro _ f ⟨rfl, hf⟩ d - r faces
        rw [accepted.fits.id] at hf
        exact honest_treeReply (accepted.fits.told faces) hf
      · exact accepted.fits.becomes_feeds (feeds_plan _ _)

/-! ## Hearing a frame -/

theorem Fits.becomes_handleOwn {p : Application.Program σ α} (inj : ids.Injective)
    (ne : ∀ i, ids i ≠ 0) (plugged : Plugged cables) (h : Fits ids cables i n) (hc : c ∈ cables)
    (faces : c.Faces ⟨i, k⟩ q) {packet : Packet}
    (honest : Truthful ids cables c q.node packet.payload) (arrival : UInt32) :
    Becomes ids cables i (fun k' => k' ≠ k ∨ Bridge cables c) n
      (n.handleOwn p packet k arrival) := by
  simp only [handleOwn]
  cases hp : packet.payload with
  | treeRequest sender tree =>
      rw [hp] at honest
      obtain ⟨rfl, told⟩ := honest
      exact h.becomes_hearTree inj ne plugged hc faces told true
  | treeReply sender tree =>
      rw [hp] at honest
      obtain ⟨rfl, told⟩ := honest
      exact h.becomes_hearTree inj ne plugged hc faces told false
  | meshId a =>
      rw [hp] at honest
      have sender : a.sender = ids q.node := honest
      dsimp only
      rw [sender]
      have known := h.becomes_identifyPeer (S := fun k' => k' ≠ k ∨ Bridge cables c)
        plugged hc faces
      exact known.trans (known.fits.becomes_feeds (feeds_hearAnnouncement _ _))
  | timeSync | timeDelay | single | broadcast | raw =>
      rw [hp] at honest
      cases honest

/-- Hearing an honest frame closes no link but the one it came through, and that only if the
link does not belong to a bridge. -/
theorem Fits.becomes_routeFrame {n : Node σ Empty} {p : Application.Program σ Empty}
    (inj : ids.Injective) (ne : ∀ i, ids i ≠ 0) (plugged : Plugged cables)
    (h : Fits ids cables i n) (hc : c ∈ cables) (faces : c.Faces ⟨i, k⟩ q) {f : Bytes}
    (honest : Honest ids cables c q.node f) (arrival : UInt32) :
    Becomes ids cables i (fun k' => k' ≠ k ∨ Bridge cables c) n
      (n.routeFrame p k (f.drop Frame.lengthSize) arrival) := by
  obtain ⟨packet, read, delivery, truthful⟩ := honest
  have decision : Decision.make n.id packet.header n.view.routeTo = .handle := by
    rw [Decision.make, delivery]
  simp only [routeFrame, handleFrame]
  rw [Packet.peek_of_decode read, read]
  dsimp only
  rw [decision]
  dsimp only
  refine HandlerTable.dispatch_keeps (P := Becomes ids cables i _ n) ?_ ?_ ?_
  · exact fun table m hm => hm.trans (hm.fits.becomes_of_links_eq rfl rfl rfl)
  · intro handler _ m hm
    cases handler with
    | node => exact hm.trans (hm.fits.becomes_handleOwn inj ne plugged hc faces truthful arrival)
    | application a => exact nomatch a
  · exact h.becomes_of_links_eq rfl rfl rfl

end Node

end SpanningMesh
