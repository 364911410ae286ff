import Mathlib.Data.List.Basic
import Mathlib.Data.List.Nodup
import SpanningMesh.Node.Run

/-!
# What sending does to a node

Most of what a node does changes nothing about its links but the frames that wait on
them.  `Feeds P` says so: the links are the same ones in the same order, and each took
in frames behind those it had, all of which satisfy `P`.  Who the neighbour is, how far
the link has come and the tree behind it stay as they are, so the view of the node does
too (`Feeds.view_eq`).

Every operation that sends or only notes something down has one lemma here.  Later
proofs cite it and do not open the operation.

An operation puts a link in the place of all links with its handle.  So the lemmas ask
that handles are unique, which `Feeds` keeps (`Feeds.nodup`).
-/

namespace SpanningMesh

/-! ## Links that are fed -/

namespace Link

/-- The link with frames behind those that wait in its two lanes. -/
def fed (l : Link) (express regular : List Bytes) : Link :=
  { l with outbox := { l.outbox with
      express := l.outbox.express ++ express
      regular := l.outbox.regular ++ regular } }

/-- The link took in frames of some kind and did not change otherwise. -/
def Feeds (P : LinkId → Bytes → Prop) (l l' : Link) : Prop :=
  ∃ express regular, (∀ f ∈ express ++ regular, P l.id f) ∧ l' = l.fed express regular

variable {P Q : LinkId → Bytes → Prop} {l l' l'' : Link}

@[simp] theorem fed_nil (l : Link) : l.fed [] [] = l := by simp [fed]

theorem Feeds.refl (P : LinkId → Bytes → Prop) (l : Link) : Feeds P l l :=
  ⟨[], [], by simp, by simp⟩

theorem Feeds.mono (h : Feeds P l l') (hPQ : ∀ f, P l.id f → Q l.id f) : Feeds Q l l' := by
  obtain ⟨es, rs, hP, rfl⟩ := h
  exact ⟨es, rs, fun f hf => hPQ f (hP f hf), rfl⟩

/-- A link that takes a frame in is fed that frame. -/
theorem feeds_of_enqueue {frame : Bytes} {priority : Bool} {headroom : Nat}
    (h : l.enqueue frame priority headroom = .ok l') : Feeds (fun _ f => f = frame) l l' := by
  simp only [enqueue] at h
  split at h
  next => cases h
  next =>
    split at h
    next q hq =>
      cases h
      simp only [Outbox.enqueue] at hq
      split at hq
      next => cases hq
      next =>
        split at hq
        next =>
          cases hq
          exact ⟨[frame], [], by simp, by simp [fed]⟩
        next =>
          split at hq
          next => cases hq
          next =>
            cases hq
            exact ⟨[], [frame], by simp, by simp [fed]⟩
    next => cases h

end Link

namespace Node

variable {σ α : Type} {n n' n'' : Node σ α} {l l' : Link} {id : LinkId}

/-! ## Looking links up -/

theorem mem_links_of_link? (h : n.link? id = some l) : l ∈ n.links := List.mem_of_find?_eq_some h

theorem id_of_link? (h : n.link? id = some l) : l.id = id := by
  have := List.find?_some h
  simpa using this

theorem eq_of_id_eq (hn : n.linkIds.Nodup) (hl : l ∈ n.links) (hl' : l' ∈ n.links)
    (h : l.id = l'.id) : l = l' :=
  List.inj_on_of_nodup_map hn hl hl' h

theorem link?_of_mem (hn : n.linkIds.Nodup) (hl : l ∈ n.links) : n.link? l.id = some l := by
  cases hf : n.link? l.id with
  | none =>
      have := List.find?_eq_none.mp hf l hl
      simp at this
  | some k => rw [eq_of_id_eq hn hl (mem_links_of_link? hf) (id_of_link? hf).symm]

/-! ## Nodes whose links are fed -/

/-- The node kept its links, and these took in frames of some kind. -/
structure Feeds (P : LinkId → Bytes → Prop) (n n' : Node σ α) : Prop where
  id : n'.id = n.id
  root : n'.root = n.root
  settings : n'.settings = n.settings
  nextLink : n'.nextLink = n.nextLink
  handlers : n'.handlers = n.handlers
  /-- The links are the same, but for the frames. -/
  links : ∃ express regular : LinkId → List Bytes, (∀ k, ∀ f ∈ express k ++ regular k, P k f) ∧
    n'.links = n.links.map fun l => l.fed (express l.id) (regular l.id)

variable {P Q : LinkId → Bytes → Prop}

/-- Changes elsewhere than in the links feed nothing. -/
theorem Feeds.of_links_eq (hid : n'.id = n.id) (hr : n'.root = n.root)
    (hs : n'.settings = n.settings) (hk : n'.nextLink = n.nextLink)
    (hh : n'.handlers = n.handlers) (hl : n'.links = n.links) : Feeds P n n' :=
  ⟨hid, hr, hs, hk, hh, fun _ => [], fun _ => [], by simp, by simp [hl]⟩

theorem Feeds.refl (P : LinkId → Bytes → Prop) (n : Node σ α) : Feeds P n n :=
  .of_links_eq rfl rfl rfl rfl rfl rfl

theorem Feeds.trans (h : Feeds P n n') (h' : Feeds P n' n'') : Feeds P n n'' := by
  obtain ⟨es, rs, hP, links⟩ := h.links
  obtain ⟨es', rs', hP', links'⟩ := h'.links
  refine ⟨h'.id.trans h.id, h'.root.trans h.root, h'.settings.trans h.settings,
    h'.nextLink.trans h.nextLink, h'.handlers.trans h.handlers,
    fun k => es k ++ es' k, fun k => rs k ++ rs' k, ?_, ?_⟩
  · intro k f hf
    have cases : f ∈ es k ++ rs k ∨ f ∈ es' k ++ rs' k := by
      simp only [List.mem_append] at hf ⊢
      tauto
    exact cases.elim (hP k f) (hP' k f)
  · rw [links', links, List.map_map]
    simp [Function.comp_def, Link.fed]

theorem Feeds.mono (h : Feeds P n n') (hPQ : ∀ k f, P k f → Q k f) : Feeds Q n n' := by
  obtain ⟨es, rs, hP, links⟩ := h.links
  exact ⟨h.id, h.root, h.settings, h.nextLink, h.handlers, es, rs,
    fun k f hf => hPQ k f (hP k f hf), links⟩

/-- If no frame may come in, the links are the same. -/
theorem Feeds.links_eq (h : Feeds (fun _ _ => False) n n') : n'.links = n.links := by
  obtain ⟨es, rs, none, links⟩ := h.links
  have empty : ∀ k, es k = [] ∧ rs k = [] := fun k =>
    List.append_eq_nil_iff.mp (List.eq_nil_iff_forall_not_mem.mpr fun f hf => none k f hf)
  rw [links]
  simp [empty]

/-- Every link of the fed node is one of before. -/
theorem Feeds.exists_of_mem (h : Feeds P n n') (hl : l' ∈ n'.links) :
    ∃ l ∈ n.links, Link.Feeds P l l' := by
  obtain ⟨es, rs, hP, links⟩ := h.links
  rw [links, List.mem_map] at hl
  obtain ⟨l, hl, rfl⟩ := hl
  exact ⟨l, hl, es l.id, rs l.id, hP l.id, rfl⟩

/-- No link comes or goes. -/
theorem Feeds.linkIds_eq (h : Feeds P n n') : n'.linkIds = n.linkIds := by
  obtain ⟨es, rs, -, links⟩ := h.links
  rw [linkIds, linkIds, links, List.map_map]
  rfl

theorem Feeds.nodup (h : Feeds P n n') (hn : n.linkIds.Nodup) : n'.linkIds.Nodup :=
  h.linkIds_eq ▸ hn

/-- What a node knows of the mesh does not depend on what waits to be sent. -/
theorem Feeds.view_eq (h : Feeds P n n') : n'.view = n.view := by
  obtain ⟨es, rs, -, links⟩ := h.links
  simp only [view, h.id, h.root, links, List.map_map]
  rfl

/-- A link is found where it was, and took in frames. -/
theorem Feeds.link? (h : Feeds P n n') (hl : n.link? id = some l) :
    ∃ l', n'.link? id = some l' ∧ Link.Feeds P l l' := by
  obtain ⟨es, rs, hP, links⟩ := h.links
  refine ⟨l.fed (es l.id) (rs l.id), ?_, es l.id, rs l.id, hP l.id, rfl⟩
  have found : n.links.find? (fun k => decide (k.id = id)) = some l := hl
  have same : (fun k : Link => decide (k.id = id)) ∘
      (fun k : Link => k.fed (es k.id) (rs k.id)) = fun k => decide (k.id = id) := rfl
  rw [Node.link?, links, List.find?_map, same, found]
  rfl

/-! ## What only notes something down -/

theorem feeds_plan (n : Node σ α) (f : Agenda (Action α) → Agenda (Action α)) :
    Feeds P n (n.plan f) :=
  .of_links_eq rfl rfl rfl rfl rfl rfl

theorem feeds_schedule (n : Node σ α) (e : Event) : Feeds P n (n.schedule e) := feeds_plan n _

theorem feeds_adjustTime (n : Node σ α) (offset : Int32) : Feeds P n (n.adjustTime offset) :=
  .of_links_eq rfl rfl rfl rfl rfl rfl

theorem feeds_hastenExchanges (n : Node σ α) (except : Option LinkId) :
    Feeds P n (n.hastenExchanges except) :=
  feeds_plan n _

theorem feeds_countMalformed (n : Node σ α) : Feeds P n n.countMalformed :=
  .of_links_eq rfl rfl rfl rfl rfl rfl

theorem feeds_hastenAnnouncement (n : Node σ α) : Feeds P n n.hastenAnnouncement := by
  simp only [hastenAnnouncement]
  split
  · exact feeds_plan n _
  · exact .refl P n

theorem feeds_restReading (n : Node σ α) (id : LinkId) : Feeds P n (n.restReading id) := by
  simp only [restReading]
  split
  · exact .refl P n
  · exact feeds_plan n _

theorem feeds_setElection (n : Node σ α) (c : Candidacy) (e : Election) :
    Feeds P n (n.setElection c e) := by
  simp only [setElection]
  refine Feeds.trans ?_ (feeds_hastenAnnouncement _)
  split
  · exact .of_links_eq rfl rfl rfl rfl rfl rfl
  · exact .of_links_eq rfl rfl rfl rfl rfl rfl

theorem feeds_hearAnnouncement (n : Node σ α) (a : Announcement) :
    Feeds P n (n.hearAnnouncement a) := by
  simp only [hearAnnouncement]
  split
  · exact .refl P n
  · split
    · exact .refl P n
    · exact feeds_setElection n _ _

theorem feeds_losePeer (n : Node σ α) (peer : UInt32) : Feeds P n (n.losePeer peer) := by
  simp only [losePeer]
  split
  · exact .refl P n
  · split
    · exact .refl P n
    · exact feeds_setElection n _ _

theorem feeds_setClock (n : Node σ α) (id : LinkId) (offset : Int32) :
    Feeds P n (n.setClock id offset) := by
  simp only [setClock]
  refine Feeds.trans (feeds_adjustTime n offset) (Feeds.trans ?_ (feeds_schedule _ _))
  split
  · exact .refl P _
  · split
    · exact feeds_plan _ _
    · exact feeds_plan _ _

/-! ## What queues frames -/

/-- A fed link takes the place of the one it was. -/
theorem feeds_putLink (hn : n.linkIds.Nodup) (hl : l ∈ n.links) (h : Link.Feeds P l l') :
    Feeds P n (n.putLink l') := by
  obtain ⟨es, rs, hP, rfl⟩ := h
  refine ⟨rfl, rfl, rfl, rfl, rfl, fun k => if k = l.id then es else [],
    fun k => if k = l.id then rs else [], ?_, ?_⟩
  · intro k f hf
    by_cases hk : k = l.id
    · subst hk
      exact hP f (by simpa using hf)
    · simp [hk] at hf
  · refine List.map_congr_left fun k hk => ?_
    by_cases hid : k.id = l.id
    · obtain rfl := eq_of_id_eq hn hk hl hid
      simp [Link.fed]
    · simp [Link.fed, hid]

variable [Host σ]

/-- A frame is queued on its own link. -/
theorem feeds_queueFrame (hn : n.linkIds.Nodup) (id : LinkId) (frame : Bytes)
    (priority : Bool) :
    Feeds (fun k f => k = id ∧ f = frame) n (n.queueFrame id frame priority).2 := by
  simp only [queueFrame]
  split
  · exact .refl _ n
  next l hl =>
    split
    · exact .refl _ n
    next l' hq =>
      have fed := (Link.feeds_of_enqueue hq).mono (Q := fun k f => k = id ∧ f = frame)
        fun f hf => ⟨id_of_link? hl, hf⟩
      dsimp only
      exact (feeds_putLink hn (mem_links_of_link? hl) fed).trans (feeds_plan _ _)

theorem feeds_sendTo (hn : n.linkIds.Nodup) (id : LinkId) (p : Packet) (priority : Bool) :
    Feeds (fun k f => k = id ∧ Frame.ofPacket p = .ok f) n (n.sendTo id p priority).2 := by
  simp only [sendTo]
  split
  · exact .refl _ n
  next frame hf =>
    exact (feeds_queueFrame hn id frame priority).mono fun k f h => ⟨h.1, h.2 ▸ hf⟩

/-- A frame is queued on the links that are named, at most. -/
theorem feeds_queueOnAll (hn : n.linkIds.Nodup) (ids : List LinkId) (frame : Bytes)
    (priority : Bool) :
    Feeds (fun k f => k ∈ ids ∧ f = frame) n (n.queueOnAll ids frame priority).2 := by
  unfold queueOnAll
  -- The fold also counts, so the induction carries the count along.
  generalize 0 = count
  induction ids generalizing n count with
  | nil => exact .refl _ n
  | cons id ids ih =>
      have first : Feeds (fun k f => k ∈ id :: ids ∧ f = frame) n
          (n.queueFrame id frame priority).2 :=
        (feeds_queueFrame hn id frame priority).mono fun k f h => ⟨h.1 ▸ List.mem_cons_self, h.2⟩
      have rest := fun count => (ih (first.nodup hn) count).mono
        (Q := fun k f => k ∈ id :: ids ∧ f = frame)
        fun k f h => ⟨List.mem_cons_of_mem _ h.1, h.2⟩
      rw [List.foldl_cons]
      cases hq : n.queueFrame id frame priority with
      | mk r m =>
          rw [hq] at first rest
          simp only [hq]
          cases r with
          | ok u => exact first.trans (rest (count + 1))
          | error e => exact first.trans (rest count)

/-- A body is forwarded in a frame of its own through the links that are named, at most. -/
theorem feeds_forwardFrame (hn : n.linkIds.Nodup) (ids : List LinkId) (body : Bytes) :
    Feeds (fun k f => k ∈ ids ∧ Frame.ofBody body = .ok f) n (n.forwardFrame ids body) := by
  simp only [forwardFrame]
  split
  · exact .refl _ n
  next frame hf =>
    exact (feeds_queueOnAll hn ids frame false).mono fun k f h => ⟨h.1, h.2 ▸ hf⟩

theorem feeds_sendToAll (hn : n.linkIds.Nodup) (p : Packet) (except : Option LinkId)
    (priority : Bool) :
    Feeds (fun _ f => Frame.ofPacket p = .ok f) n (n.sendToAll p except priority).2 := by
  simp only [sendToAll]
  split
  · exact .refl _ n
  next frame hf => exact (feeds_queueOnAll hn _ frame priority).mono fun k f h => h.2 ▸ hf

theorem feeds_sendPacket (hn : n.linkIds.Nodup) (p : Packet) (priority : Bool) :
    Feeds (fun _ f => Frame.ofPacket p = .ok f) n (n.sendPacket p priority).2 := by
  simp only [sendPacket]
  split
  next id _ =>
    have fed := (feeds_sendTo hn id p priority).mono
      (Q := fun _ f => Frame.ofPacket p = .ok f) fun _ _ h => h.2
    split
    next m hm =>
      rw [hm] at fed
      exact fed
    next e m hm =>
      rw [hm] at fed
      exact fed
  · exact feeds_sendToAll hn p none priority
  · exact .refl _ n

/-- All that a broadcast queues is the packet that carries the text. -/
theorem feeds_sendBroadcast (hn : n.linkIds.Nodup) (text : String) (includeSelf : Bool) :
    Feeds (fun _ f => Frame.ofPacket (.broadcast n.id text) = .ok f) n
      (n.sendBroadcast text includeSelf).2 := by
  unfold sendBroadcast
  refine Feeds.trans (feeds_sendToAll hn _ none false) ?_
  dsimp only
  split
  · exact feeds_schedule _ _
  · exact .refl _ _

/-- All that an announcement queues is the standing of the node. -/
theorem feeds_announce (hn : n.linkIds.Nodup) :
    Feeds (fun _ f => ∃ c, n.candidacy = some c ∧
      Frame.ofPacket (.meshId (c.election.announce n.id)) = .ok f) n n.announce := by
  simp only [announce]
  split
  · exact .refl _ n
  next c hc => exact (feeds_sendPacket hn _ false).mono fun k f h => ⟨c, hc, h⟩

theorem feeds_startClockSync (hn : n.linkIds.Nodup) (id : LinkId) :
    Feeds (fun _ _ => True) n (n.startClockSync id) := by
  simp only [startClockSync]
  split
  · exact .refl _ n
  · exact (feeds_sendTo hn id _ true).mono fun _ _ _ => trivial

theorem feeds_hearTimeSync (hn : n.linkIds.Nodup) (id : LinkId) (sender : UInt32)
    (x : TimeExchange) (arrival : UInt32) :
    Feeds (fun _ _ => True) n (n.hearTimeSync id sender x arrival) := by
  simp only [hearTimeSync]
  split
  · exact (feeds_sendTo hn id _ true).mono fun _ _ _ => trivial
  · exact (feeds_sendTo hn id _ true).mono fun _ _ _ => trivial
  · exact feeds_setClock n id _
  · exact .refl _ n

theorem feeds_hearTimeDelay (hn : n.linkIds.Nodup) (sender : UInt32) (x : TimeExchange)
    (arrival : UInt32) : Feeds (fun _ _ => True) n (n.hearTimeDelay sender x arrival) := by
  simp only [hearTimeDelay]
  split
  · exact (feeds_sendPacket hn _ false).mono fun _ _ _ => trivial
  · exact feeds_schedule n _
  · exact .refl _ n
  · exact .refl _ n

end Node

end SpanningMesh
