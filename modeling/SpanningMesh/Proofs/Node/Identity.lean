import Mathlib.Data.List.Infix
import SpanningMesh.Proofs.Node.Churn
import SpanningMesh.Proofs.Node.Keeping

/-!
# Who is behind a link

The neighbour of a link is learnt from the first tree that is accepted on it or from an announcement
of a mesh id, whichever comes first.  From then on it stays who it is, and every further tree must be
its own.

All of this asks whether an id is 0, which stands for a node that is not known.  A neighbour that
sends its first tree under the id 0 is accepted and stays unknown, so that its next trees may have
any top and the next announcement may give it any name (`synced_stranger`).  As long as no tree comes
in under the id 0, a synced link has the node at the top of its tree for its neighbour, and has it
until the link is closed (`identity_of_synced`).

An application may do anything meanwhile that may be asked of a node, and anything to other parts of
it than its links.
-/

namespace SpanningMesh

open Application (Program)

/-- Whether a frame carries a tree under the id 0. -/
def Packet.isAnonymous (body : Bytes) : Bool :=
  match decode body with
  | .ok packet => packet.payload.treeSender? = some 0
  | .error _ => false

namespace Link

variable {l l' l'' : Link}

/-- No frame that waits to be read carries a tree under the id 0. -/
def Signed (l : Link) : Prop := ∀ f ∈ l.inbox, Packet.isAnonymous f.1 = false

instance (l : Link) : Decidable l.Signed :=
  inferInstanceAs (Decidable (∀ f ∈ l.inbox, Packet.isAnonymous f.1 = false))

/-- A link on which a tree was accepted belongs to the node at its top. -/
def Identified (l : Link) : Prop := l.phase = .synced → l.remote ≠ 0 ∧ l.subtree.id = l.remote

/-- The link is who it was.  Its neighbour stays once it is known, and it stays synced once it is. -/
structure Remains (l l' : Link) : Prop where
  id : l'.id = l.id
  remote : l.remote ≠ 0 → l'.remote = l.remote
  synced : l.phase = .synced → l'.phase = .synced
  identified : l.Identified → l'.Identified

theorem Remains.trans (first : Remains l l') (next : Remains l' l'') : Remains l l'' where
  id := next.id.trans first.id
  remote := fun known => (next.remote (first.remote known ▸ known)).trans (first.remote known)
  synced := fun synced => next.synced (first.synced synced)
  identified := fun h => next.identified (first.identified h)

theorem Steady.remains {P : LinkId → Bytes → Prop} (h : Steady P l l') : Remains l l' where
  id := h.id
  remote := fun _ => h.remote
  synced := h.synced.mpr
  identified := fun identified synced => by
    rw [h.remote, h.subtree]
    exact identified (h.synced.mp synced)

theorem Remains.refl (l : Link) : Remains l l := (Steady.refl (fun _ _ => True) l).remains

/-- To learn who the neighbour is changes nothing for a link that belongs to the top of its tree. -/
theorem remains_identify (peer : UInt32) (unknown : l.remote = 0) (identified : l.Identified) :
    Remains l { l with remote := peer } where
  id := rfl
  remote := fun known => absurd unknown known
  synced := fun synced => synced
  identified := fun _ synced => absurd unknown (identified synced).1

/-- A link that accepts a tree belongs to the top of it. -/
theorem remains_accepted {sender : UInt32} {tree : Tree} {tasks : LinkTasks} (named : sender ≠ 0)
    (top : tree.id = sender) (known : l.remote = 0 ∨ tree.id = l.remote)
    (identified : l.Identified) : Remains l { l.accepted sender tree with tasks } := by
  have remote : (l.accepted sender tree).remote = sender :=
    remote_accepted tree named (known.imp_right fun same => top ▸ same)
      fun synced => (identified synced).1
  refine ⟨rfl, fun kept => ?_, fun _ => rfl, fun _ _ => ?_⟩
  · show (l.accepted sender tree).remote = l.remote
    rw [remote, ← top]
    exact known.resolve_left kept
  · show (l.accepted sender tree).remote ≠ 0 ∧ tree.id = (l.accepted sender tree).remote
    rw [remote]
    exact ⟨named, top⟩

end Link

namespace Node

variable {σ α : Type} {n n₀ m k : Node σ α} {id : LinkId} {l l' : Link}

/-! ## Nodes whose links keep their neighbours -/

/-- No frame that waits to be read carries a tree under the id 0. -/
def Signed (n : Node σ α) : Prop := ∀ l ∈ n.links, l.Signed

instance (n : Node σ α) : Decidable n.Signed :=
  inferInstanceAs (Decidable (∀ l ∈ n.links, l.Signed))

/-- A node `n` became `m`.  The links that were open then and still are have the neighbours they had.
All synced links belong to the nodes at the top of their trees, and no frame that waits puts this at
risk. -/
structure Trusted (n m : Node σ α) : Prop where
  nodup : m.linkIds.Nodup
  /-- The next handle is a new one. -/
  fresh : ∀ l ∈ m.links, l.id.number < m.nextLink
  signed : m.Signed
  identified : ∀ l ∈ m.links, l.Identified
  later : n.nextLink ≤ m.nextLink
  /-- Only a link that was opened since is none of before. -/
  remains : ∀ l' ∈ m.links, l'.id.number < n.nextLink → ∃ l ∈ n.links, l.Remains l'

theorem Trusted.of_new (new : n.links = []) : Trusted n n := by
  refine ⟨by simp [linkIds, new], ?_, ?_, ?_, Nat.le_refl _, ?_⟩
  all_goals simp [Signed, new]

/-- From any moment on, the links of that moment are what is kept. -/
theorem Trusted.rebase (h : Trusted n m) : Trusted m m :=
  ⟨h.nodup, h.fresh, h.signed, h.identified, Nat.le_refl _, fun l hl _ => ⟨l, hl, .refl l⟩⟩

/-- Changes in which each link remains who it was keep a node trusted. -/
theorem Trusted.of_remains (h : Trusted n m) (nodup : k.linkIds.Nodup)
    (nextLink : k.nextLink = m.nextLink) (signed : k.Signed)
    (before : ∀ l' ∈ k.links, ∃ l ∈ m.links, l.Remains l') : Trusted n k where
  nodup := nodup
  fresh := by
    intro l' hl'
    obtain ⟨l, hl, remains⟩ := before l' hl'
    rw [remains.id, nextLink]
    exact h.fresh l hl
  signed := signed
  identified := by
    intro l' hl'
    obtain ⟨l, hl, remains⟩ := before l' hl'
    exact remains.identified (h.identified l hl)
  later := nextLink ▸ h.later
  remains := by
    intro l' hl' old
    obtain ⟨l, hl, remains⟩ := before l' hl'
    obtain ⟨l₀, hl₀, first⟩ := h.remains l hl (remains.id ▸ old)
    exact ⟨l₀, hl₀, first.trans remains⟩

theorem Trusted.of_links_eq (h : Trusted n m) (links : k.links = m.links)
    (nextLink : k.nextLink = m.nextLink) : Trusted n k := by
  refine h.of_remains ?_ nextLink ?_ fun l hl => ⟨l, links ▸ hl, .refl l⟩
  · rw [linkIds, links]
    exact h.nodup
  · rw [Signed, links]
    exact h.signed

/-- Links that are steady keep their neighbours. -/
theorem Trusted.steady {P : LinkId → Bytes → Prop} (h : Trusted n m) (steady : Steady P m k)
    (signed : k.Signed) : Trusted n k := by
  refine h.of_remains (steady.nodup h.nodup) steady.nextLink signed fun l' hl' => ?_
  obtain ⟨l, hl, step⟩ := steady.links l' hl'
  exact ⟨l, hl, step.remains⟩

theorem Trusted.feeds {P : LinkId → Bytes → Prop} (h : Trusted n m) (feeds : Feeds P m k) :
    Trusted n k := by
  refine h.steady feeds.steady fun l' hl' => ?_
  obtain ⟨l, hl, es, rs, -, rfl⟩ := feeds.exists_of_mem hl'
  exact h.signed l hl

theorem Trusted.plan (h : Trusted n m) (f : Agenda (Action α) → Agenda (Action α)) :
    Trusted n (m.plan f) :=
  h.of_links_eq rfl rfl

/-- A link takes the place of the one it was. -/
theorem Trusted.putLink (h : Trusted n m) (there : l ∈ m.links) (remains : l.Remains l')
    (inbox : ∀ f ∈ l'.inbox, f ∈ l.inbox) : Trusted n (m.putLink l') := by
  have signed : (m.putLink l').Signed := by
    intro k hk
    rcases mem_links_putLink hk with rfl | ⟨old, -⟩
    · exact fun f hf => h.signed l there f (inbox f hf)
    · exact h.signed k old
  refine h.of_remains (linkIds_putLink m l' ▸ h.nodup) rfl signed fun k hk => ?_
  rcases mem_links_putLink hk with rfl | ⟨old, -⟩
  · exact ⟨l, there, remains⟩
  · exact ⟨k, old, .refl k⟩

/-- Nothing has come in on a new link. -/
theorem signed_addLink (h : m.Signed) (station : Bool) : (m.addLink station).2.Signed := by
  intro l hl
  simp only [addLink] at hl
  rw [(feeds_hastenAnnouncement (P := fun _ _ => False) _).links_eq] at hl
  rcases List.mem_append.mp hl with old | new
  · exact h l old
  · rw [List.mem_singleton.mp new]
    intro f hf
    cases hf

/-- A new link has no neighbour that could change. -/
theorem Trusted.addLink (h : Trusted n m) (station : Bool) : Trusted n (m.addLink station).2 := by
  obtain ⟨new, id, remote, phase, -, -, feeds⟩ := feeds_addLink (P := fun _ _ => False) m station
  have links : (m.addLink station).2.links = m.links ++ [new] := feeds.links_eq
  have nextLink : (m.addLink station).2.nextLink = m.nextLink + 1 := feeds.nextLink
  have last : ¬ new.id.number < m.nextLink := by simp [id]
  refine ⟨nodup_addLink h.nodup h.fresh station, fresh_addLink h.fresh station,
    signed_addLink h.signed station, ?_, ?_, ?_⟩
  · intro l hl
    rcases List.mem_append.mp (links ▸ hl) with old | new
    · exact h.identified l old
    · intro synced
      rw [List.mem_singleton.mp new, phase] at synced
      cases synced
  · rw [nextLink]
    exact Nat.le_succ_of_le h.later
  · intro l hl old
    rcases List.mem_append.mp (links ▸ hl) with there | new
    · exact h.remains l there old
    · rw [List.mem_singleton.mp new] at old
      exact absurd (Nat.lt_of_lt_of_le old h.later) last

variable [Host σ]

/-! ## What the node does with a frame -/

/-- The frames that are left are signed as before. -/
theorem signed_close (h : m.Signed) (id : LinkId) : (m.close id).2.Signed := by
  intro l hl
  rw [close_links] at hl
  exact h l (List.mem_filter.mp hl).1

theorem Trusted.close (h : Trusted n m) (id : LinkId) : Trusted n (m.close id).2 :=
  h.steady (P := fun _ _ => True) (steady_close m id) (signed_close h.signed id)

omit [Host σ] in
/-- Only a neighbour that is not known yet is given a name. -/
theorem Trusted.identifyPeer (h : Trusted n m) (id : LinkId) (peer : UInt32) :
    Trusted n (m.identifyPeer id peer) := by
  rcases identifyPeer_cases (P := fun _ _ => True) m id peer with same | ⟨l, found, unknown, feeds⟩
  · rw [same]
    exact h
  · have there := mem_links_of_link? found
    have remains := l.remains_identify peer unknown (h.identified l there)
    exact (h.putLink there remains fun _ hf => hf).feeds feeds

omit [Host σ] in
/-- A tree may hang on a link only if the neighbour of the link is at its top. -/
theorem known_of_checkAnnounced {sender : UInt32} {tree : Tree}
    (ok : m.checkAnnounced l sender tree = .ok ()) : l.remote = 0 ∨ tree.id = l.remote := by
  by_contra other
  rw [not_or] at other
  simp [checkAnnounced, View.checkTree, other, bind, Except.bind] at ok

/-- A signed tree that is accepted comes from the neighbour that was known before. -/
theorem Trusted.hearTree (h : Trusted n m) (id : LinkId) {sender : UInt32} {tree : Tree}
    (named : sender ≠ 0) (top : tree.id = sender) (wanted : Bool) :
    Trusted n (m.hearTree id sender tree wanted) := by
  unfold Node.hearTree
  split
  · exact h
  next l found =>
    split
    · exact h.close id
    next ok =>
      have there := mem_links_of_link? found
      obtain ⟨tasks, accepts⟩ := feeds_acceptTree (P := fun _ _ => True) m l sender tree
      have remains : l.Remains { l.accepted sender tree with tasks } :=
        Link.remains_accepted named top (known_of_checkAnnounced ok) (h.identified l there)
      have accepted := (h.putLink there remains fun _ hf => hf).feeds accepts
      dsimp only
      split
      · exact accepted.feeds (feeds_sendTo accepted.nodup id _ true)
      · exact accepted.plan _

omit [Host σ] in
theorem Trusted.tell {p : Program σ α} (respects : p.Respects (Trusted n)) (h : Trusted n m)
    (e : Event) : Trusted n (m.tell p e) :=
  respects.tell (fun _ _ h => h.of_links_eq rfl rfl) e h

/-- What the node does with a packet keeps it trusted, unless the packet carries a tree under the
id 0. -/
theorem Trusted.handleOwn {p : Program σ α} (respects : p.Respects (Trusted n)) (h : Trusted n m)
    (id : LinkId) {body : Bytes} {packet : Packet} (read : Packet.decode body = .ok packet)
    (signed : Packet.isAnonymous body = false) (arrival : UInt32) :
    Trusted n (m.handleOwn p packet id arrival) := by
  have named : ∀ sender tree,
      packet.payload = .treeRequest sender tree ∨ packet.payload = .treeReply sender tree →
        sender ≠ 0 := by
    rintro sender tree carries rfl
    have sender : packet.payload.treeSender? = some 0 := by
      rcases carries with carries | carries <;> rw [carries] <;> rfl
    simp [Packet.isAnonymous, read, sender] at signed
  simp only [Node.handleOwn]
  split
  next sender tree carries =>
    have top := Packet.id_of_decode_tree read (.inl carries)
    exact h.hearTree id (named sender tree (.inl carries)) top true
  next sender tree carries =>
    have top := Packet.id_of_decode_tree read (.inr carries)
    exact h.hearTree id (named sender tree (.inr carries)) top false
  · exact h.feeds (feeds_hearTimeSync h.nodup id _ _ arrival)
  · exact h.feeds (feeds_hearTimeDelay h.nodup _ _ arrival)
  · exact h.tell respects _
  · exact h.tell respects _
  · exact (h.identifyPeer id _).feeds (P := fun _ _ => True) (feeds_hearAnnouncement _ _)
  · exact h

/-- To read signed frames keeps all neighbours. -/
theorem keepsReading_trusted {p : Program σ α} (respects : p.Respects (Trusted n)) (id : LinkId) :
    p.KeepsReading id (fun frame => Packet.isAnonymous frame.1 = false) (Trusted n) where
  aside h other := h.of_links_eq other.links other.nextLink
  take next h := by
    obtain ⟨l, rest, found, waiting, rfl⟩ := inbox_of_next next
    have there := mem_links_of_link? found
    have step : l.Steady (fun _ _ => True) { l with inbox := rest } :=
      .of_eq rfl rfl Iff.rfl rfl rfl
    have signed := h.signed l there
    rw [Link.Signed, waiting] at signed
    refine ⟨signed _ List.mem_cons_self, h.putLink there step.remains fun f hf => ?_⟩
    rw [waiting]
    exact List.mem_cons_of_mem _ hf
  forward _ ids body h := h.feeds (feeds_forwardFrame h.nodup ids body)
  own _ _ _ arrival read signed h := h.handleOwn respects id read signed arrival
  handle a packet arrival n h := respects.handle a packet id arrival n h

/-! ## Passes -/

theorem Trusted.exchange (h : Trusted n m) (id : LinkId) : Trusted n (m.exchange id) := by
  refine h.steady (steady_exchange h.nodup id) ?_
  simp only [Node.exchange]
  split
  · exact h.signed
  next l found =>
    have there := mem_links_of_link? found
    have same : l.asked.inbox = l.inbox := by
      simp only [Link.asked]
      split <;> rfl
    have asked : Trusted n (m.putLink l.asked) :=
      h.putLink there (Link.steady_asked (P := fun _ _ => True) l).remains
        fun _ waits => same ▸ waits
    have awaited := asked.plan fun a =>
      (a.restartDelayed l.asked.tasks.timeout m.settings.answerTimeout).2
    exact (awaited.feeds (feeds_sendTo awaited.nodup id _ true)).signed

theorem Trusted.flush (h : Trusted n m) (id : LinkId) : Trusted n (m.flush id) := by
  refine flush_keeps (fun l there q host => ?_) (fun _ id h => h.close id) (fun _ f h => h.plan f)
    h id
  have hosted : Trusted n { m with host } := h.of_links_eq rfl rfl
  exact hosted.putLink there ⟨rfl, fun _ => rfl, fun synced => synced,
    fun identified => identified⟩ fun _ hf => hf

theorem Trusted.perform {p : Program σ α} (respects : p.Respects (Trusted n)) (h : Trusted n m)
    (a : Action α) : Trusted n (m.perform p a) := by
  cases a with
  | exchange id => exact h.exchange id
  | timeout id => exact h.close id
  | read id =>
      exact (keepsReading_trusted respects id).read
        (fun k h => h.feeds (P := fun _ _ => True) (feeds_restReading k id)) h
  | send id => exact h.flush id
  | setClock id => exact h.feeds (feeds_startClockSync h.nodup id)
  | announce => exact h.feeds (feeds_announce h.nodup)
  | tell e => exact h.tell respects e
  | application a => exact respects.task a m h

theorem Trusted.execute {p : Program σ α} (respects : p.Respects (Trusted n)) (h : Trusted n m)
    (now : Nat) : Trusted n (m.execute p now).2 :=
  Agenda.turns_keeps (fun _ _ h => h.of_links_eq rfl rfl) (fun x _ h => h.perform respects x.1)
    (h.of_links_eq rfl rfl)

/-! ## What may be asked -/

/-- Everything but a pass that may be asked of a node keeps it trusted, if no frame that waits
afterwards carries a tree under the id 0. -/
theorem Trusted.input (h : Trusted n m) {i : Input α} (rests : ∀ now, i ≠ .execute now)
    {p : Program σ α} (signed : (m.obey p i).Signed) : Trusted n (m.obey p i) := by
  cases i with
  | addLink station => exact h.addLink station
  | arrive id chunk => exact h.steady (P := fun _ _ => True) (steady_arrive m id chunk) signed
  | disconnect id => exact h.close id
  | close id => exact h.close id
  | send s => exact h.feeds (feeds_send h.nodup s)
  | execute now => exact absurd rfl (rests now)
  | stop =>
      have nothing : ∀ l, l ∉ m.stop.links := fun l hl => List.not_mem_nil (links_stop m ▸ hl)
      have moves : Moves (fun _ => False) m (m.linkIds.foldl (fun n id => (n.close id).2) m) :=
        moves_foldl_close m m.linkIds
      have nextLink := moves.keeps (P := fun k => k.nextLink = m.nextLink)
        (fun move same => move.nextLink.trans same) rfl
      exact h.of_remains (by simp [obey, linkIds, links_stop]) nextLink signed
        fun l hl => absurd hl (nothing l)
  | onPacket kind a => exact h.of_links_eq rfl rfl
  | onEvent kind a => exact h.of_links_eq rfl rfl
  | addTask interval runs a => exact h.of_links_eq rfl rfl
  | joinElection own =>
      obtain ⟨links, -, nextLink⟩ := links_joinElection m own
      exact h.of_links_eq links nextLink

/-- What becomes of a node by all that may be asked of it, while no tree comes in under the id 0, and
by any change elsewhere than in its links. -/
inductive Vouched : Node σ α → Node σ α → Prop where
  | elsewhere {n m : Node σ α} (links : m.links = n.links) (nextLink : m.nextLink = n.nextLink) :
      Vouched n m
  | input (n : Node σ α) {i : Input α} (rests : ∀ now, i ≠ .execute now)
      (signed : n.Signed → (n.obey (.idle σ α) i).Signed) : Vouched n (n.obey (.idle σ α) i)
  | execute (n : Node σ α) (now : Nat) (p : Program σ α) (task : ∀ a m, Vouched m (p.task a m))
      (handle : ∀ a packet id arrival m, Vouched m (p.handle a packet id arrival m).1)
      (listen : ∀ a e m, Vouched m (p.listen a e m)) : Vouched n (n.execute p now).2
  | andThen {n m k : Node σ α} (first : Vouched n m) (next : Vouched m k) : Vouched n k

theorem Trusted.vouched (vouched : Vouched m k) (h : Trusted n m) : Trusted n k := by
  induction vouched with
  | elsewhere links nextLink => exact h.of_links_eq links nextLink
  | input m rests signed => exact h.input rests (signed h.signed)
  | execute m now p _ _ _ task handle listen =>
      exact h.execute ⟨fun a m => task a m,
        fun a packet id arrival m => handle a packet id arrival m, fun a e m => listen a e m⟩ now
  | andThen _ _ first next => exact next (first h)

end Node

/-- A program that does to its node what may be asked of it and anything elsewhere than in its links,
but has no tree come in under the id 0. -/
structure Application.Program.Vouches {σ α : Type} [Host σ] (p : Program σ α) : Prop where
  task : ∀ a n, Node.Vouched n (p.task a n)
  handle : ∀ a packet id arrival n, Node.Vouched n (p.handle a packet id arrival n).1
  listen : ∀ a e n, Node.Vouched n (p.listen a e n)

theorem Application.Program.Vouches.respects {σ α : Type} [Host σ] {p : Program σ α}
    (vouches : p.Vouches) (n : Node σ α) : p.Respects (Node.Trusted n) where
  task a m h := h.vouched (vouches.task a m)
  handle a packet id arrival m h := h.vouched (vouches.handle a packet id arrival m)
  listen a e m h := h.vouched (vouches.listen a e m)

namespace Node

variable {σ α : Type} [Host σ] {p : Program σ α} {n m : Node σ α}

/-! ## Histories -/

/-- An input keeps all neighbours as long as what waits after it is signed. -/
theorem Trusted.obey (vouches : p.Vouches) (h : Trusted n m) (i : Input α)
    (signed : (m.obey p i).Signed) : Trusted n (m.obey p i) := by
  cases i with
  | execute now => exact h.execute (vouches.respects n) now
  | addLink | arrive | disconnect | close | send | stop | onPacket | onEvent | addTask
    | joinElection => exact h.input (by simp) signed

/-- A history in which no tree comes in under the id 0 keeps a node trusted. -/
theorem Trusted.live (vouches : p.Vouches) (h : Trusted n m) (events : List (σ × Input α))
    (signed : ∀ past, past <+: events → (m.live p past).Signed) : Trusted n (m.live p events) := by
  induction events using List.reverseRecOn with
  | nil => exact h
  | append_singleton events e ih =>
      have before := ih fun past within => signed past (within.trans (List.prefix_append _ _))
      have hosted : Trusted n { m.live p events with host := e.1 } := before.of_links_eq rfl rfl
      have after := signed _ (List.prefix_refl _)
      rw [live_append] at after ⊢
      exact hosted.obey vouches e.2 after

/-- In every history in which no tree comes in under the id 0, whatever else comes in and whatever an
application does meanwhile, every synced link has a neighbour with an id, which is the node at the
top of its tree.  As long as the link is open it stays synced and has that neighbour. -/
theorem identity_of_synced (vouches : p.Vouches) (new : n.links = [])
    (past rest : List (σ × Input α))
    (signed : ∀ events, events <+: past ++ rest → (n.live p events).Signed) :
    ∀ l ∈ (n.live p past).links, l.phase = .synced →
      l.remote ≠ 0 ∧ l.subtree.id = l.remote ∧
      ∀ l' ∈ (n.live p (past ++ rest)).links, l'.id = l.id →
        l'.phase = .synced ∧ l'.remote = l.remote := by
  intro l hl synced
  have now : Trusted n (n.live p past) := (Trusted.of_new new).live vouches past
    fun events within => signed events (within.trans (List.prefix_append _ _))
  have later : Trusted (n.live p past) (n.live p (past ++ rest)) := by
    rw [live_append]
    refine now.rebase.live vouches rest fun events within => ?_
    rw [← live_append]
    exact signed _ ((List.prefix_append_right_inj past).mpr within)
  obtain ⟨known, top⟩ := now.identified l hl synced
  refine ⟨known, top, fun l' hl' same => ?_⟩
  obtain ⟨k, hk, remains⟩ := later.remains l' hl' (same ▸ now.fresh l hl)
  obtain rfl := eq_of_id_eq now.nodup hk hl (remains.id.symm.trans same)
  exact ⟨remains.synced synced, remains.remote known⟩

/-- The first link comes to be synced with the node 2 and stays so, while the application opens and
closes another. -/
theorem identity_of_synced_restless :
    restless.Vouches ∧ newcomer.links = [] ∧
      (∀ events, events <+: comingsAndGoings → (newcomer.live restless events).Signed) ∧
      ∃ l ∈ (newcomer.live restless (comingsAndGoings.take 4)).links, l.phase = .synced ∧
        l.remote ≠ 0 ∧ l.subtree.id = l.remote ∧
        ∃ l' ∈ (newcomer.live restless comingsAndGoings).links, l'.id = l.id ∧
          l'.phase = .synced ∧ l'.remote = l.remote := by
  have vouches : restless.Vouches := by
    refine ⟨fun _ n => .input n (i := .addLink true) (by simp) fun h => signed_addLink h true,
      fun _ _ _ _ _ => .elsewhere rfl rfl, fun _ e n => ?_⟩
    cases e with
    | opened id => exact .input n (i := .close id) (by simp) fun h => signed_close h id
    | connected | dropped | changed | adjusted | measured | meshId | received =>
        exact .elsewhere rfl rfl
  have signed : ∀ events, events <+: comingsAndGoings → (newcomer.live restless events).Signed := by
    have each : ∀ events ∈ comingsAndGoings.inits, (newcomer.live restless events).Signed := by
      decide +kernel
    exact fun events within => each events ((List.mem_inits _ _).mpr within)
  have split : comingsAndGoings.take 4 ++ comingsAndGoings.drop 4 = comingsAndGoings :=
    List.take_append_drop ..
  have identity := identity_of_synced vouches (n := newcomer) rfl (comingsAndGoings.take 4)
    (comingsAndGoings.drop 4) (split ▸ signed)
  rw [split] at identity
  obtain ⟨l, hl, synced, l', hl', same⟩ :
      ∃ l ∈ (newcomer.live restless (comingsAndGoings.take 4)).links, l.phase = .synced ∧
        ∃ l' ∈ (newcomer.live restless comingsAndGoings).links, l'.id = l.id := by
    decide +kernel
  obtain ⟨known, top, stays⟩ := identity l hl synced
  exact ⟨vouches, rfl, signed, l, hl, synced, known, top, l', hl', same, stays l' hl' same⟩

/-- A neighbour sends its first tree under the id 0, its next one under the id 5, and then announces
a mesh id as the node 9. -/
def stranger : List (Outlets Unit × Input Empty) :=
  ([.joinElection 7, .addLink true,
    .arrive ⟨1⟩ [19, 0, 0, 0, 5, 0, 0, 0, 1, 0, 0, 0, 0, 0, 0, 0, 0, 0, 0, 0, 0, 0, 0], .execute 0,
    .arrive ⟨1⟩ [19, 0, 0, 0, 5, 0, 0, 0, 1, 0, 0, 0, 5, 0, 0, 0, 5, 0, 0, 0, 0, 0, 0], .execute 1,
    .arrive ⟨1⟩ [18, 0, 0, 0, 1, 0, 0, 0, 0, 0, 0, 0, 7, 0, 9, 0, 0, 0, 9, 0, 0, 0],
    .execute 2] : List (Input Empty)).map fun i => ({ application := () }, i)

/-- A link is synced with a neighbour that has no id, then with one that is not at the top of its
tree, and then with another neighbour. -/
theorem synced_stranger :
    [4, 6, 8].map (fun k =>
      (receiver.live (.idle (Outlets Unit) Empty) (stranger.take k)).links.map fun l =>
        (l.id, l.phase, l.remote, l.subtree.id)) =
      [[(⟨1⟩, .synced, 0, 0)], [(⟨1⟩, .synced, 0, 5)], [(⟨1⟩, .synced, 9, 5)]] := by
  decide +kernel

end Node

end SpanningMesh
