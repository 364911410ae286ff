import SpanningMesh.Proofs.Election.Ballot
import SpanningMesh.Proofs.Node.Identity

/-!
# The source of a mesh id

A node falls back to its own id when it loses the neighbour that its mesh id came from.  It compares
the neighbour of the link that goes down with the id under which the announcement came.  But what an
announcement says of its sender is not compared with the neighbour of the link on which it comes in,
so a neighbour may name any node as the source of its id, and then no link that goes down takes the
id back (`foreign_source_stays`).

As long as all trees and announcements on a link come under one id that is not 0, the link belongs to
that id once it belongs to any, and the source of a mesh id is the neighbour of an open link or the
node itself (`source_is_neighbour`).  A node is `Attached` if this is so.  One thing more is needed:
that no application closes a link while an announcement that came in on it is still being handled.
-/

namespace SpanningMesh

open Application (Program)

/-- The id under which a tree or an announcement comes. -/
def Payload.speaker? : Payload → Option UInt32
  | treeRequest sender _ | treeReply sender _ => some sender
  | meshId a => some a.sender
  | timeSync .. | timeDelay .. | single .. | broadcast .. | raw _ => none

/-- The id under which a frame brings a tree or an announcement. -/
def Packet.speaker? (body : Bytes) : Option UInt32 :=
  match decode body with
  | .ok packet => packet.payload.speaker?
  | .error _ => none

/-- Who speaks in a frame can be told from its payload. -/
theorem Packet.speaker?_of_decode {body : Bytes} {packet : Packet}
    (read : Packet.decode body = .ok packet) :
    Packet.speaker? body = packet.payload.speaker? := by
  simp only [speaker?, read]

/-- What comes as an announcement is one. -/
theorem Packet.announcement_of_kind {body : Bytes} {packet : Packet}
    (read : Packet.decode body = .ok packet) (kind : packet.header.kind = Kind.meshId) :
    ∃ a, packet.payload = .meshId a := by
  have fit := (decode_eq_ok_iff.mp read).1
  rw [Matches, kind] at fit
  cases carries : packet.payload with
  | meshId a => exact ⟨a, rfl⟩
  | treeRequest | treeReply | timeSync | timeDelay | single | broadcast | raw =>
      rw [carries] at fit
      exact absurd fit (by simp [Payload.OfKind, Kind.typed, Kind.meshId, Kind.treeRequest,
        Kind.treeReply, Kind.timeSync, Kind.timeDelay, Kind.single, Kind.broadcast])

/-- A handler of announcements leaves the link open on which one came in. -/
def Application.Program.SparesAnnouncers {σ α : Type} (p : Program σ α) : Prop :=
  ∀ a packet id arrival (n : Node σ α), packet.header.kind = Kind.meshId → id ∈ n.linkIds →
    id ∈ (p.handle a packet id arrival n).1.linkIds

namespace Election

variable {e e' : Election} {node : UInt32} {a : Announcement}

/-- After an announcement the source is the one there was, its sender or the node itself. -/
theorem Response.source (response : e.Response node a e') :
    e'.source = e.source ∨ e'.source = a.sender ∨ e'.source = node := by
  cases response with
  | same | ignore => exact .inl rfl
  | follow | rise => exact .inr (.inl rfl)
  | fall => exact .inr (.inr rfl)

end Election

namespace Node

variable {σ α : Type} {peer : LinkId → UInt32} {n m : Node σ α} {id : LinkId} {l l' : Link}
  {s : UInt32}

/-- All trees and announcements that wait on a link come under one id. -/
def Candid (peer : LinkId → UInt32) (n : Node σ α) : Prop :=
  ∀ l ∈ n.links, ∀ f ∈ l.inbox, ∀ s ∈ Packet.speaker? f.1, s = peer l.id

-- A search through all ids that might have spoken would be an instance, too.
instance (peer : LinkId → UInt32) (n : Node σ α) : Decidable (n.Candid peer) :=
  have (l : Link) (f : Bytes × UInt32) : Decidable (∀ s ∈ Packet.speaker? f.1, s = peer l.id) :=
    Option.decidableForallMem _
  inferInstanceAs (Decidable (∀ l ∈ n.links, ∀ f ∈ l.inbox, ∀ s ∈ Packet.speaker? f.1, s = peer l.id))

/-- A source is the node itself or the neighbour of an open link. -/
def Backed (n : Node σ α) (s : UInt32) : Prop := s = n.id ∨ s ≠ 0 ∧ ∃ l ∈ n.links, l.remote = s

/-- Each link belongs to no one yet or to the one whose trees and announcements come in on it, and the
source of the mesh id is the node itself or the neighbour of an open link. -/
structure Attached (peer : LinkId → UInt32) (n : Node σ α) : Prop where
  nodup : n.linkIds.Nodup
  /-- The next handle is a new one. -/
  fresh : ∀ l ∈ n.links, l.id.number < n.nextLink
  candid : n.Candid peer
  remotes : ∀ l ∈ n.links, l.remote = 0 ∨ l.remote = peer l.id
  source : ∀ b, n.ballot = some b → n.Backed b.1.source

theorem Attached.of_new (new : n.links = []) (none : n.candidacy = none) : Attached peer n := by
  refine ⟨by simp [linkIds, new], ?_, ?_, ?_, ?_⟩
  all_goals simp [Candid, new, ballot, none]

/-- Two nodes differ in other things than in who they are, in their links and in the election. -/
structure Alike (n m : Node σ α) : Prop where
  id : m.id = n.id
  links : m.links = n.links
  nextLink : m.nextLink = n.nextLink
  ballot : m.ballot = n.ballot

theorem Attached.alike (h : Attached peer n) (alike : Alike n m) : Attached peer m := by
  refine ⟨?_, ?_, ?_, ?_, fun b there => ?_⟩
  · rw [linkIds, alike.links]
    exact h.nodup
  · rw [alike.links, alike.nextLink]
    exact h.fresh
  · rw [Candid, alike.links]
    exact h.candid
  · rw [alike.links]
    exact h.remotes
  · rw [Backed, alike.links, alike.id]
    exact h.source b (alike.ballot ▸ there)

/-- A source stays a neighbour whatever is sent. -/
theorem Backed.feeds {P : LinkId → Bytes → Prop} (h : n.Backed s) (feeds : Feeds P n m) :
    m.Backed s := by
  obtain ⟨es, rs, -, links⟩ := feeds.links
  rcases h with own | ⟨known, l, hl, same⟩
  · exact .inl (own.trans feeds.id.symm)
  · exact .inr ⟨known, l.fed (es l.id) (rs l.id), links ▸ List.mem_map_of_mem hl, same⟩

/-- To take in frames that are to go out changes no neighbour. -/
theorem Attached.feeds {P : LinkId → Bytes → Prop} (h : Attached peer n) (feeds : Feeds P n m)
    (source : ∀ b, m.ballot = some b → n.Backed b.1.source) : Attached peer m := by
  refine ⟨feeds.nodup h.nodup, fun l' hl' => ?_, fun l' hl' => ?_, fun l' hl' => ?_,
    fun b there => (source b there).feeds feeds⟩
  all_goals obtain ⟨l, hl, es, rs, -, rfl⟩ := feeds.exists_of_mem hl'
  · rw [feeds.nextLink]
    exact h.fresh l hl
  · exact h.candid l hl
  · exact h.remotes l hl

theorem Attached.feeds_aside {P : LinkId → Bytes → Prop} (h : Attached peer n)
    (feeds : Feeds P n m) (ballot : m.ballot = n.ballot) : Attached peer m :=
  h.feeds feeds fun b there => h.source b (ballot ▸ there)

/-- A link takes the place of the one it was.  If that belonged to someone, it still does. -/
theorem Attached.putLink (h : Attached peer n) (there : l ∈ n.links) (same : x.id = l.id)
    (known : l.remote ≠ 0 → x.remote = l.remote)
    (remote : x.remote = 0 ∨ x.remote = peer l.id)
    (inbox : ∀ f ∈ x.inbox, ∀ s ∈ Packet.speaker? f.1, s = peer l.id) :
    Attached peer (n.putLink x) := by
  refine ⟨linkIds_putLink n x ▸ h.nodup, fun k hk => ?_, fun k hk => ?_, fun k hk => ?_,
    fun b takes => ?_⟩
  · rcases mem_links_putLink hk with rfl | ⟨old, -⟩
    · exact same ▸ h.fresh l there
    · exact h.fresh k old
  · rcases mem_links_putLink hk with rfl | ⟨old, -⟩
    · exact same ▸ inbox
    · exact h.candid k old
  · rcases mem_links_putLink hk with rfl | ⟨old, -⟩
    · exact same ▸ remote
    · exact h.remotes k old
  · rcases h.source b takes with own | ⟨named, k, hk, source⟩
    · exact .inl own
    · by_cases here : k.id = l.id
      · obtain rfl := eq_of_id_eq h.nodup hk there here
        exact .inr ⟨named, x, mem_putLink hk same, (known (source ▸ named)).trans source⟩
      · exact .inr ⟨named, k, mem_putLink_of_ne hk (same ▸ here), source⟩

variable [Host σ]

/-! ## Links that come and go -/

/-- A link that goes down takes the mesh id along if its neighbour was the source. -/
theorem ballot_close (found : n.link? id = some l) :
    (n.close id).2.ballot.map Prod.fst = n.ballot.map fun b => b.1.lose n.id l.remote := by
  rcases close_cases n id with ⟨shut, -⟩ | ⟨k, m, opened, uninvolved, closes⟩
  · rw [shut] at found
    cases found
  · obtain rfl := Option.some.inj (opened.symm.trans found)
    rw [closes, ← uninvolved.ballot, ← uninvolved.id]
    cases takes : m.candidacy with
    | none => simp [ballot, losePeer, takes]
    | some c =>
        have lost := election_losePeer takes k.remote
        simpa [ballot, takes, Function.comp_def] using lost

/-- The frames that are left are as candid as before. -/
theorem Candid.close (candid : n.Candid peer) (id : LinkId) : (n.close id).2.Candid peer := by
  intro l hl
  rw [close_links] at hl
  exact candid l (List.mem_filter.mp hl).1

/-- A node lets go of its source together with the link. -/
theorem Attached.close (h : Attached peer n) (id : LinkId) : Attached peer (n.close id).2 := by
  have steady := steady_close (P := fun _ _ => True) n id
  refine ⟨steady.nodup h.nodup, fun l hl => ?_, h.candid.close id, fun l hl => ?_, fun b' there => ?_⟩
  · rw [close_links] at hl
    rw [steady.nextLink]
    exact h.fresh l (List.mem_filter.mp hl).1
  · rw [close_links] at hl
    exact h.remotes l (List.mem_filter.mp hl).1
  · cases found : n.link? id with
    | none =>
        have shut : (n.close id).2 = n := by simp only [Node.close, found]
        rw [shut] at there ⊢
        exact h.source b' there
    | some l =>
        have closed := ballot_close found
        rw [there] at closed
        obtain ⟨b, held, lost⟩ := Option.map_eq_some_iff.mp closed.symm
        have source : b'.1.source = (b.1.lose n.id l.remote).source :=
          congrArg Election.source lost.symm
        rw [Backed, source, steady.id, Election.lose]
        split
        next kept =>
          rcases h.source b held with own | ⟨named, k, hk, same⟩
          · exact .inl own
          · refine .inr ⟨named, k, ?_, same⟩
            rw [close_links]
            refine List.mem_filter.mpr ⟨hk, decide_eq_true fun here => ?_⟩
            obtain rfl := eq_of_id_eq h.nodup hk (mem_links_of_link? found)
              (here.trans (id_of_link? found).symm)
            rcases kept with unknown | other
            · exact named (same ▸ unknown)
            · exact other same
        next => exact .inl rfl

omit [Host σ] in
/-- Nothing has come in on a new link. -/
theorem Candid.addLink (candid : n.Candid peer) (station : Bool) :
    (n.addLink station).2.Candid peer := by
  intro l hl
  simp only [Node.addLink] at hl
  rw [(feeds_hastenAnnouncement (P := fun _ _ => False) _).links_eq] at hl
  rcases List.mem_append.mp hl with old | new
  · exact candid l old
  · rw [List.mem_singleton.mp new]
    intro f hf
    cases hf

omit [Host σ] in
theorem Attached.addLink (h : Attached peer n) (station : Bool) :
    Attached peer (n.addLink station).2 := by
  have uninvolved := n.incidental_addLink station
  obtain ⟨new, -, remote, -, -, -, feeds⟩ := feeds_addLink (P := fun _ _ => False) n station
  have links : (n.addLink station).2.links = n.links ++ [new] := feeds.links_eq
  refine ⟨nodup_addLink h.nodup h.fresh station, fresh_addLink h.fresh station,
    h.candid.addLink station, fun l hl => ?_, fun b there => ?_⟩
  · rcases List.mem_append.mp (links ▸ hl) with old | last
    · exact h.remotes l old
    · exact .inl (List.mem_singleton.mp last ▸ remote)
  · rw [Backed, uninvolved.id, links]
    rcases h.source b (uninvolved.ballot ▸ there) with own | ⟨named, k, hk, same⟩
    · exact .inl own
    · exact .inr ⟨named, k, List.mem_append_left _ hk, same⟩

/-! ## What the node does with a frame -/

omit [Host σ] in
/-- Whoever announces on a link that belongs to no one comes to be its neighbour. -/
theorem Attached.identifyPeer (h : Attached peer n) {s : UInt32} (candid : s = peer id) :
    Attached peer (n.identifyPeer id s) := by
  have uninvolved := n.incidental_identifyPeer id s
  rcases identifyPeer_cases (P := fun _ _ => True) n id s with same | ⟨l, found, unknown, feeds⟩
  · rw [same]
    exact h
  · have there := mem_links_of_link? found
    have put := h.putLink (x := { l with remote := s }) there rfl (fun known => absurd unknown known)
      (.inr (id_of_link? found ▸ candid)) (h.candid l there)
    exact put.feeds_aside feeds uninvolved.ballot

omit [Host σ] in
/-- Whoever announced on an open link is its neighbour then. -/
theorem Attached.speaker_identifyPeer (h : Attached peer n) (opened : id ∈ n.linkIds)
    {s : UInt32} (candid : s = peer id) (named : s ≠ 0) :
    ∃ l ∈ (n.identifyPeer id s).links, l.remote = s := by
  obtain ⟨l, there, rfl⟩ := List.mem_map.mp opened
  simp only [Node.identifyPeer, link?_of_mem h.nodup there, Link.identify]
  rcases h.remotes l there with unknown | known
  · rw [if_pos ⟨unknown, named⟩]
    exact ⟨{ l with remote := s }, mem_putLink there rfl, rfl⟩
  · have same : l.remote = s := known.trans candid.symm
    rw [if_neg fun news => named (same ▸ news.1)]
    exact ⟨l, there, same⟩

omit [Host σ] in
/-- An announcement makes the one who sent it the source, or no one else than before and the node
itself. -/
theorem source_hearAnnouncement (n : Node σ α) (a : Announcement) {b' : Election × SequenceId}
    (there : (n.hearAnnouncement a).ballot = some b') :
    b'.1.source = a.sender ∨ b'.1.source = n.id ∨
      ∃ b, n.ballot = some b ∧ b'.1.source = b.1.source := by
  cases takes : n.candidacy with
  | none =>
      simp only [hearAnnouncement, takes] at there
      exact .inr (.inr ⟨b', there, rfl⟩)
  | some c =>
      have heard := election_hearAnnouncement takes a
      obtain ⟨c', takes', rfl⟩ := Option.map_eq_some_iff.mp there
      rw [takes'] at heard
      have response := c.election.response_apply n.id a
      rw [← Option.some.inj heard] at response
      rcases response.source with kept | heard | own
      · exact .inr (.inr ⟨(c.election, c.generation), by simp [ballot, takes], kept⟩)
      · exact .inl heard
      · exact .inr (.inl own)

omit [Host σ] in
/-- An announcement that comes in on an open link, under the id that all come under there. -/
theorem Attached.hearAnnouncement (h : Attached peer n) (opened : id ∈ n.linkIds)
    {a : Announcement} (candid : a.sender = peer id) (named : a.sender ≠ 0) :
    Attached peer ((n.identifyPeer id a.sender).hearAnnouncement a) := by
  have identified := h.identifyPeer candid
  refine identified.feeds (feeds_hearAnnouncement (P := fun _ _ => True) _ a) fun b' there => ?_
  rcases source_hearAnnouncement _ a there with heard | own | ⟨b, held, kept⟩
  · rw [heard]
    exact .inr ⟨named, h.speaker_identifyPeer opened candid named⟩
  · exact .inl own
  · rw [kept]
    exact identified.source b held

/-- A candid tree tells the name of the peer. -/
theorem Attached.hearTree (h : Attached peer n) {sender : UInt32} (candid : sender = peer id)
    (tree : Tree) (wanted : Bool) : Attached peer (n.hearTree id sender tree wanted) := by
  cases found : n.link? id with
  | none =>
      simp only [Node.hearTree, found]
      exact h
  | some l =>
      cases admitted : n.checkAnnounced l sender tree with
      | error e =>
          simp only [Node.hearTree, found, admitted]
          exact h.close id
      | ok u =>
          have there := mem_links_of_link? found
          obtain ⟨tasks, accepts⟩ := feeds_acceptTree (P := fun _ _ => True) n l sender tree
          have named := id_of_link? found
          have put := h.putLink (x := { l.accepted sender tree with tasks }) there rfl
            (fun known => ?_) ?_ (h.candid l there)
          · have accepted := put.feeds_aside accepts (n.incidental_acceptTree l sender tree).ballot
            simp only [Node.hearTree, found, admitted]
            split
            · exact accepted.feeds_aside (feeds_sendTo accepted.nodup id _ true)
                (incidental_sendTo _ id _ true).ballot
            · exact accepted.feeds_aside (feeds_plan (P := fun _ _ => True) _ _) rfl
          · simp [Link.accepted, Link.identify, known]
          · simp only [Link.accepted, Link.identify]
            split
            · exact h.remotes l there
            · split
              · exact .inr (named ▸ candid)
              · exact h.remotes l there

/-- The handling of a packet keeps a node attached, if the link is open on which an announcement came
in. -/
theorem Attached.handleOwn {p : Program σ α} (respects : p.Respects (Attached peer))
    (h : Attached peer n) {body : Bytes} {packet : Packet} (read : Packet.decode body = .ok packet)
    (candid : ∀ s ∈ Packet.speaker? body, s = peer id) (named : peer id ≠ 0)
    (opened : packet.header.kind = Kind.meshId → id ∈ n.linkIds) (arrival : UInt32) :
    Attached peer (n.handleOwn p packet id arrival) := by
  rw [Packet.speaker?_of_decode read] at candid
  have tell : ∀ e, Attached peer (n.tell p e) :=
    fun e => respects.tell (fun _ _ h => h.alike ⟨rfl, rfl, rfl, rfl⟩) e h
  simp only [Node.handleOwn]
  split
  next sender tree carries =>
    exact h.hearTree (candid sender (by simp [carries, Payload.speaker?])) tree true
  next sender tree carries =>
    exact h.hearTree (candid sender (by simp [carries, Payload.speaker?])) tree false
  · exact h.feeds_aside (feeds_hearTimeSync h.nodup id _ _ arrival)
      (n.incidental_hearTimeSync id _ _ arrival).ballot
  · exact h.feeds_aside (feeds_hearTimeDelay h.nodup _ _ arrival)
      (n.incidental_hearTimeDelay _ _ arrival).ballot
  · exact tell _
  · exact tell _
  next a carries =>
    have kind : packet.header.kind = Kind.meshId := by
      have fit := (Packet.decode_eq_ok_iff.mp read).1
      rwa [Packet.Matches, carries] at fit
    have speaker := candid a.sender (by simp [carries, Payload.speaker?])
    exact h.hearAnnouncement (opened kind) speaker (speaker ▸ named)
  · exact h

omit [Host σ] in
theorem linkIds_identifyPeer (n : Node σ α) (id : LinkId) (s : UInt32) :
    (n.identifyPeer id s).linkIds = n.linkIds := by
  rcases identifyPeer_cases (P := fun _ _ => True) n id s with same | ⟨l, -, -, feeds⟩
  · rw [same]
  · rw [feeds.linkIds_eq, linkIds_putLink]

/-- A candid frame speaks for the peer of its link, so the source becomes that peer. -/
theorem Attached.handleFrame {p : Program σ α} (spares : p.SparesAnnouncers)
    (respects : p.Respects (Attached peer)) (h : Attached peer n) (opened : id ∈ n.linkIds)
    {body : Bytes} (candid : ∀ s ∈ Packet.speaker? body, s = peer id) (named : peer id ≠ 0)
    (arrival : UInt32) : Attached peer (n.handleFrame p id body arrival) := by
  simp only [Node.handleFrame]
  split
  · exact h.alike ⟨rfl, rfl, rfl, rfl⟩
  next packet read =>
    -- While an announcement is handled, the link on which it came in stays open.
    let Kept (m : Node σ α) := Attached peer m ∧ (packet.header.kind = Kind.meshId → id ∈ m.linkIds)
    suffices both : Kept
        (HandlerTable.dispatch handlersOf (runHandler p packet id arrival) packet.header.kind n).1 by
      exact both.1
    refine HandlerTable.dispatch_keeps (P := Kept)
      (fun _ _ h => ⟨h.1.alike ⟨rfl, rfl, rfl, rfl⟩, h.2⟩) ?_ ⟨h, fun _ => opened⟩
    rintro handler - m ⟨attached, still⟩
    cases handler with
    | application a =>
        exact ⟨respects.handle a packet id arrival m attached,
          fun kind => spares a packet id arrival m kind (still kind)⟩
    | node =>
        refine ⟨attached.handleOwn respects read candid named still arrival, fun kind => ?_⟩
        obtain ⟨a, carries⟩ := Packet.announcement_of_kind read kind
        simp only [runHandler, Node.handleOwn, carries]
        rw [(feeds_hearAnnouncement (P := fun _ _ => True) _ a).linkIds_eq, linkIds_identifyPeer]
        exact still kind

theorem Attached.routeFrame {p : Program σ α} (spares : p.SparesAnnouncers)
    (respects : p.Respects (Attached peer)) (h : Attached peer n) (opened : id ∈ n.linkIds)
    {body : Bytes} (candid : ∀ s ∈ Packet.speaker? body, s = peer id) (named : peer id ≠ 0)
    (arrival : UInt32) : Attached peer (n.routeFrame p id body arrival) := by
  cases seen : Header.peek body with
  | error e =>
      simp only [Node.routeFrame, seen]
      exact h.alike ⟨rfl, rfl, rfl, rfl⟩
  | ok header =>
      have counted : Attached peer (n.counted header) := h.alike ⟨rfl, rfl, rfl, rfl⟩
      have feeds := feeds_forwardFrame counted.nodup (n.onward id header) body
      have passed : Attached peer (n.passOn id body header) :=
        counted.feeds_aside feeds (incidental_forwardFrame _ _ body).ballot
      rw [Node.routeFrame_eq p seen]
      split
      · exact passed.handleFrame spares respects (feeds.linkIds_eq ▸ opened) candid named arrival
      · exact passed

theorem Attached.readFrames {p : Program σ α} (spares : p.SparesAnnouncers)
    (respects : p.Respects (Attached peer)) (named : ∀ id, peer id ≠ 0) (h : Attached peer n)
    (id : LinkId) (limit : Nat) : Attached peer (n.readFrames p id limit) := by
  refine readFrames_keeps (fun next h => ?_) limit h
  obtain ⟨l, rest, found, waiting, rfl⟩ := inbox_of_next next
  have there := mem_links_of_link? found
  have candid := h.candid l there
  rw [waiting] at candid
  have taken := h.putLink (x := { l with inbox := rest }) there rfl (fun _ => rfl)
    (h.remotes l there) fun f hf => candid f (List.mem_cons_of_mem _ hf)
  refine taken.routeFrame spares respects ?_ ?_ (named id) _
  · rw [linkIds_putLink, ← id_of_link? found]
    exact List.mem_map_of_mem there
  · exact id_of_link? found ▸ candid _ List.mem_cons_self

/-! ## Passes -/

theorem Attached.exchange (h : Attached peer n) (id : LinkId) : Attached peer (n.exchange id) := by
  cases found : n.link? id with
  | none =>
      simp only [Node.exchange, found]
      exact h
  | some l =>
      have there := mem_links_of_link? found
      have asks : l.asked.id = l.id ∧ l.asked.remote = l.remote ∧ l.asked.inbox = l.inbox := by
        simp only [Link.asked]
        split <;> exact ⟨rfl, rfl, rfl⟩
      have asked := h.putLink there asks.1 (fun _ => asks.2.1)
        (asks.2.1.symm ▸ h.remotes l there) (asks.2.2.symm ▸ h.candid l there)
      have awaited := asked.feeds_aside (feeds_plan (P := fun _ _ => True) _ fun a =>
        (a.restartDelayed l.asked.tasks.timeout n.settings.answerTimeout).2) rfl
      simp only [Node.exchange, found]
      exact awaited.feeds_aside (feeds_sendTo awaited.nodup id _ true)
        (incidental_sendTo _ id _ true).ballot

theorem Attached.flush (h : Attached peer n) (id : LinkId) : Attached peer (n.flush id) := by
  refine flush_keeps (fun l there q host => ?_) (fun _ id h => h.close id)
    (fun _ _ h => h.alike ⟨rfl, rfl, rfl, rfl⟩) h id
  have hosted : Attached peer { n with host } := h.alike ⟨rfl, rfl, rfl, rfl⟩
  exact hosted.putLink there rfl (fun _ => rfl) (h.remotes l there) (h.candid l there)

theorem Attached.perform {p : Program σ α} (spares : p.SparesAnnouncers)
    (respects : p.Respects (Attached peer)) (named : ∀ id, peer id ≠ 0) (h : Attached peer n)
    (a : Action α) : Attached peer (n.perform p a) := by
  cases a with
  | exchange id => exact h.exchange id
  | timeout id => exact h.close id
  | read id =>
      have read := h.readFrames spares respects named id (n.readLimit id)
      exact read.feeds_aside (feeds_restReading (P := fun _ _ => True) _ id)
        (incidental_restReading _ id).ballot
  | send id => exact h.flush id
  | setClock id =>
      exact h.feeds_aside (feeds_startClockSync h.nodup id) (n.incidental_startClockSync id).ballot
  | announce => exact h.feeds_aside (feeds_announce h.nodup) n.incidental_announce.ballot
  | tell e => exact respects.tell (fun _ _ h => h.alike ⟨rfl, rfl, rfl, rfl⟩) e h
  | application a => exact respects.task a n h

theorem Attached.execute {p : Program σ α} (spares : p.SparesAnnouncers)
    (respects : p.Respects (Attached peer)) (named : ∀ id, peer id ≠ 0) (h : Attached peer n)
    (now : Nat) : Attached peer (n.execute p now).2 :=
  Agenda.turns_keeps (fun _ _ h => h.alike ⟨rfl, rfl, rfl, rfl⟩)
    (fun x _ h => h.perform spares respects named x.1) (h.alike ⟨rfl, rfl, rfl, rfl⟩)

/-! ## What may be asked -/

theorem Attached.arrive (h : Attached peer n) (id : LinkId) (chunk : Bytes)
    (candid : (n.arrive id chunk).Candid peer) : Attached peer (n.arrive id chunk) := by
  cases found : n.link? id with
  | none =>
      simp only [Node.arrive, found]
      exact h
  | some l =>
      cases taken : l.receive chunk n.time with
      | mk result l' =>
          cases result with
          | error e =>
              simp only [Node.arrive, found, taken]
              exact h.close id
          | ok count =>
              have there := mem_links_of_link? found
              have steady := Link.steady_of_receive (P := fun _ _ => True) taken
              simp only [Node.arrive, found, taken] at candid ⊢
              have waits : (n.putLink l').Candid peer := by
                split at candid <;> exact candid
              have put := h.putLink there steady.id (fun _ => steady.remote)
                (steady.remote.symm ▸ h.remotes l there)
                (steady.id ▸ waits l' (mem_putLink there steady.id))
              split
              · exact put
              · exact put.alike ⟨rfl, rfl, rfl, rfl⟩

omit [Host σ] in
theorem Attached.joinElection (h : Attached peer n) (own : UInt16) :
    Attached peer (n.joinElection own) := by
  simp only [Node.joinElection]
  split
  · exact h
  · refine ⟨h.nodup, h.fresh, h.candid, h.remotes, fun b there => .inl ?_⟩
    cases there
    rfl

theorem Attached.stop (h : Attached peer n) : Attached peer n.stop := by
  have closed : ∀ (ids : List LinkId) {n : Node σ α}, Attached peer n →
      Attached peer (ids.foldl (fun n id => (n.close id).2) n) := by
    intro ids
    induction ids with
    | nil => exact fun h => h
    | cons id ids ih => exact fun h => ih (h.close id)
  refine (closed n.linkIds h).alike ⟨rfl, rfl, rfl, ?_⟩
  simp only [Node.stop, ballot, Option.map_map]
  rfl

/-- Everything but a pass that may be asked of a node keeps it attached, if what comes to wait on a link
comes under the id that all comes under there. -/
theorem Attached.input (h : Attached peer n) {i : Input α} (rests : ∀ now, i ≠ .execute now)
    (arrives : ∀ id chunk, i = .arrive id chunk → (n.arrive id chunk).Candid peer)
    {p : Program σ α} : Attached peer (n.obey p i) := by
  cases i with
  | addLink station => exact h.addLink station
  | arrive id chunk => exact h.arrive id chunk (arrives id chunk rfl)
  | disconnect id => exact h.close id
  | close id => exact h.close id
  | send s => exact h.feeds_aside (feeds_send h.nodup s) (n.incidental_send s).ballot
  | execute now => exact absurd rfl (rests now)
  | stop => exact h.stop
  | onPacket | onEvent | addTask => exact h.alike ⟨rfl, rfl, rfl, rfl⟩
  | joinElection own => exact h.joinElection own

/-- All trees and announcements that an input brings come in under the id that all come under on their
link. -/
def KeepsCandid (peer : LinkId → UInt32) (n : Node σ α) (i : Input α) : Prop :=
  ∀ id chunk, i = .arrive id chunk → n.Candid peer → (n.arrive id chunk).Candid peer

end Node

/-- A program that does to its node what may be asked of it, and anything elsewhere than in its links
and the election, but has nothing come in under another id than all that comes in on a link, and closes
no link on which an announcement came in while it is handled. -/
def Application.Program.SparesSources {σ α : Type} [Host σ] (peer : LinkId → UInt32)
    (p : Program σ α) : Prop :=
  p.Calls Node.Alike (Node.KeepsCandid peer) Program.SparesAnnouncers

namespace Node

variable {σ α : Type} [Host σ] {p : Program σ α} {peer : LinkId → UInt32} {n m : Node σ α}

theorem Attached.respects (spares : p.SparesSources peer) (named : ∀ id, peer id ≠ 0) :
    p.Respects (Attached peer) :=
  spares.respects fun called h => called.keeps (fun alike h => h.alike alike)
    (fun _ _ rests keeps h => h.input rests fun id chunk arrives => keeps id chunk arrives h.candid)
    (fun _ _ now announcers respects h => h.execute announcers respects named now) h

/-! ## Histories -/

/-- An input keeps a node attached as long as what waits after it is candid. -/
theorem Attached.obey (spares : p.SparesSources peer) (named : ∀ id, peer id ≠ 0)
    (h : Attached peer n) (i : Input α) (candid : (n.obey p i).Candid peer) :
    Attached peer (n.obey p i) := by
  cases i with
  | execute now => exact h.execute spares.fits (Attached.respects spares named) named now
  | arrive id chunk => exact h.arrive id chunk candid
  | addLink | disconnect | close | send | stop | onPacket | onEvent | addTask | joinElection =>
      exact h.input (by simp) (by simp)

/-- A history in which everything comes in under the id that all comes under on its link keeps a node
attached. -/
theorem Attached.live (spares : p.SparesSources peer) (named : ∀ id, peer id ≠ 0)
    (h : Attached peer n) (events : List (σ × Input α))
    (candid : ∀ past, past <+: events → (n.live p past).Candid peer) :
    Attached peer (n.live p events) := by
  induction events using List.reverseRecOn with
  | nil => exact h
  | append_singleton events e ih =>
      have before := ih fun past within => candid past (within.trans (List.prefix_append _ _))
      have hosted : Attached peer { n.live p events with host := e.1 } :=
        before.alike ⟨rfl, rfl, rfl, rfl⟩
      have after := candid _ (List.prefix_refl _)
      rw [live_append] at after ⊢
      exact hosted.obey spares named e.2 after

/-- In every history in which all trees and announcements on a link come under one id that is not 0,
whatever else comes in and whatever an application does meanwhile, the source of the mesh id is the
node itself or the neighbour of an open link.  When any link to that neighbour goes down, the node
returns to its own id. -/
theorem source_is_neighbour (spares : p.SparesSources peer) (named : ∀ id, peer id ≠ 0)
    (new : n.links = []) (none : n.candidacy = none) (events : List (σ × Input α))
    (candid : ∀ past, past <+: events → (n.live p past).Candid peer) :
    let m := n.live p events
    ∀ b, m.ballot = some b →
      (b.1.source = m.id ∨ b.1.source ≠ 0 ∧ ∃ l ∈ m.links, l.remote = b.1.source) ∧
      ∀ l ∈ m.links, l.remote ≠ 0 → l.remote = b.1.source →
        (m.close l.id).2.ballot.map Prod.fst = some (b.1.revert m.id) := by
  intro m b there
  have h : Attached peer m := (Attached.of_new new none).live spares named events candid
  refine ⟨h.source b there, fun l hl known same => ?_⟩
  rw [ballot_close (link?_of_mem h.nodup hl), there, Option.map_some, Election.lose, if_neg]
  simpa [known] using same

/-- The node 2 announces its mesh id, and the application opens and closes links meanwhile. -/
def canvass : List (Outlets Unit × Input Unit) :=
  ([.joinElection 7] ++ comingsAndGoings.map Prod.snd ++ [
    .arrive ⟨1⟩ [18, 0, 0, 0, 1, 0, 0, 0, 0, 0, 0, 0, 5, 0, 2, 0, 0, 0, 9, 0, 0, 0],
    .execute 7] : List (Input Unit)).map fun i => ({ application := () }, i)

/-- The source is the node 2, which is the neighbour of the first link.  The second has come and gone.
-/
theorem source_is_neighbour_canvass :
    restless.SparesSources (fun _ => 2) ∧ newcomer.links = [] ∧ newcomer.candidacy = none ∧
      (∀ past, past <+: canvass → (newcomer.live restless past).Candid fun _ => 2) ∧
      (newcomer.live restless canvass).ballot = some (⟨7, 5, 2, 9, 1⟩, ⟨1⟩) ∧
      (newcomer.live restless canvass).links.map (fun l => (l.id, l.remote)) = [(⟨1⟩, 2)] ∧
      (newcomer.live restless canvass).nextLink = 3 ∧
      ((newcomer.live restless canvass).close ⟨1⟩).2.ballot.map Prod.fst =
        some ⟨7, 7, 1, 1, 1⟩ := by
  have spares : restless.SparesSources fun _ => 2 := by
    refine ⟨fun _ _ _ _ _ _ opened => opened, fun _ n => .input n (i := .addLink true) (by simp) (by
      simp [KeepsCandid]), fun _ _ _ _ n => .aside ⟨rfl, rfl, rfl, rfl⟩, fun _ e n => ?_⟩
    cases e with
    | opened id => exact .input n (i := .close id) (by simp) (by simp [KeepsCandid])
    | connected | dropped | changed | adjusted | measured | meshId | received =>
        exact .aside ⟨rfl, rfl, rfl, rfl⟩
  have candid : ∀ past, past <+: canvass →
      (newcomer.live restless past).Candid fun _ => 2 := by
    have each : ∀ past ∈ canvass.inits, (newcomer.live restless past).Candid fun _ => 2 := by
      decide +kernel
    exact fun past within => each past ((List.mem_inits _ _).mpr within)
  have ballot : (newcomer.live restless canvass).ballot = some (⟨7, 5, 2, 9, 1⟩, ⟨1⟩) := by
    decide +kernel
  have source := source_is_neighbour (n := newcomer) spares (fun _ => by decide) rfl rfl canvass candid
    _ ballot
  obtain ⟨l, hl, id, remote⟩ :
      ∃ l ∈ (newcomer.live restless canvass).links, l.id = ⟨1⟩ ∧ l.remote = 2 := by
    decide +kernel
  have own : (newcomer.live restless canvass).id = 1 := by decide +kernel
  have closed := source.2 l hl (by rw [remote]; decide) remote
  rw [id, own] at closed
  exact ⟨spares, rfl, rfl, candid, ballot, by decide +kernel, by decide +kernel, closed⟩

/-- The neighbour 2 sends its tree and then an announcement under the id 9.  Later its link goes
down. -/
def forgery : List (Outlets Unit × Input Empty) :=
  ([.joinElection 7, .addLink true,
    .arrive ⟨1⟩ [19, 0, 0, 0, 6, 0, 0, 0, 1, 0, 0, 0, 2, 0, 0, 0, 2, 0, 0, 0, 0, 0, 0],
    .arrive ⟨1⟩ [18, 0, 0, 0, 1, 0, 0, 0, 0, 0, 0, 0, 5, 0, 9, 0, 0, 0, 9, 0, 0, 0],
    .execute 0, .disconnect ⟨1⟩, .execute 1] : List (Input Empty)).map
      fun i => ({ application := () }, i)

/-- The source of the mesh id is a node that is no neighbour, and it stays when the last link is
gone. -/
theorem foreign_source_stays :
    [5, 7].map (fun k =>
      let m := receiver.live (.idle (Outlets Unit) Empty) (forgery.take k)
      (m.id, m.links.map Link.remote, m.ballot.map Prod.fst)) =
      [(1, [2], some ⟨7, 5, 9, 9, 1⟩), (1, [], some ⟨7, 5, 9, 9, 1⟩)] := by
  decide +kernel

end Node

end SpanningMesh
