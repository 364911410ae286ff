import Mathlib.Combinatorics.SimpleGraph.Connectivity.Connected
import Mathlib.Data.Fin.VecNotation
import SpanningMesh.Node.Candidacy

/-!
# The election across a mesh

A `Poll` is the election as it runs across a whole mesh: what every node holds, the
links that are up, the announcements that travel over each link in either direction, and
the last announcement that each node received over each link.

A `Move` is one thing that can happen.  A node announces what it holds over all its
links.  The first announcement that travels over a link arrives and is applied.  An
announcement is lost on its way.  A link goes down, with all that travels over it, and a
node that had its id from the other end returns to its own.  Moves may come in any order,
and one that is not possible changes nothing.

What matters of an announcement or of what a node holds is its *standing*: the mesh id
and the weight behind it.

An announcement can do five things to the node that it reaches (`Election.Response`).
Later proofs go through these cases and do not open `Election.apply`.
-/

namespace SpanningMesh

/-- A mesh id and the weight behind it. -/
structure Standing where
  id : UInt16
  weight : UInt32
deriving Repr, DecidableEq

/-- The standing that an announcement offers. -/
def Announcement.standing (a : Announcement) : Standing := ⟨a.id, a.weight⟩

/-! ## The election of one node -/

namespace Election

variable {e : Election} {node : UInt32} {a : Announcement}

/-- What a node holds. -/
def standing (e : Election) : Standing := ⟨e.currentId, e.weight⟩

/-- What a node returns to. -/
def own (e : Election) : Standing := ⟨e.ownId, e.ownWeight⟩

/-- The peer of a link that went down is no source any more. -/
def lose (e : Election) (node peer : UInt32) : Election :=
  if peer = 0 ∨ peer ≠ e.source then e else e.revert node

@[simp] theorem standing_adopt : (e.adopt a).standing = a.standing := rfl
@[simp] theorem source_adopt : (e.adopt a).source = a.sender := rfl
@[simp] theorem own_adopt : (e.adopt a).own = e.own := rfl
@[simp] theorem standing_revert : (e.revert node).standing = e.own := rfl
@[simp] theorem source_revert : (e.revert node).source = node := rfl
@[simp] theorem own_revert : (e.revert node).own = e.own := rfl
@[simp] theorem standing_announce : (e.announce node).standing = e.standing := rfl

/-- What an announcement makes of what a node holds. -/
inductive Response (e : Election) (node : UInt32) (a : Announcement) : Election → Prop where
  | same : a.weight = e.weight → Response e node a e
  /-- The source changed, and the node goes with it. -/
  | follow : a.sender = e.source → a.weight ≠ e.weight → node < a.weight →
      Response e node a (e.adopt a)
  /-- The source changed, and the node is better off on its own. -/
  | fall : a.sender = e.source → a.weight ≠ e.weight → a.weight ≤ node →
      Response e node a (e.revert node)
  /-- Another neighbour has more weight than the source. -/
  | rise : a.sender ≠ e.source → e.weight < a.weight → Response e node a (e.adopt a)
  | ignore : a.sender ≠ e.source → a.weight < e.weight → Response e node a e

/-- An announcement has one of these effects on an election. -/
theorem response_apply (e : Election) (node : UInt32) (a : Announcement) :
    Response e node a (e.apply node a).2 := by
  unfold apply
  split
  next same => exact .same same
  next ne =>
    split
    next source =>
      split
      next more => exact .follow source ne more
      next less => exact .fall source ne (UInt32.not_lt.mp less)
    next other =>
      split
      next more => exact .rise other more
      next less => exact .ignore other (UInt32.lt_of_le_of_ne (UInt32.not_lt.mp less) ne)

/-- No announcement changes what a node stands for by itself. -/
theorem Response.own {e' : Election} (h : Response e node a e') : e'.own = e.own := by
  cases h with
  | same | follow | fall | rise | ignore => simp

@[simp] theorem own_apply : (e.apply node a).2.own = e.own := (response_apply e node a).own

@[simp] theorem own_lose (peer : UInt32) : (e.lose node peer).own = e.own := by
  simp only [lose]
  split
  · rfl
  · exact own_revert

end Election

/-! ## What a node of the program makes of it -/

namespace Node

variable {σ α : Type} {n : Node σ α} {c : Candidacy}

@[simp] theorem candidacy_hastenAnnouncement (n : Node σ α) :
    n.hastenAnnouncement.candidacy = n.candidacy := by
  simp only [hastenAnnouncement]
  split <;> rfl

/-- The election of a node is the one that was set. -/
theorem election_setElection (n : Node σ α) (c : Candidacy) (e : Election) :
    (n.setElection c e).candidacy.map Candidacy.election = some e := by
  simp only [setElection, candidacy_hastenAnnouncement]
  split <;> rfl

/-- A node applies the announcements that it hears. -/
theorem election_hearAnnouncement (hc : n.candidacy = some c) (a : Announcement) :
    (n.hearAnnouncement a).candidacy.map Candidacy.election =
      some (c.election.apply n.id a).2 := by
  simp only [hearAnnouncement, hc]
  split
  next e same =>
    have kept : e = c.election := by
      simp only [Election.apply] at same
      grind
    rw [hc, same, kept]
    rfl
  next outcome e _ result => rw [election_setElection, result]

/-- A node that loses a peer returns to its own id if that was its source. -/
theorem election_losePeer (hc : n.candidacy = some c) (peer : UInt32) :
    (n.losePeer peer).candidacy.map Candidacy.election = some (c.election.lose n.id peer) := by
  simp only [losePeer, hc, Election.lose]
  split
  next => rw [hc]; rfl
  next => rw [election_setElection]

end Node

/-! ## The election of many nodes -/

/-- A node that can be elected. -/
structure Elector where
  id : UInt32
  root : Bool
  /-- The mesh id it would have on its own, if it is not the root. -/
  ownId : UInt16
deriving Repr

namespace Elector

/-- The state in which an elector starts. -/
def start (v : Elector) : Election := .start v.id v.root v.ownId

/-- What the node holds on its own. -/
def own (v : Elector) : Standing := v.start.standing

@[simp] theorem standing_start (v : Elector) : v.start.standing = v.own := rfl

/-- Only the root has another weight than its node id, and none has more. -/
theorem id_le_weight (v : Elector) : v.id ≤ v.own.weight := by
  simp only [own, start, Election.start, Election.standing]
  split
  · exact UInt32.le_iff_toNat_le.mpr (Nat.le_of_lt_succ v.id.toNat_lt)
  · exact UInt32.le_refl _

end Elector

/-- The election across a mesh.  Announcements from one node to another are under the pair
of the two. -/
structure Poll (ι : Type) where
  elections : ι → Election
  links : List (Sym2 ι)
  /-- What travels, oldest first. -/
  transit : ι × ι → List Announcement := fun _ => []
  /-- What was received last. -/
  heard : ι × ι → Option Announcement := fun _ => none

namespace Poll

variable {ι : Type}

/-- The links that are up, as a graph. -/
def graph (p : Poll ι) : SimpleGraph ι := .fromEdgeSet {e | e ∈ p.links}

theorem graph_adj {p : Poll ι} {i j : ι} : p.graph.Adj i j ↔ s(i, j) ∈ p.links ∧ i ≠ j :=
  SimpleGraph.fromEdgeSet_adj _

instance [DecidableEq ι] (p : Poll ι) : DecidableRel p.graph.Adj :=
  fun _ _ => decidable_of_iff _ graph_adj.symm

/-- Every node holds its own id. -/
def begin (electors : ι → Elector) (links : List (Sym2 ι)) : Poll ι :=
  { elections := fun i => (electors i).start, links }

/-- The last announcement over each link that is up says what its sender holds. -/
def Current (p : Poll ι) : Prop :=
  ∀ i j, p.graph.Adj i j →
    (p.heard (i, j)).map Announcement.standing = some (p.elections i).standing

instance [Fintype ι] [DecidableEq ι] (p : Poll ι) : Decidable p.Current :=
  inferInstanceAs (Decidable (∀ i j, p.graph.Adj i j →
    (p.heard (i, j)).map Announcement.standing = some (p.elections i).standing))

/-! ## Moves -/

/-- Something that can happen in an election. -/
inductive Move (ι : Type) where
  /-- A node announces what it holds to all its neighbours. -/
  | announce (i : ι)
  /-- The first announcement from one node to another arrives. -/
  | deliver (i j : ι)
  /-- An announcement from one node to another is lost. -/
  | lose (i j : ι) (place : Nat)
  /-- The link between two nodes goes down. -/
  | drop (i j : ι)

/-- Whether a link goes down. -/
def Move.Drops : Move ι → Prop
  | .drop _ _ => True
  | _ => False

instance (m : Move ι) : Decidable m.Drops := by
  unfold Move.Drops
  split <;> infer_instance

variable [DecidableEq ι] (electors : ι → Elector)

/-- A node announces what it holds to all its neighbours. -/
def announce (p : Poll ι) (i : ι) : Poll ι :=
  { p with transit := fun c =>
      if c.1 = i ∧ p.graph.Adj i c.2 then
        p.transit c ++ [(p.elections i).announce (electors i).id]
      else p.transit c }

/-- Apply an announcement that arrives, the first of those that travel. -/
def receive (p : Poll ι) (i j : ι) (a : Announcement) (rest : List Announcement) : Poll ι :=
  { p with
    elections := Function.update p.elections j ((p.elections j).apply (electors j).id a).2
    transit := Function.update p.transit (i, j) rest
    heard := Function.update p.heard (i, j) (some a) }

/-- Let a node hear the oldest announcement of a neighbour. -/
def deliver (p : Poll ι) (i j : ι) : Poll ι :=
  match p.transit (i, j) with
  | [] => p
  | a :: rest => p.receive electors i j a rest

/-- An announcement is lost on its way. -/
def lose (p : Poll ι) (i j : ι) (place : Nat) : Poll ι :=
  { p with transit := Function.update p.transit (i, j) ((p.transit (i, j)).eraseIdx place) }

/-- Take down the link between two nodes. -/
def sever (p : Poll ι) (i j : ι) : Poll ι :=
  { p with
    elections := fun k =>
      if k = i then (p.elections i).lose (electors i).id (electors j).id
      else if k = j then (p.elections j).lose (electors j).id (electors i).id
      else p.elections k
    links := p.links.filter (· ≠ s(i, j))
    transit := fun c => if s(c.1, c.2) = s(i, j) then [] else p.transit c }

/-- Make a move. -/
def step (p : Poll ι) : Move ι → Poll ι
  | .announce i => p.announce electors i
  | .deliver i j => p.deliver electors i j
  | .lose i j place => p.lose i j place
  | .drop i j => if p.graph.Adj i j then p.sever electors i j else p

/-- Make several moves. -/
def run (p : Poll ι) (moves : List (Move ι)) : Poll ι := moves.foldl (step electors) p

variable {electors} {p : Poll ι} {i j k l : ι} {a : Announcement} {rest : List Announcement}

/-- What the moves of some kind keep, a run of such moves keeps. -/
theorem run_induction {P : Poll ι → Prop} {ok : Move ι → Prop}
    (keeps : ∀ p m, ok m → P p → P (p.step electors m)) {moves : List (Move ι)}
    (hm : ∀ m ∈ moves, ok m) (h : P p) : P (p.run electors moves) := by
  induction moves generalizing p with
  | nil => exact h
  | cons m moves ih =>
      simp only [List.forall_mem_cons] at hm
      exact ih hm.2 (keeps p m hm.1 h)

/-! ### What the moves do -/

/-- Where nothing travels, nothing is delivered. -/
theorem deliver_cases (electors : ι → Elector) (p : Poll ι) (i j : ι) :
    p.deliver electors i j = p ∨ ∃ a rest, p.transit (i, j) = a :: rest ∧
      p.deliver electors i j = p.receive electors i j a rest := by
  simp only [deliver]
  split
  next => exact .inl rfl
  next a rest h => exact .inr ⟨a, rest, h, rfl⟩

/-- An announcement travels on every link of its node, behind what travels there already. -/
theorem transit_announce (electors : ι → Elector) (p : Poll ι) (i : ι) (c : ι × ι) :
    (p.announce electors i).transit c = p.transit c ∨
      c.1 = i ∧ p.graph.Adj i c.2 ∧
        (p.announce electors i).transit c =
          p.transit c ++ [(p.elections i).announce (electors i).id] := by
  simp only [announce]
  split
  next h => exact .inr ⟨h.1, h.2, rfl⟩
  next => exact .inl rfl

/-- What travels after an announcement travelled before, or is the announcement. -/
theorem mem_transit_announce {c : ι × ι} (h : a ∈ (p.announce electors i).transit c) :
    a ∈ p.transit c ∨
      c.1 = i ∧ p.graph.Adj i c.2 ∧ a = (p.elections i).announce (electors i).id := by
  rcases transit_announce electors p i c with same | ⟨from_i, adj, more⟩
  · exact .inl (same ▸ h)
  · rw [more, List.mem_append, List.mem_singleton] at h
    exact h.imp_right fun new => ⟨from_i, adj, new⟩

/-- Losing announcements leaves the others in their order. -/
theorem transit_lose (p : Poll ι) (i j : ι) (n : Nat) (c : ι × ι) :
    ((p.lose i j n).transit c).Sublist (p.transit c) := by
  simp only [lose, Function.update_apply]
  split
  next h => exact h ▸ List.eraseIdx_sublist _ _
  next => exact .refl _

@[simp] theorem graph_receive : (p.receive electors i j a rest).graph = p.graph := rfl

theorem elections_receive_self : (p.receive electors i j a rest).elections j =
    ((p.elections j).apply (electors j).id a).2 :=
  Function.update_self ..

theorem elections_receive_ne (h : k ≠ j) :
    (p.receive electors i j a rest).elections k = p.elections k :=
  Function.update_of_ne h ..

theorem heard_receive_self : (p.receive electors i j a rest).heard (i, j) = some a :=
  Function.update_self ..

theorem heard_receive_ne {c : ι × ι} (h : c ≠ (i, j)) :
    (p.receive electors i j a rest).heard c = p.heard c :=
  Function.update_of_ne h ..

/-- What is left on the way travelled before. -/
theorem transit_receive (electors : ι → Elector) (h : p.transit (i, j) = a :: rest) (c : ι × ι) :
    ((p.receive electors i j a rest).transit c).Sublist (p.transit c) := by
  simp only [receive, Function.update_apply]
  split
  next hc => exact hc ▸ h ▸ List.sublist_cons_self _ _
  next => exact .refl _

/-- A link that is cut joins no one, and the other links stay. -/
theorem graph_sever_adj : (p.sever electors i j).graph.Adj k l ↔
    p.graph.Adj k l ∧ s(k, l) ≠ s(i, j) := by
  simp only [graph_adj, sever, List.mem_filter, decide_eq_true_eq]
  tauto

/-- What travels after a link went down travelled before, over another link. -/
theorem mem_transit_sever {c : ι × ι} (h : a ∈ (p.sever electors i j).transit c) :
    a ∈ p.transit c ∧ s(c.1, c.2) ≠ s(i, j) := by
  simp only [sever] at h
  split at h
  next => cases h
  next other => exact ⟨h, other⟩

/-- Links stay up unless they are dropped. -/
theorem graph_step {m : Move ι} (hm : ¬ m.Drops) : (p.step electors m).graph = p.graph := by
  cases m with
  | announce i => rfl
  | deliver i j =>
      simp only [step]
      rcases deliver_cases electors p i j with same | ⟨a, rest, -, eq⟩
      · rw [same]
      · rw [eq, graph_receive]
  | lose i j n => rfl
  | drop i j => exact absurd trivial hm

/-! ## Honest elections -/

/-- Every node can return to its own standing, and what travels over a link that is up is from
the node at its other end. -/
structure Honest (electors : ι → Elector) (p : Poll ι) : Prop where
  own : ∀ i, (p.elections i).own = (electors i).own
  sent : ∀ i j, ∀ a ∈ p.transit (i, j), a.sender = (electors i).id ∧ p.graph.Adj i j

omit [DecidableEq ι] in
/-- In the beginning every node stands for itself and nothing travels. -/
theorem honest_begin (electors : ι → Elector) (links : List (Sym2 ι)) :
    Honest electors (begin electors links) :=
  ⟨fun _ => rfl, fun _ _ a ha => by simp [begin] at ha⟩

theorem Honest.announce (h : Honest electors p) (i : ι) :
    Honest electors (p.announce electors i) := by
  refine ⟨h.own, fun k l a ha => ?_⟩
  rcases mem_transit_announce ha with old | ⟨rfl, adj, rfl⟩
  · exact h.sent k l a old
  · exact ⟨rfl, adj⟩

theorem Honest.receive (h : Honest electors p) (hd : p.transit (i, j) = a :: rest) :
    Honest electors (p.receive electors i j a rest) := by
  refine ⟨fun k => ?_, fun k l b hb => h.sent k l b ((transit_receive electors hd _).subset hb)⟩
  by_cases hk : k = j
  · subst hk
    rw [elections_receive_self, Election.own_apply, h.own]
  · rw [elections_receive_ne hk, h.own]

theorem Honest.sever (h : Honest electors p) (i j : ι) :
    Honest electors (p.sever electors i j) := by
  constructor
  · intro k
    simp only [Poll.sever]
    split
    next hk => rw [Election.own_lose, hk, h.own]
    next =>
      split
      next hk => rw [Election.own_lose, hk, h.own]
      next => exact h.own k
  · intro k l a ha
    obtain ⟨old, other⟩ := mem_transit_sever ha
    obtain ⟨sender, adj⟩ := h.sent k l a old
    exact ⟨sender, graph_sever_adj.mpr ⟨adj, other⟩⟩

/-- Announcements are honest whatever happens. -/
theorem Honest.step (h : Honest electors p) (m : Move ι) : Honest electors (p.step electors m) := by
  cases m with
  | announce i => exact h.announce i
  | deliver i j =>
      simp only [Poll.step]
      rcases deliver_cases electors p i j with same | ⟨a, rest, hd, eq⟩
      · rwa [same]
      · rw [eq]
        exact h.receive hd
  | lose i j n => exact ⟨h.own, fun k l a ha => h.sent k l a ((transit_lose p i j n _).subset ha)⟩
  | drop i j =>
      simp only [Poll.step]
      split
      next => exact h.sever i j
      next => exact h

/-! ## Three nodes in a row -/

/-- The designated root, and two other nodes. -/
def rowElectors : Fin 3 → Elector := ![⟨1, true, 17⟩, ⟨2, false, 8⟩, ⟨3, false, 35⟩]

/-- Each node is linked with the next one. -/
def rowLinks : List (Sym2 (Fin 3)) := List.ofFn fun k : Fin 2 => s(k.castSucc, k.succ)

/-- The three nodes of the row at the start. -/
def row : Poll (Fin 3) := begin rowElectors rowLinks

theorem rowElectors_injective : Function.Injective fun i => (rowElectors i).id := by
  decide

end Poll

end SpanningMesh
