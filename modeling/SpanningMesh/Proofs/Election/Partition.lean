import SpanningMesh.Proofs.Election.Poll

/-!
# Elections after links went down

A node whose source is cut off returns to its own id, but announcements of the old one may
still be on their way to it.  If it takes one over from a neighbour that had the id from
the node itself, the two are each other's source, and together they go on to hold what no
node in their part of the mesh has on its own.  All last announcements are current then,
and nothing changes any more (`Poll.ghost_row`).

What does hold is told by the sources.  If all last announcements are current and the
sources of a node lead back to one that is its own source, then both are joined, and the
node holds what the other has on its own.  So a part of the mesh agrees on one of its
nodes if the sources in it do not only run in circles and if none of its nodes disregards
a lighter announcement (`Poll.standing_of_source`).

The invariant behind it is `Backed`: a node is its own source and holds its own standing,
or it has the standing that its source announced last, over a link that is up.  It needs
that no two nodes back different ids with the same weight, since an announcement with the
weight that is held already is not looked at any further.
-/

namespace SpanningMesh

open Relation (ReflTransGen)

/-- A node that loses a peer goes back to its own standing if the peer was its source. -/
theorem Election.lose_cases {e : Election} {node peer : UInt32} (hp : peer ≠ 0) :
    (e.lose node peer = e ∧ e.source ≠ peer) ∨ e.lose node peer = e.revert node := by
  simp only [lose]
  split
  next other => exact .inl ⟨rfl, fun same => (other.resolve_left hp) same.symm⟩
  next => exact .inr rfl

/-! ## Who can be told apart -/

/-- The nodes have different ids, none of them 0, and no node but a root has the id that is the
weight of the root. -/
structure Elector.Distinct {ι : Type} (electors : ι → Elector) : Prop where
  ids_ne : ∀ i, (electors i).id ≠ 0
  ids_inj : Function.Injective fun i => (electors i).id
  root : ∀ i, (electors i).id = rootWeight → (electors i).root = true

/-- The same weight backs the same id. -/
theorem Elector.Distinct.own_eq {ι : Type} {electors : ι → Elector}
    (distinct : Elector.Distinct electors) {i j : ι}
    (h : (electors i).own.weight = (electors j).own.weight) :
    (electors i).own = (electors j).own := by
  have ri := distinct.root i
  have rj := distinct.root j
  have inj := @distinct.ids_inj i j
  simp only [own, start, Election.start, Election.standing] at h ⊢
  cases hi : (electors i).root <;> cases hj : (electors j).root <;>
    simp only [hi, hj, if_true, if_false, Bool.false_eq_true] at h ri rj ⊢
  · rw [inj h]
  · exact (ri h).elim
  · exact (rj h.symm).elim

namespace Poll

variable {ι : Type} {electors : ι → Elector} {p : Poll ι} {i j k l : ι} {a : Announcement}
  {rest : List Announcement}

/-! ## Sources -/

/-- A node has what it holds from another. -/
def TakesFrom (electors : ι → Elector) (p : Poll ι) (j i : ι) : Prop :=
  (p.elections j).source = (electors i).id

/-- A node holds what its source announced last. -/
def Heeds (electors : ι → Elector) (p : Poll ι) (j i : ι) : Prop :=
  p.graph.Adj i j ∧ TakesFrom electors p j i ∧
    (p.heard (i, j)).map Announcement.standing = some (p.elections j).standing

/-- Each node holds what it has on its own or what its source announced last. -/
structure Backed (electors : ι → Elector) (p : Poll ι) : Prop where
  honest : Honest electors p
  held : ∀ i, ∃ k, (p.elections i).standing = (electors k).own
  sent : ∀ c, ∀ a ∈ p.transit c, ∃ k, a.standing = (electors k).own
  backed : ∀ j, (TakesFrom electors p j j ∧ (p.elections j).standing = (electors j).own) ∨
    ∃ i, Heeds electors p j i

theorem backed_begin (electors : ι → Elector) (links : List (Sym2 ι)) :
    Backed electors (begin electors links) where
  honest := honest_begin electors links
  held := fun i => ⟨i, rfl⟩
  sent := by simp [begin]
  backed := fun _ => .inl ⟨rfl, rfl⟩

/-! ## What current announcements say -/

/-- A node that is its own source holds its own standing. -/
theorem Backed.standing_of_own (h : Backed electors p) (distinct : Elector.Distinct electors)
    (own : TakesFrom electors p i i) : (p.elections i).standing = (electors i).own := by
  rcases h.backed i with ⟨-, same⟩ | ⟨k, adj, takes, -⟩
  · exact same
  · exact absurd (distinct.ids_inj (takes.symm.trans own)) adj.ne

/-- If the last announcements are current, a node holds what its source holds, and the two are
linked. -/
theorem Backed.standing_of_takesFrom (h : Backed electors p)
    (distinct : Elector.Distinct electors) (current : p.Current)
    (takes : TakesFrom electors p i j) :
    p.graph.Reachable i j ∧ (p.elections i).standing = (p.elections j).standing := by
  rcases h.backed i with ⟨own, -⟩ | ⟨k, adj, source, last⟩
  · obtain rfl := distinct.ids_inj (own.symm.trans takes)
    exact ⟨.refl i, rfl⟩
  · obtain rfl := distinct.ids_inj (source.symm.trans takes)
    exact ⟨adj.symm.reachable, Option.some.inj (last.symm.trans (current k i adj))⟩

/-- Along a chain of sources all hold the same standing, and the chain is a path in the graph. -/
theorem Backed.standing_of_chain (h : Backed electors p) (distinct : Elector.Distinct electors)
    (current : p.Current) (chain : ReflTransGen (TakesFrom electors p) i j) :
    p.graph.Reachable i j ∧ (p.elections i).standing = (p.elections j).standing := by
  induction chain with
  | refl => exact ⟨.refl i, rfl⟩
  | tail _ takes ih =>
      obtain ⟨joined, same⟩ := h.standing_of_takesFrom distinct current takes
      exact ⟨ih.1.trans joined, ih.2.trans same⟩

/-- Where no node holds less weight than a neighbour, all nodes that are joined hold the same. -/
theorem Backed.standing_of_reachable (h : Backed electors p)
    (distinct : Elector.Distinct electors)
    (level : ∀ j k, p.graph.Reachable i j → p.graph.Adj j k →
      (p.elections k).weight ≤ (p.elections j).weight)
    (joined : p.graph.Reachable i j) :
    (p.elections j).standing = (p.elections i).standing := by
  obtain ⟨walk⟩ := joined
  induction walk with
  | nil => rfl
  | @cons a b c adj walk ih =>
      have weight : (p.elections b).weight = (p.elections a).weight :=
        UInt32.le_antisymm (level a b (.refl a) adj) (level b a adj.reachable adj.symm)
      obtain ⟨m, hm⟩ := h.held a
      obtain ⟨n, hn⟩ := h.held b
      have own : (electors n).own = (electors m).own := by
        apply distinct.own_eq
        rw [← hm, ← hn]
        exact weight
      have near : (p.elections b).standing = (p.elections a).standing := by rw [hm, hn, own]
      have rest := ih fun j k joined => level j k (adj.reachable.trans joined)
      exact rest.trans near

/-! ## What the moves keep -/

variable [DecidableEq ι]

/-- An announcement comes from a node that is backed. -/
theorem Backed.announce (h : Backed electors p) (i : ι) :
    Backed electors (p.announce electors i) := by
  refine ⟨h.honest.announce i, h.held, fun c a ha => ?_, h.backed⟩
  rcases mem_transit_announce ha with old | ⟨-, -, rfl⟩
  · exact h.sent c a old
  · exact h.held i

/-- What a node holds that an announcement did not reach stays backed. -/
theorem heeds_receive_ne (h : Heeds electors p k l) (hk : k ≠ j) :
    Heeds electors (p.receive electors i j a rest) k l := by
  have other : (l, k) ≠ (i, j) := fun same => hk (Prod.mk.inj same).2
  rw [Heeds, TakesFrom, elections_receive_ne hk, heard_receive_ne other]
  exact h

/-- A node that is not moved by an announcement holds what its source announced last. -/
theorem Backed.heeds_receive_same (h : Backed electors p) (distinct : Elector.Distinct electors)
    (hd : p.transit (i, j) = a :: rest)
    (same : ((p.elections j).apply (electors j).id a).2 = p.elections j)
    (source : a.sender = (p.elections j).source → a.weight = (p.elections j).weight)
    (heeds : Heeds electors p j l) : Heeds electors (p.receive electors i j a rest) j l := by
  obtain ⟨adj, takes, last⟩ := heeds
  have first : a ∈ p.transit (i, j) := hd ▸ List.mem_cons_self
  rw [Heeds, TakesFrom, elections_receive_self, same]
  refine ⟨adj, takes, ?_⟩
  by_cases hl : l = i
  · subst hl
    -- The source announced the same weight again, and the weight tells the id.
    have sender := (h.honest.sent l j a first).1
    have weight := source (sender.trans takes.symm)
    obtain ⟨k, sent⟩ := h.sent _ a first
    obtain ⟨k', held⟩ := h.held j
    have own : (electors k).own = (electors k').own := by
      apply distinct.own_eq
      rw [← sent, ← held]
      exact weight
    rw [heard_receive_self, Option.map_some, sent, own, held]
  · rw [heard_receive_ne fun eq => hl (Prod.mk.inj eq).1]
    exact last

/-- A node is backed by the neighbour that told it. -/
theorem Backed.receive (h : Backed electors p) (distinct : Elector.Distinct electors)
    (hd : p.transit (i, j) = a :: rest) : Backed electors (p.receive electors i j a rest) := by
  have first : a ∈ p.transit (i, j) := hd ▸ List.mem_cons_self
  obtain ⟨sender, adj⟩ := h.honest.sent i j a first
  have own := h.honest.own j
  have response := Election.response_apply (p.elections j) (electors j).id a
  generalize he : ((p.elections j).apply (electors j).id a).2 = e at response
  have at_j : (p.receive electors i j a rest).elections j = e := he ▸ elections_receive_self
  have adopted : e = (p.elections j).adopt a →
      Heeds electors (p.receive electors i j a rest) j i := by
    intro eq
    rw [Heeds, TakesFrom, at_j, eq, heard_receive_self]
    exact ⟨adj, sender, rfl⟩
  refine ⟨h.honest.receive hd, fun k => ?_, fun c b hb => ?_, fun k => ?_⟩
  · by_cases hk : k = j
    · rw [hk, at_j]
      cases response with
      | same | ignore => exact h.held j
      | follow | rise => exact h.sent _ a first
      | fall => exact ⟨j, own⟩
    · rw [elections_receive_ne hk]
      exact h.held k
  · exact h.sent c b ((transit_receive electors hd c).subset hb)
  · by_cases hk : k = j
    · subst hk
      cases response with
      | follow | rise => exact .inr ⟨i, adopted rfl⟩
      | fall =>
          rw [TakesFrom, at_j]
          exact .inl ⟨rfl, own⟩
      | same weight =>
          rw [TakesFrom, at_j]
          exact (h.backed k).imp_right fun ⟨l, heeds⟩ =>
            ⟨l, h.heeds_receive_same distinct hd he (fun _ => weight) heeds⟩
      | ignore other =>
          rw [TakesFrom, at_j]
          exact (h.backed k).imp_right fun ⟨l, heeds⟩ =>
            ⟨l, h.heeds_receive_same distinct hd he (fun source => absurd source other) heeds⟩
    · rw [TakesFrom, elections_receive_ne hk]
      exact (h.backed k).imp_right fun ⟨l, heeds⟩ => ⟨l, heeds_receive_ne heeds hk⟩

/-- A node at an end of a link that goes down returns to its own id, unless its source is not at
the other end. -/
theorem elections_sever (distinct : Elector.Distinct electors) (p : Poll ι) (i j k : ι) :
    ((p.sever electors i j).elections k = p.elections k ∧
      ∀ l, TakesFrom electors p k l → s(l, k) ≠ s(i, j)) ∨
    (p.sever electors i j).elections k = (p.elections k).revert (electors k).id := by
  simp only [Poll.sever, TakesFrom]
  split
  next hk =>
    subst hk
    rcases Election.lose_cases (distinct.ids_ne j) with ⟨kept, ne⟩ | reverted
    · refine .inl ⟨kept, ?_⟩
      rintro l takes cut
      rcases Sym2.eq_iff.mp cut with ⟨rfl, rfl⟩ | ⟨rfl, -⟩
      · exact ne takes
      · exact ne takes
    · exact .inr reverted
  next hi =>
    split
    next hk =>
      subst hk
      rcases Election.lose_cases (distinct.ids_ne i) with ⟨kept, ne⟩ | reverted
      · refine .inl ⟨kept, ?_⟩
        rintro l takes cut
        rcases Sym2.eq_iff.mp cut with ⟨rfl, -⟩ | ⟨-, same⟩
        · exact ne takes
        · exact hi same
      · exact .inr reverted
    next hj =>
      refine .inl ⟨rfl, fun l _ cut => ?_⟩
      rcases Sym2.eq_iff.mp cut with ⟨-, same⟩ | ⟨-, same⟩
      · exact hj same
      · exact hi same

/-- Both ends of a link that is cut go back to themselves, if the other end was their source. -/
theorem Backed.sever (h : Backed electors p) (distinct : Elector.Distinct electors) (i j : ι) :
    Backed electors (p.sever electors i j) := by
  have honest := h.honest.sever i j
  refine ⟨honest, fun k => ?_, fun c a ha => ?_, fun k => ?_⟩
  · rcases elections_sever distinct p i j k with ⟨kept, -⟩ | reverted
    · exact kept ▸ h.held k
    · exact ⟨k, by rw [reverted, Election.standing_revert, h.honest.own]⟩
  · exact h.sent c a (mem_transit_sever ha).1
  · rcases elections_sever distinct p i j k with ⟨kept, uncut⟩ | reverted
    · rw [TakesFrom, kept]
      rcases h.backed k with own | ⟨l, adj, takes, last⟩
      · exact .inl own
      · refine .inr ⟨l, ?_⟩
        rw [Heeds, TakesFrom, kept]
        exact ⟨graph_sever_adj.mpr ⟨adj, uncut l takes⟩, takes, last⟩
    · rw [TakesFrom, reverted, Election.standing_revert, h.honest.own]
      exact .inl ⟨rfl, rfl⟩

theorem Backed.step (h : Backed electors p) (distinct : Elector.Distinct electors) (m : Move ι) :
    Backed electors (p.step electors m) := by
  cases m with
  | announce i => exact h.announce i
  | deliver i j =>
      simp only [Poll.step]
      rcases deliver_cases electors p i j with same | ⟨a, rest, hd, eq⟩
      · rwa [same]
      · rw [eq]
        exact h.receive distinct hd
  | lose i j n =>
      exact ⟨h.honest.step (.lose i j n), h.held,
        fun c a ha => h.sent c a ((transit_lose p i j n c).subset ha), h.backed⟩
  | drop i j =>
      simp only [Poll.step]
      split
      next => exact h.sever distinct i j
      next => exact h

/-- Every standing is backed, whatever moves are made. -/
theorem Backed.run (h : Backed electors p) (distinct : Elector.Distinct electors)
    (moves : List (Move ι)) : Backed electors (p.run electors moves) :=
  run_induction (fun _ m (_ : True) h => h.step distinct m) (fun _ _ => trivial) h

/-! ## What is left of the mesh -/

/-- In every reachable state a node holds what some node started with.  Once all last
announcements are current, a node whose sources lead back to one that is its own source is
joined with that node and holds what it has on its own.  If besides no node that is joined with
that one disregards more weight at a neighbour, all of them hold this. -/
theorem standing_of_source (distinct : Elector.Distinct electors) (links : List (Sym2 ι))
    (moves : List (Move ι)) :
    let p := (begin electors links).run electors moves
    (∀ i, ∃ k, (p.elections i).standing = (electors k).own) ∧
    (p.Current → ∀ r, TakesFrom electors p r r →
      (∀ i, ReflTransGen (TakesFrom electors p) i r →
        p.graph.Reachable i r ∧ (p.elections i).standing = (electors r).own) ∧
      ((∀ j k, p.graph.Reachable r j → p.graph.Adj j k →
          (p.elections k).weight ≤ (p.elections j).weight) →
        ∀ i, p.graph.Reachable r i → (p.elections i).standing = (electors r).own)) := by
  intro p
  have backed : Backed electors p := (backed_begin electors links).run distinct moves
  refine ⟨backed.held, fun current r own => ⟨fun i chain => ?_, fun level i joined => ?_⟩⟩
  · obtain ⟨joined, same⟩ := backed.standing_of_chain distinct current chain
    exact ⟨joined, same.trans (backed.standing_of_own distinct own)⟩
  · exact (backed.standing_of_reachable distinct level joined).trans
      (backed.standing_of_own distinct own)

theorem distinct_row : Elector.Distinct rowElectors :=
  ⟨by decide, rowElectors_injective, by decide⟩

/-- The root of three nodes in a row is cut off after all have its id.  The other two agree on
the heavier one of them. -/
theorem standing_of_source_row :
    let p := row.run rowElectors [.announce 0, .deliver 0 1, .announce 1, .deliver 1 2,
      .drop 0 1, .announce 1, .deliver 1 2, .announce 2, .deliver 2 1, .announce 1, .deliver 1 2]
    (∃ k, (p.elections 1).standing = (rowElectors k).own) ∧
      (p.graph.Reachable 1 2 ∧ (p.elections 1).standing = ⟨35, 3⟩) ∧
      ∀ i, p.graph.Reachable 2 i → (p.elections i).standing = ⟨35, 3⟩ := by
  intro p
  obtain ⟨held, current⟩ := standing_of_source distinct_row rowLinks
    [.announce 0, .deliver 0 1, .announce 1, .deliver 1 2, .drop 0 1, .announce 1, .deliver 1 2,
      .announce 2, .deliver 2 1, .announce 1, .deliver 1 2]
  have level : ∀ j k, p.graph.Adj j k → (p.elections k).weight ≤ (p.elections j).weight := by
    decide
  have takes : TakesFrom rowElectors p 1 2 := by
    unfold TakesFrom
    decide
  obtain ⟨chain, all⟩ := current (by decide) 2 (by unfold TakesFrom; decide)
  exact ⟨held 1, chain 1 (.single takes), all fun j k _ => level j k⟩

/-- The root of three nodes in a row is cut off while the id it had is still on its way back to
its neighbour.  All last announcements are current in the end, and the two nodes that are left
hold the id and weight of the root, which neither of them has on its own. -/
theorem ghost_row :
    let p := row.run rowElectors [.announce 0, .deliver 0 1, .announce 1, .deliver 1 2,
      .announce 2, .drop 0 1, .deliver 2 1, .announce 1, .deliver 1 2, .announce 2, .deliver 2 1]
    Elector.Distinct rowElectors ∧ p.Current ∧
      ¬ ∃ r, p.graph.Reachable 1 r ∧
        ∀ i, p.graph.Reachable 1 i → (p.elections i).standing = (rowElectors r).own := by
  intro p
  refine ⟨distinct_row, by decide, ?_⟩
  rintro ⟨r, joined, all⟩
  have root : ∀ r, (p.elections 1).standing = (rowElectors r).own → r = 0 := by decide
  obtain rfl := root r (all 1 (.refl 1))
  obtain ⟨walk⟩ := joined.symm
  cases walk with
  | @cons _ k _ adj _ =>
      have alone : ∀ k, ¬ p.graph.Adj 0 k := by decide
      exact alone k adj

end Poll

end SpanningMesh
