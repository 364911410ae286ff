import SpanningMesh.Proofs.Election.Poll

/-!
# Agreement on the heaviest node

Where no link goes down and one node has more weight than all others, the election comes
to agree on it.  Its standing is the *best* one.  A node that holds it keeps it for good,
and as soon as every last announcement is current all nodes hold it (`Poll.agreement`).

A node goes along with its source even when that one gets lighter, so a node keeps the
best standing only if its source does not announce anything else any more.  `Led` says
that it does not: once an announcement with the best standing is on its way over a link,
all behind it have that standing too, and so does the node that sends them.  The sources
of the nodes that hold the best standing thus lead back to the heaviest node, which has
no other source than itself.
-/

namespace SpanningMesh

namespace Standing

/-- A standing has less weight than another one, or is that one. -/
def Below (s best : Standing) : Prop := s.weight < best.weight ∨ s = best

variable {s best : Standing}

/-- Only the best standing has its weight. -/
theorem Below.eq_of_weight (h : s.Below best) (hw : s.weight = best.weight) : s = best := by
  rcases h with lt | eq
  · exact absurd hw (UInt32.ne_of_lt lt)
  · exact eq

theorem Below.le (h : s.Below best) : s.weight ≤ best.weight := by
  rcases h with lt | rfl
  · exact UInt32.le_of_lt lt
  · exact UInt32.le_refl _

end Standing

/-! ## What one node hears -/

namespace Election

variable {e e' : Election} {node : UInt32} {a : Announcement} {best : Standing}

/-- The best standing is taken over from any neighbour that announces it. -/
theorem Response.standing_best (h : Response e node a e') (he : e.standing.Below best)
    (ha : a.standing = best) (hn : node < best.weight) : e'.standing = best := by
  have weight : a.weight = best.weight := congrArg Standing.weight ha
  cases h with
  | same same => exact he.eq_of_weight (same.symm.trans weight)
  | follow | rise => exact ha
  | fall _ _ less => exact absurd hn (UInt32.not_lt.mpr (weight ▸ less))
  | ignore _ less => exact absurd he.le (UInt32.not_le.mpr (weight ▸ less))

/-- A node comes to the best standing only through an announcement that has it. -/
theorem Response.source_of_best (h : Response e node a e') (hown : e.own ≠ best)
    (h' : e'.standing = best) :
    e' = e ∨ (a.standing = best ∧ e'.source = a.sender) := by
  cases h with
  | same | ignore => exact .inl rfl
  | follow | rise => exact .inr ⟨h', rfl⟩
  | fall => exact absurd h' hown

/-- No announcement lifts a node above the best standing. -/
theorem Response.below (h : Response e node a e') (he : e.standing.Below best)
    (ha : a.standing.Below best) (hown : e.own.Below best) : e'.standing.Below best := by
  cases h with
  | same | ignore => exact he
  | follow | rise => exact ha
  | fall => exact hown

/-- A node that holds the best standing gives it up only for what its source announces. -/
theorem Response.eq_of_best (h : Response e node a e') (he : e.standing = best)
    (ha : a.standing.Below best) (source : a.sender = e.source → a.standing = best) :
    e' = e := by
  have weight : e.weight = best.weight := congrArg Standing.weight he
  have heard : a.sender = e.source → a.weight = e.weight := fun h =>
    (congrArg Standing.weight (source h)).trans weight.symm
  cases h with
  | same | ignore => rfl
  | follow src ne | fall src ne => exact absurd (heard src) ne
  | rise _ more => exact absurd ha.le (UInt32.not_le.mpr (weight ▸ more))

end Election

/-! ## The lead of the heaviest node -/

namespace Poll

variable {ι : Type} {electors : ι → Elector} {p : Poll ι} {i j k l h : ι} {a : Announcement}
  {rest : List Announcement}

/-- One node has more weight than each of the others. -/
def Heaviest (electors : ι → Elector) (h : ι) : Prop :=
  ∀ i, i ≠ h → (electors i).own.weight < (electors h).own.weight

/-- Every node stands below the heaviest. -/
theorem Heaviest.below (heaviest : Heaviest electors h) (i : ι) :
    (electors i).own.Below (electors h).own := by
  by_cases hi : i = h
  · exact .inr (hi ▸ rfl)
  · exact .inl (heaviest i hi)

theorem Heaviest.own_ne (heaviest : Heaviest electors h) (hi : i ≠ h) :
    (electors i).own ≠ (electors h).own :=
  fun same => UInt32.ne_of_lt (heaviest i hi) (congrArg Standing.weight same)

/-- A node other than the heaviest is no match for it with its node id either. -/
theorem Heaviest.id_lt (heaviest : Heaviest electors h) (hi : i ≠ h) :
    (electors i).id < (electors h).own.weight :=
  UInt32.lt_of_le_of_lt (electors i).id_le_weight (heaviest i hi)

/-- A node holds the standing that the heaviest one has on its own. -/
def Holds (electors : ι → Elector) (h : ι) (p : Poll ι) (i : ι) : Prop :=
  (p.elections i).standing = (electors h).own

/-- How the standing of the heaviest node spreads. -/
structure Led (electors : ι → Elector) (h : ι) (p : Poll ι) : Prop where
  honest : Honest electors p
  leader : p.elections h = (electors h).start
  held : ∀ i, (p.elections i).standing.Below (electors h).own
  sent : ∀ c, ∀ a ∈ p.transit c, a.standing.Below (electors h).own
  /-- Behind an announcement with the best standing travel only such. -/
  order : ∀ c, (p.transit c).Pairwise fun a b =>
    a.standing = (electors h).own → b.standing = (electors h).own
  /-- Only a node that has the best standing sends it. -/
  ahead : ∀ c, ∀ a ∈ p.transit c, a.standing = (electors h).own → Holds electors h p c.1
  /-- The source of a node with the best standing has it, and sends nothing else. -/
  backed : ∀ j, j ≠ h → Holds electors h p j → ∃ i, (p.elections j).source = (electors i).id ∧
    Holds electors h p i ∧ ∀ a ∈ p.transit (i, j), a.standing = (electors h).own
  heard : ∀ i j a, p.heard (i, j) = some a → a.standing = (electors h).own → Holds electors h p j

/-- The heaviest node leads from the beginning, if only itself. -/
theorem led_begin (heaviest : Heaviest electors h) (links : List (Sym2 ι)) :
    Led electors h (begin electors links) where
  honest := honest_begin electors links
  leader := rfl
  held := heaviest.below
  sent := by simp [begin]
  order := by simp [begin]
  ahead := by simp [begin]
  backed := fun _ hj same => absurd same (heaviest.own_ne hj)
  heard := by simp [begin]

namespace Led

theorem holds_leader (led : Led electors h p) : Holds electors h p h := by
  rw [Holds, led.leader, Elector.standing_start]

/-- A node with the weight of the leader holds the standing of the leader. -/
theorem holds_of_weight (led : Led electors h p)
    (weight : (p.elections i).weight = (electors h).own.weight) : Holds electors h p i :=
  (led.held i).eq_of_weight weight

/-- If the last announcements are current, the best standing has passed along all links. -/
theorem holds_of_reachable (led : Led electors h p) (current : p.Current)
    (joined : p.graph.Reachable h i) : Holds electors h p i := by
  obtain ⟨walk⟩ := joined
  have along : ∀ {k l : ι} (_ : p.graph.Walk k l), Holds electors h p k → Holds electors h p l := by
    intro k l walk
    induction walk with
    | nil => exact id
    | @cons k m _ adj _ ih =>
        intro hk
        obtain ⟨a, heard, same⟩ := Option.map_eq_some_iff.mp (current k m adj)
        exact ih (led.heard k m a heard (same.trans hk))
  exact along walk led.holds_leader

/-- What arrives at a node with the best standing changes nothing. -/
theorem apply_eq (led : Led electors h p)
    (inj : Function.Injective fun i => (electors i).id) (hd : p.transit (i, j) = a :: rest)
    (hj : Holds electors h p j) :
    ((p.elections j).apply (electors j).id a).2 = p.elections j := by
  have first : a ∈ p.transit (i, j) := hd ▸ List.mem_cons_self
  obtain ⟨sender, adj⟩ := led.honest.sent i j a first
  refine (Election.response_apply ..).eq_of_best hj (led.sent _ a first) fun source => ?_
  rw [sender] at source
  by_cases hh : j = h
  · -- The heaviest node is its own source, and no node announces to itself.
    rw [hh, led.leader] at source
    exact absurd (inj source) (hh ▸ adj.ne)
  · obtain ⟨k, source', -, only⟩ := led.backed j hh hj
    obtain rfl := inj (source.trans source')
    exact only a first

/-- Losing announcements does not change the lead. -/
theorem of_sublist {p' : Poll ι} (led : Led electors h p) (honest : Honest electors p')
    (elections : p'.elections = p.elections) (heard : p'.heard = p.heard)
    (sub : ∀ c, (p'.transit c).Sublist (p.transit c)) : Led electors h p' := by
  have holds : ∀ i, Holds electors h p i → Holds electors h p' i := fun i hi => by
    rwa [Holds, elections]
  refine ⟨honest, elections ▸ led.leader, elections ▸ led.held, ?_, ?_, ?_, ?_, ?_⟩
  · exact fun c a ha => led.sent c a ((sub c).subset ha)
  · exact fun c => (led.order c).sublist (sub c)
  · exact fun c a ha best => holds _ (led.ahead c a ((sub c).subset ha) best)
  · intro j hj hold
    rw [Holds, elections] at hold
    obtain ⟨k, source, hold', only⟩ := led.backed j hj hold
    exact ⟨k, elections ▸ source, holds k hold', fun a ha => only a ((sub _).subset ha)⟩
  · exact fun i j a ha best => holds j (led.heard i j a (heard ▸ ha) best)

variable [DecidableEq ι]

theorem announce (led : Led electors h p) (i : ι) :
    Led electors h (p.announce electors i) := by
  refine ⟨led.honest.announce i, led.leader, led.held, ?_, ?_, ?_, ?_, led.heard⟩
  · intro c a ha
    rcases mem_transit_announce ha with old | ⟨-, -, rfl⟩
    · exact led.sent c a old
    · exact led.held i
  · intro c
    rcases transit_announce electors p i c with same | ⟨hc, -, more⟩
    · exact same ▸ led.order c
    · rw [more, List.pairwise_append]
      refine ⟨led.order c, by simp, fun a ha b hb best => ?_⟩
      rw [List.mem_singleton.mp hb, Election.standing_announce, ← hc]
      exact led.ahead c a ha best
  · intro c a ha best
    rcases mem_transit_announce ha with old | ⟨rfl, -, rfl⟩
    · exact led.ahead c a old best
    · exact best
  · intro j hj holds
    obtain ⟨k, source, holds', only⟩ := led.backed j hj holds
    refine ⟨k, source, holds', fun a ha => ?_⟩
    rcases mem_transit_announce ha with old | ⟨rfl, -, rfl⟩
    · exact only a old
    · exact holds'

/-- An announcement that arrives leaves the nodes alone that have the best standing. -/
theorem elections_receive (led : Led electors h p)
    (inj : Function.Injective fun i => (electors i).id) (hd : p.transit (i, j) = a :: rest)
    (hk : Holds electors h p k) :
    (p.receive electors i j a rest).elections k = p.elections k := by
  by_cases same : k = j
  · subst same
    rw [elections_receive_self, led.apply_eq inj hd hk]
  · exact elections_receive_ne same

/-- A node that holds the standing of the leader keeps it. -/
theorem holds_receive (led : Led electors h p)
    (inj : Function.Injective fun i => (electors i).id) (hd : p.transit (i, j) = a :: rest)
    (hk : Holds electors h p k) : Holds electors h (p.receive electors i j a rest) k := by
  rwa [Holds, led.elections_receive inj hd hk]

/-- No announcement that travels is above the leader. -/
theorem below_receive (led : Led electors h p) (heaviest : Heaviest electors h)
    (hd : p.transit (i, j) = a :: rest) (k : ι) :
    ((p.receive electors i j a rest).elections k).standing.Below (electors h).own := by
  have first : a ∈ p.transit (i, j) := hd ▸ List.mem_cons_self
  by_cases hk : k = j
  · subst hk
    rw [elections_receive_self]
    exact (Election.response_apply ..).below (led.held k) (led.sent _ a first)
      (led.honest.own k ▸ heaviest.below k)
  · rw [elections_receive_ne hk]
    exact led.held k

/-- A node that comes to hold the standing of the leader was told by a neighbour that holds it. -/
theorem backed_receive (led : Led electors h p) (heaviest : Heaviest electors h)
    (inj : Function.Injective fun i => (electors i).id) (hd : p.transit (i, j) = a :: rest)
    (hk : k ≠ h) (holds : Holds electors h (p.receive electors i j a rest) k) :
    ∃ l, ((p.receive electors i j a rest).elections k).source = (electors l).id ∧
      Holds electors h (p.receive electors i j a rest) l ∧
      ∀ b ∈ (p.receive electors i j a rest).transit (l, k), b.standing = (electors h).own := by
  have first : a ∈ p.transit (i, j) := hd ▸ List.mem_cons_self
  have old : Holds electors h p k → ∃ l,
      ((p.receive electors i j a rest).elections k).source = (electors l).id ∧
      Holds electors h (p.receive electors i j a rest) l ∧
      ∀ b ∈ (p.receive electors i j a rest).transit (l, k), b.standing = (electors h).own := by
    intro held
    obtain ⟨l, source, held', only⟩ := led.backed k hk held
    refine ⟨l, led.elections_receive inj hd held ▸ source, led.holds_receive inj hd held', ?_⟩
    exact fun b hb => only b ((transit_receive electors hd _).subset hb)
  by_cases same : k = j
  · subst same
    have response := Election.response_apply (p.elections k) (electors k).id a
    rw [Holds, elections_receive_self] at holds
    rcases response.source_of_best (led.honest.own k ▸ heaviest.own_ne hk) holds with
      eq | ⟨best, source⟩
    · exact old (by rwa [eq] at holds)
    · -- The node takes the best standing over, so the rest of the channel has it as well.
      refine ⟨i, ?_, led.holds_receive inj hd (led.ahead _ a first best), fun b hb => ?_⟩
      · rw [elections_receive_self, source, (led.honest.sent i k a first).1]
      · have order := led.order (i, k)
        rw [hd, List.pairwise_cons] at order
        simp only [Poll.receive, Function.update_self] at hb
        exact order.1 b hb best
  · rw [Holds, elections_receive_ne same] at holds
    exact old holds

/-- A node that has heard of the best standing holds it. -/
theorem heard_receive (led : Led electors h p) (heaviest : Heaviest electors h)
    (inj : Function.Injective fun i => (electors i).id) (hd : p.transit (i, j) = a :: rest)
    {b : Announcement} (hb : (p.receive electors i j a rest).heard (l, k) = some b)
    (best : b.standing = (electors h).own) :
    Holds electors h (p.receive electors i j a rest) k := by
  by_cases here : (l, k) = (i, j)
  · obtain ⟨rfl, rfl⟩ := Prod.mk.inj here
    obtain rfl := Option.some.inj (heard_receive_self.symm.trans hb)
    by_cases hk : k = h
    · exact led.holds_receive inj hd (hk ▸ led.holds_leader)
    · rw [Holds, elections_receive_self]
      exact (Election.response_apply ..).standing_best (led.held k) best (heaviest.id_lt hk)
  · rw [heard_receive_ne here] at hb
    exact led.holds_receive inj hd (led.heard l k b hb best)

theorem receive (led : Led electors h p) (heaviest : Heaviest electors h)
    (inj : Function.Injective fun i => (electors i).id) (hd : p.transit (i, j) = a :: rest) :
    Led electors h (p.receive electors i j a rest) where
  honest := led.honest.receive hd
  leader := by rw [led.elections_receive inj hd led.holds_leader, led.leader]
  held := led.below_receive heaviest hd
  sent c b hb := led.sent c b ((transit_receive electors hd c).subset hb)
  order c := (led.order c).sublist (transit_receive electors hd c)
  ahead c b hb best :=
    led.holds_receive inj hd (led.ahead c b ((transit_receive electors hd c).subset hb) best)
  backed _ := led.backed_receive heaviest inj hd
  heard _ _ _ := led.heard_receive heaviest inj hd

/-- The leader leads after every move that drops no link. -/
theorem step (led : Led electors h p) (heaviest : Heaviest electors h)
    (inj : Function.Injective fun i => (electors i).id) {m : Move ι} (hm : ¬ m.Drops) :
    Led electors h (p.step electors m) := by
  cases m with
  | announce i => exact led.announce i
  | deliver i j =>
      simp only [Poll.step]
      rcases deliver_cases electors p i j with same | ⟨a, rest, hd, eq⟩
      · rwa [same]
      · rw [eq]
        exact led.receive heaviest inj hd
  | lose i j n =>
      exact led.of_sublist (led.honest.step (.lose i j n)) rfl rfl (transit_lose p i j n)
  | drop i j => exact absurd trivial hm

theorem run (led : Led electors h p) (heaviest : Heaviest electors h)
    (inj : Function.Injective fun i => (electors i).id) {moves : List (Move ι)}
    (up : ∀ m ∈ moves, ¬ m.Drops) : Led electors h (p.run electors moves) :=
  run_induction (fun _ _ hm led => led.step heaviest inj hm) up led

/-- A node that holds the best standing keeps it. -/
theorem holds_step (led : Led electors h p) (inj : Function.Injective fun i => (electors i).id)
    {m : Move ι} (hm : ¬ m.Drops) (hi : Holds electors h p i) :
    Holds electors h (p.step electors m) i := by
  cases m with
  | announce | lose => exact hi
  | deliver k j =>
      simp only [Poll.step]
      rcases deliver_cases electors p k j with same | ⟨a, rest, hd, eq⟩
      · rwa [same]
      · rw [eq]
        exact led.holds_receive inj hd hi
  | drop => exact absurd trivial hm

/-- What is held once is held for good. -/
theorem holds_run (led : Led electors h p) (heaviest : Heaviest electors h)
    (inj : Function.Injective fun i => (electors i).id) {moves : List (Move ι)}
    (up : ∀ m ∈ moves, ¬ m.Drops) (hi : Holds electors h p i) :
    Holds electors h (p.run electors moves) i :=
  (run_induction (P := fun p => Led electors h p ∧ Holds electors h p i)
    (fun _ _ hm ⟨led, hi⟩ => ⟨led.step heaviest inj hm, led.holds_step inj hm hi⟩)
    up ⟨led, hi⟩).2

end Led

/-! ## Agreement -/

/-- Take a connected mesh whose links stay up, in which one node has more weight than all
others.  A node that comes to hold that weight holds the original id of the heaviest node, and
goes on holding both.  Once all last announcements are current, all nodes hold them. -/
theorem agreement [DecidableEq ι] {links : List (Sym2 ι)}
    (inj : Function.Injective fun i => (electors i).id) (heaviest : Heaviest electors h)
    (connected : (begin electors links).graph.Preconnected) (moves : List (Move ι))
    (up : ∀ m ∈ moves, ¬ m.Drops) :
    let p := (begin electors links).run electors moves
    (∀ i, (p.elections i).weight = (electors h).own.weight →
      (p.elections i).standing = (electors h).own ∧
      ∀ more : List (Move ι), (∀ m ∈ more, ¬ m.Drops) →
        ((p.run electors more).elections i).standing = (p.elections i).standing) ∧
    (p.Current → ∀ i, (p.elections i).standing = (electors h).own) := by
  intro p
  have led : Led electors h p := (led_begin heaviest links).run heaviest inj up
  have graph : p.graph = (begin electors links).graph :=
    run_induction (P := fun p => p.graph = (begin electors links).graph)
      (fun _ _ hm same => (graph_step hm).trans same) up rfl
  refine ⟨fun i weight => ?_, fun current i => ?_⟩
  · have hi := led.holds_of_weight weight
    exact ⟨hi, fun more stay => (led.holds_run heaviest inj stay hi).trans hi.symm⟩
  · exact led.holds_of_reachable current (graph ▸ connected h i)

/-- The root of three nodes in a row wins the election: the root announces itself, the others
pass it on, and all have heard of it in both directions. -/
theorem agreement_row :
    let moves := [.announce 0, .deliver 0 1, .announce 1, .deliver 1 0, .deliver 1 2,
      .announce 2, .deliver 2 1]
    ((row.run rowElectors moves).elections 1).standing = ⟨rootMeshId, rootWeight⟩ ∧
      ∀ i, ((row.run rowElectors moves).elections i).standing = ⟨rootMeshId, rootWeight⟩ := by
  have heaviest : Heaviest rowElectors 0 := by
    unfold Heaviest
    decide
  have connected : row.graph.Preconnected := by
    have first : row.graph.Adj 0 1 := by decide
    have second : row.graph.Adj 1 2 := by decide
    have joined : ∀ i, row.graph.Reachable 1 i
      | 0 => first.symm.reachable
      | 1 => .refl 1
      | 2 => second.reachable
    exact fun i j => (joined i).symm.trans (joined j)
  intro moves
  obtain ⟨keep, agree⟩ := agreement rowElectors_injective heaviest connected moves
    (by decide)
  exact ⟨(keep 1 (by decide)).1, agree (by decide)⟩

end Poll

end SpanningMesh
