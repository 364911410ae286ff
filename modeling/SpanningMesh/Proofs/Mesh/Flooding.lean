import SpanningMesh.Proofs.Mesh.Traffic

/-!
# Flooding a forest

A broadcast packet is handled by every node and passed on through all links but the one on
which it came.  Nothing in a frame tells a copy that was seen before.  Where the cables
make a forest that is not needed: the packet arrives once at every node other than the origin, and
each time that it arrives it is handled (`Traffic.flooded_once`).

Copies only travel *outward*, over a cable towards the end that is cut off from the origin
without it.  In that direction the copies under way and those that arrived at the far node add up to
the times that the near node had the packet, and the origin had it once (`Spread`).  Every node has
one port on which copies come in.  All its other ports lead outward, and through these it passes
them on.
-/

namespace SpanningMesh

open Application (Program)
open Relation (ReflTransGen)

/-! ## Outward -/

section

variable {ι : Type} {cables : Set (Cable ι)} {o : ι} {p q u w : Port ι} {c : Cable ι}

/-- The first of two ports that face each other is joined with the origin without their
cable. -/
def Outward (cables : Set (Cable ι)) (o : ι) (p q : Port ι) : Prop :=
  ∃ c ∈ cables, c.Faces p q ∧ (graph (cables \ {c})).Reachable o p.node

theorem Outward.facing (h : Outward cables o p q) : Facing cables p q := by
  obtain ⟨c, hc, faces, -⟩ := h
  exact ⟨c, hc, faces⟩

/-- Only one direction of a cable leads outward. -/
theorem Outward.not_swap (forest : Forest cables) (h : Outward cables o p q) :
    ¬ Outward cables o q p := by
  rintro ⟨d, hd, faces', joined'⟩
  obtain ⟨c, hc, faces, joined⟩ := h
  have same : c = d := forest.simple c hc d hd (faces.ends_eq.trans faces'.symm.ends_eq.symm)
  subst same
  exact (forest.bridge hc).not_reachable faces.ends_eq (joined.symm.trans joined')

/-- One direction of a cable leads outward if the origin is joined with an end of it. -/
theorem outward_or (facing : Facing cables p q) (joined : (graph cables).Reachable p.node o) :
    Outward cables o p q ∨ Outward cables o q p := by
  obtain ⟨c, hc, faces⟩ := facing
  have side : (graph (cables \ {c})).Reachable o p.node ∨
      (graph (cables \ {c})).Reachable o q.node := by
    refine reachable_induction (P := fun k => (graph (cables \ {c})).Reachable k p.node ∨
      (graph (cables \ {c})).Reachable k q.node) joined ?_ (.inl (.refl _))
    intro d hd a b he ha
    by_cases hdc : d = c
    · subst hdc
      rcases Sym2.eq_iff.mp (faces.ends_eq.symm.trans he) with ⟨-, rfl⟩ | ⟨rfl, -⟩
      · exact .inr (.refl _)
      · exact .inl (.refl _)
    · have kept : d ∈ cables \ {c} := ⟨hd, hdc⟩
      have back := (reachable_of_ends kept he).symm
      exact ha.imp back.trans back.trans
  rcases side with joined | joined
  · exact .inl ⟨c, hc, faces, joined⟩
  · exact .inr ⟨c, hc, faces.symm, joined⟩

/-- Nothing leads outward to the origin. -/
theorem Outward.ne_origin (forest : Forest cables) (h : Outward cables o p q) : q.node ≠ o := by
  rintro rfl
  obtain ⟨c, hc, faces, joined⟩ := h
  exact (forest.bridge hc).not_reachable faces.ends_eq joined.symm

/-- Every port leads outward at the origin. -/
theorem outward_origin (facing : Facing cables p q) : Outward cables p.node p q := by
  obtain ⟨c, hc, faces⟩ := facing
  exact ⟨c, hc, faces, .refl _⟩

/-- At the far end of a cable that leads outward all other ports lead outward. -/
theorem Outward.next (forest : Forest cables) (h : Outward cables o p q)
    (facing : Facing cables u w) (here : u.node = q.node) (ne : u ≠ q) :
    Outward cables o u w := by
  obtain ⟨c, hc, faces, joined⟩ := h
  obtain ⟨d, hd, faces'⟩ := facing
  have cut : ¬ (graph (cables \ {c})).Reachable o q.node := fun joined' =>
    (forest.bridge hc).not_reachable faces.ends_eq (joined.symm.trans joined')
  have other : c ≠ d := by
    rintro rfl
    rcases faces.eq_or_eq faces' with ⟨rfl, -⟩ | ⟨rfl, -⟩
    · exact cut (here ▸ joined)
    · exact ne rfl
  -- On the way to the near end no cable of the far node is needed, since that node is cut off.
  have way : (graph (cables \ {c})).Reachable o p.node ∧
      (graph (cables \ {d})).Reachable o p.node := by
    refine reachable_induction (P := fun k => (graph (cables \ {c})).Reachable o k ∧
      (graph (cables \ {d})).Reachable o k) joined ?_ ⟨.refl o, .refl o⟩
    intro e he a b ends ⟨first, second⟩
    have both := first.trans (reachable_of_ends he ends)
    have kept : e ∈ cables \ {d} := by
      refine ⟨he.1, ?_⟩
      rintro rfl
      rcases Sym2.eq_iff.mp (faces'.ends_eq.symm.trans ends) with ⟨rfl, -⟩ | ⟨rfl, -⟩
      · exact cut (here ▸ first)
      · exact cut (here ▸ both)
    exact ⟨both, second.trans (reachable_of_ends kept ends)⟩
  have kept : c ∈ cables \ {d} := ⟨hc, other⟩
  exact ⟨d, hd, faces', here ▸ way.2.trans (reachable_of_ends kept faces.ends_eq)⟩

/-- Only one port of a node is at the far end of a cable that leads outward. -/
theorem Outward.eq_of_node (forest : Forest cables) (h : Outward cables o p q)
    (h' : Outward cables o u w) (same : w.node = q.node) : w = q := by
  by_contra ne
  exact (h.next forest h'.facing.symm same ne).not_swap forest h'

end

namespace Traffic

variable {ι σ α : Type} [DecidableEq ι] {cables : Set (Cable ι)}
  {program : Program σ α} {body : Bytes} {h : Header} {t t' before after : Traffic ι σ α}
  {nodes : ι → Node σ α} {o i : ι} {p q u w : Port ι}

/-! ## How a packet spreads -/

/-- The copies that arrived at a node, in order. -/
def arrivalsAt (t : Traffic ι σ α) (i : ι) : List (Arrival ι σ α) :=
  t.arrivals.filter fun a => a.port.node = i

/-- How often a copy arrived at a node. -/
def visits (t : Traffic ι σ α) (i : ι) : Nat := (t.arrivalsAt i).length

/-- How often a node had the packet.  The origin had it from the beginning. -/
def had (o : ι) (t : Traffic ι σ α) (i : ι) : Nat := if i = o then 1 else t.visits i

/-- How the copies of a packet that one node broadcasts are spread over the cables. -/
structure Spread (cables : Set (Cable ι)) (body : Bytes) (o : ι) (t : Traffic ι σ α) : Prop where
  outward : ∀ p q, Facing cables p q → Outward cables o p q →
    t.load body p q + t.visits q.node = t.had o p.node
  inward : ∀ p q, Facing cables p q → ¬ Outward cables o p q → t.load body p q = 0
  origin : t.visits o = 0
  once : ∀ i, t.visits i ≤ 1

/-- Nodes are visited by arrivals alone. -/
theorem visits_of_arrivals (same : t'.arrivals = t.arrivals) (i : ι) :
    t'.visits i = t.visits i := by
  rw [visits, arrivalsAt, same]
  rfl

/-- A node had the packet once at most. -/
theorem Spread.had_le (s : Spread cables body o t) (i : ι) : t.had o i ≤ 1 := by
  unfold had
  split
  · exact Nat.le_refl 1
  · exact s.once i

/-- While no copy arrives, the flood spreads no further. -/
theorem Spread.rests (s : Spread cables body o t) (rests : Rests cables body t t') :
    Spread cables body o t' where
  outward p q facing out := by
    rw [rests.load p q facing, had, visits_of_arrivals rests.arrivals,
      visits_of_arrivals rests.arrivals]
    exact s.outward p q facing out
  inward p q facing out := rests.load p q facing ▸ s.inward p q facing out
  origin := visits_of_arrivals rests.arrivals o ▸ s.origin
  once i := visits_of_arrivals rests.arrivals i ▸ s.once i

/-- Once no copy is under way, every node had the packet. -/
theorem Spread.had_of_empty (s : Spread cables body o t) (forest : Forest cables)
    (joined : (graph cables).Reachable o i)
    (empty : ∀ p q, Facing cables p q → t.load body p q = 0) : t.had o i = 1 := by
  refine (reachable_induction (P := fun k => (graph cables).Reachable o k ∧ t.had o k = 1) joined
    ?_ ⟨.refl o, if_pos rfl⟩).2
  rintro c hc a b ends ⟨joined', near⟩
  refine ⟨joined'.trans (reachable_of_ends hc ends), ?_⟩
  obtain ⟨p, q, faces, rfl, rfl⟩ := exists_faces ends
  have facing : Facing cables p q := ⟨c, hc, faces⟩
  rcases outward_or facing joined'.symm with out | back
  · have sum := s.outward p q facing out
    rw [empty p q facing, Nat.zero_add] at sum
    rw [had, if_neg (out.ne_origin forest), sum, near]
  · have sum := s.outward q p facing.symm back
    rw [empty q p facing.symm, Nat.zero_add] at sum
    rw [← sum, ← near, had, if_neg (back.ne_origin forest)]

/-! ### What an arrival does -/

variable [Host σ] {a : Arrival ι σ α}

/-- What the arrival of a broadcast packet does to the load. -/
theorem Arrives.load_broadcast (linked : Linked t.nodes cables)
    (synced : ∀ i, (t.nodes i).AllSynced) (broadcast : h.delivery = .broadcast)
    (arrives : Arrives cables program body h t t' p a) (facing : Facing cables u w) :
    t'.load body u w + (if w = a.port then 1 else 0) =
      t.load body u w + if u.node = a.port.node ∧ u ≠ a.port then 1 else 0 := by
  rw [arrives.load u w facing, arrives.before, Node.onward_broadcast broadcast]
  by_cases hn : u.node = a.port.node
  · have mem : u.link ∈ (t.nodes a.port.node).linkIds := hn ▸ linked.opened u w facing
    rw [if_pos hn, Node.count_fanOut (linked.nodup _) (synced _) _ mem]
    simp only [Option.some.injEq, ne_eq, Port.eq_iff, hn, true_and, ite_not]
  · simp [hn]

/-- A copy that arrives visits one node. -/
theorem Arrives.visits (arrives : Arrives cables program body h t t' p a) (i : ι) :
    t'.visits i = t.visits i + if i = a.port.node then 1 else 0 := by
  rw [Traffic.visits, arrivalsAt, arrives.arrivals, List.filter_append, List.length_append]
  by_cases here : i = a.port.node
  · rw [if_pos here, List.filter_cons_of_pos (by simp [here])]
    rfl
  · rw [if_neg here, List.filter_cons_of_neg (by simp [Ne.symm here])]
    rfl

/-- Copies come from a node that had the packet to one where none arrived. -/
theorem Spread.of_arrives (s : Spread cables body o t)
    (arrives : Arrives cables program body h t t' p a) :
    Outward cables o p a.port ∧ t.visits a.port.node = 0 := by
  have some := arrives.load_pos
  have out : Outward cables o p a.port := by
    by_contra inward
    have empty := s.inward p a.port arrives.facing inward
    omega
  have sum := s.outward p a.port arrives.facing out
  have le := s.had_le p.node
  exact ⟨out, by omega⟩

/-- A copy arrives where none was before, and goes on to all links that lead further away. -/
theorem Spread.arrives (s : Spread cables body o t) (forest : Forest cables)
    (linked : Linked t.nodes cables) (synced : ∀ i, (t.nodes i).AllSynced)
    (broadcast : h.delivery = .broadcast) (arrives : Arrives cables program body h t t' p a) :
    Spread cables body o t' := by
  obtain ⟨out, first⟩ := s.of_arrives arrives
  have far : a.port.node ≠ o := out.ne_origin forest
  have visits := arrives.visits
  have had : ∀ i, t'.had o i = t.had o i + if i = a.port.node then 1 else 0 := by
    intro i
    unfold Traffic.had
    split
    next hi => rw [if_neg fun same => far (same.symm.trans hi)]
    next => exact visits i
  refine ⟨fun u w facing' out' => ?_, fun u w facing' inward => ?_, ?_, fun i => ?_⟩
  · have sum := s.outward u w facing' out'
    have change := arrives.load_broadcast linked synced broadcast facing'
    -- Copies come in on one port only, so only the cable of the copy leads to its node.
    have at_port : w.node = a.port.node ↔ w = a.port :=
      ⟨out.eq_of_node forest out', fun same => same ▸ rfl⟩
    have not_back : u ≠ a.port := by
      rintro rfl
      have back := arrives.facing.symm.unique linked.plugged facing'
      exact out.not_swap forest (back ▸ out')
    rw [visits, had]
    simp only [at_port, ne_eq, not_back, not_false_eq_true, and_true] at change ⊢
    omega
  · have empty := s.inward u w facing' inward
    have change := arrives.load_broadcast linked synced broadcast facing'
    have elsewhere : ¬ (u.node = a.port.node ∧ u ≠ a.port) := fun ⟨here, ne⟩ =>
      inward (out.next forest facing' here ne)
    rw [if_neg elsewhere] at change
    omega
  · rw [visits, s.origin, if_neg fun same => far same.symm]
  · have le := s.once i
    rw [visits]
    split
    next hi => rw [hi, first]
    next => exact le

/-! ## Once everywhere -/

/-- What every step of a broadcast keeps.  Each copy that arrived was sent on through all links of
its node but the one on which it came, and was handled. -/
theorem Spread.run (seen : Header.peek body = .ok h) (forest : Forest cables)
    (linked : Linked nodes cables) (synced : ∀ i, (nodes i).AllSynced)
    (broadcast : h.delivery = .broadcast)
    (same : ∀ i, (before.nodes i).bearings = (nodes i).bearings)
    (none_arrived : before.arrivals = []) (s : Spread cables body o before)
    (run : ReflTransGen (Step cables program body h) before after) :
    Spread cables body o after ∧ ∀ a ∈ after.arrivals,
      a.Handled program body h (a.before.fanOut .broadcast (some a.port.link)) := by
  refine run_induction (P := fun t => Spread cables body o t ∧ ∀ a ∈ t.arrivals,
    a.Handled program body h (a.before.fanOut .broadcast (some a.port.link)))
    seen linked same (fun t t' ⟨s, handled⟩ rests => ⟨s.rests rests, rests.arrivals ▸ handled⟩) ?_
    ⟨s, fun a arrived => absurd (none_arrived ▸ arrived) List.not_mem_nil⟩ run
  intro t t' p a same ⟨s, handled⟩ arrives
  have synced' := fun i => (synced i).of_bearings (same i)
  refine ⟨s.arrives forest (linked.of_bearings same) synced' broadcast arrives, ?_⟩
  rw [arrives.arrivals, List.forall_mem_append, List.forall_mem_singleton]
  exact ⟨handled, arrives.handled_broadcast seen broadcast⟩

/-- A node sends a packet to all its neighbours. -/
def sendToAll (t : Traffic ι σ α) (i : ι) (packet : Packet) (priority : Bool) : Traffic ι σ α :=
  t.setNode i ((t.nodes i).sendToAll packet none priority).2

/-- When a node has broadcast a packet, one copy is under way on each of its cables. -/
theorem spread_sendToAll (linked : Linked before.nodes cables)
    (synced : ∀ i, (before.nodes i).AllSynced) {packet : Packet}
    (broadcast : packet.header.delivery = .broadcast) (written : packet.encode = .ok body)
    {priority : Bool} (none_arrived : before.arrivals = [])
    (none_under_way : ∀ p q, Facing cables p q → before.load body p q = 0)
    (sent : ((before.nodes o).sendToAll packet none priority).1 =
      .ok ((before.nodes o).fanOut .broadcast none).length) :
    Spread cables body o (before.sendToAll o packet priority) := by
  have load : ∀ p q, Facing cables p q →
      (before.sendToAll o packet priority).load body p q = if p.node = o then 1 else 0 := by
    intro p q facing
    have more := fun k => Node.copies_sendToAll (k := k) written (broadcast ▸ sent)
    rw [sendToAll, load_setNode more, none_under_way p q facing, Nat.zero_add]
    split
    next here =>
      have mem : p.link ∈ (before.nodes o).linkIds := here ▸ linked.opened p q facing
      rw [broadcast, Node.count_fanOut (linked.nodup o) (synced o) none mem]
      rfl
    next => rfl
  have visits : ∀ i, (before.sendToAll o packet priority).visits i = 0 := by
    intro i
    have arrivals : (before.sendToAll o packet priority).arrivals = [] := none_arrived
    rw [Traffic.visits, arrivalsAt, arrivals]
    rfl
  refine ⟨fun p q facing _ => ?_, fun p q facing inward => ?_, visits o, fun i => ?_⟩
  · rw [load p q facing, had, visits, visits, Nat.add_zero]
  · rw [load p q facing, if_neg]
    rintro rfl
    exact inward (outward_origin facing)
  · rw [visits]
    exact Nat.zero_le 1

/-- Take a mesh whose cables make a forest and join all nodes, and whose links have all accepted
a tree.  A node broadcasts a packet of which no copy is under way, and no queue refuses it.
Whatever happens then, each copy that arrives is sent on through all links of its node but the one
on which it came, and handled once after that.  No copy arrives at the node that sent the packet,
at most one arrives at every other, and exactly one as soon as no copy is under way any more. -/
theorem flooded_once (forest : Forest cables) (connected : (graph cables).Preconnected)
    (linked : Linked before.nodes cables) (synced : ∀ i, (before.nodes i).AllSynced)
    {packet : Packet} (broadcast : packet.header.delivery = .broadcast)
    (written : packet.encode = .ok body) {priority : Bool}
    (none_arrived : before.arrivals = [])
    (none_under_way : ∀ p q, Facing cables p q → before.load body p q = 0)
    (sent : ((before.nodes o).sendToAll packet none priority).1 =
      .ok ((before.nodes o).fanOut .broadcast none).length)
    (run : ReflTransGen (Step cables program body packet.header)
      (before.sendToAll o packet priority) after) :
    (∀ a ∈ after.arrivals, a.Handled program body packet.header
        (a.before.fanOut .broadcast (some a.port.link))) ∧
      after.arrivalsAt o = [] ∧ (∀ i, i ≠ o → (after.arrivalsAt i).length ≤ 1) ∧
      ((∀ p q, Facing cables p q → after.load body p q = 0) →
        ∀ i, i ≠ o → (after.arrivalsAt i).length = 1) := by
  have same : ∀ i, ((before.sendToAll o packet priority).nodes i).bearings =
      (before.nodes i).bearings :=
    bearings_update (Node.feeds_sendToAll (linked.nodup o) packet none priority).bearings
  have begin := spread_sendToAll linked synced broadcast written none_arrived none_under_way sent
  have seen := Packet.peek_of_encode written
  obtain ⟨s, handled⟩ := begin.run seen forest linked synced broadcast same none_arrived run
  refine ⟨handled, List.length_eq_zero_iff.mp s.origin, fun i _ => s.once i, fun empty i hi => ?_⟩
  have all := s.had_of_empty forest (connected o i) empty
  rwa [had, if_neg hi] at all

/-- A text from the second of three nodes to all others. -/
def notice : Packet := .broadcast 2 "hi"

/-- The notice as bytes. -/
def noticeBytes : Bytes := [8, 0, 2, 0, 0, 0, 0, 0, 2, 0, 0, 0, 2, 0, 104, 105]

/-- The notice goes to the first node and then to the third. -/
theorem exists_run_notice : ∃ after,
    ReflTransGen (Step Mesh.trioCables (.idle _ _) noticeBytes notice.header)
      (trio.sendToAll 1 notice false) after ∧
      ∀ p q, Facing Mesh.trioCables p q → after.load noticeBytes p q = 0 := by
  obtain ⟨first, second⟩ := Mesh.facing_trio
  have read : Packet.decode noticeBytes = .ok notice := by decide +kernel
  have one := run_hop (t := trio.sendToAll 1 notice false) first.symm read (.inr rfl)
    (by decide +kernel) (by decide +kernel)
  have two := run_hop (t := (trio.sendToAll 1 notice false).hop noticeBytes ⟨1, ⟨1⟩⟩ ⟨0, ⟨1⟩⟩)
    second read (.inr rfl) (by decide +kernel) (by decide +kernel)
  refine ⟨_, one.trans two, fun p q facing => ?_⟩
  exact Mesh.forall_facing (P := fun p q => load noticeBytes (hop _ _ _ _) p q = 0)
    (by decide +kernel) facing

/-- Once the notice has gone to both, each has handled it once. -/
theorem flooded_once_trio : ∃ after,
    ReflTransGen (Step Mesh.trioCables (.idle _ _) noticeBytes notice.header)
      (trio.sendToAll 1 notice false) after ∧ after.arrivalsAt 1 = [] ∧
      ∀ i, i ≠ 1 → ∃ a, after.arrivalsAt i = [a] ∧ a.Handled (.idle _ _) noticeBytes notice.header
        (a.before.fanOut .broadcast (some a.port.link)) := by
  have written : notice.encode = .ok noticeBytes := by decide +kernel
  have none_under_way := load_trio noticeBytes (by decide +kernel)
  have sent : ((trio.nodes 1).sendToAll notice none false).1 =
      .ok ((trio.nodes 1).fanOut .broadcast none).length := by decide +kernel
  have synced : ∀ i, (trio.nodes i).AllSynced := by
    unfold Node.AllSynced
    decide +kernel
  obtain ⟨after, run, empty⟩ := exists_run_notice
  obtain ⟨handled, origin, -, others⟩ := flooded_once settled_trio.forest Mesh.preconnected_trio
    settled_trio.linked synced rfl written rfl none_under_way sent run
  refine ⟨after, run, origin, fun i hi => ?_⟩
  obtain ⟨a, only⟩ := List.length_eq_one_iff.mp (others empty i hi)
  have arrived : a ∈ after.arrivalsAt i := only ▸ List.mem_singleton_self a
  exact ⟨a, only, handled a (List.mem_of_mem_filter arrived)⟩

end Traffic

end SpanningMesh
