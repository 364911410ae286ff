import Mathlib.Combinatorics.SimpleGraph.Metric
import SpanningMesh.Proofs.Mesh.Traffic

/-!
# Packets for one node

In a settled mesh every node has a route to all nodes that are joined with it, and to no
others.  A route leads through the cable behind which the destination lies.  Since the
cable is a bridge, every way to the destination runs over it, so at its far end the
destination is nearer by one (`Settled.exists_hop`).  Each node looks for the route by
itself, and yet the hops fit together to a shortest walk (`Settled.exists_walk`).

A packet for one node takes this walk.  A single copy is under way until it has arrived at
the end of it, and no node on the way handles the packet (`Traffic.unicast_shortest`).
-/

namespace SpanningMesh

open Application (Program)
open Relation (ReflTransGen)

variable {ι σ α : Type} {nodes : ι → Node σ α} {cables : Set (Cable ι)} {c : Cable ι}
  {i j a b : ι} {p q : Port ι} {dest : UInt32} {k : LinkId}

/-! ## Ways over a bridge -/

/-- All ways to a node behind a bridge run over the bridge. -/
theorem Bridge.lt_length (bridge : Bridge cables c) (faces : c.Faces p q)
    (far : (graph (cables \ {c})).Reachable q.node j) (walk : (graph cables).Walk a j)
    (near : (graph (cables \ {c})).Reachable p.node a) :
    (graph cables).dist q.node j < walk.length := by
  have apart := bridge.not_reachable faces.ends_eq
  induction walk with
  | nil => exact absurd (near.trans far.symm) apart
  | @cons a b j adj rest ih =>
      obtain ⟨⟨d, hd, ends⟩, -⟩ := graph_adj.mp adj
      rw [SimpleGraph.Walk.length_cons]
      by_cases hdc : d = c
      · subst hdc
        rcases Sym2.eq_iff.mp (faces.ends_eq.symm.trans ends) with ⟨-, rfl⟩ | ⟨-, rfl⟩
        · exact Nat.lt_succ_of_le (SimpleGraph.dist_le rest)
        · exact absurd near apart
      · have kept : d ∈ cables \ {c} := ⟨hd, hdc⟩
        exact Nat.lt_succ_of_lt (ih far (near.trans (reachable_of_ends kept ends)))

/-! ## Routes -/

/-- There is a route to every node that is known. -/
theorem Node.routeTo_isSome {n : Node σ α} {l : Link} (known : dest ≠ 0) (hl : l ∈ n.links)
    (mem : dest ∈ l.subtree.ids) : ∃ k, n.view.routeTo dest = some k := by
  have branch : (⟨l.id, l.subtree⟩ : Branch LinkId) ∈ n.view.branches :=
    List.mem_map_of_mem (f := fun l : Link => (⟨l.id, l.subtree⟩ : Branch LinkId)) hl
  have found : (n.view.branches.find? (·.tree.contains dest)).isSome := by
    rw [List.find?_isSome]
    exact ⟨_, branch, (Tree.contains_iff_mem_ids known).mpr mem⟩
  obtain ⟨first, hfirst⟩ := Option.isSome_iff_exists.mp found
  exact ⟨first.link, by simp only [View.routeTo, if_neg known, hfirst, Option.map_some]⟩

/-- The route of a node to a destination leads over a cable to the next node. -/
def NextHop (nodes : ι → Node σ α) (cables : Set (Cable ι)) (dest : UInt32) (a b : ι) : Prop :=
  ∃ p q, Facing cables p q ∧ p.node = a ∧ q.node = b ∧ (nodes a).view.routeTo dest = some p.link

namespace Settled

/-- A route leads towards the destination. -/
theorem reachable_of_routeTo (h : Settled nodes cables)
    (hr : (nodes i).view.routeTo dest = some k) :
    ∃ j, (graph cables).Reachable i j ∧ (nodes j).id = dest := by
  obtain ⟨l, hl, -, mem⟩ := Node.exists_link_of_routeTo hr
  refine h.reachable_of_mem_ids ?_
  rw [Node.ids_view]
  exact List.mem_cons_of_mem _ (List.mem_flatMap.mpr ⟨l, hl, mem⟩)

/-- No node has a route to itself. -/
theorem routeTo_self (h : Settled nodes cables) (i : ι) :
    (nodes i).view.routeTo (nodes i).id = none := by
  cases hr : (nodes i).view.routeTo (nodes i).id with
  | none => rfl
  | some k =>
      obtain ⟨l, hl, -, mem⟩ := Node.exists_link_of_routeTo hr
      obtain ⟨q, facing⟩ := h.wired i l hl
      exact absurd (h.treeAt_link hl ▸ mem) (h.own facing)

/-- What a port holds lies at the far end of its cable. -/
theorem reachable_of_mem_treeAt (h : Settled nodes cables) (hc : c ∈ cables) (faces : c.Faces p q)
    (mem : (nodes j).id ∈ (treeAt nodes p).ids) :
    (graph (cables \ {c})).Reachable q.node j := by
  have facing : Facing cables p q := ⟨c, hc, faces⟩
  obtain ⟨k, same, joined⟩ := (h.grown facing).reachable_avoiding h.ids_inj h.ids_ne
    (h.id_treeAt facing) (h.own facing) faces.touches mem
  exact h.ids_inj same ▸ joined

/-- The route to a node that is joined leads over a cable at whose far end that node is nearer
by one. -/
theorem exists_hop (h : Settled nodes cables) (joined : (graph cables).Reachable i j)
    (ne : i ≠ j) : ∃ p q, Facing cables p q ∧ p.node = i ∧
      (nodes i).view.routeTo (nodes j).id = some p.link ∧ (graph cables).Reachable q.node j ∧
      (graph cables).dist q.node j + 1 = (graph cables).dist i j := by
  have known := h.mem_ids_of_reachable joined
  rw [Node.ids_view, List.mem_cons, List.mem_flatMap] at known
  obtain ⟨l, hl, mem⟩ := known.resolve_left fun same => ne (h.ids_inj same.symm)
  obtain ⟨k, route⟩ := Node.routeTo_isSome (h.ids_ne j) hl mem
  obtain ⟨l, hl, rfl, mem⟩ := Node.exists_link_of_routeTo route
  obtain ⟨q, c, hc, faces⟩ := h.wired i l hl
  rw [← h.treeAt_link hl] at mem
  have far := h.reachable_of_mem_treeAt hc faces mem
  have joined' : (graph cables).Reachable q.node j :=
    far.mono (graph_mono Set.sdiff_subset)
  have adj : (graph cables).Adj i q.node := by
    refine graph_adj.mpr ⟨⟨c, hc, faces.ends_eq⟩, fun same => h.forest.loopless c hc ?_⟩
    exact faces.ends_eq ▸ Sym2.mk_isDiag_iff.mpr same
  refine ⟨⟨i, l.id⟩, q, ⟨c, hc, faces⟩, rfl, route, joined', ?_⟩
  obtain ⟨shortest, length⟩ := joined.exists_walk_length_eq_dist
  obtain ⟨rest, length'⟩ := joined'.exists_walk_length_eq_dist
  have longer := (h.bridge hc).lt_length faces far shortest (.refl i)
  have upper := SimpleGraph.dist_le (rest.cons adj)
  rw [SimpleGraph.Walk.length_cons] at upper
  omega

/-- The hops towards a node that is joined make a shortest walk. -/
theorem exists_walk (h : Settled nodes cables) (joined : (graph cables).Reachable i j) :
    ∃ walk : (graph cables).Walk i j, walk.length = (graph cables).dist i j ∧
      walk.support.IsChain (NextHop nodes cables (nodes j).id) := by
  induction hd : (graph cables).dist i j generalizing i with
  | zero =>
      obtain rfl := joined.dist_eq_zero_iff.mp hd
      exact ⟨.nil, rfl, by simp⟩
  | succ d ih =>
      have ne : i ≠ j := by
        rintro rfl
        simp at hd
      obtain ⟨p, q, facing, rfl, route, joined', nearer⟩ := h.exists_hop joined ne
      obtain ⟨walk, length, chain⟩ := ih joined' (by omega)
      have adj : (graph cables).Adj p.node q.node := by
        obtain ⟨c, hc, faces⟩ := facing
        refine graph_adj.mpr ⟨⟨c, hc, faces.ends_eq⟩, fun same => ?_⟩
        rw [same] at nearer
        omega
      refine ⟨walk.cons adj, by rw [SimpleGraph.Walk.length_cons, length], ?_⟩
      rw [SimpleGraph.Walk.support_cons]
      rw [← SimpleGraph.Walk.cons_tail_support walk] at chain ⊢
      exact .cons_cons ⟨p, q, facing, rfl, rfl, route⟩ chain

/-- A node that is joined with no node of an id sends nothing to it. -/
theorem sendPacket_unreachable [Host σ] (h : Settled nodes cables) {packet : Packet}
    (single : packet.header.delivery = .single)
    (absent : ∀ j, (graph cables).Reachable i j → (nodes j).id ≠ packet.header.dest)
    (priority : Bool) : (nodes i).sendPacket packet priority = (.ok 0, nodes i) := by
  have route : (nodes i).view.routeTo packet.header.dest = none := by
    cases hr : (nodes i).view.routeTo packet.header.dest with
    | none => rfl
    | some k =>
        obtain ⟨j, joined, same⟩ := h.reachable_of_routeTo hr
        exact absurd same (absent j joined)
  simp only [Node.sendPacket, Exit.choose, single, route]

end Settled

/-- A route of hops leads to the destination of a packet for one node. -/
structure Leads (nodes : ι → Node σ α) (cables : Set (Cable ι)) (h : Header) (j : ι)
    (route : List ι) : Prop where
  single : h.delivery = .single
  dest : h.dest = (nodes j).id
  chain : route.IsChain (NextHop nodes cables h.dest)
  last : route.getLast? = some j

section

variable {h : Header} {route passed ahead : List ι}

/-- No hop leads on from the destination. -/
theorem Leads.ends (leads : Leads nodes cables h j route) (settled : Settled nodes cables)
    (way : route = passed ++ j :: ahead) : ahead = [] := by
  cases ahead with
  | nil => rfl
  | cons b ahead =>
      have chain := leads.chain
      rw [way, List.isChain_append] at chain
      obtain ⟨p, q, -, -, -, on⟩ := (List.isChain_cons_cons.mp chain.2.1).1
      rw [leads.dest, settled.routeTo_self] at on
      cases on

/-- From every other node a hop leads on. -/
theorem Leads.next (leads : Leads nodes cables h j route) (way : route = passed ++ a :: ahead)
    (ne : a ≠ j) : ∃ p q ahead', Facing cables p q ∧ p.node = a ∧ ahead = q.node :: ahead' ∧
      (nodes a).view.routeTo h.dest = some p.link := by
  cases ahead with
  | nil =>
      have last := leads.last
      rw [way, List.getLast?_concat] at last
      exact absurd (Option.some.inj last) ne
  | cons b ahead =>
      have chain := leads.chain
      rw [way, List.isChain_append] at chain
      obtain ⟨p, q, facing, here, rfl, on⟩ := (List.isChain_cons_cons.mp chain.2.1).1
      exact ⟨p, q, ahead, facing, here, rfl, on⟩

end

/-! ## The way of a packet -/

namespace Traffic

variable {program : Program σ α} {body : Bytes} {h : Header} {t t' before after : Traffic ι σ α}
  {route : List ι} {u w : Port ι}

/-- The nodes in which a packet was, from the one that sent it. -/
def trail (i : ι) (t : Traffic ι σ α) : List ι := i :: t.arrivals.map (·.port.node)

variable [Host σ] {a : Arrival ι σ α}

/-- The copy has arrived at the end of a route and was handled there.  At all nodes where it
arrived before it was only forwarded, and there is no other copy. -/
structure Delivered (cables : Set (Cable ι)) (program : Program σ α) (body : Bytes) (h : Header)
    (i j : ι) (route : List ι) (t : Traffic ι σ α) : Prop where
  trail : t.trail i = route
  handled : ∃ between last, t.arrivals = between ++ [last] ∧
    (∀ a ∈ between, a.Forwarded body h) ∧
    last.port.node = j ∧ last.Handled program body h []
  load : ∀ u w, Facing cables u w → t.load body u w = 0

/-- While no copy arrives, the packet stays delivered. -/
theorem Delivered.rests (done : Delivered cables program body h i j route t)
    (rests : Rests cables body t t') : Delivered cables program body h i j route t' where
  trail := by
    rw [Traffic.trail, rests.arrivals]
    exact done.trail
  handled := rests.arrivals ▸ done.handled
  load u w facing := (rests.load u w facing).trans (done.load u w facing)

variable [DecidableEq ι]

/-- A single copy is under way from the last node in which the packet was to the next one of a
route, and all nodes where it arrived so far only forwarded it. -/
structure UnderWay (cables : Set (Cable ι)) (body : Bytes) (h : Header) (i : ι) (route : List ι)
    (t : Traffic ι σ α) (p q : Port ι) : Prop where
  facing : Facing cables p q
  last : (t.trail i).getLast? = some p.node
  ahead : ∃ ahead, route = t.trail i ++ q.node :: ahead
  forwarded : ∀ a ∈ t.arrivals, a.Forwarded body h
  load : ∀ u w, Facing cables u w → t.load body u w = if u = p then 1 else 0

/-- While no copy arrives, the packet stays on its way between the same two ports. -/
theorem UnderWay.rests (under : UnderWay cables body h i route t p q)
    (rests : Rests cables body t t') : UnderWay cables body h i route t' p q where
  facing := under.facing
  last := by
    rw [trail, rests.arrivals]
    exact under.last
  ahead := by
    rw [trail, rests.arrivals]
    exact under.ahead
  forwarded := rests.arrivals ▸ under.forwarded
  load u w facing := (rests.load u w facing).trans (under.load u w facing)

/-! ### What an arrival does -/

/-- The copy that arrives is the one that is under way. -/
theorem UnderWay.eq_of_arrives (plugged : Plugged cables)
    (under : UnderWay cables body h i route t p q)
    (arrives : Arrives cables program body h t t' u a) : u = p ∧ a.port = q := by
  have here : u = p := by
    by_contra ne
    have pos := arrives.load_pos
    rw [under.load u _ arrives.facing, if_neg ne] at pos
    exact Nat.lt_irrefl 0 pos
  subst here
  exact ⟨rfl, arrives.facing.unique plugged under.facing⟩

/-- After that only those copies are under way that it is passed on as. -/
theorem UnderWay.load_of_arrives (plugged : Plugged cables)
    (under : UnderWay cables body h i route t p q)
    (arrives : Arrives cables program body h t t' p a) (facing : Facing cables u w) :
    t'.load body u w =
      if u.node = a.port.node then (a.before.onward a.port.link h).count u.link else 0 := by
  have at_port : w = a.port ↔ u = p := by
    constructor
    · rintro rfl
      exact facing.symm.unique plugged arrives.facing.symm
    · rintro rfl
      exact facing.unique plugged arrives.facing
  have change := arrives.load u w facing
  rw [under.load u w facing] at change
  simp only [at_port] at change
  omega

/-- The trail grows by the node where the copy arrived. -/
theorem Arrives.trail (arrives : Arrives cables program body h t t' p a) (i : ι) :
    t'.trail i = t.trail i ++ [a.port.node] := by
  simp only [Traffic.trail, arrives.arrivals, List.map_append, List.map_cons, List.map_nil,
    List.cons_append]

/-- A copy arrives at a node that has the bearings that it always had. -/
theorem Arrives.bearings (arrives : Arrives cables program body h t t' p a)
    (same : ∀ i, (t.nodes i).bearings = (nodes i).bearings) :
    a.before.bearings = (nodes a.port.node).bearings :=
  arrives.before ▸ same a.port.node

/-- A copy that arrives at the destination is delivered. -/
theorem UnderWay.delivers (seen : Header.peek body = .ok h) (settled : Settled nodes cables)
    (leads : Leads nodes cables h j route)
    (same : ∀ i, (t.nodes i).bearings = (nodes i).bearings)
    (under : UnderWay cables body h i route t p a.port)
    (arrives : Arrives cables program body h t t' p a) (here : a.port.node = j) :
    Delivered cables program body h i j route t' := by
  have mine : h.dest = a.before.id := by
    rw [Node.id_of_bearings (arrives.bearings same), here, leads.dest]
  have onward : a.before.onward a.port.link h = [] := by
    rw [Node.onward_single leads.single, if_pos mine]
  obtain ⟨ahead, way⟩ := under.ahead
  have ends := leads.ends settled (here ▸ way)
  refine ⟨?_, ⟨t.arrivals, a, arrives.arrivals, under.forwarded, here, ?_⟩, fun u w facing => ?_⟩
  · rw [arrives.trail, way, ends]
  · exact arrives.handled_single seen leads.single mine
  · rw [under.load_of_arrives settled.plugged arrives facing, onward, List.count_nil, ite_self]

/-- A copy that arrives at another node goes on to the next one of the route. -/
theorem UnderWay.goes_on (seen : Header.peek body = .ok h) (settled : Settled nodes cables)
    (leads : Leads nodes cables h j route)
    (same : ∀ i, (t.nodes i).bearings = (nodes i).bearings)
    (under : UnderWay cables body h i route t p a.port)
    (arrives : Arrives cables program body h t t' p a) (other : a.port.node ≠ j) :
    ∃ u w, UnderWay cables body h i route t' u w := by
  obtain ⟨ahead, way⟩ := under.ahead
  obtain ⟨u, w, ahead, facing, here, rfl, hop⟩ := leads.next way other
  have bearings := arrives.bearings same
  have not_mine : h.dest ≠ a.before.id := by
    rw [Node.id_of_bearings bearings]
    exact fun mine => other (settled.ids_inj (mine.symm.trans leads.dest))
  have route : a.before.view.routeTo h.dest = some u.link :=
    Node.view_of_bearings bearings ▸ hop
  have onward : a.before.onward a.port.link h = [u.link] := by
    rw [Node.onward_single leads.single, if_neg not_mine, route, Option.toList_some]
  refine ⟨u, w, facing, ?_, ⟨ahead, ?_⟩, ?_, fun v z facing' => ?_⟩
  · rw [arrives.trail, here, List.getLast?_concat]
  · rw [arrives.trail, way, List.append_assoc, List.singleton_append]
  · rw [arrives.arrivals, List.forall_mem_append, List.forall_mem_singleton]
    exact ⟨under.forwarded, arrives.forwarded seen leads.single not_mine route⟩
  · rw [under.load_of_arrives settled.plugged arrives facing', onward, ← here, count_link]

/-- A packet that arrives has come one node further along the path.  It is delivered at its end. -/
theorem UnderWay.arrives (seen : Header.peek body = .ok h) (settled : Settled nodes cables)
    (leads : Leads nodes cables h j route)
    (same : ∀ i, (t.nodes i).bearings = (nodes i).bearings)
    (under : UnderWay cables body h i route t p q)
    (arrives : Arrives cables program body h t t' u a) :
    (∃ p q, UnderWay cables body h i route t' p q) ∨
      Delivered cables program body h i j route t' := by
  obtain ⟨rfl, rfl⟩ := under.eq_of_arrives settled.plugged arrives
  by_cases here : a.port.node = j
  · exact .inr (under.delivers seen settled leads same arrives here)
  · exact .inl (under.goes_on seen settled leads same arrives here)

/-- From the time a packet was sent, its copy is under way on the route or was delivered. -/
theorem underWay_or_delivered (seen : Header.peek body = .ok h) (settled : Settled nodes cables)
    (leads : Leads nodes cables h j route)
    (same : ∀ i, (before.nodes i).bearings = (nodes i).bearings)
    (begin : ∃ p q, UnderWay cables body h i route before p q)
    (run : ReflTransGen (Step cables program body h) before after) :
    (∃ p q, UnderWay cables body h i route after p q) ∨
      Delivered cables program body h i j route after := by
  refine run_induction
    (P := fun t => (∃ p q, UnderWay cables body h i route t p q) ∨
      Delivered cables program body h i j route t)
    seen settled.linked same (fun t t' so_far rests => ?_) (fun t t' u a same so_far arrives => ?_)
    (.inl begin) run
  · exact so_far.imp (fun ⟨p, q, under⟩ => ⟨p, q, under.rests rests⟩) fun done => done.rests rests
  · rcases so_far with ⟨p, q, under⟩ | done
    · exact under.arrives seen settled leads same arrives
    · have pos := arrives.load_pos
      rw [done.load u _ arrives.facing] at pos
      exact absurd pos (Nat.lt_irrefl 0)

/-! ## From one node to another -/

/-- A node sends a packet where its header says. -/
def send (t : Traffic ι σ α) (i : ι) (packet : Packet) (priority : Bool) : Traffic ι σ α :=
  t.setNode i ((t.nodes i).sendPacket packet priority).2

/-- When a node has sent a packet, a copy is under way on the first hop of the route. -/
theorem underWay_send {packet : Packet} (single : packet.header.delivery = .single)
    (written : packet.encode = .ok body) {priority : Bool} {count : Nat}
    (no_arrivals : before.arrivals = [])
    (none_under_way : ∀ p q, Facing cables p q → before.load body p q = 0)
    (sent : ((before.nodes i).sendPacket packet priority).1 = .ok count) {ahead : List ι}
    (hop : NextHop before.nodes cables packet.header.dest i j) :
    ∃ p q, UnderWay cables body packet.header i (i :: j :: ahead)
      (before.send i packet priority) p q := by
  obtain ⟨p, q, facing, rfl, rfl, route⟩ := hop
  have trail : (before.send p.node packet priority).trail p.node = [p.node] := by
    simp only [Traffic.trail, send, setNode, no_arrivals, List.map_nil]
  refine ⟨p, q, facing, ?_, ⟨ahead, ?_⟩, fun a arrived => ?_, fun u w facing' => ?_⟩
  · rw [trail, List.getLast?_singleton]
  · rw [trail, List.singleton_append]
  · exact absurd (no_arrivals ▸ arrived) List.not_mem_nil
  · have more := fun k => Node.copies_sendPacket (k := k) written single route sent
    rw [send, load_setNode more, none_under_way u w facing', Nat.zero_add, count_link]

/-- Take a settled mesh, a node and a packet for one node of which no copy is under way.  If the
destination is joined with the node and no queue refuses the packet, it takes a shortest walk on
which each node sends it along its own route.  At any time a single copy is under way on that
walk, and the nodes where it arrived forwarded it and did nothing else.  Or it was delivered at the
end of the walk after as many hops as the destination is away: there it was handled once, and the
nodes in between only forwarded it.  If no node of that id is joined with the node, nothing is
sent. -/
theorem unicast_shortest (settled : Settled before.nodes cables) (i : ι) {packet : Packet}
    (single : packet.header.delivery = .single) (written : packet.encode = .ok body)
    (priority : Bool) (no_arrivals : before.arrivals = [])
    (none_under_way : ∀ p q, Facing cables p q → before.load body p q = 0) :
    (∀ j, j ≠ i → (graph cables).Reachable i j → (before.nodes j).id = packet.header.dest →
      ∀ count, ((before.nodes i).sendPacket packet priority).1 = .ok count →
      ∃ walk : (graph cables).Walk i j, walk.length = (graph cables).dist i j ∧
        walk.support.IsChain (NextHop before.nodes cables packet.header.dest) ∧
        ∀ (program : Program σ α) (after : Traffic ι σ α),
          ReflTransGen (Step cables program body packet.header)
            (before.send i packet priority) after →
          (∃ p q, UnderWay cables body packet.header i walk.support after p q) ∨
            (Delivered cables program body packet.header i j walk.support after ∧
              after.arrivals.length = (graph cables).dist i j)) ∧
    ((∀ j, (graph cables).Reachable i j → (before.nodes j).id ≠ packet.header.dest) →
      (before.nodes i).sendPacket packet priority = (.ok 0, before.nodes i)) := by
  refine ⟨fun j ne joined dest count sent => ?_, fun absent =>
    settled.sendPacket_unreachable single absent priority⟩
  obtain ⟨walk, length, chain⟩ := settled.exists_walk joined
  rw [dest] at chain
  refine ⟨walk, length, chain, fun program after run => ?_⟩
  have last : walk.support.getLast? = some j := by
    rw [List.getLast?_eq_some_getLast (SimpleGraph.Walk.support_ne_nil walk),
      SimpleGraph.Walk.getLast_support]
  have leads : Leads before.nodes cables packet.header j walk.support :=
    ⟨single, dest.symm, chain, last⟩
  have same : ∀ k, ((before.send i packet priority).nodes k).bearings =
      (before.nodes k).bearings :=
    bearings_update (Node.feeds_sendPacket (settled.nodup i) packet priority).bearings
  have begin : ∃ p q, UnderWay cables body packet.header i walk.support
      (before.send i packet priority) p q := by
    cases walk with
    | nil => exact absurd rfl ne
    | cons adj rest =>
        rw [SimpleGraph.Walk.support_cons, ← SimpleGraph.Walk.cons_tail_support rest] at chain ⊢
        exact underWay_send single written no_arrivals none_under_way sent
          (List.isChain_cons_cons.mp chain).1
  have seen := Packet.peek_of_encode written
  refine (underWay_or_delivered seen settled leads same begin run).imp_right fun done => ⟨done, ?_⟩
  have count := congrArg List.length done.trail
  rw [SimpleGraph.Walk.length_support, length, Traffic.trail, List.length_cons,
    List.length_map] at count
  omega

/-- A text from the first of three nodes to the third. -/
def letter : Packet := .single 1 3 "hi"

/-- The letter as bytes. -/
def letterBytes : Bytes := [9, 0, 1, 0, 3, 0, 0, 0, 1, 0, 0, 0, 2, 0, 104, 105]

/-- The letter goes to the second node and then to the third. -/
theorem exists_run_letter : ∃ after,
    ReflTransGen (Step Mesh.trioCables (.idle _ _) letterBytes letter.header)
      (trio.send 0 letter false) after ∧ after.trail 0 = [0, 1, 2] ∧
      ∀ p q, Facing Mesh.trioCables p q → after.load letterBytes p q = 0 := by
  obtain ⟨first, second⟩ := Mesh.facing_trio
  have read : Packet.decode letterBytes = .ok letter := by decide +kernel
  have there := run_hop (t := trio.send 0 letter false) first read (.inl rfl) (by decide +kernel)
    (by decide +kernel)
  have on := run_hop (t := (trio.send 0 letter false).hop letterBytes ⟨0, ⟨1⟩⟩ ⟨1, ⟨1⟩⟩) second
    read (.inl rfl) (by decide +kernel) (by decide +kernel)
  refine ⟨_, there.trans on, by decide +kernel, fun p q facing => ?_⟩
  exact Mesh.forall_facing (P := fun p q => load letterBytes (hop _ _ _ _) p q = 0)
    (by decide +kernel) facing

/-- The letter is forwarded by the second node and handled by the third, so its destination is two
hops away. -/
theorem unicast_shortest_trio : ∃ after,
    ReflTransGen (Step Mesh.trioCables (.idle _ _) letterBytes letter.header)
      (trio.send 0 letter false) after ∧
      Delivered Mesh.trioCables (.idle _ _) letterBytes letter.header 0 2 [0, 1, 2] after ∧
      (graph Mesh.trioCables).dist 0 2 = 2 := by
  have written : letter.encode = .ok letterBytes := by decide +kernel
  have none_under_way := load_trio letterBytes (by decide +kernel)
  have dest : (trio.nodes 2).id = letter.header.dest := by decide +kernel
  have sent : ((trio.nodes 0).sendPacket letter false).1 = .ok 1 := by decide +kernel
  obtain ⟨after, run, trail, empty⟩ := exists_run_letter
  obtain ⟨arrives, -⟩ := unicast_shortest settled_trio 0 rfl written false rfl none_under_way
  obtain ⟨walk, -, -, runs⟩ := arrives 2 (by decide) (Mesh.preconnected_trio 0 2) dest 1 sent
  refine ⟨after, run, ?_⟩
  rcases runs _ after run with ⟨p, q, under⟩ | ⟨done, hops⟩
  · have one := under.load p q under.facing
    rw [empty p q under.facing, if_pos rfl] at one
    cases one
  · have length := congrArg List.length trail
    rw [Traffic.trail, List.length_cons, List.length_map, hops] at length
    exact ⟨trail ▸ done.trail ▸ done, Nat.succ_inj.mp length⟩

end Traffic

end SpanningMesh
