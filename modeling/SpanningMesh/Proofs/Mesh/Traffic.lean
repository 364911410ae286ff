import Mathlib.Data.Fin.VecNotation
import SpanningMesh.Proofs.Mesh.Settled
import SpanningMesh.Proofs.Node.Copies

/-!
# The traffic of a packet

`Traffic` follows the copies of one packet through a mesh whose links stay as they are.
It has the nodes, the frames that travel to each port, and the copies that arrived so far.
An `Arrival` holds the node before a copy arrived there and the one that routing the copy made of
it.  So what a node did with a copy is read off these two: it `Forwarded` it along its own route, or
it sent it on through some links and `Handled` it.

A `Step` is one thing that can happen.  The next frame that waits on a link leaves.  The
first frame that travels to a port is a copy and arrives, and the node routes it.  Anything
else happens aside.  A step aside may change the nodes and what travels at will, other
packets included, as long as the bearings of the nodes and the copies stay as they are.
Nodes act in any order.

No queue refuses a copy.  Where a node handles one, the handlers leave the links as they are
and do not send the packet again.  Where a copy goes is left to the node.

All that matters of a step is its effect on the *load* of each direction of each cable, the
number of copies that wait at one end or travel to the other (`Step.effect`).
-/

namespace SpanningMesh

open Application (Program)
open Relation (ReflTransGen)

/-! ## Links and cables -/

theorem Port.eq_iff {ι : Type} {p q : Port ι} : p = q ↔ p.node = q.node ∧ p.link = q.link := by
  cases p
  cases q
  simp

/-- A copy that waits on one link waits at one port. -/
theorem count_link {ι : Type} [DecidableEq ι] (p q : Port ι) :
    (if p.node = q.node then [q.link].count p.link else 0) = if p = q then 1 else 0 := by
  rw [List.count_singleton]
  by_cases here : p.node = q.node
  · simp only [Port.eq_iff, here, beq_iff_eq, @eq_comm _ q.link, true_and, if_true]
  · simp only [Port.eq_iff, here, false_and, if_false]

section

variable {ι σ α : Type} {cables : Set (Cable ι)} {nodes nodes' : ι → Node σ α}

/-- Every link of a node belongs to a cable, and every port of a cable is an open link. -/
structure Linked (nodes : ι → Node σ α) (cables : Set (Cable ι)) : Prop where
  nodup : ∀ i, (nodes i).linkIds.Nodup
  plugged : Plugged cables
  wired : ∀ i, ∀ k ∈ (nodes i).linkIds, ∃ q, Facing cables ⟨i, k⟩ q
  opened : ∀ p q, Facing cables p q → p.link ∈ (nodes p.node).linkIds

theorem Linked.of_bearings (linked : Linked nodes cables)
    (same : ∀ i, (nodes' i).bearings = (nodes i).bearings) : Linked nodes' cables := by
  have linkIds := fun i => Node.linkIds_of_bearings (same i)
  refine ⟨fun i => ?_, linked.plugged, fun i k hk => ?_, fun p q facing => ?_⟩
  · exact linkIds i ▸ linked.nodup i
  · exact linked.wired i k (linkIds i ▸ hk)
  · exact linkIds p.node ▸ linked.opened p q facing

/-- In a settled mesh every link belongs to a cable. -/
theorem Settled.linked (settled : Settled nodes cables) : Linked nodes cables where
  nodup := settled.nodup
  plugged := settled.plugged
  wired := by
    intro i k hk
    obtain ⟨l, hl, rfl⟩ := List.mem_map.mp hk
    exact settled.wired i l hl
  opened := by
    intro p q facing
    obtain ⟨l, hl, id, -⟩ := settled.exists_link facing
    exact id ▸ List.mem_map_of_mem hl

end

/-! ## A frame leaves a node -/

/-- A frame that departs waited on the link before. -/
theorem Link.copies_depart {frame : Bytes} {l l' : Link} (h : l.depart = some (frame, l'))
    (body : Bytes) :
    l.outbox.copies body = l'.outbox.copies body + [frame].countP (Frame.carries body) := by
  obtain ⟨⟨f, q⟩, started, same⟩ := Option.map_eq_some_iff.mp h
  cases same
  obtain ⟨id, station, ⟨maxPending, minFree, current, express, regular⟩, _⟩ := l
  simp only [Outbox.start] at started
  cases current with
  | some f =>
      cases started
      simp [Outbox.copies, Outbox.frames, Outbox.advance, List.countP_cons]
  | none =>
      cases express with
      | cons f rest =>
          cases started
          simp [Outbox.copies, Outbox.frames, Outbox.advance, List.countP_cons]
      | nil =>
          cases regular with
          | cons f rest =>
              cases started
              simp [Outbox.copies, Outbox.frames, Outbox.advance, List.countP_cons]
          | nil => cases started

theorem Link.same_of_depart {frame : Bytes} {l l' : Link} (h : l.depart = some (frame, l')) :
    l'.id = l.id ∧ l'.phase = l.phase ∧ l'.subtree = l.subtree := by
  obtain ⟨⟨f, q⟩, -, same⟩ := Option.map_eq_some_iff.mp h
  cases same
  exact ⟨rfl, rfl, rfl⟩

namespace Node

variable {σ α : Type} {n : Node σ α} {id k : LinkId} {l l' : Link} {body frame : Bytes}

/-- A link that keeps its phase and its tree leaves the bearings of its node as they are. -/
theorem bearings_putLink (hn : n.linkIds.Nodup) (hl : n.link? id = some l) (hid : l'.id = l.id)
    (phase : l'.phase = l.phase) (tree : l'.subtree = l.subtree) :
    (n.putLink l').bearings = n.bearings := by
  refine Prod.ext (view_putLink_of_subtree_eq hn hl hid tree) ?_
  simp only [bearings, putLink, List.map_map]
  refine List.map_congr_left fun k hk => ?_
  by_cases same : k.id = l'.id
  · obtain rfl := eq_of_id_eq hn hk (mem_links_of_link? hl) (same.trans hid)
    simp [same, phase]
  · simp [same]

end Node

/-! ## Steps -/

/-- A copy that arrived at a port, with the time stamp that it had, and its node before and after
the copy was routed. -/
structure Arrival (ι σ α : Type) where
  port : Port ι
  stamp : UInt32
  before : Node σ α
  after : Node σ α

namespace Arrival

variable {ι σ α : Type} [Host σ]

/-- The node counted the copy and sent it on through the link that its own route leads through.
That is all it did. -/
def Forwarded (body : Bytes) (h : Header) (a : Arrival ι σ α) : Prop :=
  ∃ k, a.before.view.routeTo h.dest = some k ∧
    a.after = (a.before.counted h).forwardFrame [k] body

/-- The node counted the copy, sent it on through some links and handled it after that, once.
That is all it did. -/
def Handled (program : Program σ α) (body : Bytes) (h : Header) (through : List LinkId)
    (a : Arrival ι σ α) : Prop :=
  a.after =
    ((a.before.counted h).forwardFrame through body).handleFrame program a.port.link body a.stamp

end Arrival

/-- Nodes, the frames that travel to each port, and the copies of a packet that arrived. -/
structure Traffic (ι σ α : Type) where
  nodes : ι → Node σ α
  transit : Port ι → List Bytes := fun _ => []
  /-- The copies that arrived, in order. -/
  arrivals : List (Arrival ι σ α) := []

namespace Traffic

variable {ι σ α : Type} [DecidableEq ι] {cables : Set (Cable ι)} {program : Program σ α}
  {body : Bytes} {h : Header} {t t' before after : Traffic ι σ α} {p q u w : Port ι} {i : ι}
  {nodes : ι → Node σ α} {n : Node σ α}

/-- Put another node in the place of one. -/
def setNode (t : Traffic ι σ α) (i : ι) (n : Node σ α) : Traffic ι σ α :=
  { t with nodes := Function.update t.nodes i n }

/-- Put other frames on the way to a port. -/
def setTransit (t : Traffic ι σ α) (q : Port ι) (frames : List Bytes) : Traffic ι σ α :=
  { t with transit := Function.update t.transit q frames }

/-- Send the next frame that waits on a link to the port that it faces. -/
def leave (t : Traffic ι σ α) (p q : Port ι) : Traffic ι σ α :=
  match ((t.nodes p.node).link? p.link).bind Link.depart with
  | some (frame, l) =>
      (t.setNode p.node ((t.nodes p.node).putLink l)).setTransit q (t.transit q ++ [frame])
  | none => t

variable [Host σ]

/-- Let a copy arrive that is the first to travel to a port. -/
def arrive (program : Program σ α) (body : Bytes) (t : Traffic ι σ α) (q : Port ι)
    (stamp : UInt32) : Traffic ι σ α :=
  let routed := (t.nodes q.node).routeFrame program q.link body stamp
  { nodes := Function.update t.nodes q.node routed
    transit := Function.update t.transit q (t.transit q).tail
    arrivals := t.arrivals ++ [⟨q, stamp, t.nodes q.node, routed⟩] }

/-- Something that can happen while a packet with a body and a header is on its way. -/
inductive Step (cables : Set (Cable ι)) (program : Program σ α) (body : Bytes) (h : Header)
    (t : Traffic ι σ α) : Traffic ι σ α → Prop where
  /-- Something happens that does not concern the packet. -/
  | aside {nodes : ι → Node σ α} {transit : Port ι → List Bytes} :
      (∀ i, (nodes i).bearings = (t.nodes i).bearings) →
      (∀ i k, (nodes i).copies body k = (t.nodes i).copies body k) →
      (∀ q, (transit q).countP (Frame.carries body) =
        (t.transit q).countP (Frame.carries body)) →
      Step cables program body h t { t with nodes, transit }
  /-- The next frame that waits on a link leaves. -/
  | leave {p q : Port ι} : Facing cables p q → Step cables program body h t (t.leave p q)
  /-- The first frame that travels to a port is a copy and arrives.  No queue that it is meant for
  is full, and if it is handled, then quietly. -/
  | arrive {p q : Port ι} {stamp : UInt32} :
      Facing cables p q →
      (t.transit q).head?.any (Frame.carries body) = true →
      (t.nodes q.node).PassesOn q.link body h →
      ((t.nodes q.node).takesIn h = true →
        ((t.nodes q.node).passOn q.link body h).Quiet program q.link body stamp) →
      Step cables program body h t (t.arrive program body q stamp)

/-! ## What a step does to the load -/

omit [DecidableEq ι] [Host σ]

/-- How many copies wait at a port or travel to the one it faces. -/
def load (body : Bytes) (t : Traffic ι σ α) (p q : Port ι) : Nat :=
  (t.nodes p.node).copies body p.link + (t.transit q).countP (Frame.carries body)

/-- No copy arrived, and the copies are where they were, or nearer to where they go. -/
structure Rests (cables : Set (Cable ι)) (body : Bytes) (t t' : Traffic ι σ α) : Prop where
  load : ∀ u w, Facing cables u w → t'.load body u w = t.load body u w
  arrivals : t'.arrivals = t.arrivals

variable [DecidableEq ι]

/-- A copy arrived from a port at the one that it faces, and was routed there. -/
structure Arrives [Host σ] (cables : Set (Cable ι)) (program : Program σ α) (body : Bytes)
    (h : Header) (t t' : Traffic ι σ α) (p : Port ι) (a : Arrival ι σ α) : Prop where
  facing : Facing cables p a.port
  before : a.before = t.nodes a.port.node
  after : a.after = a.before.routeFrame program a.port.link body a.stamp
  load_pos : 0 < t.load body p a.port
  load : ∀ u w, Facing cables u w →
    t'.load body u w + (if w = a.port then 1 else 0) =
      t.load body u w +
        if u.node = a.port.node then (a.before.onward a.port.link h).count u.link else 0
  arrivals : t'.arrivals = t.arrivals ++ [a]

theorem bearings_update (same : n.bearings = (nodes i).bearings) (k : ι) :
    (Function.update nodes i n k).bearings = (nodes k).bearings := by
  by_cases hk : k = i
  · rw [hk, Function.update_self, same]
  · rw [Function.update_of_ne hk]

theorem copies_update {added : LinkId → Nat}
    (more : ∀ k, n.copies body k = (nodes i).copies body k + added k) (p : Port ι) :
    (Function.update nodes i n p.node).copies body p.link =
      (nodes p.node).copies body p.link + if p.node = i then added p.link else 0 := by
  by_cases hp : p.node = i
  · rw [hp, Function.update_self, more, if_pos rfl]
  · rw [Function.update_of_ne hp, if_neg hp, Nat.add_zero]

/-- The copies that a node lets wait add to the load. -/
theorem load_setNode {added : LinkId → Nat}
    (more : ∀ k, n.copies body k = (t.nodes i).copies body k + added k) (p q : Port ι) :
    (t.setNode i n).load body p q =
      t.load body p q + if p.node = i then added p.link else 0 := by
  simp only [load, setNode]
  rw [copies_update more]
  omega

omit [DecidableEq ι] in
theorem Rests.refl (cables : Set (Cable ι)) (body : Bytes) (t : Traffic ι σ α) :
    Rests cables body t t :=
  ⟨fun _ _ _ => rfl, rfl⟩

/-- A frame that leaves is still on its way between the same two ports. -/
theorem rests_leave (linked : Linked t.nodes cables) (facing : Facing cables p q) :
    Rests cables body t (t.leave p q) := by
  unfold leave
  split
  next frame l' found =>
    obtain ⟨l, hl, departs⟩ := Option.bind_eq_some_iff.mp found
    refine ⟨fun u w facing' => ?_, rfl⟩
    have left := Link.copies_depart departs body
    have waits : (t.nodes p.node).copies body p.link = l.outbox.copies body := by
      simp [Node.copies, hl]
    have put : ∀ k, ((t.nodes p.node).putLink l').copies body k =
        if k = p.link then l'.outbox.copies body else (t.nodes p.node).copies body k :=
      fun k => Node.copies_putLink hl (Link.same_of_depart departs).1
    simp only [Traffic.load, setTransit, setNode]
    by_cases hu : u = p
    · subst hu
      obtain rfl := facing.unique linked.plugged facing'
      rw [Function.update_self, Function.update_self, put, if_pos rfl, List.countP_append, waits]
      omega
    · have hw : w ≠ q := by
        rintro rfl
        exact hu (facing'.symm.unique linked.plugged facing.symm)
      rw [Function.update_of_ne hw]
      by_cases hn : u.node = p.node
      · have hk : u.link ≠ p.link := fun same => hu (Port.eq_iff.mpr ⟨hn, same⟩)
        rw [hn, Function.update_self, put, if_neg hk]
      · rw [Function.update_of_ne hn]
  next => exact .refl cables body t

/-- The bearings of a node do not depend on what it sends. -/
theorem bearings_leave (linked : Linked t.nodes cables) (p q : Port ι) (i : ι) :
    ((t.leave p q).nodes i).bearings = (t.nodes i).bearings := by
  unfold leave
  split
  next frame l' found =>
    obtain ⟨l, hl, departs⟩ := Option.bind_eq_some_iff.mp found
    obtain ⟨id, phase, tree⟩ := Link.same_of_depart departs
    exact bearings_update (Node.bearings_putLink (linked.nodup p.node) hl id phase tree) i
  next => rfl

/-- A copy that arrives is taken off its way and put on the way through the links that it goes on
through. -/
theorem arrives_arrive [Host σ] {stamp : UInt32} (seen : Header.peek body = .ok h)
    (facing : Facing cables p q) (copy : (t.transit q).head?.any (Frame.carries body) = true)
    (passes : (t.nodes q.node).PassesOn q.link body h)
    (quiet : (t.nodes q.node).takesIn h = true →
      ((t.nodes q.node).passOn q.link body h).Quiet program q.link body stamp) :
    Arrives cables program body h t (t.arrive program body q stamp) p
      ⟨q, stamp, t.nodes q.node, (t.nodes q.node).routeFrame program q.link body stamp⟩ := by
  have before : (t.transit q).countP (Frame.carries body) =
      (t.transit q).tail.countP (Frame.carries body) + 1 := by
    cases travels : t.transit q with
    | nil => simp [travels] at copy
    | cons frame rest =>
        have first : Frame.carries body frame = true := by simpa [travels] using copy
        rw [List.countP_cons, if_pos first, List.tail_cons]
  refine ⟨facing, rfl, rfl, ?_, fun u w facing' => ?_, rfl⟩
  · rw [Traffic.load, before]
    omega
  · have waits : ((t.arrive program body q stamp).nodes u.node).copies body u.link =
        (t.nodes u.node).copies body u.link +
          if u.node = q.node then ((t.nodes q.node).onward q.link h).count u.link else 0 :=
      copies_update (fun k => Node.copies_routeFrame seen passes quiet) u
    have travel : ((t.arrive program body q stamp).transit w).countP (Frame.carries body) +
        (if w = q then 1 else 0) = (t.transit w).countP (Frame.carries body) := by
      simp only [arrive]
      by_cases hw : w = q
      · rw [hw, Function.update_self, if_pos rfl, before]
      · rw [Function.update_of_ne hw, if_neg hw, Nat.add_zero]
    show _ + (if w = q then 1 else 0) = _ +
      if u.node = q.node then ((t.nodes q.node).onward q.link h).count u.link else 0
    rw [Traffic.load, Traffic.load, waits]
    omega

/-- A step leaves the bearings of all nodes as they are.  It moves no copy from one cable to
another, or a single copy arrives and is routed. -/
theorem Step.effect [Host σ] (seen : Header.peek body = .ok h) (linked : Linked t.nodes cables)
    (step : Step cables program body h t t') :
    (∀ i, (t'.nodes i).bearings = (t.nodes i).bearings) ∧
      (Rests cables body t t' ∨ ∃ p a, Arrives cables program body h t t' p a) := by
  cases step with
  | aside bearings copies travel =>
      refine ⟨bearings, .inl ⟨fun u w _ => ?_, rfl⟩⟩
      simp only [load, copies, travel]
  | @leave p q facing => exact ⟨bearings_leave linked p q, .inl (rests_leave linked facing)⟩
  | @arrive p q stamp facing copy passes quiet =>
      have bearings := Node.bearings_routeFrame (linked.nodup q.node) seen quiet
      exact ⟨bearings_update bearings,
        .inr ⟨p, _, arrives_arrive seen facing copy passes quiet⟩⟩

/-- What stays true when no copy arrives and when one does, a run keeps.  All along the nodes
have the bearings that they had. -/
theorem run_induction [Host σ] {P : Traffic ι σ α → Prop} (seen : Header.peek body = .ok h)
    (linked : Linked nodes cables) (same : ∀ i, (before.nodes i).bearings = (nodes i).bearings)
    (rests : ∀ t t', P t → Rests cables body t t' → P t')
    (arrives : ∀ t t' p a, (∀ i, (t.nodes i).bearings = (nodes i).bearings) → P t →
      Arrives cables program body h t t' p a → P t')
    (begin : P before) (run : ReflTransGen (Step cables program body h) before after) :
    P after := by
  suffices all : (∀ i, (after.nodes i).bearings = (nodes i).bearings) ∧ P after from all.2
  induction run with
  | refl => exact ⟨same, begin⟩
  | tail _ step ih =>
      obtain ⟨same, holds⟩ := ih
      obtain ⟨same', effect⟩ := step.effect seen (linked.of_bearings same)
      refine ⟨fun i => (same' i).trans (same i), ?_⟩
      rcases effect with rest | ⟨p, a, arrive⟩
      · exact rests _ _ holds rest
      · exact arrives _ _ p a same holds arrive

/-! ## What is done with a copy that arrives -/

section

variable [Host σ] {a : Arrival ι σ α}

/-- A copy for another node is forwarded along the route to it. -/
theorem Arrives.forwarded {k : LinkId} (seen : Header.peek body = .ok h)
    (single : h.delivery = .single) (other : h.dest ≠ a.before.id)
    (route : a.before.view.routeTo h.dest = some k)
    (arrives : Arrives cables program body h t t' p a) : a.Forwarded body h := by
  have not_mine : ¬ a.before.takesIn h = true := mt (Node.takesIn_single single).mp other
  refine ⟨k, route, ?_⟩
  rw [arrives.after, Node.routeFrame_eq program seen, if_neg not_mine, Node.passOn,
    Node.onward_single single, if_neg other, route, Option.toList_some]

/-- A copy for the node that it reaches is handled there and goes no further. -/
theorem Arrives.handled_single (seen : Header.peek body = .ok h) (single : h.delivery = .single)
    (mine : h.dest = a.before.id) (arrives : Arrives cables program body h t t' p a) :
    a.Handled program body h [] := by
  rw [Arrival.Handled, arrives.after, Node.routeFrame_eq program seen,
    if_pos ((Node.takesIn_single single).mpr mine), Node.passOn, Node.onward_single single,
    if_pos mine]

/-- A copy of a broadcast packet goes on through all links but its own, and is handled. -/
theorem Arrives.handled_broadcast (seen : Header.peek body = .ok h)
    (broadcast : h.delivery = .broadcast) (arrives : Arrives cables program body h t t' p a) :
    a.Handled program body h (a.before.fanOut .broadcast (some a.port.link)) := by
  rw [Arrival.Handled, arrives.after, Node.routeFrame_eq program seen,
    if_pos (Node.takesIn_broadcast broadcast), Node.passOn, Node.onward_broadcast broadcast]

end

end Traffic

/-! ## Three settled nodes -/

namespace Mesh

/-- Three nodes without links, with the ids 1, 2 and 3. -/
def trio : Mesh (Fin 3) (Outlets Unit) where
  nodes i := .create (if i = 0 then 1 else if i = 1 then 2 else 3) {} { application := () }

theorem fresh_trio : trio.Fresh where
  cables := rfl
  links _ := rfl
  transit _ := rfl
  ids_ne := by decide
  ids_inj := by decide

/-- A node asks the neighbour of a link for its tree, and the neighbour answers. -/
def talk (p q : Port (Fin 3)) : List (Move (Fin 3)) :=
  [.exchange p, .leave p, .deliver q, .leave q, .deliver p]

/-- The second node is linked with the others, and they talk until nothing is new. -/
def settleTrio : List (Move (Fin 3)) :=
  [.connect 0 1, .connect 1 2] ++ talk ⟨0, ⟨1⟩⟩ ⟨1, ⟨1⟩⟩ ++ talk ⟨1, ⟨2⟩⟩ ⟨2, ⟨1⟩⟩ ++
    talk ⟨1, ⟨1⟩⟩ ⟨0, ⟨1⟩⟩

/-- The cables of the three nodes. -/
def trioCables : Set (Cable (Fin 3)) := (trio.run settleTrio).cableSet

/-- After the run every node knows the whole row. -/
theorem settled_trio : Settled (trio.run settleTrio).nodes trioCables :=
  (fresh_trio.run settleTrio).settled fresh_trio.ids_inj fresh_trio.ids_ne (by decide +kernel)
    (by decide +kernel)

theorem cables_trio : (trio.run settleTrio).cables =
    [⟨⟨0, ⟨1⟩⟩, ⟨1, ⟨1⟩⟩⟩, ⟨⟨1, ⟨2⟩⟩, ⟨2, ⟨1⟩⟩⟩] := by
  decide +kernel

theorem facing_trio :
    Facing trioCables ⟨0, ⟨1⟩⟩ ⟨1, ⟨1⟩⟩ ∧ Facing trioCables ⟨1, ⟨2⟩⟩ ⟨2, ⟨1⟩⟩ := by
  have mem : ∀ c, c ∈ (trio.run settleTrio).cables → c ∈ trioCables := fun _ hc => hc
  rw [cables_trio] at mem
  exact ⟨⟨_, mem _ List.mem_cons_self, .inl ⟨rfl, rfl⟩⟩,
    ⟨_, mem _ (List.mem_cons_of_mem _ List.mem_cons_self), .inl ⟨rfl, rfl⟩⟩⟩

theorem preconnected_trio : (graph trioCables).Preconnected := by
  obtain ⟨⟨c, hc, first⟩, ⟨d, hd, second⟩⟩ := facing_trio
  have joined : ∀ i, (graph trioCables).Reachable 1 i
    | 0 => (reachable_of_ends hc first.ends_eq).symm
    | 1 => .refl 1
    | 2 => reachable_of_ends hd second.ends_eq
  exact fun i j => (joined i).symm.trans (joined j)

end Mesh

namespace Traffic

/-- The traffic of a mesh before a packet is sent. -/
def ofMesh {ι σ : Type} (m : Mesh ι σ) : Traffic ι σ Empty where
  nodes := m.nodes
  transit := m.transit

theorem nodes_ofMesh {ι σ : Type} (m : Mesh ι σ) : (ofMesh m).nodes = m.nodes := rfl

/-- The traffic of three settled nodes before a packet is sent. -/
def trio : Traffic (Fin 3) (Outlets Unit) Empty := ofMesh (Mesh.trio.run Mesh.settleTrio)

theorem settled_trio : Settled trio.nodes Mesh.trioCables := by
  rw [trio, nodes_ofMesh]
  exact Mesh.settled_trio

/-- No copies are on their way in the row. -/
theorem load_trio (body : Bytes) (empty : ∀ c ∈ (Mesh.trio.run Mesh.settleTrio).cables,
      trio.load body c.dialer c.accepter = 0 ∧ trio.load body c.accepter c.dialer = 0)
    (p q : Port (Fin 3)) (facing : Facing Mesh.trioCables p q) : trio.load body p q = 0 :=
  Mesh.forall_facing (P := fun p q => trio.load body p q = 0) empty facing

section

variable {ι σ : Type} [DecidableEq ι] [Host σ] {cables : Set (Cable ι)} {body : Bytes}
  {t : Traffic ι σ Empty} {p q : Port ι} {packet : Packet} {sender : UInt32} {text : String}

/-- Send the next frame that waits on a link, and let it arrive at once. -/
def hop (body : Bytes) (t : Traffic ι σ Empty) (p q : Port ι) : Traffic ι σ Empty :=
  (t.leave p q).arrive (.idle σ Empty) body q 0

/-- Without applications, a text that is next to leave can make a hop if no queue refuses it. -/
theorem run_hop (facing : Facing cables p q) (read : Packet.decode body = .ok packet)
    (carries : packet.payload = .single sender text ∨ packet.payload = .broadcast sender text)
    (copy : ((t.leave p q).transit q).head?.any (Frame.carries body) = true)
    (passes : ((t.leave p q).nodes q.node).PassesOn q.link body packet.header) :
    ReflTransGen (Step cables (.idle σ Empty) body packet.header) t (t.hop body p q) :=
  .tail (.single (.leave facing))
    (.arrive facing copy passes fun _ => Node.quiet_text read carries 0)

end

end Traffic

end SpanningMesh
