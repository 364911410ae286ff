import SpanningMesh.Network.Outlets
import SpanningMesh.Proofs.Mesh.Coherence

/-!
# Which links survive

A node closes a link when the tree that comes through it may not hang there.  That is
how a mesh gets rid of circles.  It never happens on a bridge, whatever the order of
moves.  So nodes that are joined by bridges stay joined (`joined_of_bridges`), and in a
forest no tree is rejected and all links stay open (`admitted_of_forest`).

Off the bridges more may be closed than is good.  Two nodes that open a link to each
other at the same time may each accept the first tree through its own link.  Then each
rejects what comes through the link of the other, and both links are gone
(`crossed_cables_closed`).
-/

namespace SpanningMesh

namespace Mesh

variable {ι σ : Type} [DecidableEq ι] [Host σ] {m : Mesh ι σ}

theorem Fresh.run (new : m.Fresh) (moves : List (Move ι)) :
    Coherent (fun i => (m.nodes i).id) (m.run moves) :=
  new.coherent.run new.ids_inj new.ids_ne moves

omit [DecidableEq ι] [Host σ] in
/-- Over a bridge every tree on its way is admitted. -/
theorem Coherent.admitted {ids : ι → UInt32} (inj : ids.Injective) (ne : ∀ i, ids i ≠ 0)
    (h : Coherent ids m) {q : Port ι} {f : Bytes} (hf : f ∈ m.transit q)
    (bridges : ∀ c ∈ m.cableSet, Bridge m.cableSet c) {packet : Packet} {sender : UInt32}
    {tree : Tree} {l : Link} (read : Packet.decode (f.drop Frame.lengthSize) = .ok packet)
    (carries : packet.payload = .treeRequest sender tree ∨ packet.payload = .treeReply sender tree)
    (hl : (m.nodes q.node).link? q.link = some l) :
    (m.nodes q.node).checkAnnounced l sender tree = .ok () := by
  obtain ⟨c, hc, p, faces, packet', read', -, truthful⟩ := h.transit q f hf
  obtain rfl : packet = packet' := Except.ok.inj (read.symm.trans read')
  have told : sender = ids p.node ∧ Told ids m.cableSet c p.node tree := by
    rcases carries with carries | carries
    · rw [carries] at truthful
      exact truthful
    · rw [carries] at truthful
      exact truthful
  obtain ⟨rfl, told⟩ := told
  have faces' : c.Faces ⟨q.node, l.id⟩ p := Node.id_of_link? hl ▸ faces
  exact (h.fits q.node).checkAnnounced inj ne h.plugged (Node.mem_links_of_link? hl) hc
    (bridges c hc) faces' told

/-! ## Two nodes -/

/-- Two nodes without links, with the ids 1 and 2. -/
def pair : Mesh (Fin 2) (Outlets Unit) where
  nodes i := .create (if i = 0 then 1 else 2) {} { application := () }

theorem fresh_pair : pair.Fresh where
  cables := rfl
  links _ := rfl
  transit _ := rfl
  ids_ne := by decide
  ids_inj := by decide

/-- The first node connects to the second and asks for its tree. -/
def ask : List (Move (Fin 2)) := [.connect 0 1, .exchange ⟨0, ⟨1⟩⟩, .leave ⟨0, ⟨1⟩⟩]

/-- The frame in which the first node tells its tree. -/
def askFrame : Bytes := [19, 0, 0, 0, 5, 0, 0, 0, 0, 0, 0, 0, 1, 0, 0, 0, 1, 0, 0, 0, 0, 0, 0]

/-- The first node connects to the second, and each tells the other its tree. -/
def settle : List (Move (Fin 2)) :=
  [.connect 0 1, .exchange ⟨0, ⟨1⟩⟩, .leave ⟨0, ⟨1⟩⟩,
    .deliver ⟨1, ⟨1⟩⟩, .leave ⟨1, ⟨1⟩⟩, .deliver ⟨0, ⟨1⟩⟩]

/-- The nodes connect to each other, and each asks the other through its own link. -/
def cross : List (Move (Fin 2)) :=
  [.connect 0 1, .connect 1 0,
    .exchange ⟨0, ⟨1⟩⟩, .exchange ⟨1, ⟨2⟩⟩, .leave ⟨0, ⟨1⟩⟩, .leave ⟨1, ⟨2⟩⟩,
    .deliver ⟨1, ⟨1⟩⟩, .deliver ⟨0, ⟨2⟩⟩, .leave ⟨1, ⟨1⟩⟩, .leave ⟨0, ⟨2⟩⟩,
    .deliver ⟨0, ⟨1⟩⟩, .deliver ⟨1, ⟨2⟩⟩]

/-- The run plugs a single cable. -/
theorem cableSet_ask : (pair.run ask).cableSet = {⟨⟨0, ⟨1⟩⟩, ⟨1, ⟨1⟩⟩⟩} := by
  have cables : (pair.run ask).cables = [⟨⟨0, ⟨1⟩⟩, ⟨1, ⟨1⟩⟩⟩] := by decide +kernel
  ext c
  simp [cableSet, cables]

/-- A single cable between two nodes is a bridge. -/
theorem bridge_ask : ∀ c ∈ (pair.run ask).cableSet, Bridge (pair.run ask).cableSet c := by
  rw [cableSet_ask]
  rintro c rfl joined
  have same : (1 : Fin 2) = 0 := reachable_induction (P := (· = 0)) joined
    (fun c hc => absurd hc.1 hc.2) rfl
  cases same

/-! ## What stays open -/

/-- As long as the cables make a forest, all links stay open and every tree on its way to
an open link will be admitted there. -/
theorem admitted_of_forest (new : m.Fresh) (moves : List (Move ι))
    (forest : Forest (m.run moves).cableSet) :
    (∀ c ∈ (m.run moves).cables, (m.run moves).isOpen c.dialer ∧ (m.run moves).isOpen c.accepter) ∧
      ∀ (q : Port ι) (f : Bytes) (packet : Packet) (sender : UInt32) (tree : Tree) (l : Link),
        f ∈ (m.run moves).transit q →
        Packet.decode (f.drop Frame.lengthSize) = .ok packet →
        (packet.payload = .treeRequest sender tree ∨ packet.payload = .treeReply sender tree) →
        ((m.run moves).nodes q.node).link? q.link = some l →
        ((m.run moves).nodes q.node).checkAnnounced l sender tree = .ok () := by
  have coherent := new.run moves
  have bridges := forest_iff_bridges.mp forest
  constructor
  · intro c hc
    have faces := c.faces_ports
    exact ⟨coherent.bridges c hc (bridges c hc) _ _ faces,
      coherent.bridges c hc (bridges c hc) _ _ faces.symm⟩
  · intro q f packet sender tree l hf read carries hl
    exact coherent.admitted new.ids_inj new.ids_ne hf bridges read carries hl

/-- The tree that the first of two nodes sends to the second is admitted. -/
theorem admitted_of_forest_ask :
    (pair.run ask).transit ⟨1, ⟨1⟩⟩ = [askFrame] ∧
      ∃ l, ((pair.run ask).nodes 1).link? ⟨1⟩ = some l ∧
        ((pair.run ask).nodes 1).checkAnnounced l 1 ⟨1, false, []⟩ = .ok () := by
  have sent : (pair.run ask).transit ⟨1, ⟨1⟩⟩ = [askFrame] := by decide +kernel
  have travels : askFrame ∈ (pair.run ask).transit ⟨1, ⟨1⟩⟩ := by
    rw [sent]
    exact List.mem_singleton.mpr rfl
  have read : Packet.decode (askFrame.drop Frame.lengthSize) =
      .ok (.treeRequest 1 0 ⟨1, false, []⟩) := by decide +kernel
  have there : (((pair.run ask).nodes 1).link? ⟨1⟩).isSome := by decide +kernel
  obtain ⟨l, hl⟩ := Option.isSome_iff_exists.mp there
  have forest := forest_iff_bridges.mpr bridge_ask
  have admitted := (admitted_of_forest fresh_pair ask forest).2 ⟨1, ⟨1⟩⟩ askFrame
    (.treeRequest 1 0 ⟨1, false, []⟩) 1 ⟨1, false, []⟩ l travels read (.inl rfl) hl
  exact ⟨sent, l, hl, admitted⟩

/-- Nodes that are joined by bridges stay joined by cables whose links are open. -/
theorem joined_of_bridges (new : m.Fresh) (moves : List (Move ι)) {i j : ι}
    (joined : (graph
      {c ∈ (m.run moves).cableSet | Bridge (m.run moves).cableSet c}).Reachable i j) :
    (graph (m.run moves).openCables).Reachable i j := by
  have coherent := new.run moves
  refine joined.mono (graph_mono ?_)
  rintro c ⟨hc, bridge⟩
  have faces := c.faces_ports
  exact ⟨hc, coherent.bridges c hc bridge _ _ faces, coherent.bridges c hc bridge _ _ faces.symm⟩

theorem joined_of_bridges_ask : (graph (pair.run ask).openCables).Reachable 0 1 := by
  refine joined_of_bridges fresh_pair ask ?_
  have mem : ⟨⟨0, ⟨1⟩⟩, ⟨1, ⟨1⟩⟩⟩ ∈ (pair.run ask).cableSet := by
    rw [cableSet_ask]
    exact Set.mem_singleton _
  exact reachable_of_ends ⟨mem, bridge_ask _ mem⟩ rfl

omit [DecidableEq ι] [Host σ] in
/-- Where every cable is closed at one end, no two nodes are joined. -/
theorem eq_of_reachable_openCables {i j : ι}
    (closed : ∀ c ∈ m.cables, ¬ (m.isOpen c.dialer ∧ m.isOpen c.accepter))
    (joined : (graph m.openCables).Reachable i j) : j = i :=
  reachable_induction (P := (· = i)) joined (fun c hc => absurd hc.2 (closed c hc.1)) rfl

/-- Two links that were opened to each other at the same time may both be closed. -/
theorem crossed_cables_closed :
    pair.Fresh ∧ (graph (pair.run cross).cableSet).Reachable 0 1 ∧
      ¬ (graph (pair.run cross).openCables).Reachable 0 1 := by
  have cables : (pair.run cross).cables =
      [⟨⟨0, ⟨1⟩⟩, ⟨1, ⟨1⟩⟩⟩, ⟨⟨1, ⟨2⟩⟩, ⟨0, ⟨2⟩⟩⟩] := by decide +kernel
  have mem : ⟨⟨0, ⟨1⟩⟩, ⟨1, ⟨1⟩⟩⟩ ∈ (pair.run cross).cableSet := by
    rw [cableSet, cables]
    exact List.mem_cons_self
  have closed : ∀ c ∈ (pair.run cross).cables,
      ¬ ((pair.run cross).isOpen c.dialer ∧ (pair.run cross).isOpen c.accepter) := by decide +kernel
  refine ⟨fresh_pair, reachable_of_ends mem rfl, fun joined => ?_⟩
  have same : (1 : Fin 2) = 0 := eq_of_reachable_openCables closed joined
  cases same

end Mesh

end SpanningMesh
