import Mathlib.Combinatorics.SimpleGraph.Acyclic
import SpanningMesh.Link.Basic

/-!
# The graph of a mesh

A *cable* is a connection between two ports, and a *port* is a link of a node.  The
nodes at the ends of a cable are its *ends*.  Cables make a graph on the nodes.  The
graph alone does not show cables that run in parallel or from a node to itself, so a
*forest* asks for more than that the graph has no cycle.

A cable is a *bridge* if its ends are not joined without it.  All cables of a forest are
bridges, and where all are bridges there is a forest (`forest_iff_bridges`).
-/

namespace SpanningMesh

/-- A link of a node. -/
structure Port (ι : Type) where
  node : ι
  link : LinkId
deriving DecidableEq, Repr

/-- A connection that one node opened and the other accepted. -/
structure Cable (ι : Type) where
  dialer : Port ι
  accepter : Port ι
deriving DecidableEq, Repr

namespace Cable

variable {ι : Type} {c : Cable ι} {p q : Port ι}

/-- The two nodes that a cable joins. -/
def ends (c : Cable ι) : Sym2 ι := s(c.dialer.node, c.accepter.node)

/-- The two ports of a cable face each other. -/
def Faces (c : Cable ι) (p q : Port ι) : Prop :=
  (c.dialer = p ∧ c.accepter = q) ∨ (c.dialer = q ∧ c.accepter = p)

theorem Faces.symm (h : c.Faces p q) : c.Faces q p := Or.symm h

theorem Faces.ends_eq (h : c.Faces p q) : c.ends = s(p.node, q.node) := by
  rcases h with ⟨rfl, rfl⟩ | ⟨rfl, rfl⟩
  · rfl
  · exact Sym2.eq_swap

theorem faces_ports (c : Cable ι) : c.Faces c.dialer c.accepter := .inl ⟨rfl, rfl⟩

end Cable

variable {ι : Type} {cables more : Set (Cable ι)} {c d : Cable ι} {i j : ι} {p q : Port ι}

/-! ## Cables as a graph -/

/-- The graph of some cables. -/
def graph (cables : Set (Cable ι)) : SimpleGraph ι :=
  SimpleGraph.fromEdgeSet {e | ∃ c ∈ cables, c.ends = e}

theorem graph_adj : (graph cables).Adj i j ↔ (∃ c ∈ cables, c.ends = s(i, j)) ∧ i ≠ j :=
  SimpleGraph.fromEdgeSet_adj _

theorem graph_mono (h : cables ⊆ more) : graph cables ≤ graph more :=
  SimpleGraph.fromEdgeSet_mono fun _ ⟨c, hc, he⟩ => ⟨c, h hc, he⟩

/-- The two ends of a cable are joined. -/
theorem reachable_of_ends (hc : c ∈ cables) (he : c.ends = s(i, j)) :
    (graph cables).Reachable i j := by
  by_cases hij : i = j
  · rw [hij]
  · exact (graph_adj.mpr ⟨⟨c, hc, he⟩, hij⟩).reachable

/-- What holds of a node and passes along every cable holds of all that is joined with the
node. -/
theorem reachable_induction {P : ι → Prop} (h : (graph cables).Reachable i j)
    (pass : ∀ c ∈ cables, ∀ i j, c.ends = s(i, j) → P i → P j) (hi : P i) :
    P j := by
  obtain ⟨walk⟩ := h
  induction walk with
  | nil => exact hi
  | cons adj _ ih =>
      obtain ⟨⟨c, hc, he⟩, -⟩ := graph_adj.mp adj
      exact ih (pass c hc _ _ he hi)

/-! ## Forests and bridges -/

/-- The nodes at the ends of a cable are not joined without it. -/
def Bridge (cables : Set (Cable ι)) (c : Cable ι) : Prop :=
  ¬ (graph (cables \ {c})).Reachable c.dialer.node c.accepter.node

/-- Without a bridge its ends are apart. -/
theorem Bridge.not_reachable (h : Bridge cables c) (he : c.ends = s(i, j)) :
    ¬ (graph (cables \ {c})).Reachable i j := by
  intro joined
  rcases Sym2.eq_iff.mp he with ⟨hi, hj⟩ | ⟨hi, hj⟩
  · exact h (hi ▸ hj ▸ joined)
  · exact h (hi ▸ hj ▸ joined.symm)

/-- A bridge among many cables is one among fewer. -/
theorem Bridge.anti (h : Bridge more c) (sub : cables ⊆ more) : Bridge cables c :=
  fun joined => h (joined.mono (graph_mono (Set.sdiff_subset_sdiff_left sub)))

/-- No cable runs from a node to itself or in parallel to another, and there is no cycle. -/
structure Forest (cables : Set (Cable ι)) : Prop where
  loopless : ∀ c ∈ cables, ¬ c.ends.IsDiag
  simple : ∀ c ∈ cables, ∀ d ∈ cables, c.ends = d.ends → c = d
  acyclic : (graph cables).IsAcyclic

/-- Without parallel cables, taking a cable away takes its edge away. -/
theorem Forest.graph_diff (h : Forest cables) (hc : c ∈ cables) :
    graph (cables \ {c}) ≤ (graph cables).deleteEdges {c.ends} := by
  intro i j adj
  obtain ⟨⟨d, ⟨hd, hne⟩, he⟩, hij⟩ := graph_adj.mp adj
  rw [SimpleGraph.deleteEdges_adj]
  refine ⟨graph_adj.mpr ⟨⟨d, hd, he⟩, hij⟩, fun same => hne ?_⟩
  exact h.simple d hd c hc (he.trans (Set.mem_singleton_iff.mp same))

/-- What is left of the graph without an edge is left without a cable of that edge. -/
theorem deleteEdges_le_graph_diff :
    (graph cables).deleteEdges {c.ends} ≤ graph (cables \ {c}) := by
  intro i j adj
  rw [SimpleGraph.deleteEdges_adj] at adj
  obtain ⟨⟨d, hd, he⟩, hij⟩ := graph_adj.mp adj.1
  refine graph_adj.mpr ⟨⟨d, ⟨hd, ?_⟩, he⟩, hij⟩
  rintro rfl
  exact adj.2 he.symm

/-- Some cables make a forest exactly if each of them is a bridge. -/
theorem forest_iff_bridges : Forest cables ↔ ∀ c ∈ cables, Bridge cables c := by
  constructor
  · intro h c hc joined
    have edge : c.ends ∈ (graph cables).edgeSet := by
      refine graph_adj.mpr ⟨⟨c, hc, rfl⟩, fun same => h.loopless c hc ?_⟩
      exact Sym2.mk_isDiag_iff.mpr same
    have bridge := SimpleGraph.isAcyclic_iff_forall_isBridge.mp h.acyclic edge
    exact SimpleGraph.isBridge_iff.mp bridge (joined.mono (h.graph_diff hc))
  · intro h
    refine ⟨?_, ?_, ?_⟩
    · intro c hc diag
      have same : c.dialer.node = c.accepter.node := Sym2.mk_isDiag_iff.mp diag
      exact h c hc (same ▸ .refl _)
    · intro c hc d hd he
      by_contra hne
      exact h c hc (reachable_of_ends ⟨hd, fun e => hne e.symm⟩ he.symm)
    · rw [SimpleGraph.isAcyclic_iff_forall_isBridge]
      intro e he
      obtain ⟨⟨c, hc, rfl⟩, -⟩ := SimpleGraph.edgeSet_fromEdgeSet _ ▸ he
      exact SimpleGraph.isBridge_iff.mpr fun joined =>
        h c hc (joined.mono deleteEdges_le_graph_diff)

theorem Forest.bridge (h : Forest cables) (hc : c ∈ cables) : Bridge cables c :=
  forest_iff_bridges.mp h c hc

end SpanningMesh
