import SpanningMesh.Node.Run
import SpanningMesh.Proofs.Mesh.Graph

/-!
# Meshes

A `Mesh` is a number of nodes without applications, the cables between them and the
frames on their way.  Frames that travel to a port arrive there in the order in which
they left the port that faces it.

A `Move` is one thing that can happen.  Two nodes connect.  A node asks the neighbour of
a link for its tree, or announces its mesh id.  The next frame that waits on a link
leaves.  The first frame that travels to a port arrives and is handled at once.  A port
notices that the port it faces was closed, and is closed too.  Moves may come in any
order, and one that is not possible changes nothing.

No frame is lost, and no link is given up for want of an answer.  Where a node would
refuse to let a frame wait on a link, the frame is not sent.
-/

namespace SpanningMesh

open Application (Program)

namespace Cable

variable {ι : Type} [DecidableEq ι] {c : Cable ι} {p q : Port ι}

/-- The port that a port faces over a cable, if it is one of the two. -/
def across (c : Cable ι) (p : Port ι) : Option (Port ι) :=
  if c.dialer = p then some c.accepter
  else if c.accepter = p then some c.dialer
  else none

theorem faces_of_across (h : c.across p = some q) : c.Faces p q := by
  simp only [across] at h
  split at h
  next hd =>
    cases h
    exact .inl ⟨hd, rfl⟩
  next =>
    split at h
    next ha =>
      cases h
      exact .inr ⟨rfl, ha⟩
    next => cases h

end Cable

namespace Link

/-- Take the next frame off that waits to be sent, as a whole. -/
def depart (l : Link) : Option (Bytes × Link) :=
  l.outbox.start.map fun (frame, q) => (frame, { l with outbox := q.advance frame frame.length })

end Link

/-- Nodes, the cables between them, and the frames that travel to each port. -/
structure Mesh (ι σ : Type) where
  nodes : ι → Node σ Empty
  cables : List (Cable ι) := []
  transit : Port ι → List Bytes := fun _ => []

namespace Mesh

variable {ι σ : Type} [DecidableEq ι]

/-- The cables as a set. -/
def cableSet (m : Mesh ι σ) : Set (Cable ι) := {c | c ∈ m.cables}

/-- Whether the link of a port is open. -/
def isOpen (m : Mesh ι σ) (p : Port ι) : Prop := p.link ∈ (m.nodes p.node).linkIds

instance (m : Mesh ι σ) (p : Port ι) : Decidable (m.isOpen p) :=
  inferInstanceAs (Decidable (p.link ∈ (m.nodes p.node).linkIds))

/-- The cables whose two links are open. -/
def openCables (m : Mesh ι σ) : Set (Cable ι) :=
  {c ∈ m.cableSet | m.isOpen c.dialer ∧ m.isOpen c.accepter}

/-- The port that a port faces. -/
def facing? (m : Mesh ι σ) (p : Port ι) : Option (Port ι) := m.cables.findSome? (·.across p)

/-- Put another node in the place of one. -/
def setNode (m : Mesh ι σ) (i : ι) (n : Node σ Empty) : Mesh ι σ :=
  { m with nodes := Function.update m.nodes i n }

/-- Put other frames on the way to a port. -/
def setTransit (m : Mesh ι σ) (p : Port ι) (frames : List Bytes) : Mesh ι σ :=
  { m with transit := Function.update m.transit p frames }

/-- Open a link at a node, which gives a port. -/
def openPort (m : Mesh ι σ) (i : ι) (station : Bool) : Port ι × Mesh ι σ :=
  let (link, n) := (m.nodes i).addLink station
  (⟨i, link⟩, m.setNode i n)

/-! ## Moves -/

/-- Something that can happen in a mesh. -/
inductive Move (ι : Type) where
  /-- A node opens a connection to another. -/
  | connect (i j : ι)
  /-- A node asks the neighbour of a link for its tree. -/
  | exchange (p : Port ι)
  /-- A node announces its mesh id. -/
  | announce (i : ι)
  /-- The next frame that waits on a link leaves. -/
  | leave (p : Port ι)
  /-- The first frame that travels to a port arrives. -/
  | deliver (p : Port ι)
  /-- A port is closed since the one it faces was. -/
  | hangUp (p : Port ι)

/-- A node opens a link to another, and a cable joins the two ports. -/
def connect (m : Mesh ι σ) (i j : ι) : Mesh ι σ :=
  let (p, m) := m.openPort i true
  let (q, m) := m.openPort j false
  { m with cables := m.cables ++ [⟨p, q⟩] }

/-- Send the next frame that waits on a link. -/
def leave (m : Mesh ι σ) (p : Port ι) : Mesh ι σ :=
  match ((m.nodes p.node).link? p.link).bind Link.depart, m.facing? p with
  | some (frame, l), some q =>
      (m.setNode p.node ((m.nodes p.node).putLink l)).setTransit q (m.transit q ++ [frame])
  | _, _ => m

variable [Host σ]

/-- Handle a frame that arrives at a port, if its link is still open. -/
def handle (m : Mesh ι σ) (p : Port ι) (frame : Bytes) : Mesh ι σ :=
  if m.isOpen p then
    let n := m.nodes p.node
    m.setNode p.node (n.routeFrame (.idle σ Empty) p.link (frame.drop Frame.lengthSize) n.time)
  else m

/-- Let the first frame that travels to a port arrive. -/
def deliver (m : Mesh ι σ) (p : Port ι) : Mesh ι σ :=
  match m.transit p with
  | [] => m
  | frame :: rest => (m.setTransit p rest).handle p frame

/-- Close a port if the one it faces was closed. -/
def hangUp (m : Mesh ι σ) (p : Port ι) : Mesh ι σ :=
  match m.facing? p with
  | none => m
  | some q =>
      if m.isOpen q then m else m.setNode p.node ((m.nodes p.node).disconnect p.link)

/-- Make a move. -/
def step (m : Mesh ι σ) : Move ι → Mesh ι σ
  | .connect i j => m.connect i j
  | .exchange p => m.setNode p.node ((m.nodes p.node).exchange p.link)
  | .announce i => m.setNode i (m.nodes i).announce
  | .leave p => m.leave p
  | .deliver p => m.deliver p
  | .hangUp p => m.hangUp p

/-- Make several moves. -/
def run (m : Mesh ι σ) (moves : List (Move ι)) : Mesh ι σ := moves.foldl step m

/-- No link was opened yet, and the nodes have different ids. -/
structure Fresh (m : Mesh ι σ) : Prop where
  cables : m.cables = []
  links : ∀ i, (m.nodes i).links = []
  transit : ∀ p, m.transit p = []
  ids_ne : ∀ i, (m.nodes i).id ≠ 0
  ids_inj : Function.Injective fun i => (m.nodes i).id

end Mesh

end SpanningMesh
