import SpanningMesh.Proofs.Node.Churn
import SpanningMesh.Proofs.Node.Keeping

/-!
# A peer harms only its own link

Whatever bytes a peer sends, they are handled in the name of the link that they came in on.  They may
close that link.  On all other links they do nothing but append frames to what waits to be sent, each
behind the frames of its lane.

`Spares id n m` says this of a node `n` that became `m`, where `id` is the link that the bytes came
in on.  Every step of reading the link keeps it.  What feeds links spares all of them, so only what
replaces or closes a link has to be looked at.
-/

namespace SpanningMesh

open Application (Program)

namespace Node

variable {σ α : Type} {n m k : Node σ α} {id : LinkId} {l : Link}

/-- All links but one are still there, in their order, and only took in frames to send. -/
def Spares (id : LinkId) (n m : Node σ α) : Prop :=
  ∃ express regular : LinkId → List Bytes, m.links.filter (·.id ≠ id) =
    (n.links.filter (·.id ≠ id)).map fun l => l.fed (express l.id) (regular l.id)

theorem Spares.of_links_eq (same : m.links.filter (·.id ≠ id) = n.links.filter (·.id ≠ id)) :
    Spares id n m :=
  ⟨fun _ => [], fun _ => [], by rw [same]; simp⟩

theorem Spares.trans (first : Spares id n m) (next : Spares id m k) : Spares id n k := by
  obtain ⟨es, rs, links⟩ := first
  obtain ⟨es', rs', links'⟩ := next
  refine ⟨fun k => es k ++ es' k, fun k => rs k ++ rs' k, ?_⟩
  rw [links', links, List.map_map]
  simp [Function.comp_def, Link.fed]

/-- Other links may be fed, since that only queues frames. -/
theorem Feeds.spares {P : LinkId → Bytes → Prop} (feeds : Feeds P n m) (id : LinkId) :
    Spares id n m := by
  obtain ⟨es, rs, -, links⟩ := feeds.links
  refine ⟨es, rs, ?_⟩
  rw [links, List.filter_map]
  rfl

theorem spares_putLink (n : Node σ α) (same : l.id = id) : Spares id n (n.putLink l) := by
  refine .of_links_eq ?_
  rw [putLink, List.filter_map]
  have others : (fun k : Link => decide (k.id ≠ id)) ∘ (fun k => if k.id = l.id then l else k) =
      fun k => decide (k.id ≠ id) := by
    funext k
    by_cases here : k.id = l.id
    · simp [here, same]
    · simp [here]
  rw [others]
  refine (List.map_congr_left fun k hk => ?_).trans (List.map_id _)
  have other : k.id ≠ id := of_decide_eq_true (List.mem_filter.mp hk).2
  rw [if_neg (same ▸ other)]
  rfl

/-- A link takes the place of the one it was, and then links are fed. -/
theorem Spares.of_putLink {P : LinkId → Bytes → Prop} (same : l.id = id)
    (feeds : Feeds P (n.putLink l) m) : Spares id n m :=
  (spares_putLink n same).trans (feeds.spares id)

/-- The handles of the links are different, and all links but one were spared. -/
structure Spared (id : LinkId) (n m : Node σ α) : Prop where
  nodup : m.linkIds.Nodup
  spares : Spares id n m

theorem Spared.feeds {P : LinkId → Bytes → Prop} (h : Spared id n m) (feeds : Feeds P m k) :
    Spared id n k :=
  ⟨feeds.nodup h.nodup, h.spares.trans (feeds.spares id)⟩

theorem Spared.putLink (h : Spared id n m) (same : l.id = id) : Spared id n (m.putLink l) :=
  ⟨linkIds_putLink m l ▸ h.nodup, h.spares.trans (spares_putLink m same)⟩

variable [Host σ]

/-! ## Bytes that arrive -/

/-- To close a link spares the others. -/
theorem spares_close (n : Node σ α) (id : LinkId) : Spares id n (n.close id).2 := by
  refine .of_links_eq ?_
  rw [close_links, List.filter_filter]
  simp

/-- Bytes that arrive on a link spare the others. -/
theorem spares_arrive (n : Node σ α) (id : LinkId) (chunk : Bytes) :
    Spares id n (n.arrive id chunk) := by
  unfold arrive
  split
  · exact .of_links_eq rfl
  next l found =>
    split
    · exact spares_close n id
    next count l' taken =>
      have same : l'.id = id :=
        (Link.steady_of_receive (P := fun _ _ => True) taken).id.trans (id_of_link? found)
      dsimp only
      split
      · exact spares_putLink n same
      · exact .of_putLink (P := fun _ _ => True) same (feeds_plan _ _)

/-! ## What the node does with a packet -/

theorem Spared.close (h : Spared id n m) : Spared id n (m.close id).2 where
  nodup := (steady_close (P := fun _ _ => True) m id).nodup h.nodup
  spares := h.spares.trans (spares_close m id)

/-- A tree is stored with its own link, or closes it. -/
theorem Spared.hearTree (h : Spared id n m) (sender : UInt32) (tree : Tree) (wanted : Bool) :
    Spared id n (m.hearTree id sender tree wanted) := by
  unfold Node.hearTree
  split
  · exact h
  next l found =>
    split
    · exact h.close
    · have same : l.id = id := id_of_link? found
      obtain ⟨tasks, accepts⟩ := feeds_acceptTree (P := fun _ _ => True) m l sender tree
      have accepted : Spared id n (m.acceptTree l sender tree) :=
        (h.putLink (l := { l.accepted sender tree with tasks }) same).feeds accepts
      dsimp only
      split
      · exact accepted.feeds (feeds_sendTo accepted.nodup id _ true)
      · exact accepted.feeds (P := fun _ _ => True) (feeds_plan _ _)

omit [Host σ] in
theorem Spared.identifyPeer (h : Spared id n m) (peer : UInt32) :
    Spared id n (m.identifyPeer id peer) := by
  rcases identifyPeer_cases (P := fun _ _ => True) m id peer with same | ⟨l, found, -, feeds⟩
  · rw [same]
    exact h
  · have same : l.id = id := id_of_link? found
    exact (h.putLink (l := { l with remote := peer }) same).feeds feeds

omit [Host σ] in
/-- Listeners that do nothing change no link. -/
theorem Spared.tell (h : Spared id n m) (e : Event) : Spared id n (m.tell (.idle σ α) e) :=
  HandlerTable.dispatch_keeps
    (fun _ _ h => h.feeds (P := fun _ _ => True) (.of_links_eq rfl rfl rfl rfl rfl rfl))
    (fun _ _ _ h => h) h

theorem Spared.handleOwn (h : Spared id n m) (packet : Packet) (arrival : UInt32) :
    Spared id n (m.handleOwn (.idle σ α) packet id arrival) := by
  simp only [Node.handleOwn]
  split
  · exact h.hearTree _ _ true
  · exact h.hearTree _ _ false
  · exact h.feeds (feeds_hearTimeSync h.nodup id _ _ arrival)
  · exact h.feeds (feeds_hearTimeDelay h.nodup _ _ arrival)
  · exact h.tell _
  · exact h.tell _
  · exact (h.identifyPeer _).feeds (P := fun _ _ => True) (feeds_hearAnnouncement _ _)
  · exact h

/-! ## Reading -/

/-- To read the frames of a link spares the others. -/
theorem keepsReading_spared (id : LinkId) (n : Node σ α) :
    (Program.idle σ α).KeepsReading id (fun _ => True) (Spared id n) where
  aside h other :=
    ⟨by rw [linkIds, other.links]; exact h.nodup, h.spares.trans (.of_links_eq (by rw [other.links]))⟩
  take next h := by
    obtain ⟨k, rest, found, -, rfl⟩ := inbox_of_next next
    have at_id := id_of_link? found
    exact ⟨trivial, h.putLink at_id⟩
  forward _ ids body h := h.feeds (feeds_forwardFrame h.nodup ids body)
  own _ _ _ arrival _ _ h := h.handleOwn _ arrival
  handle _ _ _ _ h := h

/-- Whatever bytes arrive on a link of a node and are read, every other link stays open and keeps its
place.  Its neighbour, its phase, its tree, what came in on it, the frame in progress and all that
waited to be sent are what they were.  Frames may only be appended to its two lanes. -/
theorem other_links_only_fed (new : n.links = []) (none : n.agenda = {})
    (events : List (σ × Input α)) (id : LinkId) (chunk : Bytes) :
    let m := n.live (.idle σ α) events
    ∃ express regular : LinkId → List Bytes,
      ((m.arrive id chunk).read (.idle σ α) id).links.filter (·.id ≠ id) =
        (m.links.filter (·.id ≠ id)).map fun l => l.fed (express l.id) (regular l.id) := by
  intro m
  have fresh : InStep (fun _ => False) n := .of_new new none
  have different : m.linkIds.Nodup :=
    (fresh.live (Program.onlyAsks_idle σ α) events).different
  have arrived : Spared id m (m.arrive id chunk) :=
    ⟨(steady_arrive (P := fun _ _ => True) m id chunk).nodup different, spares_arrive m id chunk⟩
  have rests : ∀ k, Spared id m k → Spared id m (k.restReading id) := fun k h =>
    h.feeds (P := fun _ _ => True) (feeds_restReading k id)
  exact ((keepsReading_spared id m).read rests arrived).spares

/-- The node 1 knows the node 2 behind its first link, and has opened a second. -/
def betweenTwo : List (Outlets Unit × Input Empty) :=
  (treeArrives ++ [Input.addLink false]).map fun i => ({ application := () }, i)

/-- A text from the node 3 for everyone, and a tree in which the node 1 is behind the node 3. -/
def textAndCircle : Bytes :=
  [16, 0, 0, 0, 8, 0, 2, 0, 0, 0, 0, 0, 3, 0, 0, 0, 2, 0, 104, 105,
    26, 0, 0, 0, 5, 0, 0, 0, 1, 0, 0, 0, 3, 0, 0, 0, 3, 0, 0, 0, 0, 1, 0, 1, 0, 0, 0, 0, 0, 0]

/-- The tree closes the second link.  The first link takes in the text to be passed on, and stays as
it is otherwise. -/
theorem other_links_only_fed_circle :
    let m := receiver.live (.idle (Outlets Unit) Empty) betweenTwo
    let m' := (m.arrive ⟨2⟩ textAndCircle).read (.idle (Outlets Unit) Empty) ⟨2⟩
    m.linkIds = [⟨1⟩, ⟨2⟩] ∧ m'.linkIds = [⟨1⟩] ∧
      (m'.links.map (·.outbox.regular)) = [[textAndCircle.take 20]] ∧
      ∃ express regular : LinkId → List Bytes, m'.links.filter (·.id ≠ ⟨2⟩) =
        (m.links.filter (·.id ≠ ⟨2⟩)).map fun l => l.fed (express l.id) (regular l.id) := by
  refine ⟨by decide +kernel, by decide +kernel, by decide +kernel, ?_⟩
  exact other_links_only_fed (n := receiver) rfl rfl betweenTwo ⟨2⟩ textAndCircle

end Node

end SpanningMesh
