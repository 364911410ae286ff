import SpanningMesh.Proofs.Election.Poll

/-!
# The designated root in the election

The designated root holds the largest weight, so that no neighbour has more to offer.  There is one
way around this.  A node that holds its own id is its own source, and what its source announces is
measured against its node id, and not against the weight that it holds.  An announcement which names
the root itself as the sender passes for one of its source.

`Turn`, `turn` and `after` are the life of one node in the election: announcements that it hears,
and returns to its own id.  An announcement is `Feigned` if it is of this one kind.  A turn that is
not leaves the root as it started, so that the root yields in a history if and only if it hears one.
-/

namespace SpanningMesh

/-- The announcement names the node that hears it as its sender, and has a weight that the node
would take from its source. -/
def Announcement.Feigned (node : UInt32) (a : Announcement) : Prop :=
  a.sender = node ∧ node < a.weight ∧ a.weight ≠ rootWeight

instance (node : UInt32) (a : Announcement) : Decidable (a.Feigned node) :=
  inferInstanceAs (Decidable (_ ∧ _ ∧ _))

namespace Election

/-- Something that can happen to what a node holds. -/
inductive Turn where
  | hear (a : Announcement)
  /-- The node returns to its own id. -/
  | revert
deriving Repr, DecidableEq

/-- The state after a turn. -/
def turn (node : UInt32) (e : Election) : Turn → Election
  | .hear a => (e.apply node a).2
  | .revert => e.revert node

/-- What a node holds after several turns. -/
def after (node : UInt32) (e : Election) (turns : List Turn) : Election :=
  turns.foldl (turn node) e

variable {node : UInt32} {own : UInt16} {a : Announcement}

theorem standing_start_root : (start node true own).standing = ⟨rootMeshId, rootWeight⟩ := rfl

/-- A root that goes back to its own standing is where it began. -/
theorem revert_start : (start node true own).revert node = start node true own := rfl

theorem le_rootWeight (w : UInt32) : w ≤ rootWeight :=
  UInt32.le_iff_toNat_le.mpr (Nat.le_of_lt_succ w.toNat_lt)

/-- Only a feigned announcement can make the root yield. -/
theorem apply_start_of_not_feigned (h : ¬ a.Feigned node) :
    ((start node true own).apply node a).2 = start node true own := by
  have response := response_apply (start node true own) node a
  generalize ((start node true own).apply node a).2 = e' at response ⊢
  cases response with
  | same | ignore => rfl
  | follow source ne more => exact absurd ⟨source, more, ne⟩ h
  | fall => exact revert_start
  | rise _ more => exact absurd more (UInt32.not_lt.mpr (le_rootWeight _))

/-- A feigned announcement always does. -/
theorem standing_apply_of_feigned (h : a.Feigned node) :
    ((start node true own).apply node a).2.standing = a.standing := by
  obtain ⟨sender, more, ne⟩ := h
  have response := response_apply (start node true own) node a
  generalize ((start node true own).apply node a).2 = e' at response ⊢
  cases response with
  | same same => exact absurd same ne
  | follow => rfl
  | fall _ _ less => exact absurd more (UInt32.not_lt.mpr less)
  | rise other => exact absurd sender other
  | ignore other => exact absurd sender other

/-- Nothing moves a root but an announcement that feigns to be its own. -/
theorem turn_start {t : Turn} (h : ∀ a, t = .hear a → ¬ a.Feigned node) :
    turn node (start node true own) t = start node true own := by
  cases t with
  | hear a => exact apply_start_of_not_feigned (h a rfl)
  | revert => exact revert_start

/-- A root is where it began as long as no one feigns to be it. -/
theorem after_start {turns : List Turn} (h : ∀ a, .hear a ∈ turns → ¬ a.Feigned node) :
    after node (start node true own) turns = start node true own := by
  induction turns with
  | nil => rfl
  | cons t turns ih =>
      have stays : turn node (start node true own) t = start node true own :=
        turn_start fun a eq => h a (eq ▸ List.mem_cons_self)
      have later := ih fun a ha => h a (List.mem_cons_of_mem _ ha)
      simpa only [after, List.foldl_cons, stays] using later

/-- A root that holds its own to the end of every beginning of a history heard nothing feigned. -/
theorem not_feigned_of_holds {turns : List Turn}
    (holds : ∀ past, past <+: turns →
      (after node (start node true own) past).standing = ⟨rootMeshId, rootWeight⟩) :
    ∀ a, .hear a ∈ turns → ¬ a.Feigned node := by
  induction turns with
  | nil => simp
  | cons t turns ih =>
      have honest : ∀ a, t = .hear a → ¬ a.Feigned node := by
        rintro a rfl feigned
        have taken : a.standing = ⟨rootMeshId, rootWeight⟩ :=
          (standing_apply_of_feigned feigned).symm.trans
            (holds [.hear a] (List.cons_prefix_cons.mpr ⟨rfl, List.nil_prefix⟩))
        exact feigned.2.2 (congrArg Standing.weight taken)
      -- The first turn changes nothing, so that the rest is again a history of the root.
      have later := ih fun past within => by
        have all := holds (t :: past) (List.cons_prefix_cons.mpr ⟨rfl, within⟩)
        simpa only [after, List.foldl_cons, turn_start honest] using all
      intro a ha
      rcases List.mem_cons.mp ha with now | rest
      · exact honest a now.symm
      · exact later a rest

/-- The root holds its id and the largest weight throughout a history if and only if no announcement
in it is feigned. -/
theorem root_holds_iff (node : UInt32) (own : UInt16) (turns : List Turn) :
    (∀ past, past <+: turns →
      (after node (start node true own) past).standing = ⟨rootMeshId, rootWeight⟩) ↔
      ∀ a, .hear a ∈ turns → ¬ a.Feigned node := by
  refine ⟨not_feigned_of_holds, fun honest past within => ?_⟩
  rw [after_start fun a ha => honest a (within.subset ha), standing_start_root]

/-- The root hears an announcement under its own node id and takes it over, though its weight is far
less than the one it holds. -/
theorem root_yields_to_itself :
    (after 1 (start 1 true 0) [.hear ⟨7, 1, 5⟩]).standing = ⟨7, 5⟩ := by
  decide

end Election

end SpanningMesh
