import SpanningMesh.Proofs.Election.Ballot

/-!
# The turns of a node

Whatever happens to a node comes down to `Node.Turn`s: it joins the election, it hears an
announcement, it closes a link, or it becomes another in some way that is beside that.  What counts
as beside is left open.

All that may be asked of a node but a pass needs nothing besides that is not incidental
(`Node.turns_input`), and so does all that the node does by itself in a pass, but for counting the
frames that come in.
-/

namespace SpanningMesh

open Application (Program)

/-- The event by which a node tells its application of a payload. -/
def Payload.event? : Payload → Option Event
  | single sender text | broadcast sender text => some (.received sender text)
  | treeRequest .. | treeReply .. | timeSync .. | timeDelay .. | meshId _ | raw _ => none

namespace Node

variable {σ α : Type} [Host σ] {n m k : Node σ α} {Beside Beside' : Node σ α → Node σ α → Prop}

/-- Something that happens to a node. -/
inductive Turn (Beside : Node σ α → Node σ α → Prop) : Node σ α → Node σ α → Prop where
  | beside {n m : Node σ α} (beside : Beside n m) : Turn Beside n m
  | join (n : Node σ α) (own : UInt16) (new : n.candidacy = none) :
      Turn Beside n (n.joinElection own)
  | hear (n : Node σ α) (a : Announcement) : Turn Beside n (n.hearAnnouncement a)
  | drop (n : Node σ α) (id : LinkId) : Turn Beside n (n.close id).2

theorem Turn.mono (more : ∀ {n m}, Beside n m → Beside' n m) (turn : Turn Beside n m) :
    Turn Beside' n m := by
  cases turn with
  | beside beside => exact .beside (more beside)
  | join own new => exact .join n own new
  | hear a => exact .hear n a
  | drop id => exact .drop n id

/-- A number of turns. -/
abbrev Turns (Beside : Node σ α → Node σ α → Prop) : Node σ α → Node σ α → Prop :=
  Relation.ReflTransGen (Turn Beside)

/-- A turn that is incidental is nothing to the election. -/
theorem Turns.uninvolved (turns : Turns Incidental n m) : Turns Uninvolved n m := by
  have each : ∀ n m : Node σ α, Turn Incidental n m → Turn Uninvolved n m :=
    fun _ _ turn => turn.mono fun incidental => incidental.toUninvolved
  exact Relation.ReflTransGen.mono each n m turns

theorem Turns.incidental (turns : Turns Incidental n m) (incidental : Incidental m k) :
    Turns Incidental n k :=
  .tail turns (.beside incidental)

/-- What is incidental is no turn of the election. -/
theorem turns_incidental (incidental : Incidental n m) : Turns Incidental n m :=
  .single (.beside incidental)

/-! ## What the node does by itself -/

/-- A tree that is refused closes its link, and then the node loses that peer. -/
theorem turns_hearTree (n : Node σ α) (id : LinkId) (sender : UInt32) (tree : Tree)
    (wanted : Bool) : Turns Incidental n (n.hearTree id sender tree wanted) := by
  cases found : n.link? id with
  | none =>
      refine turns_incidental ?_
      simp only [hearTree, found]
      exact .refl n
  | some l =>
      cases admitted : n.checkAnnounced l sender tree with
      | error e =>
          simp only [hearTree, found, admitted]
          exact .single (.drop n id)
      | ok u => exact turns_incidental (incidental_hearTree found admitted wanted)

/-- A link that cannot write is closed, and then the node loses that peer. -/
theorem turns_flush (n : Node σ α) (id : LinkId) : Turns Incidental n (n.flush id) := by
  cases found : n.link? id with
  | none =>
      refine turns_incidental ?_
      rw [flush_of_none found]
      exact .refl n
  | some l =>
      have wrote : ∀ q host, Turns Incidental n (n.written l q host) := fun q host =>
        turns_incidental (.of_agenda_eq rfl rfl rfl rfl rfl)
      obtain ⟨q, host, closes | waits | ⟨-, rests⟩⟩ := flush_cases found
      · rw [closes]
        exact .tail (wrote q host) (.drop _ id)
      · rw [waits]
        exact (wrote q host).incidental (incidental_arm _ (.delay l.tasks.send _))
      · rw [rests]
        exact (wrote q host).incidental (incidental_arm _ (.disable l.tasks.send))

/-- What the node does with a packet that it need not tell its application of. -/
theorem turns_handleOwn {packet : Packet} (quiet : packet.payload.event? = none) (p : Program σ α)
    (id : LinkId) (arrival : UInt32) (n : Node σ α) :
    Turns Incidental n (n.handleOwn p packet id arrival) := by
  simp only [handleOwn]
  cases carries : packet.payload with
  | treeRequest sender tree => exact turns_hearTree n id sender tree true
  | treeReply sender tree => exact turns_hearTree n id sender tree false
  | timeSync sender times => exact turns_incidental (n.incidental_hearTimeSync id sender times arrival)
  | timeDelay sender times => exact turns_incidental (n.incidental_hearTimeDelay sender times arrival)
  | single | broadcast => simp [carries, Payload.event?] at quiet
  | meshId a => exact (turns_incidental (n.incidental_identifyPeer id a.sender)).tail (.hear _ a)
  | raw bytes => exact .refl

/-- What the node does with a packet that it tells its application of. -/
theorem handleOwn_of_event {packet : Packet} {e : Event} (tells : packet.payload.event? = some e)
    (p : Program σ α) (id : LinkId) (arrival : UInt32) (n : Node σ α) :
    n.handleOwn p packet id arrival = n.tell p e := by
  simp only [handleOwn]
  cases carries : packet.payload with
  | single sender text | broadcast sender text =>
      rw [carries] at tells
      cases tells
      rfl
  | treeRequest | treeReply | timeSync | timeDelay | meshId | raw =>
      simp [carries, Payload.event?] at tells

/-- A task of the node itself, but one that reads a link or tells an event. -/
theorem turns_perform {a : Action α} (reads : ∀ id, a ≠ .read id) (silent : a.event? = none)
    (own : ∀ x, a ≠ .application x) (p : Program σ α) (n : Node σ α) :
    Turns Incidental n (n.perform p a) := by
  cases a with
  | exchange id => exact turns_incidental (n.incidental_exchange id)
  | timeout id => exact .single (.drop n id)
  | read id => exact absurd rfl (reads id)
  | send id => exact turns_flush n id
  | setClock id => exact turns_incidental (n.incidental_startClockSync id)
  | announce => exact turns_incidental n.incidental_announce
  | tell e => cases silent
  | application x => exact absurd rfl (own x)

/-! ## What may be asked -/

/-- A link that breaks is closed, and then the node loses that peer. -/
theorem turns_arrive (n : Node σ α) (id : LinkId) (chunk : Bytes) :
    Turns Incidental n (n.arrive id chunk) := by
  simp only [arrive]
  split
  · exact .refl
  · split
    · exact .single (.drop n id)
    next count l' _ =>
      have put : Turns Incidental n (n.putLink l') := turns_incidental (n.incidental_putLink l')
      split
      · exact put
      · exact put.incidental (incidental_arm _ (.enable l'.tasks.read))

theorem turns_joinElection (n : Node σ α) (own : UInt16) :
    Turns Incidental n (n.joinElection own) := by
  cases takes : n.candidacy with
  | none => exact .single (.join n own takes)
  | some c =>
      refine turns_incidental ?_
      simp only [joinElection, takes]
      exact .refl n

/-- A node that stops closes its links and forgets its tasks. -/
theorem turns_stop (n : Node σ α) : Turns Incidental n n.stop := by
  have closed : ∀ (ids : List LinkId) (n : Node σ α),
      Turns Incidental n (ids.foldl (fun n id => (n.close id).2) n) := by
    intro ids
    induction ids with
    | nil => exact fun _ => .refl
    | cons id ids ih => exact fun n => .head (.drop n id) (ih _)
  refine (closed n.linkIds n).incidental ⟨⟨rfl, rfl, ?_, Nat.le_refl _, List.nil_sublist _⟩, rfl⟩
  simp only [stop, ballot, Option.map_map]
  rfl

/-- Whatever is asked of a node comes down to turns, unless it is a pass. -/
theorem turns_input (n : Node σ α) {i : Input α} (rests : ∀ now, i ≠ .execute now)
    (p : Program σ α) : Turns Incidental n (n.obey p i) := by
  cases i with
  | addLink station => exact turns_incidental (n.incidental_addLink station)
  | arrive id chunk => exact turns_arrive n id chunk
  | disconnect id => exact .single (.drop n id)
  | close id => exact .single (.drop n id)
  | send s => exact turns_incidental (n.incidental_send s)
  | execute now => exact absurd rfl (rests now)
  | stop => exact turns_stop n
  | joinElection own => exact turns_joinElection n own
  | addTask interval runs a => exact turns_incidental (n.incidental_addTask interval runs a)
  | onPacket | onEvent => exact turns_incidental (.of_agenda_eq rfl rfl rfl rfl rfl)

end Node

end SpanningMesh
