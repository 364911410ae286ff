import SpanningMesh.Proofs.Dispatch.Reentrance
import SpanningMesh.Proofs.Node.Churn

/-!
# What a node does in a pass

A pass of a node without an application is a number of acts, one after the other.  An act is the
action of a task, or what the node itself does with one packet.  The task that reads has no act of
its own, since it does nothing but hand out the packets that came in.  `Node.acts` lists the acts of
a pass, each with the node that it starts from.

Between its acts a node only notes something down, takes a frame out of an inbox or passes one on
(`Between`).  So what holds of acts and of what is between them holds of whole passes, if it holds
of one thing after another (`Composes`, `acts_compose`).

In particular nothing happens to the trees behind the links of a node but by one of its acts
(`changed_in_act`).
-/

namespace SpanningMesh

open Application (Program)

namespace Node

/-- What a node does at one time: the action of a task, or its own part in handling a packet. -/
inductive Act (α : Type) where
  | task (a : Action α)
  | handle (id : LinkId) (packet : Packet) (arrival : UInt32)
deriving Repr

variable {σ α : Type} [Host σ] {n m k : Node σ α} {l l' : Link} {id : LinkId}

/-- The node after an act. -/
def Act.run : Act α → Node σ α → Node σ α
  | .task a, n => n.perform (.idle σ α) a
  | .handle id packet arrival, n => n.handleOwn (.idle σ α) packet id arrival

/-! ## The acts of a pass -/

omit [Host σ] in
/-- The act of a handler of a packet. -/
def actsInCall (id : LinkId) (packet : Packet) (arrival : UInt32) (x : Handler α × Node σ α) :
    List (Act α × Node σ α) :=
  match x.1 with
  | .node => [(.handle id packet arrival, x.2)]
  | .application _ => []

/-- The acts that handle a frame. -/
def actsInFrame (id : LinkId) (body : Bytes) (arrival : UInt32) (n : Node σ α) :
    List (Act α × Node σ α) :=
  match Header.peek body, Packet.decode body with
  | .ok header, .ok packet =>
      if n.takesIn header then
        (HandlerTable.callsOf handlersOf (runHandler (.idle σ α) packet id arrival)
          packet.header.kind (n.passOn id body header)).flatMap (actsInCall id packet arrival)
      else []
  | _, _ => []

/-- The acts that handle the frames of a link. -/
def actsOnLink (id : LinkId) : Nat → Node σ α → List (Act α × Node σ α)
  | 0, _ => []
  | limit + 1, n =>
      match (n.link? id).bind Link.nextFrame with
      | none => []
      | some ((body, arrival), l) =>
          (n.putLink l).actsInFrame id body arrival ++
            actsOnLink id limit ((n.putLink l).routeFrame (.idle σ α) id body arrival)

/-- The acts of a task. -/
def actsInTask : Action α → Node σ α → List (Act α × Node σ α)
  | .read id, n => n.actsOnLink id (n.readLimit id)
  | a, n => [(.task a, n)]

/-- The acts of tasks that run. -/
def actsInRuns (now : Nat) (runs : List (Agenda.Run (Action α) (Node σ α))) :
    List (Act α × Node σ α) :=
  runs.flatMap fun r => (r.start agendaOf now).actsInTask r.task.action

/-- The acts of a pass, each with the node that it starts from. -/
def acts (now : Nat) (n : Node σ α) : List (Act α × Node σ α) :=
  actsInRuns now (Agenda.runsOfPass agendaOf (perform (.idle σ α)) now { n with now })

/-! ## What is between the acts -/

/-- What a node does between its acts. -/
structure Between (n m : Node σ α) : Prop where
  moves : Moves (fun _ => False) n m
  view : n.linkIds.Nodup → m.view = n.view

theorem between_elsewhere (id : m.id = n.id) (root : m.root = n.root) (links : m.links = n.links)
    (nextLink : m.nextLink = n.nextLink) (settings : m.settings = n.settings)
    (agenda : m.agenda = n.agenda) : Between n m :=
  ⟨moves_elsewhere links nextLink settings agenda, fun _ => by
    simp only [Node.view, id, root, links]⟩

theorem Between.refl (n : Node σ α) : Between n n := ⟨.refl, fun _ => rfl⟩

/-- A frame that is passed on is queued, and nothing else happens. -/
theorem between_passOn (n : Node σ α) (id : LinkId) (body : Bytes) (h : Header) :
    Between n (n.passOn id body h) where
  moves := by
    have counted : Move (fun _ => False) n (n.counted h) := .elsewhere rfl rfl rfl rfl
    exact .head counted (moves_forwardFrame _ _ body)
  view := fun different => view_of_bearings (bearings_passOn different id body h)

/-- Taking the next frame of a link out of its inbox. -/
theorem between_takeFrame {frame : Bytes × UInt32}
    (next : (n.link? id).bind Link.nextFrame = some (frame, l)) : Between n (n.putLink l) := by
  refine ⟨.single (move_takeFrame next), fun different => ?_⟩
  obtain ⟨k, rest, found, -, rfl⟩ := inbox_of_next next
  exact view_putLink_of_subtree_eq different found rfl rfl

/-! ## One thing after another -/

/-- What holds of acts and of what is between them, and of one thing after another. -/
structure Composes (R : List (Act α × Node σ α) → Node σ α → Node σ α → Prop) : Prop where
  between : ∀ {n m}, Between n m → R [] n m
  act : ∀ (x : Act α) (n), (∀ id, x ≠ .task (.read id)) → R [(x, n)] n (x.run n)
  rest : ∀ (n : Node σ α) (id), R [] n (n.restReading id)
  append : ∀ {as bs n m k}, R as n m → R bs m k → R (as ++ bs) n k

namespace Composes

variable {R : List (Act α × Node σ α) → Node σ α → Node σ α → Prop} (composes : Composes R)

include composes

theorem before {as : List (Act α × Node σ α)} (first : Between n m) (next : R as m k) : R as n k :=
  composes.append (composes.between first) next

/-- The acts of a frame that is handled are its handlers, one after the other. -/
theorem handleFrame (id : LinkId) {body : Bytes} {packet : Packet}
    (decoded : Packet.decode body = .ok packet) (arrival : UInt32) (n : Node σ α) :
    R ((HandlerTable.callsOf handlersOf (runHandler (.idle σ α) packet id arrival)
        packet.header.kind n).flatMap (actsInCall id packet arrival))
      n (n.handleFrame (.idle σ α) id body arrival) := by
  simp only [Node.handleFrame, decoded]
  have table : ∀ t (n : Node σ α), R [] n (handlersOf.set t n) := fun t n =>
    composes.between (between_elsewhere rfl rfl rfl rfl rfl rfl)
  refine HandlerTable.dispatch_compose (fun n => composes.between (.refl n)) table composes.append
    _ _ _ n ?_
  rintro ⟨handler, m⟩ -
  cases handler with
  | node => exact composes.act (.handle id packet arrival) m (by simp)
  | application a => exact composes.between (.refl m)

/-- A frame that is passed on is handled after that, if at all. -/
theorem routeFrame (id : LinkId) (body : Bytes) (arrival : UInt32) (n : Node σ α) :
    R (n.actsInFrame id body arrival) n (n.routeFrame (.idle σ α) id body arrival) := by
  cases seen : Header.peek body with
  | error e =>
      simp only [Node.routeFrame, actsInFrame, seen]
      exact composes.between (between_elsewhere rfl rfl rfl rfl rfl rfl)
  | ok header =>
      have passed := between_passOn n id body header
      rw [routeFrame_eq _ seen]
      cases decoded : Packet.decode body with
      | error e =>
          simp only [actsInFrame, seen, decoded]
          split
          · refine composes.before passed (composes.between ?_)
            simp only [Node.handleFrame, decoded]
            exact between_elsewhere rfl rfl rfl rfl rfl rfl
          · exact composes.between passed
      | ok packet =>
          simp only [actsInFrame, seen, decoded]
          split
          · exact composes.before passed (composes.handleFrame id decoded arrival _)
          · exact composes.between passed

/-- Frames are read one after the other. -/
theorem readFrames (id : LinkId) (limit : Nat) (n : Node σ α) :
    R (n.actsOnLink id limit) n (n.readFrames (.idle σ α) id limit) := by
  induction limit generalizing n with
  | zero => exact composes.between (.refl n)
  | succ limit ih =>
      simp only [actsOnLink, Node.readFrames]
      cases next : (n.link? id).bind Link.nextFrame with
      | none => exact composes.between (.refl n)
      | some taken =>
          obtain ⟨⟨body, arrival⟩, l⟩ := taken
          have handled := composes.append (composes.routeFrame id body arrival (n.putLink l)) (ih _)
          exact composes.before (between_takeFrame next) handled

/-- A task is a single act, unless it reads. -/
theorem perform (a : Action α) (n : Node σ α) :
    R (n.actsInTask a) n (n.perform (.idle σ α) a) := by
  cases a with
  | read id =>
      have read := composes.append (composes.readFrames id (n.readLimit id) n) (composes.rest _ id)
      rwa [List.append_nil] at read
  | exchange id => exact composes.act (.task (.exchange id)) n (by simp)
  | timeout id => exact composes.act (.task (.timeout id)) n (by simp)
  | send id => exact composes.act (.task (.send id)) n (by simp)
  | setClock id => exact composes.act (.task (.setClock id)) n (by simp)
  | announce => exact composes.act (.task .announce) n (by simp)
  | tell e => exact composes.act (.task (.tell e)) n (by simp)
  | application a => exact composes.act (.task (.application a)) n (by simp)

end Composes

/-- All acts of a frame handle its packet on its link. -/
theorem handles_of_mem_actsInFrame {body : Bytes} {arrival : UInt32} {x : Act α × Node σ α}
    (hx : x ∈ n.actsInFrame id body arrival) :
    ∃ packet arrival, x.1 = .handle id packet arrival := by
  simp only [actsInFrame] at hx
  split at hx
  · split at hx
    · obtain ⟨⟨handler, m⟩, -, hx⟩ := List.mem_flatMap.mp hx
      cases handler with
      | node => exact ⟨_, _, congrArg Prod.fst (List.mem_singleton.mp hx)⟩
      | application a => cases hx
    · cases hx
  · cases hx

/-- A packet is handled only when its link is read. -/
theorem read_of_handle_mem {a : Action α} {packet : Packet} {arrival : UInt32}
    (h : (.handle id packet arrival, m) ∈ n.actsInTask a) : a = .read id := by
  have onLink : ∀ (k : LinkId) (limit : Nat) (n : Node σ α),
      (.handle id packet arrival, m) ∈ n.actsOnLink k limit → k = id := by
    intro k limit
    induction limit with
    | zero => exact fun n h => absurd h List.not_mem_nil
    | succ limit ih =>
        intro n h
        simp only [actsOnLink] at h
        split at h
        · cases h
        · rcases List.mem_append.mp h with first | later
          · obtain ⟨_, _, same⟩ := handles_of_mem_actsInFrame first
            cases same
            rfl
          · exact ih _ later
  cases a with
  | read k => exact congrArg Action.read (onLink k _ n h)
  | exchange | timeout | send | setClock | announce | tell | application =>
      cases congrArg Prod.fst (List.mem_singleton.mp h)

/-- What holds of the turns of tasks, and of one thing after another, holds of all turns of a
pass. -/
theorem actsInRuns_compose {R : List (Act α × Node σ α) → Node σ α → Node σ α → Prop} {now : Nat}
    (nothing : ∀ n, R [] n n) (append : ∀ {as bs n m k}, R as n m → R bs m k → R (as ++ bs) n k)
    (turn : ∀ r : Agenda.Run (Action α) (Node σ α),
      Agenda.Run.ofTurn agendaOf now r.id r.context = some r →
      R ((r.start agendaOf now).actsInTask r.task.action) r.context
        (agendaOf.modify (·.finish r.id) (r.stop agendaOf (Node.perform (.idle σ α)) now)))
    (ids : List TaskId) (n : Node σ α) :
    R (actsInRuns now (Agenda.runs agendaOf (Node.perform (.idle σ α)) now ids n)) n
      (Agenda.afterTurns agendaOf (Node.perform (.idle σ α)) now ids n) :=
  Agenda.runs_compose _ _ _ nothing append _ turn ids n

/-- What holds of acts, of what is between them and of all turns holds of a pass. -/
theorem acts_compose {R : List (Act α × Node σ α) → Node σ α → Node σ α → Prop}
    (composes : Composes R) {now : Nat}
    (turn : ∀ r : Agenda.Run (Action α) (Node σ α),
      Agenda.Run.ofTurn agendaOf now r.id r.context = some r →
      R ((r.start agendaOf now).actsInTask r.task.action) r.context
        (agendaOf.modify (·.finish r.id) (r.stop agendaOf (Node.perform (.idle σ α)) now)))
    (n : Node σ α) :
    R (n.acts now) (n.clocked now) (n.execute (.idle σ α) now).2 := by
  rw [execute_eq]
  exact actsInRuns_compose (fun n => composes.between (.refl n)) composes.append turn
    (n.agenda.dueIds now) (n.clocked now)

end Node

/-! ## What is changed by acts -/

/-- The tree behind a link is another, or the link is closed and something was behind it. -/
def View.changed (id : LinkId) (before after : View LinkId) : Bool :=
  (before.branch? id).any fun b =>
    match after.branch? id with
    | some c => c.tree ≠ b.tree
    | none => !b.tree.isEmpty

namespace Node

variable {σ α : Type} {n m k : Node σ α} {id : LinkId} {l : Link} {v w : View LinkId}

theorem branch?_view (n : Node σ α) (id : LinkId) :
    n.view.branch? id = (n.link? id).map fun l => ⟨l.id, l.subtree⟩ := by
  simp only [View.branch?, view, link?, List.find?_map]
  rfl

theorem mem_linkIds_iff : id ∈ n.linkIds ↔ ∃ l, n.link? id = some l := by
  constructor
  · intro there
    obtain ⟨l, hl, rfl⟩ := List.mem_map.mp there
    cases found : n.link? l.id with
    | none => exact absurd (List.find?_eq_none.mp found l hl) (by simp)
    | some k => exact ⟨k, rfl⟩
  · rintro ⟨l, found⟩
    exact List.mem_map.mpr ⟨l, mem_links_of_link? found, id_of_link? found⟩

theorem changed_self (v : View LinkId) (id : LinkId) : v.changed id v = false := by
  simp only [View.changed]
  cases v.branch? id <;> simp

/-- What is neither changed by one thing nor by the next is not changed by both. -/
theorem changed_trans (first : n.view.changed id m.view = false)
    (next : m.view.changed id k.view = false) (links : k.linkIds.Sublist m.linkIds) :
    n.view.changed id k.view = false := by
  simp only [View.changed, branch?_view] at *
  cases before : n.link? id with
  | none => rfl
  | some l =>
      cases between : m.link? id with
      | none =>
          have closed : k.link? id = none := by
            by_contra still
            obtain ⟨l', found⟩ := Option.ne_none_iff_exists'.mp still
            have there := links.subset (mem_linkIds_iff.mpr ⟨l', found⟩)
            obtain ⟨l'', found⟩ := mem_linkIds_iff.mp there
            rw [between] at found
            cases found
          simpa [before, between, closed] using first
      | some l' =>
          have same : l'.subtree = l.subtree := by simpa [before, between] using first
          simpa [between, same] using next

variable [Host σ]

/-- What moves keep, and flushing a link too, is kept by every act but the task that reads. -/
theorem Act.keeps {P : Node σ α → Prop} (move : ∀ {n m}, Move (fun _ => True) n m → P n → P m)
    (flush : ∀ id n, P n → P (n.flush id)) (x : Act α) (own : ∀ id, x ≠ .task (.read id))
    (h : P n) : P (x.run n) := by
  have keeps : Program.Keeps (.idle σ α) P := (Program.onlySends_idle σ α).keeps move
  cases x with
  | task a =>
      exact keeps.perform a (fun id reads => absurd (congrArg Act.task reads) (own id))
        (fun id _ h => flush id _ h) h
  | handle id packet arrival => exact keeps.handleOwn packet id arrival h

/-- No act opens a link. -/
theorem linkIds_act (x : Act α) (n : Node σ α) (own : ∀ id, x ≠ .task (.read id)) :
    (x.run n).linkIds.Sublist n.linkIds :=
  Act.keeps (P := fun m => m.linkIds.Sublist n.linkIds) (fun move h => move.linkIds.trans h)
    (fun id m h => (steady_flush m id).linkIds.trans h) x own (.refl _)

/-- The tree behind a link is changed by one of some acts, or it is not changed at all. -/
def ChangedBy (id : LinkId) (as : List (Act α × Node σ α)) (n m : Node σ α) : Prop :=
  n.linkIds.Nodup → m.linkIds.Sublist n.linkIds ∧
    ((∀ x ∈ as, x.2.view.changed id (x.1.run x.2).view = false) →
      n.view.changed id m.view = false)

theorem ChangedBy.of_view (same : n.linkIds.Nodup → m.view = n.view) : ChangedBy id [] n m := by
  intro different
  rw [linkIds_eq, linkIds_eq, same different]
  exact ⟨.refl _, fun _ => changed_self _ id⟩

/-- What changes in two courses changed in one of them. -/
theorem ChangedBy.append {as bs : List (Act α × Node σ α)} (first : ChangedBy id as n m)
    (next : ChangedBy id bs m k) : ChangedBy id (as ++ bs) n k := by
  intro different
  obtain ⟨links, unchanged⟩ := first different
  obtain ⟨links', unchanged'⟩ := next (links.nodup different)
  refine ⟨links'.trans links, fun none => ?_⟩
  exact changed_trans (unchanged fun x hx => none x (List.mem_append_left _ hx))
    (unchanged' fun x hx => none x (List.mem_append_right _ hx)) links'

/-- A tree that changed was changed by an act. -/
theorem composes_changedBy (id : LinkId) : Composes (ChangedBy (σ := σ) (α := α) id) where
  between := fun between => .of_view between.view
  act := fun x n own _ => ⟨linkIds_act x n own, fun none => none _ List.mem_cons_self⟩
  rest := fun n id => .of_view fun _ =>
    (feeds_restReading (P := fun _ _ => False) n id).view_eq
  append := ChangedBy.append

/-- If a pass changes the tree behind a link, then one of its acts does. -/
theorem changed_in_act (different : n.linkIds.Nodup) (now : Nat)
    (changed : n.view.changed id (n.execute (.idle σ α) now).2.view = true) :
    ∃ x ∈ n.acts now, x.2.view.changed id (x.1.run x.2).view = true := by
  have pass : ChangedBy id (n.acts now) n (n.execute (.idle σ α) now).2 := by
    refine acts_compose (composes_changedBy id) (fun r _ => ?_) n
    have begun : ChangedBy id [] r.context (r.start agendaOf now) := .of_view fun _ => rfl
    have run := (composes_changedBy id).perform r.task.action (r.start agendaOf now)
    have ended : ChangedBy id [] (r.stop agendaOf (Node.perform (.idle σ α)) now)
        (agendaOf.modify (·.finish r.id) _) := .of_view fun _ => rfl
    simpa using (begun.append run).append ended
  by_contra none
  push Not at none
  have unchanged := (pass different).2 fun x hx => Bool.eq_false_iff.mpr (none x hx)
  exact Bool.false_ne_true (unchanged.symm.trans changed)

end Node

end SpanningMesh
