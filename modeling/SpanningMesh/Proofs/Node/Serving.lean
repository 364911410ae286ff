import SpanningMesh.Proofs.Node.Churn

/-!
# What waits on a link is seen to

Frames wait on a link for the task that reads or for the one that sends.  Both tasks put themselves
to rest at the end of their own turn, and whatever a node does in between may have more frames wait,
on the same link or on others.  A node has `Served` its links if neither task rests where frames
wait for it, and if the one is due by now and the other after the delay of a retry at the latest.

No move has a task rest too early, since what queues a frame enables the task that sends, and only
bytes that arrive bring in frames.  The turn of the task that reads leaves no frame in the inbox as
long as the application brings no bytes in (`inbox_readFrames`).  The turn of the task that sends puts
itself off if the connection has no room, and rests only when nothing is left (`Served.flush`).

So in every history with a clock that does not run back, nothing that waits is forgotten
(`queued_work_awaited`).
-/

namespace SpanningMesh

open Application (Program)

namespace Node

variable {σ α : Type} [Host σ] {p : Program σ α} {off late late' : LinkId → Prop}
  {n m : Node σ α} {busy : TaskId → Prop} {l k : Link} {id : LinkId}

/-- Where frames wait, the task that is to see to them does not rest, and it is due in time.  That
is not asked of the tasks that send on some links. -/
structure Served (late : LinkId → Prop) (n : Node σ α) : Prop where
  read : ∀ l ∈ n.links, n.agenda.Awaited l.tasks.read (l.inbox ≠ []) n.agenda.now
  send : ∀ l ∈ n.links, ¬ late l.id → n.agenda.Awaited l.tasks.send (l.outbox.isEmpty = false)
    (n.agenda.now + n.settings.retryDelay)

omit [Host σ] in
theorem Served.of_eq (h : Served late n) (links : m.links = n.links) (agenda : m.agenda = n.agenda)
    (settings : m.settings = n.settings) : Served late m := by
  refine ⟨?_, ?_⟩
  · rw [links, agenda]
    exact h.read
  · rw [links, agenda, settings]
    exact h.send

/-! ## Moves -/

/-- No move has a task rest too early. -/
theorem Served.move (h : InStep busy n) (served : Served late n) (move : Move off n m) :
    Served late m := by
  refine ⟨fun k hk => ?_, fun k hk prompt => ?_⟩
  · obtain ⟨l, hl, follows, -⟩ := move.follows hk
    have wakes := move.wakes h hl (l.tasks.read_mem_duties l.id)
      (follows.id ▸ List.mem_map_of_mem hk) (by simp)
    rw [follows.read, move.now]
    refine (served.read l hl).wakes wakes (by simp) (Nat.le_refl _) fun waits => .inl fun none => ?_
    exact waits (List.suffix_nil.mp (none ▸ follows.inbox))
  · obtain ⟨l, hl, follows, outbox⟩ := move.follows hk
    have wakes := move.wakes h hl (l.tasks.send_mem_duties l.id)
      (follows.id ▸ List.mem_map_of_mem hk) (by simp)
    rw [follows.send, move.now, move.settings]
    refine (served.send l hl (follows.id ▸ prompt)).wakes wakes (by simp) (Nat.le_add_right _ _)
      fun waits => ?_
    rcases outbox with same | enabled
    · exact .inl (same ▸ waits)
    · obtain ⟨t, found, -⟩ :=
        h.staffed.duty _ (mem_duties.mpr ⟨l, hl, l.tasks.send_mem_duties l.id⟩)
      rw [enabled]
      exact .inr (Agenda.isEnabled_enable found)

/-- Whatever moves a node makes, waiting work is served. -/
theorem Served.moves (h : InStep busy n) (served : Served late n) (moves : Moves off n m) :
    Served late m :=
  (moves.keeps (P := fun n => InStep busy n ∧ Served late n)
    (fun move h => ⟨h.1.move move, h.2.move h.1 move⟩) ⟨h, served⟩).2

/-! ## Inputs -/

/-- The state of a node over a pass at a time: it is in step and its links are served. -/
structure OnTime (busy : TaskId → Prop) (now : Nat) (n : Node σ α) : Prop where
  inStep : InStep busy n
  served : Served (fun _ => False) n
  now : n.agenda.now = now

theorem OnTime.move {now : Nat} (h : OnTime busy now n) (move : Move off n m) :
    OnTime busy now m :=
  ⟨h.inStep.move move, h.served.move h.inStep move, move.now.trans h.now⟩

theorem OnTime.moves {now : Nat} (h : OnTime busy now n) (moves : Moves (fun _ => True) n m) :
    OnTime busy now m :=
  moves.keeps (fun move h => h.move move) h

omit [Host σ] in
theorem OnTime.hosted {now : Nat} (h : OnTime busy now n) (host : σ) :
    OnTime busy now ({ n with host } : Node σ α) :=
  ⟨h.inStep.hosted host, h.served.of_eq rfl rfl rfl, h.now⟩

omit [Host σ] in
/-- Where frames came in the task that reads is enabled. -/
theorem Served.receive (h : InStep busy n) (served : Served late n) (there : l ∈ n.links)
    (r : Reassembler) (frames : List (Bytes × UInt32)) :
    Served late ((n.putLink { l with reassembler := r, inbox := l.inbox ++ frames }).plan
      fun a => (a.enable l.tasks.read).2) := by
  have now := Agenda.now_after n.agenda (.enable l.tasks.read)
  have wakes := Agenda.wakes_enable False n.agenda l.tasks.read
  refine ⟨fun k hk => ?_, fun k hk prompt => ?_⟩
  · rcases mem_links_putLink hk with rfl | ⟨mem, -⟩
    · obtain ⟨t, found, -⟩ :=
        h.staffed.duty _ (mem_duties.mpr ⟨l, there, l.tasks.read_mem_duties l.id⟩)
      exact now ▸ (served.read l there).wakes (wakes l.tasks.read) not_false (Nat.le_refl _)
        fun _ => .inr (Agenda.isEnabled_enable found)
    · exact now ▸ (served.read k mem).wakes (wakes k.tasks.read) not_false (Nat.le_refl _) .inl
  · rcases mem_links_putLink hk with rfl | ⟨mem, -⟩
    · exact now ▸ (served.send l there prompt).wakes (wakes l.tasks.send) not_false
        (Nat.le_add_right _ _) .inl
    · exact now ▸ (served.send k mem prompt).wakes (wakes k.tasks.send) not_false
        (Nat.le_add_right _ _) .inl

/-- A frame that is complete wakes the read task of its link. -/
theorem OnTime.arrive {now : Nat} (h : OnTime busy now n) (id : LinkId) (chunk : Bytes) :
    OnTime busy now (n.arrive id chunk) := by
  cases found : n.link? id with
  | none =>
      rw [arrive_of_none found]
      exact h
  | some l =>
      have there := mem_links_of_link? found
      have inStep := h.inStep.arrive id chunk
      cases received : l.receive chunk n.time with
      | mk result l' =>
          cases result with
          | error e =>
              rw [arrive_of_error found (congrArg Prod.fst received)]
              exact h.moves (moves_close n id)
          | ok count =>
              obtain ⟨bodies, r, -, length, rfl⟩ := Link.receive_ok received
              rw [arrive_of_ok found received] at inStep ⊢
              split at inStep
              next none =>
                rw [if_pos none]
                have nothing : bodies = [] := List.length_eq_zero_iff.mp (length.trans none)
                have same : l.inbox ++ bodies.map (·, n.time) <:+ l.inbox := by simp [nothing]
                exact h.moves (.single (.put there
                  ⟨rfl, rfl, rfl, same, fun closing => closing, fun timed => timed⟩))
              next some =>
                rw [if_neg some]
                exact ⟨inStep, h.served.receive h.inStep there r _,
                  (Agenda.now_after n.agenda (.enable l.tasks.read)).trans h.now⟩

/-- A link is opened with nothing that waits. -/
theorem OnTime.addLink {now : Nat} (h : OnTime busy now n) (station : Bool) :
    OnTime busy now (n.addLink station).2 := by
  have opened : OnTime busy now (n.opened station) := by
    have inStep := h.inStep.opened station
    obtain ⟨tasks, a, added, enrols⟩ := h.inStep.addLinkTasks ⟨n.nextLink⟩ station
    have same := enrols.now
    simp only [Node.opened, added] at inStep ⊢
    refine ⟨inStep, ⟨fun k hk => ?_, fun k hk prompt => ?_⟩, same.trans h.now⟩
    · rcases List.mem_append.mp hk with old | new
      · have kept := h.inStep.lt_nextId old (k.tasks.read_mem_duties k.id)
        exact same ▸ (h.served.read k old).wakes (enrols.wakes _ kept) not_false
          (Nat.le_refl _) .inl
      · rw [List.mem_singleton.mp new]
        exact Agenda.awaited_of_disabled enrols.read (not_not_intro rfl) _
    · rcases List.mem_append.mp hk with old | new
      · have kept := h.inStep.lt_nextId old (k.tasks.send_mem_duties k.id)
        exact same ▸ (h.served.send k old prompt).wakes (enrols.wakes _ kept) not_false
          (Nat.le_add_right _ _) .inl
      · rw [List.mem_singleton.mp new]
        exact Agenda.awaited_of_disabled enrols.send (by simp [Outbox.isEmpty, Outbox.length]) _
  exact opened.moves (moves_opened n station)

/-- Without links no work waits. -/
theorem OnTime.stop {now : Nat} (h : OnTime busy now n) : OnTime busy now n.stop := by
  have nothing : ∀ l, l ∉ n.stop.links := fun l hl => List.not_mem_nil (links_stop n ▸ hl)
  exact ⟨inStep_stop n, ⟨fun l hl => absurd hl (nothing l), fun l hl => absurd hl (nothing l)⟩,
    (h.moves (moves_foldl_close n n.linkIds)).now⟩

/-- Everything but a pass that may be asked of a node leaves its links served. -/
theorem OnTime.input {now : Nat} (h : OnTime busy now n) {i : Input α}
    (rests : ∀ now, i ≠ .execute now) : OnTime busy now (n.obey p i) := by
  cases i with
  | addLink station => exact h.addLink station
  | arrive id chunk => exact h.arrive id chunk
  | disconnect id => exact h.moves (moves_close n id)
  | close id => exact h.moves (moves_close n id)
  | send s => exact h.moves (moves_send n s)
  | execute now => exact absurd rfl (rests now)
  | stop => exact h.stop
  | onPacket kind a => exact h.moves (moves_elsewhere rfl rfl rfl rfl)
  | onEvent kind a => exact h.moves (moves_elsewhere rfl rfl rfl rfl)
  | addTask interval runs a => exact h.moves (moves_addTask n interval runs a)
  | joinElection own => exact h.moves (moves_joinElection n own)

/-! ## What an application may do meanwhile -/

/-- What becomes of a node by all that may be asked of it but passes and bytes that arrive, and by
changes elsewhere than in its links, its agenda and what it is set to. -/
inductive Managed : Node σ α → Node σ α → Prop where
  | elsewhere {n m : Node σ α} (links : m.links = n.links) (nextLink : m.nextLink = n.nextLink)
      (settings : m.settings = n.settings) (agenda : m.agenda = n.agenda) : Managed n m
  | input (n : Node σ α) {i : Input α} (rests : ∀ now, i ≠ .execute now)
      (silent : ∀ id chunk, i ≠ .arrive id chunk) : Managed n (n.obey (.idle σ α) i)
  | andThen {n m k : Node σ α} (first : Managed n m) (next : Managed m k) : Managed n k

theorem Sent.managed (sent : Sent n m) : Managed n m := by
  induction sent with
  | nothing => exact .elsewhere rfl rfl rfl rfl
  | @send m _ s ih => exact ih.andThen (.input m (i := .send s) (by simp) (by simp))
  | host _ s ih => exact ih.andThen (.elsewhere rfl rfl rfl rfl)

theorem Managed.asked (managed : Managed n m) : Asked n m := by
  induction managed with
  | elsewhere links nextLink _ agenda => exact .elsewhere links nextLink agenda
  | input n rests => exact .input n rests
  | andThen _ _ first next => exact first.andThen next

/-- Links that an application manages are served on time. -/
theorem OnTime.managed {now : Nat} (managed : Managed n m) (h : OnTime busy now n) :
    OnTime busy now m := by
  induction managed with
  | elsewhere links nextLink settings agenda =>
      exact h.moves (moves_elsewhere links nextLink settings agenda)
  | input n rests => exact h.input rests
  | andThen _ _ first next => exact next (first h)

/-- Nothing came in: the frames that wait on a link waited there before, and none behind them. -/
def Dwindles (n m : Node σ α) : Prop :=
  ∀ k ∈ m.links, k.inbox = [] ∨
    ∃ l ∈ n.links, l.id = k.id ∧ l.tasks.read = k.tasks.read ∧ k.inbox <:+ l.inbox

omit [Host σ] in
theorem Dwindles.of_links_eq (links : m.links = n.links) : Dwindles n m :=
  fun k hk => .inr ⟨k, links ▸ hk, rfl, rfl, List.suffix_rfl⟩

omit [Host σ] in
theorem Dwindles.trans {o : Node σ α} (first : Dwindles n m) (next : Dwindles m o) :
    Dwindles n o := by
  intro k hk
  rcases next k hk with empty | ⟨l, hl, id, read, inbox⟩
  · exact .inl empty
  · rcases first l hl with empty | ⟨l₀, hl₀, id₀, read₀, inbox₀⟩
    · exact .inl (List.suffix_nil.mp (empty ▸ inbox))
    · exact .inr ⟨l₀, hl₀, id₀.trans id, read₀.trans read, inbox.trans inbox₀⟩

/-- Moves bring no new frames. -/
theorem Dwindles.of_moves (moves : Moves (fun _ => True) n m) : Dwindles n m := by
  intro k hk
  obtain ⟨l, hl, follows⟩ := moves.follows k hk
  exact .inr ⟨l, hl, follows.id.symm, follows.read.symm, follows.inbox⟩

/-- A link is opened with an empty inbox. -/
theorem dwindles_addLink (n : Node σ α) (station : Bool) : Dwindles n (n.addLink station).2 := by
  have opened : Dwindles n (n.opened station) := by
    intro k hk
    rcases List.mem_append.mp hk with old | new
    · exact .inr ⟨k, old, rfl, rfl, List.suffix_rfl⟩
    · rw [List.mem_singleton.mp new]
      exact .inl rfl
  exact opened.trans (.of_moves (moves_opened n station))

/-- Of all that may be asked of a node only bytes bring frames in. -/
theorem dwindles_obey (n : Node σ α) {i : Input α} (rests : ∀ now, i ≠ .execute now)
    (silent : ∀ id chunk, i ≠ .arrive id chunk) : Dwindles n (n.obey p i) := by
  cases i with
  | addLink station => exact dwindles_addLink n station
  | arrive id chunk => exact absurd rfl (silent id chunk)
  | disconnect id => exact .of_moves (moves_close n id)
  | close id => exact .of_moves (moves_close n id)
  | send s => exact .of_moves (moves_send n s)
  | execute now => exact absurd rfl (rests now)
  | stop => exact fun k hk => absurd hk (links_stop n ▸ List.not_mem_nil)
  | onPacket | onEvent => exact .of_links_eq rfl
  | addTask interval runs a => exact .of_moves (moves_addTask n interval runs a)
  | joinElection own => exact .of_moves (moves_joinElection n own)

/-- An application that manages links brings no new frames. -/
theorem Managed.dwindles (managed : Managed n m) : Dwindles n m := by
  induction managed with
  | elsewhere links => exact .of_links_eq links
  | input n rests silent => exact dwindles_obey n rests silent
  | andThen _ _ first next => exact first.trans next

end Node

/-- A program that does to its node what may be asked of it but passes and bytes that arrive, and
nothing else to its links, its agenda and what it is set to. -/
structure Application.Program.OnlyManages {σ α : Type} [Host σ] (p : Program σ α) : Prop where
  task : ∀ a n, Node.Managed n (p.task a n)
  handle : ∀ a packet id arrival n, Node.Managed n (p.handle a packet id arrival n).1
  listen : ∀ a e n, Node.Managed n (p.listen a e n)

namespace Application.Program

variable {σ α : Type} [Host σ] {p : Program σ α}

theorem OnlySends.manages (only : p.OnlySends) : p.OnlyManages where
  task a n := (only.task a n).managed
  handle a packet id arrival n := (only.handle a packet id arrival n).managed
  listen a e n := (only.listen a e n).managed

theorem OnlyManages.asks (only : p.OnlyManages) : p.OnlyAsks where
  task a n := (only.task a n).asked
  handle a packet id arrival n := (only.handle a packet id arrival n).asked
  listen a e n := (only.listen a e n).asked

/-- What every move and all that may be done keeps, such a program keeps. -/
theorem OnlyManages.keeps (only : p.OnlyManages) {P : Node σ α → Prop}
    (move : ∀ {n m}, Node.Move (fun _ => True) n m → P n → P m)
    (managed : ∀ {n m}, Node.Managed n m → P n → P m) : p.Keeps P where
  move := move
  task a n := managed (only.task a n)
  handle a packet id arrival n := managed (only.handle a packet id arrival n)
  listen a e n := managed (only.listen a e n)

end Application.Program

namespace Node

variable {σ α : Type} [Host σ] {p : Program σ α} {off late late' : LinkId → Prop}
  {n m : Node σ α} {busy : TaskId → Prop} {l k : Link} {id : LinkId}

theorem onTime_keeps (only : p.OnlyManages) (busy : TaskId → Prop) (now : Nat) :
    p.Keeps (OnTime busy now) :=
  only.keeps (fun move h => h.move move) fun managed h => h.managed managed

/-! ## The turn of the task that reads -/

/-- As long as the application brings no bytes in, no frames come in while frames are handled, and
the last one is handled. -/
theorem inbox_readFrames (only : p.OnlyManages) {limit : Nat} (h : InStep busy n)
    (few : ∀ l ∈ n.links, l.id = id → l.inbox.length ≤ limit) :
    ∀ l ∈ (n.readFrames p id limit).links, l.id = id → l.inbox = [] := by
  induction limit generalizing n with
  | zero => exact fun l hl same => List.length_eq_zero_iff.mp (Nat.le_zero.mp (few l hl same))
  | succ limit ih =>
      have dwindles : ∀ {n m : Node σ α}, Dwindles n m →
          (∀ l ∈ n.links, l.id = id → l.inbox.length ≤ limit) →
          ∀ k ∈ m.links, k.id = id → k.inbox.length ≤ limit := by
        intro n m dwindles few k hk same
        rcases dwindles k hk with empty | ⟨l, hl, at_id, -, inbox⟩
        · rw [empty]
          exact Nat.zero_le _
        · exact Nat.le_trans inbox.length_le (few l hl (at_id.trans same))
      have keeps : p.Keeps fun n => InStep busy n ∧
          ∀ l ∈ n.links, l.id = id → l.inbox.length ≤ limit :=
        only.keeps (fun move h => ⟨h.1.move move, dwindles (.of_moves (.single move)) h.2⟩)
          fun managed h => ⟨h.1.asked managed.asked, dwindles managed.dwindles h.2⟩
      simp only [Node.readFrames]
      split
      next none =>
        intro l hl same
        have found := link?_of_mem h.different hl
        rw [same] at found
        rw [found, Option.bind_some, Link.nextFrame] at none
        split at none
        next empty => exact empty
        next => cases none
      next body arrival l next =>
        have move : Move (fun _ => True) n (n.putLink l) := move_takeFrame next
        have taken := h.move move
        obtain ⟨k, rest, found, waiting, rfl⟩ := inbox_of_next next
        have less := few k (mem_links_of_link? found) (id_of_link? found)
        rw [waiting] at less
        have left : ∀ l ∈ (n.putLink { k with inbox := rest }).links, l.id = id →
            l.inbox.length ≤ limit := by
          intro l hl same
          rcases mem_links_putLink hl with rfl | ⟨-, other⟩
          · exact Nat.le_of_succ_le_succ less
          · exact absurd (same.trans (id_of_link? found).symm) other
        obtain ⟨routed, few⟩ := (keeps.reading id).routeFrame trivial ⟨taken, left⟩
        exact ih routed few

/-- A turn of the task that reads has frames enough to handle all that waits. -/
theorem inbox_readFrames_readLimit (only : p.OnlyManages) (h : InStep busy n) (id : LinkId) :
    ∀ l ∈ (n.readFrames p id (n.readLimit id)).links, l.id = id → l.inbox = [] := by
  refine inbox_readFrames only h fun l hl same => ?_
  simp only [readLimit, ← same, link?_of_mem h.different hl]
  exact Nat.le_add_right _ _

omit [Host σ] in
theorem links_restReading (n : Node σ α) (id : LinkId) : (n.restReading id).links = n.links := by
  simp only [Node.restReading]
  split <;> rfl

/-- The turn of the task that reads leaves no frame in the inbox. -/
theorem inbox_read (only : p.OnlyManages) (h : InStep busy n) (id : LinkId) :
    ∀ l ∈ (n.read p id).links, l.id = id → l.inbox = [] := by
  rw [Node.read, links_restReading]
  exact inbox_readFrames_readLimit only h id

omit [Host σ] in
/-- The task that reads rests when nothing is left to be read. -/
theorem Served.restReading (h : InStep busy n) (served : Served late n)
    (none : ∀ l ∈ n.links, l.id = id → l.inbox = []) : Served late (n.restReading id) := by
  simp only [Node.restReading]
  split
  · exact served
  next l found =>
    have there := mem_links_of_link? found
    have now : (n.agenda.disable l.tasks.read).2.now = n.agenda.now :=
      Agenda.now_after n.agenda (.disable _)
    refine ⟨fun k hk => ?_, fun k hk prompt => ?_⟩
    · by_cases mine : k = l
      · subst mine
        exact Agenda.awaited_disable _ _ _ (not_not_intro (none k there (id_of_link? found)))
      · have other : k.tasks.read ≠ l.tasks.read := fun same =>
          mine (h.eq_of_task hk (k.tasks.read_mem_duties k.id) there (l.tasks.read_mem_duties l.id)
            same).1
        have wakes := Agenda.wakes_disable False n.agenda other
        exact now ▸ (served.read k hk).wakes wakes not_false (Nat.le_refl _) .inl
    · have other : k.tasks.send ≠ l.tasks.read :=
        h.task_ne hk (k.tasks.send_mem_duties k.id) there (l.tasks.read_mem_duties l.id) (by simp)
      have wakes := Agenda.wakes_disable False n.agenda other
      exact now ▸ (served.send k hk prompt).wakes wakes not_false (Nat.le_add_right _ _) .inl

/-! ## The turn of the task that sends -/

omit [Host σ] in
/-- Nothing is asked of a link that is closed. -/
theorem Served.of_closed (served : Served (· = id) n) (closed : ∀ l ∈ n.links, l.id ≠ id) :
    Served (fun _ => False) n :=
  ⟨served.read, fun l hl _ => served.send l hl (closed l hl)⟩

omit [Host σ] in
/-- What waits on a link may change while nothing is asked of it. -/
theorem Served.putLink (served : Served (· = id) n) (there : l ∈ n.links) (same : l.id = id)
    (q : Outbox) : Served (· = id) (n.putLink { l with outbox := q }) := by
  refine ⟨fun k hk => ?_, fun k hk prompt => ?_⟩
  · rcases mem_links_putLink hk with rfl | ⟨mem, -⟩
    · exact served.read l there
    · exact served.read k mem
  · rcases mem_links_putLink hk with rfl | ⟨mem, -⟩
    · exact absurd same prompt
    · exact served.send k mem prompt

omit [Host σ] in
/-- A change of the task that sends on a link does not touch the others. -/
theorem Served.rearm (h : InStep busy n) (served : Served (· = id) n) (there : l ∈ n.links)
    (same : l.id = id) {f : Agenda (Action α) → Agenda (Action α)}
    (others : ∀ i, i ≠ l.tasks.send → Agenda.Wakes False i n.agenda (f n.agenda))
    (sends : (f n.agenda).Awaited l.tasks.send (l.outbox.isEmpty = false)
      (n.agenda.now + n.settings.retryDelay)) (now : (f n.agenda).now = n.agenda.now) :
    Served (fun _ => False) (n.plan f) := by
  refine ⟨fun k hk => ?_, fun k hk _ => ?_⟩
  · have other : k.tasks.read ≠ l.tasks.send :=
      h.task_ne hk (k.tasks.read_mem_duties k.id) there (l.tasks.send_mem_duties l.id) (by simp)
    exact now ▸ (served.read k hk).wakes (others _ other) not_false (Nat.le_refl _) .inl
  · by_cases mine : k = l
    · subst mine
      exact now ▸ sends
    · have other : k.tasks.send ≠ l.tasks.send := fun same =>
        mine (h.eq_of_task hk (k.tasks.send_mem_duties k.id) there (l.tasks.send_mem_duties l.id)
          same).1
      have apart : k.id ≠ id := fun mine' =>
        mine (eq_of_id_eq h.different hk there (mine'.trans same.symm))
      exact now ▸ (served.send k hk apart).wakes (others _ other) not_false (Nat.le_add_right _ _)
        .inl

/-- After its turn the task that sends on a link waits for room, or it rests and nothing is left to
be sent. -/
theorem Served.flush (h : InStep busy n) (served : Served (· = id) n)
    (on : ∀ l ∈ n.links, l.id = id → n.agenda.isEnabled l.tasks.send = true) :
    Served (fun _ => False) (n.flush id) := by
  cases found : n.link? id with
  | none =>
      rw [flush_of_none found]
      refine served.of_closed fun l hl same => ?_
      rw [← same, link?_of_mem h.different hl] at found
      cases found
  | some l =>
      have there := mem_links_of_link? found
      have same := id_of_link? found
      obtain ⟨q, host, cases⟩ := flush_cases found
      have step := h.written there q host
      have hosted : Served (· = id) ({ n with host } : Node σ α) := by
        refine served.of_eq ?_ ?_ ?_ <;> rfl
      have put : Served (· = id) (n.written l q host) := hosted.putLink there same q
      have mine : { l with outbox := q } ∈ (n.written l q host).links := mem_putLink there rfl
      rcases cases with closes | waits | ⟨empty, rests⟩
      · have moves : Moves (fun _ => False) (n.written l q host) _ := moves_close _ id
        rw [closes]
        refine (put.moves step moves).of_closed fun k hk => ?_
        rw [close_links] at hk
        exact of_decide_eq_true (List.mem_filter.mp hk).2
      · rw [waits]
        refine put.rearm step mine same (fun i other => ?_) ?_ (Agenda.now_after _ (.delay _ _))
        · exact Agenda.wakes_postpone _ _ i fun same => absurd same other
        · exact Agenda.awaited_postpone (on l there same) _ (Moment.after_le _ _)
      · rw [rests]
        refine put.rearm step mine same (fun i other => ?_) ?_ (Agenda.now_after _ (.disable _))
        · exact Agenda.wakes_disable _ _ other
        · exact Agenda.awaited_disable _ _ _ (by simp [empty])

/-! ## Passes -/

omit [Host σ] in
theorem Served.mono (served : Served late n)
    (le : ∀ l ∈ n.links, late l.id → late' l.id) : Served late' n :=
  ⟨served.read, fun l hl prompt => served.send l hl fun is_late => prompt (le l hl is_late)⟩

omit [Host σ] in
/-- Only the task that sends is late once its turn has begun. -/
theorem Served.begin (h : InStep busy n) (served : Served (fun _ => False) n) (id : TaskId) :
    Served (fun k => ∃ l ∈ n.links, l.id = k ∧ l.tasks.send = id)
      (n.plan (·.begin id n.agenda.now)) := by
  have others : ∀ i, i ≠ id → Agenda.Wakes False i n.agenda (n.agenda.begin id n.agenda.now) :=
    fun i other => .of_find?_eq rfl (Agenda.find?_update_of_ne _ _ other)
  refine ⟨fun k hk => ?_, fun k hk prompt => ?_⟩
  · by_cases mine : k.tasks.read = id
    · obtain ⟨t, found, serves⟩ :=
        h.staffed.duty _ (mem_duties.mpr ⟨k, hk, k.tasks.read_mem_duties k.id⟩)
      have after : (n.agenda.begin id n.agenda.now).find? k.tasks.read =
          some (t.begun n.agenda.now) := by
        rw [Agenda.begin, ← mine, Agenda.find?_update_self, found, Option.map_some]
      have on := serves.enabled_begun (by simp) n.agenda.now
      refine ⟨fun waits => Agenda.isEnabled_iff.mpr ⟨_, after, ?_⟩, fun t' found' _ => ?_⟩
      · obtain ⟨u, found', enabled⟩ := Agenda.isEnabled_iff.mp ((served.read k hk).1 waits)
        obtain rfl := Option.some.inj (found.symm.trans found')
        exact on.trans enabled
      · obtain rfl := Option.some.inj (after.symm.trans found')
        show Moment.after n.agenda.now t.interval ≤ n.agenda.now
        rw [serves.prompt k.id rfl]
        exact Moment.after_le n.agenda.now 0
    · exact (served.read k hk).wakes (others _ mine) not_false (Nat.le_refl _) .inl
  · have other : k.tasks.send ≠ id := fun same => prompt ⟨k, hk, rfl, same⟩
    exact (served.send k hk not_false).wakes (others _ other) not_false (Nat.le_add_right _ _) .inl

omit [Host σ] in
theorem Served.finish (served : Served late n) (id : TaskId) :
    Served late (n.plan (·.finish id)) := by
  have now := (Agenda.wakes_finish False n.agenda id id).now
  refine ⟨fun k hk => ?_, fun k hk prompt => ?_⟩
  · exact now ▸ (served.read k hk).wakes (Agenda.wakes_finish False n.agenda id _) not_false
      (Nat.le_refl _) .inl
  · exact now ▸ (served.send k hk prompt).wakes (Agenda.wakes_finish False n.agenda id _) not_false
      (Nat.le_add_right _ _) .inl

omit [Host σ] in
/-- What is due by now is due by any later time. -/
theorem Served.clocked (served : Served late n) {now : Nat} (le : n.agenda.now ≤ now) :
    Served late (n.clocked now) :=
  ⟨fun k hk => (served.read k hk).mono le,
    fun k hk prompt => (served.send k hk prompt).mono (Nat.add_le_add_right le _)⟩

theorem now_flush (n : Node σ α) (id : LinkId) : (n.flush id).agenda.now = n.agenda.now := by
  cases found : n.link? id with
  | none => rw [flush_of_none found]
  | some l =>
      obtain ⟨q, host, closes | waits | ⟨-, rests⟩⟩ := flush_cases found
      · rw [closes]
        exact now_close _ id
      · rw [waits]
        exact Agenda.now_after n.agenda (.delay _ _)
      · rw [rests]
        exact Agenda.now_after n.agenda (.disable _)

omit [Host σ] in
theorem now_restReading (n : Node σ α) (id : LinkId) :
    (n.restReading id).agenda.now = n.agenda.now := by
  simp only [Node.restReading]
  split
  · rfl
  · exact Agenda.now_after n.agenda (.disable _)

/-- Once a link was read, its read task rests until more frames come. -/
theorem OnTime.read (only : p.OnlyManages) {now : Nat} (h : OnTime busy now n) (id : LinkId) :
    OnTime busy now (n.read p id) := by
  have after := ((onTime_keeps only busy now).reading id).readFrames (n.readLimit id) h
  have none := inbox_readFrames_readLimit only h.inStep id
  exact ⟨after.inStep.restReading id, after.served.restReading after.inStep none,
    (now_restReading _ id).trans after.now⟩

/-- What runs is the task that sends on a link, or nobody's task that sends. -/
theorem OnTime.perform (only : p.OnlyManages) {now : Nat} (h : OnTime busy now n) {id : TaskId}
    {t : Task (Action α)} (found : n.agenda.find? id = some t) (on : t.enabled = true) :
    OnTime (fun i => i = id ∨ busy i) now ((n.plan (·.begin id now)).perform p t.action) := by
  have begun := h.inStep.begin id now
  have served := h.served.begin h.inStep id
  rw [h.now] at served
  by_cases sends : ∃ k, t.action = .send k
  · obtain ⟨k, action⟩ := sends
    have duty := h.inStep.staffed.owned id t found (.inr (by rw [action]; rfl))
    obtain ⟨l, hl, mine⟩ := mem_duties.mp duty
    rw [action] at mine
    obtain ⟨rfl, rfl⟩ := LinkTasks.eq_of_send_mem_duties mine
    have one : ∀ k ∈ n.links, k.tasks.send = l.tasks.send → k = l := fun k hk same =>
      (h.inStep.eq_of_task hk (k.tasks.send_mem_duties k.id) hl (l.tasks.send_mem_duties l.id)
        same).1
    have late : Served (· = l.id) (n.plan (·.begin l.tasks.send now)) := by
      refine served.mono ?_
      rintro k hk ⟨k', hk', same, task⟩
      exact same.symm.trans (congrArg Link.id (one k' hk' task))
    have enabled : ∀ k ∈ n.links, k.id = l.id →
        (n.agenda.begin l.tasks.send now).isEnabled k.tasks.send = true := by
      intro k hk same
      obtain rfl := eq_of_id_eq h.inStep.different hk hl same
      obtain ⟨u, found', serves⟩ := h.inStep.staffed.duty _ duty
      obtain rfl := Option.some.inj (found.symm.trans found')
      refine Agenda.isEnabled_iff.mpr ⟨t.begun now, ?_, ?_⟩
      · rw [Agenda.begin, Agenda.find?_update_self, found, Option.map_some]
      · rw [action] at serves
        rwa [serves.enabled_begun (by simp)]
    rw [action]
    exact ⟨begun.flush l.id, late.flush begun enabled, (now_flush _ l.id).trans h.now⟩
  · have late : Served (fun _ => False) (n.plan (·.begin id now)) := by
      refine served.mono ?_
      rintro k - ⟨l, hl, -, rfl⟩
      exact sends ⟨l.id, h.inStep.staffed.action_eq (d := (l.tasks.send, .send l.id))
        (mem_duties.mpr ⟨l, hl, l.tasks.send_mem_duties l.id⟩) found⟩
    have start : OnTime (fun i => i = id ∨ busy i) now (n.plan (·.begin id now)) :=
      ⟨begun, late, h.now⟩
    exact (onTime_keeps only _ now).perform _ (fun id _ h => h.read only id)
      (fun k action _ => absurd ⟨k, action⟩ sends) start

/-- Every turn of a pass leaves the links served. -/
theorem OnTime.turn (only : p.OnlyManages) {now : Nat} (h : OnTime busy now n) (id : TaskId) :
    OnTime busy now (Agenda.turn agendaOf (Node.perform p) now id n).1 := by
  rw [Agenda.turn_eq]
  cases ran : Agenda.Run.ofTurn agendaOf now id n with
  | none => exact h
  | some r =>
      obtain ⟨found, due, rfl, rfl⟩ := (Agenda.ofTurn_eq_some_iff agendaOf now).mp ran
      have on := (Agenda.isDue_iff.mp (Bool.and_eq_true_iff.mp due).1).1
      have performed := h.perform only found on
      exact ⟨performed.inStep.finish, performed.served.finish r.id,
        (Agenda.wakes_finish False _ r.id r.id).now.trans performed.now⟩

/-- A pass over the tasks serves all work that waits. -/
theorem OnTime.execute (only : p.OnlyManages) {now now' : Nat} (h : OnTime busy now n)
    (le : now ≤ now') : OnTime busy now' (n.execute p now').2 := by
  rw [execute_eq]
  exact Agenda.afterTurns_keeps _ _ now' (OnTime busy now') (fun id _ h => h.turn only id) _
    ⟨h.inStep.clocked now', h.served.clocked (h.now ▸ le), rfl⟩

/-! ## Histories -/

omit [Host σ] in
/-- The times of the passes of a history. -/
def passTimes (events : List (σ × Input α)) : List Nat :=
  events.filterMap fun e =>
    match e.2 with
    | .execute now => some now
    | _ => none

omit [Host σ] in
/-- A history in which the clock does not run back begins with a pass that is not too early, or with
something else. -/
theorem passTimes_cases {t : Nat} {e : σ × Input α} {events : List (σ × Input α)}
    (clock : (t :: passTimes (e :: events)).Pairwise (· ≤ ·)) :
    (∃ now, e.2 = .execute now ∧ t ≤ now ∧ (now :: passTimes events).Pairwise (· ≤ ·)) ∨
      (∀ now, e.2 ≠ .execute now) ∧ (t :: passTimes events).Pairwise (· ≤ ·) := by
  obtain ⟨host, i⟩ := e
  cases i with
  | execute now =>
      obtain ⟨later, clock⟩ := List.pairwise_cons.mp clock
      exact .inl ⟨now, rfl, later now List.mem_cons_self, clock⟩
  | addLink | arrive | disconnect | close | send | stop | onPacket | onEvent | addTask
    | joinElection => exact .inr ⟨nofun, clock⟩

/-- While the clock does not run back a node sees to its links in time, and what comes later comes
at a later time. -/
theorem OnTime.live_before (only : p.OnlyManages) {now : Nat} (h : OnTime busy now n)
    (events later : List (σ × Input α))
    (clock : (now :: passTimes (events ++ later)).Pairwise (· ≤ ·)) :
    ∃ t, OnTime busy t (n.live p events) ∧ (t :: passTimes later).Pairwise (· ≤ ·) := by
  induction events generalizing n now with
  | nil => exact ⟨now, h, clock⟩
  | cons e events ih =>
      have hosted := h.hosted e.1
      rcases passTimes_cases clock with ⟨now', pass, le, clock⟩ | ⟨rests, clock⟩
      · refine ih ?_ clock
        dsimp only
        rw [pass]
        exact hosted.execute only le
      · exact ih (hosted.input rests) clock

/-- All work is on time after any history whose passes follow each other in time. -/
theorem OnTime.live (only : p.OnlySends) {now : Nat} (h : OnTime busy now n)
    (events : List (σ × Input α)) (clock : (now :: passTimes events).Pairwise (· ≤ ·)) :
    ∃ now, OnTime busy now (n.live p events) := by
  obtain ⟨t, onTime, -⟩ := h.live_before only.manages events [] (by rwa [List.append_nil])
  exact ⟨t, onTime⟩

omit [Host σ] in
theorem OnTime.of_new (new : n.links = []) (none : n.agenda = {}) : OnTime busy 0 n :=
  ⟨.of_new new none, ⟨by simp [new], by simp [new]⟩, by rw [none]⟩

/-- In every history in which the clock does not run back and the application only sends, a link on
which frames came in has its read task enabled and due by now, and a link on which frames wait to be
sent has its send task enabled and due after the delay of a retry at the latest. -/
theorem queued_work_awaited (only : p.OnlySends) (new : n.links = []) (none : n.agenda = {})
    (events : List (σ × Input α)) (clock : (passTimes events).Pairwise (· ≤ ·)) :
    let m := n.live p events
    ∀ l ∈ m.links,
      (l.inbox ≠ [] → ∃ t, m.agenda.find? l.tasks.read = some t ∧ t.enabled = true ∧
        t.due ≤ m.agenda.now) ∧
      (l.outbox.isEmpty = false → ∃ t, m.agenda.find? l.tasks.send = some t ∧ t.enabled = true ∧
        t.due ≤ m.agenda.now + m.settings.retryDelay) := by
  intro m l hl
  have start : OnTime (fun _ => False) 0 n := .of_new new none
  obtain ⟨now, h⟩ := start.live only events
    (List.pairwise_cons.mpr ⟨fun _ _ => Nat.zero_le _, clock⟩)
  refine ⟨fun waits => ?_, fun waits => ?_⟩
  · obtain ⟨t, found, on⟩ := Agenda.isEnabled_iff.mp ((h.served.read l hl).1 waits)
    exact ⟨t, found, on, (h.served.read l hl).2 t found on⟩
  · obtain ⟨t, found, on⟩ := Agenda.isEnabled_iff.mp ((h.served.send l hl not_false).1 waits)
    exact ⟨t, found, on, (h.served.send l hl not_false).2 t found on⟩

/-- A tree is heard, and before the node has sent its own another frame comes in. -/
def hurry : List (Outlets Unit × Input Empty) :=
  (treeArrives ++ [Input.arrive ⟨1⟩ [1, 0, 0, 0, 7]]).map fun i => ({ application := () }, i)

theorem queued_work_awaited_hurry :
    Program.OnlySends (.idle (Outlets Unit) Empty) ∧ receiver.links = [] ∧ receiver.agenda = {} ∧
      (passTimes hurry).Pairwise (· ≤ ·) ∧
      let m := receiver.live (.idle (Outlets Unit) Empty) hurry
      ∃ l ∈ m.links, l.inbox ≠ [] ∧ l.outbox.isEmpty = false ∧
        (∃ t, m.agenda.find? l.tasks.read = some t ∧ t.enabled = true ∧ t.due ≤ m.agenda.now) ∧
        ∃ t, m.agenda.find? l.tasks.send = some t ∧ t.enabled = true ∧
          t.due ≤ m.agenda.now + m.settings.retryDelay := by
  have only : Program.OnlySends (.idle (Outlets Unit) Empty) := Program.onlySends_idle _ _
  have clock : (passTimes hurry).Pairwise (· ≤ ·) := by decide
  obtain ⟨l, hl, came, waits⟩ : ∃ l ∈ (receiver.live (.idle (Outlets Unit) Empty) hurry).links,
      l.inbox ≠ [] ∧ l.outbox.isEmpty = false := by
    decide +kernel
  have awaited := queued_work_awaited (n := receiver) only rfl rfl hurry clock l hl
  exact ⟨only, rfl, rfl, clock, l, hl, came, waits, awaited.1 came, awaited.2 waits⟩

end Node

end SpanningMesh
