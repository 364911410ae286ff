import SpanningMesh.Proofs.Framing
import SpanningMesh.Proofs.Node.Telling

/-!
# Deadlines and answers that came before them

A link is closed by its timeout task unless an answer disarms it before, and an answer does so when
its frame is read.  In a pass in which both tasks of a link are due, the one that gives the link up
has its turn first, since it was added first.  So an answer may wait in the inbox of the link that is
closed for want of it.

It cannot have waited for long.  Every pass reads all that came in before it (`inbox_execute`), and
nothing comes in during a pass.  What waits on a link when its deadline runs out was therefore
received after the last pass (`waiting_at_timeout`).
-/

namespace SpanningMesh

open Application (Program)

namespace Node

variable {σ α : Type} [Host σ] {p : Program σ α} {n m : Node σ α} {busy : TaskId → Prop}
  {id : LinkId} {now : Nat}

instance (a : Action α) (id : LinkId) : Decidable (a = .timeout id) :=
  match a with
  | .timeout k => decidable_of_iff (k = id) (by simp)
  | .exchange _ | .read _ | .send _ | .setClock _ | .announce | .tell _ | .application _ =>
      isFalse (by simp)

/-! ## What a pass leaves in the inboxes -/

/-- No callback brings new frames. -/
theorem dwindles_keeps (only : p.OnlyManages) (n : Node σ α) : p.Keeps (Dwindles n) :=
  only.keeps (fun move h => h.trans (.of_moves (.single move))) fun managed h =>
    h.trans managed.dwindles

theorem dwindles_flush (n : Node σ α) (id : LinkId) : Dwindles n (n.flush id) := by
  refine flush_keeps (fun l there q host => ?_) (fun m id h => ?_)
    (fun _ _ h => h.trans (.of_links_eq rfl)) (.of_links_eq rfl) id
  · intro k hk
    rcases mem_links_putLink hk with rfl | ⟨old, -⟩
    · exact .inr ⟨l, there, rfl, rfl, List.suffix_rfl⟩
    · exact .inr ⟨k, old, rfl, rfl, List.suffix_rfl⟩
  · exact h.trans (.of_moves (moves_close m id))

theorem dwindles_perform (only : p.OnlyManages) (n : Node σ α) (a : Action α) :
    Dwindles n (n.perform p a) :=
  (dwindles_keeps only n).perform a
    (fun id _ h => ((dwindles_keeps only n).reading id).read
      (fun m h => h.trans (.of_links_eq (links_restReading m id))) h)
    (fun id _ h => h.trans (dwindles_flush n id)) (.of_links_eq rfl)

theorem dwindles_turn (only : p.OnlyManages) (n : Node σ α) (now : Nat) (id : TaskId) :
    Dwindles n (Agenda.turn agendaOf (Node.perform p) now id n).1 := by
  rw [Agenda.turn_eq]
  cases ran : Agenda.Run.ofTurn agendaOf now id n with
  | none => exact .of_links_eq rfl
  | some r =>
      obtain ⟨-, -, -, rfl⟩ := (Agenda.ofTurn_eq_some_iff agendaOf now).mp ran
      have begun : Dwindles r.context (r.start agendaOf now) := .of_links_eq rfl
      exact (begun.trans (dwindles_perform only _ r.task.action)).trans (.of_links_eq rfl)

/-- The read task empties its inbox. -/
theorem inbox_perform (only : p.OnlyManages) (h : InStep busy n) {a : Action α}
    (reads : a = .read id) : ∀ l ∈ (n.perform p a).links, l.id = id → l.inbox = [] := by
  rw [reads]
  exact inbox_read only h id

/-- A pass in progress: some tasks have their turns still to come, and where frames wait the task
that reads is one of them. -/
structure Reading (now : Nat) (rest : List TaskId) (n : Node σ α) : Prop where
  onTime : OnTime (fun _ => False) now n
  read : ∀ l ∈ n.links, l.inbox ≠ [] → l.tasks.read ∈ rest

omit [Host σ] in
/-- Where frames wait, the task that reads runs in its turn. -/
theorem OnTime.reads (h : OnTime (fun _ => False) now n) {l : Link} (hl : l ∈ n.links)
    (waits : l.inbox ≠ []) :
    ∃ t, Agenda.Run.ofTurn agendaOf now l.tasks.read n = some ⟨l.tasks.read, t, n⟩ ∧
      t.action = .read l.id := by
  obtain ⟨t, found, on⟩ := Agenda.isEnabled_iff.mp ((h.served.read l hl).1 waits)
  have due := (h.served.read l hl).2 t found on
  rw [h.now] at due
  have rests : t.running = false := (h.inStep.tidy.at_rest found).1
  have runs : (t.isDue now && !t.running) = true := by
    rw [rests, Agenda.isDue_iff.mpr ⟨on, due⟩]
    rfl
  have duty := mem_duties.mpr ⟨l, hl, l.tasks.read_mem_duties (α := α) l.id⟩
  exact ⟨t, (Agenda.ofTurn_eq_some_iff agendaOf now).mpr ⟨found, runs, rfl, rfl⟩,
    h.inStep.staffed.action_eq duty found⟩

/-- The turn of the task that reads leaves nothing on its link, and no other turn adds anything. -/
theorem Reading.turn (only : p.OnlyManages) {id : TaskId} {ids : List TaskId}
    (h : Reading now (id :: ids) n) :
    Reading now ids (Agenda.turn agendaOf (Node.perform p) now id n).1 := by
  refine ⟨h.onTime.turn only id, fun k hk waits => ?_⟩
  rcases dwindles_turn only n now id k hk with empty | ⟨l, hl, at_id, read, inbox⟩
  · exact absurd empty waits
  have waited : l.inbox ≠ [] := fun empty => waits (List.suffix_nil.mp (empty ▸ inbox))
  rcases List.mem_cons.mp (h.read l hl waited) with mine | later
  · -- Its turn came, and it was read until nothing was left.
    subst mine
    obtain ⟨t, ran, action⟩ := h.onTime.reads hl waited
    rw [Agenda.turn_eq, ran] at hk
    have begun := h.onTime.inStep.begin l.tasks.read now
    exact absurd (inbox_perform only begun action k hk at_id.symm) waits
  · exact read ▸ later

/-- A pass leaves nothing in any inbox. -/
theorem inbox_execute (only : p.OnlyManages) {before : Nat} (h : OnTime (fun _ => False) before n)
    (le : before ≤ now) : ∀ l ∈ (n.execute p now).2.links, l.inbox = [] := by
  have turns : ∀ (ids : List TaskId) (m : Node σ α), Reading now ids m →
      Reading now [] (Agenda.afterTurns agendaOf (Node.perform p) now ids m) := by
    intro ids
    induction ids with
    | nil => exact fun _ h => h
    | cons id ids ih => exact fun m h => ih _ (h.turn only)
  have start : OnTime (fun _ => False) now (n.clocked now) :=
    ⟨h.inStep.clocked now, h.served.clocked (h.now ▸ le), rfl⟩
  have due : Reading now (n.agenda.dueIds now) (n.clocked now) := by
    refine ⟨start, fun l hl waits => ?_⟩
    obtain ⟨t, ran, -⟩ := start.reads hl waits
    obtain ⟨found, due, -⟩ := (Agenda.ofTurn_eq_some_iff agendaOf now).mp ran
    exact (Agenda.mem_dueIds h.inStep.tidy.nodup).mpr
      ⟨t, found, (Bool.and_eq_true_iff.mp due).1⟩
  rw [execute_eq]
  intro l hl
  by_contra waits
  exact List.not_mem_nil ((turns _ _ due).read l hl waits)

/-- Nothing comes in before the turn of a task in a pass. -/
theorem dwindles_runs (only : p.OnlyManages) (n : Node σ α) (now : Nat) (ids : List TaskId) :
    ∀ r ∈ Agenda.runs agendaOf (Node.perform p) now ids n, Dwindles n r.context := by
  induction ids generalizing n with
  | nil => exact fun r hr => absurd hr List.not_mem_nil
  | cons id ids ih =>
      intro r hr
      rw [Agenda.runs, List.mem_append, Option.mem_toList] at hr
      rcases hr with ran | later
      · obtain ⟨-, -, -, same⟩ := (Agenda.ofTurn_eq_some_iff agendaOf now).mp ran
        exact same ▸ .of_links_eq rfl
      · exact (dwindles_turn only n now id).trans (ih _ r later)

/-! ## What waits on a link was received since the last pass -/

/-- The bodies of the frames that wait on a link to be read. -/
def waiting (n : Node σ α) (id : LinkId) : List Bytes :=
  ((n.link? id).map fun l => l.inbox.map Prod.fst).getD []

/-- The bodies of the frames that bytes complete on a link. -/
def completed (n : Node σ α) (id : LinkId) (chunk : Bytes) : List Bytes :=
  ((n.link? id).bind fun l => (l.reassembler.push chunk).1.toOption).getD []

/-- The bodies of the frames that an input completes on a link. -/
def broughtIn (id : LinkId) (n : Node σ α) : Input α → List Bytes
  | .arrive k chunk => if k = id then n.completed id chunk else []
  | _ => []

/-- The bodies of the frames that a history completes on a link, in order. -/
def received (p : Program σ α) (id : LinkId) (n : Node σ α) (events : List (σ × Input α)) :
    List Bytes :=
  gathered p (broughtIn id) n events

omit [Host σ] in
/-- What still waits waited before. -/
theorem Dwindles.waiting (h : Dwindles n m) (different : n.linkIds.Nodup) (id : LinkId) :
    m.waiting id <:+ n.waiting id := by
  cases found : m.link? id with
  | none =>
      simp only [Node.waiting, found, Option.map_none, Option.getD_none]
      exact List.nil_suffix
  | some k =>
      simp only [Node.waiting, found, Option.map_some, Option.getD_some]
      rcases h k (mem_links_of_link? found) with empty | ⟨l, hl, at_id, -, inbox⟩
      · rw [empty]
        exact List.nil_suffix
      · rw [id_of_link? found] at at_id
        rw [← at_id, link?_of_mem different hl, Option.map_some, Option.getD_some]
        exact inbox.map _

omit [Host σ] in
theorem waiting_congr (same : m.link? id = n.link? id) : m.waiting id = n.waiting id := by
  rw [waiting, waiting, same]

omit [Host σ] in
theorem waiting_of_empty (empty : ∀ l ∈ n.links, l.inbox = []) (id : LinkId) :
    n.waiting id = [] := by
  cases found : n.link? id with
  | none => simp [waiting, found]
  | some l => simp [waiting, found, empty l (mem_links_of_link? found)]

/-- Bytes that arrive add the frames that they complete. -/
theorem waiting_arrive (n : Node σ α) (k : LinkId) (chunk : Bytes) (id : LinkId) :
    (n.arrive k chunk).waiting id <:+ n.waiting id ++ n.broughtIn id (.arrive k chunk) := by
  by_cases here : k = id
  · subst here
    cases found : n.link? k with
    | none =>
        rw [arrive_of_none found, broughtIn, if_pos rfl, completed, found]
        simp
    | some l =>
        cases received : l.receive chunk n.time with
        | mk result l' =>
            cases result with
            | error e =>
                rw [arrive_of_error found (congrArg Prod.fst received), waiting, link?_close]
                exact List.nil_suffix
            | ok count =>
                obtain ⟨bodies, r, pushed, -, rfl⟩ := Link.receive_ok received
                have all : (n.arrive k chunk).waiting k =
                    n.waiting k ++ n.broughtIn k (.arrive k chunk) := by
                  simp [waiting, link?_arrive found received, found, broughtIn, completed, pushed,
                    Except.toOption, Function.comp_def]
                exact all ▸ List.suffix_rfl
  · have same : (n.arrive k chunk).waiting id = n.waiting id ++ n.broughtIn id (.arrive k chunk) := by
      rw [waiting_congr (link?_arrive_of_ne n chunk (Ne.symm here)), broughtIn, if_neg here,
        List.append_nil]
    exact same ▸ List.suffix_rfl

/-- Everything but a pass that may be asked of a node has no more wait than it completes. -/
theorem waiting_obey (different : n.linkIds.Nodup) {i : Input α} (rests : ∀ now, i ≠ .execute now)
    (id : LinkId) : (n.obey p i).waiting id <:+ n.waiting id ++ n.broughtIn id i := by
  have others : (∀ k chunk, i ≠ .arrive k chunk) → n.broughtIn id i = [] →
      (n.obey p i).waiting id <:+ n.waiting id ++ n.broughtIn id i := by
    intro silent none
    rw [none, List.append_nil]
    exact (dwindles_obey n rests silent).waiting different id
  cases i with
  | arrive k chunk => exact waiting_arrive n k chunk id
  | execute now => exact absurd rfl (rests now)
  | addLink | disconnect | close | send | stop | onPacket | onEvent | addTask | joinElection =>
      exact others (by simp) rfl

/-- Between passes no more comes to wait than is received. -/
theorem waiting_live (h : InStep busy n) (events : List (σ × Input α))
    (rests : ∀ e ∈ events, ∀ now, e.2 ≠ .execute now) (id : LinkId) :
    (n.live p events).waiting id <:+ n.waiting id ++ n.received p id events := by
  induction events generalizing n with
  | nil => simp [live, received, gathered]
  | cons e events ih =>
      obtain ⟨host, i⟩ := e
      simp only [List.forall_mem_cons] at rests
      have hosted := h.hosted host
      obtain ⟨t, first⟩ := waiting_obey (p := p) hosted.different rests.1 id
      have next := ih (hosted.input (p := p) rests.1) rests.2
      have all : n.waiting id ++ n.received p id ((host, i) :: events) =
          t ++ ((({ n with host } : Node σ α).obey p i).waiting id ++
            (({ n with host } : Node σ α).obey p i).received p id events) := by
        rw [← List.append_assoc, first, List.append_assoc]
        rfl
      rw [all]
      exact next.trans (List.suffix_append t _)

/-- A history that ends with a pass leaves nothing in any inbox. -/
theorem OnTime.live_pass (only : p.OnlyManages) {before : Nat}
    (h : OnTime (fun _ => False) before n) (earlier : List (σ × Input α)) (host : σ)
    (clock : (before :: passTimes (earlier ++ [(host, .execute now)])).Pairwise (· ≤ ·)) :
    let m := n.live p (earlier ++ [(host, .execute now)])
    OnTime (fun _ => False) now m ∧ ∀ l ∈ m.links, l.inbox = [] := by
  obtain ⟨t, onTime, clock⟩ := h.live_before only earlier [(host, .execute now)] clock
  have hosted := onTime.hosted host
  have le : t ≤ now := (List.pairwise_cons.mp clock).1 now (by simp [passTimes])
  intro m
  have last : m = (({ n.live p earlier with host } : Node σ α).execute p now).2 :=
    live_append p n earlier _
  rw [last]
  exact ⟨hosted.execute only le, inbox_execute only hosted le⟩

/-- A history has not begun, or it ends with a pass. -/
def UpToPass (events : List (σ × Input α)) : Prop :=
  events = [] ∨ ∃ earlier host now, events = earlier ++ [(host, .execute now)]

/-- In every history in which the clock does not run back and the application brings no bytes in and
runs no passes of its own: when the timeout task of a link closes it, whatever waits on the link was
received since the last pass. -/
theorem waiting_at_timeout (only : p.OnlyManages) (new : n.links = []) (none : n.agenda = {})
    (past since : List (σ × Input α)) (host : σ) (now : Nat) (upToPass : UpToPass past)
    (clock : (passTimes past).Pairwise (· ≤ ·)) (rests : ∀ e ∈ since, ∀ now, e.2 ≠ .execute now) :
    let m : Node σ α := { n.live p (past ++ since) with host }
    ∀ r ∈ m.runsOf p (.execute now), ∀ id, r.task.action = .timeout id →
      (r.stop agendaOf (Node.perform p) now).link? id = .none ∧
      r.context.waiting id <:+ (n.live p past).received p id since := by
  intro m r hr id action
  have start : OnTime (fun _ => False) 0 n := .of_new new none
  -- Nothing waits after the last pass, or before anything happened.
  have read : InStep (fun _ => False) (n.live p past) ∧
      ∀ l ∈ (n.live p past).links, l.inbox = [] := by
    rcases upToPass with rfl | ⟨earlier, host', t, rfl⟩
    · exact ⟨start.inStep, by simp [live, new]⟩
    · have times : (0 :: passTimes (earlier ++ [(host', .execute t)])).Pairwise (· ≤ ·) :=
        List.pairwise_cons.mpr ⟨fun _ _ => Nat.zero_le _, clock⟩
      obtain ⟨onTime, empty⟩ := start.live_pass only earlier host' times
      exact ⟨onTime.inStep, empty⟩
  obtain ⟨inStep, empty⟩ := read
  have came : m.waiting id <:+ (n.live p past).received p id since := by
    have later := waiting_live inStep since rests id (p := p)
    rw [waiting_of_empty empty, List.nil_append, ← live_append] at later
    exact later
  have step : InStep (fun _ => False) (m.clocked now) := by
    have later := (inStep.live only.asks since).hosted host
    rw [← live_append] at later
    exact later.clocked now
  have left := dwindles_runs only (m.clocked now) now (m.agenda.dueIds now) r hr
  refine ⟨?_, (left.waiting step.different id).trans came⟩
  rw [Agenda.Run.stop, action]
  exact link?_close _ id

/-! ### An answer that comes between two passes -/

/-- The answer of the node 2. -/
def answer : Bytes := [6, 0, 0, 0, 1, 0, 0, 0, 2, 0, 0, 0, 2, 0, 0, 0, 0, 0, 0]

/-- A link is opened, and in the first pass its neighbour is asked for its tree and a deadline is set
for the answer. -/
def asking : List (Outlets Unit × Input Empty) :=
  ([.addLink true, .execute 0] : List (Input Empty)).map fun i => ({ application := () }, i)

/-- The answer comes. -/
def answering : List (Outlets Unit × Input Empty) :=
  [({ application := () }, .arrive ⟨1⟩ (Frame.whole answer))]

/-- The next pass is as late as the deadline.  The link is given up and was sent nothing but the
answer since the first pass. -/
theorem waiting_at_timeout_answered :
    let p : Program (Outlets Unit) Empty := .idle _ _
    let m : Node (Outlets Unit) Empty :=
      { receiver.live p (asking ++ answering) with host := { application := () } }
    p.OnlyManages ∧ receiver.links = [] ∧ receiver.agenda = {} ∧ UpToPass asking ∧
      (passTimes asking).Pairwise (· ≤ ·) ∧ (∀ e ∈ answering, ∀ now, e.2 ≠ .execute now) ∧
      ∃ r ∈ m.runsOf p (.execute 5000), r.task.action = .timeout ⟨1⟩ ∧
        (r.stop agendaOf (Node.perform p) 5000).link? ⟨1⟩ = none ∧
        r.context.waiting ⟨1⟩ <:+ [answer] := by
  intro p m
  have only : p.OnlyManages := (Program.onlySends_idle _ _).manages
  have upToPass : UpToPass asking := .inr ⟨asking.take 1, _, 0, rfl⟩
  have clock : (passTimes asking).Pairwise (· ≤ ·) := by decide
  have rests : ∀ e ∈ answering, ∀ now, e.2 ≠ .execute now := by simp [answering]
  have received : (receiver.live p asking).received p ⟨1⟩ answering = [answer] := by decide +kernel
  obtain ⟨r, hr, action⟩ : ∃ r ∈ m.runsOf p (.execute 5000), r.task.action = .timeout ⟨1⟩ := by
    decide +kernel
  obtain ⟨closes, waits⟩ := waiting_at_timeout (n := receiver) only rfl rfl asking answering _ 5000
    upToPass clock rests r hr ⟨1⟩ action
  exact ⟨only, rfl, rfl, upToPass, clock, rests, r, hr, action, closes, received ▸ waits⟩

/-- The answer came before the deadline ran out, and still the link is closed while it waits. -/
theorem answer_waits_at_timeout :
    let p : Program (Outlets Unit) Empty := .idle _ _
    let asked := receiver.live p asking
    let answered := asked.live p answering
    Packet.decode answer = .ok (.treeReply 2 1 ⟨2, false, []⟩) ∧
      (∀ l ∈ asked.links, (asked.agenda.find? l.tasks.timeout).map Task.due = some 5000) ∧
      answered.waiting ⟨1⟩ = [answer] ∧
      (∃ r ∈ answered.runsOf p (.execute 5000), r.task.action = .timeout ⟨1⟩ ∧
        r.context.waiting ⟨1⟩ = [answer]) ∧
      (answered.obey p (.execute 5000)).links.map Link.id = [] := by
  decide +kernel

end Node

end SpanningMesh
