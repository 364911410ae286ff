import SpanningMesh.Proofs.Node.Identity
import SpanningMesh.Proofs.Node.News
import SpanningMesh.Proofs.Node.Urgency

/-!
# A tree that is heard twice

A neighbour may send the same tree twice.  What the node has stored the first time is what the tree is
checked against the second time: who the neighbour is, that the link is synced, and the tree itself.
None of it makes the node refuse the tree (`View.checkTree_again`), and the tree that is stored already
brings nothing new.

So the second time does no more than to confirm that the mesh is stable: it counts for the stability,
puts off the next exchange of the link, and answers the request or takes the reply for an answer
(`Node.Confirms`).  This holds wherever the node may be met, also in the middle of a pass or of what an
application does (`Node.Reached`).
-/

namespace SpanningMesh

open Application (Program)

namespace View

variable {κ : Type} [DecidableEq κ] {v w : View κ} {link : κ} {known known' : UInt32} {t : Tree}

/-- What hangs on a link does not matter to what may hang there, and neither does who was known to be
behind it, once that is the node at the top of the tree. -/
theorem checkTree_again (node : w.node = v.node) (others : w.others link = v.others link)
    (top : known' = 0 ∨ t.id = known') (ok : v.checkTree link known t = .ok ()) :
    w.checkTree link known' t = .ok () := by
  have same : ∀ id, w.behindOther link id = v.behindOther link id := fun id => by
    rw [behindOther, others, behindOther]
  have fits : ¬ (known' ≠ 0 ∧ t.id ≠ known') := by tauto
  simp only [checkTree, if_neg fits, node, same]
  simp only [checkTree] at ok
  split at ok
  · cases ok
  · exact ok

end View

/-- What of a link its neighbour may have changed. -/
def Link.standing (l : Link) : LinkId × UInt32 × Phase × Tree := (l.id, l.remote, l.phase, l.subtree)

namespace Agenda

variable {α : Type} {a b c : Agenda (Action α)} {i j : TaskId} {t : Task (Action α)}

/-- An agenda became another by a change of what one task is to do when. -/
structure Touches (i : TaskId) (a b : Agenda (Action α)) : Prop where
  ids : b.ids = a.ids
  news : b.news = a.news
  others : ∀ j, j ≠ i → b.find? j = a.find? j

theorem Touches.refl (i : TaskId) (a : Agenda (Action α)) : Touches i a a :=
  ⟨rfl, rfl, fun _ _ => rfl⟩

theorem touches_update (a : Agenda (Action α)) (i : TaskId) {f : Task (Action α) → Task (Action α)}
    (kept : ∀ t, (f t).action = t.action) : Touches i a (a.update i f) :=
  ⟨ids_update a i f, news_update a i kept, fun _ other => find?_update_of_ne a f other⟩

theorem touches_enable (a : Agenda (Action α)) (i : TaskId) : Touches i a (a.enable i).2 := by
  simp only [enable]
  split
  · exact .refl i a
  · dsimp only
    split
    · exact .refl i a
    · exact touches_update a i (f := (·.armed a.now)) fun _ => rfl

theorem touches_postpone (a : Agenda (Action α)) (i : TaskId) (due : Nat) :
    Touches i a (a.postpone i due).2 := by
  simp only [postpone]
  split
  · exact touches_update a i (f := fun t => { t with due }) fun _ => rfl
  · exact .refl i a

/-- A persistent task that is disabled stays on the agenda. -/
theorem touches_disable (found : a.find? i = some t) (stays : t.persistent = true) :
    Touches i a (a.disable i).2 := by
  simp only [disable, found, stays, if_true]
  exact touches_update a i (f := fun t => { t with enabled := false }) fun _ => rfl

end Agenda

namespace Node

variable {σ α : Type} [Host σ] {p : Program σ α} {n m : Node σ α} {id : LinkId} {l k : Link}
  {sender : UInt32} {tree : Tree} {wanted : Bool} {busy : TaskId → Prop}

/-! ## Where a node may be met -/

/-- The states in which a node may be met: whatever was asked of it before, when the action of a task
starts in a pass, when some frames of a link were read, and in the middle of what it does by itself. -/
inductive Reached (p : Program σ α) : Node σ α → Prop where
  | new {n : Node σ α} (links : n.links = []) (agenda : n.agenda = {}) : Reached p n
  | asked {n m : Node σ α} (before : Reached p n) (asked : Asked n m) : Reached p m
  | started {n : Node σ α} (before : Reached p n) {now : Nat} {x : Action α × Node σ α}
      (starts : x ∈ Agenda.started agendaOf (Node.perform p) now (n.agenda.dueIds now)
        (n.clocked now)) : Reached p x.2
  | read {n : Node σ α} (before : Reached p n) (id : LinkId) (count : Nat) :
      Reached p (n.readFrames p id count)
  | moved {n m : Node σ α} (before : Reached p n) (moves : Moves (fun _ => True) n m) : Reached p m

/-- Only to a pass does it matter what the application does. -/
theorem obey_eq_idle {i : Input α} (rests : ∀ now, i ≠ .execute now) (p : Program σ α)
    (n : Node σ α) : n.obey p i = n.obey (.idle σ α) i := by
  cases i with
  | execute now => exact absurd rfl (rests now)
  | addLink | arrive | disconnect | close | send | stop | onPacket | onEvent | addTask
    | joinElection => rfl

/-- Whatever a node is told to do can be asked of it. -/
theorem asked_obey (asks : p.OnlyAsks) (n : Node σ α) (i : Input α) : Asked n (n.obey p i) := by
  cases i with
  | execute now => exact .execute n now p asks.task asks.handle asks.listen
  | addLink | arrive | disconnect | close | send | stop | onPacket | onEvent | addTask
    | joinElection =>
      rw [obey_eq_idle (by simp)]
      exact .input n (by simp)

/-- Every history leads to a state in which the node may be met. -/
theorem Reached.live (asks : p.OnlyAsks) (reached : Reached p n) (events : List (σ × Input α)) :
    Reached p (n.live p events) := by
  induction events generalizing n with
  | nil => exact reached
  | cons e events ih =>
      have hosted : Reached p { n with host := e.1 } := reached.asked (.elsewhere rfl rfl rfl)
      exact ih (hosted.asked (asked_obey asks _ e.2))

/-- When the action of a task starts, the node is in step with its agenda but for that task. -/
theorem InStep.started (keeps : ∀ busy, p.Keeps (InStep busy)) {now : Nat} {ids : List TaskId}
    {x : Action α × Node σ α} (h : InStep busy n)
    (starts : x ∈ Agenda.started agendaOf (Node.perform p) now ids n) :
    ∃ busy', InStep busy' x.2 := by
  induction ids generalizing n with
  | nil => cases starts
  | cons id ids ih =>
      rcases List.mem_append.mp starts with first | later
      · simp only [Agenda.begun] at first
        split at first
        · cases first
        · split at first
          · obtain rfl := List.mem_singleton.mp first
            exact ⟨_, h.begin id now⟩
          · cases first
      · exact ih (h.turn (fun _ a _ h => h.perform keeps a) now id) later

/-- Every state that is reached is in step. -/
theorem Reached.inStep (asks : p.OnlyAsks) (reached : Reached p m) : ∃ busy, InStep busy m := by
  induction reached with
  | new links agenda => exact ⟨fun _ => False, .of_new links agenda⟩
  | asked _ asked ih =>
      obtain ⟨busy, h⟩ := ih
      exact ⟨busy, h.asked asked⟩
  | started _ starts ih =>
      obtain ⟨busy, h⟩ := ih
      exact (h.clocked _).started asks.keeps starts
  | read _ id count ih =>
      obtain ⟨busy, h⟩ := ih
      exact ⟨busy, ((asks.keeps busy).reading id).readFrames count h⟩
  | moved _ moves ih =>
      obtain ⟨busy, h⟩ := ih
      exact ⟨busy, h.moves moves⟩

/-! ## What is known when a tree was accepted -/

omit [Host σ] in
/-- A link in its own place changes nothing. -/
theorem putLink_self (different : n.linkIds.Nodup) (there : l ∈ n.links) : n.putLink l = n := by
  have same : ∀ k ∈ n.links, (if k.id = l.id then l else k) = k := by
    intro k hk
    split
    next here => exact (eq_of_id_eq different hk there here).symm
    next => rfl
  rw [putLink, List.map_congr_left same, List.map_id']

/-- What the node does about a tree that it has accepted: it answers the request, or it waits no
longer for an answer. -/
def answered (wanted : Bool) (id : LinkId) (sender : UInt32) (l : Link) (n : Node σ α) : Node σ α :=
  if wanted then (n.sendTo id (.treeReply n.id sender (n.view.treeExcept id)) true).2
  else n.plan fun a => (a.disable l.tasks.timeout).2

/-- A tree that is admitted is accepted and then answered. -/
theorem hearTree_eq (found : n.link? id = some l)
    (admitted : n.checkAnnounced l sender tree = .ok ()) :
    n.hearTree id sender tree wanted = (n.acceptTree l sender tree).answered wanted id sender l := by
  simp only [hearTree, found, admitted, answered]

/-- A link that stays open accepted the tree. -/
theorem admitted_of_open (found : n.link? id = some l)
    (opened : id ∈ (n.hearTree id sender tree wanted).linkIds) :
    n.checkAnnounced l sender tree = .ok () := by
  cases admitted : n.checkAnnounced l sender tree with
  | ok u => rfl
  | error e =>
      simp only [hearTree, found, admitted, linkIds, close_links] at opened
      obtain ⟨k, hk, same⟩ := List.mem_map.mp opened
      have other := (List.mem_filter.mp hk).2
      simp [same] at other

/-- An answer is queued, and nothing else happens. -/
theorem feeds_answered (different : n.linkIds.Nodup) (wanted : Bool) (id : LinkId) (sender : UInt32)
    (l : Link) : Feeds (fun _ _ => True) n (n.answered wanted id sender l) := by
  simp only [answered]
  split
  · exact (feeds_sendTo different id _ true).mono fun _ _ _ => trivial
  · exact feeds_plan n _

omit [Host σ] in
theorem checkTree_of_checkAnnounced (admitted : n.checkAnnounced l sender tree = .ok ()) :
    n.view.checkTree l.id l.remote tree = .ok () := by
  cases checked : n.view.checkTree l.id l.remote tree with
  | ok u => rfl
  | error e => simp [checkAnnounced, checked, bind, Except.bind] at admitted

omit [Host σ] in
/-- Of a synced link only the tree is checked. -/
theorem checkAnnounced_of_synced (synced : l.phase = .synced) :
    n.checkAnnounced l sender tree = n.view.checkTree l.id l.remote tree := by
  cases checked : n.view.checkTree l.id l.remote tree with
  | ok u => simp [checkAnnounced, synced, checked, bind, Except.bind, pure, Except.pure]
  | error e => simp [checkAnnounced, checked, bind, Except.bind]

/-- A link on which a tree was accepted, as the node finds it again: it is synced, has the tree, and
belongs to the node at its top if to any. -/
structure Heard (tree : Tree) (l : Link) : Prop where
  synced : l.phase = .synced
  subtree : l.subtree = tree
  remote : l.remote = 0 ∨ tree.id = l.remote

/-- The tree that a link has accepted may hang on it again. -/
theorem heard_again (different : n.linkIds.Nodup) (found : n.link? id = some l)
    (top : tree.id = sender) (admitted : n.checkAnnounced l sender tree = .ok ()) :
    ∃ k, (n.hearTree id sender tree wanted).link? id = some k ∧ Heard tree k ∧
      (n.hearTree id sender tree wanted).checkAnnounced k sender tree = .ok () := by
  have own := id_of_link? found
  obtain ⟨tasks, accepts⟩ := feeds_acceptTree (P := fun _ _ => True) n l sender tree
  have put : (n.putLink { l.accepted sender tree with tasks }).link? id =
      some { l.accepted sender tree with tasks } := link?_putLink_self found rfl
  have distinct : (n.acceptTree l sender tree).linkIds.Nodup :=
    accepts.nodup (linkIds_putLink n _ ▸ different)
  have feeds := accepts.trans (feeds_answered distinct wanted id sender l)
  rw [← hearTree_eq found admitted] at feeds
  obtain ⟨k, there, es, rs, -, rfl⟩ := feeds.link? put
  have remote : (l.accepted sender tree).remote = 0 ∨ tree.id = (l.accepted sender tree).remote := by
    have known := known_of_checkAnnounced admitted
    simp only [Link.accepted, Link.identify]
    split
    · exact known
    · split
      · exact .inr top
      · exact known
  refine ⟨_, there, ⟨rfl, rfl, remote⟩, ?_⟩
  have checked := checkTree_of_checkAnnounced admitted
  have others : (n.hearTree id sender tree wanted).view.others l.id = n.view.others l.id := by
    rw [feeds.view_eq]
    exact others_putLink n { l.accepted sender tree with tasks }
  have again : (n.hearTree id sender tree wanted).view.checkTree l.id
      (l.accepted sender tree).remote tree = .ok () :=
    View.checkTree_again (v := n.view) feeds.id others remote checked
  rw [checkAnnounced_of_synced rfl]
  exact again

/-! ## The second time -/

/-- The node once a tree that it has already was accepted: it takes the mesh for more stable and the
next exchange of the link is put off. -/
def confirmed (n : Node σ α) (l : Link) : Node σ α :=
  { n.plan fun a => (a.delay l.tasks.exchange n.settings.exchangeInterval).2 with
    stability := n.stability.bump }

omit [Host σ] in
/-- A tree that was heard before is only confirmed. -/
theorem acceptTree_of_heard (different : n.linkIds.Nodup) (there : l ∈ n.links)
    (heard : Heard tree l) : n.acceptTree l sender tree = n.confirmed l := by
  obtain ⟨synced, rfl, -⟩ := heard
  have same : l.learn l.subtree = (.unchanged, l) := by simp [Link.learn, Change.between]
  simp only [acceptTree]
  rw [if_neg (not_not_intro synced)]
  simp only [store, same, putLink_self different there]
  rfl

/-- To let a frame wait on a link arms its send task at most. -/
theorem touches_queueFrame (found : n.link? id = some l) (frame : Bytes) (priority : Bool) :
    Agenda.Touches l.tasks.send n.agenda (n.queueFrame id frame priority).2.agenda := by
  simp only [queueFrame, found]
  split
  · exact .refl _ _
  next l' taken =>
    obtain ⟨express, regular, -, rfl⟩ := Link.feeds_of_enqueue taken
    exact Agenda.touches_enable n.agenda l.tasks.send

/-- Answering a request or taking a reply for an answer arms or disables one task at most. -/
theorem touches_answered (inStep : InStep busy n) (found : n.link? id = some l) :
    Agenda.Touches (if wanted then l.tasks.send else l.tasks.timeout) n.agenda
      (n.answered wanted id sender l).agenda := by
  simp only [answered]
  split
  · simp only [sendTo]
    split
    · exact .refl _ _
    next frame _ => exact touches_queueFrame found frame true
  · obtain ⟨t, there, serves⟩ := inStep.staffed.duty (l.tasks.timeout, .timeout l.id)
      (mem_duties.mpr ⟨l, mem_links_of_link? found, l.tasks.timeout_mem_duties l.id⟩)
    exact Agenda.touches_disable there serves.persistent

/-- An answer does not touch the stability. -/
theorem stability_answered (n : Node σ α) (wanted : Bool) (id : LinkId) (sender : UInt32) (l : Link) :
    (n.answered wanted id sender l).stability = n.stability := by
  have queued : ∀ (m : Node σ α) id frame priority, m.stability = n.stability →
      (m.queueFrame id frame priority).2.stability = n.stability := by
    intro m id frame priority same
    simp only [queueFrame]
    split
    · exact same
    · split <;> exact same
  simp only [answered]
  split
  · exact sendTo_keeps queued id _ true rfl
  · rfl

/-- A node `once` heard a tree on a link `l`, and became `twice` when it heard the tree again.  That
had no other effect than to confirm that the mesh is stable. -/
structure Confirms (wanted : Bool) (id : LinkId) (sender : UInt32) (l : Link) (once twice : Node σ α) :
    Prop where
  /-- Nothing happens but that the tree is confirmed and answered. -/
  effect : twice = (once.confirmed l).answered wanted id sender l
  /-- No link is closed, and all have the neighbours and the trees they had. -/
  links : twice.links.map Link.standing = once.links.map Link.standing
  /-- No event comes to be told. -/
  news : twice.agenda.news = once.agenda.news
  /-- No task is added or removed. -/
  tasks : twice.agenda.ids = once.agenda.ids
  /-- The exchanges of all other links are due when they were. -/
  exchanges : ∀ k ∈ once.links, k.id ≠ id →
    twice.agenda.find? k.tasks.exchange = once.agenda.find? k.tasks.exchange
  /-- The exchange of the link itself is put off. -/
  putOff : twice.agenda.find? l.tasks.exchange =
    (once.agenda.find? l.tasks.exchange).map fun t =>
      { t with due := Moment.after once.agenda.now once.settings.exchangeInterval }
  stability : twice.stability = once.stability.bump

/-- What a node has heard on a link confirms that the mesh is stable. -/
theorem confirms_again (inStep : InStep busy n) (found : n.link? id = some l) (heard : Heard tree l)
    (admitted : n.checkAnnounced l sender tree = .ok ()) :
    Confirms wanted id sender l n (n.hearTree id sender tree wanted) := by
  have there := mem_links_of_link? found
  have effect : n.hearTree id sender tree wanted =
      (n.confirmed l).answered wanted id sender l := by
    rw [hearTree_eq found admitted, acceptTree_of_heard inStep.different there heard]
  have confirmed : InStep busy (n.confirmed l) := by
    have delayed := inStep.postpone l.tasks.exchange fun a =>
      Moment.after a.now n.settings.exchangeInterval
    exact delayed.of_eq rfl rfl rfl
  have first : Agenda.Touches l.tasks.exchange n.agenda (n.confirmed l).agenda :=
    Agenda.touches_postpone _ _ _
  have next : Agenda.Touches (if wanted then l.tasks.send else l.tasks.timeout)
      (n.confirmed l).agenda ((n.confirmed l).answered wanted id sender l).agenda :=
    touches_answered confirmed found
  have feeds := feeds_answered confirmed.different wanted id sender l
  -- The exchange of a link is another task than the one that answers for it.
  have apart : ∀ k ∈ n.links,
      k.tasks.exchange ≠ if wanted then l.tasks.send else l.tasks.timeout := by
    intro k hk
    split
    · exact inStep.task_ne hk (k.tasks.exchange_mem_duties k.id) there
        (l.tasks.send_mem_duties l.id) (by simp)
    · exact inStep.task_ne hk (k.tasks.exchange_mem_duties k.id) there
        (l.tasks.timeout_mem_duties l.id) (by simp)
  rw [effect]
  refine ⟨rfl, ?_, next.news.trans first.news, next.ids.trans first.ids, fun k hk other => ?_, ?_, ?_⟩
  · obtain ⟨es, rs, -, links⟩ := feeds.links
    rw [links, List.map_map]
    rfl
  · have mine : k.tasks.exchange ≠ l.tasks.exchange := inStep.task_ne hk
      (k.tasks.exchange_mem_duties k.id) there (l.tasks.exchange_mem_duties l.id)
      (by simpa [id_of_link? found] using other)
    rw [next.others _ (apart k hk), first.others _ mine]
  · obtain ⟨t, waits, on⟩ := Agenda.isEnabled_iff.mp (inStep.ready l there)
    rw [next.others _ (apart l there)]
    simp only [Node.confirmed, plan, Agenda.delay, Agenda.find?_postpone, waits, Option.map_some, on,
      if_true]
  · exact stability_answered _ wanted id sender l

/-- Wherever a node hears a tree on a link that then is still open, to hear the same tree again has no
other effect than to confirm that the mesh is stable. -/
theorem repeated_tree_confirms (asks : p.OnlyAsks) (reached : Reached p m) {body : Bytes}
    {packet : Packet} (read : Packet.decode body = .ok packet)
    (carries : packet.payload = if wanted then .treeRequest sender tree else .treeReply sender tree)
    (arrival later : UInt32) (opened : id ∈ (m.handleOwn p packet id arrival).linkIds) :
    ∃ l, (m.handleOwn p packet id arrival).link? id = some l ∧
      Confirms wanted id sender l (m.handleOwn p packet id arrival)
        ((m.handleOwn p packet id arrival).handleOwn p packet id later) := by
  obtain ⟨busy, inStep⟩ := reached.inStep asks
  have hears : ∀ (n : Node σ α) arrival,
      n.handleOwn p packet id arrival = n.hearTree id sender tree wanted := by
    intro n arrival
    cases wanted with
    | true => simp only [handleOwn, carries, if_true]
    | false => simp only [handleOwn, carries, Bool.false_eq_true, if_false]
  have top : tree.id = sender := by
    refine Packet.id_of_decode_tree read ?_
    cases wanted with
    | true => exact .inl carries
    | false => exact .inr carries
  rw [hears] at opened
  simp only [hears]
  cases found : m.link? id with
  | none =>
      simp only [hearTree, found] at opened
      obtain ⟨k, hk, same⟩ := List.mem_map.mp opened
      have shut := List.find?_eq_none.mp found k hk
      simp [same] at shut
  | some l =>
      obtain ⟨k, there, heard, again⟩ :=
        heard_again inStep.different found top (admitted_of_open found opened)
      have moves : Moves (fun _ => True) m (m.hearTree id sender tree wanted) :=
        moves_hearTree m id sender wanted fun _ _ _ _ => trivial
      exact ⟨k, there, confirms_again (inStep.moves moves) there heard again⟩

/-- A tree of the node 2, which has the node 3 behind it and asks for the tree of its neighbour. -/
def requestBytes : Bytes := [5, 0, 0, 0, 1, 0, 0, 0, 2, 0, 0, 0, 2, 0, 0, 0, 0, 1, 0, 3, 0, 0, 0, 0, 0, 0]

/-- A request of the node 2 with a tree in which the node 3 is. -/
def request : Packet := ⟨⟨5, .neighbour, 1⟩, .treeRequest 2 ⟨2, false, [⟨3, false, []⟩]⟩⟩

/-- The node 1 hears the first tree of its neighbour and then hears it again.  It answers twice. -/
theorem repeated_tree_confirms_request :
    let met := receiver.live (.idle _ _) (([.addLink true, .addLink false] : List (Input Empty)).map
      fun i => ({ application := () }, i))
    let once := met.handleOwn (.idle _ _) request ⟨1⟩ 0
    let twice := once.handleOwn (.idle _ _) request ⟨1⟩ 1
    Reached (.idle _ _) met ∧ Packet.decode requestBytes = .ok request ∧ ⟨1⟩ ∈ once.linkIds ∧
      once.links.map (fun l => (l.remote, l.outbox.length)) = [(2, 1), (0, 0)] ∧
      twice.links.map (fun l => (l.remote, l.outbox.length)) = [(2, 2), (0, 0)] ∧
      twice.links.map Link.standing = once.links.map Link.standing ∧
      twice.agenda.ids = once.agenda.ids := by
  intro met once twice
  have reached : Reached (.idle _ _) met :=
    .live (Program.onlyAsks_idle _ _) (.new rfl rfl) _
  have read : Packet.decode requestBytes = .ok request := by
    decide +kernel
  have carries : request.payload =
      if true then .treeRequest 2 ⟨2, false, [⟨3, false, []⟩]⟩
      else .treeReply 2 ⟨2, false, [⟨3, false, []⟩]⟩ := rfl
  have opened : ⟨1⟩ ∈ once.linkIds := by decide +kernel
  obtain ⟨l, -, confirms⟩ := repeated_tree_confirms (Program.onlyAsks_idle _ _) reached read carries
    0 1 opened
  exact ⟨reached, read, opened, by decide +kernel, by decide +kernel, confirms.links, confirms.tasks⟩

end Node

end SpanningMesh
