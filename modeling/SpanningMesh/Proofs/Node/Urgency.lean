import SpanningMesh.Proofs.Node.Acts
import SpanningMesh.Proofs.Node.Serving

/-!
# Exchanges that are due

When a node learns something new, it has to tell its neighbours, and it does so by having the next
exchanges of their links due at once.  An exchange is `Urgent` if it is due by now, as long as its
link is open.

An act that changes the tree behind a link makes the exchanges of all other links urgent
(`roused_of_changed_act`).  An urgent exchange stays urgent under all that a node does, but for two
things (`Urgent.act`).  Either an act offers the link the tree (`Offers`), in an exchange or in the
answer to a request, or it hears a reply on the link that brings nothing new and puts the exchange
off (`Act.overrules`).
-/

namespace SpanningMesh

open Application (Program)

namespace Node

/-! ## Offers -/

/-- Whether an act is one of those that send a tree through a link: the exchange of the link, and
the answer to a request that came in on it. -/
def Act.speaks {α : Type} (id : LinkId) : Act α → Bool
  | .task (.exchange k) => k = id
  | .handle k packet _ =>
      match packet.payload with
      | .treeRequest _ _ => k = id
      | _ => false
  | _ => false

/-- Whether an act is to hear a reply on a link that brings nothing new. -/
def Act.overrules {σ α : Type} (id : LinkId) : Act α → Node σ α → Bool
  | .handle k packet _, n =>
      match packet.payload with
      | .treeReply sender tree => k = id && (n.link? id).any fun l =>
          l.subtree = tree && (n.checkAnnounced l sender tree).isOk
      | _ => false
  | _, _ => false

variable {σ α : Type} [Host σ] {off : LinkId → Prop} {n m : Node σ α} {id : LinkId} {l k : Link}
  {busy : TaskId → Prop} {task : TaskId}

/-- An act offers an open link the tree of its node without the branch of the link, in a request or
in a reply. -/
structure Offers (id : LinkId) (x : Act α) (n : Node σ α) : Prop where
  speaks : x.speaks id = true
  sends : ∃ (m : Node σ α) (packet : Packet), (m.link? id).isSome = true ∧
    (∃ dest, packet = .treeRequest n.id dest (n.view.treeExcept id) ∨
      packet = .treeReply n.id dest (n.view.treeExcept id)) ∧
    x.run n = (m.sendTo id packet true).2

omit [Host σ] in
/-- The branches of the others do not depend on what is put in the place of a link. -/
theorem others_putLink (n : Node σ α) (l : Link) :
    (n.putLink l).view.others l.id = n.view.others l.id := by
  simp only [View.others, view, putLink]
  induction n.links with
  | nil => rfl
  | cons k ls ih =>
      by_cases mine : k.id = l.id
      · simpa [mine] using ih
      · simpa [mine] using ih

omit [Host σ] in
/-- What is told through a link does not depend on the tree behind it. -/
theorem treeExcept_putLink (n : Node σ α) (l : Link) :
    (n.putLink l).view.treeExcept l.id = n.view.treeExcept l.id := by
  rw [View.treeExcept, View.treeExcept, others_putLink]
  rfl

/-- The exchange of an open link offers it a tree. -/
theorem offers_exchange (different : n.linkIds.Nodup) (found : n.link? id = some l) :
    Offers id (.task (.exchange id)) n where
  speaks := by simp [Act.speaks]
  sends := by
    let m := (n.putLink l.asked).plan fun a =>
      (a.restartDelayed l.asked.tasks.timeout n.settings.answerTimeout).2
    have asked := Link.steady_asked (P := fun _ _ => True) l
    have view : m.view = n.view :=
      view_putLink_of_subtree_eq different found asked.id asked.subtree
    have there : m.link? id = some l.asked := link?_putLink_self found asked.id
    refine ⟨m, .treeRequest n.id l.asked.remote (n.view.treeExcept id), by rw [there]; rfl,
      ⟨_, .inl rfl⟩, ?_⟩
    rw [← view]
    simp only [Act.run, Node.perform, exchange, found]
    rfl

/-- Hearing a request that is accepted offers the link a tree. -/
theorem offers_request (found : n.link? id = some l) {packet : Packet} {sender : UInt32}
    {tree : Tree} (request : packet.payload = .treeRequest sender tree)
    (admitted : n.checkAnnounced l sender tree = .ok ()) (arrival : UInt32) :
    Offers id (.handle id packet arrival) n where
  speaks := by simp [Act.speaks, request]
  sends := by
    obtain ⟨tasks, feeds⟩ := feeds_acceptTree (P := fun _ _ => True) n l sender tree
    let l' : Link := { l.accepted sender tree with tasks }
    have view : (n.acceptTree l sender tree).view.treeExcept id = n.view.treeExcept id := by
      rw [feeds.view_eq, ← id_of_link? found]
      exact treeExcept_putLink n l'
    have put : (n.putLink l').link? id = some l' := link?_putLink_self found rfl
    obtain ⟨k, there, -⟩ := feeds.link? put
    refine ⟨n.acceptTree l sender tree, .treeReply n.id sender (n.view.treeExcept id),
      by rw [there]; rfl, ⟨_, .inr rfl⟩, ?_⟩
    have own : (n.acceptTree l sender tree).id = n.id := feeds.id
    simp only [Act.run, handleOwn, request, hearTree, found, admitted, if_true, own, view]

/-! ## Exchanges that are due -/

/-- The next exchange of a link is due by now, as long as the link is open. -/
structure Urgent (id : LinkId) (task : TaskId) (n : Node σ α) : Prop where
  /-- The handle is not that of a link which is opened later. -/
  known : id.number < n.nextLink
  due : ∀ l ∈ n.links, l.id = id →
    l.tasks.exchange = task ∧ n.agenda.Awaited task True n.agenda.now

omit [Host σ] in
/-- A link stays urgent while its exchange stays awake. -/
theorem Urgent.of_wakes (urgent : Urgent id task n) (next : n.nextLink ≤ m.nextLink)
    (links : ∀ k ∈ m.links, k.id = id →
      ∃ l ∈ n.links, l.id = id ∧ k.tasks.exchange = l.tasks.exchange)
    (wakes : ∀ l ∈ n.links, l.id = id → id ∈ m.linkIds →
      Agenda.Wakes False l.tasks.exchange n.agenda m.agenda) : Urgent id task m where
  known := Nat.lt_of_lt_of_le urgent.known next
  due := by
    intro k hk same
    obtain ⟨l, hl, mine, exchange⟩ := links k hk same
    obtain ⟨rfl, awaited⟩ := urgent.due l hl mine
    have wakes := wakes l hl mine (same ▸ List.mem_map_of_mem hk)
    refine ⟨exchange, ?_⟩
    rw [wakes.now]
    exact awaited.wakes wakes not_false (Nat.le_refl _) .inl

omit [Host σ] in
theorem Urgent.plan (urgent : Urgent id task n) {f : Agenda (Action α) → Agenda (Action α)}
    (wakes : ∀ l ∈ n.links, l.id = id → Agenda.Wakes False l.tasks.exchange n.agenda (f n.agenda)) :
    Urgent id task (n.plan f) :=
  urgent.of_wakes (Nat.le_refl _) (fun k hk same => ⟨k, hk, same, rfl⟩) fun l hl same _ =>
    wakes l hl same

omit [Host σ] in
theorem Urgent.of_eq (urgent : Urgent id task n) (links : m.links = n.links)
    (nextLink : m.nextLink = n.nextLink) (agenda : m.agenda = n.agenda) : Urgent id task m := by
  refine urgent.of_wakes nextLink.ge (fun k hk same => ⟨k, links ▸ hk, same, rfl⟩) fun _ _ _ _ => ?_
  exact .of_find?_eq (by rw [agenda]) (by rw [agenda])

omit [Host σ] in
theorem Urgent.hosted (urgent : Urgent id task n) (host : σ) :
    Urgent id task ({ n with host } : Node σ α) := by
  refine urgent.of_eq ?_ ?_ ?_ <;> rfl

omit [Host σ] in
/-- What is due by now is due by any later time. -/
theorem Urgent.clocked (urgent : Urgent id task n) {now : Nat} (le : n.agenda.now ≤ now) :
    Urgent id task (n.clocked now) :=
  ⟨urgent.known, fun l hl same => (urgent.due l hl same).imp_right (·.mono le)⟩

omit [Host σ] in
/-- Nothing is asked of a link that is closed. -/
theorem Urgent.of_closed (known : id.number < n.nextLink) (closed : id ∉ n.linkIds) :
    Urgent id task n :=
  ⟨known, fun _ hl same => absurd (same ▸ List.mem_map_of_mem hl) closed⟩

/-- No move puts off an exchange that is due, unless it may. -/
theorem Urgent.move (h : InStep busy n) (urgent : Urgent id task n) (prompt : ¬ off id)
    (move : Move off n m) : Urgent id task m := by
  refine urgent.of_wakes move.nextLink.ge (fun k hk same => ?_) fun l hl same open' => ?_
  · obtain ⟨l, hl, follows, -⟩ := move.follows hk
    exact ⟨l, hl, follows.id ▸ same, follows.exchange⟩
  · have wakes := move.wakes h hl (l.tasks.exchange_mem_duties l.id) (same ▸ open') (by simp)
    refine wakes.mono ?_
    rintro ⟨k, ⟨⟩, slow⟩
    exact prompt (same ▸ slow)

/-- Moves that let the exchange of a link alone leave it urgent. -/
theorem Urgent.moves (h : InStep busy n) (urgent : Urgent id task n) (prompt : ¬ off id)
    (moves : Moves off n m) : Urgent id task m :=
  (moves.keeps (P := fun n => InStep busy n ∧ Urgent id task n)
    (fun move h => ⟨h.1.move move, h.2.move h.1 prompt move⟩) ⟨h, urgent⟩).2

/-- Moves that put no exchange off. -/
theorem Urgent.brisk (h : InStep busy n) (urgent : Urgent id task n)
    (moves : Moves (fun _ => False) n m) : Urgent id task m :=
  urgent.moves h not_false moves

omit [Host σ] in
theorem Urgent.restReading (h : InStep busy n) (urgent : Urgent id task n) (k : LinkId) :
    Urgent id task (n.restReading k) := by
  simp only [Node.restReading]
  split
  · exact urgent
  next k found =>
    exact urgent.plan fun l hl _ => Agenda.wakes_disable _ _ <|
      h.task_ne hl (l.tasks.exchange_mem_duties l.id) (mem_links_of_link? found)
        (k.tasks.read_mem_duties k.id) (by simp)

omit [Host σ] in
theorem Urgent.written (urgent : Urgent id task n) (there : k ∈ n.links) (q : Outbox) (host : σ) :
    Urgent id task (n.written k q host) := by
  refine urgent.of_wakes (Nat.le_refl _) (fun l hl same => ?_) fun _ _ _ _ => .of_find?_eq rfl rfl
  rcases mem_links_putLink hl with rfl | ⟨mem, -⟩
  · exact ⟨k, there, same, rfl⟩
  · exact ⟨l, mem, same, rfl⟩

/-- A link that writes does not delay its exchange. -/
theorem Urgent.flush (h : InStep busy n) (urgent : Urgent id task n) (k : LinkId) :
    Urgent id task (n.flush k) := by
  cases found : n.link? k with
  | none =>
      rw [flush_of_none found]
      exact urgent
  | some k =>
      have there := mem_links_of_link? found
      obtain ⟨q, host, cases⟩ := flush_cases found
      have step := h.written there q host
      have put := urgent.written there q host
      have other : ∀ l ∈ (n.written k q host).links, l.tasks.exchange ≠ k.tasks.send := fun l hl =>
        step.task_ne hl (l.tasks.exchange_mem_duties l.id) (e := (k.tasks.send, .send k.id))
          (mem_putLink there rfl) (k.tasks.send_mem_duties k.id) (by simp)
      rcases cases with closes | waits | ⟨-, rests⟩
      · rw [closes]
        exact put.brisk step (moves_close _ _)
      · rw [waits]
        exact put.plan fun l hl _ =>
          Agenda.wakes_postpone _ _ _ fun same => absurd same (other l hl)
      · rw [rests]
        exact put.plan fun l hl _ => Agenda.wakes_disable _ _ (other l hl)

/-! ## What acts do to exchanges that are due -/

/-- An act lets a link have the change that made its exchange due: it offers the tree, or it puts
the exchange off. -/
def Settles (id : LinkId) (x : Act α × Node σ α) : Prop :=
  Offers id x.1 x.2 ∨ x.1.overrules id x.2 = true

/-- Handling a packet puts an exchange off only if it brings a known tree that is accepted. -/
theorem moves_handleOwn (n : Node σ α) (packet : Packet) (k : LinkId) (arrival : UInt32)
    (slow : ∀ sender tree l,
      packet.payload = .treeRequest sender tree ∨ packet.payload = .treeReply sender tree →
      n.link? k = some l → n.checkAnnounced l sender tree = .ok () → l.subtree = tree → off k) :
    Moves off n (n.handleOwn (.idle σ α) packet k arrival) := by
  have tell : ∀ e, Moves off n (n.tell (.idle σ α) e) := fun e =>
    HandlerTable.dispatch_keeps (P := Moves off n)
      (fun _ _ moves => moves.tail (.elsewhere rfl rfl rfl rfl)) (fun _ _ _ moves => moves) .refl
  simp only [handleOwn]
  split
  next sender tree payload =>
    exact moves_hearTree n k sender true fun l found admitted =>
      slow sender tree l (.inl payload) found admitted
  next sender tree payload =>
    exact moves_hearTree n k sender false fun l found admitted =>
      slow sender tree l (.inr payload) found admitted
  · exact moves_hearTimeSync n k _ _ arrival
  · exact moves_hearTimeDelay n _ _ arrival
  · exact tell _
  · exact tell _
  · exact (moves_identifyPeer n k _).trans (moves_hearAnnouncement _ _)
  · exact .refl

/-- An exchange that is due stays due until the tree is offered or the exchange is put off. -/
theorem Urgent.act (h : InStep busy n) (urgent : Urgent id task n) (x : Act α)
    (own : ∀ k, x ≠ .task (.read k)) : Settles id (x, n) ∨ Urgent id task (x.run n) := by
  cases x with
  | task a =>
      refine .inr ?_
      cases a with
      | exchange k => exact urgent.brisk h (moves_exchange n k)
      | timeout k => exact urgent.brisk h (moves_close n k)
      | read k => exact absurd rfl (own k)
      | send k => exact urgent.flush h k
      | setClock k => exact urgent.brisk h (moves_startClockSync n k)
      | announce => exact urgent.brisk h (moves_announce n)
      | tell e =>
          exact HandlerTable.dispatch_keeps (fun _ _ urgent => urgent.of_eq rfl rfl rfl)
            (fun _ _ _ urgent => urgent) urgent
      | application a => exact urgent
  | handle k packet arrival =>
      by_cases slow : k = id ∧ ∃ sender tree l,
          (packet.payload = .treeRequest sender tree ∨ packet.payload = .treeReply sender tree) ∧
          n.link? k = some l ∧ n.checkAnnounced l sender tree = .ok () ∧ l.subtree = tree
      · obtain ⟨rfl, sender, tree, l, request | reply, found, admitted, known⟩ := slow
        · exact .inl (.inl (offers_request found request admitted arrival))
        · exact .inl (.inr (by simp [Act.overrules, reply, found, known, admitted, Except.isOk,
            Except.toBool]))
      · have moves : Moves (· ≠ id) n (n.handleOwn (.idle σ α) packet k arrival) := by
          refine moves_handleOwn n packet k arrival ?_
          intro sender tree l payload found admitted known same
          exact slow ⟨same, sender, tree, l, payload, found, admitted, known⟩
        exact .inr (urgent.moves h (not_not_intro rfl) moves)

/-! ## What a change does to the exchanges of the others -/

/-- The exchanges of all links but one were made due. -/
def Roused (except : LinkId) (n m : Node σ α) : Prop :=
  ∀ l ∈ n.links, l.id ≠ except → Urgent l.id l.tasks.exchange m

/-- Moves open no link, and no link gets another exchange task. -/
theorem Moves.trails (moves : Moves off n m) :
    m.nextLink = n.nextLink ∧ m.linkIds.Sublist n.linkIds ∧
      ∀ k ∈ m.links, ∃ l ∈ n.links, l.id = k.id ∧ k.tasks.exchange = l.tasks.exchange := by
  induction moves with
  | refl => exact ⟨rfl, .refl _, fun k hk => ⟨k, hk, rfl, rfl⟩⟩
  | tail _ move ih =>
      obtain ⟨next, links, trails⟩ := ih
      refine ⟨move.nextLink.trans next, move.linkIds.trans links, fun k hk => ?_⟩
      obtain ⟨l, hl, follows, -⟩ := move.follows hk
      obtain ⟨l', hl', same, exchange⟩ := trails l hl
      exact ⟨l', hl', same.trans follows.id.symm, follows.exchange.trans exchange⟩

/-- A link that is lost before the others are roused does not matter. -/
theorem Roused.of_moves {off' : LinkId → Prop} {n₁ : Node σ α} {except : LinkId}
    (h : InStep busy n) (first : Moves off n n₁) (next : Moves off' n₁ m)
    (roused : Roused except n₁ m) : Roused except n m := by
  obtain ⟨opened, -, trails⟩ := first.trails
  obtain ⟨opened', links, -⟩ := next.trails
  intro l hl other
  by_cases left : ∃ k ∈ n₁.links, k.id = l.id
  · obtain ⟨k, hk, same⟩ := left
    obtain ⟨l', hl', same', exchange⟩ := trails k hk
    obtain rfl := eq_of_id_eq h.different hl' hl (same'.trans same)
    rw [← same, ← exchange]
    exact roused k hk (same ▸ other)
  · refine .of_closed ?_ fun there => left ?_
    · rw [opened', opened]
      exact h.fresh l hl
    · obtain ⟨k, hk, same⟩ := List.mem_map.mp (links.subset there)
      exact ⟨k, hk, same⟩

omit [Host σ] in
/-- A link whose exchange is forced is urgent. -/
theorem urgent_force (h : InStep busy n) (hl : l ∈ n.links) :
    Urgent l.id l.tasks.exchange (n.plan fun a => (a.force l.tasks.exchange).2) where
  known := h.fresh l hl
  due := by
    intro k hk same
    obtain rfl := eq_of_id_eq h.different hk hl same
    have now : (n.agenda.force k.tasks.exchange).2.now = n.agenda.now :=
      Agenda.now_after n.agenda (.force _)
    refine ⟨rfl, ?_⟩
    rw [show (n.plan fun a => (a.force k.tasks.exchange).2).agenda.now = n.agenda.now from now]
    exact Agenda.awaited_postpone (h.ready k hl) True (Nat.le_refl _)

theorem urgent_foldl_force {ls : List Link} (h : InStep busy n) (there : ∀ l ∈ ls, l ∈ n.links)
    (hl : l ∈ ls) : Urgent l.id l.tasks.exchange
      (n.plan fun a => ls.foldl (fun a l => (a.force l.tasks.exchange).2) a) := by
  induction ls generalizing n with
  | nil => cases hl
  | cons k ls ih =>
      have forced : InStep busy (n.plan fun a => (a.force k.tasks.exchange).2) :=
        h.postpone _ fun a => a.now
      rcases List.mem_cons.mp hl with rfl | later
      · exact (urgent_force h (there l List.mem_cons_self)).brisk forced (moves_foldl_force ls _)
      · exact ih forced (fun l hl => there l (List.mem_cons_of_mem _ hl)) later

/-- To hasten exchanges makes all links urgent but one. -/
theorem urgent_hastenExchanges (h : InStep busy n) {except : Option LinkId} (hl : l ∈ n.links)
    (other : some l.id ≠ except) : Urgent l.id l.tasks.exchange (n.hastenExchanges except) :=
  urgent_foldl_force h (fun _ hk => (List.mem_filter.mp hk).1)
    (List.mem_filter.mpr ⟨hl, decide_eq_true other⟩)

/-- To close a link behind which there was something rouses the others. -/
theorem roused_close (h : InStep busy n) (found : n.link? id = some k)
    (full : k.subtree.isEmpty = false) (except : LinkId) : Roused except n (n.close id).2 := by
  have drop : Move (fun _ => False) n (n.dropLink k) := .drop (mem_links_of_link? found)
  let hastened := (n.dropLink k).hastenExchanges none
  let told := (hastened.schedule (.changed k.remote)).schedule (.dropped k.remote k.station)
  have closed : (n.close id).2 = told.losePeer k.remote := by
    simp only [Node.close, found, full]
    rfl
  have rest : Moves (fun _ => False) hastened (told.losePeer k.remote) :=
    ((moves_schedule _ _).trans (moves_schedule _ _)).trans (moves_losePeer _ _)
  rw [closed]
  refine .of_moves h (.single drop) ((moves_hastenExchanges _ _).trans rest) fun l hl _ => ?_
  have dropped := h.move drop
  have due : Urgent l.id l.tasks.exchange hastened :=
    urgent_hastenExchanges dropped hl (Option.some_ne_none l.id)
  have hastens : Moves (fun _ => False) (n.dropLink k) hastened := moves_hastenExchanges _ none
  exact due.brisk (dropped.moves hastens) rest

/-- To close a link changes nothing if nothing was behind it, and else it rouses the others. -/
theorem roused_of_changed_close (h : InStep busy n) {except : LinkId}
    (changed : n.view.changed except (n.close id).2.view = true) :
    Roused except n (n.close id).2 := by
  cases found : n.link? id with
  | none =>
      have same : (n.close id).2 = n := by simp only [Node.close, found]
      rw [same, changed_self] at changed
      cases changed
  | some k =>
      cases full : k.subtree.isEmpty with
      | false => exact roused_close h found full except
      | true =>
          by_cases mine : except = id
          · simp [mine, View.changed, branch?_view, found, link?_close, full] at changed
          · simp only [View.changed, branch?_view, link?_close_of_ne mine] at changed
            cases there : n.link? except <;> simp [there] at changed

theorem roused_of_changed_flush (h : InStep busy n) {except : LinkId}
    (changed : n.view.changed except (n.flush id).view = true) : Roused except n (n.flush id) := by
  cases found : n.link? id with
  | none =>
      rw [flush_of_none found, changed_self] at changed
      cases changed
  | some k =>
      have there := mem_links_of_link? found
      obtain ⟨q, host, cases⟩ := flush_cases found
      let n' : Node σ α := { n with host }
      have host' : n'.link? id = some k := found
      have view : (n.written k q host).view = n.view :=
        view_putLink_of_subtree_eq (n := n') h.different host' rfl rfl
      rcases cases with closes | waits | ⟨-, rests⟩
      · rw [closes, ← view] at changed
        have roused := roused_of_changed_close (h.written there q host) changed
        rw [closes]
        intro l hl other
        by_cases mine : l.id = k.id
        · obtain rfl := eq_of_id_eq h.different hl there mine
          exact roused { l with outbox := q } (mem_putLink hl rfl) other
        · exact roused l (mem_putLink_of_ne hl mine) other
      · have same : (n.flush id).view = n.view := by
          rw [waits]
          exact view
        rw [same, changed_self] at changed
        cases changed
      · have same : (n.flush id).view = n.view := by
          rw [rests]
          exact view
        rw [same, changed_self] at changed
        cases changed

omit [Host σ] in
/-- Only the tree of the link changes that another one takes the place of. -/
theorem changed_putLink {except : LinkId} {l' : Link} (found : n.link? id = some l)
    (same : l'.id = id) (changed : n.view.changed except (n.putLink l').view = true) :
    except = id ∧ l'.subtree ≠ l.subtree := by
  simp only [View.changed, branch?_view, link?_putLink, same] at changed
  by_cases mine : except = id
  · subst mine
    simpa [found, id_of_link? found] using changed
  · cases there : n.link? except with
    | none => simp [there] at changed
    | some k => simp [there, id_of_link? there, mine] at changed

/-- The answer to a tree changes nothing behind the links. -/
theorem view_hearTree (different : n.linkIds.Nodup) (found : n.link? id = some l) {sender : UInt32}
    {tree : Tree} (admitted : n.checkAnnounced l sender tree = .ok ()) (wanted : Bool) :
    (n.hearTree id sender tree wanted).view = (n.acceptTree l sender tree).view := by
  obtain ⟨tasks, feeds⟩ := feeds_acceptTree (P := fun _ _ => True) n l sender tree
  have nodup : (n.acceptTree l sender tree).linkIds.Nodup :=
    feeds.nodup (linkIds_putLink n _ ▸ different)
  simp only [hearTree, found, admitted]
  split
  · exact (feeds_sendTo nodup id _ true).view_eq
  · rfl

/-- A tree that is new makes the exchanges of all other links due. -/
theorem roused_of_news (h : InStep busy n) (found : n.link? id = some l) {sender : UInt32}
    {tree : Tree} (admitted : n.checkAnnounced l sender tree = .ok ()) (news : l.subtree ≠ tree)
    (wanted : Bool) : Roused id n (n.hearTree id sender tree wanted) := by
  obtain ⟨n₁, k, stores, same, subtree, -, moves⟩ := acceptTree_eq_store found sender tree
  let stored := n₁.putLink { k with subtree := tree }
  have hears : n.acceptTree l sender tree =
      (stored.hastenExchanges (some k.id)).schedule (.changed sender) := by
    rw [stores]
    have new : ¬ k.subtree = tree := fun known => news (subtree ▸ known)
    simp only [store, Link.learn, Change.between, if_neg new]
    rfl
  have accepted : Moves (fun _ => False) n stored := moves _
  have hastens : Moves (fun _ => False) stored (stored.hastenExchanges (some k.id)) :=
    moves_hastenExchanges _ _
  have answers : Moves (fun _ => False) (stored.hastenExchanges (some k.id))
      (n.hearTree id sender tree wanted) :=
    (moves_schedule _ _).trans (hears ▸ moves_answer found sender wanted admitted)
  have step := h.moves accepted
  refine .of_moves h accepted (hastens.trans answers) fun l' hl' other => ?_
  have apart : some l'.id ≠ some k.id := fun eq =>
    other ((Option.some.inj eq).trans (same.trans (id_of_link? found)))
  exact (urgent_hastenExchanges step hl' apart).brisk (step.moves hastens) answers

/-- To hear a tree changes nothing if the tree is known, and else it rouses the others. -/
theorem roused_of_changed_hearTree (h : InStep busy n) {except : LinkId} {sender : UInt32}
    {tree : Tree} {wanted : Bool}
    (changed : n.view.changed except (n.hearTree id sender tree wanted).view = true) :
    Roused except n (n.hearTree id sender tree wanted) := by
  cases found : n.link? id with
  | none =>
      have same : n.hearTree id sender tree wanted = n := by simp only [hearTree, found]
      rw [same, changed_self] at changed
      cases changed
  | some l =>
      cases admitted : n.checkAnnounced l sender tree with
      | error e =>
          have closes : n.hearTree id sender tree wanted = (n.close id).2 := by
            simp only [hearTree, found, admitted]
          rw [closes] at changed ⊢
          exact roused_of_changed_close h changed
      | ok u =>
          obtain ⟨tasks, feeds⟩ := feeds_acceptTree (P := fun _ _ => True) n l sender tree
          rw [view_hearTree h.different found admitted, feeds.view_eq] at changed
          have mine : l.id = id := id_of_link? found
          let l' : Link := { l.accepted sender tree with tasks }
          have mine' : l'.id = id := mine
          obtain ⟨rfl, news⟩ := changed_putLink found mine' changed
          exact roused_of_news h found admitted (Ne.symm news) wanted

/-- To tell others about the mesh changes nothing about it. -/
theorem view_exchange (different : n.linkIds.Nodup) (id : LinkId) :
    (n.exchange id).view = n.view := by
  simp only [exchange]
  split
  · rfl
  next l found =>
    have asked := Link.steady_asked (P := fun _ _ => True) l
    have nodup : ((n.putLink l.asked).plan fun a => (a.restartDelayed l.asked.tasks.timeout
        n.settings.answerTimeout).2).linkIds.Nodup := linkIds_putLink n l.asked ▸ different
    exact (feeds_sendTo nodup id _ true).view_eq.trans
      (view_putLink_of_subtree_eq different found asked.id asked.subtree)

omit [Host σ] in
theorem view_identifyPeer (different : n.linkIds.Nodup) (id : LinkId) (peer : UInt32) :
    (n.identifyPeer id peer).view = n.view := by
  rcases identifyPeer_cases (P := fun _ _ => True) n id peer with same | ⟨l, found, -, feeds⟩
  · rw [same]
  · exact feeds.view_eq.trans (view_putLink_of_subtree_eq different found rfl rfl)

/-- An act that changes the tree behind a link makes the exchanges of all others due. -/
theorem roused_of_changed_act (h : InStep busy n) (x : Act α) (own : ∀ k, x ≠ .task (.read k))
    {except : LinkId} (changed : n.view.changed except (x.run n).view = true) :
    Roused except n (x.run n) := by
  have still : (x.run n).view = n.view → Roused except n (x.run n) := by
    intro same
    rw [same, changed_self] at changed
    cases changed
  have told : ∀ e, (n.tell (.idle σ α) e).view = n.view := fun e =>
    view_of_bearings (Unmoved.tell ⟨rfl, rfl, rfl⟩ e).bearings
  cases x with
  | task a =>
      cases a with
      | exchange k => exact still (view_exchange h.different k)
      | timeout k => exact roused_of_changed_close h changed
      | read k => exact absurd rfl (own k)
      | send k => exact roused_of_changed_flush h changed
      | setClock k => exact still (feeds_startClockSync h.different k).view_eq
      | announce => exact still (feeds_announce h.different).view_eq
      | tell e => exact still (told e)
      | application a => exact still rfl
  | handle k packet arrival =>
      simp only [Act.run, handleOwn] at changed still ⊢
      cases payload : packet.payload with
      | treeRequest sender tree =>
          simp only [payload] at changed ⊢
          exact roused_of_changed_hearTree h changed
      | treeReply sender tree =>
          simp only [payload] at changed ⊢
          exact roused_of_changed_hearTree h changed
      | timeSync sender times =>
          simp only [payload] at still ⊢
          exact still (feeds_hearTimeSync h.different k sender times arrival).view_eq
      | timeDelay sender times =>
          simp only [payload] at still ⊢
          exact still (feeds_hearTimeDelay h.different sender times arrival).view_eq
      | single sender text =>
          simp only [payload] at still ⊢
          exact still (told _)
      | broadcast sender text =>
          simp only [payload] at still ⊢
          exact still (told _)
      | meshId a =>
          simp only [payload] at still ⊢
          have heard := (feeds_hearAnnouncement (P := fun _ _ => True)
            (n.identifyPeer k a.sender) a).view_eq
          exact still (heard.trans (view_identifyPeer h.different k a.sender))
      | raw body =>
          simp only [payload] at still ⊢
          exact still trivial

end Node

end SpanningMesh
