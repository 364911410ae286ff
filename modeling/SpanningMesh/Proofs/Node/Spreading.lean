import Mathlib.Data.List.Infix
import SpanningMesh.Proofs.Node.Urgency

/-!
# How changes spread

When the tree behind a link changes, or a link is closed behind which there was something, the node
is to tell all its other neighbours.  It makes their next exchanges due at once.  In the next pass
the exchange of a link has its turn before the task that reads from it, so nothing can put it off
any more (`offers_in_pass`), and each of the others is offered the tree without its own branch.
`changes_spread` says that this is so in every history.

One thing stands against it.  The exchange of a link is also put off whenever its neighbour sends a
tree that is known already, and that undoes what a change before it in the same pass brought about.
A request does no harm, since the answer to it carries the change.  After a reply the neighbour
learns of the change only when the usual interval is over (`overruled_change_waits`).
-/

namespace SpanningMesh

open Application (Program)

namespace Node

variable {σ α : Type} [Host σ] {n m : Node σ α} {id : LinkId} {l : Link}
  {busy : TaskId → Prop} {task : TaskId}

/-! ## Passes -/

/-- What is later than something in a list and in what follows on it. -/
theorem suffix_append_cases {β : Type} {x : β} {later as bs : List β}
    (h : x :: later <:+ as ++ bs) :
    x :: later <:+ bs ∨ ∃ rest, later = rest ++ bs ∧ x :: rest <:+ as := by
  induction as with
  | nil => exact .inl h
  | cons a as ih =>
      rcases List.suffix_cons_iff.mp h with same | h
      · obtain ⟨rfl, rfl⟩ := List.cons.inj same
        exact .inr ⟨as, rfl, List.suffix_refl _⟩
      · exact (ih h).imp_right fun ⟨rest, same, h⟩ => ⟨rest, same, h.trans (List.suffix_cons a as)⟩

/-- What acts do for a link.  If its exchange is due, it stays so until the link has the change that
made it due, and any change of the tree behind another link makes it due. -/
structure Tells (busy : TaskId → Prop) (id : LinkId) (as : List (Act α × Node σ α))
    (n m : Node σ α) : Prop where
  inStep : InStep busy m
  links : m.linkIds.Sublist n.linkIds
  now : m.agenda.now = n.agenda.now
  lasts : ∀ task, Urgent id task n → (∃ x ∈ as, Settles id x) ∨ Urgent id task m
  spreads : ∀ x c later, (x, c) :: later <:+ as → ∀ except, except ≠ id →
    c.view.changed except (x.run c).view = true → ∀ l ∈ c.links, l.id = id →
      (∃ y ∈ later, Settles id y) ∨ Urgent id l.tasks.exchange m

/-- Changes of which there is no act. -/
theorem Tells.of_nil (inStep : InStep busy m) (links : m.linkIds.Sublist n.linkIds)
    (now : m.agenda.now = n.agenda.now)
    (urgent : ∀ task, Urgent id task n → Urgent id task m) : Tells busy id [] n m where
  inStep := inStep
  links := links
  now := now
  lasts := fun task h => .inr (urgent task h)
  spreads := fun _ _ _ h => absurd (List.suffix_nil.mp h) (List.cons_ne_nil _ _)

/-- What two courses tell is told in that order. -/
theorem Tells.append {n₁ : Node σ α} {as bs : List (Act α × Node σ α)}
    (first : Tells busy id as n n₁) (next : Tells busy id bs n₁ m) :
    Tells busy id (as ++ bs) n m where
  inStep := next.inStep
  links := next.links.trans first.links
  now := next.now.trans first.now
  lasts := by
    intro task urgent
    rcases first.lasts task urgent with ⟨x, hx, settles⟩ | urgent
    · exact .inl ⟨x, List.mem_append_left _ hx, settles⟩
    · exact (next.lasts task urgent).imp_left fun ⟨x, hx, settles⟩ =>
        ⟨x, List.mem_append_right _ hx, settles⟩
  spreads := by
    intro x c later suffix except other changed l hl same
    rcases suffix_append_cases suffix with after | ⟨rest, rfl, before⟩
    · exact next.spreads x c later after except other changed l hl same
    · rcases first.spreads x c rest before except other changed l hl same with
        ⟨y, hy, settles⟩ | urgent
      · exact .inl ⟨y, List.mem_append_left _ hy, settles⟩
      · exact (next.lasts _ urgent).imp_left fun ⟨y, hy, settles⟩ =>
          ⟨y, List.mem_append_right _ hy, settles⟩

theorem tells_act (h : InStep busy n) (id : LinkId) (x : Act α) (own : ∀ k, x ≠ .task (.read k)) :
    Tells busy id [(x, n)] n (x.run n) where
  inStep :=
    Act.keeps (P := InStep busy) (fun move h => h.move move) (fun k _ h => h.flush k) x own h
  links := linkIds_act x n own
  now := Act.keeps (P := fun m => m.agenda.now = n.agenda.now) (fun move h => move.now.trans h)
    (fun k m h => (now_flush m k).trans h) x own rfl
  lasts := fun task urgent => (urgent.act h x own).imp_left fun settles =>
    ⟨(x, n), List.mem_cons_self, settles⟩
  spreads := by
    intro y c later suffix except other changed l hl same
    rcases List.suffix_cons_iff.mp suffix with here | none
    · cases here
      have roused := roused_of_changed_act h x own changed l hl (same ▸ other.symm)
      exact .inr (same ▸ roused)
    · exact absurd (List.suffix_nil.mp none) (List.cons_ne_nil _ _)

theorem composes_tells (busy : TaskId → Prop) (id : LinkId) :
    Composes fun as (n m : Node σ α) => InStep busy n → Tells busy id as n m where
  between := fun between h => .of_nil (h.moves between.moves) between.moves.trails.2.1
    between.moves.now fun _ urgent => urgent.brisk h between.moves
  act := fun x _ own h => tells_act h id x own
  rest := fun n k h => .of_nil (h.restReading k)
    ((feeds_restReading (P := fun _ _ => False) n k).linkIds_eq ▸ .refl _) (now_restReading n k)
    fun _ urgent => urgent.restReading h k
  append := fun first next h => (first h).append (next (first h).inStep)

/-- The turn of the exchange of a link offers it a tree. -/
theorem offers_turn {now : Nat} {r : Agenda.Run (Action α) (Node σ α)} (h : InStep busy r.context)
    (ran : Agenda.Run.ofTurn agendaOf now r.id r.context = some r) (hl : l ∈ r.context.links)
    (mine : l.tasks.exchange = r.id) :
    ∃ x ∈ (r.start agendaOf now).actsInTask r.task.action, Offers l.id x.1 x.2 := by
  obtain ⟨found, -⟩ := (Agenda.ofTurn_eq_some_iff agendaOf now).mp ran
  have duty : (l.tasks.exchange, .exchange l.id) ∈ r.context.duties :=
    mem_duties.mpr ⟨l, hl, l.tasks.exchange_mem_duties l.id⟩
  have action : r.task.action = .exchange l.id :=
    h.staffed.action_eq duty (by rw [mine]; exact found)
  have open' : (r.start agendaOf now).link? l.id = some l := link?_of_mem h.different hl
  have different : (r.start agendaOf now).linkIds.Nodup := h.different
  rw [action]
  exact ⟨_, List.mem_cons_self, offers_exchange different open'⟩

/-- The turn of a task in a pass tells what the acts of the task do. -/
theorem tells_turn {now : Nat} {r : Agenda.Run (Action α) (Node σ α)} (h : InStep busy r.context)
    (ran : Agenda.Run.ofTurn agendaOf now r.id r.context = some r) (id : LinkId) :
    Tells busy id ((r.start agendaOf now).actsInTask r.task.action) r.context
      (agendaOf.modify (·.finish r.id) (r.stop agendaOf (Node.perform (.idle σ α)) now)) := by
  have begun : InStep (fun i => i = r.id ∨ busy i) (r.start agendaOf now) := h.begin r.id now
  have acted := (composes_tells _ id).perform r.task.action (r.start agendaOf now) begun
  have finished : ∀ {task}, Urgent id task (r.stop agendaOf (Node.perform (.idle σ α)) now) →
      Urgent id task
        (agendaOf.modify (·.finish r.id) (r.stop agendaOf (Node.perform (.idle σ α)) now)) :=
    fun urgent => urgent.plan (f := (·.finish r.id)) fun _ _ _ =>
      Agenda.wakes_finish False _ r.id _
  refine ⟨acted.inStep.finish, acted.links, ?_, fun task urgent => ?_, ?_⟩
  · exact (Agenda.wakes_finish False _ r.id r.id).now.trans acted.now
  · by_cases mine : id ∈ r.context.linkIds ∧ r.id = task
    · obtain ⟨there, rfl⟩ := mine
      obtain ⟨l, hl, rfl⟩ := List.mem_map.mp there
      obtain ⟨x, hx, offers⟩ := offers_turn h ran hl (urgent.due l hl rfl).1
      exact .inl ⟨x, hx, .inl offers⟩
    · have started : Urgent id task (r.start agendaOf now) := by
        refine urgent.plan (f := (·.begin r.id now)) fun l hl same => .of_find?_eq rfl ?_
        refine Agenda.find?_update_of_ne _ _ fun turn => mine ⟨?_, ?_⟩
        · exact same ▸ List.mem_map_of_mem hl
        · rw [← turn]
          exact (urgent.due l hl same).1
      exact (acted.lasts task started).imp_right finished
  · intro x c later suffix except other changed l hl same
    exact (acted.spreads x c later suffix except other changed l hl same).imp_right finished

/-- All turns of a pass. -/
theorem tells_runs (h : InStep busy n) (id : LinkId) (now : Nat) (ids : List TaskId) :
    Tells busy id (actsInRuns now (Agenda.runs agendaOf (Node.perform (.idle σ α)) now ids n)) n
      (Agenda.afterTurns agendaOf (Node.perform (.idle σ α)) now ids n) := by
  let R := fun as (n m : Node σ α) => InStep busy n → Tells busy id as n m
  have composes : Composes R := composes_tells busy id
  exact actsInRuns_compose (R := R) (fun n => composes.between (.refl n)) composes.append
    (fun r ran h => tells_turn h ran id) ids n h

/-- A task that was added before the exchange of a link does not put that off, since replies are
heard in the turn of the task that reads. -/
theorem offers_or_urgent_turn {now : Nat} {r : Agenda.Run (Action α) (Node σ α)}
    (h : InStep busy r.context) (ran : Agenda.Run.ofTurn agendaOf now r.id r.context = some r)
    (urgent : Urgent id task r.context) (early : r.id.number < task.number) :
    (∃ x ∈ (r.start agendaOf now).actsInTask r.task.action, Offers id x.1 x.2) ∨
      Urgent id task (agendaOf.modify (·.finish r.id)
        (r.stop agendaOf (Node.perform (.idle σ α)) now)) := by
  refine ((tells_turn h ran id).lasts task urgent).imp_left ?_
  rintro ⟨⟨x, c⟩, hx, offers | overrules⟩
  · exact ⟨_, hx, offers⟩
  · exfalso
    cases x with
    | task a => simp [Act.overrules] at overrules
    | handle k packet arrival =>
        have reads := read_of_handle_mem hx
        have mine : k = id := by
          simp only [Act.overrules] at overrules
          split at overrules
          · exact of_decide_eq_true (Bool.and_eq_true_iff.mp overrules).1
          · cases overrules
        obtain ⟨found, -⟩ := (Agenda.ofTurn_eq_some_iff agendaOf now).mp ran
        have duty := h.staffed.owned r.id r.task found (.inr (by rw [reads]; rfl))
        obtain ⟨l, hl, duty⟩ := mem_duties.mp duty
        rw [reads] at duty
        obtain ⟨read, same⟩ := LinkTasks.eq_of_read_mem_duties duty
        have order := h.order l hl
        rw [(urgent.due l hl (same.symm.trans mine)).1, ← read] at order
        exact Nat.lt_asymm early order

/-- Of tasks that have their turns in order, none before the exchange of a link puts that off, and
so it has its turn. -/
theorem offers_in_runs {now : Nat} {ids : List TaskId} (h : InStep (fun _ => False) n)
    (urgent : Urgent id task n) (clock : n.agenda.now = now)
    (sorted : ids.Pairwise (·.number < ·.number)) (mem : task ∈ ids)
    (open' : id ∈ (Agenda.afterTurns agendaOf (Node.perform (.idle σ α)) now ids n).linkIds) :
    ∃ x ∈ actsInRuns now (Agenda.runs agendaOf (Node.perform (.idle σ α)) now ids n),
      Offers id x.1 x.2 := by
  induction ids generalizing n with
  | nil => cases mem
  | cons i ids ih =>
      obtain ⟨first, rest⟩ := List.pairwise_cons.mp sorted
      have before : id ∈ n.linkIds := (tells_runs h id now (i :: ids)).links.subset open'
      obtain ⟨l, hl, same⟩ := List.mem_map.mp before
      have due := urgent.due l hl same
      rw [Agenda.runs, actsInRuns, List.flatMap_append]
      rw [Agenda.afterTurns, List.foldl_cons, Agenda.turn_eq] at open'
      cases ran : Agenda.Run.ofTurn agendaOf now i n with
      | none =>
          have other : i ≠ task := by
            rintro rfl
            obtain ⟨t, found, on⟩ := Agenda.isEnabled_iff.mp (due.2.1 trivial)
            have soon := due.2.2 t found on
            have idle : t.running = false := by
              by_contra out
              exact h.tidy.idle i t found (by simpa using out)
            have runs : Agenda.Run.ofTurn agendaOf now i n = some ⟨i, t, n⟩ :=
              (Agenda.ofTurn_eq_some_iff agendaOf now).mpr
                ⟨found, by simp [Task.isDue, on, idle, clock ▸ soon], rfl, rfl⟩
            rw [ran] at runs
            cases runs
          have later : task ∈ ids := (List.mem_cons.mp mem).resolve_left other.symm
          rw [ran] at open'
          obtain ⟨x, hx, offers⟩ := ih h urgent clock rest later open'
          refine ⟨x, List.mem_append_right _ ?_, offers⟩
          rw [Agenda.turn_eq, ran]
          exact hx
      | some r =>
          obtain ⟨-, -, rfl, rfl⟩ := (Agenda.ofTurn_eq_some_iff agendaOf now).mp ran
          rcases List.mem_cons.mp mem with rfl | later
          · obtain ⟨x, hx, offers⟩ := offers_turn h ran hl due.1
            exact ⟨x, List.mem_append_left _ (by simpa using hx), same ▸ offers⟩
          · have turn := tells_turn h ran id
            rcases offers_or_urgent_turn h ran urgent (first task later) with
              ⟨x, hx, offers⟩ | urgent
            · exact ⟨x, List.mem_append_left _ (by simpa using hx), offers⟩
            · rw [ran] at open'
              obtain ⟨x, hx, offers⟩ :=
                ih turn.inStep urgent (turn.now.trans clock) rest later open'
              refine ⟨x, List.mem_append_right _ ?_, offers⟩
              rw [Agenda.turn_eq, ran]
              exact hx

/-- A link whose exchange is due is offered a tree in the next pass, unless it is closed by then. -/
theorem offers_in_pass (h : InStep (fun _ => False) n) (urgent : Urgent id task n) {now : Nat}
    (le : n.agenda.now ≤ now) (open' : id ∈ (n.execute (.idle σ α) now).2.linkIds) :
    ∃ x ∈ n.acts now, Offers id x.1 x.2 := by
  have begun : InStep (fun _ => False) (n.clocked now) := h.clocked now
  have sorted : (n.agenda.dueIds now).Pairwise (·.number < ·.number) :=
    h.tidy.sorted.sublist (List.filter_sublist.map _)
  rw [execute_eq] at open'
  refine offers_in_runs begun (urgent.clocked le) rfl sorted ?_ open'
  have before : id ∈ n.linkIds := (tells_runs begun id now _).links.subset open'
  obtain ⟨l, hl, same⟩ := List.mem_map.mp before
  obtain ⟨-, on, soon⟩ := urgent.due l hl same
  obtain ⟨t, found, on⟩ := Agenda.isEnabled_iff.mp (on trivial)
  have due := Nat.le_trans (soon t found on) le
  exact (Agenda.mem_dueIds h.tidy.nodup).mpr ⟨t, found, by simp [Task.isDue, on, due]⟩

/-! ## Between passes -/

/-- Nothing but a pass moves the time of an agenda on. -/
theorem now_input (h : InStep busy n) {i : Input α} (rests : ∀ now, i ≠ .execute now) :
    (n.obey (.idle σ α) i).agenda.now = n.agenda.now := by
  have moved : ∀ {m}, Moves (fun _ => False) n m → m.agenda.now = n.agenda.now := Moves.now
  cases i with
  | addLink station =>
      obtain ⟨tasks, a, added, enrols⟩ := h.addLinkTasks ⟨n.nextLink⟩ station
      have opened : (n.opened station).agenda.now = n.agenda.now := by
        simp only [Node.opened, added]
        exact enrols.now
      have rest : Moves (fun _ => False) (n.opened station) (n.addLink station).2 :=
        moves_opened n station
      exact rest.now.trans opened
  | arrive id chunk =>
      simp only [obey, Node.arrive]
      split
      · rfl
      · split
        · exact now_close n id
        · split
          · rfl
          · exact Agenda.now_after n.agenda (.enable _)
  | disconnect id => exact now_close n id
  | close id => exact now_close n id
  | send s => exact moved (moves_send n s)
  | execute now => exact absurd rfl (rests now)
  | stop =>
      have closed : Moves (fun _ => False) n _ := moves_foldl_close n n.linkIds
      exact closed.now
  | onPacket kind a => rfl
  | onEvent kind a => rfl
  | addTask interval runs a => exact moved (moves_addTask n interval runs a)
  | joinElection own => exact moved (moves_joinElection n own)

/-- A node that stops has no link left. -/
theorem urgent_stop (known : id.number < n.nextLink) : Urgent id task n.stop := by
  have closed : Moves (fun _ => False) n _ := moves_foldl_close n n.linkIds
  have next : n.stop.nextLink = n.nextLink := closed.trails.1
  refine .of_closed (next ▸ known) ?_
  rw [linkIds, links_stop]
  exact List.not_mem_nil

/-- Nothing but a pass lets an exchange go by that is due. -/
theorem Urgent.input (h : InStep busy n) (urgent : Urgent id task n) {i : Input α}
    (rests : ∀ now, i ≠ .execute now) : Urgent id task (n.obey (.idle σ α) i) := by
  cases i with
  | addLink station =>
      obtain ⟨tasks, a, added, enrols⟩ := h.addLinkTasks ⟨n.nextLink⟩ station
      have opened : Urgent id task (n.opened station) := by
        simp only [Node.opened, added]
        refine urgent.of_wakes (Nat.le_succ _) (fun k hk same => ?_) fun l hl _ _ =>
          enrols.wakes _ (h.lt_nextId hl (l.tasks.exchange_mem_duties l.id))
        rcases List.mem_append.mp hk with old | new
        · exact ⟨k, old, same, rfl⟩
        · rw [← same, List.mem_singleton.mp new] at urgent
          exact absurd urgent.known (Nat.lt_irrefl _)
      have step : InStep busy (n.opened station) := h.opened station
      exact opened.brisk step (moves_opened n station)
  | arrive k chunk =>
      cases found : n.link? k with
      | none =>
          simp only [obey, arrive_of_none found]
          exact urgent
      | some k =>
          cases received : k.receive chunk n.time with
          | mk result k' =>
              cases result with
              | error e =>
                  simp only [obey, arrive_of_error found (congrArg Prod.fst received)]
                  exact urgent.brisk h (moves_close n _)
              | ok count =>
                  obtain ⟨bodies, r, -, -, rfl⟩ := Link.receive_ok received
                  have put : Urgent id task (n.putLink { k with
                      reassembler := r, inbox := k.inbox ++ bodies.map (·, n.time) }) := by
                    refine urgent.of_wakes (Nat.le_refl _) (fun l hl same => ?_) fun _ _ _ _ =>
                      .of_find?_eq rfl rfl
                    rcases mem_links_putLink hl with rfl | ⟨mem, -⟩
                    · exact ⟨k, mem_links_of_link? found, same, rfl⟩
                    · exact ⟨l, mem, same, rfl⟩
                  simp only [obey, arrive_of_ok found received]
                  split
                  · exact put
                  · exact put.plan fun _ _ _ => Agenda.wakes_enable _ _ _ _
  | disconnect k => exact urgent.brisk h (moves_close n k)
  | close k => exact urgent.brisk h (moves_close n k)
  | send s => exact urgent.brisk h (moves_send n s)
  | execute now => exact absurd rfl (rests now)
  | stop => exact urgent_stop urgent.known
  | onPacket kind a => exact urgent.of_eq rfl rfl rfl
  | onEvent kind a => exact urgent.of_eq rfl rfl rfl
  | addTask interval runs a => exact urgent.brisk h (moves_addTask n interval runs a)
  | joinElection own => exact urgent.brisk h (moves_joinElection n own)

/-- To close a link between passes rouses the others as well. -/
theorem roused_of_changed_input (h : InStep busy n) {i : Input α}
    (rests : ∀ now, i ≠ .execute now) {except : LinkId}
    (changed : n.view.changed except (n.obey (.idle σ α) i).view = true) :
    Roused except n (n.obey (.idle σ α) i) := by
  have still : (n.obey (.idle σ α) i).view = n.view → Roused except n (n.obey (.idle σ α) i) := by
    intro same
    rw [same, changed_self] at changed
    cases changed
  cases i with
  | addLink station =>
      obtain ⟨new, -, -, -, -, -, feeds⟩ := feeds_addLink (P := fun _ _ => True) n station
      simp only [obey, feeds.view_eq, View.changed, branch?_view, link?, List.find?_append]
        at changed
      cases there : n.links.find? (·.id = except) <;> simp [there] at changed
  | arrive k chunk =>
      cases found : n.link? k with
      | none => exact still (congrArg view (arrive_of_none found chunk))
      | some k =>
          cases received : k.receive chunk n.time with
          | mk result k' =>
              cases result with
              | error e =>
                  simp only [obey, arrive_of_error found (congrArg Prod.fst received)] at changed ⊢
                  exact roused_of_changed_close h changed
              | ok count =>
                  obtain ⟨bodies, r, -, -, rfl⟩ := Link.receive_ok received
                  refine still ?_
                  simp only [obey, arrive_of_ok found received]
                  split <;> exact view_putLink_of_subtree_eq h.different found rfl rfl
  | disconnect k => exact roused_of_changed_close h changed
  | close k => exact roused_of_changed_close h changed
  | send s => exact still (feeds_send h.different s).view_eq
  | execute now => exact absurd rfl (rests now)
  | stop => exact fun l hl _ => urgent_stop (h.fresh l hl)
  | onPacket kind a => exact still rfl
  | onEvent kind a => exact still rfl
  | addTask interval runs a => exact still rfl
  | joinElection own =>
      refine still ?_
      simp only [obey, joinElection]
      split <;> rfl

/-! ## Histories -/

/-- The node that an input meets after a history. -/
def met (n : Node σ α) (past : List (σ × Input α)) (host : σ) : Node σ α :=
  { n.live (.idle σ α) past with host }

theorem met_append (n : Node σ α) (past rest : List (σ × Input α)) (host host' : σ) (i : Input α) :
    n.met (past ++ (host, i) :: rest) host' =
      ((n.met past host).obey (.idle σ α) i).met rest host' := by
  simp only [met, Node.live, List.foldl_append, List.foldl_cons]

theorem InStep.met (h : InStep busy n) (past : List (σ × Input α)) (host : σ) :
    InStep busy (n.met past host) :=
  (InStep.live (Program.onlyAsks_idle σ α) h past).hosted host

/-- Without a pass the time stays, and an exchange that is due stays due. -/
theorem Urgent.met (h : InStep busy n) (urgent : Urgent id task n) {rest : List (σ × Input α)}
    (rests : ∀ e ∈ rest, ∀ now, e.2 ≠ .execute now) (host : σ) :
    (n.met rest host).agenda.now = n.agenda.now ∧ Urgent id task (n.met rest host) := by
  induction rest generalizing n with
  | nil => exact ⟨rfl, urgent.hosted host⟩
  | cons e rest ih =>
      have hosted := h.hosted e.1
      have only := rests e List.mem_cons_self
      obtain ⟨now, urgent⟩ := ih (hosted.input only) ((urgent.hosted e.1).input hosted only)
        (fun e he => rests e (List.mem_cons_of_mem _ he))
      exact ⟨now.trans (now_input hosted only), urgent⟩

/-- In every history of a node without an application, a pass changes the tree behind a link, or
closes a link behind which there was something, only by one of its acts.  By the end of the next
pass every other link that is still open was offered the tree without its own branch, by an act
after the change, unless the change was overruled in the same pass.  When a link is closed between
passes, the next pass offers the tree to all others. -/
theorem changes_spread (new : n.links = []) (none : n.agenda = {}) (past rest : List (σ × Input α))
    (rests : ∀ e ∈ rest, ∀ now, e.2 ≠ .execute now) (host host' : σ) (next : Nat) :
    let before := n.met past host
    (∀ now ≤ next,
      let after := n.met (past ++ (host, .execute now) :: rest) host'
      (∀ a, before.view.changed a (before.execute (.idle σ α) now).2.view = true →
        ∃ x ∈ before.acts now, x.2.view.changed a (x.1.run x.2).view = true) ∧
      ∀ x c later, (x, c) :: later <:+ before.acts now →
        ∀ a b, b ≠ a → c.view.changed a (x.run c).view = true → b ∈ c.linkIds →
          b ∈ (after.execute (.idle σ α) next).2.linkIds →
            (∃ y ∈ later ++ after.acts next, Offers b y.1 y.2) ∨
              ∃ y ∈ later, y.1.overrules b y.2 = true) ∧
    ∀ i, (∀ now, i ≠ .execute now) → before.agenda.now ≤ next →
      let after := n.met (past ++ (host, i) :: rest) host'
      ∀ a b, b ≠ a → before.view.changed a (before.obey (.idle σ α) i).view = true →
        b ∈ before.linkIds → b ∈ (after.execute (.idle σ α) next).2.linkIds →
          ∃ y ∈ after.acts next, Offers b y.1 y.2 := by
  intro before
  have h : InStep (fun _ => False) before := (InStep.of_new new none).met past host
  constructor
  · intro now le after
    refine ⟨fun a changed => changed_in_act h.different now changed, ?_⟩
    intro x c later suffix a b other changed open' open''
    have pass := tells_runs (h.clocked now) b now (before.agenda.dueIds now)
    obtain ⟨l, hl, rfl⟩ := List.mem_map.mp open'
    rcases pass.spreads x c later suffix a other.symm changed l hl rfl with
      ⟨y, hy, offers | overrules⟩ | urgent
    · exact .inl ⟨y, List.mem_append_left _ hy, offers⟩
    · exact .inr ⟨y, hy, overrules⟩
    · have eq : after = _ := met_append n past rest host host' (.execute now)
      simp only [obey, execute_eq] at eq
      obtain ⟨time, urgent⟩ := urgent.met pass.inStep rests host'
      have step := pass.inStep.met rest host'
      rw [eq] at open'' ⊢
      obtain ⟨y, hy, offers⟩ :=
        offers_in_pass step urgent ((time.trans pass.now).trans_le le) open''
      exact .inl ⟨y, List.mem_append_right _ hy, offers⟩
  · intro i only le after a b other changed open' open''
    obtain ⟨l, hl, rfl⟩ := List.mem_map.mp open'
    have urgent := roused_of_changed_input h only changed l hl other
    have eq : after = _ := met_append n past rest host host' i
    have obeyed : InStep (fun _ => False) (before.obey (.idle σ α) i) := h.input only
    have step := obeyed.met rest host'
    obtain ⟨time, urgent⟩ := urgent.met obeyed rests host'
    rw [eq] at open'' ⊢
    exact offers_in_pass step urgent ((time.trans (now_input h only)).trans_le le) open''

/-! ## A change and what becomes of it -/

/-- A connection that takes nothing. -/
def shut : Outlets Unit := { application := () }

/-- The nodes 2 and 5 come to be neighbours of the node 1, and two passes settle everything.  Then
the node 2 sends a tree in which the node 3 is behind it. -/
def newsArrives : List (Outlets Unit × Input Empty) :=
  ([.addLink true, .addLink true,
    .arrive ⟨1⟩ [19, 0, 0, 0, 5, 0, 0, 0, 1, 0, 0, 0, 2, 0, 0, 0, 2, 0, 0, 0, 0, 0, 0],
    .arrive ⟨2⟩ [19, 0, 0, 0, 5, 0, 0, 0, 1, 0, 0, 0, 5, 0, 0, 0, 5, 0, 0, 0, 0, 0, 0],
    .execute 0, .execute 1,
    .arrive ⟨1⟩ [26, 0, 0, 0, 5, 0, 0, 0, 1, 0, 0, 0, 2, 0, 0, 0,
      2, 0, 0, 0, 0, 1, 0, 3, 0, 0, 0, 0, 0, 0]] : List (Input Empty)).map fun i => (shut, i)

/-- Whether the first of some acts changes the tree behind the first link while the second link is
open. -/
def beginsWithNews : List (Act Empty × Node (Outlets Unit) Empty) → Bool
  | [] => false
  | x :: _ => x.2.view.changed ⟨1⟩ (x.1.run x.2).view && decide (⟨2⟩ ∈ x.2.linkIds)

theorem changes_spread_newsArrives :
    receiver.links = [] ∧ receiver.agenda = {} ∧
      let before := receiver.met newsArrives shut
      let after := receiver.met (newsArrives ++ [(shut, .execute 2)]) shut
      ∃ x c later, (x, c) :: later <:+ before.acts 2 ∧
        c.view.changed ⟨1⟩ (x.run c).view = true ∧ ⟨2⟩ ∈ c.linkIds ∧
        ∃ y ∈ later ++ after.acts 3, Offers ⟨2⟩ y.1 y.2 := by
  refine ⟨rfl, rfl, ?_⟩
  have news : ((receiver.met newsArrives shut).acts 2).tails.any (fun as =>
      beginsWithNews as && as.all fun y => !y.1.overrules ⟨2⟩ y.2) = true := by
    decide +kernel
  obtain ⟨as, suffix, news⟩ := List.any_eq_true.mp news
  obtain ⟨news, kept⟩ := Bool.and_eq_true_iff.mp news
  cases as with
  | nil => cases news
  | cons x later =>
      obtain ⟨changed, open'⟩ := Bool.and_eq_true_iff.mp news
      have suffix := (List.mem_tails _ _).mp suffix
      have spread := ((changes_spread (n := receiver) rfl rfl newsArrives [] (by simp)
        shut shut 3).1 2 (by decide)).2 x.1 x.2 later suffix ⟨1⟩ ⟨2⟩ (by decide) changed
        (of_decide_eq_true open') (by decide +kernel)
      refine ⟨x.1, x.2, later, suffix, changed, of_decide_eq_true open', spread.resolve_right ?_⟩
      rintro ⟨y, hy, overrules⟩
      have not := List.all_eq_true.mp kept y (List.mem_cons_of_mem _ hy)
      rw [overrules] at not
      cases not

/-- The same, but that the node 5 replies with the tree that it sent before. -/
def newsOverruled : List (Outlets Unit × Input Empty) :=
  newsArrives ++ [(shut,
    .arrive ⟨2⟩ [19, 0, 0, 0, 6, 0, 0, 0, 1, 0, 0, 0, 5, 0, 0, 0, 5, 0, 0, 0, 0, 0, 0])]

/-- The reply comes after the change in the same pass, and so neither that pass nor the next one
offers the node 5 the tree in which the node 3 is. -/
theorem overruled_change_waits :
    let before := receiver.met newsOverruled shut
    let after := receiver.met (newsOverruled ++ [(shut, .execute 2)]) shut
    ∃ x c later, (x, c) :: later <:+ before.acts 2 ∧
      c.view.changed ⟨1⟩ (x.run c).view = true ∧ ⟨2⟩ ∈ c.linkIds ∧
      ⟨2⟩ ∈ (after.execute (.idle (Outlets Unit) Empty) 3).2.linkIds ∧
      ¬ ∃ y ∈ later ++ after.acts 3, Offers ⟨2⟩ y.1 y.2 := by
  intro before after
  have news : (before.acts 2).tails.any (fun as => beginsWithNews as &&
      (as ++ after.acts 3).all fun y => !y.1.speaks ⟨2⟩) = true := by
    decide +kernel
  obtain ⟨as, suffix, news⟩ := List.any_eq_true.mp news
  obtain ⟨news, silent⟩ := Bool.and_eq_true_iff.mp news
  cases as with
  | nil => cases news
  | cons x later =>
      obtain ⟨changed, open'⟩ := Bool.and_eq_true_iff.mp news
      refine ⟨x.1, x.2, later, (List.mem_tails _ _).mp suffix, changed, of_decide_eq_true open',
        by decide +kernel, ?_⟩
      rintro ⟨y, hy, offers⟩
      have not := List.all_eq_true.mp silent y (List.mem_cons_of_mem _ hy)
      rw [offers.speaks] at not
      cases not

end Node

end SpanningMesh
