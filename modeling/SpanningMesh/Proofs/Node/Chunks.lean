import SpanningMesh.Proofs.Agenda.Tasks
import SpanningMesh.Proofs.Node.Copies
import SpanningMesh.Proofs.Reassembly

/-!
# Bytes that arrive in chunks

A node that is given bytes of a link in two chunks ends up exactly as if it had been given them
in one (`Node.arrive_append`).  Nothing at all tells the cut afterwards: neither what waits in
the reassembler and in the inbox nor the agenda, the tally or the events that are to come.

If both chunks are taken, this is the reassembler's doing (`Reassembler.push_append`), and the
read task is enabled once however often it is asked for.  If the second chunk is refused, the
frames that the first one completed wait already and the read task is enabled.  Both go when
the link is closed: what is closed is forgotten with its inbox and its tasks
(`Node.close_putLink`, `Node.close_enable`).
-/

namespace SpanningMesh

/-! ## Reassembly -/

namespace Reassembler

variable {r r' : Reassembler} {bodies : List Bytes} {e : CodecError}

/-- Behind a chunk that was taken, the next one adds its frames to those there were. -/
theorem push_append (x y : Bytes) (h : r.push x = (.ok bodies, r')) :
    r.push (x ++ y) = ((r'.push y).1.map (bodies ++ ·), (r'.push y).2) := by
  rw [push_eq] at h
  simp only [push_eq]
  cases first : (parse r.limit (r.buffer.toList ++ x)).oversized with
  | some size => simp [first] at h
  | none =>
      simp only [first, Prod.mk.injEq, Except.ok.injEq] at h
      obtain ⟨rfl, rfl⟩ := h
      rw [← List.append_assoc, parse_append]
      obtain ⟨_, _, oversized⟩ := parse r.limit ((parse r.limit (r.buffer.toList ++ x)).rest ++ y)
      cases oversized <;> rfl

/-- A chunk that is refused is refused with whatever follows it. -/
theorem push_append_of_error (x y : Bytes) (h : (r.push x).1 = .error e) :
    (r.push (x ++ y)).1 = .error e := by
  rw [push_eq] at h ⊢
  cases first : (parse r.limit (r.buffer.toList ++ x)).oversized with
  | none => simp [first] at h
  | some size =>
      have all := oversized_append first y
      rw [List.append_assoc] at all
      simpa [first, all] using h

end Reassembler

namespace Link

variable {l l' : Link} {x y : Bytes} {arrival : UInt32} {count : Nat} {e : CodecError}

/-- A chunk that was taken leaves the link as it was, but for the bytes that came in. -/
theorem receive_ok (h : l.receive x arrival = (.ok count, l')) :
    ∃ bodies r, l.reassembler.push x = (.ok bodies, r) ∧ bodies.length = count ∧
      l' = { l with reassembler := r, inbox := l.inbox ++ bodies.map (·, arrival) } := by
  simp only [receive] at h
  split at h
  next bodies r pushed =>
    cases h
    exact ⟨bodies, r, pushed, rfl, rfl⟩
  next => cases h

theorem receive_of_push {bodies : List Bytes} {r : Reassembler}
    (pushed : l.reassembler.push x = (.ok bodies, r)) :
    l.receive x arrival = (.ok bodies.length,
      { l with reassembler := r, inbox := l.inbox ++ bodies.map (·, arrival) }) := by
  simp only [receive, pushed]

/-- A chunk that the reassembler refuses is refused. -/
theorem receive_of_error (refused : (l.reassembler.push x).1 = .error e) :
    (l.receive x arrival).1 = .error e := by
  simp only [receive]
  split
  next pushed => simp [pushed] at refused
  next pushed => simpa [pushed] using refused

/-- Behind a chunk that was taken, the next one completes as many more frames. -/
theorem receive_append (h : l.receive x arrival = (.ok count, l')) :
    (∀ more l'', l'.receive y arrival = (.ok more, l'') →
      l.receive (x ++ y) arrival = (.ok (count + more), l'')) ∧
    ∀ e, (l'.receive y arrival).1 = .error e → (l.receive (x ++ y) arrival).1 = .error e := by
  obtain ⟨bodies, r, pushed, rfl, rfl⟩ := receive_ok h
  simp only [receive, Reassembler.push_append x y pushed]
  cases r.push y with
  | mk result r' =>
      cases result with
      | ok bodies' => simp [Except.map]
      | error e => simp [Except.map]

/-- A link that breaks takes no more bytes. -/
theorem receive_append_of_error (h : (l.receive x arrival).1 = .error e) :
    (l.receive (x ++ y) arrival).1 = .error e := by
  have refused : (l.reassembler.push x).1 = .error e := by
    simp only [receive] at h
    split at h
    next => cases h
    next pushed => simpa [pushed] using h
  exact receive_of_error (Reassembler.push_append_of_error x y refused)

end Link

/-- What a filter leaves of a list does not change with the elements that it drops. -/
theorem filter_map_of_kept {α : Type} {p : α → Bool} {f : α → α} {xs : List α}
    (h : ∀ x, p (f x) = p x ∧ (p x = true → f x = x)) : (xs.map f).filter p = xs.filter p := by
  have same : p ∘ f = p := funext fun x => (h x).1
  rw [List.filter_map, same]
  calc (xs.filter p).map f = (xs.filter p).map id :=
        List.map_congr_left fun x hx => (h x).2 (List.mem_filter.mp hx).2
    _ = xs.filter p := List.map_id _

namespace Agenda

variable {α : Type} (a : Agenda α) (id : TaskId)

/-! ## Tasks that are forgotten -/

/-- What was done to a task is forgotten with it. -/
theorem foldl_erase_update {ids : List TaskId} (f : Task α → Task α) (h : id ∈ ids) :
    ids.foldl erase (a.update id f) = ids.foldl erase a := by
  rw [foldl_erase, foldl_erase]
  simp only [update]
  rw [filter_map_of_kept]
  · rintro ⟨i, t⟩
    by_cases hi : i = id
    · simp [hi, h]
    · simp [hi]

/-- It does not matter that a task was enabled if it is erased. -/
theorem foldl_erase_enable {ids : List TaskId} (h : id ∈ ids) :
    ids.foldl erase (a.enable id).2 = ids.foldl erase a := by
  simp only [enable]
  split
  next => rfl
  next t _ =>
    dsimp only
    split
    · rfl
    · exact foldl_erase_update a id _ h

/-- A task that was enabled is not enabled anew. -/
theorem enable_enable : ((a.enable id).2.enable id).2 = (a.enable id).2 := by
  cases found : a.find? id with
  | none => simp [enable, found]
  | some t =>
      cases enabled : t.enabled with
      | true => simp [enable, found, enabled]
      | false =>
          have armed : (a.update id (·.armed a.now)).find? id = some (t.armed a.now) := by
            rw [find?_update_self, found]
            rfl
          have kept : (t.armed a.now).enabled = true := rfl
          simp [enable, found, enabled, armed, kept]

end Agenda

namespace Node

variable {σ α : Type} {n : Node σ α} {l l' : Link} {id : LinkId} {x y : Bytes}

/-! ## Links that are replaced -/

theorem putLink_putLink (same : l'.id = l.id) : (n.putLink l).putLink l' = n.putLink l' := by
  simp only [putLink, List.map_map]
  congr 1
  refine List.map_congr_left fun k _ => ?_
  by_cases hk : k.id = l.id
  · simp [hk, same]
  · simp [hk, same]

theorem link?_putLink_self (h : n.link? id = some l) (same : l'.id = l.id) :
    (n.putLink l').link? id = some l' := by
  simp [link?_putLink, h, same]

variable [Host σ]

/-- A link that is closed is forgotten with what came in on it. -/
theorem close_putLink (h : n.link? id = some l) (same : l'.id = l.id) (tasks : l'.tasks = l.tasks)
    (remote : l'.remote = l.remote) (station : l'.station = l.station)
    (subtree : l'.subtree = l.subtree) : (n.putLink l').close id = n.close id := by
  have dropped : (n.putLink l').dropLink l' = n.dropLink l := by
    have links : (n.putLink l').links.filter (·.id ≠ l.id) = n.links.filter (·.id ≠ l.id) := by
      refine filter_map_of_kept fun k => ?_
      by_cases hk : k.id = l.id
      · simp [hk, same]
      · simp [hk, same]
    simp only [dropLink, tasks, same, links]
    rfl
  simp only [close, link?_putLink_self h same, h, dropped, remote, station, subtree]

/-- A link that is closed is forgotten with its tasks, enabled or not. -/
theorem close_enable {task : TaskId} (h : n.link? id = some l) (mem : task ∈ l.tasks.all) :
    (n.plan fun a => (a.enable task).2).close id = n.close id := by
  have found : (n.plan fun a => (a.enable task).2).link? id = some l := h
  have dropped : (n.plan fun a => (a.enable task).2).dropLink l = n.dropLink l := by
    simp only [dropLink, plan, Agenda.foldl_erase_enable n.agenda task mem]
  simp only [close, found, h, dropped]

/-! ## Bytes in two chunks -/

theorem arrive_of_none (h : n.link? id = none) (chunk : Bytes) : n.arrive id chunk = n := by
  simp only [arrive, h]

/-- A link that breaks is closed. -/
theorem arrive_of_error {e : CodecError} (h : n.link? id = some l)
    (refused : (l.receive x n.time).1 = .error e) : n.arrive id x = (n.close id).2 := by
  cases received : l.receive x n.time with
  | mk result l' =>
      rw [received] at refused
      obtain rfl : result = .error e := refused
      simp only [arrive, h, received]

/-- Frames that are complete wait to be read. -/
theorem arrive_of_ok {count : Nat} (h : n.link? id = some l)
    (taken : l.receive x n.time = (.ok count, l')) :
    n.arrive id x =
      if count = 0 then n.putLink l'
      else (n.putLink l').plan fun a => (a.enable l.tasks.read).2 := by
  obtain ⟨bodies, r, -, -, rfl⟩ := Link.receive_ok taken
  simp only [arrive, h, taken]

/-- Once a link is closed nothing arrives on it. -/
theorem link?_close (n : Node σ α) (id : LinkId) : (n.close id).2.link? id = none := by
  rw [link?, close_links]
  refine List.find?_eq_none.mpr fun l hl => ?_
  simpa using (List.mem_filter.mp hl).2

theorem link?_close_of_ne {k : LinkId} (other : k ≠ id) :
    (n.close id).2.link? k = n.link? k := by
  simp only [link?, close_links, List.find?_filter]
  congr 1
  funext l
  by_cases same : l.id = k
  · simp [same, other]
  · simp [same]

/-- Behind a chunk that was taken, a link is closed as if nothing had come in. -/
theorem close_arrive {count : Nat} (h : n.link? id = some l)
    (taken : l.receive x n.time = (.ok count, l')) : (n.arrive id x).close id = n.close id := by
  obtain ⟨bodies, r, -, -, kept⟩ := Link.receive_ok taken
  have found : (n.putLink l').link? id = some l' := link?_putLink_self h (kept ▸ rfl)
  have reading : l.tasks.read ∈ l'.tasks.all := by
    simp [kept, LinkTasks.all]
  have closed : (n.putLink l').close id = n.close id := by
    subst kept
    exact close_putLink h rfl rfl rfl rfl rfl
  rw [arrive_of_ok h taken]
  split
  · exact closed
  · rw [close_enable found reading, closed]

theorem link?_arrive {count : Nat} (h : n.link? id = some l)
    (taken : l.receive x n.time = (.ok count, l')) : (n.arrive id x).link? id = some l' := by
  obtain ⟨_, _, -, -, kept⟩ := Link.receive_ok taken
  rw [arrive_of_ok h taken]
  split <;> exact link?_putLink_self h (kept ▸ rfl)

/-- Bytes concern the link that they arrive on. -/
theorem link?_arrive_of_ne {k : LinkId} (n : Node σ α) (x : Bytes) (other : k ≠ id) :
    (n.arrive id x).link? k = n.link? k := by
  cases found : n.link? id with
  | none => rw [arrive_of_none found]
  | some l =>
      cases received : l.receive x n.time with
      | mk result l' =>
          cases result with
          | error e =>
              rw [arrive_of_error found (congrArg Prod.fst received)]
              exact link?_close_of_ne other
          | ok count =>
              obtain ⟨bodies, r, -, -, kept⟩ := Link.receive_ok received
              have at_id : l'.id = id := by
                rw [kept]
                exact (id_of_link? found : l.id = id)
              have put : (n.putLink l').link? k = n.link? k :=
                link?_putLink_of_ne (at_id ▸ other)
              rw [arrive_of_ok found received]
              split <;> exact put

theorem time_arrive {count : Nat} (h : n.link? id = some l)
    (taken : l.receive x n.time = (.ok count, l')) : (n.arrive id x).time = n.time := by
  rw [arrive_of_ok h taken]
  split <;> rfl

/-- The read task is enabled by the first chunk that completes a frame, and the second one
changes nothing about that. -/
theorem arrive_arrive_of_ok {count more : Nat} {l'' : Link} (h : n.link? id = some l)
    (first : l.receive x n.time = (.ok count, l'))
    (second : l'.receive y n.time = (.ok more, l'')) :
    (n.arrive id x).arrive id y =
      if count + more = 0 then n.putLink l''
      else (n.putLink l'').plan fun a => (a.enable l.tasks.read).2 := by
  obtain ⟨_, _, -, -, kept⟩ := Link.receive_ok first
  obtain ⟨_, _, -, -, kept'⟩ := Link.receive_ok second
  have tasks : l'.tasks = l.tasks := by rw [kept]
  have put : (n.putLink l').putLink l'' = n.putLink l'' := putLink_putLink (kept' ▸ rfl)
  have enabled : ((n.putLink l').plan fun a => (a.enable l.tasks.read).2).putLink l'' =
      (n.putLink l'').plan fun a => (a.enable l.tasks.read).2 := by
    rw [← put]
    rfl
  have again : ∀ m : Node σ α, ((m.plan fun a => (a.enable l.tasks.read).2).plan fun a =>
      (a.enable l.tasks.read).2) = m.plan fun a => (a.enable l.tasks.read).2 := by
    intro m
    simp only [plan, Agenda.enable_enable]
  rw [arrive_of_ok (link?_arrive h first) (time_arrive h first ▸ second), arrive_of_ok h first,
    tasks]
  cases count with
  | zero => simp only [if_true, put, Nat.zero_add]
  | succ count =>
      have some : count + 1 + more ≠ 0 := by omega
      rw [if_neg (Nat.succ_ne_zero count), enabled, again, ite_self, if_neg some]

/-- Bytes that arrive in two chunks leave a node exactly as they do in one, whatever the node,
the link and the bytes are. -/
theorem arrive_append (n : Node σ α) (id : LinkId) (x y : Bytes) :
    (n.arrive id x).arrive id y = n.arrive id (x ++ y) := by
  cases h : n.link? id with
  | none => rw [arrive_of_none h, arrive_of_none h, arrive_of_none h]
  | some l =>
      cases first : l.receive x n.time with
      | mk result l' =>
          cases result with
          | error e =>
              have refused : (l.receive x n.time).1 = .error e := congrArg Prod.fst first
              rw [arrive_of_error h refused, arrive_of_none (link?_close n id),
                arrive_of_error h (Link.receive_append_of_error refused)]
          | ok count =>
              obtain ⟨joins, refuses⟩ := Link.receive_append (y := y) first
              cases second : l'.receive y n.time with
              | mk result' l'' =>
                  cases result' with
                  | error e =>
                      have refused : (l'.receive y n.time).1 = .error e := congrArg Prod.fst second
                      have later := time_arrive h first ▸ refused
                      rw [arrive_of_error (link?_arrive h first) later, close_arrive h first,
                        arrive_of_error h (refuses e refused)]
                  | ok more =>
                      rw [arrive_arrive_of_ok h first second,
                        arrive_of_ok h (joins more l'' second)]

end Node

end SpanningMesh
