import SpanningMesh.Proofs.Framing
import SpanningMesh.Proofs.Node.Copies

/-!
# Relaying

A frame that is for another node, or for all of them, is passed on without being understood.  A link
`Admits` a frame or refuses it, whatever becomes of it elsewhere, and `Node.relayed` says what the
node is after a frame was offered to some of its links: those that admit it have it behind their
regular frames, their send tasks are enabled in the order of the links, and nothing else is touched.

The links are offered the frame one after the other.  `queueOnAll_append` follows this from link to
link: the links before have their share already, and those behind are as they were.
-/

namespace SpanningMesh

open Application (Program)

namespace Link

variable {l : Link} {frame : Bytes} {headroom : Nat}

/-- The link is open and has room for one more regular frame. -/
def Admits (l : Link) (frame : Bytes) (headroom : Nat) : Prop :=
  l.phase ≠ .closing ∧ l.outbox.needed frame ≤ headroom ∧
    l.outbox.regular.length < l.outbox.maxPending

instance (l : Link) (frame : Bytes) (headroom : Nat) : Decidable (l.Admits frame headroom) :=
  inferInstanceAs (Decidable (_ ∧ _ ∧ _))

/-- A link takes a frame that it admits. -/
theorem enqueue_of_admits (h : l.Admits frame headroom) :
    l.enqueue frame false headroom = .ok (l.fed [] [frame]) := by
  obtain ⟨isOpen, memory, room⟩ := h
  simp [enqueue, Outbox.enqueue, isOpen, Nat.not_lt.mpr memory, Nat.not_le.mpr room, fed]

theorem enqueue_of_not_admits (h : ¬ l.Admits frame headroom) :
    ∃ e, l.enqueue frame false headroom = .error e := by
  simp only [enqueue]
  by_cases closing : l.phase = .closing
  · exact ⟨_, if_pos closing⟩
  rw [if_neg closing, Outbox.enqueue]
  by_cases memory : headroom < l.outbox.needed frame
  · exact ⟨_, by rw [if_pos memory]⟩
  rw [if_neg memory, if_neg Bool.false_ne_true]
  have full : l.outbox.maxPending ≤ l.outbox.regular.length :=
    Nat.not_lt.mp fun room => h ⟨closing, Nat.not_lt.mp memory, room⟩
  exact ⟨_, by rw [if_pos full]⟩

end Link

namespace Node

variable {σ α : Type} [Host σ] {n : Node σ α} {id k : LinkId} {l : Link} {frame body : Bytes}
  {h : Header} {through : Link → Prop} [DecidablePred through]

/-- A link takes in one more regular frame, and its send task is enabled. -/
theorem queueFrame_of_admits (hl : n.link? id = some l)
    (admits : l.Admits frame (Host.headroom n.host)) :
    n.queueFrame id frame false =
      (.ok (), (n.putLink (l.fed [] [frame])).plan fun a => (a.enable l.tasks.send).2) := by
  simp [queueFrame, hl, Link.enqueue_of_admits admits, Link.fed]

/-- A frame that its link does not admit changes nothing. -/
theorem queueFrame_of_not_admits (hl : n.link? id = some l)
    (refuses : ¬ l.Admits frame (Host.headroom n.host)) :
    ∃ e, n.queueFrame id frame false = (.error e, n) := by
  obtain ⟨e, refused⟩ := Link.enqueue_of_not_admits refuses
  exact ⟨e, by simp [queueFrame, hl, refused]⟩

/-- The links that a frame goes through and that admit it. -/
def takers (n : Node σ α) (through : Link → Prop) [DecidablePred through] (frame : Bytes) :
    List Link :=
  n.links.filter fun l => through l ∧ l.Admits frame (Host.headroom n.host)

/-- The node after a frame was offered to some of its links.  Those that admit it have it behind
their regular frames and are to send it, and nothing else is different. -/
def relayed (n : Node σ α) (through : Link → Prop) [DecidablePred through] (frame : Bytes) :
    Node σ α :=
  { n with
    links := n.links.map fun l =>
      if through l ∧ l.Admits frame (Host.headroom n.host) then l.fed [] [frame] else l
    agenda := (n.takers through frame).foldl (fun a l => (a.enable l.tasks.send).2) n.agenda }

omit [Host σ] in
/-- A link is put in its own place, and the links before and behind it stay. -/
theorem putLink_append {before behind : List Link} {l' : Link}
    (links : n.links = before ++ l :: behind) (hn : n.linkIds.Nodup) (same : l'.id = l.id) :
    n.putLink l' = { n with links := before ++ l' :: behind } := by
  rw [linkIds, links, List.map_append, List.map_cons, List.nodup_middle, List.nodup_cons,
    ← List.map_append] at hn
  have others : ∀ ls, ls ⊆ before ++ behind →
      ls.map (fun x => if x.id = l'.id then l' else x) = ls := by
    intro ls within
    refine (List.map_congr_left fun x hx => if_neg ?_).trans (List.map_id ls)
    exact fun eq => hn.1 (same ▸ eq ▸ List.mem_map_of_mem (within hx))
  rw [putLink, links, List.map_append, List.map_cons, if_pos same.symm,
    others before (List.subset_append_left _ _), others behind (List.subset_append_right _ _)]

/-- A frame is offered to the links one after the other. -/
theorem queueOnAll_append {before behind : List Link} (links : n.links = before ++ behind)
    (hn : n.linkIds.Nodup) :
    (n.queueOnAll ((behind.filter fun l => through l).map Link.id) frame false).2 =
      { n with
        links := before ++ behind.map fun l =>
          if through l ∧ l.Admits frame (Host.headroom n.host) then l.fed [] [frame] else l
        agenda := (behind.filter fun l => through l ∧ l.Admits frame (Host.headroom n.host)).foldl
          (fun a l => (a.enable l.tasks.send).2) n.agenda } := by
  induction behind generalizing n before with
  | nil =>
      rw [List.append_nil] at links
      simp [queueOnAll, ← links]
  | cons l behind ih =>
      have found : n.link? l.id = some l := link?_of_mem hn (by simp [links])
      -- A link that the frame does not go to, or that refuses it, stays as it is.
      have passed : n.links = (before ++ [l]) ++ behind := by simp [links]
      by_cases goes : through l
      · rw [List.filter_cons_of_pos (by simpa using goes), List.map_cons]
        by_cases admits : l.Admits frame (Host.headroom n.host)
        · have taken : (n.putLink (l.fed [] [frame])).plan (fun a => (a.enable l.tasks.send).2) =
              { n with
                links := (before ++ [l.fed [] [frame]]) ++ behind
                agenda := (n.agenda.enable l.tasks.send).2 } := by
            have same : (l.fed [] [frame]).id = l.id := rfl
            rw [putLink_append links hn same, List.append_assoc]
            rfl
          rw [queueOnAll_cons_ok (queueFrame_of_admits found admits), taken,
            ih rfl (by simpa [linkIds, links, Link.fed] using hn),
            List.filter_cons_of_pos (by simpa using ⟨goes, admits⟩), List.map_cons,
            if_pos ⟨goes, admits⟩]
          simp only [List.append_assoc, List.singleton_append, List.foldl_cons]
        · obtain ⟨e, refused⟩ := queueFrame_of_not_admits found admits
          rw [queueOnAll_cons_error refused, ih passed hn]
          simp [goes, admits]
      · rw [List.filter_cons_of_neg (by simpa using goes), ih passed hn]
        simp [goes]

/-- A frame that is passed on through some links is offered to all of them. -/
theorem forwardFrame_eq_relayed (hn : n.linkIds.Nodup) (fits : body.length < 4294967296) :
    n.forwardFrame ((n.links.filter fun l => through l).map Link.id) body =
      n.relayed through (Frame.whole body) := by
  rw [forwardFrame, Frame.ofBody_eq_ok_iff.mpr ⟨fits, rfl⟩]
  have links : n.links = [] ++ n.links := rfl
  exact queueOnAll_append links hn

omit [Host σ] in
/-- A route leads through one link. -/
theorem filter_links_of_routeTo {dest : UInt32} (hn : n.linkIds.Nodup)
    (route : n.view.routeTo dest = some k) :
    (n.links.filter fun l => l.id = k).map Link.id = [k] := by
  obtain ⟨l, hl, rfl, -⟩ := exists_link_of_routeTo route
  have one : n.linkIds.count l.id = 1 := List.count_eq_one_of_mem hn (List.mem_map_of_mem hl)
  calc (n.links.filter fun k => k.id = l.id).map Link.id
      = n.linkIds.filter (· = l.id) := by rw [linkIds, List.filter_map]; rfl
    _ = [l.id] := by rw [List.filter_eq, one, List.replicate_one]

omit [Host σ] in
/-- A broadcast goes through all links that are synced but the one that it came from. -/
theorem fanOut_broadcast (n : Node σ α) (id : LinkId) :
    n.fanOut .broadcast (some id) =
      (n.links.filter fun l => l.phase = .synced ∧ l.id ≠ id).map Link.id := by
  rw [fanOut]
  congr 1
  refine List.filter_congr fun l _ => ?_
  simp [and_comm]

/-- Relaying is transparent.  A packet for another node is put, as the bytes that came in, behind the
regular frames of the link that leads there, if it admits it, and nothing else happens, whatever
program there is.  A packet for all nodes is put behind those of every synced link but its own that
admits it, and is handled only then, even if it turns out to be malformed.

The length of a body that came in was read from four bytes. -/
theorem relaying_transparent (hn : n.linkIds.Nodup) (fits : body.length < 4294967296)
    (seen : Header.peek body = .ok h) (id : LinkId) (arrival : UInt32) (p : Program σ α) :
    (h.delivery = .single → h.dest ≠ n.id →
      (n.view.routeTo h.dest = none → n.routeFrame p id body arrival = n.counted h) ∧
      ∀ k, n.view.routeTo h.dest = some k →
        n.routeFrame p id body arrival =
          (n.counted h).relayed (fun l => l.id = k) (Frame.whole body)) ∧
    (h.delivery = .broadcast →
      let offered := (n.counted h).relayed (fun l => l.phase = .synced ∧ l.id ≠ id)
        (Frame.whole body)
      n.routeFrame p id body arrival = offered.handleFrame p id body arrival ∧
        ∀ e, Packet.decode body = .error e →
          n.routeFrame p id body arrival = offered.countMalformed) := by
  have uniqueIds : (n.counted h).linkIds.Nodup := hn
  constructor
  · intro single elsewhere
    have passes : n.takesIn h = false := by
      rw [Bool.eq_false_iff]
      exact fun takes => elsewhere ((takesIn_single single).mp takes)
    have away : n.onward id h = (n.view.routeTo h.dest).toList := by
      rw [onward_single single, if_neg elsewhere]
    rw [routeFrame_eq p seen, passes, if_neg Bool.false_ne_true, passOn, away]
    constructor
    · intro unknown
      rw [unknown, Option.toList_none, forwardFrame_nil]
    · intro k route
      rw [route, Option.toList_some, ← forwardFrame_eq_relayed uniqueIds fits,
        filter_links_of_routeTo uniqueIds route]
  · intro broadcast offered
    have handled : n.routeFrame p id body arrival = offered.handleFrame p id body arrival := by
      rw [routeFrame_eq p seen, takesIn_broadcast broadcast, if_pos rfl, passOn,
        onward_broadcast broadcast, fanOut_broadcast]
      exact congrArg _ (forwardFrame_eq_relayed uniqueIds fits)
    refine ⟨handled, fun e unreadable => ?_⟩
    rw [handled, handleFrame, unreadable]

/-- The node 1 with links to the nodes 2 and 4, the node 3 behind 2, and a link that is new. -/
def crossroads : Node (Outlets Unit) Empty :=
  receiver.run (.idle (Outlets Unit) Empty) (treeArrives ++ [.addLink true,
    .arrive ⟨2⟩ [19, 0, 0, 0, 5, 0, 0, 0, 1, 0, 0, 0, 4, 0, 0, 0, 4, 0, 0, 0, 0, 0, 0],
    .execute 1, .addLink true])

/-- Packets from the node 4 whose payload has no meaning, one for the node 3 and one for all, are
passed on to the node 2.  Only the second is counted as malformed here. -/
theorem relaying_transparent_crossroads :
    let p : Program (Outlets Unit) Empty := .idle _ _
    let single : Bytes := [9, 0, 1, 0, 3, 0, 0, 0, 255]
    let broadcast : Bytes := [8, 0, 2, 0, 0, 0, 0, 0, 255]
    crossroads.linkIds.Nodup ∧
      Header.peek single = .ok ⟨9, .single, 3⟩ ∧ Header.peek broadcast = .ok ⟨8, .broadcast, 0⟩ ∧
      ((crossroads.routeFrame p ⟨2⟩ single 0).links.map fun l => l.outbox.regular) =
        [[Frame.whole single], [], []] ∧
      (crossroads.routeFrame p ⟨2⟩ single 0).tally.dropped = crossroads.tally.dropped ∧
      ((crossroads.routeFrame p ⟨2⟩ broadcast 0).links.map fun l => l.outbox.regular) =
        [[Frame.whole broadcast], [], []] ∧
      (crossroads.routeFrame p ⟨2⟩ broadcast 0).tally.dropped = crossroads.tally.dropped + 1 := by
  intro p single broadcast
  have unique : crossroads.linkIds.Nodup := by decide +kernel
  have headed : Header.peek single = .ok ⟨9, .single, 3⟩ := by decide +kernel
  have headed' : Header.peek broadcast = .ok ⟨8, .broadcast, 0⟩ := by decide +kernel
  have elsewhere : (3 : UInt32) ≠ crossroads.id := by decide +kernel
  have route : crossroads.view.routeTo 3 = some ⟨1⟩ := by decide +kernel
  have unreadable : Packet.decode broadcast = .error (.truncated 8 4 1) := by decide +kernel
  have forwarded := ((relaying_transparent unique (by decide) headed ⟨2⟩ 0 p).1 rfl elsewhere).2
    ⟨1⟩ route
  have flooded := ((relaying_transparent unique (by decide) headed' ⟨2⟩ 0 p).2 rfl).2 _ unreadable
  rw [forwarded, flooded]
  exact ⟨unique, headed, headed', by decide +kernel, by decide +kernel, by decide +kernel,
    by decide +kernel⟩

end Node

end SpanningMesh
