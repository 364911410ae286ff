import SpanningMesh.Proofs.Mesh.Basic
import SpanningMesh.Proofs.Mesh.Handling

/-!
# Meshes in which everything fits

In a *coherent* mesh every node fits the cables, every frame on its way is honest, and
the bridges are open at both ends.  A mesh without links is coherent, and every move
keeps it so (`Coherent.run`).

Only two moves can close a link.  A node that hears a tree may close the link it came
through, but not if the link belongs to a bridge.  A port that hangs up faces a port
that was closed, so that does not happen on a bridge either.
-/

namespace SpanningMesh

/-! ## Frames that leave -/

/-- A frame that is started comes from the queue, and sending it puts no other there. -/
theorem Outbox.mem_frames_of_start {q q' : Outbox} {frame : Bytes}
    (h : q.start = some (frame, q')) :
    frame ∈ q.frames ∧ ∀ f ∈ (q'.advance frame frame.length).frames, f ∈ q.frames := by
  obtain ⟨maxPending, minFree, current, express, regular⟩ := q
  simp only [start] at h
  cases current with
  | some f =>
      cases h
      simp [frames, advance]
      tauto
  | none =>
      cases express with
      | cons f rest =>
          cases h
          simp [frames, advance]
          tauto
      | nil =>
          cases regular with
          | cons f rest =>
              cases h
              simp [frames, advance]
              tauto
          | nil => cases h

/-- A frame that departs waited on the link, which is steady meanwhile. -/
theorem Link.steady_of_depart {P : LinkId → Bytes → Prop} {l l' : Link} {frame : Bytes}
    (h : l.depart = some (frame, l')) : frame ∈ l.outbox.frames ∧ l.Steady P l' := by
  obtain ⟨⟨f, q⟩, started, same⟩ := Option.map_eq_some_iff.mp h
  cases same
  obtain ⟨first, rest⟩ := Outbox.mem_frames_of_start started
  exact ⟨first, rfl, rfl, Iff.rfl, rfl, fun f hf => .inl (rest f hf)⟩

namespace Mesh

variable {ι σ : Type} [DecidableEq ι] {ids : ι → UInt32} {m : Mesh ι σ} {i j : ι} {p q : Port ι}
  {c : Cable ι} {n : Node σ Empty}

theorem faces_of_facing (h : m.facing? p = some q) : ∃ c ∈ m.cableSet, c.Faces p q := by
  obtain ⟨c, hc, across⟩ := List.exists_of_findSome?_eq_some h
  exact ⟨c, hc, Cable.faces_of_across across⟩

/-- A mesh in which nodes and frames fit the cables and the bridges are open. -/
structure Coherent (ids : ι → UInt32) (m : Mesh ι σ) : Prop where
  fits : ∀ i, (m.nodes i).Fits ids m.cableSet i
  plugged : Plugged m.cableSet
  used : ∀ c ∈ m.cableSet, ∀ p q, c.Faces p q → p.link.number < (m.nodes p.node).nextLink
  transit : ∀ q, ∀ f ∈ m.transit q, ∃ c ∈ m.cableSet, ∃ p, c.Faces q p ∧
    Honest ids m.cableSet c p.node f
  bridges : ∀ c ∈ m.cableSet, Bridge m.cableSet c → ∀ p q, c.Faces p q → m.isOpen p

omit [DecidableEq ι] in
/-- Nothing can be amiss in a mesh without cables. -/
theorem Fresh.coherent (h : m.Fresh) : Coherent (fun i => (m.nodes i).id) m := by
  have none : ∀ c, c ∉ m.cableSet := fun c hc => by
    simp [cableSet, h.cables] at hc
  refine ⟨?_, ?_, ?_, ?_, ?_⟩
  · intro i
    refine ⟨rfl, .of_links_eq_nil (h.ids_ne i) (h.links i), ?_⟩
    rw [h.links i]
    exact fun l hl => absurd hl List.not_mem_nil
  · exact fun c hc => absurd hc (none c)
  · exact fun c hc => absurd hc (none c)
  · intro q f hf
    rw [h.transit q] at hf
    exact absurd hf List.not_mem_nil
  · exact fun c hc => absurd hc (none c)

/-! ## One node, or the frames to one port -/

/-- A node may become one that fits as long as its links on bridges stay. -/
theorem Coherent.setNode {S : LinkId → Prop} (h : Coherent ids m)
    (b : (m.nodes i).Becomes ids m.cableSet i S n)
    (stays : ∀ c ∈ m.cableSet, Bridge m.cableSet c → ∀ k q, c.Faces ⟨i, k⟩ q → S k) :
    Coherent ids (m.setNode i n) where
  fits := by
    intro j
    by_cases hj : j = i
    · subst hj
      simp only [Mesh.setNode, Function.update_self]
      exact b.fits
    · simp only [Mesh.setNode, Function.update_of_ne hj]
      exact h.fits j
  plugged := h.plugged
  used := by
    intro c hc p q faces
    have old := h.used c hc p q faces
    by_cases hp : p.node = i
    · simp only [Mesh.setNode, hp, Function.update_self, b.nextLink]
      exact hp ▸ old
    · simp only [Mesh.setNode, Function.update_of_ne hp]
      exact old
  transit := h.transit
  bridges := by
    intro c hc bridge p q faces
    have old := h.bridges c hc bridge p q faces
    by_cases hp : p.node = i
    · subst hp
      simp only [isOpen, Mesh.setNode, Function.update_self]
      exact b.kept p.link old (stays c hc bridge p.link q faces)
    · simp only [isOpen, Mesh.setNode, Function.update_of_ne hp]
      exact old

/-- Honest frames may be on their way to a port. -/
theorem Coherent.setTransit {frames : List Bytes} (h : Coherent ids m)
    (honest : ∀ f ∈ frames, ∃ c ∈ m.cableSet, ∃ p, c.Faces q p ∧
      Honest ids m.cableSet c p.node f) :
    Coherent ids (m.setTransit q frames) where
  fits := h.fits
  plugged := h.plugged
  used := h.used
  transit := by
    intro r f hf
    by_cases hr : r = q
    · subst hr
      simp only [Mesh.setTransit, Function.update_self] at hf
      exact honest f hf
    · simp only [Mesh.setTransit, Function.update_of_ne hr] at hf
      exact h.transit r f hf
  bridges := h.bridges

/-! ## Connecting -/

/-- What opening links leaves of a mesh. -/
structure Extends (m m' : Mesh ι σ) : Prop where
  cables : m'.cables = m.cables
  transit : m'.transit = m.transit
  nextLink : ∀ i, (m.nodes i).nextLink ≤ (m'.nodes i).nextLink
  isOpen : ∀ p, m.isOpen p → m'.isOpen p

omit [DecidableEq ι] in
theorem Extends.trans {m' m'' : Mesh ι σ} (h : Extends m m') (h' : Extends m' m'') :
    Extends m m'' where
  cables := h'.cables.trans h.cables
  transit := h'.transit.trans h.transit
  nextLink i := (h.nextLink i).trans (h'.nextLink i)
  isOpen p hp := h'.isOpen p (h.isOpen p hp)

/-- A new port is open and has the number that was next. -/
theorem openPort_spec (m : Mesh ι σ) (i : ι) (station : Bool) :
    (m.openPort i station).1 = ⟨i, ⟨(m.nodes i).nextLink⟩⟩ ∧
      Extends m (m.openPort i station).2 ∧
      (m.openPort i station).2.isOpen (m.openPort i station).1 ∧
      (m.nodes i).nextLink < ((m.openPort i station).2.nodes i).nextLink := by
  obtain ⟨new, hid, -, -, -, -, feeds⟩ :=
    Node.feeds_addLink (P := fun _ _ => True) (m.nodes i) station
  have links : ((m.nodes i).addLink station).2.linkIds =
      (m.nodes i).linkIds ++ [⟨(m.nodes i).nextLink⟩] := by
    rw [feeds.linkIds_eq, ← hid]
    simp [Node.linkIds]
  have next : ((m.nodes i).addLink station).2.nextLink = (m.nodes i).nextLink + 1 := feeds.nextLink
  have self : (m.openPort i station).2.nodes i = ((m.nodes i).addLink station).2 :=
    Function.update_self ..
  have other : ∀ j ≠ i, (m.openPort i station).2.nodes j = m.nodes j :=
    fun j hj => Function.update_of_ne hj ..
  refine ⟨rfl, ⟨rfl, rfl, ?_, ?_⟩, ?_, ?_⟩
  · intro j
    by_cases hj : j = i
    · subst hj
      rw [self, next]
      exact Nat.le_succ _
    · rw [other j hj]
  · intro p hp
    by_cases hi : p.node = i
    · subst hi
      rw [isOpen, self, links]
      exact List.mem_append_left _ hp
    · rw [isOpen, other _ hi]
      exact hp
  · rw [isOpen]
    show _ ∈ ((m.openPort i station).2.nodes i).linkIds
    rw [self, links]
    exact List.mem_append_right _ (List.mem_singleton.mpr rfl)
  · rw [self, next]
    exact Nat.lt_succ_self _

/-- Opening a port on a cable keeps all nodes fitting. -/
theorem fits_openPort {cables : Set (Cable ι)} {station : Bool}
    (h : ∀ j, (m.nodes j).Fits ids cables j) (hc : c ∈ cables)
    (faces : c.Faces (m.openPort i station).1 q) (j : ι) :
    ((m.openPort i station).2.nodes j).Fits ids cables j := by
  by_cases hj : j = i
  · subst hj
    have self : (m.openPort j station).2.nodes j = ((m.nodes j).addLink station).2 :=
      Function.update_self ..
    rw [self]
    exact (h j).addLink hc faces
  · have other : (m.openPort i station).2.nodes j = m.nodes j := Function.update_of_ne hj ..
    rw [other]
    exact h j

/-- A cable between open ports that no cable had before keeps a mesh coherent. -/
theorem Coherent.addCable {m' : Mesh ι σ} {new : Cable ι} (h : Coherent ids m) (ext : Extends m m')
    (fits : ∀ i, (m'.nodes i).Fits ids (m.cableSet ∪ {new}) i)
    (fresh : ∀ p q, new.Faces p q → (m.nodes p.node).nextLink ≤ p.link.number ∧
      p.link.number < (m'.nodes p.node).nextLink ∧ m'.isOpen p) :
    Coherent ids { m' with cables := m'.cables ++ [new] } := by
  have cables : Mesh.cableSet { m' with cables := m'.cables ++ [new] } = m.cableSet ∪ {new} := by
    ext c
    simp [cableSet, ext.cables, or_comm]
  have old : m.cableSet ⊆ m.cableSet ∪ {new} := Set.subset_union_left
  refine ⟨?_, ?_, ?_, ?_, ?_⟩
  · rw [cables]
    exact fits
  · rw [cables]
    rintro c (hc | rfl) d (hd | rfl) p q r faces faces'
    · exact h.plugged c hc d hd p q r faces faces'
    · have below := h.used c hc p q faces
      have above := (fresh p r faces').1
      omega
    · have below := h.used d hd p r faces'
      have above := (fresh p q faces).1
      omega
    · rfl
  · rw [cables]
    rintro c (hc | rfl) p q faces
    · exact (h.used c hc p q faces).trans_le (ext.nextLink p.node)
    · exact (fresh p q faces).2.1
  · rw [cables]
    intro q f hf
    rw [show m'.transit = m.transit from ext.transit] at hf
    obtain ⟨c, hc, p, faces, honest⟩ := h.transit q f hf
    exact ⟨c, old hc, p, faces, honest.mono old⟩
  · rw [cables]
    rintro c (hc | rfl) bridge p q faces
    · exact ext.isOpen p (h.bridges c hc (bridge.anti old) p q faces)
    · exact (fresh p q faces).2.2

/-- Connecting two nodes keeps a mesh coherent. -/
theorem Coherent.connect (h : Coherent ids m) (i j : ι) : Coherent ids (m.connect i j) := by
  obtain ⟨hp, ext, openP, lessP⟩ := m.openPort_spec i true
  have fitsP : ∀ cables, (∀ x, (m.nodes x).Fits ids cables x) → ∀ c ∈ cables, ∀ q,
      c.Faces (m.openPort i true).1 q → ∀ x, ((m.openPort i true).2.nodes x).Fits ids cables x :=
    fun _ fits _ hc _ faces => fits_openPort fits hc faces
  simp only [Mesh.connect]
  generalize m.openPort i true = r at hp ext openP lessP fitsP
  obtain ⟨p, m₁⟩ := r
  obtain ⟨hq, ext', openQ, lessQ⟩ := m₁.openPort_spec j false
  have fitsQ : ∀ cables, (∀ x, (m₁.nodes x).Fits ids cables x) → ∀ c ∈ cables, ∀ q,
      c.Faces (m₁.openPort j false).1 q →
      ∀ x, ((m₁.openPort j false).2.nodes x).Fits ids cables x :=
    fun _ fits _ hc _ faces => fits_openPort fits hc faces
  dsimp only at *
  generalize m₁.openPort j false = r at hq ext' openQ lessQ fitsQ
  obtain ⟨q, m₂⟩ := r
  dsimp only at *
  refine h.addCable (ext.trans ext') ?_ ?_
  · have mem : ⟨p, q⟩ ∈ m.cableSet ∪ {⟨p, q⟩} := .inr rfl
    have first := fitsP _ (fun x => (h.fits x).mono Set.subset_union_left) _ mem q (.inl ⟨rfl, rfl⟩)
    exact fitsQ _ first _ mem p (.inr ⟨rfl, rfl⟩)
  · -- The ports of the new cable have the numbers that were next.
    rintro p' q' (⟨rfl, -⟩ | ⟨-, rfl⟩)
    · dsimp only
      rw [hp] at openP ⊢
      exact ⟨le_refl _, lessP.trans_le (ext'.nextLink i), ext'.isOpen _ openP⟩
    · dsimp only
      rw [hq] at openQ ⊢
      exact ⟨ext.nextLink j, lessQ, openQ⟩

/-! ## Frames and closed ports -/

/-- Sending the next frame of a link keeps a mesh coherent. -/
theorem Coherent.leave (h : Coherent ids m) (p : Port ι) : Coherent ids (m.leave p) := by
  simp only [Mesh.leave]
  split
  next frame l' q hl' hq =>
    obtain ⟨l, hl, departs⟩ := Option.bind_eq_some_iff.mp hl'
    obtain ⟨c, hc, faces⟩ := faces_of_facing hq
    obtain ⟨waited, keep⟩ := Link.steady_of_depart (P := fun _ _ => False) departs
    have faces' : c.Faces ⟨p.node, l.id⟩ q := Node.id_of_link? hl ▸ faces
    have fits := (h.fits p.node).link h.plugged (Node.mem_links_of_link? hl) hc faces'
    have left := (h.fits p.node).becomes_steady (S := fun _ => True)
      (Node.steady_putLink hl keep) (Node.linkIds_putLink ..) fun _ _ hf => hf.elim
    refine (h.setNode left fun _ _ _ _ _ _ => trivial).setTransit fun f hf => ?_
    rcases List.mem_append.mp hf with old | new
    · exact h.transit q f old
    · rw [List.mem_singleton.mp new]
      exact ⟨c, hc, p, faces.symm, fits.frames frame waited⟩
  next => exact h

variable [Host σ]

/-- Handling an honest frame keeps a mesh coherent. -/
theorem Coherent.handle (inj : ids.Injective) (ne : ∀ i, ids i ≠ 0) (h : Coherent ids m)
    (hc : c ∈ m.cableSet) (faces : c.Faces q p) {f : Bytes}
    (honest : Honest ids m.cableSet c p.node f) : Coherent ids (m.handle q f) := by
  simp only [Mesh.handle]
  split
  · refine h.setNode ((h.fits q.node).becomes_routeFrame inj ne h.plugged hc faces honest _) ?_
    intro d hd bridge k r faces'
    by_cases hk : k = q.link
    · subst hk
      obtain rfl := h.plugged c hc d hd _ _ _ faces faces'
      exact .inr bridge
    · exact .inl hk
  · exact h

/-- The arrival of a frame keeps a mesh coherent. -/
theorem Coherent.deliver (inj : ids.Injective) (ne : ∀ i, ids i ≠ 0) (h : Coherent ids m)
    (q : Port ι) : Coherent ids (m.deliver q) := by
  simp only [Mesh.deliver]
  split
  · exact h
  next f rest hf =>
    have transit := h.transit q
    rw [hf] at transit
    obtain ⟨c, hc, p, faces, honest⟩ := transit f List.mem_cons_self
    have taken := h.setTransit (q := q) fun g hg => transit g (List.mem_cons_of_mem _ hg)
    exact taken.handle inj ne hc faces honest

/-- Hanging up keeps a mesh coherent, since no port of a bridge was closed. -/
theorem Coherent.hangUp (h : Coherent ids m) (p : Port ι) : Coherent ids (m.hangUp p) := by
  simp only [Mesh.hangUp]
  split
  · exact h
  next q hq =>
    split
    · exact h
    next closed =>
      obtain ⟨c, hc, faces⟩ := faces_of_facing hq
      refine h.setNode ((h.fits p.node).becomes_close p.link) ?_
      rintro d hd bridge k r faces' rfl
      obtain rfl := h.plugged c hc d hd _ _ _ faces faces'
      exact closed (h.bridges c hc bridge q p faces.symm)

/-- Every move keeps a mesh coherent. -/
theorem Coherent.step (inj : ids.Injective) (ne : ∀ i, ids i ≠ 0) (h : Coherent ids m)
    (move : Move ι) : Coherent ids (m.step move) := by
  cases move with
  | connect i j => exact h.connect i j
  | exchange p =>
      exact h.setNode (S := fun _ => True) ((h.fits p.node).becomes_exchange p.link)
        fun _ _ _ _ _ _ => trivial
  | announce i =>
      exact h.setNode (S := fun _ => True) (h.fits i).becomes_announce
        fun _ _ _ _ _ _ => trivial
  | leave p => exact h.leave p
  | deliver p => exact h.deliver inj ne p
  | hangUp p => exact h.hangUp p

/-- Any moves in any order keep a mesh coherent. -/
theorem Coherent.run (inj : ids.Injective) (ne : ∀ i, ids i ≠ 0) (h : Coherent ids m)
    (moves : List (Move ι)) : Coherent ids (m.run moves) := by
  induction moves generalizing m with
  | nil => exact h
  | cons move moves ih => exact ih (h.step inj ne move)

end Mesh

end SpanningMesh
