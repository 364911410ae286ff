import Mathlib.Data.List.Forall2
import SpanningMesh.Tree.Codec
import SpanningMesh.Proofs.Codec.Reading

/-!
# How trees are spelled

`Tree.Spelled` says which bytes read as a tree of so many levels.  It is the wire form but
for one freedom: a root flag may be any byte, and every byte but zero means the designated
root.  The reader of trees recognises this spelling (`Tree.recognises`); that it asks for a
leaf's worth of bytes for each tree behind a node refuses nothing, since a spelled tree has
`minTreeSize` bytes for each of its nodes (`Tree.length_of_spelled`).

The writer gives the one spelling whose flags are zero or one (`Tree.spelled_of_written`,
`Tree.written_of_spelled`), and gives it exactly for the trees that are neither too deep nor
too wide (`Tree.exists_written_iff`).
-/

namespace SpanningMesh

open Read (Recognises Spelling)

namespace Tree

/-! ## The sizes of a tree -/

mutual

/-- The most trees behind any one node. -/
def width : Tree → Nat
  | ⟨_, _, subs⟩ => max subs.length (widthOfAll subs)

/-- The width of the widest of several trees. -/
def widthOfAll : List Tree → Nat
  | [] => 0
  | t :: ts => max t.width (widthOfAll ts)

end

theorem widthOfAll_le_iff {n : Nat} {ts : List Tree} :
    widthOfAll ts ≤ n ↔ ∀ t ∈ ts, t.width ≤ n := by
  induction ts with
  | nil => simp [widthOfAll]
  | cons t ts ih => rw [widthOfAll, Nat.max_le, ih, List.forall_mem_cons]

/-- A tree is as wide as its own branches, or as one of the trees below it. -/
theorem width_le_iff {n : Nat} {t : Tree} :
    t.width ≤ n ↔ t.subs.length ≤ n ∧ ∀ s ∈ t.subs, s.width ≤ n := by
  obtain ⟨id, root, subs⟩ := t
  rw [width, Nat.max_le, widthOfAll_le_iff]

theorem depthOfAll_le_iff {n : Nat} {ts : List Tree} :
    depthOfAll ts ≤ n ↔ ∀ t ∈ ts, t.depth ≤ n := by
  induction ts with
  | nil => simp [depthOfAll]
  | cons t ts ih => rw [depthOfAll, Nat.max_le, ih, List.forall_mem_cons]

/-- A tree is one level deeper than the trees below it. -/
theorem depth_le_succ_iff {n : Nat} {t : Tree} :
    t.depth ≤ n + 1 ↔ ∀ s ∈ t.subs, s.depth ≤ n := by
  obtain ⟨id, root, subs⟩ := t
  rw [depth, Nat.add_le_add_iff_right, depthOfAll_le_iff]

theorem length_le_nodes (ts : List Tree) : ts.length ≤ (ts.flatMap nodes).length := by
  induction ts with
  | nil => simp
  | cons t ts ih =>
      rw [List.flatMap_cons, List.length_append, nodes_eq t, List.length_cons, List.length_cons]
      omega

/-! ## The spelling -/

/-- The bytes of a node, with a byte for its root flag and the bytes of the trees behind it. -/
def spellNode (id : UInt32) (flag : UInt8) (bss : List Bytes) : Bytes :=
  Word.toBytes 4 id.toNat ++ flag :: Word.toBytes 2 bss.length ++ bss.flatten

/-- Which bytes read as a tree of at most so many levels. -/
def Spelled : (levels : Nat) → Spelling Tree
  | 0, _, _ => False
  | levels + 1, bs, t =>
      ∃ flag bss, (flag != 0) = t.root ∧ t.subs.length < 65536 ∧
        List.Forall₂ (Spelled levels) bss t.subs ∧ bs = spellNode t.id flag bss

/-- If each of several trees takes the bytes of a leaf for each of its nodes, so do all. -/
theorem length_flatten {S : Spelling Tree} {bss : List Bytes} {ts : List Tree}
    (size : ∀ {bs t}, S bs t → bs.length = minTreeSize * t.nodes.length)
    (h : List.Forall₂ S bss ts) :
    bss.flatten.length = minTreeSize * (ts.flatMap nodes).length := by
  induction h with
  | nil => rfl
  | cons first _ rest =>
      simp only [List.flatten_cons, List.flatMap_cons, List.length_append, size first, rest,
        Nat.mul_add]

/-- A spelled tree takes the bytes of a leaf for each of its nodes. -/
theorem length_of_spelled {levels : Nat} {bs : Bytes} {t : Tree} (h : Spelled levels bs t) :
    bs.length = minTreeSize * t.nodes.length := by
  induction levels generalizing bs t with
  | zero => exact h.elim
  | succ levels ih =>
      obtain ⟨flag, bss, -, -, subs, rfl⟩ := h
      simp only [spellNode, List.length_append, List.length_cons, Word.length_toBytes,
        length_flatten ih subs, nodes_eq t, minTreeSize]
      omega

/-- Several spelled trees take at least the bytes of so many leaves. -/
theorem leaves_le_of_spelled {levels : Nat} {bss : List Bytes} {ts : List Tree}
    (h : List.Forall₂ (Spelled levels) bss ts) : ts.length * minTreeSize ≤ bss.flatten.length := by
  rw [length_flatten length_of_spelled h, Nat.mul_comm]
  exact Nat.mul_le_mul_left minTreeSize (length_le_nodes ts)

/-- The reader of trees recognises their spelling. -/
theorem recognises (levels : Nat) : Recognises (decodeWithin levels) (Spelled levels) := by
  induction levels with
  | zero => exact (Recognises.ofExcept (.error _)).congr fun _ _ => by simp [Spelled]
  | succ levels ih =>
      -- What the check asks for is there whenever the trees behind the node are spelled.
      have subs (id : UInt32) (root : Bool) (count : Nat) :=
        ((ih.replicate count).map (Tree.mk id root)).require (n := count * minTreeSize) <| by
          rintro bs t ⟨ts, ⟨rfl, bss, spelled, rfl⟩, -⟩
          exact leaves_le_of_spelled spelled
      -- The rest is the grammar of the reader, field by field, against that of a node.
      refine ((CanonicalField.recognises (α := UInt32)).bind fun id => Recognises.bool.bind
        fun root => (Recognises.word 2).bind fun count => subs id root count).congr fun bs t => ?_
      constructor
      · rintro ⟨id, _, _, hid, ⟨root, _, _, ⟨flag, rfl, rfl⟩, ⟨count, _, _, ⟨small, rfl⟩,
          ⟨ts, ⟨rfl, bss, spelled, rfl⟩, rfl⟩, rfl⟩, rfl⟩, rfl⟩
        obtain rfl := Encoding.word_eq_iff.mp hid
        exact ⟨flag, bss, rfl, small, spelled, by simp [spellNode, spelled.length_eq]⟩
      · obtain ⟨id, root, ts⟩ := t
        rintro ⟨flag, bss, rfl, small, spelled, rfl⟩
        refine ⟨id, _, _, Encoding.word_eq_iff.mpr rfl, ⟨_, [flag], _, ⟨flag, rfl, rfl⟩,
          ⟨ts.length, _, _, ⟨small, rfl⟩, ⟨ts, ⟨rfl, bss, spelled, rfl⟩, rfl⟩, rfl⟩, rfl⟩, ?_⟩
        simp [spellNode, spelled.length_eq]

/-! ## The one spelling that is written -/

/-- The spelling of a tree that is written, if it has no more than so many levels. -/
abbrev Written (levels : Nat) : Spelling Tree := fun bs t => encodeWithin levels t = ⟨bs, none⟩

/-- Several trees are written when each of them is. -/
theorem concat_map_eq_iff {levels : Nat} {bs : Bytes} {ts : List Tree} :
    Encoding.concat (ts.map (encodeWithin levels)) = ⟨bs, none⟩ ↔
      ∃ bss, List.Forall₂ (Written levels) bss ts ∧ bs = bss.flatten := by
  rw [Encoding.concat_eq_iff]
  refine exists_congr fun bss => and_congr_left fun _ => ?_
  rw [eq_comm, ← List.forall₂_eq_eq_eq, List.forall₂_map_left_iff, List.forall₂_map_right_iff]
  exact ⟨.imp fun _ _ => Eq.symm, .imp fun _ _ => Eq.symm⟩

/-- A tree is written within so many levels exactly when the trees behind its top can be
counted and are written within one level less. -/
theorem written_succ_iff {levels : Nat} {bs : Bytes} {t : Tree} :
    Written (levels + 1) bs t ↔
      t.subs.length < 65536 ∧ ∃ bss, List.Forall₂ (Written levels) bss t.subs ∧
        bs = spellNode t.id (UInt8.ofNat t.root.toNat) bss := by
  rw [Written, encodeWithin]
  split
  next small =>
    simp only [Encoding.append_eq_iff, concat_map_eq_iff]
    constructor
    · rintro ⟨_, _, ⟨_, _, ⟨_, _, hid, hroot, rfl⟩, hcount, rfl⟩, ⟨bss, subs, rfl⟩, rfl⟩
      obtain rfl := Encoding.word_eq_iff.mp hid
      obtain rfl := Encoding.word_eq_iff.mp hroot
      obtain rfl := Encoding.word_eq_iff.mp hcount
      exact ⟨small, bss, subs, by simp [spellNode, subs.length_eq, Word.toBytes]⟩
    · rintro ⟨-, bss, subs, rfl⟩
      refine ⟨_, _, ⟨_, _, ⟨_, _, rfl, rfl, rfl⟩, rfl, rfl⟩, ⟨bss, subs, rfl⟩, ?_⟩
      simp [spellNode, subs.length_eq, Word.toBytes]
  next large => simp [large, Encoding.fail]

/-- What is written for a tree is a spelling of it. -/
theorem spelled_of_written {levels : Nat} {bs : Bytes} {t : Tree} (h : Written levels bs t) :
    Spelled levels bs t := by
  induction levels generalizing bs t with
  | zero => cases h
  | succ levels ih =>
      obtain ⟨small, bss, subs, rfl⟩ := written_succ_iff.mp h
      exact ⟨_, bss, by cases t.root <;> rfl, small, subs.imp fun _ _ => ih, rfl⟩

/-- Bytes of trees with every root flag as it is written, zero or one.  Each node takes
`minTreeSize` bytes, and its flag stands behind the four bytes of its id. -/
def settleFlags (bs : Bytes) : Bytes :=
  bs.mapIdx fun i b => if i % minTreeSize = 4 ∧ b ≠ 0 then 1 else b

/-- Flags are settled node by node. -/
theorem settleFlags_append {as bs : Bytes} {n : Nat} (h : as.length = minTreeSize * n) :
    settleFlags (as ++ bs) = settleFlags as ++ settleFlags bs := by
  rw [settleFlags, List.mapIdx_append, h]
  simp [settleFlags]

/-- The flags of several trees are settled tree by tree. -/
theorem settleFlags_flatten {levels : Nat} {bss : List Bytes} {ts : List Tree}
    (h : List.Forall₂ (Spelled levels) bss ts) :
    settleFlags bss.flatten = (bss.map settleFlags).flatten := by
  induction h with
  | nil => rfl
  | cons first _ rest =>
      rw [List.flatten_cons, settleFlags_append (length_of_spelled first), rest]
      rfl

/-- A node with settled flags has the flag that is written. -/
theorem settleFlags_spellNode {levels : Nat} {bss : List Bytes} {ts : List Tree} (id : UInt32)
    (flag : UInt8) (h : List.Forall₂ (Spelled levels) bss ts) :
    settleFlags (spellNode id flag bss) =
      spellNode id (UInt8.ofNat (flag != 0).toNat) (bss.map settleFlags) := by
  have top : settleFlags (Word.toBytes 4 id.toNat ++ flag :: Word.toBytes 2 bss.length) =
      Word.toBytes 4 id.toNat ++ UInt8.ofNat (flag != 0).toNat :: Word.toBytes 2 bss.length := by
    have settled : (if flag = 0 then flag else 1) = UInt8.ofNat (flag != 0).toNat := by
      by_cases unset : flag = 0
      · rw [if_pos unset, unset]
        rfl
      · rw [if_neg unset, bne_iff_ne.mpr unset]
        rfl
    simp [settleFlags, Word.toBytes, minTreeSize, settled]
  rw [spellNode, settleFlags_append (n := 1) (by simp [minTreeSize]), top, settleFlags_flatten h,
    spellNode, List.length_map]

/-- A spelled tree is written, and its flags are then settled. -/
theorem written_of_spelled {levels : Nat} {bs : Bytes} {t : Tree} (h : Spelled levels bs t) :
    Written levels (settleFlags bs) t := by
  induction levels generalizing bs t with
  | zero => exact h.elim
  | succ levels ih =>
      obtain ⟨flag, bss, root, small, subs, rfl⟩ := h
      refine written_succ_iff.mpr ⟨small, bss.map settleFlags, ?_, ?_⟩
      · rw [List.forall₂_map_left_iff]
        exact subs.imp fun _ _ => ih
      · rw [settleFlags_spellNode t.id flag subs, root]

/-- Several trees are written when each of them can be. -/
theorem exists_forall₂_written_iff {levels : Nat} {ts : List Tree} :
    (∃ bss, List.Forall₂ (Written levels) bss ts) ↔ ∀ t ∈ ts, ∃ bs, Written levels bs t := by
  induction ts with
  | nil => simp
  | cons t ts ih =>
      rw [List.forall_mem_cons, ← ih]
      constructor
      · rintro ⟨_, h⟩
        cases h with
        | cons first rest => exact ⟨⟨_, first⟩, ⟨_, rest⟩⟩
      · rintro ⟨⟨_, first⟩, ⟨_, rest⟩⟩
        exact ⟨_, .cons first rest⟩

/-- A tree is written exactly when it is neither too deep nor too wide. -/
theorem exists_written_iff {levels : Nat} {t : Tree} :
    (∃ bs, Written levels bs t) ↔ t.depth ≤ levels ∧ t.width ≤ 65535 := by
  induction levels generalizing t with
  | zero =>
      have : ¬ t.depth ≤ 0 := by obtain ⟨id, root, subs⟩ := t; simp [depth]
      simp [encodeWithin, Encoding.fail, this]
  | succ levels ih =>
      have parts : (∃ bs, Written (levels + 1) bs t) ↔
          t.subs.length < 65536 ∧ ∃ bss, List.Forall₂ (Written levels) bss t.subs := by
        simp only [written_succ_iff, exists_and_left, exists_comm (α := Bytes), exists_eq, and_true]
      have subs : (∀ s ∈ t.subs, ∃ bs, Written levels bs s) ↔
          (∀ s ∈ t.subs, s.depth ≤ levels) ∧ ∀ s ∈ t.subs, s.width ≤ 65535 := by
        simp only [ih, imp_and, forall_and]
      rw [parts, exists_forall₂_written_iff, subs, depth_le_succ_iff, width_le_iff, Nat.lt_succ_iff]
      exact and_left_comm

end Tree

end SpanningMesh
