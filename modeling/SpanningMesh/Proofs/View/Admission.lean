import Mathlib.Data.List.Flatten
import Mathlib.Data.List.Nodup
import SpanningMesh.View.Admission

/-!
# When a tree is admitted

`checkTree` and `checkPeer` stop at the first thing that is wrong.  Here the answers
are turned into plain conditions on ids: a tree is admitted exactly when its peer has
kept its id and its known ids, each once, stay clear of the node itself and of what
lies behind the other links.  The id at the top is the exception.  `checkTree` does
not look for it behind other links, and `checkPeer` does nothing else.

Ids that are 0 stand for no node and are left out of `Tree.ids`, so most statements
speak of `ids` and leave `contains` alone.
-/

namespace SpanningMesh

/-! ## The ids of a tree -/

namespace Tree

/-- The id 0 stands for a node that is not known, so it is left out. -/
theorem ne_zero_of_mem_ids {t : Tree} {id : UInt32} (h : id ∈ t.ids) : id ≠ 0 := by
  simp only [ids, List.mem_filter, bne_iff_ne] at h
  exact h.2

/-- The ids of a known tree start with its own. -/
theorem ids_eq_cons {t : Tree} (h : t.id ≠ 0) : t.ids = t.id :: t.subs.flatMap ids := by
  rw [ids_eq]
  simp [h]

theorem id_mem_ids {t : Tree} (h : t.id ≠ 0) : t.id ∈ t.ids := by
  rw [ids_eq_cons h]
  exact List.mem_cons_self

@[simp] theorem ids_unknown : unknown.ids = [] := rfl

end Tree

/-! ## The first repeat -/

/-- Nothing is repeated if all are different and none was seen before. -/
theorem firstRepeat_eq_none_iff {α : Type} [DecidableEq α] {seen xs : List α} :
    firstRepeat seen xs = none ↔ xs.Nodup ∧ ∀ x ∈ xs, x ∉ seen := by
  induction xs generalizing seen with
  | nil => simp [firstRepeat]
  | cons x xs ih =>
      by_cases hx : x ∈ seen
      · simp [firstRepeat, hx]
      · simp only [firstRepeat, hx, if_false, ih, List.nodup_cons, List.mem_cons, not_or,
          forall_eq_or_imp, not_false_eq_true, true_and]
        constructor
        · rintro ⟨nodup, fresh⟩
          exact ⟨⟨fun hm => (fresh x hm).1 rfl, nodup⟩, fun y hy => (fresh y hy).2⟩
        · rintro ⟨⟨hm, nodup⟩, fresh⟩
          exact ⟨nodup, fun y hy => ⟨fun e => hm (e ▸ hy), fresh y hy⟩⟩

namespace View

variable {κ : Type} [DecidableEq κ] {v : View κ} {link : κ} {known id : UInt32} {t : Tree}

/-! ## The two checks -/

/-- A node lies behind another link when the tree of some other branch holds it. -/
theorem behindOther_iff (h : id ≠ 0) :
    v.behindOther link id = true ↔ ∃ b ∈ v.branches, b.link ≠ link ∧ id ∈ b.tree.ids := by
  simp only [behindOther, others, List.any_eq_true, List.mem_filter, decide_eq_true_eq,
    Tree.contains_iff_mem_ids h, and_assoc]

/-- A tree may hang on a link exactly when the peer keeps its id, the ids are pairwise
different, the node is not among them, and none but the top lies behind another link. -/
theorem checkTree_eq_ok_iff (hv : v.node ≠ 0) :
    v.checkTree link known t = .ok () ↔
      (known = 0 ∨ t.id = known) ∧ v.node ∉ t.ids ∧ t.ids.Nodup ∧
        ∀ id ∈ t.ids, id ≠ t.id → ∀ b ∈ v.branches, b.link ≠ link → id ∉ b.tree.ids := by
  have known_iff : (known ≠ 0 ∧ t.id ≠ known) ↔ ¬ (known = 0 ∨ t.id = known) := by
    rw [not_or]
  have clear_iff : t.ids.find? (fun id => id != t.id && v.behindOther link id) = none ↔
      ∀ id ∈ t.ids, id ≠ t.id → ∀ b ∈ v.branches, b.link ≠ link → id ∉ b.tree.ids := by
    simp only [List.find?_eq_none, Bool.and_eq_true, bne_iff_ne, not_and]
    refine forall₂_congr fun id hid => forall_congr' fun _ => ?_
    rw [behindOther_iff (Tree.ne_zero_of_mem_ids hid)]
    simp only [not_exists, not_and]
  simp only [checkTree]
  by_cases hk : known = 0 ∨ t.id = known
  · rw [if_neg (fun h => known_iff.mp h hk)]
    by_cases hc : t.contains v.node = true
    · rw [if_pos hc]
      have hm := (Tree.contains_iff_mem_ids hv).mp hc
      simp [hm]
    · have hm : v.node ∉ t.ids := mt (Tree.contains_iff_mem_ids hv).mpr hc
      rw [if_neg hc, ← clear_iff]
      cases hr : firstRepeat [] t.ids with
      | some id =>
          have hd : ¬ t.ids.Nodup := fun nodup => by
            simp [firstRepeat_eq_none_iff.mpr ⟨nodup, fun _ _ => List.not_mem_nil⟩] at hr
          simp [hd]
      | none =>
          have hd := (firstRepeat_eq_none_iff.mp hr).1
          cases hf : t.ids.find? (fun id => id != t.id && v.behindOther link id) with
          | some id => simp
          | none => simp [hk, hm, hd]
  · rw [if_pos (known_iff.mpr hk)]
    simp [hk]

/-- A peer passes exactly when it does not lie behind another link. -/
theorem checkPeer_eq_ok_iff (h : id ≠ 0) :
    v.checkPeer link id = .ok () ↔ ∀ b ∈ v.branches, b.link ≠ link → id ∉ b.tree.ids := by
  have iff : v.behindOther link id = true ↔ _ := behindOther_iff h
  by_cases hb : v.behindOther link id = true
  · obtain ⟨b, hm, hne, hid⟩ := iff.mp hb
    simp only [checkPeer, hb, if_true, reduceCtorEq, false_iff]
    exact fun clear => clear b hm hne hid
  · simp only [checkPeer, hb, Bool.false_eq_true, if_false, true_iff]
    exact fun b hm hne hid => hb (iff.mpr ⟨b, hm, hne, hid⟩)

/-- An id lies behind other links if one of their trees has it. -/
theorem mem_otherIds : id ∈ (v.others link).flatMap (·.tree.ids) ↔
    ∃ b ∈ v.branches, b.link ≠ link ∧ id ∈ b.tree.ids := by
  simp only [others, List.mem_flatMap, List.mem_filter, decide_eq_true_eq, and_assoc]

/-- A tree passes both checks exactly when the peer keeps its id, the ids are pairwise different,
and none of them is the node or lies behind another link. -/
theorem checks_eq_ok_iff (hv : v.node ≠ 0) (ht : t.id ≠ 0) :
    v.checkTree link known t = .ok () ∧ v.checkPeer link t.id = .ok () ↔
      (known = 0 ∨ t.id = known) ∧ v.node ∉ t.ids ∧ t.ids.Nodup ∧
        ∀ id ∈ t.ids, id ∉ (v.others link).flatMap (·.tree.ids) := by
  have clear (id : UInt32) : (∀ b ∈ v.branches, b.link ≠ link → id ∉ b.tree.ids) ↔
      id ∉ (v.others link).flatMap (·.tree.ids) := by
    rw [mem_otherIds]
    simp only [not_exists, not_and]
  rw [checkTree_eq_ok_iff hv, checkPeer_eq_ok_iff ht]
  simp only [clear, and_assoc]
  refine and_congr_right fun _ => and_congr_right fun _ => and_congr_right fun _ => ?_
  constructor
  · rintro ⟨below, top⟩ id there
    by_cases same : id = t.id
    · exact same ▸ top
    · exact below id there same
  · intro all
    exact ⟨fun id there _ => all id there, all _ (Tree.id_mem_ids ht)⟩

/-- The first check speaks of an identity exactly when the peer does not keep its id, and names
both ids. -/
theorem checkTree_eq_identity_iff {expected reported : UInt32} :
    v.checkTree link known t = .error (.identity expected reported) ↔
      (known ≠ 0 ∧ t.id ≠ known) ∧ known = expected ∧ t.id = reported := by
  simp only [checkTree]
  split
  next other => simp [other]
  next kept =>
    simp only [kept, false_and, iff_false]
    split
    · simp
    · split
      · simp
      · split <;> simp

/-! ## The first sync -/

/-- Let what lies behind the other links be known without contradiction.  Then a tree whose top
is known passes both checks exactly when its peer is not known as somebody else and it brings no
contradiction: the node, the nodes behind the other links and those of the tree are pairwise
different.  That the peer is somebody else is said exactly when it is. -/
theorem first_sync_exact (hv : v.node ≠ 0) (ht : t.id ≠ 0)
    (clear : (v.node :: (v.others link).flatMap (·.tree.ids)).Nodup) :
    (v.checkTree link known t = .ok () ∧ v.checkPeer link t.id = .ok () ↔
      (known = 0 ∨ known = t.id) ∧
        (v.node :: (v.others link).flatMap (·.tree.ids) ++ t.ids).Nodup) ∧
    (∀ expected reported, v.checkTree link known t = .error (.identity expected reported) ↔
      (known ≠ 0 ∧ known ≠ t.id) ∧ known = expected ∧ t.id = reported) ∧
    ∀ expected reported, v.checkPeer link t.id ≠ .error (.identity expected reported) := by
  refine ⟨?_, fun expected reported => ?_, fun expected reported => ?_⟩
  · rw [checks_eq_ok_iff hv ht, eq_comm (a := t.id), List.nodup_append']
    have apart : (∀ id ∈ t.ids, id ∉ (v.others link).flatMap (·.tree.ids)) ∧ v.node ∉ t.ids ↔
        List.Disjoint (v.node :: (v.others link).flatMap (·.tree.ids)) t.ids := by
      rw [List.disjoint_cons_left, List.disjoint_comm, and_comm]
      rfl
    rw [← apart]
    simp only [clear, true_and]
    tauto
  · rw [checkTree_eq_identity_iff, ne_comm (a := t.id)]
  · rw [checkPeer]
    split <;> simp

/-- Node 1 has the nodes 5 and 6 behind another link.  It takes in node 2 with node 3 behind it,
and would not take in node 2 with node 6 behind it, nor as node 4. -/
theorem first_sync_exact_neighbour :
    let v : View Nat := ⟨1, false, [⟨10, ⟨5, false, [⟨6, false, []⟩]⟩⟩, ⟨11, .unknown⟩]⟩
    (v.node ≠ 0 ∧ (v.node :: (v.others 11).flatMap (·.tree.ids)).Nodup) ∧
      (v.checkTree 11 0 ⟨2, false, [⟨3, false, []⟩]⟩ = .ok () ∧ v.checkPeer 11 2 = .ok ()) ∧
      ¬ (v.checkTree 11 0 ⟨2, false, [⟨6, false, []⟩]⟩ = .ok () ∧ v.checkPeer 11 2 = .ok ()) ∧
      v.checkTree 11 4 ⟨2, false, []⟩ = .error (.identity 4 2) := by
  intro v
  have hv : v.node ≠ 0 := by decide
  have clear : (v.node :: (v.others 11).flatMap (·.tree.ids)).Nodup := by decide
  have checks (known : UInt32) (t : Tree) (ht : t.id ≠ 0) :=
    @first_sync_exact Nat _ v 11 known t hv ht clear
  refine ⟨⟨hv, clear⟩, ?_, ?_, ?_⟩
  · exact (checks 0 ⟨2, false, [⟨3, false, []⟩]⟩ (by decide)).1.mpr (by decide)
  · exact mt (checks 0 ⟨2, false, [⟨6, false, []⟩]⟩ (by decide)).1.mp (by decide)
  · exact ((checks 4 ⟨2, false, []⟩ (by decide)).2.1 4 2).mpr (by decide)

/-! ## The tree that a node tells -/

omit [DecidableEq κ] in
/-- The ids of a node over some branches are its own and those of the branches that are known from
the top on. -/
theorem ids_treeOver (hv : v.node ≠ 0) (bs : List (Branch κ)) : (v.treeOver bs).ids =
    v.node :: (bs.filter (·.tree.id != 0)).flatMap (·.tree.ids) := by
  rw [Tree.ids_eq_cons (show (v.treeOver bs).id ≠ 0 from hv)]
  simp [treeOver, List.flatMap_map]

/-- The ids of what a node tells are its own and some of those it knows. -/
theorem ids_treeExcept_sublist (hv : v.node ≠ 0) : (v.treeExcept link).ids.Sublist v.ids := by
  rw [treeExcept, ids_treeOver hv]
  exact ((List.filter_sublist.trans List.filter_sublist).flatMap _).cons_cons v.node

end View

end SpanningMesh
