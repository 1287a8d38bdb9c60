import Mathlib.Data.List.Nodup
import Mathlib.Logic.Relation
import MySqlAnalysis.Proofs.Tree.Building

/-!
# The shape of an arena

An arena whose nodes all belong to one stored tree is itself a tree: part lists
only name nodes of the arena, every node but the root is a part of exactly one
node, and all nodes can be reached from the root (`Arena.Rooted.isTree`).
-/

set_option autoImplicit false

namespace MySqlAnalysis

/-- The parts of the node at a position of a table. -/
def partsAt (nodes : Array Node) (id : Nat) : List Nat :=
  (nodes[id]?.map Node.children).getD []

/-- The table names the child among the parts of the parent. -/
def PartOf (nodes : Array Node) (parent child : Nat) : Prop :=
  child ∈ partsAt nodes parent

/-- The nodes of an arena are the nodes of a tree with its root at `0`. -/
structure Arena.IsTree (a : Arena) : Prop where
  nonempty : 0 < a.nodes.size
  in_range : ∀ parent, ∀ child ∈ partsAt a.nodes parent, child < a.nodes.size
  root : ∀ parent, 0 ∉ partsAt a.nodes parent
  /-- Every other node occurs once among the parts of one node, and nowhere else. -/
  once : ∀ id, 0 < id → id < a.nodes.size →
    ∃ parent, ∀ p, (partsAt a.nodes p).count id = if p = parent then 1 else 0
  reachable : ∀ id < a.nodes.size, Relation.ReflTransGen (PartOf a.nodes) 0 id

variable {nodes : Array Node}

theorem partsAt_of_getElem? {id : Nat} {n : Node} (h : nodes[id]? = some n) :
    partsAt nodes id = n.children := by
  rw [partsAt, h]
  rfl

/-! ### Parts of stored trees -/

mutual

/-- The parts of the nodes of a stored tree are its positions without its own. -/
theorem StoredAt.parts_perm {t : Tree} {id : Nat} {ids : List Nat}
    (h : StoredAt nodes t id ids) : (ids.flatMap (partsAt nodes)).Perm ids.tail := by
  cases h with
  | token h =>
      rw [List.flatMap_singleton, partsAt_of_getElem? h]
      exact .nil
  | skipped h =>
      rw [List.flatMap_singleton, partsAt_of_getElem? h]
      exact .nil
  | node h hparts =>
      rw [List.flatMap_cons, partsAt_of_getElem? h]
      exact hparts.parts_perm

theorem StoredAll.parts_perm {ts : List Tree} {parts ids : List Nat}
    (h : StoredAll nodes ts parts ids) : (parts ++ ids.flatMap (partsAt nodes)).Perm ids := by
  cases h with
  | nil => exact .refl _
  | @cons t ts id parts ids below h hrest =>
      -- the first tree has its positions without its own as parts, which comes from `parts`
      refine List.perm_iff_count.2 fun x => ?_
      have hhead := List.perm_iff_count.1 h.parts_perm x
      have htail := List.perm_iff_count.1 hrest.parts_perm x
      rw [List.flatMap_append]
      rw [h.ids_eq] at hhead ⊢
      simp only [List.count_append, List.count_cons, List.tail_cons] at hhead htail ⊢
      omega

end

mutual

/-- All positions of a stored tree are reached from its own. -/
theorem StoredAt.reaches {t : Tree} {id : Nat} {ids : List Nat} (h : StoredAt nodes t id ids) :
    ∀ j ∈ ids, Relation.ReflTransGen (PartOf nodes) id j := by
  cases h with
  | token h =>
      intro j hj
      rw [List.mem_singleton.1 hj]
  | skipped h =>
      intro j hj
      rw [List.mem_singleton.1 hj]
  | node h hparts =>
      intro j hj
      rcases List.mem_cons.1 hj with rfl | hj
      · exact .refl
      · refine hparts.reaches id (fun part hpart => ?_) j hj
        rw [PartOf, partsAt_of_getElem? h]
        exact hpart

theorem StoredAll.reaches {ts : List Tree} {parts ids : List Nat}
    (h : StoredAll nodes ts parts ids) (parent : Nat)
    (hparent : ∀ part ∈ parts, PartOf nodes parent part) :
    ∀ j ∈ ids, Relation.ReflTransGen (PartOf nodes) parent j := by
  cases h with
  | nil => exact fun j hj => absurd hj List.not_mem_nil
  | cons h hrest =>
      intro j hj
      rcases List.mem_append.1 hj with hj | hj
      · exact .head (hparent _ List.mem_cons_self) (h.reaches j hj)
      · exact hrest.reaches parent (fun part hpart => hparent part (List.mem_cons_of_mem _ hpart))
          j hj

end

/-! ### Rooted arenas -/

/-- What occurs once in several lists together occurs in one of them. -/
theorem exists_count_eq_ite {parts : Nat → List Nat} {id : Nat} :
    ∀ l : List Nat, l.Nodup → (l.flatMap parts).count id = 1 →
      ∃ p ∈ l, ∀ q ∈ l, (parts q).count id = if q = p then 1 else 0 := by
  intro l
  induction l with
  | nil =>
      intro _ hcount
      cases hcount
  | cons x xs ih =>
      intro hnodup hcount
      obtain ⟨hx, hxs⟩ := List.nodup_cons.1 hnodup
      rw [List.flatMap_cons, List.count_append] at hcount
      rcases Nat.eq_zero_or_pos ((parts x).count id) with hzero | hpos
      · obtain ⟨p, hp, hall⟩ := ih hxs (by omega)
        refine ⟨p, List.mem_cons_of_mem _ hp, fun q hq => ?_⟩
        rcases List.mem_cons.1 hq with rfl | hq
        · rw [hzero, if_neg]
          rintro rfl
          exact hx hp
        · exact hall q hq
      · -- the head has the one occurrence, so the rest has none
        have hrest : (xs.flatMap parts).count id = 0 := by omega
        refine ⟨x, List.mem_cons_self, fun q hq => ?_⟩
        rcases List.mem_cons.1 hq with rfl | hq
        · rw [if_pos rfl]
          omega
        · have hne : q ≠ x := fun h => hx (h ▸ hq)
          rw [if_neg hne, List.count_eq_zero]
          intro hmem
          exact List.count_eq_zero.1 hrest (List.mem_flatMap.2 ⟨q, hq, hmem⟩)

namespace Arena.Rooted

variable {t : Tree} {a : Arena}

/-- All parts together are all positions but that of the root. -/
theorem parts_perm (h : a.Rooted t) :
    (0 :: (List.range a.nodes.size).flatMap (partsAt a.nodes)).Perm
      (List.range a.nodes.size) := by
  obtain ⟨ids, hids, hperm⟩ := h.stored
  have hparts : ((List.range a.nodes.size).flatMap (partsAt a.nodes)).Perm ids.tail :=
    (hperm.symm.flatMap_right _).trans hids.parts_perm
  refine (hparts.cons 0).trans ?_
  rw [← hids.ids_eq]
  exact hperm

theorem partsAt_eq_nil {id : Nat} (h : a.nodes.size ≤ id) : partsAt a.nodes id = [] := by
  rw [partsAt, Array.getElem?_eq_none h]
  rfl

/-- A part of a node is one of all parts. -/
theorem mem_parts {parent child : Nat} (h : child ∈ partsAt a.nodes parent) :
    child ∈ (List.range a.nodes.size).flatMap (partsAt a.nodes) := by
  refine List.mem_flatMap.2 ⟨parent, List.mem_range.2 ?_, h⟩
  by_contra hsize
  rw [partsAt_eq_nil (Nat.le_of_not_lt hsize)] at h
  exact absurd h List.not_mem_nil

theorem isTree (h : a.Rooted t) : a.IsTree where
  nonempty := List.mem_range.1 (h.parts_perm.mem_iff.1 List.mem_cons_self)
  in_range parent child hchild :=
    List.mem_range.1 (h.parts_perm.mem_iff.1 (List.mem_cons_of_mem _ (mem_parts hchild)))
  root parent hroot := by
    have hnodup := h.parts_perm.nodup_iff.2 List.nodup_range
    exact (List.nodup_cons.1 hnodup).1 (mem_parts hroot)
  once id hpos hlt := by
    -- all lists of parts together have the position once, so one of them has it
    have hcount := List.perm_iff_count.1 h.parts_perm id
    rw [List.count_cons_of_ne (Nat.ne_of_lt hpos),
      List.count_eq_one_of_mem List.nodup_range (List.mem_range.2 hlt)] at hcount
    obtain ⟨parent, hparent, hall⟩ := exists_count_eq_ite _ List.nodup_range hcount
    refine ⟨parent, fun p => ?_⟩
    by_cases hp : p < a.nodes.size
    · exact hall p (List.mem_range.2 hp)
    · rw [partsAt_eq_nil (Nat.le_of_not_lt hp), List.count_nil, if_neg]
      rintro rfl
      exact hp (List.mem_range.1 hparent)
  reachable id hid := by
    obtain ⟨ids, hids, hperm⟩ := h.stored
    exact hids.reaches id (hperm.mem_iff.2 (List.mem_range.2 hid))

end Arena.Rooted

end MySqlAnalysis
