import Mathlib.Data.List.Basic
import MySqlAnalysis.Tree.Arena

/-!
# Trees that are stored in an arena

A table of nodes stores a tree at a position (`StoredAt`), and some trees at the
positions of a part list (`StoredAll`). Both also name the positions that are
used, each node before its parts; where the table is the same at these
positions, the same trees are stored.
-/

set_option autoImplicit false

namespace MySqlAnalysis

/-! ### Stored trees -/

mutual

/-- The table stores the tree at a position and uses these positions for it. -/
inductive StoredAt (nodes : Array Node) : Tree → Nat → List Nat → Prop
  | token {id index : Nat} (h : nodes[id]? = some (.token index)) :
      StoredAt nodes (.token index) id [id]
  | skipped {id index : Nat} (h : nodes[id]? = some (.skipped index)) :
      StoredAt nodes (.skipped index) id [id]
  | node {id : Nat} {rule : Rule} {first : Nat} {last : Option Nat} {trees : List Tree}
      {parts below : List Nat} (h : nodes[id]? = some ⟨.rule rule, first, last, parts⟩)
      (hparts : StoredAll nodes trees parts below) :
      StoredAt nodes (.node rule first last trees) id (id :: below)

/-- The table stores the trees at these positions, one after the other. -/
inductive StoredAll (nodes : Array Node) : List Tree → List Nat → List Nat → Prop
  | nil : StoredAll nodes [] [] []
  | cons {t : Tree} {ts : List Tree} {id : Nat} {parts ids below : List Nat}
      (h : StoredAt nodes t id ids) (hrest : StoredAll nodes ts parts below) :
      StoredAll nodes (t :: ts) (id :: parts) (ids ++ below)

end

variable {nodes nodes' : Array Node}

mutual

/-- A tree stays stored where the table does not change. -/
theorem StoredAt.congr {t : Tree} {id : Nat} {ids : List Nat} (h : StoredAt nodes t id ids)
    (heq : ∀ j ∈ ids, nodes'[j]? = nodes[j]?) : StoredAt nodes' t id ids := by
  cases h with
  | token h => exact .token ((heq id List.mem_cons_self).trans h)
  | skipped h => exact .skipped ((heq id List.mem_cons_self).trans h)
  | node h hparts =>
      refine .node ((heq id List.mem_cons_self).trans h) (hparts.congr ?_)
      exact fun j hj => heq j (List.mem_cons_of_mem _ hj)

theorem StoredAll.congr {ts : List Tree} {parts ids : List Nat}
    (h : StoredAll nodes ts parts ids) (heq : ∀ j ∈ ids, nodes'[j]? = nodes[j]?) :
    StoredAll nodes' ts parts ids := by
  cases h with
  | nil => exact .nil
  | cons h hrest =>
      refine .cons (h.congr fun j hj => heq j (List.mem_append_left _ hj)) (hrest.congr ?_)
      exact fun j hj => heq j (List.mem_append_right _ hj)

end

/-- The first position that a tree uses is its own. -/
theorem StoredAt.ids_eq {t : Tree} {id : Nat} {ids : List Nat} (h : StoredAt nodes t id ids) :
    ids = id :: ids.tail := by
  cases h <;> rfl

/-- The node of a stored tree starts where the tree does. -/
theorem StoredAt.exists_node {t : Tree} {id : Nat} {ids : List Nat}
    (h : StoredAt nodes t id ids) : ∃ n, nodes[id]? = some n ∧ n.first = t.first := by
  cases h with
  | token h => exact ⟨_, h, rfl⟩
  | skipped h => exact ⟨_, h, rfl⟩
  | node h hparts => exact ⟨_, h, rfl⟩

/-- A tree whose node is moved to another position is stored there. -/
theorem StoredAt.move {t : Tree} {id id' : Nat} {ids : List Nat} (h : StoredAt nodes t id ids)
    (hnode : nodes'[id']? = nodes[id]?) (heq : ∀ j ∈ ids.tail, nodes'[j]? = nodes[j]?) :
    StoredAt nodes' t id' (id' :: ids.tail) := by
  cases h with
  | token h => exact .token (hnode.trans h)
  | skipped h => exact .skipped (hnode.trans h)
  | node h hparts => exact .node (hnode.trans h) (hparts.congr heq)

theorem StoredAll.append {ts us : List Tree} {parts parts' ids ids' : List Nat}
    (h : StoredAll nodes ts parts ids) (h' : StoredAll nodes us parts' ids') :
    StoredAll nodes (ts ++ us) (parts ++ parts') (ids ++ ids') := by
  induction ts generalizing parts ids with
  | nil =>
      cases h
      exact h'
  | cons t ts ih =>
      cases h with
      | cons h hrest =>
          rw [List.append_assoc]
          exact .cons h (ih hrest)

theorem StoredAll.singleton {t : Tree} {id : Nat} {ids : List Nat} (h : StoredAt nodes t id ids) :
    StoredAll nodes [t] [id] ids := by
  have hone := StoredAll.cons h .nil
  rwa [List.append_nil] at hone

/-- The last of some stored trees and those before it. -/
theorem StoredAll.concat {ts : List Tree} {t : Tree} {parts ids : List Nat}
    (h : StoredAll nodes (ts ++ [t]) parts ids) :
    ∃ before id idsBefore idsLast, parts = before ++ [id] ∧ ids = idsBefore ++ idsLast ∧
      StoredAll nodes ts before idsBefore ∧ StoredAt nodes t id idsLast := by
  induction ts generalizing parts ids with
  | nil =>
      cases h with
      | cons h hrest =>
          cases hrest
          exact ⟨[], _, [], _, rfl, List.append_nil _, .nil, h⟩
  | cons u us ih =>
      cases h with
      | cons hu hrest =>
          obtain ⟨before, id, idsBefore, idsLast, rfl, rfl, hbefore, hlast⟩ := ih hrest
          exact ⟨_, id, _, idsLast, rfl, (List.append_assoc _ _ _).symm, .cons hu hbefore, hlast⟩

theorem StoredAll.parts_eq_nil {parts ids : List Nat} (h : StoredAll nodes [] parts ids) :
    parts = [] ∧ ids = [] := by
  cases h
  exact ⟨rfl, rfl⟩

end MySqlAnalysis
