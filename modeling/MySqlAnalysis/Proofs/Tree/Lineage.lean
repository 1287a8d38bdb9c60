import Mathlib.Data.List.Pairwise
import MySqlAnalysis.Proofs.Tree.Places

/-!
# The nodes above a site

The ancestors that a walk reports with a node are the nodes on the way from it
up to the root, each a part of the next (`Lineage`, `Document.sites_lineage`). What
holds of a tree and passes from a node to its parts holds of all of them; so it
is with conditions on the rule and the parts of each node (`Tree.Every`).
-/

set_option autoImplicit false

namespace MySqlAnalysis

/-- A place of a tree and the places above it, nearest first. -/
inductive Lineage (root : Tree) : Located → List Located → Prop
  | root : Lineage root (.root root) []
  | part {l part : Located} {above : List Located} :
      part ∈ l.children → Lineage root l above → Lineage root part (l :: above)

theorem Located.mem_children_iff {l part : Located} :
    part ∈ l.children ↔
      ∃ i, part.address = i :: l.address ∧ l.tree.children[i]? = some part.tree := by
  rw [children, List.mem_mapIdx]
  constructor
  · rintro ⟨i, hi, rfl⟩
    exact ⟨i, rfl, List.getElem?_eq_getElem hi⟩
  · rintro ⟨i, haddress, htree⟩
    obtain ⟨hi, htree⟩ := List.getElem?_eq_some_iff.1 htree
    refine ⟨i, hi, ?_⟩
    rw [htree, ← haddress]

theorem Located.suffix_of_mem_children {l part : Located} (h : part ∈ l.children) :
    l.address <:+ part.address := by
  obtain ⟨i, haddress, -⟩ := mem_children_iff.1 h
  rw [haddress]
  exact List.suffix_cons i l.address

theorem Located.mem_of_mem_children {l part : Located} (h : part ∈ l.children) :
    part.tree ∈ l.tree.children := by
  obtain ⟨i, -, htree⟩ := mem_children_iff.1 h
  exact List.mem_of_getElem? htree

theorem Located.of_only? {l part : Located} {rule : Rule} (h : l.only? rule = some part) :
    part ∈ l.children ∧ part.tree.isRule rule = true := by
  rw [only?] at h
  split at h
  · next t hchildren =>
    split at h
    · next hrule =>
      cases h
      refine ⟨mem_children_iff.2 ⟨0, rfl, ?_⟩, hrule⟩
      rw [hchildren]
      rfl
    · cases h
  · cases h

namespace Lineage

variable {root : Tree} {l part : Located} {above : List Located}

/-- The trees of a lineage are where it says. -/
theorem at? (h : Lineage root l above) : root.at? l.address = some l.tree := by
  induction h with
  | root => rfl
  | part hpart _ ih =>
      obtain ⟨i, haddress, htree⟩ := Located.mem_children_iff.1 hpart
      rw [haddress, Tree.at?, ih]
      exact htree

/-- The nearest place above has the place as a part. -/
theorem of_cons (h : Lineage root part (l :: above)) :
    part ∈ l.children ∧ Lineage root l above := by
  cases h with
  | part hpart habove => exact ⟨hpart, habove⟩

/-- Every place above has a lineage of its own. -/
theorem of_append {before : List Located} {a : Located}
    (h : Lineage root l (before ++ a :: above)) : Lineage root a above := by
  induction before generalizing l with
  | nil =>
      cases h with
      | part _ habove => exact habove
  | cons b before ih =>
      cases h with
      | part _ habove => exact ih habove

/-- A place lies below every place above it. -/
theorem suffix (h : Lineage root l above) : ∀ a ∈ above, a.address <:+ l.address := by
  induction h with
  | root => exact fun a ha => absurd ha List.not_mem_nil
  | part hpart _ ih =>
      have hstep := Located.suffix_of_mem_children hpart
      intro a ha
      rcases List.mem_cons.1 ha with rfl | ha
      · exact hstep
      · exact (ih a ha).trans hstep

/-- What passes from nodes to their parts passes from the root to every place. -/
theorem inherit {P : Tree → Prop} (hparts : ∀ t, P t → ∀ part ∈ t.children, P part)
    (h : Lineage root l above) (hroot : P root) : P l.tree := by
  induction h with
  | root => exact hroot
  | part hpart _ ih => exact hparts _ ih _ (Located.mem_of_mem_children hpart)

end Lineage

/-! ### Conditions on nodes -/

/-- Every node of the tree satisfies a condition on its rule and its parts. -/
inductive Tree.Every (P : Rule → List Tree → Prop) : Tree → Prop
  | token (index : Nat) : Every P (token index)
  | skipped (index : Nat) : Every P (skipped index)
  | node {r : Rule} (first : Nat) (last : Option Nat) {parts : List Tree} :
      P r parts → (∀ t ∈ parts, Every P t) → Every P (node r first last parts)

namespace Tree.Every

variable {P : Rule → List Tree → Prop} {t part : Tree} {r : Rule}

theorem of_mem (h : t.Every P) (hpart : part ∈ t.children) : part.Every P := by
  cases h with
  | token index => cases hpart
  | skipped index => cases hpart
  | node first last hnode hparts => exact hparts part hpart

theorem children (h : t.Every P) (hr : t.rule? = some r) : P r t.children := by
  cases h with
  | token index => cases hr
  | skipped index => cases hr
  | node first last hnode hparts =>
      cases hr
      exact hnode

end Tree.Every

theorem Lineage.every {root : Tree} {l : Located} {above : List Located}
    {P : Rule → List Tree → Prop} (h : Lineage root l above) (hroot : root.Every P) :
    l.tree.Every P :=
  h.inherit (fun _ ht _ => ht.of_mem) hroot

/-! ### The walk -/

namespace Tree

variable {d : Document}

mutual

/-- A walk reports the ancestors of the nodes of a tree. -/
theorem sitesAt_lineage {root : Tree} (ancestors : List Located) (address : Address) (t : Tree)
    (h : Lineage root ⟨address, t⟩ ancestors) :
    ∀ s ∈ sitesAt d ancestors address t, Lineage root s.here s.ancestors := by
  cases t with
  | token index =>
      rw [sitesAt_leaf ancestors address rfl]
      exact fun s hs => absurd hs List.not_mem_nil
  | skipped index =>
      rw [sitesAt_leaf ancestors address rfl]
      exact fun s hs => absurd hs List.not_mem_nil
  | node rule first last parts =>
      intro s hs
      rw [sitesAt_node, List.mem_append, List.mem_singleton] at hs
      rcases hs with hs | rfl
      · refine sitesFrom_lineage _ address 0 parts (fun k t ht => ?_) s hs
        refine .part (Located.mem_children_iff.2 ⟨k, ?_, ht⟩) h
        rw [Nat.zero_add]
      · exact h

/-- A walk reports the ancestors of the nodes below the parts of a node. -/
theorem sitesFrom_lineage {root : Tree} (ancestors : List Located) (address : Address) (i : Nat)
    (ts : List Tree)
    (h : ∀ (k : Nat) (t : Tree), ts[k]? = some t →
      Lineage root ⟨(i + k) :: address, t⟩ ancestors) :
    ∀ s ∈ sitesFrom d ancestors address i ts, Lineage root s.here s.ancestors := by
  cases ts with
  | nil => exact fun s hs => absurd hs List.not_mem_nil
  | cons t ts =>
      intro s hs
      rw [sitesFrom_cons, List.mem_append] at hs
      rcases hs with hs | hs
      · exact sitesAt_lineage ancestors (i :: address) t (h 0 t rfl) s hs
      · refine sitesFrom_lineage ancestors address (i + 1) ts (fun k u hu => ?_) s hs
        have hstep := h (k + 1) u hu
        rwa [show i + (k + 1) = i + 1 + k by omega] at hstep

end

end Tree

/-- The nodes that a walk over a document leaves, in this order. -/
def Document.sites (d : Document) : List Site :=
  d.walk.filterMap Visit.left?

namespace Document

variable {d : Document} {t : Tree}

theorem sites_eq (h : d.root = some t) : d.sites = Tree.sitesAt d [] [] t := by
  rw [sites, walk, h]
  rfl

theorem sites_of_none (h : d.root = none) : d.sites = [] := by
  rw [sites, walk, h]
  rfl

/-- The nodes that are left are those of the tree, with their ancestors. -/
theorem sites_lineage {s : Site} (hs : s ∈ d.sites) :
    ∃ t, d.root = some t ∧ Lineage t s.here s.ancestors := by
  cases h : d.root with
  | none =>
      rw [sites_of_none h] at hs
      cases hs
  | some t =>
      rw [sites_eq h] at hs
      exact ⟨t, rfl, Tree.sitesAt_lineage [] [] t .root s hs⟩

theorem sites_distinct (d : Document) :
    d.sites.Pairwise fun s s' => s.here.address ≠ s'.here.address := by
  cases h : d.root with
  | none =>
      rw [sites_of_none h]
      exact List.Pairwise.nil
  | some t =>
      rw [sites_eq h]
      exact Tree.sitesAt_distinct [] [] t

/-- Nodes left at one place are one node. -/
theorem sites_eq_of_address {s s' : Site} (hs : s ∈ d.sites) (hs' : s' ∈ d.sites)
    (h : s.here.address = s'.here.address) : s = s' := by
  have : Std.Symm fun s s' : Site => s.here.address ≠ s'.here.address := ⟨fun _ _ => Ne.symm⟩
  by_contra hne
  exact d.sites_distinct.forall hs hs' hne h

end Document

end MySqlAnalysis
