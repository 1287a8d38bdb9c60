import Mathlib.Data.List.Basic
import MySqlAnalysis.Tree.Walk

/-!
# The places of a walk

A walk leaves every node at a place of its own, and reports with it the tree at
that place and the tree above (`Tree.sitesAt_placed`, `Tree.sitesAt_distinct`). In a
tree where no node has two parts of a rule, a part of that rule is known by the
node above it (`Tree.Single.address_eq`).
-/

set_option autoImplicit false

namespace MySqlAnalysis

/-! ### Trees at addresses -/

namespace Tree

/-- The tree at an address. -/
def at? (t : Tree) : Address → Option Tree
  | [] => some t
  | i :: address => (t.at? address).bind (·.children[i]?)

/-- No node of the tree has two parts of the rule. -/
inductive Single (rule : Rule) : Tree → Prop
  | token (index : Nat) : Single rule (token index)
  | skipped (index : Nat) : Single rule (skipped index)
  | node (r : Rule) (first : Nat) (last : Option Nat) {parts : List Tree} :
      parts.countP (·.isRule rule) ≤ 1 → (∀ t ∈ parts, Single rule t) →
        Single rule (node r first last parts)

namespace Single

variable {rule : Rule} {t : Tree}

theorem countP_le (h : t.Single rule) : t.children.countP (·.isRule rule) ≤ 1 := by
  cases h with
  | token index => exact Nat.zero_le _
  | skipped index => exact Nat.zero_le _
  | node r first last hcount hparts => exact hcount

theorem of_mem (h : t.Single rule) {part : Tree} (hpart : part ∈ t.children) :
    part.Single rule := by
  cases h with
  | token index => cases hpart
  | skipped index => cases hpart
  | node r first last hcount hparts => exact hparts part hpart

theorem at? (h : t.Single rule) {address : Address} :
    ∀ {part : Tree}, t.at? address = some part → part.Single rule := by
  induction address with
  | nil =>
      rintro part ⟨⟩
      exact h
  | cons i address ih =>
      intro part hpart
      obtain ⟨parent, hparent, hchild⟩ := Option.bind_eq_some_iff.1 hpart
      exact (ih hparent).of_mem (List.mem_of_getElem? hchild)

end Single

end Tree

/-- At most one place of a list has a property that at most one element has. -/
theorem eq_of_countP_le_one {α : Type} {p : α → Bool} {xs : List α} (h : xs.countP p ≤ 1) :
    ∀ {i j : Nat} {a b : α}, xs[i]? = some a → xs[j]? = some b → p a = true → p b = true →
      i = j := by
  induction xs with
  | nil =>
      intro i j a b hi
      cases hi
  | cons x xs ih =>
      intro i j a b hi hj ha hb
      rw [List.countP_cons] at h
      -- an element with the property behind the first one rules out the first one
      have hnone : ∀ {k : Nat} {c : α}, xs[k]? = some c → p c = true → p x = false := by
        intro k c hk hc
        have hpos : 0 < xs.countP p := List.countP_pos_iff.2 ⟨c, List.mem_of_getElem? hk, hc⟩
        cases hx : p x with
        | false => rfl
        | true =>
            rw [hx, if_pos rfl] at h
            omega
      rcases i with _ | i <;> rcases j with _ | j
      · rfl
      · rw [List.getElem?_cons_zero, Option.some.injEq] at hi
        rw [List.getElem?_cons_succ] at hj
        rw [← hi, hnone hj hb] at ha
        cases ha
      · rw [List.getElem?_cons_zero, Option.some.injEq] at hj
        rw [List.getElem?_cons_succ] at hi
        rw [← hj, hnone hi ha] at hb
        cases hb
      · rw [List.getElem?_cons_succ] at hi hj
        have hxs : xs.countP p ≤ 1 := Nat.le_trans (Nat.le_add_right _ _) h
        rw [ih hxs hi hj ha hb]

/-! ### Sites -/

/-- The site is where it says in the tree, and so is the node above. -/
structure Site.Placed (root : Tree) (s : Site) : Prop where
  here : root.at? s.here.address = some s.here.tree
  above : ∀ p ∈ s.parent?, root.at? p.address = some p.tree ∧ s.here.address.tail = p.address ∧
    s.here.address ≠ []

/-- The site of a visit that leaves a node. -/
def Visit.left? : Visit → Option Site
  | .leave s => some s
  | _ => none

theorem Site.Placed.child {root : Tree} {s : Site} (h : s.Placed root) {p : Located}
    (hp : s.parent? = some p) :
    ∃ i, s.here.address = i :: p.address ∧ p.tree.children[i]? = some s.here.tree := by
  obtain ⟨hat, htail, hne⟩ := h.above p hp
  obtain ⟨i, address, hcons⟩ := List.exists_cons_of_ne_nil hne
  rw [hcons, List.tail_cons] at htail
  subst htail
  refine ⟨i, hcons, ?_⟩
  have hhere := h.here
  rw [hcons, Tree.at?, hat] at hhere
  exact hhere

/-- Two parts of one rule below one place are the same part. -/
theorem Tree.Single.address_eq {root : Tree} {rule : Rule} (h : root.Single rule) {s s' : Site}
    (hs : s.Placed root) (hs' : s'.Placed root) (hrule : s.here.tree.isRule rule = true)
    (hrule' : s'.here.tree.isRule rule = true) {p p' : Located} (hp : s.parent? = some p)
    (hp' : s'.parent? = some p') (haddress : p.address = p'.address) :
    s.here.address = s'.here.address := by
  obtain ⟨i, hi, hchild⟩ := hs.child hp
  obtain ⟨j, hj, hchild'⟩ := hs'.child hp'
  have hat : root.at? p.address = some p.tree := (hs.above p hp).1
  have hsame : p'.tree = p.tree := by
    have hat' : root.at? p'.address = some p'.tree := (hs'.above p' hp').1
    rw [← haddress, hat] at hat'
    exact (Option.some.inj hat').symm
  rw [hsame] at hchild'
  rw [hi, hj, haddress, eq_of_countP_le_one (h.at? hat).countP_le hchild hchild' hrule hrule']

/-! ### The walk -/

namespace Tree

variable {d : Document}

/-- The sites that a walk over a tree leaves. -/
def sitesAt (d : Document) (ancestors : List Located) (address : Address) (t : Tree) :
    List Site :=
  (walkAt d ancestors address t).filterMap Visit.left?

/-- The sites that a walk over the parts of a node leaves, from part `i` on. -/
def sitesFrom (d : Document) (ancestors : List Located) (address : Address) (i : Nat)
    (ts : List Tree) : List Site :=
  (walkFrom d ancestors address i ts).filterMap Visit.left?

theorem sitesFrom_cons (ancestors : List Located) (address : Address) (i : Nat) (t : Tree)
    (ts : List Tree) :
    sitesFrom d ancestors address i (t :: ts) =
      sitesAt d ancestors (i :: address) t ++ sitesFrom d ancestors address (i + 1) ts := by
  rw [sitesFrom, walkFrom, List.filterMap_append]
  rfl

theorem sitesAt_node (ancestors : List Located) (address : Address) (rule : Rule) (first : Nat)
    (last : Option Nat) (parts : List Tree) :
    sitesAt d ancestors address (node rule first last parts) =
      sitesFrom d (⟨address, node rule first last parts⟩ :: ancestors) address 0 parts ++
        [⟨⟨address, node rule first last parts⟩, ancestors⟩] := by
  rw [sitesAt, walkAt, List.filterMap_cons, List.filterMap_append]
  rfl

theorem sitesAt_leaf (ancestors : List Located) (address : Address) {t : Tree}
    (h : t.tokenIndex?.isSome = true) : sitesAt d ancestors address t = [] := by
  cases t with
  | token index =>
      rw [sitesAt, walkAt]
      split <;> rfl
  | skipped index =>
      rw [sitesAt, walkAt]
      split <;> rfl
  | node rule first last parts => cases h

mutual

/-- A walk leaves the nodes of a tree where they are. -/
theorem sitesAt_placed {root : Tree} (ancestors : List Located) (address : Address) (t : Tree)
    (hat : root.at? address = some t)
    (habove : ∀ p ∈ ancestors.head?,
      root.at? p.address = some p.tree ∧ address.tail = p.address ∧ address ≠ []) :
    ∀ s ∈ sitesAt d ancestors address t, s.Placed root := by
  cases t with
  | token index =>
      rw [sitesAt_leaf ancestors address rfl]
      exact fun s hs => absurd hs List.not_mem_nil
  | skipped index =>
      rw [sitesAt_leaf ancestors address rfl]
      exact fun s hs => absurd hs List.not_mem_nil
  | node rule first last parts =>
      intro s hs
      rw [sitesAt_node, List.mem_append, List.mem_singleton] at hs
      rcases hs with hs | rfl
      · refine sitesFrom_placed _ address 0 parts (fun k t ht => ?_) ?_ s hs
        · rw [at?, hat, Option.bind_some, Nat.zero_add]
          exact ht
        · rintro p ⟨⟩
          exact ⟨hat, rfl⟩
      · exact ⟨hat, habove⟩

/-- A walk leaves the nodes below the parts of a node where they are. -/
theorem sitesFrom_placed {root : Tree} (ancestors : List Located) (address : Address) (i : Nat)
    (ts : List Tree)
    (hat : ∀ (k : Nat) (t : Tree), ts[k]? = some t → root.at? ((i + k) :: address) = some t)
    (habove : ∀ p ∈ ancestors.head?, root.at? p.address = some p.tree ∧ address = p.address) :
    ∀ s ∈ sitesFrom d ancestors address i ts, s.Placed root := by
  cases ts with
  | nil => exact fun s hs => absurd hs List.not_mem_nil
  | cons t ts =>
      intro s hs
      rw [sitesFrom_cons, List.mem_append] at hs
      rcases hs with hs | hs
      · refine sitesAt_placed ancestors (i :: address) t (hat 0 t rfl) (fun p hp => ?_) s hs
        obtain ⟨hp₁, hp₂⟩ := habove p hp
        exact ⟨hp₁, hp₂, List.cons_ne_nil _ _⟩
      · refine sitesFrom_placed ancestors address (i + 1) ts (fun k u hu => ?_) habove s hs
        have hstep := hat (k + 1) u hu
        rwa [show i + (k + 1) = i + 1 + k by omega] at hstep

end

mutual

theorem suffix_of_mem_sitesAt (ancestors : List Located) (address : Address) (t : Tree) :
    ∀ s ∈ sitesAt d ancestors address t, address <:+ s.here.address := by
  cases t with
  | token index =>
      rw [sitesAt_leaf ancestors address rfl]
      exact fun s hs => absurd hs List.not_mem_nil
  | skipped index =>
      rw [sitesAt_leaf ancestors address rfl]
      exact fun s hs => absurd hs List.not_mem_nil
  | node rule first last parts =>
      intro s hs
      rw [sitesAt_node, List.mem_append, List.mem_singleton] at hs
      rcases hs with hs | rfl
      · obtain ⟨k, -, hsuffix⟩ := suffix_of_mem_sitesFrom _ address 0 parts s hs
        exact (List.suffix_cons k address).trans hsuffix
      · exact List.suffix_rfl

theorem suffix_of_mem_sitesFrom (ancestors : List Located) (address : Address) (i : Nat)
    (ts : List Tree) :
    ∀ s ∈ sitesFrom d ancestors address i ts, ∃ k, i ≤ k ∧ (k :: address) <:+ s.here.address := by
  cases ts with
  | nil => exact fun s hs => absurd hs List.not_mem_nil
  | cons t ts =>
      intro s hs
      rw [sitesFrom_cons, List.mem_append] at hs
      rcases hs with hs | hs
      · exact ⟨i, Nat.le_refl i, suffix_of_mem_sitesAt ancestors (i :: address) t s hs⟩
      · obtain ⟨k, hk, hsuffix⟩ := suffix_of_mem_sitesFrom ancestors address (i + 1) ts s hs
        exact ⟨k, by omega, hsuffix⟩

end

/-- The parts of a node have no place in common. -/
theorem eq_of_cons_suffix {i j : Nat} {address x : Address} (hi : (i :: address) <:+ x)
    (hj : (j :: address) <:+ x) : i = j := by
  have heq := List.suffix_of_suffix_length_le hi hj (by simp)
  exact (List.cons.inj (heq.eq_of_length (by simp))).1

mutual

/-- A walk leaves every node of a tree at its own place. -/
theorem sitesAt_distinct (ancestors : List Located) (address : Address) (t : Tree) :
    (sitesAt d ancestors address t).Pairwise fun s s' => s.here.address ≠ s'.here.address := by
  cases t with
  | token index =>
      rw [sitesAt_leaf ancestors address rfl]
      exact List.Pairwise.nil
  | skipped index =>
      rw [sitesAt_leaf ancestors address rfl]
      exact List.Pairwise.nil
  | node rule first last parts =>
      rw [sitesAt_node, List.pairwise_append]
      refine ⟨sitesFrom_distinct _ address 0 parts, List.pairwise_singleton _ _, ?_⟩
      intro s hs s' hs' heq
      rw [List.mem_singleton.1 hs'] at heq
      -- what is below a node has a longer address
      obtain ⟨k, -, hsuffix⟩ := suffix_of_mem_sitesFrom _ address 0 parts s hs
      have hlen := hsuffix.length_le
      rw [heq, List.length_cons] at hlen
      exact absurd hlen (Nat.not_succ_le_self _)

theorem sitesFrom_distinct (ancestors : List Located) (address : Address) (i : Nat)
    (ts : List Tree) :
    (sitesFrom d ancestors address i ts).Pairwise
      fun s s' => s.here.address ≠ s'.here.address := by
  cases ts with
  | nil => exact List.Pairwise.nil
  | cons t ts =>
      rw [sitesFrom_cons, List.pairwise_append]
      refine ⟨sitesAt_distinct ancestors (i :: address) t,
        sitesFrom_distinct ancestors address (i + 1) ts, ?_⟩
      intro s hs s' hs' heq
      have hsuffix := suffix_of_mem_sitesAt ancestors (i :: address) t s hs
      obtain ⟨k, hk, hsuffix'⟩ := suffix_of_mem_sitesFrom ancestors address (i + 1) ts s' hs'
      rw [heq] at hsuffix
      have hik := eq_of_cons_suffix hsuffix hsuffix'
      omega

end

end Tree

end MySqlAnalysis
