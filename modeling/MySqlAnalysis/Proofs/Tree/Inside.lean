import MySqlAnalysis.Proofs.Grammar.NodeSpans
import MySqlAnalysis.Proofs.Tree.Lineage

/-!
# Trees inside trees

The tree at an address is reached one part after the other (`Tree.at?_append`), and its
leaves are among those of the whole. When the leaves of a tree are distinct, two places
in it that have a leaf in common lie one inside the other (`Tree.suffix_or_suffix`).
-/

set_option autoImplicit false

namespace MySqlAnalysis

namespace Tree

variable {t u part other : Tree} {ts : List Tree} {address : Address} {i : Nat}

/-- What is at an address below another one is found from there. -/
theorem at?_append (t : Tree) (below address : Address) :
    t.at? (below ++ address) = (t.at? address).bind (·.at? below) := by
  induction below with
  | nil => simp [at?]
  | cons i below ih =>
      rw [List.cons_append, at?, ih]
      cases t.at? address <;> rfl

/-- The first step to a tree inside leads to a part. -/
theorem at?_concat (t : Tree) (below : Address) (i : Nat) :
    t.at? (below ++ [i]) = t.children[i]?.bind (·.at? below) := by
  rw [at?_append]
  rfl

/-- What holds of all nodes holds of those inside. -/
theorem Every.of_at? {P : Rule → List Tree → Prop} (h : t.Every P) {address : Address} :
    ∀ {u : Tree}, t.at? address = some u → u.Every P := by
  induction address with
  | nil =>
      rintro u ⟨⟩
      exact h
  | cons i address ih =>
      intro u hu
      obtain ⟨v, hv, hu⟩ := Option.bind_eq_some_iff.1 hu
      exact (ih hv).of_mem (List.mem_of_getElem? hu)

theorem leaves_sublist_of_mem (h : part ∈ t.children) : part.leaves.Sublist t.leaves := by
  cases t with
  | token index => cases h
  | skipped index => cases h
  | node rule first last parts => exact sublist_leavesAll h

/-- The leaves of a tree inside are among those of the whole. -/
theorem leaves_sublist (h : t.at? address = some u) : u.leaves.Sublist t.leaves := by
  induction address generalizing u with
  | nil =>
      cases h
      exact List.Sublist.refl _
  | cons i address ih =>
      obtain ⟨v, hv, hu⟩ := Option.bind_eq_some_iff.1 h
      exact (leaves_sublist_of_mem (List.mem_of_getElem? hu)).trans (ih hv)

/-- Two different parts of a node have their leaves side by side. -/
theorem length_leaves_add_le (hpart : part ∈ t.children) (hother : other ∈ t.children)
    (hne : part ≠ other) : part.leaves.length + other.leaves.length ≤ t.leaves.length := by
  cases t with
  | token index => cases hpart
  | skipped index => cases hpart
  | node rule first last parts =>
      obtain ⟨before, after, rfl⟩ := List.append_of_mem hpart
      have hlength : (leavesAll (before ++ part :: after)).length =
          (leavesAll before).length + (part.leaves.length + (leavesAll after).length) := by
        simp [leavesAll_append, leavesAll]
      show _ ≤ (leavesAll _).length
      rw [hlength]
      have hrest : other ∈ before ∨ other ∈ after := by
        simpa [children, hne.symm] using hother
      rcases hrest with hmem | hmem <;> have := (sublist_leavesAll hmem).length_le <;> omega

/-- When leaves are distinct, a leaf belongs to one part. -/
theorem eq_of_mem_leaves (h : (leavesAll ts).Nodup) :
    ∀ {j k : Nat}, ts[j]? = some part → ts[k]? = some other → i ∈ part.leaves →
      i ∈ other.leaves → j = k := by
  induction ts with
  | nil =>
      intro j k hj
      cases hj
  | cons t ts ih =>
      intro j k hj hk hi hi'
      rw [leavesAll, List.nodup_append] at h
      obtain ⟨-, hrest, hdisjoint⟩ := h
      -- a leaf of a part behind the first one is no leaf of the first one
      have hbehind : ∀ {l : Nat} {v : Tree}, ts[l]? = some v → i ∈ v.leaves → i ∉ t.leaves :=
        fun hl hv ht => hdisjoint i ht i
          ((sublist_leavesAll (List.mem_of_getElem? hl)).subset hv) rfl
      rcases j with _ | j <;> rcases k with _ | k
      · rfl
      · cases hj
        exact absurd hi (hbehind hk hi')
      · cases hk
        exact absurd hi' (hbehind hj hi)
      · rw [ih hrest hj hk hi hi']

/-- Places with a common leaf lie one inside the other. -/
theorem suffix_or_suffix (hroot : t.leaves.Nodup) {below : Address} :
    ∀ {address : Address}, t.at? address = some part → t.at? below = some other →
      i ∈ part.leaves → i ∈ other.leaves → address <:+ below ∨ below <:+ address := by
  intro address
  induction address generalizing part with
  | nil => exact fun _ _ _ _ => .inl List.nil_suffix
  | cons j address ih =>
      intro hpart hother hi hi'
      obtain ⟨v, hv, hchild⟩ := Option.bind_eq_some_iff.1 hpart
      have hmem : i ∈ v.leaves := (leaves_sublist_of_mem (List.mem_of_getElem? hchild)).subset hi
      rcases ih hv hother hmem hi' with ⟨path, rfl⟩ | hsuffix
      · -- the other place is at or below the place above
        rcases List.eq_nil_or_concat path with rfl | ⟨rest, k, rfl⟩
        · exact .inr (List.suffix_cons j address)
        · left
          rw [List.concat_eq_append, List.append_assoc, List.singleton_append, at?_append, at?,
            hv] at hother
          obtain ⟨w, hw, hother⟩ := Option.bind_eq_some_iff.1 hother
          have hnodup : (leavesAll v.children).Nodup := by
            cases v with
            | node rule first last parts => exact hroot.sublist (leaves_sublist hv)
            | _ => cases hchild
          obtain rfl := eq_of_mem_leaves hnodup hchild hw hi ((leaves_sublist hother).subset hi')
          exact ⟨rest, by simp⟩
      · exact .inr (hsuffix.trans (List.suffix_cons j address))

end Tree

/-! ### Places inside a place -/

/-- The second place is the first one or lies below it. -/
def Located.Inside (l inner : Located) : Prop :=
  ∃ below, inner.address = below ++ l.address ∧ l.tree.at? below = some inner.tree

namespace Located

variable {l inner : Located}

theorem Inside.trans {m : Located} (h : l.Inside m) (h' : m.Inside inner) : l.Inside inner := by
  obtain ⟨below, haddress, hat⟩ := h
  obtain ⟨below', haddress', hat'⟩ := h'
  refine ⟨below' ++ below, by rw [haddress', haddress, List.append_assoc], ?_⟩
  rw [Tree.at?_append, hat]
  exact hat'

theorem inside_of_mem_children (h : inner ∈ l.children) : l.Inside inner := by
  obtain ⟨i, haddress, htree⟩ := mem_children_iff.1 h
  exact ⟨[i], haddress, htree⟩

theorem Inside.at? {root : Tree} (h : l.Inside inner) (hl : root.at? l.address = some l.tree) :
    root.at? inner.address = some inner.tree := by
  obtain ⟨below, haddress, hat⟩ := h
  rw [haddress, Tree.at?_append, hl]
  exact hat

theorem Inside.every {P : Rule → List Tree → Prop} (h : l.Inside inner) (hl : l.tree.Every P) :
    inner.tree.Every P := by
  obtain ⟨below, -, hat⟩ := h
  exact hl.of_at? hat

theorem child?_eq_some {i : Nat} :
    l.child? i = some inner ↔ inner.address = i :: l.address ∧
      l.tree.children[i]? = some inner.tree := by
  rw [child?, Option.map_eq_some_iff]
  constructor
  · rintro ⟨t, ht, rfl⟩
    exact ⟨rfl, ht⟩
  · rintro ⟨haddress, ht⟩
    exact ⟨inner.tree, ht, by rw [← haddress]⟩

theorem inside_of_child? {i : Nat} (h : l.child? i = some inner) : l.Inside inner := by
  obtain ⟨haddress, hchild⟩ := child?_eq_some.1 h
  exact ⟨[i], haddress, hchild⟩

theorem only?_eq_some {rule : Rule} :
    l.only? rule = some inner ↔ inner.address = 0 :: l.address ∧
      l.tree.children = [inner.tree] ∧ inner.tree.rule? = some rule := by
  rw [only?]
  constructor
  · intro h
    split at h
    · next t hchildren =>
      split at h
      · next hrule =>
        cases h
        exact ⟨rfl, hchildren, by simpa [Tree.isRule] using hrule⟩
      · cases h
    · cases h
  · rintro ⟨haddress, hchildren, hrule⟩
    rw [hchildren]
    dsimp only
    rw [if_pos (by simp [Tree.isRule, hrule]), ← haddress]

end Located

end MySqlAnalysis
