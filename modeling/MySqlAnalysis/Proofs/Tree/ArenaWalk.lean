import MySqlAnalysis.Proofs.Tree.Shape

/-!
# Walking an arena

A walk over an arena whose nodes all belong to one stored tree ends, and it
visits that tree (`Arena.Rooted.walk`): every node of a rule is entered and left
once, every leaf whose token exists is visited once, nodes are left in the
reverse order in which they were entered, and each comes with the path to the
root.
-/

set_option autoImplicit false

namespace MySqlAnalysis.Arena

/-! ### What a walk should visit -/

namespace Visit

/-- The node that is entered. -/
def entered? : Visit → Option Nat
  | enter id _ => some id
  | _ => none

/-- The node that is left. -/
def left? : Visit → Option Nat
  | leave id _ => some id
  | _ => none

/-- Whether a leaf is visited. -/
def isLeaf : Visit → Bool
  | token _ _ => true
  | skipped _ _ => true
  | _ => false

/-- The path from the node that is entered or left up to the root. -/
def path? : Visit → Option (List Nat)
  | enter id ancestors => some (id :: ancestors)
  | leave id ancestors => some (id :: ancestors)
  | _ => none

/-- The nodes that are open after some visits. It is absent unless the ancestors
of a node that is entered are the open nodes, and a node that is left is the
innermost open one, with the others as its ancestors. -/
def follow : List Visit → (opened : List Nat) → Option (List Nat)
  | [], opened => some opened
  | enter id ancestors :: visits, opened =>
    if ancestors = opened then follow visits (id :: opened) else none
  | leave id ancestors :: visits, opened =>
    if opened = id :: ancestors then follow visits ancestors else none
  | _ :: visits, opened => follow visits opened

end Visit

/-- Whether the node at a position is that of a rule. -/
def ruleAt (nodes : Array Node) (id : Nat) : Bool :=
  match nodes[id]?.map Node.kind with
  | some (.rule _) => true
  | _ => false

/-- The visit of a leaf whose token exists. -/
def leafVisit? (nodes : Array Node) (tokens : Array Token) (id : Nat) : Option Visit :=
  match nodes[id]?.map Node.kind with
  | some (.token index) => if index < tokens.size then some (.token id index) else none
  | some (.skipped index) => if index < tokens.size then some (.skipped id index) else none
  | _ => none

/-- The positions lead from a node up to the root. -/
def IsPath (nodes : Array Node) : List Nat → Prop
  | [] => False
  | [id] => id = 0
  | id :: parent :: rest => PartOf nodes parent id ∧ IsPath nodes (parent :: rest)

/-- The visits are those of a walk over the whole arena. -/
structure Walks (a : Arena) (tokens : Array Token) (visits : List Visit) : Prop where
  entered : (visits.filterMap Visit.entered?).Perm
    ((List.range a.nodes.size).filter (ruleAt a.nodes))
  left : (visits.filterMap Visit.left?).Perm ((List.range a.nodes.size).filter (ruleAt a.nodes))
  leaves : (visits.filter Visit.isLeaf).Perm
    ((List.range a.nodes.size).filterMap (leafVisit? a.nodes tokens))
  nested : Visit.follow visits [] = some []
  paths : ∀ v ∈ visits, ∀ path ∈ v.path?, IsPath a.nodes path

/-! ### Walks over stored trees -/

/-- The visits are those of a walk over the nodes at these positions, each node
before its parts, below the ancestors. -/
structure Covers (nodes : Array Node) (tokens : Array Token) (ancestors ids : List Nat)
    (visits : List Visit) : Prop where
  entered : visits.filterMap Visit.entered? = ids.filter (ruleAt nodes)
  left : (visits.filterMap Visit.left?).Perm (ids.filter (ruleAt nodes))
  leaves : visits.filter Visit.isLeaf = ids.filterMap (leafVisit? nodes tokens)
  nested : ∀ rest, Visit.follow (visits ++ rest) ancestors = Visit.follow rest ancestors
  paths : ∀ v ∈ visits, ∀ path ∈ v.path?, IsPath nodes path

section Covering

variable {nodes : Array Node} {tokens : Array Token} {ancestors : List Nat}

theorem covers_nil : Covers nodes tokens ancestors [] [] where
  entered := rfl
  left := .refl _
  leaves := rfl
  nested _ := rfl
  paths _ h := absurd h List.not_mem_nil

theorem Covers.append {ids below : List Nat} {visits visits' : List Visit}
    (h : Covers nodes tokens ancestors ids visits)
    (h' : Covers nodes tokens ancestors below visits') :
    Covers nodes tokens ancestors (ids ++ below) (visits ++ visits') where
  entered := by rw [List.filterMap_append, List.filter_append, h.entered, h'.entered]
  left := by
    rw [List.filterMap_append, List.filter_append]
    exact h.left.append h'.left
  leaves := by rw [List.filter_append, List.filterMap_append, h.leaves, h'.leaves]
  nested rest := by rw [List.append_assoc, h.nested, h'.nested]
  paths v hv := (List.mem_append.1 hv).elim (h.paths v) (h'.paths v)

theorem covers_visit {id : Nat} {v : Visit} (hleaf : v.isLeaf = true)
    (hrule : ruleAt nodes id = false) (hv : leafVisit? nodes tokens id = some v) :
    Covers nodes tokens ancestors [id] [v] := by
  cases v with
  | enter id ancestors => cases hleaf
  | leave id ancestors => cases hleaf
  | token id' index =>
      refine ⟨?_, ?_, ?_, fun rest => rfl, ?_⟩ <;>
        simp [Visit.entered?, Visit.left?, Visit.isLeaf, Visit.path?, hrule, hv]
  | skipped id' index =>
      refine ⟨?_, ?_, ?_, fun rest => rfl, ?_⟩ <;>
        simp [Visit.entered?, Visit.left?, Visit.isLeaf, Visit.path?, hrule, hv]

theorem covers_no_visit {id : Nat} (hrule : ruleAt nodes id = false)
    (hv : leafVisit? nodes tokens id = none) : Covers nodes tokens ancestors [id] [] := by
  refine ⟨?_, ?_, ?_, fun rest => rfl, ?_⟩ <;> simp [hrule, hv]

theorem leafVisit?_of_ruleAt {id : Nat} (h : ruleAt nodes id = true) :
    leafVisit? nodes tokens id = none := by
  unfold ruleAt at h
  unfold leafVisit?
  split at h
  case h_1 rule hrule => rw [hrule]
  case h_2 => cases h

/-- A node of a rule is entered before its parts are walked and left after. -/
theorem Covers.node {id : Nat} {below : List Nat} {visits : List Visit}
    (h : Covers nodes tokens (id :: ancestors) below visits) (hrule : ruleAt nodes id = true)
    (hpath : IsPath nodes (id :: ancestors)) :
    Covers nodes tokens ancestors (id :: below)
      (.enter id ancestors :: (visits ++ [.leave id ancestors])) where
  entered := by
    rw [List.filterMap_cons, List.filterMap_append, List.filter_cons, if_pos hrule, h.entered]
    exact congrArg (id :: ·) (List.append_nil _)
  left := by
    rw [List.filterMap_cons, List.filterMap_append, List.filter_cons, if_pos hrule]
    exact (List.perm_append_singleton _ _).trans (h.left.cons id)
  leaves := by
    rw [List.filterMap_cons_none (leafVisit?_of_ruleAt hrule), ← h.leaves, List.filter_cons,
      List.filter_append]
    exact List.append_nil _
  nested rest := by
    show Visit.follow (.enter id ancestors :: (visits ++ [.leave id ancestors] ++ rest)) _ = _
    rw [Visit.follow, if_pos rfl, List.append_assoc, h.nested]
    show Visit.follow (.leave id ancestors :: rest) _ = _
    rw [Visit.follow, if_pos rfl]
  paths v hv path hv' := by
    rcases List.mem_cons.1 hv with rfl | hv
    · cases hv'
      exact hpath
    · rcases List.mem_append.1 hv with hv | hv
      · exact h.paths v hv path hv'
      · rw [List.mem_singleton.1 hv] at hv'
        cases hv'
        exact hpath

variable (tokens)

mutual

/-- A walk from the node of a stored tree covers the positions of the tree. -/
theorem walkNode_covers {t : Tree} {id : Nat} {ids : List Nat} (h : StoredAt nodes t id ids)
    {fuel : Nat} (hfuel : ids.length ≤ fuel) {ancestors : List Nat}
    (hpath : IsPath nodes (id :: ancestors)) :
    ∃ visits, walkNode nodes tokens fuel ancestors id = some visits ∧
      Covers nodes tokens ancestors ids visits := by
  cases fuel with
  | zero =>
      rw [h.ids_eq] at hfuel
      exact absurd hfuel (Nat.not_succ_le_zero _)
  | succ fuel =>
      cases h with
      | @token id index h =>
          refine ⟨_, by rw [walkNode, h]; rfl, ?_⟩
          have hrule : ruleAt nodes id = false := by rw [ruleAt, h]; rfl
          split
          case isTrue hlt => exact covers_visit rfl hrule (by rw [leafVisit?, h]; exact if_pos hlt)
          case isFalse hlt => exact covers_no_visit hrule (by rw [leafVisit?, h]; exact if_neg hlt)
      | @skipped id index h =>
          refine ⟨_, by rw [walkNode, h]; rfl, ?_⟩
          have hrule : ruleAt nodes id = false := by rw [ruleAt, h]; rfl
          split
          case isTrue hlt => exact covers_visit rfl hrule (by rw [leafVisit?, h]; exact if_pos hlt)
          case isFalse hlt => exact covers_no_visit hrule (by rw [leafVisit?, h]; exact if_neg hlt)
      | node h hparts =>
          -- the parts use fewer positions than the node, so the bound is enough for them
          obtain ⟨visits, hvisits, hcovers⟩ :=
            mapM_walkNode_covers hparts (Nat.le_of_succ_le_succ hfuel) fun part hpart =>
              show IsPath nodes (part :: id :: ancestors) from
                ⟨by rw [PartOf, partsAt_of_getElem? h]; exact hpart, hpath⟩
          refine ⟨_, by rw [walkNode, h]; dsimp only; rw [hvisits]; rfl, hcovers.node ?_ hpath⟩
          rw [ruleAt, h]
          rfl

theorem mapM_walkNode_covers {ts : List Tree} {parts ids : List Nat}
    (h : StoredAll nodes ts parts ids) {fuel : Nat} (hfuel : ids.length ≤ fuel)
    {ancestors : List Nat} (hpath : ∀ part ∈ parts, IsPath nodes (part :: ancestors)) :
    ∃ visits, parts.mapM (walkNode nodes tokens fuel ancestors) = some visits ∧
      Covers nodes tokens ancestors ids visits.flatten := by
  cases h with
  | nil => exact ⟨[], rfl, covers_nil⟩
  | cons h hrest =>
      rw [List.length_append] at hfuel
      obtain ⟨visits, hvisits, hcovers⟩ :=
        walkNode_covers h (Nat.le_trans (Nat.le_add_right _ _) hfuel) (hpath _ List.mem_cons_self)
      obtain ⟨rest, hrest', hcovers'⟩ :=
        mapM_walkNode_covers hrest (Nat.le_trans (Nat.le_add_left _ _) hfuel) fun part hpart =>
          hpath part (List.mem_cons_of_mem _ hpart)
      refine ⟨visits :: rest, ?_, hcovers.append hcovers'⟩
      rw [List.mapM_cons, hvisits, hrest']
      rfl

end

end Covering

/-- A walk over a rooted arena ends and visits the whole arena. -/
theorem Rooted.walk {t : Tree} {a : Arena} (h : a.Rooted t) (tokens : Array Token) :
    ∃ visits, a.walk tokens = some visits ∧ a.Walks tokens visits := by
  obtain ⟨ids, hids, hperm⟩ := h.stored
  -- the tree uses every position once, so the number of nodes bounds the walk
  have hsize : ids.length = a.nodes.size := by rw [hperm.length_eq, List.length_range]
  have hpath : IsPath a.nodes [0] := rfl
  obtain ⟨visits, hvisits, hcovers⟩ := walkNode_covers tokens hids (Nat.le_of_eq hsize) hpath
  have hne : a.nodes.isEmpty = false := by
    have hpos := h.isTree.nonempty
    rw [Array.isEmpty_eq_false_iff]
    rintro hempty
    rw [hempty] at hpos
    cases hpos
  refine ⟨visits, ?_, ?_, ?_, ?_, ?_, hcovers.paths⟩
  · rw [Arena.walk, hne]
    exact hvisits
  · rw [hcovers.entered]
    exact hperm.filter _
  · exact hcovers.left.trans (hperm.filter _)
  · rw [hcovers.leaves]
    exact hperm.filterMap _
  · have hnested := hcovers.nested []
    rwa [List.append_nil] at hnested

end MySqlAnalysis.Arena
