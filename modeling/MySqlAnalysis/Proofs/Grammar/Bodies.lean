import MySqlAnalysis.Proofs.Grammar.Preorder
import MySqlAnalysis.Proofs.Grammar.Reading
import MySqlAnalysis.Proofs.Tree.Lineage

/-!
# The bodies of nodes

A condition on the rule and the parts of a node can be checked at the places
where programs open nodes (`Program.everyNode`). When it holds of every body that
passes the check, it holds of every node of every tree that is built
(`run_every`). Whatever a program does, the leaves that were there stay in front
(`run_grows`).
-/

set_option autoImplicit false

namespace MySqlAnalysis.Grammar

variable {φ : Type}

/-- Whether the bodies of all nodes pass a check and all nodes that are opened
around a part have one of the given rules. -/
def Program.everyNode (body : Rule → Program φ → Bool) (around : Rule → Bool) : Program φ → Bool
  | seq p q => p.everyNode body around && q.everyNode body around
  | cond _ p q => p.everyNode body around && q.everyNode body around
  | loop _ p => p.everyNode body around
  | node r p => p.everyNode body around && body r p
  | wrap r p => p.everyNode body around && around r
  | attempt p q => p.everyNode body around && q.everyNode body around
  | resume p => p.everyNode body around
  | _ => true

/-! ### Leaves stay -/

section Grows

variable {c : Context} {rules : φ → Program φ}
  {recur : Reaction → Program φ → State (List Tree) → Outcome (List Tree)}

/-- The leaves of the first state are the first leaves of the second. -/
def State.Grows (s s' : State (List Tree)) : Prop :=
  Tree.leavesAll s.built <+: Tree.leavesAll s'.built

theorem State.grows_leafPreorder :
    LeafPreorder fun ts ts' => Tree.leavesAll ts <+: Tree.leavesAll ts' where
  refl _ := List.prefix_rfl
  trans h h' := h.trans h'
  token _ _ := by
    rw [Tree.leavesAll_append]
    exact List.prefix_append _ _
  skipped _ _ := by
    rw [Tree.leavesAll_append]
    exact List.prefix_append _ _

/-- Leaves stay in front when everything that a program calls keeps them there. -/
theorem exec_grows
    (hrecur : ∀ (r : Reaction) (p : Program φ) (s : State (List Tree)),
      s.Grows (recur r p s).state) (p : Program φ) (r : Reaction) (s : State (List Tree)) :
    s.Grows (exec c rules recur r p s).state := by
  have hall : Program.Hereditary fun _ : Program φ => True :=
    ⟨fun _ => ⟨trivial, trivial⟩, fun _ => ⟨trivial, trivial⟩, fun _ => trivial,
      fun _ => ⟨trivial, trivial⟩, fun _ => trivial⟩
  refine exec_relates State.grows_leafPreorder hall ?_ ?_ (fun t p _ r s => hrecur r _ s)
    (fun phrase _ r s => hrecur r _ s) p trivial r s
  · intro rule p _ _ r s
    rw [exec, Outcome.state_map, State.leave]
    exact ⟨_, (Tree.leavesAll_append _ _).symm⟩
  · intro rule p _ ih r s
    have hp : Tree.leavesAll s.built.getLast?.toList <+: _ := ih trivial r (s.enterAround c rule)
    rw [exec, Outcome.state_map, State.leaveAround]
    dsimp only [Builder.leaveAround]
    -- the part that the node is opened around keeps its leaves
    rw [Tree.leavesAll_append, Tree.leavesAll_singleton, Tree.leaves_closed,
      ← Tree.leavesAll_dropLast_append s.built]
    exact (List.prefix_append_right_inj _).2 hp

/-- Leaves stay in front during every run. -/
theorem run_grows (c : Context) (rules : φ → Program φ) (fuel : Nat) :
    ∀ (r : Reaction) (p : Program φ) (s : State (List Tree)),
      s.Grows (run c rules fuel r p s).state := by
  induction fuel with
  | zero => exact fun r p s => List.prefix_rfl
  | succ fuel ih => exact fun r p s => exec_grows ih p r s

end Grows

/-! ### Nodes of a condition -/

/-- The trees of the second list satisfy a condition at every node if those of the
first do. -/
def KeepsEvery (P : Rule → List Tree → Prop) (before after : List Tree) : Prop :=
  (∀ t ∈ before, t.Every P) → ∀ t ∈ after, t.Every P

namespace KeepsEvery

variable {P : Rule → List Tree → Prop} {a b : List Tree}

/-- A tree is added behind some of the others. -/
theorem concat {t : Tree} (hsub : b ⊆ a) (ht : (∀ u ∈ a, u.Every P) → t.Every P) :
    KeepsEvery P a (b ++ [t]) := by
  intro ha u hu
  rcases List.mem_append.1 hu with hu | hu
  · exact ha u (hsub hu)
  · rw [List.mem_singleton.1 hu]
    exact ht ha

theorem leafPreorder : LeafPreorder (KeepsEvery P) where
  refl _ := id
  trans h h' := h' ∘ h
  token _ i := .concat (List.Subset.refl _) fun _ => .token i
  skipped _ i := .concat (List.Subset.refl _) fun _ => .skipped i

end KeepsEvery

section Every

variable {c : Context} {rules : φ → Program φ} {P : Rule → List Tree → Prop}
  {body : Rule → Program φ → Bool} {around : Rule → Bool}
  {recur : Reaction → Program φ → State (List Tree) → Outcome (List Tree)}

/-- The check is handed down to all parts of a program. -/
theorem everyNode_hereditary :
    Program.Hereditary fun p : Program φ => p.everyNode body around = true where
  seq h := Bool.and_eq_true_iff.1 h
  cond h := Bool.and_eq_true_iff.1 h
  loop h := h
  attempt h := Bool.and_eq_true_iff.1 h
  resume h := h

/-- A checked program keeps the condition when everything that it calls does. -/
theorem exec_every (hrules : ∀ phrase, (rules phrase).everyNode body around = true)
    (hbody : ∀ (rule : Rule) (p : Program φ) (r : Reaction) (s : State (List Tree)),
      body rule p = true → P rule (exec c rules recur r p (s.enter c rule)).state.built)
    (haround : ∀ rule parts, around rule = true → P rule parts)
    (hrecur : ∀ (r : Reaction) (p : Program φ) (s : State (List Tree)),
      p.everyNode body around = true → KeepsEvery P s.built (recur r p s).state.built)
    (p : Program φ) (r : Reaction) (s : State (List Tree)) (h : p.everyNode body around = true) :
    KeepsEvery P s.built (exec c rules recur r p s).state.built := by
  refine exec_relates KeepsEvery.leafPreorder everyNode_hereditary ?_ ?_
    (fun t p h r s => hrecur r _ s h) (fun phrase _ r s => hrecur r _ s (hrules phrase)) p h r s
  · intro rule p h ih r s
    rw [Program.everyNode, Bool.and_eq_true] at h
    rw [exec, Outcome.state_map]
    refine .concat (List.Subset.refl _) fun _ => .node _ _ (hbody rule p r s h.2) ?_
    exact ih h.1 r (s.enter c rule) fun t ht => absurd ht List.not_mem_nil
  · intro rule p h ih r s
    rw [Program.everyNode, Bool.and_eq_true] at h
    rw [exec, Outcome.state_map]
    refine .concat (List.dropLast_subset _) fun hs => .node _ _ (haround rule _ h.2) ?_
    -- the part that the node is opened around was there before
    refine ih h.1 r (s.enterAround c rule) fun t ht => hs t ?_
    exact List.mem_of_getLast? (Option.mem_toList.1 ht)

/-- Every run keeps a condition that holds of the bodies that pass its check. -/
theorem run_every (c : Context) (hrules : ∀ phrase, (rules phrase).everyNode body around = true)
    (hbody : ∀ (fuel : Nat) (rule : Rule) (p : Program φ) (r : Reaction) (s : State (List Tree)),
      body rule p = true →
        P rule (exec c rules (run c rules fuel) r p (s.enter c rule)).state.built)
    (haround : ∀ rule parts, around rule = true → P rule parts) (fuel : Nat) :
    ∀ (r : Reaction) (p : Program φ) (s : State (List Tree)), p.everyNode body around = true →
      KeepsEvery P s.built (run c rules fuel r p s).state.built := by
  induction fuel with
  | zero => exact fun r p s h => KeepsEvery.leafPreorder.refl s.built
  | succ fuel ih => exact fun r p s h => exec_every hrules (hbody fuel) haround ih p r s h

end Every

/-- The tree of every parse satisfies, at all of its nodes, a condition that holds of
the bodies that pass its check. -/
theorem parse_every {P : Rule → List Tree → Prop} {body : Rule → Fragment → Bool}
    {around : Rule → Bool}
    (hrules : ∀ phrase, (grammar phrase).everyNode body around = true)
    (hstart : ∀ start : StartRule, start.program.everyNode body around = true)
    (hbody : ∀ (c : Context) (fuel : Nat) (rule : Rule) (p : Fragment) (r : Reaction)
      (s : State (List Tree)), body rule p = true →
        P rule (exec c grammar (run c grammar fuel) r p (s.enter c rule)).state.built)
    (haround : ∀ rule parts, around rule = true → P rule parts)
    (o : Options) (start : StartRule) (tokens : List Token) :
    ∀ t ∈ (parse o start tokens).root, t.Every P := by
  intro t ht
  have hmem : t ∈ (outcomeOf o start tokens).state.built := List.mem_of_head? ht
  exact run_every (contextOf o tokens) hrules (hbody _) haround (fuelFor tokens)
    o.strategy.reaction start.program (.initial tokens) (hstart start)
    (fun u hu => absurd hu List.not_mem_nil) t hmem

end MySqlAnalysis.Grammar
