import MySqlAnalysis.Grammar.Parse
import MySqlAnalysis.Proofs.Grammar.Reaction
import MySqlAnalysis.Proofs.Tree.Places

/-!
# Parts that a node has only once

How many parts of a rule a program can add to the open node is bounded by its
text (`Program.adds`). A program that opens every node around a body with a bound
of one builds trees in which no node has two parts of the rule (`run_single`). So
it is with the aliases of tables and of select items, whatever tokens are read
(`parse_single`).
-/

set_option autoImplicit false

namespace MySqlAnalysis.Grammar

variable {φ : Type}

namespace Program

/-- A bound for the parts of a rule that a program adds to the open node, when its
loops add none and phrases add none. -/
def adds (rule : Rule) : Program φ → Nat
  | seq p q => p.adds rule + q.adds rule
  | cond _ p q => max (p.adds rule) (q.adds rule)
  | loop _ p => p.adds rule
  | node r _ => if r = rule then 1 else 0
  | wrap r _ => if r = rule then 1 else 0
  | attempt p q => max (p.adds rule) (q.adds rule)
  | resume p => p.adds rule
  | _ => 0

/-- Whether a program opens nodes only around bodies that add at most one part of
the rule, and repeats nothing that adds one. -/
def single (rule : Rule) : Program φ → Bool
  | seq p q => p.single rule && q.single rule
  | cond _ p q => p.single rule && q.single rule
  | loop _ p => p.single rule && p.adds rule == 0
  | node _ p => p.single rule && p.adds rule ≤ 1
  | wrap _ p => p.single rule && p.adds rule == 0
  | attempt p q => p.single rule && q.single rule
  | resume p => p.single rule
  | _ => true

end Program

/-! ### What a run adds -/

/-- From the first list of trees to the second, at most `n` trees of the rule were
added, and nodes still have no two parts of it. -/
structure Adds (rule : Rule) (n : Nat) (before after : List Tree) : Prop where
  count : after.countP (·.isRule rule) ≤ before.countP (·.isRule rule) + n
  keeps : (∀ t ∈ before, t.Single rule) → ∀ t ∈ after, t.Single rule

namespace Adds

variable {rule : Rule} {m n : Nat} {a b c : List Tree}

theorem refl (a : List Tree) : Adds rule n a a := ⟨Nat.le_add_right _ _, fun h => h⟩

theorem trans (h : Adds rule m a b) (h' : Adds rule n b c) : Adds rule (m + n) a c where
  count := by
    have h₁ := h.count
    have h₂ := h'.count
    omega
  keeps hs := h'.keeps (h.keeps hs)

theorem mono (h : Adds rule m a b) (hmn : m ≤ n) : Adds rule n a b where
  count := by
    have h₁ := h.count
    omega
  keeps := h.keeps

theorem leaf {t : Tree} (ht : t.tokenIndex?.isSome = true) :
    Adds rule n a (a ++ [t]) where
  count := by
    have hleaf : t.isRule rule = false := by
      cases t with
      | node r first last parts => cases ht
      | _ => rfl
    simp [List.countP_append, hleaf]
  keeps hs u hu := by
    rcases List.mem_append.1 hu with hu | hu
    · exact hs u hu
    · rw [List.mem_singleton.1 hu]
      cases t with
      | token index => exact .token index
      | skipped index => exact .skipped index
      | node r first last parts => cases ht

/-- Closing a node whose parts the rule occurs in at most once. -/
theorem close {r : Rule} {first : Nat} {last : Option Nat} {parts : List Tree}
    (hbefore : b.countP (·.isRule rule) ≤ a.countP (·.isRule rule)) (hsub : b ⊆ a)
    (hcount : parts.countP (·.isRule rule) ≤ 1)
    (hparts : (∀ t ∈ a, t.Single rule) → ∀ t ∈ parts, t.Single rule) :
    Adds rule (if r = rule then 1 else 0) a (b ++ [.closed r first last parts]) where
  count := by
    have hnode : (Tree.closed r first last parts).isRule rule = true ↔ r = rule := by
      simp [Tree.closed, Tree.isRule, Tree.rule?]
    rw [List.countP_append, List.countP_singleton]
    simp only [hnode]
    omega
  keeps hs u hu := by
    rcases List.mem_append.1 hu with hu | hu
    · exact hs u (hsub hu)
    · rw [List.mem_singleton.1 hu]
      exact .node r _ _ hcount (hparts hs)

end Adds

/-- The trees of an outcome are those of a state and at most `n` more of the rule. -/
def Outcome.AddsTo (rule : Rule) (n : Nat) (s : State (List Tree))
    (o : Outcome (List Tree)) : Prop :=
  Adds rule n s.built o.state.built

section Moves

variable {rule : Rule} {c : Context} {s : State (List Tree)}

theorem consume_adds : Adds rule 0 s.built (s.consume c).built :=
  .leaf rfl

theorem skip_adds : Adds rule 0 s.built (s.skip c).built :=
  .leaf rfl

theorem skipUpTo_adds (n : Nat) :
    ∀ s : State (List Tree), Adds rule 0 s.built (State.skipUpTo c n s).built := by
  induction n with
  | zero => exact fun s => .refl s.built
  | succ n ih =>
      intro s
      rw [State.skipUpTo]
      split
      · exact .refl s.built
      · exact skip_adds.trans (ih (s.skip c))

theorem refuse_adds (r : Reaction) (why : Refusal) : (s.refuse c r why).AddsTo rule 0 s := by
  cases why <;> cases r <;> exact .refl s.built

theorem expect_adds (r : Reaction) (kind : TokenKind) :
    (s.expect c r kind).AddsTo rule 0 s := by
  unfold State.expect
  dsimp only
  split_ifs
  · exact .leaf rfl
  · -- the deleted token and the required one are both leaves
    have hskip : Adds rule 0 s.built
        (State.skip (State.report { s with expected := noteKind s.expected kind } c .extraneous)
          c).built :=
      skip_adds (s := State.report { s with expected := noteKind s.expected kind } c .extraneous)
    exact hskip.trans consume_adds
  · exact .refl s.built
  · cases r <;> exact .refl s.built

/-- A node closed over parts that it has opened. -/
theorem leave_adds (r : Rule) {n : Nat} {s' : State (List Tree)} (h : Adds rule n [] s'.built)
    (hn : n ≤ 1) : Adds rule (if r = rule then 1 else 0) s.built (State.leave c r s s').built := by
  have hcount := h.count
  rw [List.countP_nil, Nat.zero_add] at hcount
  exact .close (Nat.le_refl _) (List.Subset.refl _) (Nat.le_trans hcount hn)
    fun _ => h.keeps fun t ht => absurd ht List.not_mem_nil

/-- A node closed around the last part of before. -/
theorem leaveAround_adds (r : Rule) {s' : State (List Tree)}
    (h : Adds rule 0 s.built.getLast?.toList s'.built) :
    Adds rule (if r = rule then 1 else 0) s.built (State.leaveAround c r s s').built := by
  have hlast : s.built.getLast?.toList.countP (·.isRule rule) ≤ 1 :=
    Nat.le_trans List.countP_le_length (by cases s.built.getLast? <;> simp)
  have hsub : s.built.getLast?.toList ⊆ s.built := by
    intro t ht
    exact List.mem_of_getLast? (Option.mem_toList.1 ht)
  exact .close (List.dropLast_sublist _).countP_le (List.dropLast_subset _)
    (Nat.le_trans h.count hlast) fun hs => h.keeps fun t ht => hs t (hsub ht)

end Moves

/-! ### Programs -/

section Programs

variable {rule : Rule} {c : Context} {rules : φ → Program φ}
  {recur : Reaction → Program φ → State (List Tree) → Outcome (List Tree)}

theorem Outcome.state_map (o : Outcome (List Tree))
    (f : State (List Tree) → State (List Tree)) : (o.map f).state = f o.state := by
  cases o <;> rfl

theorem Outcome.AddsTo.andThen {m n : Nat} {s : State (List Tree)} {o : Outcome (List Tree)}
    {f : State (List Tree) → Outcome (List Tree)} (h : o.AddsTo rule m s)
    (hf : ∀ s', (f s').AddsTo rule n s') : (o.andThen f).AddsTo rule (m + n) s := by
  cases o with
  | finished s' => exact Adds.trans h (hf s')
  | aborted why s' => exact Adds.mono h (Nat.le_add_right _ _)

/-- A program adds as many parts as its text allows when everything that it calls does. -/
theorem exec_adds
    (hrules : ∀ phrase, (rules phrase).single rule = true ∧ (rules phrase).adds rule = 0)
    (hrecur : ∀ r p s, p.single rule = true → (recur r p s).AddsTo rule (p.adds rule) s)
    (p : Program φ) :
    ∀ (r : Reaction) (s : State (List Tree)), p.single rule = true →
      (exec c rules recur r p s).AddsTo rule (p.adds rule) s := by
  induction p with
  | done => exact fun r s h => .refl s.built
  | advance => exact fun r s h => consume_adds
  | expect kind => exact fun r s h => expect_adds r kind
  | refuse why => exact fun r s h => refuse_adds r why
  | seq p q ihp ihq =>
      intro r s h
      rw [Program.single, Bool.and_eq_true] at h
      exact (ihp r s h.1).andThen fun s' => ihq r s' h.2
  | cond t p q ihp ihq =>
      intro r s h
      rw [Program.single, Bool.and_eq_true] at h
      rw [exec]
      cases t.eval c s.ahead s.expected with
      | mk answer expected =>
          cases answer with
          | true => exact Adds.mono (ihp r { s with expected } h.1) (Nat.le_max_left _ _)
          | false => exact Adds.mono (ihq r { s with expected } h.2) (Nat.le_max_right _ _)
  | loop t p ih =>
      intro r s h
      have hloop := h
      rw [Program.single, Bool.and_eq_true, beq_iff_eq] at h
      rw [exec, Program.adds, h.2]
      cases t.eval c s.ahead s.expected with
      | mk answer expected =>
          cases answer with
          | true =>
              -- a round adds nothing, and neither do the rounds after it
              have hround := ih r { s with expected } h.1
              rw [h.2] at hround
              refine Outcome.AddsTo.andThen (m := 0) (n := 0) hround fun s' => ?_
              have hrest := hrecur r (.loop t p) s' hloop
              rwa [Program.adds, h.2] at hrest
          | false => exact .refl s.built
  | node r' p ih =>
      intro r s h
      rw [Program.single, Bool.and_eq_true, decide_eq_true_eq] at h
      rw [exec, Outcome.AddsTo, Outcome.state_map]
      exact leave_adds r' (ih r (s.enter c r') h.1) h.2
  | wrap r' p ih =>
      intro r s h
      rw [Program.single, Bool.and_eq_true, beq_iff_eq] at h
      have hbody := ih r (s.enterAround c r') h.1
      rw [h.2] at hbody
      rw [exec, Outcome.AddsTo, Outcome.state_map]
      exact leaveAround_adds r' hbody
  | attempt p q ihp ihq =>
      intro r s h
      rw [Program.single, Bool.and_eq_true] at h
      have hp := ihp .backtrack s h.1
      rw [exec]
      cases ho : exec c rules recur .backtrack p s with
      | finished s' =>
          rw [ho] at hp
          exact Adds.mono hp (Nat.le_max_left _ _)
      | aborted why s' =>
          rw [ho] at hp
          -- the attempt is taken back, so only the other alternative adds
          have hq : (exec c rules recur r q (s.undo s')).AddsTo rule (q.adds rule) s :=
            ihq r (s.undo s') h.2
          cases why with
          | exhausted => exact Adds.mono hp (Nat.le_max_left _ _)
          | cancelled token => exact Adds.mono hq (Nat.le_max_right _ _)
          | resync => exact Adds.mono hq (Nat.le_max_right _ _)
          | backtrack => exact Adds.mono hq (Nat.le_max_right _ _)
  | resume p ih =>
      intro r s h
      have hp := ih r s h
      rw [exec]
      split
      case h_1 s' ho =>
        rw [ho] at hp
        exact Adds.trans hp (skipUpTo_adds _ s')
      case h_2 => exact hp
  | call phrase =>
      intro r s h
      have hbody := hrecur r (rules phrase) s (hrules phrase).1
      rwa [(hrules phrase).2] at hbody

/-- Every run adds as many parts of the rule as the text of its program allows. -/
theorem run_adds (c : Context)
    (hrules : ∀ phrase, (rules phrase).single rule = true ∧ (rules phrase).adds rule = 0)
    (fuel : Nat) :
    ∀ (r : Reaction) (p : Program φ) (s : State (List Tree)), p.single rule = true →
      (run c rules fuel r p s).AddsTo rule (p.adds rule) s := by
  induction fuel with
  | zero => exact fun r p s h => .refl s.built
  | succ fuel ih => exact fun r p s h => exec_adds hrules ih p r s h

end Programs

/-! ### Aliases -/

/-- The rules of which a node has at most one part. -/
def aliasRules : List Rule := [.tableAlias, .selectAlias]

/-- No phrase adds an alias to the open node, and no node gets two. -/
theorem grammar_single {rule : Rule} (h : rule ∈ aliasRules) (phrase : Phrase) :
    (grammar phrase).single rule = true ∧ (grammar phrase).adds rule = 0 := by
  simp only [aliasRules, List.mem_cons, List.not_mem_nil, or_false] at h
  rcases h with rfl | rfl
  all_goals
    cases phrase with
    | frame depth => cases depth <;> exact ⟨rfl, rfl⟩
    | alterTokens depth => cases depth <;> exact ⟨rfl, rfl⟩
    | _ => exact ⟨rfl, rfl⟩

/-- No node of a parse tree has two aliases of one kind. -/
theorem parse_single (o : Options) (start : StartRule) (tokens : List Token) {rule : Rule}
    (h : rule ∈ aliasRules) : ∀ t ∈ (parse o start tokens).root, t.Single rule := by
  intro t ht
  have hstart : start.program.single rule = true := by
    cases start <;> rfl
  have hrun := run_adds (contextOf o tokens) (grammar_single h) (fuelFor tokens)
    o.strategy.reaction start.program (.initial tokens) hstart
  have hmem : t ∈ (outcomeOf o start tokens).state.built := List.mem_of_head? ht
  exact hrun.keeps (fun u hu => absurd hu List.not_mem_nil) t hmem

end MySqlAnalysis.Grammar
