import MySqlAnalysis.Proofs.Grammar.Bodies
import MySqlAnalysis.Proofs.Grammar.Facts

/-!
# Identifiers and literals

An identifier that was tried is one token or nothing at all, and a literal has a
token as soon as it has a part (`parse_filled`). For literals this is read off the
program: what decides for an alternative leaves no way to refuse the first token
of it (`Program.grasps`).
-/

set_option autoImplicit false

namespace MySqlAnalysis.Grammar

variable {φ : Type}

/-! ### Programs that read at once -/

/-- Whether a program, where the facts hold, reads a token before it stops or
finishes. Without `strict` it may also refuse the first token, with no part added
before; and it may finish without reading where `rest` accepts what is known. -/
def Program.grasps (strict : Bool) : Program φ → Facts → (rest : Facts → Bool) → Bool
  | done, k, rest => rest k
  | advance, _, _ => true
  | refuse _, _, _ => !strict
  | seq p q, k, rest => p.grasps strict k fun k => q.grasps strict k rest
  | cond t p q, k, rest =>
    ((t.facts true ++ k).impossible || p.grasps strict (t.facts true ++ k) rest) &&
      ((t.facts false ++ k).impossible || q.grasps strict (t.facts false ++ k) rest)
  | node _ p, k, _ => p.grasps true k fun _ => false
  | _, _, _ => false

/-- What a program that reads at once comes to from the state `s`. -/
inductive Grasps (c : Context) (strict : Bool) (rest : Facts → Bool) (s : State (List Tree)) :
    Outcome (List Tree) → Prop
  | reads {o : Outcome (List Tree)} :
      (Tree.leavesAll s.built).length < (Tree.leavesAll o.state.built).length →
        Grasps c strict rest s o
  | refuses {why : Abort} {s' : State (List Tree)} : strict = false → s'.built = s.built →
      Grasps c strict rest s (.aborted why s')
  | rests {s' : State (List Tree)} {k : Facts} : s'.ahead = s.ahead → s'.built = s.built →
      k.Hold c s.ahead → rest k = true → Grasps c strict rest s (.finished s')

/-- Only the tokens ahead and what was built matter. -/
theorem Grasps.of_start_eq {c : Context} {strict : Bool} {rest : Facts → Bool}
    {s s' : State (List Tree)} {o : Outcome (List Tree)} (h : Grasps c strict rest s' o)
    (hahead : s'.ahead = s.ahead) (hbuilt : s'.built = s.built) : Grasps c strict rest s o := by
  cases h with
  | reads hlt => exact .reads (hbuilt ▸ hlt)
  | refuses hstrict hsame => exact .refuses hstrict (hsame.trans hbuilt)
  | rests hahead' hsame hk hrest =>
      exact .rests (hahead'.trans hahead) (hsame.trans hbuilt) (hahead ▸ hk) hrest

theorem State.Grows.length_le {s s' : State (List Tree)} (h : s.Grows s') :
    (Tree.leavesAll s.built).length ≤ (Tree.leavesAll s'.built).length :=
  List.IsPrefix.length_le h

theorem exec_grasps {c : Context} {rules : φ → Program φ} {fuel : Nat} (p : Program φ) :
    ∀ (strict : Bool) (k : Facts) (rest : Facts → Bool) (r : Reaction) (s : State (List Tree)),
      p.grasps strict k rest = true → k.Hold c s.ahead →
        Grasps c strict rest s (exec c rules (run c rules fuel) r p s) := by
  induction p with
  | done => exact fun strict k rest r s h hk => .rests rfl rfl hk h
  | advance =>
      intro strict k rest r s h hk
      refine .reads ?_
      simp [exec, State.consume, State.shift, Builder.token, Tree.leaves]
  | refuse why =>
      intro strict k rest r s h hk
      have hstrict : strict = false := by
        simpa [Program.grasps] using h
      cases why <;> cases r <;> exact .refuses hstrict rfl
  | seq p q ihp ihq =>
      intro strict k rest r s h hk
      have hp := ihp strict k _ r s h hk
      rw [exec]
      cases ho : exec c rules (run c rules fuel) r p s with
      | aborted why s' =>
          rw [ho] at hp
          cases hp with
          | reads hlt => exact .reads hlt
          | refuses hstrict hbuilt => exact .refuses hstrict hbuilt
      | finished s' =>
          rw [ho] at hp
          cases hp with
          | reads hlt =>
              -- what was read stays in front of what the second program reads
              exact .reads (Nat.lt_of_lt_of_le hlt
                (exec_grows (run_grows c rules fuel) q r s').length_le)
          | rests hahead hbuilt hk' hrest =>
              exact (ihq strict _ rest r s' hrest (hahead ▸ hk')).of_start_eq hahead hbuilt
  | cond t p q ihp ihq =>
      intro strict k rest r s h hk
      rw [Program.grasps, Bool.and_eq_true] at h
      rw [exec]
      split
      case h_1 expected heval =>
        have hfacts : (t.facts true ++ k).Hold c s.ahead :=
          Facts.hold_append.2 ⟨t.facts_hold s.expected true (by rw [heval]), hk⟩
        have hp := ihp strict _ rest r { s with expected }
          ((Bool.or_eq_true_iff.1 h.1).resolve_left fun himp =>
            Facts.not_hold_of_impossible himp hfacts) hfacts
        exact hp.of_start_eq rfl rfl
      case h_2 expected heval =>
        have hfacts : (t.facts false ++ k).Hold c s.ahead :=
          Facts.hold_append.2 ⟨t.facts_hold s.expected false (by rw [heval]), hk⟩
        have hq := ihq strict _ rest r { s with expected }
          ((Bool.or_eq_true_iff.1 h.2).resolve_left fun himp =>
            Facts.not_hold_of_impossible himp hfacts) hfacts
        exact hq.of_start_eq rfl rfl
  | node rule p ih =>
      intro strict k rest r s h hk
      have hp := ih true k _ r (s.enter c rule) h hk
      -- the body must read, so the node has a leaf
      have hlt : 0 < (Tree.leavesAll
          (exec c rules (run c rules fuel) r p (s.enter c rule)).state.built).length := by
        generalize exec c rules (run c rules fuel) r p (s.enter c rule) = o at hp
        cases hp with
        | reads hlt => exact Nat.lt_of_le_of_lt (Nat.zero_le _) hlt
        | refuses hstrict hbuilt => cases hstrict
        | rests hahead hbuilt hk' hrest => cases hrest
      refine .reads ?_
      rw [exec, Outcome.state_map, State.leave]
      simpa [Builder.leave] using hlt
  | _ =>
      intro strict k rest r s h hk
      cases h

/-! ### The two rules -/

/-- Whether a program reads one token or none. -/
def Program.isTerminal : Program φ → Bool
  | cond _ advance (refuse _) => true
  | _ => false

theorem exec_isTerminal {c : Context} {rules : φ → Program φ}
    {recur : Reaction → Program φ → State (List Tree) → Outcome (List Tree)} {p : Program φ}
    (h : p.isTerminal = true) (r : Reaction) {s : State (List Tree)} (hs : s.built = []) :
    (exec c rules recur r p s).state.built = [] ∨
      ∃ i, (exec c rules recur r p s).state.built = [.token i] := by
  unfold Program.isTerminal at h
  split at h
  · next t why =>
    rw [exec]
    split
    · right
      exact ⟨_, by simp [exec, State.consume, State.shift, Builder.token, hs]; rfl⟩
    · left
      rw [exec]
      cases why <;> cases r <;> exact hs
  · cases h

/-- An identifier is one token or nothing; a literal with a part has a token. -/
def Filled (rule : Rule) (parts : List Tree) : Prop :=
  (rule = .identifier → parts = [] ∨ ∃ i, parts = [.token i]) ∧
    (rule = .literal → parts = [] ∨ Tree.leavesAll parts ≠ [])

/-- The check of a body that comes to it. -/
def fills (rule : Rule) (p : Fragment) : Bool :=
  (rule != .identifier || p.isTerminal) &&
    (rule != .literal || p.grasps false [] fun _ => true)

theorem grammar_fills (phrase : Phrase) :
    (grammar phrase).everyNode fills
      (fun rule => rule != .identifier && rule != .literal) = true := by
  cases phrase with
  | frame depth => cases depth <;> rfl
  | alterTokens depth => cases depth <;> rfl
  | _ => rfl

/-- The identifiers and literals of every parse tree. -/
theorem parse_filled (o : Options) (start : StartRule) (tokens : List Token) :
    ∀ t ∈ (parse o start tokens).root, t.Every Filled := by
  refine parse_every grammar_fills (fun start => by cases start <;> rfl) ?_ ?_ o start tokens
  · intro c fuel rule p r s h
    rw [fills, Bool.and_eq_true] at h
    constructor
    · rintro rfl
      exact exec_isTerminal h.1 r rfl
    · rintro rfl
      have hgrasps : Grasps c false (fun _ => true) (s.enter c .literal)
          (exec c grammar (run c grammar fuel) r p (s.enter c .literal)) :=
        exec_grasps p false [] _ r (s.enter c .literal) h.2 Facts.hold_nil
      generalize exec c grammar (run c grammar fuel) r p (s.enter c .literal) = o at hgrasps
      cases hgrasps with
      | reads hlt =>
          right
          intro hnil
          rw [hnil] at hlt
          exact Nat.not_lt_zero _ hlt
      | refuses hstrict hbuilt => exact .inl hbuilt
      | rests hahead hbuilt hk hrest => exact .inl hbuilt
  · intro rule parts h
    rw [Bool.and_eq_true, bne_iff_ne, bne_iff_ne] at h
    exact ⟨fun heq => absurd heq h.1, fun heq => absurd heq h.2⟩

end MySqlAnalysis.Grammar
