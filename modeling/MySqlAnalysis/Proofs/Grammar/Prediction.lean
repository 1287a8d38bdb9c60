import MySqlAnalysis.Grammar.Script
import MySqlAnalysis.Proofs.Grammar.Reaction

/-!
# Bounded and speculative decisions

A run that decides by a bounded number of tokens commits to the alternative
that a speculative run tries first. When the bounded run bails and still gets
to the end, it met no error on the way; then the attempts of the speculative
run succeed as well, and it ends in the same state, whatever its reaction to
errors is (`run_of_bounded`).

The two runs only have this in common on programs that ask for speculation in
one way: to try what the bounded run commits to. `Program.Resolved` describes
such programs, and all phrases of the grammar have one (`grammar_resolved`).
-/

set_option autoImplicit false

namespace MySqlAnalysis.Grammar

/-! ### Decisions without speculation -/

/-- Whether a look never asks if alternatives are tried speculatively. -/
def Look.plain : Look → Bool
  | .speculates => false
  | .both a b => a.plain && b.plain
  | .either a b => a.plain && b.plain
  | .not a => a.plain
  | _ => true

/-- Whether a test never asks if alternatives are tried speculatively. -/
def Test.plain : Test → Bool
  | .look l => l.plain
  | .both a b => a.plain && b.plain
  | .either a b => a.plain && b.plain
  | .not a => a.plain
  | _ => true

/-- The same context with another way to decide. -/
def Context.deciding (c : Context) (prediction : Prediction) : Context := { c with prediction }

variable (c : Context) (prediction : Prediction) (ahead : List Token)

theorem Look.holds_deciding (l : Look) (hl : l.plain = true) :
    l.holds (c.deciding prediction) ahead = l.holds c ahead := by
  induction l with
  | both a b iha ihb =>
      rw [plain, Bool.and_eq_true] at hl
      rw [holds, holds, iha hl.1, ihb hl.2]
  | either a b iha ihb =>
      rw [plain, Bool.and_eq_true] at hl
      rw [holds, holds, iha hl.1, ihb hl.2]
  | not a ih =>
      rw [plain] at hl
      rw [holds, holds, ih hl]
  | speculates => cases hl
  | _ => rfl

theorem Test.eval_deciding (t : Test) (ht : t.plain = true) (expected : List TokenKind) :
    t.eval (c.deciding prediction) ahead expected = t.eval c ahead expected := by
  induction t generalizing expected with
  | look l => rw [eval, eval, l.holds_deciding c prediction ahead ht]
  | both a b iha ihb =>
      rw [plain, Bool.and_eq_true] at ht
      rw [eval, eval, iha ht.1]
      split
      · exact ihb ht.2 _
      · rfl
  | either a b iha ihb =>
      rw [plain, Bool.and_eq_true] at ht
      rw [eval, eval, iha ht.1]
      split
      · rfl
      · exact ihb ht.2 _
  | not a ih =>
      rw [plain] at ht
      rw [eval, eval, ih ht]
  | _ => rfl

/-! ### Programs -/

namespace Program

variable {φ : Type}

/-- Whether a program neither asks for speculation nor attempts anything. -/
def plain : Program φ → Bool
  | seq p q => p.plain && q.plain
  | cond t p q => t.plain && p.plain && q.plain
  | loop t p => t.plain && p.plain
  | node _ p => p.plain
  | wrap _ p => p.plain
  | attempt _ _ => false
  | resume p => p.plain
  | _ => true

/-- Programs whose attempts resolve a decision that is otherwise taken by a
look: the alternative that is attempted is the one that the look leads to. -/
inductive Resolved : Program φ → Prop
  | done : Resolved done
  | advance : Resolved advance
  | expect (kind : TokenKind) : Resolved (expect kind)
  | refuse (why : Refusal) : Resolved (refuse why)
  | seq {p q : Program φ} : Resolved p → Resolved q → Resolved (seq p q)
  | cond {t : Test} {p q : Program φ} :
      t.plain = true → Resolved p → Resolved q → Resolved (cond t p q)
  | loop {t : Test} {p : Program φ} : t.plain = true → Resolved p → Resolved (loop t p)
  | node (rule : Rule) {p : Program φ} : Resolved p → Resolved (node rule p)
  | wrap (rule : Rule) {p : Program φ} : Resolved p → Resolved (wrap rule p)
  | resume {p : Program φ} : Resolved p → Resolved (resume p)
  | call (phrase : φ) : Resolved (call phrase)
  | choice {l : Look} {p q rest : Program φ} :
      l.plain = true → Resolved p → Resolved rest →
      Resolved (cond (.look (.both l .speculates)) (attempt p q) (cond (.look l) p rest))

theorem resolved_of_plain {p : Program φ} (h : p.plain = true) : Resolved p := by
  induction p with
  | done => exact .done
  | advance => exact .advance
  | expect kind => exact .expect kind
  | refuse why => exact .refuse why
  | seq p q ihp ihq =>
      rw [plain, Bool.and_eq_true] at h
      exact .seq (ihp h.1) (ihq h.2)
  | cond t p q ihp ihq =>
      rw [plain, Bool.and_eq_true, Bool.and_eq_true] at h
      exact .cond h.1.1 (ihp h.1.2) (ihq h.2)
  | loop t p ih =>
      rw [plain, Bool.and_eq_true] at h
      exact .loop h.1 (ih h.2)
  | node rule p ih => exact .node rule (ih h)
  | wrap rule p ih => exact .wrap rule (ih h)
  | attempt p q => cases h
  | resume p ih => exact .resume (ih h)
  | call phrase => exact .call phrase

end Program

/-- A table factor attempts a derived table where the bounded run commits to it. -/
theorem tableFactorBody_resolved : tableFactorBody.Resolved := by
  refine .node _ (.cond rfl (Program.resolved_of_plain rfl) (.cond rfl (.call _) ?_))
  exact .choice rfl (.call _) (Program.resolved_of_plain rfl)

/-- No other phrase asks for speculation. -/
theorem grammar_resolved (phrase : Phrase) : (grammar phrase).Resolved := by
  cases phrase with
  | tableFactor => exact tableFactorBody_resolved
  | frame depth =>
      cases depth with
      | zero => exact Program.resolved_of_plain rfl
      | succ depth => exact Program.resolved_of_plain rfl
  | alterTokens depth =>
      cases depth with
      | zero => exact Program.resolved_of_plain rfl
      | succ depth => exact Program.resolved_of_plain rfl
  | _ => exact Program.resolved_of_plain rfl

/-! ### Runs that meet no error -/

namespace Outcome

variable {β : Type}

theorem andThen_eq_finished {o : Outcome β} {f : State β → Outcome β} {s' : State β}
    (h : o.andThen f = .finished s') : ∃ s, o = .finished s ∧ f s = .finished s' := by
  cases o with
  | finished s => exact ⟨s, rfl, h⟩
  | aborted why s => cases h

theorem map_eq_finished {o : Outcome β} {f : State β → State β} {s' : State β}
    (h : o.map f = .finished s') : ∃ s, o = .finished s ∧ f s = s' := by
  cases o with
  | finished s => exact ⟨s, rfl, Outcome.finished.inj h⟩
  | aborted why s => cases h

end Outcome

section Runs

variable {φ β : Type}

theorem State.fail_ne_finished (c : Context) (r : Reaction) (cause : Cause) (s s' : State β) :
    s.fail c r cause ≠ .finished s' := by
  cases r <;>
    · intro h
      cases h

theorem State.refuse_ne_finished (c : Context) (r : Reaction) (why : Refusal)
    (s s' : State β) : s.refuse c r why ≠ .finished s' := by
  cases why with
  | mismatch => exact s.fail_ne_finished c r _ s'
  | noAlternative starts => exact fail_ne_finished c r _ _ s'
  | gate rule version => exact s.fail_ne_finished c r _ s'

variable [Builder β]

/-- A token that a run that bails accepts is accepted with every reaction. -/
theorem State.expect_of_bail {c : Context} {kind : TokenKind} {s s' : State β}
    (h : s.expect c .bail kind = .finished s') (r : Reaction) :
    s.expect c r kind = .finished s' := by
  unfold expect at h ⊢
  dsimp only at h ⊢
  by_cases hkind : (c.kindAt s.ahead 0 == kind) = true
  · rw [if_pos hkind] at h ⊢
    exact h
  · rw [if_neg hkind, if_neg (by simp), if_neg (by simp)] at h
    exact absurd h (fail_ne_finished c .bail _ _ s')

variable {c : Context} {rules : φ → Program φ}
  {recurB recurS : Reaction → Program φ → State β → Outcome β}

/-- What a bounded run that bails gets through, a speculative run gets through
in the same way. -/
theorem exec_of_bounded (hrules : ∀ phrase, (rules phrase).Resolved)
    (hfollows : ∀ r p s, Follows (c.deciding .bounded) r s (recurB r p s))
    (hrecur : ∀ p, p.Resolved → ∀ s s', recurB .bail p s = .finished s' →
      ∀ r, recurS r p s = .finished s')
    {p : Program φ} (hp : p.Resolved) :
    ∀ s s', exec (c.deciding .bounded) rules recurB .bail p s = .finished s' →
      ∀ r, exec (c.deciding .speculative) rules recurS r p s = .finished s' := by
  induction hp with
  | done => exact fun s s' h r => h
  | advance => exact fun s s' h r => h
  | expect kind => exact fun s s' h r => State.expect_of_bail (c := c) h r
  | refuse why => exact fun s s' h => absurd h (s.refuse_ne_finished _ _ why s')
  | seq _ _ ihp ihq =>
      intro s s' h r
      obtain ⟨s₁, h₁, h₂⟩ := Outcome.andThen_eq_finished h
      rw [exec, ihp s s₁ h₁ r]
      exact ihq s₁ s' h₂ r
  | @cond t p q ht _ _ ihp ihq =>
      intro s s' h r
      rw [exec, t.eval_deciding c _ s.ahead ht] at h ⊢
      cases he : t.eval c s.ahead s.expected with
      | mk answer expected =>
          rw [he] at h
          cases answer with
          | true => exact ihp _ s' h r
          | false => exact ihq _ s' h r
  | @loop t p ht hp ih =>
      intro s s' h r
      rw [exec, t.eval_deciding c _ s.ahead ht] at h ⊢
      cases he : t.eval c s.ahead s.expected with
      | mk answer expected =>
          rw [he] at h
          cases answer with
          | true =>
              obtain ⟨s₁, h₁, h₂⟩ := Outcome.andThen_eq_finished h
              show (exec _ rules recurS r p _).andThen _ = _
              rw [ih _ s₁ h₁ r]
              exact hrecur _ (.loop ht hp) s₁ s' h₂ r
          | false => exact h
  | node rule _ ih =>
      intro s s' h r
      obtain ⟨s₁, h₁, h₂⟩ := Outcome.map_eq_finished h
      have hp := ih _ s₁ h₁ r
      show (exec _ rules recurS r _ (s.enter c rule)).map (State.leave c rule s) = _
      rw [← h₂]
      exact congrArg (Outcome.map · (State.leave c rule s)) hp
  | wrap rule _ ih =>
      intro s s' h r
      obtain ⟨s₁, h₁, h₂⟩ := Outcome.map_eq_finished h
      have hp := ih _ s₁ h₁ r
      show (exec _ rules recurS r _ (s.enterAround c rule)).map (State.leaveAround c rule s) = _
      rw [← h₂]
      exact congrArg (Outcome.map · (State.leaveAround c rule s)) hp
  | @resume p _ ih =>
      intro s s' h r
      rw [exec] at h
      cases ho : exec (c.deciding .bounded) rules recurB .bail p s with
      | finished s₁ =>
          rw [ho] at h
          rw [exec, ih s s₁ ho r]
          exact h
      | aborted why s₁ =>
          rw [ho] at h
          cases why with
          | resync =>
              -- a run that bails never gives up a statement
              have hf : Follows (c.deciding .bounded) .bail s (.aborted .resync s₁) :=
                ho ▸ exec_follows hfollows p .bail s
              cases hf.stops _ _ rfl
          | _ => cases h
  | call phrase => exact fun s s' h r => hrecur _ (hrules phrase) s s' h r
  | @choice l p q rest hl _ _ ihp ihrest =>
      -- the look decides alone in the bounded run, and only whether to attempt in the other
      intro s s' h r
      have hb : (Look.both l .speculates).holds (c.deciding .bounded) s.ahead = false :=
        Bool.and_false _
      have hs : (Look.both l .speculates).holds (c.deciding .speculative) s.ahead =
          l.holds c s.ahead := by
        rw [Look.holds, l.holds_deciding c _ s.ahead hl]
        exact Bool.and_true _
      rw [exec, Test.eval, hb] at h
      dsimp only at h
      rw [exec, Test.eval, l.holds_deciding c _ s.ahead hl] at h
      rw [exec, Test.eval, hs]
      cases hholds : l.holds c s.ahead with
      | true =>
          rw [hholds] at h
          dsimp only at h ⊢
          rw [exec, ihp s s' h .backtrack]
      | false =>
          rw [hholds] at h
          dsimp only at h ⊢
          rw [exec, Test.eval, l.holds_deciding c _ s.ahead hl, hholds]
          exact ihrest s s' h r

/-- A bounded run that bails and finishes ends where the speculative run does. -/
theorem run_of_bounded (c : Context) (hrules : ∀ phrase, (rules phrase).Resolved) (fuel : Nat) :
    ∀ p : Program φ, p.Resolved → ∀ s s' : State β,
      run (c.deciding .bounded) rules fuel .bail p s = .finished s' →
        ∀ r, run (c.deciding .speculative) rules fuel r p s = .finished s' := by
  induction fuel with
  | zero =>
      intro p hp s s' h
      cases h
  | succ fuel ih => exact fun p hp => exec_of_bounded hrules (run_follows _ _ fuel) ih hp

end Runs

end MySqlAnalysis.Grammar
