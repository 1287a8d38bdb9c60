import Mathlib.Data.List.Infix
import MySqlAnalysis.Grammar.Machine

/-!
# Reactions to errors

What a run does with reports and with early ends depends on its reaction alone.
Reports are only added, a run that bails or backtracks adds none, each reaction
has its own reason to stop early, and a run is cancelled at the token that comes
next (`run_follows`). A program is run with a bound on the depth of calls, so
every reaction can also stop because the bound was reached.
-/

set_option autoImplicit false

namespace MySqlAnalysis.Grammar

variable {φ β : Type}

/-! ### Outcomes -/

namespace Outcome

@[simp] theorem state_finished (s : State β) : (finished s).state = s := rfl

@[simp] theorem state_aborted (why : Abort) (s : State β) : (aborted why s).state = s := rfl

@[simp] theorem andThen_finished (s : State β) (f : State β → Outcome β) :
    (finished s).andThen f = f s := rfl

@[simp] theorem andThen_aborted (why : Abort) (s : State β) (f : State β → Outcome β) :
    (aborted why s).andThen f = aborted why s := rfl

@[simp] theorem map_finished (s : State β) (f : State β → State β) :
    (finished s).map f = finished (f s) := rfl

@[simp] theorem map_aborted (why : Abort) (s : State β) (f : State β → State β) :
    (aborted why s).map f = aborted why (f s) := rfl

end Outcome

/-! ### What a reaction allows -/

/-- Whether a run with the reaction can stop early for the reason. -/
def Reaction.stopsFor : Reaction → Abort → Bool
  | _, .exhausted => true
  | .bail, .cancelled _ => true
  | .recover, .resync => true
  | .backtrack, .backtrack => true
  | _, _ => false

theorem Reaction.stopsFor_exhausted (r : Reaction) : r.stopsFor .exhausted = true := by
  cases r <;> rfl

/-- The outcome of a run from the state `s` follows the reaction: reports are
only added, only a run that recovers adds any, an early end has one of the
reasons of the reaction, and a run is cancelled at the token that comes next. -/
structure Follows (c : Context) (r : Reaction) (s : State β) (o : Outcome β) : Prop where
  grows : s.reports <+: o.state.reports
  silent : r ≠ .recover → o.state.reports = s.reports
  stops : ∀ why s', o = .aborted why s' → r.stopsFor why = true
  cancels : ∀ token s', o = .aborted (.cancelled token) s' → token = (s'.current c).index

namespace Follows

variable {c : Context} {r : Reaction} {s : State β} {o : Outcome β}

/-- A run that finished only has to keep its reports. -/
theorem of_finished {s' : State β} (hgrows : s.reports <+: s'.reports)
    (hsilent : r ≠ .recover → s'.reports = s.reports) : Follows c r s (.finished s') where
  grows := hgrows
  silent := hsilent
  stops := by
    intro why s'' ho
    cases ho
  cancels := by
    intro token s'' ho
    cases ho

theorem finished {s' : State β} (h : s'.reports = s.reports) : Follows c r s (.finished s') := by
  refine of_finished ?_ fun _ => h
  rw [h]

/-- A run that stopped early without being cancelled. -/
theorem of_aborted {why : Abort} {s' : State β} (hgrows : s.reports <+: s'.reports)
    (hsilent : r ≠ .recover → s'.reports = s.reports) (hstops : r.stopsFor why = true)
    (hwhy : ∀ token, why ≠ .cancelled token) : Follows c r s (.aborted why s') where
  grows := hgrows
  silent := hsilent
  stops := by
    rintro why' s'' ⟨⟩
    exact hstops
  cancels := by
    rintro token s'' ⟨⟩
    exact absurd rfl (hwhy token)

theorem of_reports_eq {s' : State β} (h : Follows c r s' o) (hs : s'.reports = s.reports) :
    Follows c r s o where
  grows := hs ▸ h.grows
  silent hr := (h.silent hr).trans hs
  stops := h.stops
  cancels := h.cancels

theorem andThen {f : State β → Outcome β} (h : Follows c r s o) (hf : ∀ s', Follows c r s' (f s')) :
    Follows c r s (o.andThen f) := by
  cases o with
  | finished s' =>
      refine ⟨h.grows.trans (hf s').grows, ?_, (hf s').stops, (hf s').cancels⟩
      intro hr
      rw [Outcome.andThen_finished, (hf s').silent hr]
      exact h.silent hr
  | aborted why s' => exact h

theorem map {f : State β → State β} (h : Follows c r s o)
    (hreports : ∀ s', (f s').reports = s'.reports) (hahead : ∀ s', (f s').ahead = s'.ahead) :
    Follows c r s (o.map f) := by
  cases o with
  | finished s' =>
      refine of_finished ?_ fun hr => (hreports s').trans (h.silent hr)
      rw [hreports s']
      exact h.grows
  | aborted why s' =>
      refine ⟨?_, fun hr => (hreports s').trans (h.silent hr), ?_, ?_⟩
      · rw [Outcome.map_aborted, Outcome.state_aborted, hreports s']
        exact h.grows
      · rintro why' s'' ⟨⟩
        exact h.stops why s' rfl
      · rintro token s'' ⟨⟩
        rw [State.current, hahead s']
        exact h.cancels token s' rfl

end Follows

/-! ### Single moves -/

namespace State

theorem shift_suffix (s : State β) (c : Context) (leaf : Nat → β → β) :
    (s.shift c leaf).ahead <:+ s.ahead := by
  rw [shift]
  dsimp only
  split
  · exact List.suffix_rfl
  · exact List.tail_suffix _

theorem fail_follows (c : Context) (r : Reaction) (cause : Cause) (s : State β) :
    Follows c r s (s.fail c r cause) := by
  cases r with
  | recover =>
      refine .of_aborted (List.prefix_append _ _) (fun hr => absurd rfl hr) rfl ?_
      intro token h
      cases h
  | bail =>
      refine ⟨List.prefix_rfl, fun _ => rfl, ?_, ?_⟩
      · rintro why s' ⟨⟩
        rfl
      · rintro token s' ⟨⟩
        rfl
  | backtrack =>
      refine .of_aborted List.prefix_rfl (fun _ => rfl) rfl ?_
      intro token h
      cases h

theorem refuse_follows (c : Context) (r : Reaction) (why : Refusal) (s : State β) :
    Follows c r s (s.refuse c r why) := by
  cases why with
  | mismatch => exact s.fail_follows c r .mismatched
  | noAlternative starts =>
      exact (fail_follows c r .noAlternative
        { s with expected := noteKinds s.expected starts }).of_reports_eq rfl
  | gate rule version => exact s.fail_follows c r (.gate rule version)

variable [Builder β]

theorem consume_suffix (s : State β) (c : Context) : (s.consume c).ahead <:+ s.ahead :=
  s.shift_suffix c Builder.token

theorem skip_suffix (s : State β) (c : Context) : (s.skip c).ahead <:+ s.ahead :=
  s.shift_suffix c Builder.skipped

theorem expect_follows (c : Context) (r : Reaction) (kind : TokenKind) (s : State β) :
    Follows c r s (s.expect c r kind) := by
  unfold expect
  dsimp only
  split_ifs with hkind hdelete hinsert
  · exact .finished rfl
  · -- the deletion reports the token that it passes over
    rw [Bool.and_eq_true, beq_iff_eq] at hdelete
    exact .of_finished (List.prefix_append _ _) fun hr => absurd hdelete.1 hr
  · rw [Bool.and_eq_true, beq_iff_eq] at hinsert
    exact .of_finished (List.prefix_append _ _) fun hr => absurd hinsert.1 hr
  · exact (fail_follows c r .mismatched
      { s with expected := noteKind s.expected kind }).of_reports_eq rfl

@[simp] theorem skipUpTo_reports (c : Context) (n : Nat) (s : State β) :
    (skipUpTo c n s).reports = s.reports := by
  induction n generalizing s with
  | zero => rfl
  | succ n ih =>
      unfold skipUpTo
      split_ifs with hend
      · rfl
      · exact ih (s.skip c)

@[simp] theorem skipStatement_reports (c : Context) (s : State β) :
    (s.skipStatement c).reports = s.reports :=
  skipUpTo_reports c _ s

end State

/-! ### Programs -/

variable [Builder β] {c : Context} {rules : φ → Program φ}
  {recur : Reaction → Program φ → State β → Outcome β}

/-- A program follows its reaction when everything that it calls does. -/
theorem exec_follows (hrecur : ∀ r p s, Follows c r s (recur r p s)) (p : Program φ) :
    ∀ (r : Reaction) (s : State β), Follows c r s (exec c rules recur r p s) := by
  induction p with
  | done => exact fun r s => .finished rfl
  | advance => exact fun r s => .finished rfl
  | expect kind => exact fun r s => s.expect_follows c r kind
  | refuse why => exact fun r s => s.refuse_follows c r why
  | seq p q ihp ihq => exact fun r s => (ihp r s).andThen (ihq r)
  | cond t p q ihp ihq =>
      intro r s
      rw [exec]
      cases t.eval c s.ahead s.expected with
      | mk answer expected =>
          cases answer with
          | true => exact (ihp r { s with expected }).of_reports_eq rfl
          | false => exact (ihq r { s with expected }).of_reports_eq rfl
  | loop t p ih =>
      intro r s
      rw [exec]
      cases t.eval c s.ahead s.expected with
      | mk answer expected =>
          cases answer with
          | true =>
              exact Follows.andThen ((ih r { s with expected }).of_reports_eq rfl)
                fun s' => hrecur r (.loop t p) s'
          | false => exact .finished rfl
  | node rule p ih =>
      intro r s
      have hp := (ih r (s.enter c rule)).of_reports_eq (s := s) rfl
      exact hp.map (f := State.leave c rule s) (fun _ => rfl) fun _ => rfl
  | wrap rule p ih =>
      intro r s
      have hp := (ih r (s.enterAround c rule)).of_reports_eq (s := s) rfl
      exact hp.map (f := State.leaveAround c rule s) (fun _ => rfl) fun _ => rfl
  | attempt p q ihp ihq =>
      -- the attempt reports nothing, so `q` starts with the reports from before
      intro r s
      have hp := ihp .backtrack s
      rw [exec]
      cases ho : exec c rules recur .backtrack p s with
      | finished s' =>
          rw [ho] at hp
          exact .finished (hp.silent (by decide))
      | aborted why s' =>
          rw [ho] at hp
          have hs : s'.reports = s.reports := hp.silent (by decide)
          have hq := (ihq r (s.undo s')).of_reports_eq (s := s) hs
          cases why with
          | exhausted =>
              refine .of_aborted hp.grows (fun _ => hs) r.stopsFor_exhausted ?_
              intro token h
              cases h
          | cancelled token => exact hq
          | resync => exact hq
          | backtrack => exact hq
  | resume p ih =>
      intro r s
      have hp := ih r s
      rw [exec]
      cases ho : exec c rules recur r p s with
      | finished s' =>
          rw [ho] at hp
          exact hp
      | aborted why s' =>
          rw [ho] at hp
          cases why with
          | resync =>
              -- the error was reported where it occurred, and skipping adds no report
              refine .of_finished ?_ fun hr => ?_
              · rw [State.skipStatement_reports]
                exact hp.grows
              · rw [State.skipStatement_reports]
                exact hp.silent hr
          | cancelled token => exact hp
          | backtrack => exact hp
          | exhausted => exact hp
  | call phrase => exact fun r s => hrecur r (rules phrase) s

/-- Every run follows its reaction. -/
theorem run_follows (c : Context) (rules : φ → Program φ) (fuel : Nat) :
    ∀ (r : Reaction) (p : Program φ) (s : State β), Follows c r s (run c rules fuel r p s) := by
  induction fuel with
  | zero =>
      intro r p s
      refine .of_aborted List.prefix_rfl (fun _ => rfl) r.stopsFor_exhausted ?_
      intro token h
      cases h
  | succ fuel ih => exact fun r p s => exec_follows ih p r s

end MySqlAnalysis.Grammar
