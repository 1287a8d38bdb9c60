import MySqlAnalysis.Proofs.Grammar.Building
import MySqlAnalysis.Proofs.Grammar.Completion

/-!
# Bailing and recovering

A run that bails and a run that recovers go through the same states until the
first error (`run_lockstep`): either both end in one state with nothing
reported, or the first is cancelled at the token that the second reports first.
The builder plays no part in this, so it holds of trees and of arenas.
-/

set_option autoImplicit false

namespace MySqlAnalysis.Grammar

variable {φ β : Type}

/-- The first report that a run from the state `s` adds is about the token at
position `token`. -/
def ReportsFirst (s : State β) (token : Nat) (o : Outcome β) : Prop :=
  ∃ report : Report, report.offending.index = token ∧ s.reports ++ [report] <+: o.state.reports

/-- The outcomes of a run that bails and of a run that recovers, both from the
state `s`, agree up to the first error. -/
inductive Lockstep (s : State β) : Outcome β → Outcome β → Prop
  | finished {s' : State β} (h : s'.reports = s.reports) :
      Lockstep s (.finished s') (.finished s')
  | exhausted {s' : State β} (h : s'.reports = s.reports) :
      Lockstep s (.aborted .exhausted s') (.aborted .exhausted s')
  | error {token : Nat} {s' : State β} {o : Outcome β} (h : ReportsFirst s token o) :
      Lockstep s (.aborted (.cancelled token) s') o

theorem ReportsFirst.mono {s : State β} {token : Nat} {o o' : Outcome β}
    (h : ReportsFirst s token o) (ho : o.state.reports <+: o'.state.reports) :
    ReportsFirst s token o' := by
  obtain ⟨report, hindex, hprefix⟩ := h
  exact ⟨report, hindex, hprefix.trans ho⟩

namespace Lockstep

variable {c : Context} {s : State β} {ob or : Outcome β}

theorem of_reports_eq {s' : State β} (h : Lockstep s' ob or) (hs : s'.reports = s.reports) :
    Lockstep s ob or := by
  cases h with
  | finished h => exact .finished (h.trans hs)
  | exhausted h => exact .exhausted (h.trans hs)
  | error h =>
      obtain ⟨report, hindex, hprefix⟩ := h
      exact .error ⟨report, hindex, hs ▸ hprefix⟩

/-- Going on after both runs. Past the first error only the run that recovers
goes on, and it keeps its reports. -/
theorem andThen {f g : State β → Outcome β} (h : Lockstep s ob or)
    (hfg : ∀ s', Lockstep s' (f s') (g s')) (hg : ∀ s', Follows c .recover s' (g s')) :
    Lockstep s (ob.andThen f) (or.andThen g) := by
  cases h with
  | finished h => exact (hfg _).of_reports_eq h
  | exhausted h => exact .exhausted h
  | error h =>
      refine .error ?_
      cases or with
      | finished s' => exact h.mono (hg s').grows
      | aborted why s' => exact h

theorem map {f : State β → State β} (h : Lockstep s ob or)
    (hf : ∀ s', (f s').reports = s'.reports) : Lockstep s (ob.map f) (or.map f) := by
  cases h with
  | finished h => exact .finished ((hf _).trans h)
  | exhausted h => exact .exhausted ((hf _).trans h)
  | error h =>
      refine .error ?_
      cases or with
      | finished s' => exact h.mono (by simp [hf s'])
      | aborted why s' => exact h.mono (by simp [hf s'])

end Lockstep

/-! ### Single moves -/

namespace State

theorem fail_lockstep (c : Context) (cause : Cause) (s : State β) :
    Lockstep s (s.fail c .bail cause) (s.fail c .recover cause) :=
  .error ⟨_, rfl, List.prefix_rfl⟩

theorem refuse_lockstep (c : Context) (why : Refusal) (s : State β) :
    Lockstep s (s.refuse c .bail why) (s.refuse c .recover why) := by
  cases why with
  | mismatch => exact s.fail_lockstep c .mismatched
  | noAlternative starts =>
      exact (fail_lockstep c .noAlternative
        { s with expected := noteKinds s.expected starts }).of_reports_eq rfl
  | gate rule version => exact s.fail_lockstep c (.gate rule version)

variable [Builder β]

/-- All three answers of a run that recovers report the token that the other
run stops at. -/
theorem expect_lockstep (c : Context) (kind : TokenKind) (s : State β) :
    Lockstep s (s.expect c .bail kind) (s.expect c .recover kind) := by
  unfold expect
  dsimp only
  by_cases hkind : (c.kindAt s.ahead 0 == kind) = true
  · rw [if_pos hkind, if_pos hkind]
    exact .finished rfl
  · -- a run that bails tries neither repair
    rw [if_neg hkind, if_neg hkind, if_neg (by simp), if_neg (by simp)]
    split_ifs with hdelete hinsert
    · exact .error ⟨_, rfl, List.prefix_rfl⟩
    · exact .error ⟨_, rfl, List.prefix_rfl⟩
    · exact (fail_lockstep c .mismatched
        { s with expected := noteKind s.expected kind }).of_reports_eq rfl

end State

/-! ### Programs -/

variable [Builder β] {c : Context} {rules : φ → Program φ}
  {recur : Reaction → Program φ → State β → Outcome β}

/-- The two runs of a program agree up to the first error when those of
everything that it calls do. -/
theorem exec_lockstep (hrecur : ∀ p s, Lockstep s (recur .bail p s) (recur .recover p s))
    (hfollows : ∀ r p s, Follows c r s (recur r p s)) (p : Program φ) :
    ∀ s : State β,
      Lockstep s (exec c rules recur .bail p s) (exec c rules recur .recover p s) := by
  induction p with
  | done => exact fun s => .finished rfl
  | advance => exact fun s => .finished rfl
  | expect kind => exact fun s => s.expect_lockstep c kind
  | refuse why => exact fun s => s.refuse_lockstep c why
  | seq p q ihp ihq => exact fun s => (ihp s).andThen ihq (exec_follows hfollows q .recover)
  | cond t p q ihp ihq =>
      intro s
      rw [exec, exec]
      cases t.eval c s.ahead s.expected with
      | mk answer expected =>
          cases answer with
          | true => exact (ihp { s with expected }).of_reports_eq rfl
          | false => exact (ihq { s with expected }).of_reports_eq rfl
  | loop t p ih =>
      intro s
      rw [exec, exec]
      cases t.eval c s.ahead s.expected with
      | mk answer expected =>
          cases answer with
          | true =>
              have hp := (ih { s with expected }).of_reports_eq (s := s) rfl
              exact hp.andThen (hrecur (.loop t p)) (hfollows .recover (.loop t p))
          | false => exact .finished rfl
  | node rule p ih =>
      intro s
      have hp := (ih (s.enter c rule)).of_reports_eq (s := s) rfl
      exact hp.map (f := State.leave c rule s) fun _ => rfl
  | wrap rule p ih =>
      intro s
      have hp := (ih (s.enterAround c rule)).of_reports_eq (s := s) rfl
      exact hp.map (f := State.leaveAround c rule s) fun _ => rfl
  | attempt p q ihp ihq =>
      -- the attempt itself backtracks in both runs, so they only part in `q`
      intro s
      have hp : Follows c .backtrack s (exec c rules recur .backtrack p s) :=
        exec_follows hfollows p .backtrack s
      rw [exec, exec]
      cases ho : exec c rules recur .backtrack p s with
      | finished s' =>
          rw [ho] at hp
          exact .finished (hp.silent (by decide))
      | aborted why s' =>
          rw [ho] at hp
          have hs : s'.reports = s.reports := hp.silent (by decide)
          have hq := (ihq (s.undo s')).of_reports_eq (s := s) hs
          cases why with
          | exhausted => exact .exhausted hs
          | cancelled token => exact hq
          | resync => exact hq
          | backtrack => exact hq
  | resume p ih =>
      intro s
      have hp := ih s
      rw [exec, exec]
      generalize exec c rules recur .bail p s = ob at hp ⊢
      generalize exec c rules recur .recover p s = or at hp ⊢
      cases hp with
      | finished h => exact .finished h
      | exhausted h => exact .exhausted h
      | error h =>
          -- the run that recovers goes on, and its first report stays the first
          refine .error (h.mono ?_)
          cases or with
          | finished s' => exact List.prefix_rfl
          | aborted why s' =>
              cases why with
              | resync => simp
              | cancelled token => exact List.prefix_rfl
              | backtrack => exact List.prefix_rfl
              | exhausted => exact List.prefix_rfl
  | call phrase => exact fun s => hrecur (rules phrase) s

/-- A run that bails and a run that recovers agree up to the first error. -/
theorem run_lockstep (c : Context) (rules : φ → Program φ) (fuel : Nat) :
    ∀ (p : Program φ) (s : State β),
      Lockstep s (run c rules fuel .bail p s) (run c rules fuel .recover p s) := by
  induction fuel with
  | zero => exact fun p s => .exhausted rfl
  | succ fuel ih => exact fun p s => exec_lockstep ih (run_follows c rules fuel) p s

/-! ### Start rules -/

/-- The options with another strategy. -/
def Options.withStrategy (o : Options) (strategy : ErrorStrategy) : Options := { o with strategy }

/-- A run that bails and a run that recovers, with otherwise equal options, agree
up to the first error. -/
structure StrategiesAgree (o : Options) (rule : StartRule) (tokens : List Token) : Prop where
  completes : ∀ strategy s,
    outcomeOf (o.withStrategy strategy) rule tokens ≠ .aborted .exhausted s
  silent : (parse (o.withStrategy .bail) rule tokens).reports = []
  finishes : (parse (o.withStrategy .recover) rule tokens).cancelled = none
  accepts : (parse (o.withStrategy .bail) rule tokens).cancelled = none ↔
    (parse (o.withStrategy .recover) rule tokens).reports = []
  same_tree : (parse (o.withStrategy .recover) rule tokens).reports = [] →
    (parse (o.withStrategy .bail) rule tokens).root =
        (parse (o.withStrategy .recover) rule tokens).root ∧
      arenaOf (o.withStrategy .bail) rule tokens = arenaOf (o.withStrategy .recover) rule tokens
  cancels : ∀ token, (parse (o.withStrategy .bail) rule tokens).cancelled = some token ↔
    ∃ report, (parse (o.withStrategy .recover) rule tokens).reports.head? = some report ∧
      report.offending.index = token

section Start

variable (o : Options) (rule : StartRule) (tokens : List Token)

theorem outcomeIn_lockstep (β : Type) [Builder β] :
    Lockstep (State.initial tokens) (outcomeIn β (o.withStrategy .bail) rule tokens)
      (outcomeIn β (o.withStrategy .recover) rule tokens) :=
  run_lockstep _ grammar _ _ _

theorem parse_reports_of_bail : (parse (o.withStrategy .bail) rule tokens).reports = [] := by
  have hbail : Reaction.bail ≠ .recover := by decide
  exact (outcomeOf_follows (o.withStrategy .bail) rule tokens).silent hbail

theorem parse_cancelled_of_recover :
    (parse (o.withStrategy .recover) rule tokens).cancelled = none := by
  have hfollows := outcomeOf_follows (o.withStrategy .recover) rule tokens
  rw [parse, Parse.ofOutcome]
  generalize outcomeOf (o.withStrategy .recover) rule tokens = outcome at hfollows ⊢
  cases outcome with
  | finished s => rfl
  | aborted why s =>
      cases why with
      | cancelled token => cases hfollows.stops _ s rfl
      | _ => rfl

/-- When the run that bails finishes, both build the same arena. -/
theorem arenaOf_bail_eq_recover {s : State (List Tree)}
    (h : outcomeOf (o.withStrategy .bail) rule tokens = .finished s) :
    arenaOf (o.withStrategy .bail) rule tokens = arenaOf (o.withStrategy .recover) rule tokens := by
  have halike := outcomeIn_alike (o.withStrategy .bail) rule tokens
  have hlock := outcomeIn_lockstep o rule tokens Arena
  rw [h] at halike
  rw [arenaOf, arenaOf]
  generalize outcomeIn Arena (o.withStrategy .bail) rule tokens = ob at halike hlock ⊢
  generalize outcomeIn Arena (o.withStrategy .recover) rule tokens = or at hlock ⊢
  cases halike with
  | finished hs =>
      cases hlock with
      | finished hreports => rfl

variable {tokens}

/-- Either both runs finish in the same state and nothing is reported, or the run
that bails is cancelled at the token of the other run's first report. -/
theorem finished_or_cancelled (h : Listed tokens) :
    (∃ s, outcomeOf (o.withStrategy .bail) rule tokens = .finished s ∧
        outcomeOf (o.withStrategy .recover) rule tokens = .finished s ∧ s.reports = []) ∨
      ∃ report, (parse (o.withStrategy .bail) rule tokens).cancelled =
          some report.offending.index ∧
        (parse (o.withStrategy .recover) rule tokens).reports.head? = some report := by
  have hlock : Lockstep (State.initial tokens) (outcomeOf (o.withStrategy .bail) rule tokens)
      (outcomeOf (o.withStrategy .recover) rule tokens) :=
    outcomeIn_lockstep o rule tokens (List Tree)
  generalize hb : outcomeOf (o.withStrategy .bail) rule tokens = ob at hlock
  generalize hr : outcomeOf (o.withStrategy .recover) rule tokens = or at hlock
  cases hlock with
  | exhausted h' => exact absurd hb (outcomeOf_completes _ rule h _)
  | @finished s hreports => exact .inl ⟨s, rfl, rfl, hreports⟩
  | @error token s or h' =>
      obtain ⟨report, hindex, rest, hrest⟩ := h'
      refine .inr ⟨report, ?_, ?_⟩
      · rw [parse, hb, hindex]
        rfl
      · rw [parse, hr, Parse.ofOutcome, ← hrest]
        rfl

/-- Without a report both runs finish in the same state. -/
theorem exists_finished_of_silent (h : Listed tokens)
    (hreports : (parse (o.withStrategy .recover) rule tokens).reports = []) :
    ∃ s, outcomeOf (o.withStrategy .bail) rule tokens = .finished s ∧
      outcomeOf (o.withStrategy .recover) rule tokens = .finished s := by
  rcases finished_or_cancelled o rule h with ⟨s, hbail, hrecover, -⟩ | ⟨report, -, hfirst⟩
  · exact ⟨s, hbail, hrecover⟩
  · rw [hreports] at hfirst
    cases hfirst

end Start

/-- The two strategies agree up to the first error, on the tokens of every text
and on every beginning of them. -/
theorem strategies_agree (o : Options) (rule : StartRule) (d : Dialect) (text : String) (n : Nat) :
    StrategiesAgree o rule ((tokenize d text).take n) := by
  have hlisted := (tokenize_listed d text).take n
  generalize (tokenize d text).take n = tokens at hlisted ⊢
  have hcompletes : ∀ strategy s,
      outcomeOf (o.withStrategy strategy) rule tokens ≠ .aborted .exhausted s :=
    fun strategy => outcomeOf_completes _ rule hlisted
  have hsilent := parse_reports_of_bail o rule tokens
  have hfinishes := parse_cancelled_of_recover o rule tokens
  rcases finished_or_cancelled o rule hlisted with
    ⟨s, hb, hr, hs⟩ | ⟨report, hbail, hfirst⟩
  · have hparse : parse (o.withStrategy .bail) rule tokens =
        parse (o.withStrategy .recover) rule tokens := by
      rw [parse, parse, hb, hr]
    have hreports : (parse (o.withStrategy .recover) rule tokens).reports = [] := by
      rw [parse, hr]
      exact hs
    have harena := arenaOf_bail_eq_recover o rule tokens hb
    refine ⟨hcompletes, hsilent, hfinishes, ?_, fun _ => ⟨?_, harena⟩, fun token => ?_⟩
    · rw [hparse]
      exact ⟨fun _ => hreports, fun _ => hfinishes⟩
    · rw [hparse]
    · rw [hparse, hfinishes, hreports]
      constructor
      · intro htoken
        cases htoken
      · rintro ⟨report, hfirst, -⟩
        cases hfirst
  · have hne : (parse (o.withStrategy .recover) rule tokens).reports ≠ [] := by
      intro hnil
      rw [hnil] at hfirst
      cases hfirst
    refine ⟨hcompletes, hsilent, hfinishes, ?_, fun hnil => absurd hnil hne, fun token => ?_⟩
    · rw [hbail]
      constructor
      · intro hnone
        cases hnone
      · exact fun hnil => absurd hnil hne
    · rw [hbail, hfirst]
      constructor
      · rintro ⟨⟩
        exact ⟨report, rfl, rfl⟩
      · rintro ⟨report', ⟨⟩, rfl⟩
        rfl

end MySqlAnalysis.Grammar
