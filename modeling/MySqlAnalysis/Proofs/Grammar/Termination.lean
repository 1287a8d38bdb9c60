import MySqlAnalysis.Proofs.Grammar.Evaluation
import MySqlAnalysis.Proofs.Grammar.Sparing

/-!
# Reading terminates

What a program does over and over is an activation: reading a phrase, a further
round of a loop, a step of skipping a statement or a step of a search ahead.
`Starts` lists the activations that a program starts on its own, and `Invokes`
those that one activation leads to. The measure of an activation counts
`callDepth` for each token ahead and adds the rank of what is done: phrases that
call each other before a token is read have falling ranks, and every round of a
loop reads a token.

The measure falls from each activation that is reached to all that it invokes, so
the evaluation from a start rule comes to an end without any bound, in exactly
one way, and `parse` returns where it ends (`parse_terminates`).
-/

set_option autoImplicit false

namespace MySqlAnalysis.Grammar

/-! ### Searches of the grammar -/

theorem exprBody_halts (power : Nat) : (exprBody power).halts = true :=
  exprBody_of_lt (P := fun p => p.halts = true) (by decide) power

theorem bitExprBody_halts (power : Nat) : (bitExprBody power).halts = true :=
  bitExprBody_of_lt (P := fun p => p.halts = true) (by decide) power

/-- Every search of the grammar stops at the end of the input. -/
theorem grammar_halts (phrase : Phrase) : (grammar phrase).halts = true := by
  cases phrase with
  | expr power => exact exprBody_halts power
  | bitExpr power => exact bitExprBody_halts power
  | frame depth => cases depth <;> rfl
  | alterTokens depth => cases depth <;> rfl
  | _ => rfl

/-! ### Activations -/

/-- Something that is done over and over. -/
inductive Activity where
  /-- A phrase is read. -/
  | phrase (name : Phrase)
  /-- A loop goes on. -/
  | round (t : Test) (p : Fragment)
  /-- A statement that was given up is skipped. -/
  | skipping
  /-- A search looks at the token `place` tokens ahead. -/
  | walking (w : Walk) (place : Nat)

/-- An activity that begins in a state. -/
structure Activation where
  reaction : Reaction
  activity : Activity
  state : State (List Tree)

/-- The place of a phrase among those that are called before the next token is read. -/
def Phrase.rank (name : Phrase) : Nat := ((contractOf name).map Contract.depth).getD callDepth

/-- What falls from an activation to those that it invokes. -/
def Activation.measure : Activation → Nat
  | ⟨_, .phrase name, s⟩ => callDepth * s.ahead.length + name.rank + 1
  | ⟨_, .round t p, s⟩ =>
    callDepth * s.ahead.length + ((Program.loop t p).flow contractOf []).depth + 1
  | ⟨_, .skipping, s⟩ => s.ahead.length
  | ⟨_, .walking _ place, s⟩ => s.ahead.length - place

/-- The activations that a program starts on its own from a state. -/
inductive Starts (c : Context) : Reaction → Fragment → State (List Tree) → Activation → Prop
  | call {r : Reaction} {s : State (List Tree)} {name : Phrase} :
      Starts c r (.call name) s ⟨r, .phrase name, s⟩
  | seqLeft {r : Reaction} {s : State (List Tree)} {p q : Fragment} {a : Activation} :
      Starts c r p s a → Starts c r (.seq p q) s a
  | seqRight {r : Reaction} {s s' : State (List Tree)} {p q : Fragment} {a : Activation} :
      Evaluates c grammar r p s (.finished s') → Starts c r q s' a → Starts c r (.seq p q) s a
  | condTest {r : Reaction} {s : State (List Tree)} {t : Test} {p q : Fragment} {w : Walk × Nat} :
      w ∈ t.walks → Starts c r (.cond t p q) s ⟨r, .walking w.1 w.2, s⟩
  | condTrue {r : Reaction} {s : State (List Tree)} {t : Test} {p q : Fragment}
      {expected : List TokenKind} {a : Activation} :
      t.Answers c s.ahead s.expected true expected → Starts c r p { s with expected } a →
        Starts c r (.cond t p q) s a
  | condFalse {r : Reaction} {s : State (List Tree)} {t : Test} {p q : Fragment}
      {expected : List TokenKind} {a : Activation} :
      t.Answers c s.ahead s.expected false expected → Starts c r q { s with expected } a →
        Starts c r (.cond t p q) s a
  | loopTest {r : Reaction} {s : State (List Tree)} {t : Test} {p : Fragment} {w : Walk × Nat} :
      w ∈ t.walks → Starts c r (.loop t p) s ⟨r, .walking w.1 w.2, s⟩
  | loopBody {r : Reaction} {s : State (List Tree)} {t : Test} {p : Fragment}
      {expected : List TokenKind} {a : Activation} :
      t.Answers c s.ahead s.expected true expected → Starts c r p { s with expected } a →
        Starts c r (.loop t p) s a
  | loopNext {r : Reaction} {s s' : State (List Tree)} {t : Test} {p : Fragment}
      {expected : List TokenKind} :
      t.Answers c s.ahead s.expected true expected →
        Evaluates c grammar r p { s with expected } (.finished s') →
          Starts c r (.loop t p) s ⟨r, .round t p, s'⟩
  | node {r : Reaction} {s : State (List Tree)} {rule : Rule} {p : Fragment} {a : Activation} :
      Starts c r p (s.enter c rule) a → Starts c r (.node rule p) s a
  | wrap {r : Reaction} {s : State (List Tree)} {rule : Rule} {p : Fragment} {a : Activation} :
      Starts c r p (s.enterAround c rule) a → Starts c r (.wrap rule p) s a
  | attempt {r : Reaction} {s : State (List Tree)} {p q : Fragment} {a : Activation} :
      Starts c .backtrack p s a → Starts c r (.attempt p q) s a
  | attemptUndone {r : Reaction} {s s' : State (List Tree)} {p q : Fragment} {why : Abort}
      {a : Activation} :
      Evaluates c grammar .backtrack p s (.aborted why s') → Starts c r q (s.undo s') a →
        Starts c r (.attempt p q) s a
  | resume {r : Reaction} {s : State (List Tree)} {p : Fragment} {a : Activation} :
      Starts c r p s a → Starts c r (.resume p) s a
  | resumeSkipped {r : Reaction} {s s' : State (List Tree)} {p : Fragment} :
      Evaluates c grammar r p s (.aborted .resync s') →
        Starts c r (.resume p) s ⟨r, .skipping, s'⟩

/-- The activations that an activation leads to. -/
inductive Invokes (c : Context) : Activation → Activation → Prop
  | phrase {r : Reaction} {name : Phrase} {s : State (List Tree)} {b : Activation} :
      Starts c r (grammar name) s b → Invokes c ⟨r, .phrase name, s⟩ b
  | round {r : Reaction} {t : Test} {p : Fragment} {s : State (List Tree)} {b : Activation} :
      Starts c r (.loop t p) s b → Invokes c ⟨r, .round t p, s⟩ b
  | skip {r : Reaction} {s : State (List Tree)} :
      Look.atStatementEnd.holds c s.ahead = false →
        Invokes c ⟨r, .skipping, s⟩ ⟨r, .skipping, s.skip c⟩
  | walk {r : Reaction} {w w' : Walk} {place : Nat} {s : State (List Tree)} :
      w.next (c.kindAt s.ahead place) = some w' →
        Invokes c ⟨r, .walking w place, s⟩ ⟨r, .walking w' (place + 1), s⟩

/-- The activations that come up when a program runs. -/
inductive Reached (c : Context) (r : Reaction) (p : Fragment) (s : State (List Tree)) :
    Activation → Prop
  | start {a : Activation} : Starts c r p s a → Reached c r p s a
  | step {a b : Activation} : Reached c r p s a → Invokes c a b → Reached c r p s b

/-! ### The measure falls -/

/-- What is known where an activation begins. -/
def Activation.Poised (c : Context) : Activation → Prop
  | ⟨_, .phrase name, s⟩ =>
    c.Ended s.ahead ∧ ∀ k, contractOf name = some k → k.facts.Hold c s.ahead
  | ⟨_, .round t p, s⟩ =>
    c.Ended s.ahead ∧ (Program.loop t p).halts = true ∧
      ((Program.loop t p).flow contractOf []).ok = true
  | ⟨_, .skipping, _⟩ => True
  | ⟨_, .walking w _, _⟩ => w.halts = true

section Measure

variable {c : Context} {room : Nat} {p : Fragment} {k : Facts} {s : State (List Tree)}
  {r : Reaction}

/-- Where a program is ready, its evaluation is as its flow says. -/
theorem Ready.flows_of_evaluates {o : Outcome (List Tree)} (h : Ready c contractOf room p k s)
    (hp : p.halts = true) (ho : Evaluates c grammar r p s o) :
    Flows c (p.flow contractOf k) s o := by
  have hflows := h.flows contractOf_depth contractOf_kept r
  have hrun := run_evaluates h.ended.ending grammar_halts (room + 1) r p s hp hflows.completes
  rw [ho.unique h.ended.ending grammar_halts hp hrun]
  exact hflows

/-- A walk has less to look at than the program that starts it has room for. -/
theorem Ready.walk_le (h : Ready c contractOf room p k s) (place : Nat) :
    s.ahead.length - place ≤ room := by
  have hfits := h.fits
  rw [callDepth] at hfits
  omega

/-- A program has room for every activation that it starts. -/
theorem Starts.measure_le {a : Activation} (ha : Starts c r p s a)
    (h : Ready c contractOf room p k s) (hp : p.halts = true) :
    a.measure ≤ room ∧ a.Poised c := by
  induction ha generalizing k with
  | call =>
      obtain ⟨contract, hcontract⟩ := h.exists_contract
      obtain ⟨room', hlt, hready⟩ := h.body hcontract (contractOf_kept _ _ hcontract)
      have hfits := h.fits
      rw [Program.flow, hcontract] at hfits
      refine ⟨?_, h.ended, fun k' hk' => ?_⟩
      · rw [Activation.measure, Phrase.rank, hcontract]
        exact hfits
      · rw [hcontract] at hk'
        cases hk'
        exact hready.holds
  | seqLeft _ ih =>
      rw [Program.halts, Bool.and_eq_true] at hp
      exact ih h.seq_left hp.1
  | seqRight hfirst _ ih =>
      rw [Program.halts, Bool.and_eq_true] at hp
      have hflow := h.seq_left.flows_of_evaluates hp.1 hfirst
      obtain ⟨e, -, hready⟩ := h.seq_right contractOf_depth hflow
      exact ih hready hp.2
  | condTest hw =>
      rw [Program.halts, Bool.and_eq_true, Bool.and_eq_true] at hp
      exact ⟨h.walk_le _, List.all_eq_true.1 hp.1.1 _ hw⟩
  | condTrue ht _ ih =>
      rw [Program.halts, Bool.and_eq_true, Bool.and_eq_true] at hp
      have heval := (Test.answers_iff h.ended.ending _ _ _ _ hp.1.1).1 ht
      exact ih ((h.cond_true (by rw [heval])).of_ahead_eq rfl) hp.1.2
  | condFalse ht _ ih =>
      rw [Program.halts, Bool.and_eq_true, Bool.and_eq_true] at hp
      have heval := (Test.answers_iff h.ended.ending _ _ _ _ hp.1.1).1 ht
      exact ih ((h.cond_false (by rw [heval])).of_ahead_eq rfl) hp.2
  | loopTest hw =>
      have ht := (Bool.and_eq_true_iff.1 hp).1
      exact ⟨h.walk_le _, List.all_eq_true.1 ht _ hw⟩
  | loopBody ht _ ih =>
      obtain ⟨htest, hbody⟩ := Bool.and_eq_true_iff.1 hp
      have heval := (Test.answers_iff h.ended.ending _ _ _ _ htest).1 ht
      exact ih ((h.loop_body (by rw [heval])).of_ahead_eq rfl) hbody
  | @loopNext r s s' t p expected ht hround =>
      obtain ⟨htest, hbody⟩ := Bool.and_eq_true_iff.1 hp
      have heval := (Test.answers_iff h.ended.ending _ _ _ _ htest).1 ht
      have hready : Ready c contractOf room p (t.facts true) { s with expected } :=
        (h.loop_body (by rw [heval])).of_ahead_eq rfl
      -- the round reads a token, so the next one starts with less room
      have hflow := hready.flows_of_evaluates hbody hround
      obtain ⟨room', hlt, hnext⟩ := h.loop_next (by rw [heval]) (hflow.of_reads_eq rfl rfl)
      refine ⟨?_, hnext.ended, hp, hnext.ok⟩
      have hfits := hnext.fits
      rw [Activation.measure]
      omega
  | node _ ih => exact ih ⟨h.ok, h.holds, h.ended, h.fits⟩ hp
  | wrap _ ih => exact ih ⟨h.ok, h.holds, h.ended, h.fits⟩ hp
  | attempt _ ih =>
      rw [Program.halts, Bool.and_eq_true] at hp
      exact ih h.attempt_left hp.1
  | attemptUndone _ _ ih =>
      rw [Program.halts, Bool.and_eq_true] at hp
      exact ih (h.attempt_right.of_ahead_eq rfl) hp.2
  | resume _ ih => exact ih ⟨h.ok, h.holds, h.ended, h.fits⟩ hp
  | @resumeSkipped r s s' p hbody =>
      have hready : Ready c contractOf room p k s := ⟨h.ok, h.holds, h.ended, h.fits⟩
      have hle := (hready.flows_of_evaluates hp hbody).reads.length_le
      rw [Outcome.state_aborted] at hle
      have hroom := h.walk_le 0
      rw [Activation.measure]
      exact ⟨by omega, trivial⟩

/-- A script has room for its statements. -/
theorem Starts.measure_le_script {a : Activation} (ha : Starts c r scriptBody s a)
    (he : c.Ended s.ahead) :
    a.measure ≤ callDepth * s.ahead.length + callDepth ∧ a.Poised c := by
  cases ha with
  | node hbody =>
      cases hbody with
      | seqRight _ hlast => cases hlast
      | seqLeft hstatements =>
          have hdepth := Program.flow_depth_le contractOf_depth statements []
          have hready : Ready c contractOf (callDepth * s.ahead.length + callDepth) statements []
              (s.enter c .query) := by
            refine ⟨rfl, Facts.hold_nil, he, ?_⟩
            have hahead : (s.enter c .query).ahead = s.ahead := rfl
            rw [hahead]
            omega
          exact hstatements.measure_le hready rfl

/-- From an activation to those that it invokes, the measure falls. -/
theorem Invokes.measure_lt {a b : Activation} (h : Invokes c a b)
    (hc : c.ending.isEof = true) (ha : a.Poised c) : b.measure < a.measure ∧ b.Poised c := by
  cases h with
  | @phrase r name s b hb =>
      obtain ⟨he, hfacts⟩ := ha
      rw [Activation.measure, Phrase.rank]
      cases hcontract : contractOf name with
      | none =>
          -- only scripts have no contract
          have hname : name = .script := by
            cases name with
            | script => rfl
            | _ => cases hcontract
          subst hname
          obtain ⟨hle, hb'⟩ := Starts.measure_le_script hb he
          exact ⟨Nat.lt_succ_of_le hle, hb'⟩
      | some contract =>
          have hallows := contractOf_kept name contract hcontract
          simp only [Contract.allows, Bool.and_eq_true, decide_eq_true_eq] at hallows
          have hready : Ready c contractOf (callDepth * s.ahead.length + contract.depth)
              (grammar name) contract.facts s :=
            ⟨hallows.1.1, hfacts contract hcontract, he, Nat.add_le_add_left hallows.1.2 _⟩
          obtain ⟨hle, hb'⟩ := hb.measure_le hready (grammar_halts name)
          exact ⟨Nat.lt_succ_of_le hle, hb'⟩
  | round hb =>
      obtain ⟨he, hp, hok⟩ := ha
      obtain ⟨hle, hb'⟩ := hb.measure_le ⟨hok, Facts.hold_nil, he, le_rfl⟩ hp
      exact ⟨Nat.lt_succ_of_le hle, hb'⟩
  | skip hgo =>
      obtain ⟨t, ht⟩ := State.skip_ahead hc hgo
      refine ⟨?_, trivial⟩
      rw [Activation.measure, Activation.measure, ht]
      exact Nat.lt_succ_self _
  | @walk r w w' place s hnext =>
      refine ⟨?_, Walk.halts_of_next ha hnext⟩
      -- a walk that goes on has not yet come to the end of the input
      have hplace : place < s.ahead.length := by
        by_contra hge
        have heof : c.kindAt s.ahead place = .eof :=
          kindAt_of_drop_nil hc (List.drop_eq_nil_of_le (Nat.le_of_not_lt hge))
        rw [heof, Walk.next_eof ha] at hnext
        cases hnext
      rw [Activation.measure, Activation.measure]
      omega

end Measure

/-! ### Start rules -/

/-- Reading a token list from a start rule comes to an end. -/
structure Terminates (o : Options) (rule : StartRule) (tokens : List Token) : Prop where
  /-- Without a bound there is exactly one evaluation, and `parse` returns its outcome. -/
  evaluates : ∃ outcome, parse o rule tokens = .ofOutcome outcome ∧
    Evaluates (contextOf o tokens) grammar o.strategy.reaction rule.program (.initial tokens)
      outcome ∧
    ∀ other, Evaluates (contextOf o tokens) grammar o.strategy.reaction rule.program
      (.initial tokens) other → other = outcome
  /-- The measure falls with every call, round and step that comes up. -/
  decreases : ∀ a b,
    Reached (contextOf o tokens) o.strategy.reaction rule.program (.initial tokens) a →
      Invokes (contextOf o tokens) a b → b.measure < a.measure

theorem StartRule.program_halts (rule : StartRule) : rule.program.halts = true := by
  cases rule <;> rfl

section Start

variable {o : Options} {tokens : List Token}

theorem starts_poised (h : Listed tokens) {rule : StartRule} {a : Activation}
    (ha : Starts (contextOf o tokens) o.strategy.reaction rule.program (.initial tokens) a) :
    a.Poised (contextOf o tokens) := by
  have he : (contextOf o tokens).Ended (State.initial (β := List Tree) tokens).ahead :=
    contextOf_ended h
  by_cases hrule : rule = .query
  · subst hrule
    cases ha with
    | call =>
        refine ⟨he, fun k hk => ?_⟩
        cases hk
  · have hok : (rule.program.flow contractOf []).ok = true := by
      cases rule with
      | query => exact absurd rfl hrule
      | _ => rfl
    exact (ha.measure_le ⟨hok, Facts.hold_nil, he, le_rfl⟩ rule.program_halts).2

theorem reached_poised (h : Listed tokens) {rule : StartRule} {a : Activation}
    (ha : Reached (contextOf o tokens) o.strategy.reaction rule.program (.initial tokens) a) :
    a.Poised (contextOf o tokens) := by
  induction ha with
  | start hstart => exact starts_poised h hstart
  | step _ hinvokes ih => exact (hinvokes.measure_lt (contextOf_ended h (o := o)).ending ih).2

theorem terminates_of_listed (h : Listed tokens) (o : Options) (rule : StartRule) :
    Terminates o rule tokens where
  evaluates := by
    have hc := (contextOf_ended h (o := o)).ending
    have hrun := run_evaluates hc grammar_halts (fuelFor tokens) o.strategy.reaction rule.program
      (State.initial tokens) rule.program_halts (outcomeOf_completes o rule h)
    refine ⟨outcomeOf o rule tokens, rfl, hrun, fun other hother => ?_⟩
    exact hother.unique hc grammar_halts rule.program_halts hrun
  decreases a b ha hb := (hb.measure_lt (contextOf_ended h (o := o)).ending (reached_poised h ha)).1

end Start

/-- Reading the tokens of a text, or the first of them, terminates for every start
rule and all options. -/
theorem parse_terminates (o : Options) (rule : StartRule) (d : Dialect) (text : String) (n : Nat) :
    Terminates o rule ((tokenize d text).take n) :=
  terminates_of_listed ((tokenize_listed d text).take n) o rule

end MySqlAnalysis.Grammar
