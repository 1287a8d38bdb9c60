import MySqlAnalysis.Proofs.Grammar.Flow
import MySqlAnalysis.Proofs.Token.Listing

/-!
# Every run completes

Each phrase of the grammar has a contract (`contractOf`), and its body keeps it
(`contractOf_kept`). The contracts leave out `Phrase.script`, whose body reads
the end of the input itself. So a run over the tokens of a text, or over the
first of them, never reaches the bound on the depth of calls
(`outcomeOf_completes`).
-/

set_option autoImplicit false

namespace MySqlAnalysis.Grammar

/-! ### The contracts of the phrases -/

/-- What a phrase promises. Phrases of one group call each other in the order of
their depths without reading a token before. -/
def contractOf : Phrase → Option Contract
  | .script => none
  | .restOfStatement | .frame _ | .lockingClauses | .databaseOptions | .alterTokens _
  | .transactionOptions => some ⟨false, false, 0⟩
  | .alterItem => some ⟨false, false, 1⟩
  | .sumExpr | .columnAttribute | .createDatabase | .alterStatement | .transactionStatement
  | .explainStatement => some ⟨true, true, 0⟩
  | .describeStatement => some ⟨true, true, 1⟩
  | .queryExpression | .subquery => some ⟨false, true, 1⟩
  | .operand | .selectStatement | .derivedTable | .insertSource => some ⟨false, true, 2⟩
  | .simpleStatement | .simpleExpr | .tableFactor => some ⟨false, true, 3⟩
  | .bitExpr _ | .tableReferenceList => some ⟨false, true, 4⟩
  | .predicate => some ⟨false, true, 5⟩
  | .exprIs => some ⟨false, true, 6⟩
  | .expr _ => some ⟨false, true, 7⟩
  | .exprList | .selectItem => some ⟨false, true, 8⟩
  | _ => some ⟨false, true, 0⟩

theorem contractOf_depth (phrase : Phrase) (k : Contract) (h : contractOf phrase = some k) :
    k.depth < callDepth := by
  cases phrase <;> cases h <;> decide

/-- Beyond the tightest level no power leaves operators. -/
theorem operatorsFrom_min {levels : List Level} {bound : Nat}
    (h : ∀ level ∈ levels, level.left < bound) (power : Nat) :
    operatorsFrom levels power = operatorsFrom levels (min power bound) := by
  unfold operatorsFrom
  congr 1
  refine List.filter_congr fun level hlevel => ?_
  have hlt := h level hlevel
  rw [decide_eq_decide]
  omega

theorem operations_min {levels : List Level} {bound : Nat}
    (h : ∀ level ∈ levels, level.left < bound) (power : Nat) (operand : Level → Fragment) :
    operations levels power operand = operations levels (min power bound) operand := by
  rw [operations, operatorsFrom_min h]
  rfl

/-- Only powers up to the tightest level of operators make a difference. -/
theorem exprBody_of_lt {P : Fragment → Prop} (h : ∀ n < 7, P (exprBody n)) (power : Nat) :
    P (exprBody power) := by
  have hmin : exprBody power = exprBody (min power 6) := by
    rw [exprBody, operations_min (by decide : ∀ level ∈ logicalLevels, level.left < 6)]
    rfl
  rw [hmin]
  exact h _ (by omega)

theorem bitExprBody_of_lt {P : Fragment → Prop} (h : ∀ n < 13, P (bitExprBody n)) (power : Nat) :
    P (bitExprBody power) := by
  have hmin : bitExprBody power = bitExprBody (min power 12) := by
    rw [bitExprBody, operations_min (by decide : ∀ level ∈ bitLevels, level.left < 12)]
    rfl
  rw [hmin]
  exact h _ (by omega)

/-- Every expression keeps its contract. -/
theorem exprBody_kept (power : Nat) :
    Contract.allows ⟨false, true, 7⟩ ((exprBody power).flow contractOf []) = true :=
  exprBody_of_lt (P := fun p => Contract.allows ⟨false, true, 7⟩ (p.flow contractOf []) = true)
    (by decide +kernel) power

theorem bitExprBody_kept (power : Nat) :
    Contract.allows ⟨false, true, 4⟩ ((bitExprBody power).flow contractOf []) = true :=
  bitExprBody_of_lt (P := fun p => Contract.allows ⟨false, true, 4⟩ (p.flow contractOf []) = true)
    (by decide +kernel) power

/-- The body of every phrase keeps its contract. -/
theorem contractOf_kept (phrase : Phrase) (k : Contract) (h : contractOf phrase = some k) :
    k.allows ((grammar phrase).flow contractOf k.facts) = true := by
  cases phrase with
  | script => cases h
  -- the bodies with a number are reduced to finitely many, all others are evaluated
  | expr power =>
      cases h
      exact exprBody_kept power
  | bitExpr power =>
      cases h
      exact bitExprBody_kept power
  | frame depth =>
      cases h
      cases depth <;> rfl
  | alterTokens depth =>
      cases h
      cases depth <;> rfl
  | _ =>
      cases h
      decide +kernel

/-! ### Scripts -/

section Resuming

variable {φ β : Type}

/-- Whether a program goes on after every error that it reports. -/
def Program.resumes : Program φ → Bool
  | done => true
  | advance => true
  | seq p q => p.resumes && q.resumes
  | cond _ p q => p.resumes && q.resumes
  | loop _ p => p.resumes
  | node _ p => p.resumes
  | wrap _ p => p.resumes
  | resume _ => true
  | _ => false

/-- The outcome is not that of a program that gave up on its statement. -/
def Outcome.Resumed (o : Outcome β) : Prop := ∀ s, o ≠ .aborted .resync s

theorem Outcome.Resumed.andThen {o : Outcome β} {f : State β → Outcome β} (h : o.Resumed)
    (hf : ∀ s, (f s).Resumed) : (o.andThen f).Resumed := by
  cases o with
  | finished s => exact hf s
  | aborted why s => exact h

theorem Outcome.Resumed.map {o : Outcome β} (h : o.Resumed) (f : State β → State β) :
    (o.map f).Resumed := by
  cases o with
  | finished s =>
      intro s' ho
      cases ho
  | aborted why s =>
      rintro s' ⟨⟩
      exact h s rfl

variable [Builder β] {c : Context} {rules : φ → Program φ}
  {recur : Reaction → Program φ → State β → Outcome β}

theorem exec_resumed (hrecur : ∀ r p s, p.resumes = true → (recur r p s).Resumed)
    (p : Program φ) :
    ∀ (r : Reaction) (s : State β), p.resumes = true → (exec c rules recur r p s).Resumed := by
  induction p with
  | done =>
      intro r s h s' ho
      cases ho
  | advance =>
      intro r s h s' ho
      cases ho
  | seq p q ihp ihq =>
      intro r s h
      rw [Program.resumes, Bool.and_eq_true] at h
      exact (ihp r s h.1).andThen fun s' => ihq r s' h.2
  | cond t p q ihp ihq =>
      intro r s h
      rw [Program.resumes, Bool.and_eq_true] at h
      rw [exec]
      split
      · exact ihp r _ h.1
      · exact ihq r _ h.2
  | loop t p ih =>
      intro r s h
      rw [exec]
      split
      · exact (ih r _ h).andThen fun s' => hrecur r (.loop t p) s' h
      · intro s' ho
        cases ho
  | node rule p ih => exact fun r s h => (ih r _ h).map _
  | wrap rule p ih => exact fun r s h => (ih r _ h).map _
  | resume p =>
      intro r s h s' ho
      rw [exec] at ho
      split at ho
      · cases ho
      case h_2 hne => exact hne s' ho
  | _ =>
      intro r s h
      cases h

/-- A run of a program that resumes does not give up on a statement. -/
theorem run_resumed (c : Context) (rules : φ → Program φ) (fuel : Nat) :
    ∀ (r : Reaction) (p : Program φ) (s : State β),
      p.resumes = true → (run c rules fuel r p s).Resumed := by
  induction fuel with
  | zero =>
      intro r p s h s' ho
      cases ho
  | succ fuel ih => exact fun r p s h => exec_resumed ih p r s h

end Resuming

/-- From the first state to the second, all tokens ahead were read into the
leaves of the trees, the end of the input too. -/
def State.ReadsAll (c : Context) (s s' : State (List Tree)) : Prop :=
  ∃ read rest : List Token, s.ahead = read ++ rest ∧ (∀ t ∈ read, t.isEof = false) ∧
    (c.peek rest 0).isEof = true ∧
    Tree.leavesAll s'.built =
      Tree.leavesAll s.built ++ (read.map Token.index ++ [(c.peek rest 0).index])

/-- What the run of a script from the state `s` comes to. -/
inductive ScriptEnd (c : Context) (s : State (List Tree)) : Outcome (List Tree) → Prop
  | finished {s' : State (List Tree)} : s.ReadsAll c s' → ScriptEnd c s (.finished s')
  | cancelled {s' : State (List Tree)} (token : Nat) :
      s.Reads s' → ScriptEnd c s (.aborted (.cancelled token) s')

/-- Closing the node of a script keeps the leaves. -/
theorem leavesAll_leave (c : Context) (rule : Rule) (s s' : State (List Tree)) :
    Tree.leavesAll (State.leave c rule s s').built =
      Tree.leavesAll s.built ++ Tree.leavesAll s'.built := by
  simp [State.leave, Builder.leave]

theorem statements_flows {c : Context} {s : State (List Tree)} {fuel : Nat}
    (he : c.Ended s.ahead) (hfuel : callDepth * (s.ahead.length + 1) ≤ fuel) (r : Reaction) :
    Flows c (statements.flow contractOf []) s
      (exec c grammar (run c grammar fuel) r statements s) := by
  refine exec_flows contractOf_depth contractOf_kept
    (run_flows c contractOf_depth contractOf_kept fuel) statements r [] s (by decide +kernel)
    Facts.hold_nil he ?_
  have hdepth := Program.flow_depth_le contractOf_depth statements []
  rw [Nat.mul_succ] at hfuel
  omega

/-- A script is read to the end of the input, unless the run is cancelled. -/
theorem run_script {c : Context} {s : State (List Tree)} {fuel : Nat}
    (he : c.Ended s.ahead) (hfuel : callDepth * (s.ahead.length + 1) ≤ fuel)
    (strategy : ErrorStrategy) :
    ScriptEnd c s (run c grammar (fuel + 2) strategy.reaction (.call .script) s) := by
  have hflows : Flows c (statements.flow contractOf []) (s.enter c .query)
      (exec c grammar (run c grammar fuel) strategy.reaction statements (s.enter c .query)) :=
    statements_flows (s := s.enter c .query) he hfuel strategy.reaction
  have hresumed :
      (exec c grammar (run c grammar fuel) strategy.reaction statements
        (s.enter c .query)).Resumed :=
    exec_resumed (run_resumed c grammar fuel) statements strategy.reaction _ rfl
  have hfollows : Follows c strategy.reaction (s.enter c .query)
      (exec c grammar (run c grammar fuel) strategy.reaction statements (s.enter c .query)) :=
    exec_follows (run_follows c grammar fuel) statements strategy.reaction _
  show ScriptEnd c s (Outcome.map (Outcome.andThen _ _) (State.leave c .query s))
  obtain ⟨read, hahead, hread, hleaves⟩ := hflows.reads
  cases ho : exec c grammar (run c grammar fuel) strategy.reaction statements
      (s.enter c .query) with
  | finished s' =>
      -- the statements end where the input does, and that token is read last
      rw [ho] at hahead hleaves hflows
      obtain ⟨e, hmem, hholds⟩ := hflows.ends s' rfl
      have hfacts : e.facts = [⟨0, true, [.eof]⟩] :=
        congrArg Ending.facts (Option.some.inj hmem).symm
      have heof : Fact.Holds c s'.ahead ⟨0, true, [.eof]⟩ :=
        Facts.hold_singleton.1 (hfacts ▸ hholds.facts)
      refine .finished ⟨read, s'.ahead, hahead, hread, ?_, ?_⟩
      · rw [Fact.Holds, List.contains_iff_mem, List.mem_singleton] at heof
        exact beq_iff_eq.2 heof
      · rw [leavesAll_leave]
        simp only [Outcome.state_finished] at hleaves
        simp [State.consume, State.shift, Builder.token, hleaves, State.current, State.enter,
          Builder.enter, Tree.leaves, Tree.leavesAll]
  | aborted why s' =>
      -- only a run that bails is left to stop early
      rw [ho] at hahead hleaves hfollows hresumed hflows
      cases why with
      | cancelled token =>
          refine .cancelled token ⟨read, hahead, hread, ?_⟩
          rw [leavesAll_leave]
          exact congrArg _ hleaves
      | resync => exact absurd rfl (hresumed s')
      | exhausted => exact absurd rfl (hflows.completes s')
      | backtrack =>
          have hstops := hfollows.stops .backtrack s' rfl
          cases strategy <;> cases hstops

/-! ### Start rules -/

theorem endingOf_isEof (tokens : List Token) : (endingOf tokens).isEof = true := by
  unfold endingOf
  split
  case h_1 t hfind => exact List.find?_some hfind
  case h_2 => split <;> rfl

/-- Without a token that ends the input, its end is past the last token. -/
theorem endingOf_index {tokens : List Token} (h : tokens.any Token.isEof = false) :
    (endingOf tokens).index = tokens.length := by
  unfold endingOf
  split
  case h_1 t hfind =>
    have hmem : t ∈ tokens := List.mem_reverse.1 (List.mem_of_find?_eq_some hfind)
    have hnot := List.any_eq_false.1 h t hmem
    exact absurd (List.find?_some hfind) hnot
  case h_2 => split <;> rfl

section Start

variable {o : Options} {tokens : List Token}

theorem outcomeOf_follows (o : Options) (rule : StartRule) (tokens : List Token) :
    Follows (contextOf o tokens) o.strategy.reaction (State.initial tokens)
      (outcomeOf o rule tokens) :=
  run_follows _ grammar _ _ _ _

theorem contextOf_ended (h : Listed tokens) :
    (contextOf o tokens).Ended (significant tokens) where
  ending := endingOf_isEof tokens
  inner := h.inner_significant

theorem outcomeOf_query (h : Listed tokens) :
    ScriptEnd (contextOf o tokens) (.initial tokens) (outcomeOf o .query tokens) := by
  have hfuel : fuelFor tokens = callDepth * ((significant tokens).length + 1) + 62 + 2 := by
    rw [fuelFor, callDepth]
    omega
  rw [outcomeOf, outcomeIn, hfuel]
  exact run_script (contextOf_ended h) (Nat.le_add_right _ _) o.strategy

/-- Every start rule but that of scripts only reads tokens that do not end the input. -/
theorem outcomeOf_flows {rule : StartRule} (hrule : rule ≠ .query) (h : Listed tokens) :
    Flows (contextOf o tokens) (rule.program.flow contractOf []) (.initial tokens)
      (outcomeOf o rule tokens) := by
  have hok : (rule.program.flow contractOf []).ok = true := by
    cases rule with
    | query => exact absurd rfl hrule
    | _ => rfl
  have hdepth := Program.flow_depth_le contractOf_depth rule.program []
  have hroom : callDepth * (significant tokens).length +
      (rule.program.flow contractOf []).depth < fuelFor tokens := by
    rw [fuelFor]
    rw [callDepth] at hdepth ⊢
    omega
  exact run_flows _ contractOf_depth contractOf_kept _ rule.program _ hroom _ []
    (State.initial tokens) hok Facts.hold_nil (contextOf_ended h) le_rfl

/-- No run reaches the bound on the depth of calls. -/
theorem outcomeOf_completes (o : Options) (rule : StartRule) (h : Listed tokens) :
    ∀ s', outcomeOf o rule tokens ≠ .aborted .exhausted s' := by
  intro s' ho
  by_cases hrule : rule = .query
  · subst hrule
    have hend := outcomeOf_query (o := o) h
    rw [ho] at hend
    cases hend
  · exact (outcomeOf_flows hrule h).completes s' ho

end Start

end MySqlAnalysis.Grammar
