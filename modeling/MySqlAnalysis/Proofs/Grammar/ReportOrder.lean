import MySqlAnalysis.Proofs.Grammar.Rounds

/-!
# The order of reports

A run that recovers reports the tokens of its input from left to right. Reports that a
token was inserted may stand at one token in any number; any other report is the last one
about its token (`parse_reports_ordered`), because reading goes on behind the token that it
is about, or in front of the end of the statement, which is read without a report.

What a single step keeps is that the next token has no report but those of insertions
(`State.Fresh`); it is lost only where a statement is given up, and found again at the
next token that is passed.
-/

set_option autoImplicit false

namespace MySqlAnalysis.Grammar

/-! ### Reports in order -/

namespace Report

/-- Whether the report tells that a token was inserted. -/
def inserts (r : Report) : Bool :=
  match r.cause with
  | .missing _ => true
  | _ => false

/-- Whether the token with the given number can be reported after the report. -/
def Before (r : Report) (index : Nat) : Prop :=
  r.offending.index ≤ index ∧ (r.inserts = false → r.offending.index < index)

variable {r : Report} {i j : Nat}

theorem Before.mono (h : r.Before i) (hij : i ≤ j) : r.Before j :=
  ⟨Nat.le_trans h.1 hij, fun hr => Nat.lt_of_lt_of_le (h.2 hr) hij⟩

theorem before_of_lt (h : r.offending.index < i) : r.Before i :=
  ⟨Nat.le_of_lt h, fun _ => h⟩

theorem message_of_inserts (h : r.inserts = true) :
    "missing".toList <+: r.event.message.toList := by
  unfold inserts at h
  split at h
  · next kind hcause =>
    refine ⟨(" " ++ kind.name ++ " at " ++ quoted r.offending).toList, ?_⟩
    simp [event, message, hcause]
  · cases h

end Report

/-- Tokens as they are ahead in a text: numbered in increasing order, and the last one and
no other ends the input. -/
structure Complete (tokens : List Token) : Prop where
  increasing : (tokens.map Token.index).Pairwise (· < ·)
  ends : ∃ inner last, tokens = inner ++ [last] ∧ last.isEof = true ∧ ∀ t ∈ inner, t.isEof = false

theorem Complete.cases {tokens : List Token} (h : Complete tokens) :
    ∃ t ts, tokens = t :: ts ∧ (t.isEof = false → Complete ts ∧ ∀ u ∈ ts, t.index < u.index) := by
  obtain ⟨inner, last, rfl, hlast, hinner⟩ := h.ends
  cases inner with
  | nil => exact ⟨last, [], rfl, fun heof => by simp [heof] at hlast⟩
  | cons t inner =>
      refine ⟨t, inner ++ [last], rfl, fun _ => ?_⟩
      have hincreasing := h.increasing
      rw [List.cons_append, List.map_cons, List.pairwise_cons] at hincreasing
      refine ⟨⟨hincreasing.2, inner, last, rfl, hlast, fun u hu => ?_⟩, fun u hu => ?_⟩
      · exact hinner u (List.mem_cons_of_mem _ hu)
      · exact hincreasing.1 _ (List.mem_map_of_mem hu)

theorem significant_complete (d : Dialect) (text : String) :
    Complete (significant (tokenize d text)) where
  increasing := (tokenize_listed d text).pairwise_index
  ends := by
    obtain ⟨read, last, heq, hread⟩ :=
      Token.ofLexemes_eq_append (Text.Position.start.after text.toList)
        (Token.lexemes d text.toList) (Token.lexemesFrom_kind_ne_eof 0 .start text.toList) 0
    refine ⟨significant read, .ending (.after .start text.toList) last, ?_, rfl,
      fun t ht => hread t (List.mem_filter.1 ht).1⟩
    rw [tokenize, heq, significant, List.filter_append]
    rfl

/-! ### States -/

variable {c : Context} {all : List Token}

/-- The reports are about the given tokens, in order, and none is about a token that comes
after the next one. -/
structure State.Orderly {β : Type} (c : Context) (all : List Token) (s : State β) : Prop where
  ahead : s.ahead <:+ all
  complete : Complete s.ahead
  shown : ∀ r ∈ s.reports, r.offending ∈ all
  sorted : s.reports.Pairwise fun r r' => r.Before r'.offending.index
  reached : ∀ r ∈ s.reports, r.offending.index ≤ (s.current c).index

/-- The next token can be reported. -/
structure State.Fresh {β : Type} (c : Context) (all : List Token) (s : State β) : Prop
    extends s.Orderly c all where
  before : ∀ r ∈ s.reports, r.Before (s.current c).index

/-- The next token can be reported, or the statement ends there. -/
structure State.Rested {β : Type} (c : Context) (all : List Token) (s : State β) : Prop
    extends s.Orderly c all where
  fresh : s.Fresh c all ∨ Look.atStatementEnd.holds c s.ahead = true

/-- A run that finishes leaves a token that can be reported; one that stops early may have
reported the next token. -/
def Outcome.Orderly {β : Type} (c : Context) (all : List Token) : Outcome β → Prop
  | .finished s => s.Fresh c all
  | .aborted _ s => s.Orderly c all

section States

variable {β : Type} {s s' : State β}

namespace State

/-- Only the tokens ahead and the reports matter. -/
theorem Orderly.of_eq (h : s.Orderly c all) (hahead : s'.ahead = s.ahead)
    (hreports : s'.reports = s.reports) : s'.Orderly c all := by
  have hcurrent : s'.current c = s.current c := by rw [current, current, hahead]
  exact ⟨hahead ▸ h.ahead, hahead ▸ h.complete, hreports ▸ h.shown, hreports ▸ h.sorted,
    hreports ▸ hcurrent ▸ h.reached⟩

theorem Fresh.of_eq (h : s.Fresh c all) (hahead : s'.ahead = s.ahead)
    (hreports : s'.reports = s.reports) : s'.Fresh c all := by
  have hcurrent : s'.current c = s.current c := by rw [current, current, hahead]
  exact ⟨h.toOrderly.of_eq hahead hreports, hreports ▸ hcurrent ▸ h.before⟩

theorem Fresh.rested (h : s.Fresh c all) : s.Rested c all := ⟨h.toOrderly, .inl h⟩

theorem Orderly.current_mem (h : s.Orderly c all) : s.current c ∈ all := by
  obtain ⟨t, ts, hahead, -⟩ := h.complete.cases
  refine h.ahead.subset ?_
  rw [current, Context.peek, hahead]
  exact List.mem_cons_self

/-- Passing a token that does not end the input; the token after it has no report. -/
theorem Orderly.shift (h : s.Orderly c all) (leaf : Nat → β → β)
    (heof : (s.current c).isEof = false) : (s.shift c leaf).Fresh c all := by
  obtain ⟨t, ts, hahead, hnext⟩ := h.complete.cases
  have hcurrent : s.current c = t := by
    rw [current, Context.peek, hahead]
    rfl
  rw [hcurrent] at heof
  obtain ⟨hcomplete, hlt⟩ := hnext heof
  have hts : (s.shift c leaf).ahead = ts := by
    rw [State.shift]
    simp [hcurrent, heof, hahead]
  have hbefore : ∀ r ∈ s.reports, r.offending.index < ((s.shift c leaf).current c).index := by
    intro r hr
    obtain ⟨u, us, rfl, -⟩ := hcomplete.cases
    have hle := h.reached r hr
    have hstep := hlt u List.mem_cons_self
    rw [hcurrent] at hle
    rw [current, Context.peek, hts]
    exact Nat.lt_of_le_of_lt hle hstep
  refine ⟨⟨?_, hts ▸ hcomplete, h.shown, h.sorted, fun r hr => Nat.le_of_lt (hbefore r hr)⟩,
    fun r hr => Report.before_of_lt (hbefore r hr)⟩
  rw [hts]
  exact (hahead ▸ List.suffix_cons t ts).trans h.ahead

/-- Passing a token, if there is one. -/
theorem Fresh.shift (h : s.Fresh c all) (leaf : Nat → β → β) : (s.shift c leaf).Fresh c all := by
  cases heof : (s.current c).isEof with
  | false => exact h.toOrderly.shift leaf heof
  | true =>
      refine h.of_eq ?_ rfl
      rw [State.shift]
      simp [heof]

/-- Reporting a token that can be reported. -/
theorem Fresh.report (h : s.Fresh c all) (cause : Cause) : (s.report c cause).Orderly c all where
  ahead := h.ahead
  complete := h.complete
  shown r hr := by
    rcases List.mem_append.1 hr with hr | hr
    · exact h.shown r hr
    · rw [List.mem_singleton.1 hr]
      exact h.current_mem
  sorted := by
    refine List.pairwise_append.2 ⟨h.sorted, List.pairwise_singleton _ _, fun r hr r' hr' => ?_⟩
    rw [List.mem_singleton.1 hr']
    exact h.before r hr
  reached r hr := by
    rcases List.mem_append.1 hr with hr | hr
    · exact h.reached r hr
    · rw [List.mem_singleton.1 hr]
      exact Nat.le_refl _

/-- After the report of an insertion the token can still be reported. -/
theorem Fresh.report_missing (h : s.Fresh c all) (kind : TokenKind) :
    (s.report c (.missing kind)).Fresh c all := by
  refine ⟨h.report _, fun r hr => ?_⟩
  rcases List.mem_append.1 hr with hr | hr
  · exact h.before r hr
  · rw [List.mem_singleton.1 hr]
    exact ⟨Nat.le_refl _, fun hinserts => nomatch hinserts⟩

theorem Fresh.fail (h : s.Fresh c all) (r : Reaction) (cause : Cause) :
    (s.fail c r cause).Orderly c all := by
  cases r with
  | bail => exact h.toOrderly
  | recover => exact h.report cause
  | backtrack => exact h.toOrderly

theorem Fresh.refuse (h : s.Fresh c all) (r : Reaction) (why : Refusal) :
    (s.refuse c r why).Orderly c all := by
  cases why with
  | mismatch => exact h.fail r _
  | noAlternative starts =>
      have hnoted : ({ s with expected := noteKinds s.expected starts } : State β).Fresh c all :=
        h.of_eq rfl rfl
      exact hnoted.fail r _
  | gate rule version => exact h.fail r _

variable [Builder β]

/-- A required token is read, or the token before it is deleted with a report, or it is
inserted with a report, or the next token is reported. -/
theorem Fresh.expect (h : s.Fresh c all) (hc : c.ending.isEof = true) (r : Reaction)
    (kind : TokenKind) : (s.expect c r kind).Orderly c all := by
  have hnoted : ({ s with expected := noteKind s.expected kind } : State β).Fresh c all :=
    h.of_eq rfl rfl
  rw [State.expect]
  dsimp only
  split_ifs with hfound hdelete hinsert
  · exact (hnoted.shift Builder.token).of_eq rfl rfl
  · -- the deleted token does not end the input, for then the required one would be found
    have heof : (State.current (State.report { s with expected := noteKind s.expected kind } c
        .extraneous) c).isEof = false := by
      rw [← Bool.not_eq_true]
      intro heof
      obtain ⟨t, ts, hahead, -⟩ := h.complete.cases
      obtain ⟨inner, last, heq, hlast, hinner⟩ := h.complete.ends
      rw [Bool.and_eq_true, beq_iff_eq] at hdelete
      have ht : t.isEof = true := by
        simpa [State.current, State.report, Context.peek, hahead] using heof
      cases inner with
      | nil =>
          rw [heq] at hdelete hfound
          have hkinds : c.ending.kind = last.kind :=
            (beq_iff_eq.1 hc).trans (beq_iff_eq.1 hlast).symm
          have hnext : c.ending.kind = kind := beq_iff_eq.1 hdelete.2
          exact hfound (beq_iff_eq.2 (hkinds.symm.trans hnext))
      | cons u inner =>
          rw [heq, List.cons_append, List.cons.injEq] at hahead
          rw [← hahead.1, hinner u List.mem_cons_self] at ht
          cases ht
    have hskipped := (hnoted.report .extraneous).shift Builder.skipped heof
    exact (hskipped.shift Builder.token).of_eq rfl rfl
  · have hmissing : ({ s with expected := [kind] } : State β).Fresh c all := h.of_eq rfl rfl
    exact (hmissing.report_missing kind).of_eq rfl rfl
  · exact hnoted.fail r .mismatched

end State

/-- A step that changes neither the tokens ahead nor the reports. -/
theorem Outcome.Orderly.map {o : Outcome β} (h : o.Orderly c all) {f : State β → State β}
    (hahead : ∀ s, (f s).ahead = s.ahead) (hreports : ∀ s, (f s).reports = s.reports) :
    (o.map f).Orderly c all := by
  cases o with
  | finished s => exact State.Fresh.of_eq h (hahead s) (hreports s)
  | aborted why s => exact State.Orderly.of_eq h (hahead s) (hreports s)

theorem Outcome.Orderly.andThen {o : Outcome β} (h : o.Orderly c all) {f : State β → Outcome β}
    (hf : ∀ s, s.Fresh c all → (f s).Orderly c all) : (o.andThen f).Orderly c all := by
  cases o with
  | finished s => exact hf s h
  | aborted why s => exact h

end States

/-! ### Programs that stop at the first error -/

section Programs

variable {φ : Type}

/-- Whether a program stops at the first error that it cannot repair, `calls` telling
which phrases do. -/
def Program.stops (calls : φ → Bool) : Program φ → Bool
  | seq p q => p.stops calls && q.stops calls
  | cond _ p q => p.stops calls && q.stops calls
  | loop _ p => p.stops calls
  | node _ p => p.stops calls
  | wrap _ p => p.stops calls
  | attempt p q => p.stops calls && q.stops calls
  | resume _ => false
  | call phrase => calls phrase
  | _ => true

variable {β : Type} [Builder β] {rules : φ → Program φ} {calls : φ → Bool} {fuel : Nat}

theorem exec_orderly (hc : c.ending.isEof = true)
    (hrules : ∀ phrase, calls phrase = true → (rules phrase).stops calls = true)
    (hrecur : ∀ (r : Reaction) (p : Program φ) (s : State β), p.stops calls = true →
      s.Fresh c all → (run c rules fuel r p s).Orderly c all) (p : Program φ) :
    ∀ (r : Reaction) (s : State β), p.stops calls = true → s.Fresh c all →
      (exec c rules (run c rules fuel) r p s).Orderly c all := by
  induction p with
  | done => exact fun r s _ h => h
  | advance => exact fun r s _ h => (h.shift Builder.token).of_eq rfl rfl
  | expect kind => exact fun r s _ h => h.expect hc r kind
  | refuse why => exact fun r s _ h => h.refuse r why
  | seq p q ihp ihq =>
      intro r s hp h
      obtain ⟨hp, hq⟩ := Bool.and_eq_true_iff.1 hp
      exact (ihp r s hp h).andThen fun s' h' => ihq r s' hq h'
  | cond t p q ihp ihq =>
      intro r s hp h
      obtain ⟨hp, hq⟩ := Bool.and_eq_true_iff.1 hp
      rw [exec]
      split
      · exact ihp r _ hp (h.of_eq rfl rfl)
      · exact ihq r _ hq (h.of_eq rfl rfl)
  | loop t p ih =>
      intro r s hp h
      rw [exec]
      split
      case h_1 expected _ =>
        have hround := ih r { s with expected } hp (h.of_eq rfl rfl)
        exact hround.andThen fun s' h' => hrecur r (.loop t p) s' hp h'
      case h_2 => exact h.of_eq rfl rfl
  | node rule p ih =>
      intro r s hp h
      exact (ih r (s.enter c rule) hp (h.of_eq rfl rfl)).map (fun _ => rfl) fun _ => rfl
  | wrap rule p ih =>
      intro r s hp h
      exact (ih r (s.enterAround c rule) hp (h.of_eq rfl rfl)).map (fun _ => rfl) fun _ => rfl
  | attempt p q ihp ihq =>
      intro r s hp h
      obtain ⟨hp, hq⟩ := Bool.and_eq_true_iff.1 hp
      have hattempt := ihp .backtrack s hp h
      have hfollows : Follows c .backtrack s (exec c rules (run c rules fuel) .backtrack p s) :=
        exec_follows (run_follows c rules fuel) p .backtrack s
      -- the attempt reports nothing, so taking it back leaves the state as it was
      have hundone : ∀ s' : State β, s'.reports = s.reports → (s.undo s').Fresh c all :=
        fun s' hs' => h.of_eq rfl hs'
      rw [exec]
      cases ho : exec c rules (run c rules fuel) .backtrack p s with
      | finished s' =>
          rw [ho] at hattempt
          exact hattempt
      | aborted why s' =>
          rw [ho] at hattempt hfollows
          have hs' : s'.reports = s.reports := hfollows.silent (by decide)
          cases why with
          | exhausted => exact hattempt
          | _ => exact ihq r _ hq (hundone s' hs')
  | resume p =>
      intro r s hp
      cases hp
  | call phrase => exact fun r s hp h => hrecur r _ s (hrules phrase hp) h

theorem run_orderly (hc : c.ending.isEof = true)
    (hrules : ∀ phrase, calls phrase = true → (rules phrase).stops calls = true) (fuel : Nat) :
    ∀ (r : Reaction) (p : Program φ) (s : State β), p.stops calls = true → s.Fresh c all →
      (run c rules fuel r p s).Orderly c all := by
  induction fuel with
  | zero => exact fun r p s _ h => h.toOrderly
  | succ fuel ih => exact fun r p s => exec_orderly hc hrules ih p r s

end Programs

theorem grammar_stops (phrase : Phrase) (h : (phrase != .script) = true) :
    (grammar phrase).stops (· != .script) = true := by
  cases phrase with
  | script => cases h
  | frame depth => cases depth <;> rfl
  | alterTokens depth => cases depth <;> rfl
  | _ => rfl

/-! ### Scripts -/

section Script

variable {s : State (List Tree)} {fuel : Nat}

theorem Complete.ended {ahead : List Token} (h : Complete ahead) (hc : c.ending.isEof = true) :
    c.Ended ahead where
  ending := hc
  inner := by
    obtain ⟨inner, last, rfl, -, hinner⟩ := h.ends
    rw [List.dropLast_concat]
    exact hinner

theorem State.Orderly.skipUpTo (n : Nat) :
    ∀ s : State (List Tree), s.Orderly c all → (State.skipUpTo c n s).Orderly c all := by
  induction n with
  | zero => exact fun s h => h
  | succ n ih =>
      intro s h
      rw [State.skipUpTo]
      split
      case isTrue => exact h
      case isFalse hend =>
        have hne := kindAt_ne_eof_of_not_atStatementEnd hend
        exact ih _ (h.shift Builder.skipped (beq_eq_false_iff_ne.2 hne)).toOrderly

/-- After a statement was given up, reading goes on where it ends. -/
theorem State.Orderly.skipStatement (h : s.Orderly c all) (hc : c.ending.isEof = true) :
    (s.skipStatement c).Rested c all :=
  ⟨.skipUpTo _ s h, .inr (State.skipStatement_reads (h.complete.ended hc)).2⟩

/-- What a script keeps from round to round. -/
def Outcome.Rested (c : Context) (all : List Token) : Outcome (List Tree) → Prop
  | .finished s => s.Rested c all
  | .aborted _ s => s.Orderly c all

theorem exec_resume_rested (hc : c.ending.isEof = true) {p : Fragment} {r : Reaction}
    (h : (exec c grammar (run c grammar fuel) r p s).Orderly c all) :
    (exec c grammar (run c grammar fuel) r (.resume p) s).Rested c all := by
  rw [exec]
  cases ho : exec c grammar (run c grammar fuel) r p s with
  | finished s' =>
      rw [ho] at h
      exact State.Fresh.rested h
  | aborted why s' =>
      rw [ho] at h
      cases why with
      | resync => exact State.Orderly.skipStatement h hc
      | _ => exact h

/-- The end of a statement: its semicolon is read, even if it was reported before. -/
theorem exec_end_rested (hc : c.ending.isEof = true) (r : Reaction) (h : s.Rested c all) :
    (exec c grammar (run c grammar fuel) r (.cond (.is .eof) .done (.resume (.expect .semicolon)))
      s).Rested c all := by
  rw [exec]
  split
  case h_1 expected heval =>
    have heof : c.kindAt s.ahead 0 = .eof := by
      simpa [Test.is, Test.eval] using congrArg Prod.fst heval
    refine ⟨h.toOrderly.of_eq rfl rfl, .inr ?_⟩
    simp [Look.atStatementEnd, Look.holds, heof]
  case h_2 expected heval =>
    have hne : c.kindAt s.ahead 0 ≠ .eof := by
      simpa [Test.is, Test.eval] using congrArg Prod.fst heval
    refine exec_resume_rested hc ?_
    rw [exec]
    by_cases hsemicolon : c.kindAt s.ahead 0 = .semicolon
    · -- the semicolon is read, so what was reported lies behind
      have hnoted : ({ s with expected := noteKind expected .semicolon } : State _).Orderly c
          all := h.toOrderly.of_eq rfl rfl
      rw [State.expect]
      simp only [hsemicolon, BEq.rfl, if_true]
      exact (hnoted.shift Builder.token (beq_eq_false_iff_ne.2 hne)).of_eq rfl rfl
    · -- another token was not reported yet
      have hfresh : s.Fresh c all := h.fresh.resolve_right fun hend => by
        simp [Look.atStatementEnd, Look.holds, hne, hsemicolon] at hend
      have hnoted : ({ s with expected } : State _).Fresh c all := hfresh.of_eq rfl rfl
      exact hnoted.expect hc r .semicolon

/-- One round of a script. -/
theorem exec_statements_orderly (hc : c.ending.isEof = true) (r : Reaction)
    (hrecur : ∀ s : State (List Tree), s.Rested c all →
      (run c grammar fuel r statements s).state.Orderly c all) (h : s.Rested c all) :
    (exec c grammar (run c grammar fuel) r statements s).state.Orderly c all := by
  have hand : ∀ {o : Outcome (List Tree)}, o.Rested c all →
      (o.andThen (run c grammar fuel r statements)).state.Orderly c all := by
    intro o ho
    cases o with
    | finished s' => exact hrecur s' ho
    | aborted why s' => exact ho
  by_cases heof : c.kindAt s.ahead 0 = .eof
  · rw [exec_statements_eof r heof]
    exact h.toOrderly.of_eq rfl rfl
  have hne : (s.tried.current c).isEof = false := beq_eq_false_iff_ne.2 heof
  have htried : s.tried.Orderly c all := h.toOrderly.of_eq rfl rfl
  by_cases hsemicolon : c.kindAt s.ahead 0 = .semicolon
  · rw [exec_statements_semicolon r hsemicolon]
    have hread : (s.tried.consume c).Fresh c all :=
      (htried.shift Builder.token hne).of_eq rfl rfl
    exact hrecur _ hread.rested
  · rw [exec_statements_statement r heof hsemicolon]
    -- only at the end of a statement the next token may have been reported already
    have hfresh : s.Fresh c all := h.fresh.resolve_right fun hend => by
      simp [Look.atStatementEnd, Look.holds, heof, hsemicolon] at hend
    have hstatement : (exec c grammar (run c grammar fuel) r (.resume (.call .simpleStatement))
        s.tried).Rested c all :=
      exec_resume_rested hc (exec_orderly hc grammar_stops (run_orderly hc grammar_stops fuel)
        (.call .simpleStatement) r s.tried rfl (hfresh.of_eq rfl rfl))
    refine hand ?_
    generalize exec c grammar (run c grammar fuel) r (.resume (.call .simpleStatement)) s.tried = o
      at hstatement
    cases o with
    | finished s' => exact exec_end_rested hc r hstatement
    | aborted why s' => exact hstatement

theorem run_statements_orderly (hc : c.ending.isEof = true) (r : Reaction) (fuel : Nat) :
    ∀ s : State (List Tree), s.Rested c all →
      (run c grammar fuel r statements s).state.Orderly c all := by
  induction fuel with
  | zero => exact fun s h => h.toOrderly
  | succ fuel ih => exact fun s h => exec_statements_orderly hc r ih h

end Script

/-! ### Parses -/

theorem State.initial_fresh (o : Options) (d : Dialect) (text : String) :
    (State.initial (β := List Tree) (tokenize d text)).Fresh (contextOf o (tokenize d text))
      (significant (tokenize d text)) where
  ahead := List.suffix_rfl
  complete := significant_complete d text
  shown _ hr := absurd hr List.not_mem_nil
  sorted := List.Pairwise.nil
  reached _ hr := absurd hr List.not_mem_nil
  before _ hr := absurd hr List.not_mem_nil

/-- The reports of a script are those of its statements: the end of the input is read
without one. -/
theorem parse_script_reports (o : Options) (tokens : List Token) :
    (parse o .query tokens).reports =
      (exec (contextOf o tokens) grammar
        (run (contextOf o tokens) grammar (callDepth * ((significant tokens).length + 1) + 62))
        o.strategy.reaction statements
        ((State.initial (β := List Tree) tokens).enter (contextOf o tokens)
          .query)).state.reports := by
  let opened : State (List Tree) := (State.initial tokens).enter (contextOf o tokens) .query
  rw [parse, Parse.ofOutcome, outcomeOf_script, Outcome.state_map]
  cases exec (contextOf o tokens) grammar
    (run (contextOf o tokens) grammar (callDepth * ((significant tokens).length + 1) + 62))
    o.strategy.reaction statements opened <;> rfl

/-- The reports of a parse are about tokens of the text, in order. -/
theorem parse_reports_sorted (o : Options) (start : StartRule) (d : Dialect) (text : String) :
    (∀ r ∈ (parse o start (tokenize d text)).reports,
      r.offending ∈ significant (tokenize d text)) ∧
    (parse o start (tokenize d text)).reports.Pairwise fun r r' =>
      r.Before r'.offending.index := by
  have hc : (contextOf o (tokenize d text)).ending.isEof = true := endingOf_isEof _
  have hinitial := State.initial_fresh o d text
  by_cases hstart : start = .query
  · subst hstart
    rw [parse_script_reports]
    have hopened : ((State.initial (tokenize d text)).enter (contextOf o (tokenize d text))
        .query).Rested (contextOf o (tokenize d text)) (significant (tokenize d text)) :=
      State.Fresh.rested (hinitial.of_eq rfl rfl)
    have hstatements := exec_statements_orderly hc o.strategy.reaction
      (run_statements_orderly hc o.strategy.reaction
        (callDepth * ((significant (tokenize d text)).length + 1) + 62)) hopened
    exact ⟨hstatements.shown, hstatements.sorted⟩
  · have hstops : start.program.stops (· != .script) = true := by
      cases start with
      | query => exact absurd rfl hstart
      | _ => rfl
    have hrun : (outcomeOf o start (tokenize d text)).Orderly (contextOf o (tokenize d text))
        (significant (tokenize d text)) :=
      run_orderly hc grammar_stops (fuelFor (tokenize d text)) o.strategy.reaction start.program _
        hstops hinitial
    rw [parse, Parse.ofOutcome]
    cases houtcome : outcomeOf o start (tokenize d text) with
    | finished s =>
        rw [houtcome] at hrun
        exact ⟨State.Orderly.shown hrun.toOrderly, State.Orderly.sorted hrun.toOrderly⟩
    | aborted why s =>
        rw [houtcome] at hrun
        exact ⟨State.Orderly.shown hrun, State.Orderly.sorted hrun⟩

/-- In an ordered list every element but the last is related to another one. -/
theorem exists_of_mem_dropLast {α : Type} {R : α → α → Prop} {l : List α} (h : l.Pairwise R)
    {x : α} (hx : x ∈ l.dropLast) : ∃ y ∈ l, R x y := by
  have hne : l ≠ [] := fun hl => by simp [hl] at hx
  rw [← List.dropLast_append_getLast hne] at h
  exact ⟨l.getLast hne, List.getLast_mem hne,
    (List.pairwise_append.1 h).2.2 x hx _ (List.mem_singleton_self _)⟩

/-- Errors are reported in the order of the source and at most once per token: the reports
are about tokens of the text that are not hidden, in order, and of the reports about one
token all but the last tell that a token was inserted. -/
theorem parse_reports_ordered (d : Dialect) (text : String) (version : ServerVersion)
    (mode : SqlMode) (prediction : Prediction) (start : StartRule) :
    let tokens := tokenize d text
    let reports := (parse ⟨version, mode, prediction, .recover⟩ start tokens).reports
    (reports.Pairwise fun r r' => r.offending.index ≤ r'.offending.index) ∧
    (∀ r ∈ reports, r.offending ∈ tokens ∧ r.offending.isSignificant = true) ∧
    ∀ index, ∀ r ∈ (reports.filter fun r => r.offending.index = index).dropLast,
      "missing".toList <+: r.event.message.toList := by
  intro tokens reports
  obtain ⟨hshown, hsorted⟩ :=
    parse_reports_sorted ⟨version, mode, prediction, .recover⟩ start d text
  refine ⟨hsorted.imp fun h => h.1, fun r hr => ?_, fun index r hr => ?_⟩
  · simpa [significant] using hshown r hr
  · obtain ⟨r', hr', hbefore⟩ := exists_of_mem_dropLast (hsorted.filter _) hr
    have hindex : r.offending.index = index := by
      simpa using (List.mem_filter.1 (List.dropLast_subset _ hr)).2
    have hindex' : r'.offending.index = index := by simpa using (List.mem_filter.1 hr').2
    rw [hindex'] at hbefore
    refine Report.message_of_inserts ?_
    rw [← Bool.not_eq_false]
    intro hinserts
    exact absurd (hbefore.2 hinserts) (by rw [hindex]; exact Nat.lt_irrefl _)

end MySqlAnalysis.Grammar
