import MySqlAnalysis.Config.Basic
import MySqlAnalysis.Proofs.Grammar.Completion
import MySqlAnalysis.Proofs.Grammar.Survey

/-!
# Expected kinds

A report lists the kinds of token that were tried where its token was refused. The kind of the
refused token is not among them, with a few exceptions (`parse_expected`): the grammar notes
the word that begins a locking clause, an index hint or a truth test before it looks whether
the words that belong to it follow, and any identifier where it looks for `ENFORCED`. Each of
these `openings` does occur in a report as both refused and expected
(`exists_refused_of_opening`).
-/

set_option autoImplicit false

namespace MySqlAnalysis.Grammar

/-! ### The openings of the grammar -/

/-- The tokens that are tried as the start of something and left where it does not follow: of
a locking clause, of an index hint, of a truth test, and of a constraint that is enforced. -/
def openings : List Opening :=
  [⟨.keyword .FOR, .wordAt 1 [.UPDATE, .SHARE], none⟩,
   ⟨.keyword .LOCK, .wordAt 1 [.IN], none⟩,
   ⟨.keyword .USE, .wordAt 1 [.INDEX, .KEY], none⟩,
   ⟨.keyword .FORCE, .wordAt 1 [.INDEX, .KEY], none⟩,
   ⟨.keyword .IGNORE, .wordAt 1 [.INDEX, .KEY], none⟩,
   ⟨.keyword .IS,
     .either (.wordAt 1 truthWords) (.both (.wordAt 1 [.NOT]) (.wordAt 2 truthWords)), none⟩,
   ⟨.identifier, .spelled ["ENFORCED"], some .CHECK⟩]

/-- The doubts that may be open where a phrase begins: its first tokens, where they were tried
before the phrase is called. -/
def doubtsBefore : Phrase → List Doubt
  | .exprIs | .predicate | .bitExpr _ | .simpleExpr | .operand =>
    [⟨.keyword .NOT, some (.not (.mode .highNotPrecedence))⟩]
  | .restOfStatement => nextPlainSetting.doubts true
  | .optionValue => nextPlainSetting.doubts false
  | .queryExpression => [.plain (.keyword .SELECT), .plain (.keyword .WITH), .plain .openParen]
  | .querySpecification => [.plain (.keyword .SELECT)]
  | .queryParens | .keyList => [.plain .openParen]
  | .orderClause => [.plain (.keyword .ORDER)]
  | .tableConstraint => (Test.word constraintStarts).doubts true
  | .columnAttribute => nextColumnAttribute.doubts true
  | _ => []

/-- The body of every phrase settles all doubts. -/
theorem grammar_settles (phrase : Phrase) :
    (grammar phrase).settles openings doubtsBefore phrase = true := by
  cases phrase with
  -- the bodies with a number are reduced to finitely many, all others are evaluated
  | expr power =>
      exact exprBody_of_lt (P := fun p => p.settles openings doubtsBefore (.expr 0) = true)
        (by decide +kernel) power
  | bitExpr power =>
      exact bitExprBody_of_lt (P := fun p => p.settles openings doubtsBefore (.bitExpr 0) = true)
        (by decide +kernel) power
  | frame depth => cases depth <;> rfl
  | alterTokens depth => cases depth <;> rfl
  | _ => decide +kernel

/-! ### Parses -/

theorem parse_vouched (o : Options) (rule : StartRule) (tokens : List Token) :
    ∀ r ∈ (parse o rule tokens).reports,
      r.Vouched openings (contextOf o tokens) (significant tokens) := by
  have hvouched : (State.initial (β := List Tree) tokens).Vouched openings (contextOf o tokens)
      (significant tokens) :=
    ⟨List.suffix_rfl, List.nodup_nil, fun _ hr => absurd hr List.not_mem_nil⟩
  have hinitial : (Notes.start []).Hold openings (contextOf o tokens) (significant tokens)
      (State.initial (β := List Tree) tokens) :=
    Notes.hold_of_expected_nil hvouched rfl fun _ hk => absurd hk List.not_mem_nil
  have hok : (rule.program.survey openings doubtsBefore (.start [])).ok = true := by
    cases rule <;> decide +kernel
  have hmeets := run_surveyed (endingOf_isEof tokens) grammar_settles (fuelFor tokens)
    o.strategy.reaction rule.program _ _ hok hinitial
  rw [parse, Parse.ofOutcome, outcomeOf, outcomeIn]
  cases hrun : run (contextOf o tokens) grammar (fuelFor tokens) o.strategy.reaction rule.program
      (State.initial (β := List Tree) tokens) with
  | finished s =>
      rw [hrun] at hmeets
      obtain ⟨-, n, -, hold⟩ := hmeets
      exact hold.reports
  | aborted why s =>
      rw [hrun] at hmeets
      exact hmeets.2.reports

/-- No opening is the end of the input, so where one dangles there is a token ahead. -/
theorem exists_cons_of_dangles {c : Context} {all ahead : List Token} {opening : Opening}
    (hc : c.ending.isEof = true) (hmem : opening ∈ openings)
    (h : opening.Dangles c all ahead) : ∃ rest, ahead = c.peek ahead 0 :: rest := by
  cases ahead with
  | cons t rest => exact ⟨rest, rfl⟩
  | nil =>
      have heof : opening.kind = .eof := h.kind.symm.trans (beq_iff_eq.1 hc)
      have hnone : ∀ opening ∈ openings, opening.kind ≠ .eof := by decide
      exact absurd heof (hnone opening hmem)

/-- The expected kinds of a report are different ones. The kind of the refused token is among
them only if the token is an opening that dangles. -/
theorem parse_expected (o : Options) (rule : StartRule) (tokens : List Token) :
    ∀ r ∈ (parse o rule tokens).reports,
      r.expected.Nodup ∧
      (r.offending.kind ∈ r.expected →
        ∃ rest, r.offending :: rest <:+ significant tokens ∧
          ∃ opening ∈ openings,
            opening.Dangles (contextOf o tokens) (significant tokens) (r.offending :: rest)) := by
  intro r hr
  obtain ⟨hnodup, hdangles⟩ := parse_vouched o rule tokens r hr
  refine ⟨hnodup, fun hmem => ?_⟩
  obtain ⟨ahead, hsuffix, hoffending, opening, hopening, hfails⟩ := hdangles hmem
  obtain ⟨rest, hahead⟩ := exists_cons_of_dangles (endingOf_isEof tokens) hopening hfails
  rw [← hoffending] at hahead
  subst hahead
  exact ⟨rest, hsuffix, opening, hopening, hfails⟩

/-- The name `b` is refused although an identifier is listed: only `ENFORCED` was asked for. -/
theorem parse_expected_enforced :
    ∃ r ∈ (parse ⟨⟨80000⟩, .empty, .bounded, .recover⟩ .query
        (tokenize Config.standard.dialect "CREATE TABLE t (CHECK (a) b)")).reports,
      r.expected.Nodup ∧ r.offending.kind ∈ r.expected ∧
      ∃ rest, r.offending :: rest <:+
          significant (tokenize Config.standard.dialect "CREATE TABLE t (CHECK (a) b)") ∧
        ∃ opening ∈ openings,
          opening.Dangles
            (contextOf ⟨⟨80000⟩, .empty, .bounded, .recover⟩
              (tokenize Config.standard.dialect "CREATE TABLE t (CHECK (a) b)"))
            (significant (tokenize Config.standard.dialect "CREATE TABLE t (CHECK (a) b)"))
            (r.offending :: rest) := by
  obtain ⟨r, hr, hmem⟩ :
      ∃ r ∈ (parse ⟨⟨80000⟩, .empty, .bounded, .recover⟩ .query
        (tokenize Config.standard.dialect "CREATE TABLE t (CHECK (a) b)")).reports,
        r.offending.kind ∈ r.expected := by
    decide +kernel
  obtain ⟨hnodup, hopening⟩ := parse_expected _ _ _ r hr
  exact ⟨r, hr, hnodup, hmem, hopening hmem⟩

/-- A token that is refused can be listed as expected. -/
theorem parse_expects_refused :
    ∃ r ∈ (parse ⟨⟨80000⟩, .empty, .bounded, .recover⟩ .query
        (tokenize Config.standard.dialect "SELECT 1 FOR")).reports,
      r.offending.kind ∈ r.expected := by
  decide +kernel

/-- No opening of the table can be left out: there is a script in which each is refused although
it is listed as expected. -/
theorem exists_refused_of_opening :
    ∃ text, ∀ opening ∈ openings,
      ∃ r ∈ (parse ⟨⟨80000⟩, .empty, .bounded, .recover⟩ .query
          (tokenize Config.standard.dialect text)).reports,
        r.offending.kind = opening.kind ∧ opening.kind ∈ r.expected :=
  ⟨"SELECT 1 FOR; SELECT 1 LOCK; UPDATE t USE; UPDATE t FORCE; UPDATE t IGNORE;" ++
    "SELECT 1 IS; CREATE TABLE t (CHECK (a) b)", by decide +kernel⟩

end MySqlAnalysis.Grammar
