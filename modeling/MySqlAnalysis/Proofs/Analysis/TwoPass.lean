import MySqlAnalysis.Analysis
import MySqlAnalysis.Proofs.Grammar.Building
import MySqlAnalysis.Proofs.Grammar.Completion
import MySqlAnalysis.Proofs.Grammar.Prediction

/-!
# Two runs in place of one

An analysis takes its tree from the fast run and only falls back on the exact
one when the fast run is cancelled. It finds the same as an analysis that always
uses the exact run: a fast run that is not cancelled ends in the state in which
the exact run ends, with nothing reported.
-/

set_option autoImplicit false

namespace MySqlAnalysis

open Grammar

/-! ### The latest error -/

namespace Diagnostics

theorem parser_foldl_observe (events : List SyntaxEvent) :
    ∀ d : Diagnostics, (events.foldl observe d).parser =
      (events.filterMap ParserError.ofEvent?).getLast?.or d.parser := by
  induction events with
  | nil => exact fun d => rfl
  | cons e es ih =>
      intro d
      rw [List.foldl_cons, ih, observe, List.filterMap_cons]
      cases ParserError.ofEvent? e with
      | none => rfl
      | some error =>
          rw [List.getLast?_cons]
          cases (es.filterMap ParserError.ofEvent?).getLast? with
          | none => rfl
          | some last => rfl

/-- The latest event of the grammar decides the parser error. -/
theorem parser_ofEvents (events : List SyntaxEvent) :
    (ofEvents events).parser = (events.filterMap ParserError.ofEvent?).getLast? := by
  rw [ofEvents, parser_foldl_observe]
  exact Option.or_none

end Diagnostics

/-- The parser error that a report of the grammar is translated into. -/
def Grammar.Report.error? (r : Report) : Option ParserError :=
  ParserError.ofEvent? r.event

/-- Every report is translated, so only no report gives no error. -/
theorem Grammar.Report.getLast?_bind_error?_eq_none {reports : List Report} :
    reports.getLast?.bind Report.error? = none ↔ reports = [] := by
  constructor
  · intro h
    cases hlast : reports.getLast? with
    | none => exact List.getLast?_eq_none_iff.1 hlast
    | some last =>
        rw [hlast] at h
        cases h
  · rintro rfl
    rfl

/-- Unreadable text plays no part in the parser error of an analysis. -/
theorem Diagnostics.parser_ofEvents_append (d : Dialect) (text : String)
    (reports : List Report) :
    (Diagnostics.ofEvents (tokenEvents d text ++ reports.map Report.event)).parser =
      reports.getLast?.bind Report.error? := by
  have htokens : (tokenEvents d text).filterMap ParserError.ofEvent? = [] := by
    refine List.filterMap_eq_nil_iff.2 fun e he => ?_
    obtain ⟨l, -, hl⟩ := List.mem_filterMap.1 he
    unfold Token.eventOfLexeme? at hl
    split at hl
    · cases hl
    · cases hl
      rfl
  have hreports : (reports.map Report.event).filterMap ParserError.ofEvent? =
      reports.filterMap Report.error? := by
    rw [List.filterMap_map]
    rfl
  rw [Diagnostics.parser_ofEvents, List.filterMap_append, htokens, hreports, List.nil_append]
  rcases List.eq_nil_or_concat' reports with rfl | ⟨before, last, rfl⟩
  · rfl
  · rw [List.filterMap_append, List.getLast?_concat]
    exact List.getLast?_concat

/-! ### The fast and the exact run -/

namespace Config

variable {c : Config} {rule : StartRule} {tokens : List Token}

theorem program_resolved (rule : StartRule) : rule.program.Resolved := by
  cases rule with
  | identifier => exact Program.resolved_of_plain rfl
  | _ => exact .call _

/-- A fast run that finishes ends where the exact run does, whatever is built. -/
theorem outcomeIn_exact_of_fast {β : Type} [Builder β] {s : State β}
    (h : outcomeIn β c.fastOptions rule tokens = .finished s) :
    outcomeIn β c.exactOptions rule tokens = .finished s :=
  run_of_bounded (contextOf c.exactOptions tokens) grammar_resolved (fuelFor tokens) rule.program
    (program_resolved rule) (State.initial tokens) s h .recover

/-- A fast run that is not cancelled finishes. -/
theorem exists_finished_of_fast (h : Listed tokens)
    (hfast : (parse c.fastOptions rule tokens).cancelled = none) :
    ∃ s, outcomeOf c.fastOptions rule tokens = .finished s ∧ s.reports = [] := by
  have hfollows : Follows _ .bail _ (outcomeOf c.fastOptions rule tokens) :=
    outcomeOf_follows c.fastOptions rule tokens
  have hcompletes := outcomeOf_completes c.fastOptions rule h
  rw [parse, Parse.ofOutcome] at hfast
  generalize outcomeOf c.fastOptions rule tokens = outcome at hfollows hcompletes hfast ⊢
  cases outcome with
  | finished s => exact ⟨s, rfl, hfollows.silent (by decide)⟩
  | aborted why s =>
      -- a run that bails stops early only when it is cancelled or the bound is reached
      have hstops := hfollows.stops why s rfl
      cases why with
      | cancelled token => cases hfast
      | exhausted => exact absurd rfl (hcompletes s)
      | resync => cases hstops
      | backtrack => cases hstops

/-- A fast run that is not cancelled gives what the exact run gives. -/
theorem exact_of_fast (h : Listed tokens)
    (hfast : (parse c.fastOptions rule tokens).cancelled = none) :
    parse c.exactOptions rule tokens = parse c.fastOptions rule tokens ∧
      arenaOf c.exactOptions rule tokens = arenaOf c.fastOptions rule tokens ∧
      (parse c.exactOptions rule tokens).reports = [] := by
  obtain ⟨s, hs, hreports⟩ := exists_finished_of_fast h hfast
  -- the same run with an arena finishes as well, so its exact run ends in the same arena
  have hexact : outcomeOf c.exactOptions rule tokens = .finished s := outcomeIn_exact_of_fast hs
  have halike := outcomeIn_alike c.fastOptions rule tokens
  rw [hs] at halike
  refine ⟨?_, ?_, ?_⟩
  · rw [parse, parse, hs, hexact]
  · cases ha : outcomeIn Arena c.fastOptions rule tokens with
    | finished s' => rw [arenaOf, arenaOf, ha, outcomeIn_exact_of_fast ha]
    | aborted why s' =>
        rw [ha] at halike
        cases halike
  · rw [parse, hexact]
    exact hreports

theorem parseTokens_eq_exact (h : Listed tokens) :
    c.parseTokens rule tokens = parse c.exactOptions rule tokens := by
  rw [parseTokens]
  cases hfast : (parse c.fastOptions rule tokens).cancelled with
  | some token => rfl
  | none => exact (exact_of_fast h hfast).1.symm

theorem arenaTokens_eq_exact (h : Listed tokens) :
    c.arenaTokens rule tokens = arenaOf c.exactOptions rule tokens := by
  rw [arenaTokens]
  cases hfast : (parse c.fastOptions rule tokens).cancelled with
  | some token => rfl
  | none => exact (exact_of_fast h hfast).2.1.symm

theorem analyze_tokens (c : Config) (rule : StartRule) (text : String) :
    (c.analyze rule text).tokens = tokenize c.dialect text := by
  simp [Analysis.tokens, analyze]

/-- The tree of a text is that of the exact run. -/
theorem root_eq_exact (c : Config) (rule : StartRule) (text : String) :
    (c.analyze rule text).document.root =
      (parse c.exactOptions rule (tokenize c.dialect text)).root := by
  rw [← parseTokens_eq_exact (tokenize_listed c.dialect text)]
  rfl

/-- Without a parser error nothing was reported. -/
theorem reports_eq_nil {text : String}
    (h : (c.analyze rule text).diagnostics.parser = none) :
    (parse c.exactOptions rule (tokenize c.dialect text)).reports = [] := by
  rw [← parseTokens_eq_exact (tokenize_listed c.dialect text)]
  refine Report.getLast?_bind_error?_eq_none.1 ?_
  rw [← Diagnostics.parser_ofEvents_append c.dialect text]
  exact h

/-- An analysis finds what the exact run finds over the same tokens. -/
structure FindsExact (c : Config) (rule : StartRule) (text : String) : Prop where
  completes : ∀ s,
    outcomeOf c.exactOptions rule (tokenize c.dialect text) ≠ .aborted .exhausted s
  tree : (c.analyze rule text).document.root =
    (parse c.exactOptions rule (tokenize c.dialect text)).root
  nodes : c.arenaTokens rule (tokenize c.dialect text) =
    arenaOf c.exactOptions rule (tokenize c.dialect text)
  parser_error : (c.analyze rule text).diagnostics.parser =
    (parse c.exactOptions rule (tokenize c.dialect text)).reports.getLast?.bind Report.error?
  no_error : (c.analyze rule text).diagnostics.parser = none ↔
    (parse c.exactOptions rule (tokenize c.dialect text)).reports = []
  events : (c.analyze rule text).grammarEvents =
    (parse c.exactOptions rule (tokenize c.dialect text)).reports.map Report.event
  fast : (parse c.fastOptions rule (tokenize c.dialect text)).cancelled = none →
    arenaOf c.fastOptions rule (tokenize c.dialect text) =
        arenaOf c.exactOptions rule (tokenize c.dialect text) ∧
      (parse c.exactOptions rule (tokenize c.dialect text)).reports = []

/-- Every analysis finds what the exact run alone would find. -/
theorem analyze_finds_exact (c : Config) (rule : StartRule) (text : String) :
    c.FindsExact rule text := by
  have hlisted := tokenize_listed c.dialect text
  have hparse : c.parseTokens rule (tokenize c.dialect text) = _ := parseTokens_eq_exact hlisted
  have herror : (c.analyze rule text).diagnostics.parser =
      (parse c.exactOptions rule (tokenize c.dialect text)).reports.getLast?.bind
        Report.error? := by
    show (Diagnostics.ofEvents (MySqlAnalysis.tokenEvents c.dialect text ++
      (c.parseTokens rule (tokenize c.dialect text)).reports.map Report.event)).parser = _
    rw [hparse]
    exact Diagnostics.parser_ofEvents_append _ _ _
  refine ⟨outcomeOf_completes _ rule hlisted, ?_, arenaTokens_eq_exact hlisted, herror, ?_, ?_, ?_⟩
  · show (c.parseTokens rule (tokenize c.dialect text)).root = _
    rw [hparse]
  · rw [herror]
    exact Grammar.Report.getLast?_bind_error?_eq_none
  · show (c.parseTokens rule (tokenize c.dialect text)).reports.map Report.event = _
    rw [hparse]
  · intro hfast
    obtain ⟨-, harena, hreports⟩ := exact_of_fast hlisted hfast
    exact ⟨harena.symm, hreports⟩

end Config

end MySqlAnalysis
