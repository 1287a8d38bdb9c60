import Mathlib.Data.List.Nodup
import MySqlAnalysis.Config.Basic
import MySqlAnalysis.Proofs.Grammar.Leaves
import MySqlAnalysis.Proofs.Grammar.Sparing

/-!
# The semicolons of a script

A script that recovers from errors puts every semicolon either right below its
root or, as a deleted token, into a report (`parse_semicolons`). What a statement
reads or skips ends in front of its semicolon; only a deletion in front of a
required token takes one away.
-/

set_option autoImplicit false

namespace MySqlAnalysis

/-- The token of a leaf that was accepted. -/
def Tree.accepted? : Tree → Option Nat
  | .token index => some index
  | _ => none

namespace Grammar

/-- Between the two states trees were added, and the semicolons that were passed
are the accepted tokens among these trees and those that were reported as deleted. -/
def State.Lists (s s' : State (List Tree)) : Prop :=
  ∃ (read : List Token) (new : List Report) (added : List Tree) (kept : List Token),
    s.ahead = read ++ s'.ahead ∧ s'.reports = s.reports ++ new ∧ s'.built = s.built ++ added ∧
      added.filterMap Tree.accepted? = kept.map Token.index ∧
        (semicolons read).Perm (kept ++ deletedSemicolons new)

namespace State

variable {c : Context} {s s' s'' : State (List Tree)}

theorem Lists.refl (s : State (List Tree)) : s.Lists s :=
  ⟨[], [], [], [], rfl, (List.append_nil _).symm, (List.append_nil _).symm, rfl, .nil⟩

theorem Lists.trans (h : s.Lists s') (h' : s'.Lists s'') : s.Lists s'' := by
  obtain ⟨read, new, added, kept, hahead, hreports, hbuilt, hkept, hperm⟩ := h
  obtain ⟨read', new', added', kept', hahead', hreports', hbuilt', hkept', hperm'⟩ := h'
  refine ⟨read ++ read', new ++ new', added ++ added', kept ++ kept', ?_, ?_, ?_, ?_, ?_⟩
  · rw [hahead, hahead', List.append_assoc]
  · rw [hreports', hreports, List.append_assoc]
  · rw [hbuilt', hbuilt, List.append_assoc]
  · rw [List.filterMap_append, List.map_append, hkept, hkept']
  · rw [semicolons_append, deletedSemicolons_append]
    refine (hperm.append hperm').trans ?_
    simp only [List.append_assoc]
    refine List.Perm.append_left kept ?_
    rw [← List.append_assoc, ← List.append_assoc]
    exact List.Perm.append_right _ List.perm_append_comm

/-- Where no semicolon is read, the trees that are added accept none. -/
theorem Spares.lists (h : s.Spares s') {added : List Tree} (hbuilt : s'.built = s.built ++ added)
    (hadded : added.filterMap Tree.accepted? = []) : s.Lists s' := by
  obtain ⟨read, new, hahead, hreports, heq⟩ := h
  refine ⟨read, new, added, [], hahead, hreports, hbuilt, hadded, ?_⟩
  rw [heq]
  exact .refl _

theorem Spares.lists_of_built_eq (h : s.Spares s') (hbuilt : s'.built = s.built) : s.Lists s' := by
  rw [← List.append_nil s.built] at hbuilt
  exact h.lists hbuilt rfl

theorem Lists.of_eq (hahead : s'.ahead = s.ahead) (hreports : s'.reports = s.reports)
    (hbuilt : s'.built = s.built) : s.Lists s' :=
  (Spares.of_eq hahead hreports).lists_of_built_eq hbuilt

/-- Reading a semicolon. -/
theorem consume_semicolon_lists (he : c.Ended s.ahead) (hk : c.kindAt s.ahead 0 = .semicolon) :
    s.Lists (s.consume c) := by
  obtain ⟨t, ts, hahead, ht⟩ := he.cons_of_kindAt_ne (by rw [hk]; simp)
  obtain ⟨hts, -⟩ := consume_reads (c := c) hahead ht
  have htk : t.kind = .semicolon := by
    rw [hahead] at hk
    exact hk
  refine ⟨[t], [], [.token t.index], [t], ?_, ?_, ?_, rfl, ?_⟩
  · rw [hts, hahead]
    rfl
  · exact (List.append_nil _).symm
  · simp [consume, shift, current, Context.peek, hahead, Builder.token]
  · simp [semicolons, deletedSemicolons, htk]

theorem skipUpTo_built (n : Nat) :
    ∀ s : State (List Tree), ∃ added, (skipUpTo c n s).built = s.built ++ added ∧
      added.filterMap Tree.accepted? = [] := by
  induction n with
  | zero => exact fun s => ⟨[], (List.append_nil _).symm, rfl⟩
  | succ n ih =>
      intro s
      rw [skipUpTo]
      split
      · exact ⟨[], (List.append_nil _).symm, rfl⟩
      · obtain ⟨added, hbuilt, hadded⟩ := ih (s.skip c)
        refine ⟨.skipped (s.current c).index :: added, ?_, ?_⟩
        · rw [hbuilt]
          simp [skip, shift, Builder.skipped]
        · simpa [Tree.accepted?] using hadded

/-- Giving up on a statement adds skipped tokens, up to its semicolon. -/
theorem skipStatement_lists (he : c.Ended s.ahead) : s.Lists (s.skipStatement c) := by
  obtain ⟨added, hbuilt, hadded⟩ := skipUpTo_built (c := c) s.ahead.length s
  exact (skipUpTo_spares s.ahead.length s he).lists hbuilt hadded

/-- A semicolon that is required is read, possibly after a token in front of it was
deleted, or reported as missing. -/
theorem expect_semicolon_lists (he : c.Ended s.ahead) (r : Reaction) :
    s.Lists (s.expect c r .semicolon).state := by
  rw [expect]
  dsimp only
  split_ifs with hfound hdelete hinsert
  · have hread : State.Lists { s with expected := noteKind s.expected .semicolon }
        (consume { s with expected := noteKind s.expected .semicolon } c) :=
      consume_semicolon_lists he (beq_iff_eq.1 hfound)
    exact (Lists.of_eq rfl rfl rfl).trans hread
  · -- the token in front of the semicolon is deleted
    have hnext := beq_iff_eq.1 (Bool.and_eq_true_iff.1 hdelete).2
    obtain ⟨t, u, ts, hahead, ht, hu⟩ := he.cons_cons_of_kindAt_ne (by rw [hnext]; simp)
    have htk : t.kind ≠ .semicolon := by
      intro hk
      apply hfound
      simp [Context.kindAt, Context.peek, hahead, hk]
    have huk : u.kind = .semicolon := by
      rw [hahead] at hnext
      exact hnext
    refine ⟨[t, u], [⟨t, noteKind s.expected .semicolon, .extraneous⟩],
      [.skipped t.index, .token u.index], [u], ?_, ?_, ?_, rfl, ?_⟩
    · simp [consume, skip, shift, report, current, Context.peek, hahead, ht, hu]
    · simp [consume, skip, shift, report, current, Context.peek, hahead]
    · simp [consume, skip, shift, report, current, Context.peek, hahead, ht, Builder.token,
        Builder.skipped]
    · simp [semicolons, deletedSemicolons, htk, huk]
  · -- a semicolon is never inserted
    simp at hinsert
  · have hcause : Cause.mismatched ≠ .extraneous := by simp
    have hfail := fail_spares c r hcause { s with expected := noteKind s.expected .semicolon }
    apply (hfail.of_start_eq rfl rfl).lists_of_built_eq
    cases r <;> rfl

end State

/-! ### The statements of a script -/

section Script

variable {c : Context} {fuel : Nat} {k : Facts} {s : State (List Tree)}

/-- Giving up on a statement after an error. -/
theorem exec_resume_lists {p : Fragment} (r : Reaction)
    (h : Ready c contractOf fuel p k s)
    (hp : s.Lists (exec c grammar (run c grammar fuel) r p s).state) :
    s.Lists (exec c grammar (run c grammar fuel) r (.resume p) s).state := by
  have hflow := h.flows contractOf_depth contractOf_kept r
  rw [exec]
  split
  case h_1 s' ho =>
    rw [ho] at hp hflow
    exact hp.trans (State.skipStatement_lists (hflow.reads.ended h.ended))
  case h_2 => exact hp

/-- A statement is one node, and reads no semicolon. -/
theorem exec_statement_lists (r : Reaction)
    (h : Ready c contractOf fuel (.call .simpleStatement) k s) :
    s.Lists (exec c grammar (run c grammar fuel) r (.call .simpleStatement) s).state := by
  have hspares :
      s.Spares (exec c grammar (run c grammar fuel) r (.call .simpleStatement) s).state :=
    exec_spares contractOf_depth contractOf_kept contractOf_sparing
      (run_spares c contractOf_depth contractOf_kept contractOf_sparing fuel)
      (.call .simpleStatement) r k s rfl h
  rw [exec] at hspares ⊢
  cases fuel with
  | zero => exact .refl s
  | succ fuel =>
      rw [run, grammar, simpleStatementBody, exec] at hspares ⊢
      -- the parts of the statement are closed in a node
      generalize exec c grammar (run c grammar fuel) r _ (s.enter c .simpleStatement) = o
        at hspares ⊢
      cases o <;> exact hspares.lists rfl rfl

/-- What a round of the script reads. -/
def statementOrSemicolon : Fragment :=
  .cond (.is .semicolon) .advance
    (.seq (.resume (.call .simpleStatement))
      (.cond (.is .eof) .done (.resume (.expect .semicolon))))

theorem exec_statementOrSemicolon_lists (r : Reaction)
    (h : Ready c contractOf fuel statementOrSemicolon k s) :
    s.Lists (exec c grammar (run c grammar fuel) r statementOrSemicolon s).state := by
  rw [statementOrSemicolon] at h ⊢
  rw [exec]
  split
  case h_1 expected heval =>
    have hkind : c.kindAt s.ahead 0 = .semicolon := by
      have htrue := congrArg Prod.fst heval
      simpa [Test.is, Test.eval] using htrue
    have hread : State.Lists { s with expected } (State.consume { s with expected } c) :=
      State.consume_semicolon_lists h.ended hkind
    exact (State.Lists.of_eq rfl rfl rfl).trans hread
  case h_2 expected heval =>
    -- a statement and the semicolon behind it recover separately
    have hready : Ready c contractOf fuel _ _ { s with expected } :=
      (h.cond_false (by rw [heval])).of_ahead_eq rfl
    have hstart : s.Lists { s with expected } := .of_eq rfl rfl rfl
    refine hstart.trans ?_
    have hstatement : Ready c contractOf fuel (.call .simpleStatement) _ { s with expected } :=
      ⟨hready.seq_left.ok, hready.seq_left.holds, hready.seq_left.ended, hready.seq_left.fits⟩
    have hfirst := exec_resume_lists r hstatement (exec_statement_lists r hstatement)
    have hflow := hready.seq_left.flows contractOf_depth contractOf_kept r
    rw [exec]
    generalize exec c grammar (run c grammar fuel) r (.resume (.call .simpleStatement))
      { s with expected } = o at hfirst hflow ⊢
    cases o with
    | aborted why s' => exact hfirst
    | finished s' =>
        obtain ⟨e, -, hrest⟩ := hready.seq_right contractOf_depth hflow
        refine hfirst.trans ?_
        rw [Outcome.andThen_finished, exec]
        split
        case h_1 => exact .of_eq rfl rfl rfl
        case h_2 expected' heval' =>
          have hready' : Ready c contractOf fuel _ _ { s' with expected := expected' } :=
            (hrest.cond_false (by rw [heval'])).of_ahead_eq rfl
          have hexpect : Ready c contractOf fuel (.expect .semicolon) _
              { s' with expected := expected' } :=
            ⟨hready'.ok, hready'.holds, hready'.ended, hready'.fits⟩
          exact (State.Lists.of_eq rfl rfl rfl).trans
            (exec_resume_lists r hexpect (State.expect_semicolon_lists hready'.ended r))

/-- The rounds of a script, one after the other. -/
theorem exec_statements_lists (r : Reaction)
    (hrecur : ∀ room < fuel, ∀ s', Ready c contractOf room statements [] s' →
      s'.Lists (run c grammar fuel r statements s').state)
    (h : Ready c contractOf fuel statements k s) :
    s.Lists (exec c grammar (run c grammar fuel) r statements s).state := by
  have hloop : Ready c contractOf fuel (.loop (.not (.is .eof)) statementOrSemicolon) k s := h
  show s.Lists
    (exec c grammar (run c grammar fuel) r (.loop (.not (.is .eof)) statementOrSemicolon) s).state
  rw [exec]
  split
  case h_1 expected heval =>
    have ht : (Test.eval c s.ahead (.not (.is .eof)) s.expected).1 = true := by rw [heval]
    have hready : Ready c contractOf fuel _ _ { s with expected } :=
      (hloop.loop_body ht).of_ahead_eq rfl
    have hstart : s.Lists { s with expected } := .of_eq rfl rfl rfl
    have hround := hstart.trans (exec_statementOrSemicolon_lists r hready)
    have hflow : Flows c _ s _ :=
      (hready.flows contractOf_depth contractOf_kept r).of_reads_eq rfl rfl
    cases ho : exec c grammar (run c grammar fuel) r statementOrSemicolon { s with expected } with
    | aborted why s' =>
        rw [ho] at hround
        exact hround
    | finished s' =>
        rw [ho] at hround hflow
        obtain ⟨room', hlt, hnext⟩ := hloop.loop_next ht hflow
        exact hround.trans (hrecur room' hlt s' hnext)
  case h_2 => exact .of_eq rfl rfl rfl

theorem run_statements_lists (c : Context) (r : Reaction) (fuel : Nat) :
    ∀ room < fuel, ∀ s, Ready c contractOf room statements [] s →
      s.Lists (run c grammar fuel r statements s).state := by
  induction fuel with
  | zero => exact fun room h => absurd h (Nat.not_lt_zero _)
  | succ fuel ih =>
      intro room hroom s h
      exact exec_statements_lists r ih
        ⟨h.ok, h.holds, h.ended, h.fits.trans (Nat.le_of_lt_succ hroom)⟩

end Script

/-! ### The whole script -/

section Parse

variable {o : Options} {tokens : List Token}

/-- The run of a script that recovers: its statements are read to the end of the
input, which is added last. -/
theorem outcomeOf_query_recover (h : Listed tokens) (ho : o.strategy = .recover) :
    ∃ s : State (List Tree), ((State.initial tokens).enter (contextOf o tokens) .query).Lists s ∧
      (∃ read, significant tokens = read ++ s.ahead ∧ ∀ t ∈ read, t.isEof = false) ∧
      (contextOf o tokens).kindAt s.ahead 0 = .eof ∧
      outcomeOf o .query tokens =
        .finished (State.leave (contextOf o tokens) .query (.initial tokens)
          (s.consume (contextOf o tokens))) := by
  obtain ⟨fuel, hfuel, hroom⟩ : ∃ fuel, fuelFor tokens = fuel + 2 ∧
      callDepth * ((significant tokens).length + 1) ≤ fuel := by
    refine ⟨callDepth * ((significant tokens).length + 1) + 62, ?_, Nat.le_add_right _ _⟩
    rw [fuelFor, callDepth]
    omega
  have hend := outcomeOf_query (o := o) h
  have hfollows := outcomeOf_follows o .query tokens
  have he : (contextOf o tokens).Ended (significant tokens) := contextOf_ended h
  rw [outcomeOf, outcomeIn, hfuel, ho] at hend hfollows ⊢
  -- the script is its statements and then the end of the input, in a node
  have hrun : run (contextOf o tokens) grammar (fuel + 2) ErrorStrategy.recover.reaction
      StartRule.query.program (State.initial (β := List Tree) tokens) =
      ((exec (contextOf o tokens) grammar (run (contextOf o tokens) grammar fuel) .recover
        statements ((State.initial tokens).enter (contextOf o tokens) .query)).andThen
          fun s => .finished (s.consume (contextOf o tokens))).map
            (State.leave (contextOf o tokens) .query (.initial tokens)) := rfl
  rw [hrun] at hend hfollows ⊢
  have hready : Ready (contextOf o tokens) contractOf fuel statements []
      ((State.initial tokens).enter (contextOf o tokens) .query) := by
    refine ⟨by decide +kernel, Facts.hold_nil, he, ?_⟩
    have hdepth := Program.flow_depth_le contractOf_depth statements []
    show callDepth * (significant tokens).length + _ ≤ fuel
    rw [Nat.mul_succ] at hroom
    omega
  have hlists := exec_statements_lists .recover
    (run_statements_lists (contextOf o tokens) .recover fuel) hready
  have hflows := hready.flows contractOf_depth contractOf_kept .recover
  generalize exec (contextOf o tokens) grammar (run (contextOf o tokens) grammar fuel) .recover
    statements ((State.initial (β := List Tree) tokens).enter (contextOf o tokens) .query) = outcome
      at hend hfollows hlists hflows ⊢
  cases outcome with
  | finished s =>
      obtain ⟨e, hmem, hholds⟩ := hflows.ends s rfl
      have hfacts : e.facts = [⟨0, true, [.eof]⟩] :=
        congrArg Ending.facts (Option.some.inj hmem).symm
      have heof : Fact.Holds (contextOf o tokens) s.ahead ⟨0, true, [.eof]⟩ :=
        Facts.hold_singleton.1 (hfacts ▸ hholds.facts)
      obtain ⟨read, hahead, hread, -⟩ := hflows.reads
      refine ⟨s, hlists, ⟨read, hahead, hread⟩, ?_, rfl⟩
      simpa [Fact.Holds] using heof
  | aborted why s =>
      -- a run that recovers is not cancelled
      cases hend with
      | cancelled token => cases hfollows.stops _ _ rfl

/-- A token that is not the end of the input comes before it. -/
theorem mem_read_of_kindAt_eof {c : Context} {read ahead : List Token}
    (he : c.Ended (read ++ ahead)) (hend : c.kindAt ahead 0 = .eof) {t : Token}
    (ht : t ∈ read ++ ahead) (heof : t.isEof = false) : t ∈ read := by
  rcases List.mem_append.1 ht with ht | ht
  · exact ht
  · cases ahead with
    | nil => cases ht
    | cons u us =>
        have hu : u.kind = .eof := hend
        cases us with
        | nil =>
            rw [List.mem_singleton.1 ht] at heof
            simp [Token.isEof, hu] at heof
        | cons v vs =>
            have hinner := he.of_suffix.inner u (by simp)
            simp [Token.isEof, hu] at hinner

/-- A semicolon is kept exactly if it is not deleted. -/
theorem index_mem_kept_iff {read kept deleted : List Token}
    (hperm : (semicolons read).Perm (kept ++ deleted)) (hnodup : (read.map Token.index).Nodup)
    {t : Token} (ht : t ∈ read) (hkind : t.kind = .semicolon) :
    t.index ∈ kept.map Token.index ↔ t ∉ deleted := by
  have hparts : (kept ++ deleted).Nodup :=
    hperm.nodup_iff.1 ((List.Nodup.of_map _ hnodup).filter _)
  have hmem : t ∈ kept ++ deleted :=
    hperm.mem_iff.1 (List.mem_filter.2 ⟨ht, beq_iff_eq.2 hkind⟩)
  constructor
  · intro hindex
    obtain ⟨u, hu, heq⟩ := List.mem_map.1 hindex
    have hread : u ∈ read :=
      (List.mem_filter.1 (hperm.mem_iff.2 (List.mem_append_left _ hu))).1
    rw [← List.inj_on_of_nodup_map hnodup hread ht heq]
    exact fun hdeleted => (List.nodup_append.1 hparts).2.2 u hu u hdeleted rfl
  · intro hnot
    rcases List.mem_append.1 hmem with hmem | hmem
    · exact List.mem_map_of_mem hmem
    · exact absurd hmem hnot

/-- The parts of the root of a script that recovers, and what they have to do with
semicolons. -/
theorem parse_query_children (h : Listed tokens) (ho : o.strategy = .recover) :
    ∃ first last children, (parse o .query tokens).root = some (.node .query first last children) ∧
      ∀ t ∈ significant tokens, t.kind = .semicolon →
        (Tree.token t.index ∈ children ↔
          t ∉ deletedSemicolons (parse o .query tokens).reports) := by
  obtain ⟨s, hlists, ⟨read', hsig, hinner⟩, hend, houtcome⟩ := outcomeOf_query_recover h ho
  obtain ⟨read, new, added, kept, hahead, hreports, hbuilt, hkept, hperm⟩ := hlists
  have hread : read' = read := List.append_cancel_right (hsig.symm.trans hahead)
  subst hread
  have hparse : parse o .query tokens = .ofOutcome (.finished
      (State.leave (contextOf o tokens) .query (.initial tokens)
        (s.consume (contextOf o tokens)))) := by
    rw [parse, houtcome]
  let first := ((State.initial (β := List Tree) tokens).current (contextOf o tokens)).index
  let last := (s.current (contextOf o tokens)).index
  refine ⟨first, (some last).filter (first ≤ ·), added ++ [.token last], ?_, ?_⟩
  · have hbuilt' : s.built = added := hbuilt
    rw [hparse, ← hbuilt']
    rfl
  · intro t ht hkind
    -- a semicolon is not the end of the input, so it was read
    have hmem : t ∈ read' := by
      rw [hsig] at ht
      refine mem_read_of_kindAt_eof (hsig ▸ contextOf_ended h) hend ht ?_
      simp [Token.isEof, hkind]
    have hnodup : (read'.map Token.index).Nodup := by
      have hsorted := h.pairwise_index
      rw [hsig, List.map_append] at hsorted
      exact (List.pairwise_append.1 hsorted).1.imp Nat.ne_of_lt
    have hlt := (index_lt_current (o := o) h hsig hinner).1 t hmem
    have hnew : (parse o .query tokens).reports = new := by
      rw [hparse]
      exact hreports
    rw [hnew, ← index_mem_kept_iff hperm hnodup hmem hkind, ← hkept, List.mem_filterMap,
      List.mem_append, List.mem_singleton]
    -- the last part is the end of the input
    constructor
    · rintro (hadded | hlast)
      · exact ⟨_, hadded, rfl⟩
      · rw [Tree.token.injEq] at hlast
        omega
    · rintro ⟨u, hu, hindex⟩
      cases u with
      | token index =>
          cases hindex
          exact .inl hu
      | _ => cases hindex

/-- In a script that recovers from errors every semicolon is a part of the root,
unless a report tells that it was deleted in front of a required token. -/
theorem parse_semicolons (d : Dialect) (text : String) (version : ServerVersion) (mode : SqlMode)
    (prediction : Prediction) :
    ∃ first last children,
      (parse ⟨version, mode, prediction, .recover⟩ .query (tokenize d text)).root =
          some (.node .query first last children) ∧
        ∀ t ∈ significant (tokenize d text), t.kind = .semicolon →
          (Tree.token t.index ∈ children ↔
            ¬ ∃ r ∈ (parse ⟨version, mode, prediction, .recover⟩ .query (tokenize d text)).reports,
              r.cause = .extraneous ∧ r.offending = t) := by
  obtain ⟨first, last, children, hroot, hchildren⟩ :=
    parse_query_children (o := ⟨version, mode, prediction, .recover⟩) (tokenize_listed d text) rfl
  refine ⟨first, last, children, hroot, fun t ht hkind => ?_⟩
  rw [hchildren t ht hkind, mem_deletedSemicolons]
  simp [hkind]

/-- A semicolon in front of the `SET` that an update requires is deleted, and the
statement after it becomes part of the update. -/
theorem parse_loses_semicolon :
    ∃ t ∈ significant (tokenize Config.standard.dialect "UPDATE t; SET a = 1"),
      t.kind = .semicolon ∧ ∀ prediction : Prediction, ∃ root,
        (parse ⟨⟨80000⟩, .empty, prediction, .recover⟩ .query
          (tokenize Config.standard.dialect "UPDATE t; SET a = 1")).root = some root ∧
        Tree.token t.index ∉ root.children ∧
        root.children.filterMap Tree.rule? = [.simpleStatement] := by
  have hsemicolon : ∃ t ∈ significant (tokenize Config.standard.dialect "UPDATE t; SET a = 1"),
      t.kind = .semicolon ∧ t.index = 3 := by
    decide +kernel
  -- below the root, only the end of the input is an accepted token
  have hroot : ∀ prediction : Prediction,
      ((parse ⟨⟨80000⟩, .empty, prediction, .recover⟩ .query
        (tokenize Config.standard.dialect "UPDATE t; SET a = 1")).root.map fun root =>
          (root.children.filterMap Tree.accepted?, root.children.filterMap Tree.rule?)) =
        some ([12], [.simpleStatement]) := by
    intro prediction
    cases prediction <;> decide +kernel
  obtain ⟨t, ht, hkind, hindex⟩ := hsemicolon
  refine ⟨t, ht, hkind, fun prediction => ?_⟩
  obtain ⟨root, hsome, heq⟩ := Option.map_eq_some_iff.1 (hroot prediction)
  rw [Prod.mk.injEq] at heq
  refine ⟨root, hsome, fun hmem => ?_, heq.2⟩
  have haccepted : t.index ∈ root.children.filterMap Tree.accepted? :=
    List.mem_filterMap.2 ⟨_, hmem, rfl⟩
  rw [heq.1, hindex] at haccepted
  simp at haccepted

end Parse

end Grammar

end MySqlAnalysis
