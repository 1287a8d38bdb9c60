import MySqlAnalysis.Proofs.Grammar.Completion

/-!
# Statements do not read semicolons

A program can be checked to read no semicolon (`Program.spares`). It then moves past
one only where it deletes it, with a report, in front of a required token
(`run_spares`). The bodies of all phrases but that of scripts pass the check
(`contractOf_sparing`).
-/

set_option autoImplicit false

namespace MySqlAnalysis.Grammar

/-! ### Semicolons and their deletion -/

/-- The semicolons among tokens. -/
def semicolons (tokens : List Token) : List Token :=
  tokens.filter fun t => t.kind == .semicolon

/-- The semicolons that were deleted, as the reports tell. -/
def deletedSemicolons (reports : List Report) : List Token :=
  semicolons ((reports.filter fun r => r.cause == .extraneous).map Report.offending)

@[simp]
theorem semicolons_append (a b : List Token) :
    semicolons (a ++ b) = semicolons a ++ semicolons b := by
  simp [semicolons]

@[simp]
theorem deletedSemicolons_append (a b : List Report) :
    deletedSemicolons (a ++ b) = deletedSemicolons a ++ deletedSemicolons b := by
  simp [deletedSemicolons]

theorem mem_deletedSemicolons {reports : List Report} {t : Token} :
    t ∈ deletedSemicolons reports ↔
      t.kind = .semicolon ∧ ∃ r ∈ reports, r.cause = .extraneous ∧ r.offending = t := by
  simp only [deletedSemicolons, semicolons, List.mem_filter, List.mem_map, beq_iff_eq]
  constructor
  · rintro ⟨⟨r, ⟨hr, hcause⟩, rfl⟩, hkind⟩
    exact ⟨hkind, r, hr, hcause, rfl⟩
  · rintro ⟨hkind, r, hr, hcause, rfl⟩
    exact ⟨⟨r, ⟨hr, hcause⟩, rfl⟩, hkind⟩

/-- Between the two states exactly those semicolons were passed that were
reported as deleted. -/
def State.Spares (s s' : State (List Tree)) : Prop :=
  ∃ (read : List Token) (new : List Report), s.ahead = read ++ s'.ahead ∧
    s'.reports = s.reports ++ new ∧ semicolons read = deletedSemicolons new

namespace State

variable {c : Context} {s s' s'' : State (List Tree)}

theorem Spares.of_eq (hahead : s'.ahead = s.ahead) (hreports : s'.reports = s.reports) :
    s.Spares s' :=
  ⟨[], [], by rw [hahead]; rfl, by rw [hreports, List.append_nil], rfl⟩

theorem Spares.refl (s : State (List Tree)) : s.Spares s :=
  .of_eq rfl rfl

theorem Spares.trans (h : s.Spares s') (h' : s'.Spares s'') : s.Spares s'' := by
  obtain ⟨read, new, hahead, hreports, heq⟩ := h
  obtain ⟨read', new', hahead', hreports', heq'⟩ := h'
  refine ⟨read ++ read', new ++ new', ?_, ?_, ?_⟩
  · rw [hahead, hahead', List.append_assoc]
  · rw [hreports', hreports, List.append_assoc]
  · rw [semicolons_append, deletedSemicolons_append, heq, heq']

/-- The same end from a state with the same tokens ahead and reports. -/
theorem Spares.of_start_eq (h : s'.Spares s'') (hahead : s'.ahead = s.ahead)
    (hreports : s'.reports = s.reports) : s.Spares s'' :=
  (Spares.of_eq hahead hreports).trans h

/-- A token that is not a semicolon was passed. -/
theorem Spares.of_cons {t : Token} (hahead : s.ahead = t :: s'.ahead)
    (hkind : t.kind ≠ .semicolon) (hreports : s'.reports = s.reports) : s.Spares s' := by
  refine ⟨[t], [], hahead, by rw [hreports, List.append_nil], ?_⟩
  simp [semicolons, deletedSemicolons, hkind]

/-- A report was made that deletes no semicolon. -/
theorem Spares.of_report {r : Report} (hahead : s'.ahead = s.ahead)
    (hreports : s'.reports = s.reports ++ [r]) (hr : r.cause ≠ .extraneous) : s.Spares s' := by
  refine ⟨[], [r], by rw [hahead]; rfl, hreports, ?_⟩
  simp [semicolons, deletedSemicolons, hr]

theorem fail_spares (c : Context) (r : Reaction) {cause : Cause} (hcause : cause ≠ .extraneous)
    (s : State (List Tree)) : s.Spares (s.fail c r cause).state := by
  cases r with
  | bail => exact .refl s
  | recover => exact .of_report rfl rfl hcause
  | backtrack => exact .refl s

theorem refuse_spares (c : Context) (r : Reaction) (why : Refusal) (s : State (List Tree)) :
    s.Spares (s.refuse c r why).state := by
  cases why with
  | mismatch => exact fail_spares c r (by simp) s
  | noAlternative starts => exact (fail_spares c r (by simp) _).of_start_eq rfl rfl
  | gate rule version => exact fail_spares c r (by simp) s

/-- A token that is read and is no semicolon. -/
theorem consume_spares (he : c.Ended s.ahead) (heof : c.kindAt s.ahead 0 ≠ .eof)
    (hkind : c.kindAt s.ahead 0 ≠ .semicolon) : s.Spares (s.consume c) := by
  obtain ⟨t, ts, hahead, ht⟩ := he.cons_of_kindAt_ne heof
  obtain ⟨hts, -⟩ := consume_reads (c := c) hahead ht
  rw [hahead] at hkind
  exact .of_cons (t := t) (by rw [hts, hahead]) hkind rfl

/-- A required token is read, or the token before it is deleted, which may be a semicolon. -/
theorem expect_spares (he : c.Ended s.ahead) (r : Reaction) {kind : TokenKind}
    (heof : kind ≠ .eof) (hkind : kind ≠ .semicolon) : s.Spares (s.expect c r kind).state := by
  rw [expect]
  dsimp only
  split_ifs with hfound hdelete hinsert
  · rw [beq_iff_eq] at hfound
    have hread : State.Spares { s with expected := noteKind s.expected kind }
        (consume { s with expected := noteKind s.expected kind } c) :=
      consume_spares he (by rw [hfound]; exact heof) (by rw [hfound]; exact hkind)
    exact hread.of_start_eq rfl rfl
  · have hnext := beq_iff_eq.1 (Bool.and_eq_true_iff.1 hdelete).2
    obtain ⟨t, u, ts, hahead, ht, hu⟩ :=
      he.cons_cons_of_kindAt_ne (by rw [hnext]; exact heof)
    have huk : u.kind ≠ .semicolon := by
      rw [hahead] at hnext
      exact fun h => hkind (hnext.symm.trans h)
    -- the report about the first token tells whether it was a semicolon
    refine ⟨[t, u], [⟨t, noteKind s.expected kind, .extraneous⟩], ?_, ?_, ?_⟩
    · simp [State.consume, State.skip, State.shift, State.report, State.current, Context.peek,
        hahead, ht, hu]
    · simp [State.consume, State.skip, State.shift, State.report, State.current, Context.peek,
        hahead]
    · simp [semicolons, deletedSemicolons, List.filter_cons, huk]
  · exact .of_report rfl rfl (by simp)
  · exact (fail_spares c r (by simp) _).of_start_eq rfl rfl

/-- Giving up on a statement stops in front of its semicolon. -/
theorem skipUpTo_spares (n : Nat) :
    ∀ s : State (List Tree), c.Ended s.ahead → s.Spares (skipUpTo c n s) := by
  induction n with
  | zero => exact fun s he => .refl s
  | succ n ih =>
      intro s he
      rw [skipUpTo]
      split
      case isTrue => exact .refl s
      case isFalse hend =>
        obtain ⟨t, ts, hahead, ht⟩ :=
          he.cons_of_kindAt_ne (kindAt_ne_eof_of_not_atStatementEnd hend)
        obtain ⟨hts, hreads⟩ := skip_reads (c := c) hahead ht
        have hkind : t.kind ≠ .semicolon := by
          intro hk
          apply hend
          simp [Look.atStatementEnd, Look.holds, Context.kindAt, Context.peek, hahead, hk]
        have hskip : s.Spares (s.skip c) := .of_cons (t := t) (by rw [hts, hahead]) hkind rfl
        exact hskip.trans (ih _ (hreads.ended he))

end State

/-! ### Programs that read no semicolon -/

variable {φ : Type}

/-- Whether a program reads no semicolon at a place where the facts hold. A phrase
that relies on more input relies on it in the same statement. -/
def Program.spares (contracts : φ → Option Contract) : Program φ → Facts → Bool
  | done, _ => true
  | advance, k => k.rulesOut 0 .semicolon
  | expect kind, _ => kind != .semicolon
  | refuse _, _ => true
  | seq p q, k =>
    p.spares contracts k && (p.flow contracts k).ending.all fun e => q.spares contracts e.facts
  | cond t p q, k =>
    ((t.facts true ++ k).impossible || p.spares contracts (t.facts true ++ k)) &&
      ((t.facts false ++ k).impossible || q.spares contracts (t.facts false ++ k))
  | loop t p, _ => (t.facts true).impossible || p.spares contracts (t.facts true)
  | node _ p, k => p.spares contracts k
  | wrap _ p, k => p.spares contracts k
  | attempt p q, k => p.spares contracts k && q.spares contracts k
  | resume p, k => p.spares contracts k
  | call phrase, k =>
    (contracts phrase).all fun contract => !contract.inside || k.rulesOut 0 .semicolon

/-- What the body of a phrase can rely on when semicolons are spared. -/
def Contract.entry (k : Contract) : Facts :=
  if k.inside then [⟨0, false, [.eof]⟩, ⟨0, false, [.semicolon]⟩] else []

/-- Whether the body of a phrase reads no semicolon and keeps its promises. -/
def Contract.allowsSparing (contracts : φ → Option Contract) (k : Contract) (body : Program φ) :
    Bool :=
  body.spares contracts k.entry && k.allows (body.flow contracts k.entry)

/-- A place in a run where a program can be started: its check succeeds, the facts
hold, and there is room for its calls. -/
structure Ready (c : Context) (contracts : φ → Option Contract) (room : Nat) (p : Program φ)
    (k : Facts) (s : State (List Tree)) : Prop where
  ok : (p.flow contracts k).ok = true
  holds : k.Hold c s.ahead
  ended : c.Ended s.ahead
  fits : callDepth * s.ahead.length + (p.flow contracts k).depth ≤ room

namespace Ready

variable {c : Context} {contracts : φ → Option Contract} {room : Nat} {p q : Program φ}
  {t : Test} {k : Facts} {s s' : State (List Tree)}

/-- Only the tokens ahead matter. -/
theorem of_ahead_eq (h : Ready c contracts room p k s) (hahead : s'.ahead = s.ahead) :
    Ready c contracts room p k s' := by
  obtain ⟨hok, hk, he, hfits⟩ := h
  rw [← hahead] at hk he hfits
  exact ⟨hok, hk, he, hfits⟩

theorem seq_left (h : Ready c contracts room (.seq p q) k s) : Ready c contracts room p k s := by
  obtain ⟨hok, hk, he, hfits⟩ := h
  rw [Program.flow] at hok hfits
  dsimp only at hok hfits
  split at hok
  case h_1 hend =>
    simp only [hend] at hfits
    exact ⟨hok, hk, he, hfits⟩
  case h_2 e hend =>
    simp only [hend] at hfits
    exact ⟨(Bool.and_eq_true_iff.1 hok).1, hk, he, (le_of_add_max_le hfits).1⟩

/-- The second program starts where the first one finished. -/
theorem seq_right (hdepth : ∀ phrase k, contracts phrase = some k → k.depth < callDepth)
    (h : Ready c contracts room (.seq p q) k s)
    (hp : Flows c (p.flow contracts k) s (.finished s')) :
    ∃ e ∈ (p.flow contracts k).ending, Ready c contracts room q e.facts s' := by
  obtain ⟨hok, hk, he, hfits⟩ := h
  obtain ⟨e, hmem, hholds⟩ := hp.ends s' rfl
  have hend : (p.flow contracts k).ending = some e := hmem
  rw [Program.flow] at hok hfits
  simp only [hend] at hok hfits
  obtain ⟨-, hokq⟩ := Bool.and_eq_true_iff.1 hok
  obtain ⟨-, hfitsq⟩ := le_of_add_max_le hfits
  refine ⟨e, hmem, hokq, hholds.facts, hp.reads.ended he, ?_⟩
  have hle := hp.reads.length_le
  rw [Outcome.state_finished] at hle
  -- a token that was read makes room for every flow, however deep
  cases hm : e.moved with
  | true =>
      have hlt := hholds.moved hm
      have hqd := Program.flow_depth_le hdepth q e.facts
      have hmul := callDepth_mul_add_le hlt
      omega
  | false =>
      have hmul : callDepth * s'.ahead.length ≤ callDepth * s.ahead.length :=
        Nat.mul_le_mul_left _ hle
      rw [hm, if_neg Bool.false_ne_true] at hfitsq
      omega

theorem cond_true (h : Ready c contracts room (.cond t p q) k s)
    (ht : (t.eval c s.ahead s.expected).1 = true) :
    Ready c contracts room p (t.facts true ++ k) s := by
  obtain ⟨hok, hk, he, hfits⟩ := h
  have hfacts : (t.facts true ++ k).Hold c s.ahead :=
    Facts.hold_append.2 ⟨t.facts_hold s.expected true ht, hk⟩
  rw [Program.flow] at hok hfits
  dsimp only at hok hfits
  rw [Flow.reached_of_hold hfacts] at hok hfits
  exact ⟨(Bool.and_eq_true_iff.1 hok).1, hfacts, he, (le_of_add_max_le hfits).1⟩

theorem cond_false (h : Ready c contracts room (.cond t p q) k s)
    (ht : (t.eval c s.ahead s.expected).1 = false) :
    Ready c contracts room q (t.facts false ++ k) s := by
  obtain ⟨hok, hk, he, hfits⟩ := h
  have hfacts : (t.facts false ++ k).Hold c s.ahead :=
    Facts.hold_append.2 ⟨t.facts_hold s.expected false ht, hk⟩
  rw [Program.flow] at hok hfits
  dsimp only at hok hfits
  rw [Flow.reached_of_hold hfacts] at hok hfits
  exact ⟨(Bool.and_eq_true_iff.1 hok).2, hfacts, he, (le_of_add_max_le hfits).2⟩

theorem loop_body (h : Ready c contracts room (.loop t p) k s)
    (ht : (t.eval c s.ahead s.expected).1 = true) :
    Ready c contracts room p (t.facts true) s := by
  obtain ⟨hok, -, he, hfits⟩ := h
  have hfacts : (t.facts true).Hold c s.ahead := t.facts_hold s.expected true ht
  rw [Program.flow] at hok hfits
  dsimp only at hok hfits
  rw [Flow.reached_of_hold hfacts] at hok hfits
  exact ⟨(Bool.and_eq_true_iff.1 hok).1, hfacts, he, hfits⟩

/-- A round reads a token, which makes room for the next one. -/
theorem loop_next (h : Ready c contracts room (.loop t p) k s)
    (ht : (t.eval c s.ahead s.expected).1 = true)
    (hp : Flows c (p.flow contracts (t.facts true)) s (.finished s')) :
    ∃ room' < room, Ready c contracts room' (.loop t p) [] s' := by
  obtain ⟨hok, -, he, hfits⟩ := h
  have hmoves := hok
  rw [Program.flow] at hmoves
  dsimp only at hmoves
  rw [Flow.reached_of_hold (t.facts_hold s.expected true ht)] at hmoves
  obtain ⟨e, hmem, hholds⟩ := hp.ends s' rfl
  have hlt := hholds.moved ((Option.all_eq_true _ _).1 (Bool.and_eq_true_iff.1 hmoves).2 e hmem)
  have hsame : ((Program.loop t p).flow contracts []).depth =
    ((Program.loop t p).flow contracts k).depth := rfl
  have hmul := callDepth_mul_add_le hlt
  have hpos : 0 < callDepth := by decide
  exact ⟨_, by omega, hok, Facts.hold_nil, hp.reads.ended he, le_rfl⟩

theorem attempt_left (h : Ready c contracts room (.attempt p q) k s) :
    Ready c contracts room p k s := by
  obtain ⟨hok, hk, he, hfits⟩ := h
  exact ⟨(Bool.and_eq_true_iff.1 hok).1, hk, he, (le_of_add_max_le hfits).1⟩

theorem attempt_right (h : Ready c contracts room (.attempt p q) k s) :
    Ready c contracts room q k s := by
  obtain ⟨hok, hk, he, hfits⟩ := h
  exact ⟨(Bool.and_eq_true_iff.1 hok).2, hk, he, (le_of_add_max_le hfits).2⟩

/-- A phrase that is called has a contract. -/
theorem exists_contract {phrase : φ} (h : Ready c contracts room (.call phrase) k s) :
    ∃ contract, contracts phrase = some contract := by
  have hok := h.ok
  rw [Program.flow] at hok
  cases hcontract : contracts phrase with
  | none =>
      simp only [hcontract] at hok
      cases hok
  | some contract => exact ⟨contract, rfl⟩

/-- The body of a phrase starts where the phrase is called. -/
theorem body {phrase : φ} {contract : Contract} {body : Program φ}
    (h : Ready c contracts room (.call phrase) k s) (hcontract : contracts phrase = some contract)
    (hbody : contract.allows (body.flow contracts contract.facts) = true) :
    ∃ room' < room, Ready c contracts room' body contract.facts s := by
  obtain ⟨hok, hk, he, hfits⟩ := h
  rw [Program.flow] at hok hfits
  simp only [hcontract] at hok hfits
  simp only [Contract.allows, Bool.and_eq_true, decide_eq_true_eq] at hbody
  refine ⟨room - 1, by omega, hbody.1.1, ?_, he, by omega⟩
  rw [Contract.facts]
  split
  case isTrue hinside =>
    rw [hinside, Bool.not_true, Bool.false_or] at hok
    have hne := Facts.kindAt_ne_of_rulesOut hk hok
    simpa [Facts.hold_singleton, Fact.Holds] using hne
  case isFalse => exact Facts.hold_nil

/-- The body of a phrase starts where the phrase is called, outside semicolons. -/
theorem call {phrase : φ} {contract : Contract} {body : Program φ}
    (h : Ready c contracts room (.call phrase) k s) (hcontract : contracts phrase = some contract)
    (hbody : contract.allowsSparing contracts body = true)
    (hspares : (Program.call phrase).spares contracts k = true) :
    ∃ room' < room, Ready c contracts room' body contract.entry s := by
  obtain ⟨hok, hk, he, hfits⟩ := h
  rw [Program.flow] at hok hfits
  simp only [hcontract] at hok hfits
  simp only [Program.spares, hcontract, Option.all_some] at hspares
  simp only [Contract.allowsSparing, Contract.allows, Bool.and_eq_true, decide_eq_true_eq] at hbody
  refine ⟨room - 1, by omega, hbody.2.1.1, ?_, he, by omega⟩
  rw [Contract.entry]
  split
  case isTrue hinside =>
    rw [hinside, Bool.not_true, Bool.false_or] at hok hspares
    have hne := Facts.kindAt_ne_of_rulesOut hk hok
    have hne' := Facts.kindAt_ne_of_rulesOut hk hspares
    intro f hf
    simp only [List.mem_cons, List.not_mem_nil, or_false] at hf
    rcases hf with rfl | rfl
    · simpa [Fact.Holds] using hne
    · simpa [Fact.Holds] using hne'
  case isFalse => exact Facts.hold_nil

end Ready

section Programs

variable {c : Context} {rules : φ → Program φ} {contracts : φ → Option Contract} {fuel : Nat}

/-- A program that is checked to spare semicolons does so wherever it is ready. -/
def Sparing (c : Context) (contracts : φ → Option Contract) (room : Nat)
    (go : Reaction → Program φ → State (List Tree) → Outcome (List Tree)) (p : Program φ) : Prop :=
  ∀ (r : Reaction) (k : Facts) (s : State (List Tree)), p.spares contracts k = true →
    Ready c contracts room p k s → s.Spares (go r p s).state

section Parts

variable (hdepth : ∀ phrase k, contracts phrase = some k → k.depth < callDepth)
  (hrules : ∀ phrase k, contracts phrase = some k →
    k.allows ((rules phrase).flow contracts k.facts) = true)

include hdepth hrules

theorem Ready.flows {p : Program φ} {k : Facts} {s : State (List Tree)}
    (h : Ready c contracts fuel p k s) (r : Reaction) :
    Flows c (p.flow contracts k) s (exec c rules (run c rules fuel) r p s) :=
  exec_flows hdepth hrules (run_flows c hdepth hrules fuel) p r k s h.ok h.holds h.ended h.fits

theorem exec_spares_seq {p q : Program φ}
    (hp : Sparing c contracts fuel (exec c rules (run c rules fuel)) p)
    (hq : Sparing c contracts fuel (exec c rules (run c rules fuel)) q) :
    Sparing c contracts fuel (exec c rules (run c rules fuel)) (.seq p q) := by
  intro r k s hpq h
  obtain ⟨hcheck, hcheck'⟩ := Bool.and_eq_true_iff.1 hpq
  have hfirst := hp r k s hcheck h.seq_left
  have hflow := h.seq_left.flows hdepth hrules r
  rw [exec]
  cases ho : exec c rules (run c rules fuel) r p s with
  | aborted why s' =>
      rw [ho] at hfirst
      exact hfirst
  | finished s' =>
      rw [ho] at hfirst hflow
      obtain ⟨e, hmem, hready⟩ := h.seq_right hdepth hflow
      exact hfirst.trans (hq r e.facts s' ((Option.all_eq_true _ _).1 hcheck' e hmem) hready)

theorem exec_spares_loop {t : Test} {p : Program φ}
    (hrecur : ∀ p, ∀ room < fuel, Sparing c contracts room (run c rules fuel) p)
    (hp : Sparing c contracts fuel (exec c rules (run c rules fuel)) p) :
    Sparing c contracts fuel (exec c rules (run c rules fuel)) (.loop t p) := by
  intro r k s hloop h
  rw [exec]
  split
  case h_1 expected heval =>
    have ht : (t.eval c s.ahead s.expected).1 = true := by rw [heval]
    have hready : Ready c contracts fuel p (t.facts true) { s with expected } :=
      (h.loop_body ht).of_ahead_eq rfl
    -- a round that no input starts was not checked
    have hcheck : p.spares contracts (t.facts true) = true := by
      rcases Bool.or_eq_true_iff.1 hloop with himp | hcheck
      · exact absurd hready.holds (Facts.not_hold_of_impossible himp)
      · exact hcheck
    have hround := (hp r _ { s with expected } hcheck hready).of_start_eq (s := s) rfl rfl
    have hflow : Flows c _ s _ := (hready.flows hdepth hrules r).of_reads_eq rfl rfl
    cases ho : exec c rules (run c rules fuel) r p { s with expected } with
    | aborted why s' =>
        rw [ho] at hround
        exact hround
    | finished s' =>
        rw [ho] at hround hflow
        obtain ⟨room', hlt, hnext⟩ := h.loop_next ht hflow
        exact hround.trans (hrecur (.loop t p) room' hlt r [] s' hloop hnext)
  case h_2 => exact .of_eq rfl rfl

/-- An attempt reports nothing, so taking it back leaves no trace. -/
theorem exec_spares_attempt {p q : Program φ}
    (hp : Sparing c contracts fuel (exec c rules (run c rules fuel)) p)
    (hq : Sparing c contracts fuel (exec c rules (run c rules fuel)) q) :
    Sparing c contracts fuel (exec c rules (run c rules fuel)) (.attempt p q) := by
  intro r k s hpq h
  obtain ⟨hcheck, hcheck'⟩ := Bool.and_eq_true_iff.1 hpq
  have hattempt := hp .backtrack k s hcheck h.attempt_left
  have hflow := h.attempt_left.flows hdepth hrules .backtrack
  have hfollows : Follows c .backtrack s (exec c rules (run c rules fuel) .backtrack p s) :=
    exec_follows (run_follows c rules fuel) p .backtrack s
  rw [exec]
  cases ho : exec c rules (run c rules fuel) .backtrack p s with
  | finished s' =>
      rw [ho] at hattempt
      exact hattempt
  | aborted why s' =>
      rw [ho] at hfollows
      have hsilent : (s.undo s').reports = s.reports := hfollows.silent (by simp)
      have hother := (hq r k (s.undo s') hcheck'
        (h.attempt_right.of_ahead_eq rfl)).of_start_eq (s := s) rfl hsilent
      cases why with
      | exhausted => exact absurd ho (hflow.completes s')
      | cancelled token => exact hother
      | resync => exact hother
      | backtrack => exact hother

theorem exec_spares_resume {p : Program φ}
    (hp : Sparing c contracts fuel (exec c rules (run c rules fuel)) p) :
    Sparing c contracts fuel (exec c rules (run c rules fuel)) (.resume p) := by
  intro r k s hcheck h
  have hready : Ready c contracts fuel p k s := ⟨h.ok, h.holds, h.ended, h.fits⟩
  have hbody := hp r k s hcheck hready
  have hflow := hready.flows hdepth hrules r
  rw [exec]
  split
  case h_1 s' ho =>
    rw [ho] at hbody hflow
    exact hbody.trans (State.skipUpTo_spares _ s' (hflow.reads.ended h.ended))
  case h_2 => exact hbody

end Parts

theorem exec_spares_cond {t : Test} {p q : Program φ}
    (hp : Sparing c contracts fuel (exec c rules (run c rules fuel)) p)
    (hq : Sparing c contracts fuel (exec c rules (run c rules fuel)) q) :
    Sparing c contracts fuel (exec c rules (run c rules fuel)) (.cond t p q) := by
  intro r k s hpq h
  obtain ⟨hcheck, hcheck'⟩ := Bool.and_eq_true_iff.1 hpq
  rw [exec]
  -- a branch whose facts contradict each other is not taken
  split
  case h_1 expected heval =>
    have hready := h.cond_true (by rw [heval])
    rcases Bool.or_eq_true_iff.1 hcheck with himp | hcheck
    · exact absurd hready.holds (Facts.not_hold_of_impossible himp)
    · exact (hp r _ { s with expected } hcheck (hready.of_ahead_eq rfl)).of_start_eq rfl rfl
  case h_2 expected heval =>
    have hready := h.cond_false (by rw [heval])
    rcases Bool.or_eq_true_iff.1 hcheck' with himp | hcheck
    · exact absurd hready.holds (Facts.not_hold_of_impossible himp)
    · exact (hq r _ { s with expected } hcheck (hready.of_ahead_eq rfl)).of_start_eq rfl rfl

theorem exec_spares (hdepth : ∀ phrase k, contracts phrase = some k → k.depth < callDepth)
    (hrules : ∀ phrase k, contracts phrase = some k →
      k.allows ((rules phrase).flow contracts k.facts) = true)
    (hsparing : ∀ phrase k, contracts phrase = some k →
      k.allowsSparing contracts (rules phrase) = true)
    (hrecur : ∀ p, ∀ room < fuel, Sparing c contracts room (run c rules fuel) p)
    (p : Program φ) : Sparing c contracts fuel (exec c rules (run c rules fuel)) p := by
  induction p with
  | done => exact fun r k s hcheck h => .refl s
  | advance =>
      intro r k s hcheck h
      exact State.consume_spares h.ended (Facts.kindAt_ne_of_rulesOut h.holds h.ok)
        (Facts.kindAt_ne_of_rulesOut h.holds hcheck)
  | expect kind =>
      intro r k s hcheck h
      exact State.expect_spares h.ended r (bne_iff_ne.1 h.ok) (bne_iff_ne.1 hcheck)
  | refuse why => exact fun r k s hcheck h => State.refuse_spares c r why s
  | seq p q ihp ihq => exact exec_spares_seq hdepth hrules ihp ihq
  | cond t p q ihp ihq => exact exec_spares_cond ihp ihq
  | loop t p ih => exact exec_spares_loop hdepth hrules hrecur ih
  | node rule p ih =>
      intro r k s hcheck h
      have hbody := ih r k (s.enter c rule) hcheck ⟨h.ok, h.holds, h.ended, h.fits⟩
      rw [exec]
      cases ho : exec c rules (run c rules fuel) r p (s.enter c rule) <;> rw [ho] at hbody
      all_goals exact (hbody.trans (.of_eq rfl rfl)).of_start_eq rfl rfl
  | wrap rule p ih =>
      intro r k s hcheck h
      have hbody := ih r k (s.enterAround c rule) hcheck ⟨h.ok, h.holds, h.ended, h.fits⟩
      rw [exec]
      cases ho : exec c rules (run c rules fuel) r p (s.enterAround c rule) <;> rw [ho] at hbody
      all_goals exact (hbody.trans (.of_eq rfl rfl)).of_start_eq rfl rfl
  | attempt p q ihp ihq => exact exec_spares_attempt hdepth hrules ihp ihq
  | resume p ih => exact exec_spares_resume hdepth hrules ih
  | call phrase =>
      intro r k s hcheck h
      obtain ⟨contract, hcontract⟩ := h.exists_contract
      have hbody := hsparing phrase contract hcontract
      obtain ⟨room', hlt, hready⟩ := h.call hcontract hbody hcheck
      exact hrecur (rules phrase) room' hlt r contract.entry s
        (Bool.and_eq_true_iff.1 hbody).1 hready

/-- Every run of a program that is checked to spare semicolons does so. -/
theorem run_spares (c : Context)
    (hdepth : ∀ phrase k, contracts phrase = some k → k.depth < callDepth)
    (hrules : ∀ phrase k, contracts phrase = some k →
      k.allows ((rules phrase).flow contracts k.facts) = true)
    (hsparing : ∀ phrase k, contracts phrase = some k →
      k.allowsSparing contracts (rules phrase) = true) (fuel : Nat) :
    ∀ p : Program φ, ∀ room < fuel, Sparing c contracts room (run c rules fuel) p := by
  induction fuel with
  | zero => exact fun p room h => absurd h (Nat.not_lt_zero _)
  | succ fuel ih =>
      intro p room hroom r k s hp h
      exact exec_spares hdepth hrules hsparing ih p r k s hp
        ⟨h.ok, h.holds, h.ended, h.fits.trans (Nat.le_of_lt_succ hroom)⟩

end Programs

/-! ### The phrases of the grammar -/

theorem exprBody_sparing (power : Nat) :
    Contract.allowsSparing contractOf ⟨false, true, 7⟩ (exprBody power) = true :=
  exprBody_of_lt (P := fun p => Contract.allowsSparing contractOf ⟨false, true, 7⟩ p = true)
    (by decide +kernel) power

theorem bitExprBody_sparing (power : Nat) :
    Contract.allowsSparing contractOf ⟨false, true, 4⟩ (bitExprBody power) = true :=
  bitExprBody_of_lt (P := fun p => Contract.allowsSparing contractOf ⟨false, true, 4⟩ p = true)
    (by decide +kernel) power

/-- The body of every phrase of a statement reads no semicolon. -/
theorem contractOf_sparing (phrase : Phrase) (k : Contract) (h : contractOf phrase = some k) :
    k.allowsSparing contractOf (grammar phrase) = true := by
  cases phrase with
  | script => cases h
  | expr power =>
      cases h
      exact exprBody_sparing power
  | bitExpr power =>
      cases h
      exact bitExprBody_sparing power
  | frame depth =>
      cases h
      cases depth <;> rfl
  | alterTokens depth =>
      cases h
      cases depth <;> rfl
  | _ =>
      cases h
      decide +kernel

end MySqlAnalysis.Grammar
