import MySqlAnalysis.Proofs.Grammar.Joined
import MySqlAnalysis.Proofs.Grammar.Leading
import MySqlAnalysis.Proofs.Grammar.Termination

/-!
# Accepted programs

A run that bails and finishes has met no error. Such a run is taken apart along the
program (`Accepts`): every required token was there, every decision took the
alternative that was read, and every node was closed around what was read inside it.

A script without reports that starts with a statement has accepted that statement: it
was read from the first token up to a semicolon or the end of the input, and it is the
first part of the tree (`exists_accepted_statement`).
-/

set_option autoImplicit false

namespace MySqlAnalysis.Grammar

theorem Skips.prefix_built {c : Context} {s s' : State (List Tree)} (h : Skips c s s') :
    s.built <+: s'.built := by
  induction h with
  | stop => exact List.prefix_rfl
  | step _ _ ih => exact (List.prefix_append _ _).trans ih

/-- The program is read from the first state to the second one without an error. -/
def Accepts (c : Context) (p : Fragment) (s u : State (List Tree)) : Prop :=
  Evaluates c grammar .bail p s (.finished u)

namespace Accepts

variable {c : Context} {p q : Fragment} {s u : State (List Tree)}

/-- A run that bails and finishes has accepted its program. -/
theorem of_run (hc : c.ending.isEof = true) {fuel : Nat} (hp : p.halts = true)
    (h : run c grammar fuel .bail p s = .finished u) : Accepts c p s u := by
  have hcompleted : (run c grammar fuel .bail p s).Completed := by
    rw [h]
    intro s' hs'
    cases hs'
  rw [Accepts, ← h]
  exact run_evaluates hc grammar_halts fuel .bail p s hp hcompleted

/-! ### Taking a program apart -/

theorem done (h : Accepts c .done s u) : u = s := by
  cases h
  rfl

theorem seq (h : Accepts c (.seq p q) s u) : ∃ v, Accepts c p s v ∧ Accepts c q v u := by
  cases h with
  | seq hp hq => exact ⟨_, hp, hq⟩

theorem call {phrase : Phrase} (h : Accepts c (.call phrase) s u) :
    Accepts c (grammar phrase) s u := by
  cases h with
  | call h => exact h

/-- A decision was made by its test. -/
theorem cond (hc : c.ending.isEof = true) {t : Test} (ht : t.halts = true)
    (h : Accepts c (.cond t p q) s u) :
    ∃ answer expected, t.eval c s.ahead s.expected = (answer, expected) ∧
      Accepts c (if answer then p else q) { s with expected } u := by
  cases h with
  | condTrue hanswer h => exact ⟨true, _, (t.answers_iff hc _ _ _ ht).1 hanswer, h⟩
  | condFalse hanswer h => exact ⟨false, _, (t.answers_iff hc _ _ _ ht).1 hanswer, h⟩

theorem refuse {why : Refusal} (h : Accepts c (.refuse why) s u) : False := by
  unfold Accepts at h
  generalize ho : Outcome.finished u = o at h
  cases h
  exact State.refuse_ne_finished c _ why s u ho.symm

/-- A required token is the next one. -/
theorem expect (hc : c.ending.isEof = true) {kind : TokenKind} (hkind : kind ≠ .eof)
    (h : Accepts c (.expect kind) s u) : ∃ t, s.ahead = t :: u.ahead ∧ t.kind = kind := by
  unfold Accepts at h
  generalize ho : Outcome.finished u = o at h
  cases h
  exact expect_finished_cons (by decide) (beq_iff_eq.1 hc) hkind ho.symm

/-- A required token is the next leaf. -/
theorem expect_built {kind : TokenKind} (h : Accepts c (.expect kind) s u) :
    ∃ i, u.built = s.built ++ [.token i] := by
  unfold Accepts at h
  generalize ho : Outcome.finished u = o at h
  cases h
  obtain ⟨-, rfl⟩ := expect_finished (by decide) ho.symm
  exact ⟨_, rfl⟩

/-- A token that does not end the input is read. -/
theorem advance (hc : c.ending.isEof = true) (hne : c.kindAt s.ahead 0 ≠ .eof)
    (h : Accepts c .advance s u) :
    ∃ t, s.ahead = t :: u.ahead ∧ t.kind = c.kindAt s.ahead 0 := by
  cases h
  obtain ⟨t, ts, hahead, ht⟩ := exists_cons_of_kindAt (beq_iff_eq.1 hc) hne rfl
  refine ⟨t, ?_, ht⟩
  rw [consume_ahead hne, hahead]
  rfl

/-- A node is closed around what was read inside it. -/
theorem node {rule : Rule} (h : Accepts c (.node rule p) s u) :
    ∃ v, Accepts c p (s.enter c rule) v ∧ u = State.leave c rule s v := by
  unfold Accepts at h
  generalize ho : Outcome.finished u = o at h
  cases h with
  | node h =>
      obtain ⟨v, rfl, hv⟩ := Outcome.map_eq_finished ho.symm
      exact ⟨v, h, hv.symm⟩

/-- A name is the next token. -/
theorem identifier (hc : c.ending.isEof = true) (h : Accepts c Grammar.identifier s u) :
    ∃ t, s.ahead = t :: u.ahead ∧ t.kind.isName c.family = true := by
  obtain ⟨v, hbody, rfl⟩ := h.node
  obtain ⟨answer, expected, heval, hbranch⟩ := hbody.cond hc rfl
  cases answer with
  | false => exact hbranch.refuse.elim
  | true =>
      have hname : (c.kindAt s.ahead 0).isName c.family = true := congrArg Prod.fst heval
      have hne : c.kindAt s.ahead 0 ≠ .eof := by
        intro heof
        rw [heof] at hname
        cases hname
      obtain ⟨t, hahead, ht⟩ :=
        advance (s := { s.enter c .identifier with expected }) hc hne hbranch
      exact ⟨t, hahead, ht ▸ hname⟩

/-- A token is read that a test found. -/
theorem advance_of_mem (hc : c.ending.isEof = true) {kinds : List TokenKind}
    (hkinds : .eof ∉ kinds) {expected : List TokenKind} (hmem : c.kindAt s.ahead 0 ∈ kinds)
    (h : Accepts c .advance { s with expected } u) :
    ∃ t, s.ahead = t :: u.ahead ∧ t.kind ∈ kinds := by
  have hne : c.kindAt s.ahead 0 ≠ .eof := fun heof => hkinds (heof ▸ hmem)
  obtain ⟨t, hahead, ht⟩ := advance (s := { s with expected }) hc hne h
  exact ⟨t, hahead, ht ▸ hmem⟩

/-- A token of one of these kinds is read if there is one. -/
theorem opt (hc : c.ending.isEof = true) {kinds : List TokenKind} (hkinds : .eof ∉ kinds)
    (h : Accepts c (Program.opt kinds) s u) :
    (∃ t, s.ahead = t :: u.ahead ∧ t.kind ∈ kinds) ∨ u.ahead = s.ahead := by
  obtain ⟨answer, expected, heval, hbranch⟩ := h.cond hc rfl
  cases answer with
  | false =>
      right
      rw [hbranch.done]
  | true =>
      exact .inl (hbranch.advance_of_mem hc hkinds
        (List.contains_iff_mem.1 (congrArg Prod.fst heval)))

/-- A token of one of these kinds is read. -/
theorem oneOf (hc : c.ending.isEof = true) {kinds : List TokenKind} (hkinds : .eof ∉ kinds)
    (h : Accepts c (Program.oneOf kinds) s u) : ∃ t, s.ahead = t :: u.ahead ∧ t.kind ∈ kinds := by
  obtain ⟨answer, expected, heval, hbranch⟩ := h.cond hc rfl
  cases answer with
  | false => exact hbranch.refuse.elim
  | true =>
      exact hbranch.advance_of_mem hc hkinds (List.contains_iff_mem.1 (congrArg Prod.fst heval))

/-- A token and what belongs to it are read where one of these kinds comes next. -/
theorem after (hc : c.ending.isEof = true) {kinds : List TokenKind} (hkinds : .eof ∉ kinds)
    (h : Accepts c (Program.after kinds p) s u) :
    (∃ t v, s.ahead = t :: v.ahead ∧ t.kind ∈ kinds ∧ Accepts c p v u) ∨
      (c.kindAt s.ahead 0 ∉ kinds ∧ u.ahead = s.ahead) := by
  obtain ⟨answer, expected, heval, hbranch⟩ := h.cond hc rfl
  have hanswer : kinds.contains (c.kindAt s.ahead 0) = answer := congrArg Prod.fst heval
  cases answer with
  | false =>
      refine .inr ⟨by simpa using hanswer, ?_⟩
      rw [hbranch.done]
  | true =>
      obtain ⟨v, hadvance, hrest⟩ := hbranch.seq
      obtain ⟨t, hahead, ht⟩ :=
        hadvance.advance_of_mem hc hkinds (List.contains_iff_mem.1 hanswer)
      exact .inl ⟨t, v, hahead, ht, hrest⟩

/-- Nothing is read where none of these kinds comes next. -/
theorem after_of_not_mem (hc : c.ending.isEof = true) {kinds : List TokenKind}
    (hkinds : .eof ∉ kinds) (hne : c.kindAt s.ahead 0 ∉ kinds)
    (h : Accepts c (Program.after kinds p) s u) : u.ahead = s.ahead := by
  rcases h.after hc hkinds with ⟨t, v, hs, ht, -⟩ | ⟨-, hs⟩
  · rw [hs] at hne
    exact absurd ht hne
  · exact hs

/-- A program that starts with a look is accepted by the alternative that the look decides
for. -/
theorem look (hc : c.ending.isEof = true) {l : Look} {p q : Fragment}
    (hp : (Program.cond l p q).halts = true) (h : Accepts c (.cond l p q) s u) :
    if l.holds c s.ahead then p.halts = true ∧ Accepts c p s u
    else q.halts = true ∧ Accepts c q s u := by
  rw [Program.halts, Bool.and_eq_true, Bool.and_eq_true] at hp
  obtain ⟨answer, expected, heval, h⟩ := h.cond hc hp.1.1
  cases heval
  cases hl : l.holds c s.ahead with
  | true =>
      rw [hl] at h
      exact ⟨hp.1.2, h⟩
  | false =>
      rw [hl] at h
      exact ⟨hp.2, h⟩

/-- Deciding looks keeps acceptance when putting in what phrases stand for does. -/
theorem settle (hc : c.ending.isEof = true) {call : Phrase → Fragment}
    (hcall : ∀ phrase, Accepts c (.call phrase) s u → Accepts c (call phrase) s u)
    {p : Fragment} (hp : p.halts = true) (h : Accepts c p s u) :
    Accepts c (p.settle c s.ahead call) s u := by
  fun_induction Program.settle c s.ahead call p with
  | case1 l p q hl ih =>
      have hbranch := look hc hp h
      rw [if_pos hl] at hbranch
      exact ih hbranch.1 hbranch.2
  | case2 l p q hl ih =>
      have hbranch := look hc hp h
      rw [if_neg hl] at hbranch
      exact ih hbranch.1 hbranch.2
  | case3 phrase => exact hcall phrase h
  | case4 p => exact h

/-- A program that is accepted is accepted by the alternative that its looks decide for. -/
theorem resolve (hc : c.ending.isEof = true) (n : Nat) :
    ∀ {p : Fragment}, p.halts = true → Accepts c p s u →
      Accepts c (p.resolve grammar c s.ahead n) s u := by
  induction n with
  | zero => exact fun hp h => settle hc (fun _ h => h) hp h
  | succ n ih =>
      exact fun hp h => settle hc (fun phrase h => ih (grammar_halts phrase) h.call) hp h

/-- A loop is a number of accepted rounds. -/
theorem loop_induction {P : State (List Tree) → State (List Tree) → Prop}
    (hc : c.ending.isEof = true) {t : Test} (ht : t.halts = true)
    (stop : ∀ s expected, t.eval c s.ahead s.expected = (false, expected) →
      P s { s with expected })
    (next : ∀ s expected v u, t.eval c s.ahead s.expected = (true, expected) →
      Accepts c p { s with expected } v → P v u → P s u)
    (h : Accepts c (.loop t p) s u) : P s u := by
  unfold Accepts at h
  generalize hl : Program.loop t p = l at h
  generalize ho : Outcome.finished u = o at h
  generalize hr : Reaction.bail = r at h
  induction h with
  | loopStop hanswer =>
      cases hl
      cases ho
      exact stop _ _ ((t.answers_iff hc _ _ _ ht).1 hanswer)
  | loopNext hanswer hround _ _ ih =>
      cases hl
      cases hr
      exact next _ _ _ _ ((t.answers_iff hc _ _ _ ht).1 hanswer) hround (ih rfl ho rfl)
  | loopAborted => cases ho
  | _ => cases hl

/-- A program that leaves earlier parts alone puts its parts behind them. -/
theorem appends {calls : Phrase → Bool}
    (hrules : ∀ phrase, calls phrase = true → (grammar phrase).appends calls = true)
    (hp : p.appends calls = true) (h : Accepts c p s u) : s.built <+: u.built := by
  have hall : ∀ {r : Reaction} {p : Fragment} {s : State (List Tree)} {o : Outcome (List Tree)},
      Evaluates c grammar r p s o → p.appends calls = true → s.built <+: o.state.built := by
    intro r p s o h
    induction h with
    | done => exact fun _ => List.prefix_rfl
    | advance => exact fun _ => List.prefix_append _ _
    | @expect r s kind => exact fun _ => prefix_leafPreorder.expect r kind s
    | @refuse r s why => exact fun _ => prefix_leafPreorder.refuse r why s
    | seq _ _ ih ih' =>
        intro hp
        obtain ⟨hfirst, hrest⟩ := Bool.and_eq_true_iff.1 hp
        exact (ih hfirst).trans (ih' hrest)
    | seqAborted _ ih => exact fun hp => ih (Bool.and_eq_true_iff.1 hp).1
    | condTrue _ _ ih => exact fun hp => ih (Bool.and_eq_true_iff.1 hp).1
    | condFalse _ _ ih => exact fun hp => ih (Bool.and_eq_true_iff.1 hp).2
    | loopStop => exact fun _ => List.prefix_rfl
    | loopNext _ _ _ ih ih' => exact fun hp => (ih hp).trans (ih' hp)
    | loopAborted _ _ ih => exact ih
    | node =>
        intro _
        rw [Outcome.state_map]
        exact List.prefix_append _ _
    | wrap => exact fun hp => absurd hp Bool.false_ne_true
    | attempt _ ih => exact fun hp => ih (Bool.and_eq_true_iff.1 hp).1
    | attemptUndone _ _ _ ih => exact fun hp => ih (Bool.and_eq_true_iff.1 hp).2
    | resume _ _ ih => exact ih
    | resumeSkipped _ hskips ih => exact fun hp => (ih hp).trans hskips.prefix_built
    | call _ ih => exact fun hp => ih (hrules _ hp)
  exact hall h hp

/-- A statement is accepted by the node that its first tokens decide for. -/
theorem statement (hc : c.ending.isEof = true) (h : Accepts c simpleStatementBody s u)
    {rule : Rule} (hnode : simpleStatementBody.body.resolve grammar c s.ahead 2 = .node rule p) :
    ∃ v, Accepts c p ((s.enter c .simpleStatement).enter c rule) v ∧
      u = State.leave c .simpleStatement s
        (State.leave c rule (s.enter c .simpleStatement) v) := by
  obtain ⟨w, hbody, rfl⟩ := h.node
  have hresolved : Accepts c (simpleStatementBody.body.resolve grammar c s.ahead 2)
      (s.enter c .simpleStatement) w := resolve hc 2 (by decide) hbody
  rw [hnode] at hresolved
  obtain ⟨v, hv, rfl⟩ := hresolved.node
  exact ⟨v, hv, rfl⟩

end Accepts

/-! ### The first statement of a script -/

section FirstStatement

variable {c : Context} {s w : State (List Tree)} {fuel : Nat}

/-- A statement that a script starts with is read up to its end. -/
theorem exec_statements_accepted (hc : c.ending.isEof = true) (hs : s.built = [])
    (h : exec c grammar (run c grammar fuel) .bail statements s = .finished w)
    {statement : Tree} (hhead : w.built.head? = some statement)
    (hstatement : statement.isRule .simpleStatement = true) :
    ∃ u, Accepts c simpleStatementBody s.tried u ∧ u.built = [statement] ∧
      boundaryKinds.contains (c.kindAt u.ahead 0) = true := by
  have hfirst : (exec c grammar (run c grammar fuel) .bail statements s).state.built.head? =
      some statement := by
    rw [h]
    exact hhead
  obtain ⟨heof, hsemicolon⟩ := kindAt_of_first_statement .bail hs hfirst hstatement
  have hprefix := exec_statements_statement_prefix fuel .bail heof hsemicolon
  rw [h] at hprefix
  rw [exec_statements_statement .bail heof hsemicolon] at h
  obtain ⟨x, hx, hrest⟩ := Outcome.andThen_eq_finished h
  obtain ⟨u, hu, hafter⟩ := Outcome.andThen_eq_finished hx
  have hcall : run c grammar fuel .bail simpleStatementBody s.tried = .finished u :=
    resume_finished hu
  refine ⟨u, .of_run hc (grammar_halts .simpleStatement) hcall, ?_, ?_⟩
  · -- later parts are put behind the statement
    obtain ⟨first, last, children, hnode⟩ := run_node_finished hcall
    rw [show s.tried.built = [] from hs, List.nil_append] at hnode
    rw [hcall, Outcome.state_finished, hnode] at hprefix
    obtain ⟨more, hmore⟩ := hprefix
    rw [← show _ = w.built from hmore] at hhead
    cases hhead
    exact hnode
  · by_cases hne : c.kindAt u.ahead 0 = .semicolon
    · rw [hne]
      rfl
    · rw [kindAt_of_afterStatement hne hafter]
      rfl

/-- A script without reports that starts with a statement has accepted it: the statement
was read from the first token up to its end, and it is the first part of the tree. -/
theorem exists_accepted_statement {o : Options} {tokens : List Token} (h : Listed tokens)
    (hreports : (parse (o.withStrategy .recover) .query tokens).reports = [])
    {root statement : Tree}
    (hroot : (parse (o.withStrategy .recover) .query tokens).root = some root)
    (hhead : root.children.head? = some statement)
    (hstatement : statement.isRule .simpleStatement = true) :
    ∃ s u, s.ahead = significant tokens ∧ s.built = [] ∧
      Accepts (contextOf o tokens) simpleStatementBody s u ∧ u.built = [statement] ∧
      boundaryKinds.contains ((contextOf o tokens).kindAt u.ahead 0) = true := by
  -- both strategies end in the same state, which holds the tree
  obtain ⟨f, hbail, hrecover⟩ := exists_finished_of_silent o .query h hreports
  rw [parse, hrecover] at hroot
  rw [outcomeOf_script] at hbail
  obtain ⟨v, hv, rfl⟩ := Outcome.map_eq_finished hbail
  obtain ⟨w, hw, hlast⟩ := Outcome.andThen_eq_finished hv
  cases hlast
  cases hroot
  have hhead' : w.built.head? = some statement := head?_of_concat_token hhead hstatement
  obtain ⟨u, haccepted, hbuilt, hend⟩ :=
    exec_statements_accepted (endingOf_isEof tokens) rfl hw hhead' hstatement
  exact ⟨_, u, rfl, rfl, haccepted, hbuilt, hend⟩

end FirstStatement

end MySqlAnalysis.Grammar
