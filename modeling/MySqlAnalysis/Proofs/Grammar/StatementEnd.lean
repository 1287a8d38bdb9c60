import MySqlAnalysis.Proofs.Grammar.Prediction
import MySqlAnalysis.Proofs.Grammar.Steady

/-!
# No phrase sees past the end of its statement

Almost every phrase of a statement is steady as it stands (`contractOf_steady`). Three
are not, and their two runs agree for reasons of their own. The spelling of a function
is looked at before there is a name, but without one every kind of call is refused
(`functionCall_alike`). The words after a deleted table are looked for across a place
that may lie past the end, but then the table has no name either
(`deleteStatement_alike`). And the token after the columns of an insertion is looked for
at any distance; when the columns are read to their end, that is the token after their
parenthesis (`insertSource_alike`). So the two runs of every phrase agree
(`run_alike`).
-/

set_option autoImplicit false

namespace MySqlAnalysis.Grammar

/-! ### Programs that read no parenthesis -/

/-- Whether a kind neither opens nor closes a group nor ends the input. -/
def flatKind (kind : TokenKind) : Bool :=
  !List.contains [.openParen, .closeParen, .eof] kind

theorem flatKind_of_keyword {kind : TokenKind} (h : kind.keyword?.isSome = true) :
    flatKind kind = true := by
  cases kind with
  | keyword k => rfl
  | _ => cases h

theorem flatKind_of_isName {kind : TokenKind} {f : Family} (h : kind.isName f = true) :
    flatKind kind = true := by
  cases kind with
  | keyword k => rfl
  | identifier => rfl
  | quotedIdentifier => rfl
  | _ => cases h

theorem kindAfterGroup_cons {t : Token} (ht : flatKind t.kind = true) (depth : Nat)
    (ts : List Token) : kindAfterGroup depth (t :: ts) = kindAfterGroup depth ts := by
  rw [kindAfterGroup]
  split
  case h_1 hk => rw [hk] at ht; cases ht
  case h_2 hk => rw [hk] at ht; cases ht
  case h_3 hk => rw [hk] at ht; cases ht
  case h_4 => rfl

/-- Whether a test only holds in front of such tokens. -/
def Test.flat : Test → Bool
  | .next kinds => kinds.all flatKind
  | .nextName => true
  | .look (.keyword n) => n == 0
  | .either a b => a.flat && b.flat
  | _ => false

/-- Whether a program reads no parenthesis; `next` tells that the next one is. -/
def Program.flat {φ : Type} : (next : Bool) → Program φ → Bool
  | _, done => true
  | next, advance => next
  | _, expect kind => flatKind kind
  | _, refuse _ => true
  | next, seq p q => p.flat next && q.flat false
  | next, cond t p q => p.flat (next || t.flat) && q.flat next
  | _, loop t p => p.flat t.flat
  | next, node _ p => p.flat next
  | _, _ => false

theorem Test.flatKind_of_eval {c : Context} {ahead : List Token} (t : Test) :
    ∀ expected, t.flat = true → (t.eval c ahead expected).1 = true →
      flatKind (c.kindAt ahead 0) = true := by
  induction t with
  | next kinds =>
      intro expected ht h
      exact List.all_eq_true.1 ht _ (List.contains_iff_mem.1 h)
  | nextName => exact fun expected ht h => flatKind_of_isName h
  | look l =>
      intro expected ht h
      cases l with
      | keyword n =>
          cases beq_iff_eq.1 ht
          exact flatKind_of_keyword h
      | _ => cases ht
  | either a b iha ihb =>
      intro expected ht h
      obtain ⟨ha, hb⟩ := Bool.and_eq_true_iff.1 ht
      rw [eval] at h
      split at h
      case h_1 expected' heval => exact iha expected ha (by rw [heval])
      case h_2 expected' heval => exact ihb expected' hb h
  | _ =>
      intro expected ht h
      cases ht

section Finishing

variable {c : Context} {r : Reaction} {s u : State (List Tree)} {φ : Type}
  {rules : φ → Program φ} {recur : Reaction → Program φ → State (List Tree) → Outcome (List Tree)}

/-- What follows an open group is the same in both states. -/
def State.SameGroup (s u : State (List Tree)) : Prop :=
  ∀ depth, kindAfterGroup depth s.ahead = kindAfterGroup depth u.ahead

theorem State.SameGroup.trans {v : State (List Tree)} (h : s.SameGroup u) (h' : u.SameGroup v) :
    s.SameGroup v :=
  fun depth => (h depth).trans (h' depth)

theorem consume_ahead (h : c.kindAt s.ahead 0 ≠ .eof) : (s.consume c).ahead = s.ahead.tail := by
  have heof : (s.current c).isEof = false := beq_eq_false_iff_ne.2 h
  show (if (s.current c).isEof then s.ahead else s.ahead.tail) = s.ahead.tail
  rw [heof, if_neg Bool.false_ne_true]

theorem consume_sameGroup (h : flatKind (c.kindAt s.ahead 0) = true) :
    s.SameGroup (s.consume c) := by
  intro depth
  have hne : c.kindAt s.ahead 0 ≠ .eof := by
    intro hk
    rw [hk] at h
    cases h
  rw [consume_ahead hne]
  cases hahead : s.ahead with
  | nil => rfl
  | cons t ts =>
      rw [hahead] at h
      exact kindAfterGroup_cons h depth ts

/-- A run that does not recover finds a required token or does not finish. -/
theorem expect_finished (hr : r ≠ .recover) {kind : TokenKind}
    (h : s.expect c r kind = .finished u) :
    c.kindAt s.ahead 0 = kind ∧
      u = State.consume { s with expected := noteKind s.expected kind } c := by
  have hr' : (r == .recover) = false := beq_eq_false_iff_ne.2 hr
  rw [State.expect] at h
  simp only [hr', Bool.false_and, if_neg Bool.false_ne_true] at h
  split at h
  case isTrue hfound =>
    cases h
    exact ⟨beq_iff_eq.1 hfound, rfl⟩
  case isFalse => cases r <;> cases h

/-- A program that reads no parenthesis does not change what follows an open group. -/
theorem exec_flat (hr : r ≠ .recover)
    (hrecur : ∀ (p : Program φ) s u, p.flat false = true → recur r p s = .finished u →
      s.SameGroup u)
    (p : Program φ) :
    ∀ (next : Bool) (s u : State (List Tree)), p.flat next = true →
      (next = true → flatKind (c.kindAt s.ahead 0) = true) →
        exec c rules recur r p s = .finished u → s.SameGroup u := by
  induction p with
  | done =>
      rintro next s u hp hnext ⟨⟩
      exact fun depth => rfl
  | advance =>
      rintro next s u hp hnext ⟨⟩
      exact consume_sameGroup (hnext hp)
  | expect kind =>
      intro next s u hp hnext h
      obtain ⟨hkind, rfl⟩ := expect_finished hr h
      exact consume_sameGroup (s := { s with expected := _ }) (by rw [hkind]; exact hp)
  | refuse why => exact fun next s u hp hnext h => absurd h (s.refuse_ne_finished c r why u)
  | seq p q ihp ihq =>
      intro next s u hpq hnext h
      obtain ⟨hp, hq⟩ := Bool.and_eq_true_iff.1 hpq
      rw [exec] at h
      obtain ⟨v, hv, hu⟩ := Outcome.andThen_eq_finished h
      exact (ihp next s v hp hnext hv).trans (ihq false v u hq (absurd · Bool.false_ne_true) hu)
  | cond t p q ihp ihq =>
      intro next s u hpq hnext h
      obtain ⟨hp, hq⟩ := Bool.and_eq_true_iff.1 hpq
      rw [exec] at h
      split at h
      case h_1 expected heval =>
        refine ihp _ { s with expected } u hp (fun hor => ?_) h
        rcases Bool.or_eq_true_iff.1 hor with hn | ht
        · exact hnext hn
        · exact t.flatKind_of_eval s.expected ht (by rw [heval])
      case h_2 expected heval => exact ihq next { s with expected } u hq hnext h
  | loop t p ih =>
      intro next s u hp hnext h
      rw [exec] at h
      split at h
      case h_1 expected heval =>
        obtain ⟨v, hv, hu⟩ := Outcome.andThen_eq_finished h
        have hround : State.SameGroup { s with expected } v :=
          ih _ { s with expected } v hp
            (fun ht => t.flatKind_of_eval s.expected ht (by rw [heval])) hv
        exact hround.trans (hrecur (.loop t p) v u hp hu)
      case h_2 expected heval =>
        cases h
        exact fun depth => rfl
  | node rule p ih =>
      intro next s u hp hnext h
      rw [exec] at h
      obtain ⟨v, hv, rfl⟩ := Outcome.map_eq_finished h
      exact ih next (s.enter c rule) v hp hnext hv
  | _ =>
      -- a node around a part, an attempt, a recovery and a call are never flat
      intro next s u hp
      cases hp

theorem run_flat (hr : r ≠ .recover) (fuel : Nat) :
    ∀ (p : Program φ) (s u : State (List Tree)), p.flat false = true →
      run c rules fuel r p s = .finished u → s.SameGroup u := by
  induction fuel with
  | zero =>
      intro p s u hp h
      cases h
  | succ fuel ih =>
      intro p s u hp h
      exact exec_flat hr ih p false s u hp (absurd · Bool.false_ne_true) h

end Finishing

/-! ### The columns of an insertion -/

section Columns

variable {c : Context} {r : Reaction} {s u : State (List Tree)} {fuel : Nat}

theorem exists_cons_of_kindAt {ahead : List Token} {kind : TokenKind}
    (hending : c.ending.kind = .eof) (hkind : kind ≠ .eof) (h : c.kindAt ahead 0 = kind) :
    ∃ t ts, ahead = t :: ts ∧ t.kind = kind := by
  cases ahead with
  | nil => exact absurd (h.symm.trans hending) hkind
  | cons t ts => exact ⟨t, ts, rfl, h⟩

/-- A token that is required is the next one and is read. -/
theorem expect_finished_cons (hr : r ≠ .recover) (hending : c.ending.kind = .eof)
    {kind : TokenKind} (hkind : kind ≠ .eof) (h : s.expect c r kind = .finished u) :
    ∃ t, s.ahead = t :: u.ahead ∧ t.kind = kind := by
  obtain ⟨hfound, rfl⟩ := expect_finished hr h
  obtain ⟨t, ts, hahead, ht⟩ := exists_cons_of_kindAt hending hkind hfound
  refine ⟨t, ?_, ht⟩
  rw [consume_ahead (s := { s with expected := _ }) (by rw [hfound]; exact hkind)]
  simp [hahead]

/-- Columns that are read to their end are a group without groups inside. -/
theorem fieldsInParens_finished (hr : r ≠ .recover) (hending : c.ending.kind = .eof)
    (h : exec c grammar (run c grammar fuel) r fieldsInParens s = .finished u) :
    kindAfterGroup 0 s.ahead = c.kindAt u.ahead 0 := by
  obtain ⟨v, hopen, h⟩ := Outcome.andThen_eq_finished h
  obtain ⟨w, hfields, hclose⟩ := Outcome.andThen_eq_finished h
  obtain ⟨t, hahead, ht⟩ := expect_finished_cons hr hending (by simp) hopen
  obtain ⟨t', hahead', ht'⟩ := expect_finished_cons hr hending (by simp) hclose
  have hsame : v.SameGroup w :=
    exec_flat hr (run_flat hr fuel) _ false v w (by decide) (absurd · Bool.false_ne_true) hfields
  calc kindAfterGroup 0 s.ahead
    _ = kindAfterGroup 1 v.ahead := by rw [hahead, kindAfterGroup, ht]
    _ = kindAfterGroup 1 w.ahead := hsame 1
    _ = ((u.ahead.head?).map (·.kind)).getD .eof := by
      rw [hahead', kindAfterGroup, ht']
      rfl
    _ = c.kindAt u.ahead 0 := by
      cases u.ahead with
      | nil => exact hending.symm
      | cons t ts => rfl

/-- Rows of values start with their word. -/
theorem insertValues_finished
    (h : exec c grammar (run c grammar fuel) r insertValues s = .finished u) :
    valuesWords.contains (c.kindAt s.ahead 0) = true := by
  obtain ⟨v, h, -⟩ := Outcome.map_eq_finished h
  obtain ⟨w, h, -⟩ := Outcome.andThen_eq_finished h
  rw [Program.oneOf, exec] at h
  split at h
  case h_1 expected heval => exact congrArg Prod.fst heval
  case h_2 => exact absurd h (State.refuse_ne_finished c r _ _ w)

/-- The token after the columns of an insertion of values. -/
theorem insertFromConstructor_finished (hr : r ≠ .recover) (hending : c.ending.kind = .eof)
    (h : exec c grammar (run c grammar fuel) r (insertFromConstructor fieldsInParens) s =
      .finished u) :
    valuesWords.contains (kindAfterGroup 0 s.ahead) = true := by
  obtain ⟨v, h, -⟩ := Outcome.map_eq_finished h
  obtain ⟨w, hfields, hvalues⟩ := Outcome.andThen_eq_finished h
  have hafter : kindAfterGroup 0 s.ahead = c.kindAt w.ahead 0 :=
    fieldsInParens_finished (s := s.enter c _) hr hending hfields
  rw [hafter]
  exact insertValues_finished hvalues

end Columns

/-! ### Programs that give up -/

/-- The program gave up. -/
def Outcome.Refused (o : Outcome (List Tree)) : Prop :=
  ∃ why s, o = .aborted why s ∧ why ≠ .exhausted

namespace Outcome.Refused

variable {o o' : Outcome (List Tree)}

theorem andThen (h : o.Refused) (f : State (List Tree) → Outcome (List Tree)) :
    (o.andThen f).Refused := by
  obtain ⟨why, s, rfl, hwhy⟩ := h
  exact ⟨why, s, rfl, hwhy⟩

theorem map (h : o.Refused) (f : State (List Tree) → State (List Tree)) :
    (o.map f).Refused := by
  obtain ⟨why, s, rfl, hwhy⟩ := h
  exact ⟨why, f s, rfl, hwhy⟩

theorem agrees (h : o.Refused) (h' : o'.Refused) (slot : Slot) (strict : Bool) :
    Agrees slot strict o o' := by
  obtain ⟨why, s, rfl, -⟩ := h
  obtain ⟨why', s', rfl, hwhy'⟩ := h'
  exact .refused hwhy'

end Outcome.Refused

section Refusing

variable {c : Context} {r : Reaction} {s : State (List Tree)}
  {recur : Reaction → Fragment → State (List Tree) → Outcome (List Tree)}

theorem refuse_refused (hr : r ≠ .recover) (why : Refusal) : (s.refuse c r why).Refused := by
  cases r with
  | recover => exact absurd rfl hr
  | bail => cases why <;> exact ⟨_, _, rfl, by simp⟩
  | backtrack => cases why <;> exact ⟨_, _, rfl, by simp⟩

/-- Both alternatives of a decision give up. -/
theorem cond_refused {t : Test} {p q : Fragment}
    (hp : ∀ expected, (exec c grammar recur r p { s with expected }).Refused)
    (hq : ∀ expected, (exec c grammar recur r q { s with expected }).Refused) :
    (exec c grammar recur r (.cond t p q) s).Refused := by
  rw [exec]
  split
  case h_1 expected heval => exact hp expected
  case h_2 expected heval => exact hq expected

/-- A token is refused that does not pass the test. -/
theorem leaf_refused (hr : r ≠ .recover) (rule : Rule) {t : Test}
    (ht : ∀ expected, (t.eval c s.ahead expected).1 = false) :
    (exec c grammar recur r (.node rule (.cond t .advance (.refuse .mismatch))) s).Refused := by
  refine Outcome.Refused.map ?_ _
  rw [exec]
  split
  case h_1 expected heval =>
    have hfalse := ht (s.enter c rule).expected
    rw [show (s.enter c rule).ahead = s.ahead from rfl] at heval
    rw [heval] at hfalse
    cases hfalse
  case h_2 expected heval => exact refuse_refused hr _

/-- A token is read that passes the test. -/
theorem leaf_finished (rule : Rule) {t : Test} (ht : (t.eval c s.ahead s.expected).1 = true)
    (hne : c.kindAt s.ahead 0 ≠ .eof) :
    ∃ v, exec c grammar recur r (.node rule (.cond t .advance (.refuse .mismatch))) s =
      .finished v ∧ v.ahead = s.ahead.tail := by
  have heval : t.eval c (s.enter c rule).ahead (s.enter c rule).expected =
      (true, (t.eval c s.ahead s.expected).2) := Prod.ext ht rfl
  refine ⟨State.leave c rule s (State.consume { s.enter c rule with expected := _ } c), ?_,
    consume_ahead (s := { s.enter c rule with expected := _ }) hne⟩
  rw [exec, exec, heval]
  rfl

/-- A name is refused at the end of a statement. -/
theorem identifier_refused (hr : r ≠ .recover)
    (h : boundaryKinds.contains (c.kindAt s.ahead 0) = true) :
    (exec c grammar recur r identifier s).Refused := by
  refine leaf_refused hr _ fun expected => ?_
  rcases SameKind.cases_of_ending h with h | h <;> simp [Test.eval, h, TokenKind.isName]

theorem anyIdentifier_refused (hr : r ≠ .recover)
    (h : boundaryKinds.contains (c.kindAt s.ahead 0) = true) :
    (exec c grammar recur r anyIdentifier s).Refused := by
  refine leaf_refused hr _ fun expected => ?_
  rcases SameKind.cases_of_ending h with h | h <;>
    simp [Test.eval, Look.holds, h, TokenKind.isName, TokenKind.keyword?]

/-- A table is refused that has no name, alone or after its qualifier. -/
theorem tableRef_refused (hr : r ≠ .recover)
    (h : c.kindAt s.ahead 0 = .eof ∨ c.kindAt s.ahead 1 = .dot ∧ c.kindAt s.ahead 2 = .eof) :
    (exec c grammar recur r tableRef s).Refused := by
  refine Outcome.Refused.map ?_ _
  cases hname : (c.kindAt s.ahead 0).isName c.family with
  | false =>
      have hfirst : (exec c grammar recur r identifier (s.enter c .tableRef)).Refused :=
        leaf_refused hr _ fun expected => hname
      exact hfirst.andThen _
  | true =>
      obtain ⟨hdot, heof⟩ : c.kindAt s.ahead 1 = .dot ∧ c.kindAt s.ahead 2 = .eof := by
        refine h.resolve_left fun h => ?_
        rw [h] at hname
        cases hname
      have hne : c.kindAt s.ahead 0 ≠ .eof := by
        intro h
        rw [h] at hname
        cases hname
      obtain ⟨v, hv, hahead⟩ : ∃ v, exec c grammar recur r identifier (s.enter c .tableRef) =
          .finished v ∧ v.ahead = s.ahead.tail :=
        leaf_finished .identifier (t := .nextName) hname hne
      have hdot' : c.kindAt v.ahead 0 = .dot := by rw [hahead, Facts.kindAt_tail, hdot]
      have heof' : c.kindAt v.ahead 1 = .eof := by rw [hahead, Facts.kindAt_tail, heof]
      -- the qualifier and the point are read, and the name is not there
      have hlook : (Look.both (.is .dot) (.not (.isAt 1 .star))).holds c v.ahead = true := by
        simp [Look.holds, Look.is, Look.isAt, hdot', heof']
      have hrest : (exec c grammar recur r anyIdentifier (v.consume c)).Refused := by
        refine anyIdentifier_refused hr ?_
        rw [consume_ahead (by rw [hdot']; simp), Facts.kindAt_tail, heof']
        rfl
      show (Outcome.andThen (exec c grammar recur r identifier (s.enter c .tableRef)) _).Refused
      rw [hv, Outcome.andThen_finished]
      show (exec c grammar recur r (.cond (Test.look _) (.seq .advance anyIdentifier) .done)
        v).Refused
      rw [exec, Test.eval, hlook]
      exact hrest

/-- Without a name every kind of call is refused. -/
theorem functionCall_refused (hr : r ≠ .recover)
    (h : boundaryKinds.contains (c.kindAt s.ahead 0) = true) :
    (exec c grammar recur r functionCallBody s).Refused := by
  have hcall : ∀ (s : State (List Tree)) (arguments : Fragment),
      boundaryKinds.contains (c.kindAt s.ahead 0) = true →
        (exec c grammar recur r (callWith arguments) s).Refused :=
    fun s arguments h => (identifier_refused hr h).andThen _
  refine Outcome.Refused.map ?_ _
  refine cond_refused (fun _ => hcall _ _ h) fun _ => ?_
  refine cond_refused (fun _ => hcall _ _ h) fun _ => ?_
  refine cond_refused (fun _ => hcall _ _ h) fun _ => ?_
  exact cond_refused (fun _ => hcall _ _ h) fun _ => hcall _ _ h

end Refusing

/-! ### The three phrases that look further -/

/-- The two runs of a phrase also give up in the same places. That is not shown of
insertions, deletions and the statements that contain them. -/
def Phrase.isFirm : Phrase → Bool
  | .insertSource | .insertStatement | .replaceStatement | .deleteStatement
  | .explainStatement | .describeStatement | .simpleStatement => false
  | _ => true

section Special

variable {slot : Slot} {c c' : Context} {fuel fuel' : Nat}

/-- The first program finishes in one way. -/
theorem Alike.seq_of {strict : Bool} {p q : Fragment} {k : Facts} {e : Ending}
    (he : (p.flow contractOf k).ending = some e) (hp : Alike slot c c' fuel fuel' strict p k)
    (hq : Alike slot c c' fuel fuel' strict q e.facts) :
    Alike slot c c' fuel fuel' strict (.seq p q) k := by
  refine hp.seq fun e' he' => ?_
  rw [he, Option.mem_some] at he'
  subst he'
  exact hq

variable (hsteady : ∀ (strict : Bool) (p : Fragment) (k : Facts),
  p.steady contractOf Phrase.isFirm strict k = true → Alike slot c c' fuel fuel' strict p k)

include hsteady

/-- The spelling of a function lies in the statement, or every kind of call is refused. -/
theorem functionCall_alike : Alike slot c c' fuel fuel' true functionCallBody [] := by
  intro r s s' hr h hs
  by_cases heof : c.kindAt s.ahead 0 = .eof
  · have hend : boundaryKinds.contains (c.kindAt s.ahead 0) = true := by rw [heof]; rfl
    have hend' : boundaryKinds.contains (c'.kindAt s'.ahead 0) = true :=
      hs.ahead.kindAt_zero.boundary_of_eof heof
    exact (functionCall_refused hr hend).agrees (functionCall_refused hr hend') slot true
  · have hdepth : (functionCallBody.flow contractOf [⟨0, false, [.eof]⟩]).depth ≤
        (functionCallBody.flow contractOf []).depth := by decide
    have hready : Ready c contractOf fuel functionCallBody [⟨0, false, [.eof]⟩] s := by
      refine ⟨rfl, Facts.hold_singleton.2 ?_, h.ended, ?_⟩
      · simpa [Fact.Holds] using heof
      · have hfits := h.fits
        omega
    exact hsteady true _ _ rfl r s s' hr hready hs

/-- The deletion from one or several tables after `FROM`. -/
def deletionFrom : Fragment :=
  .cond multiTableAhead (multiTableDelete .USING)
    (Program.steps
      [tableRef,
       Program.ifHolds nextTableAlias tableAlias,
       Program.after [.keyword .PARTITION] identifierListInParens,
       whereOrderLimit])

/-- A table that has no name is refused, and one that has a name lies in the statement
with its qualifier. -/
theorem deletionFrom_alike (hc : c.Like c') :
    Alike slot c c' fuel fuel' false deletionFrom [] := by
  intro r s s' hr h hs
  by_cases hend : c.kindAt s.ahead 0 = .eof ∨ c.kindAt s.ahead 1 = .dot ∧ c.kindAt s.ahead 2 = .eof
  · -- the table is read first, whichever way the look ahead decides
    have hrefused : (exec c grammar (run c grammar fuel) r deletionFrom s).Refused := by
      have htable : ∀ u : State (List Tree), u.ahead = s.ahead →
          (exec c grammar (run c grammar fuel) r tableRef u).Refused :=
        fun u hu => tableRef_refused hr (hu ▸ hend)
      refine cond_refused (fun expected => ?_) fun expected => ?_
      · refine Outcome.Refused.andThen (Outcome.Refused.map ?_ _) _
        refine Outcome.Refused.andThen (Outcome.Refused.andThen ?_ _) _
        exact htable _ rfl
      · refine Outcome.Refused.andThen ?_ _
        exact htable _ rfl
    obtain ⟨why, u, hu, -⟩ := hrefused
    rw [hu]
    exact .lost rfl
  · obtain ⟨hname, hqualified⟩ := not_or.1 hend
    have hanswer : (Test.eval c s.ahead multiTableAhead s.expected).1 =
        (Test.eval c' s'.ahead multiTableAhead s'.expected).1 := by
      -- the look ahead stays in the statement when the name does
      by_cases hdot : c.kindAt s.ahead 1 = .dot
      · have hfacts : Facts.Hold c s.ahead
            [⟨0, false, [.eof]⟩, ⟨1, true, [.dot]⟩, ⟨2, false, [.eof]⟩] := by
          have hlast : c.kindAt s.ahead 2 ≠ .eof := fun h => hqualified ⟨hdot, h⟩
          simp [Facts.Hold, Fact.Holds, hname, hdot, hlast]
        exact Test.eval_of_steady hc hs.ahead _ _ _ hfacts (by decide)
      · have hfacts : Facts.Hold c s.ahead [⟨0, false, [.eof]⟩, ⟨1, false, [.dot]⟩] := by
          simp [Facts.Hold, Fact.Holds, hname, hdot]
        exact Test.eval_of_steady hc hs.ahead _ _ _ hfacts (by decide)
    exact Alike.cond_of_answer h hanswer hr hs (hsteady _ _ _ rfl) (hsteady _ _ _ rfl)

theorem deleteStatement_alike (hc : c.Like c') :
    Alike slot c c' fuel fuel' false deleteStatementBody [] := by
  refine .node _ (.seq_of rfl (hsteady _ _ _ (by decide)) ?_)
  refine .seq_of rfl (hsteady _ _ _ (by decide)) ?_
  refine .cond hc (by decide) ?_ (hsteady _ _ _ rfl)
  exact .seq_of rfl (hsteady _ _ _ (by decide)) (deletionFrom_alike hsteady hc)

/-- When the columns of an insertion are read to their end, the token after their
parenthesis is in the statement. -/
theorem insertSource_alike (hc : c.Like c') :
    Alike slot c c' fuel fuel' false insertSourceBody [] := by
  refine .seq_of rfl (hsteady _ _ _ rfl) ?_
  refine .cond hc (by decide) (hsteady _ _ _ rfl) ?_
  refine .cond hc (by decide) ?_ (hsteady _ _ _ rfl)
  intro r s s' hr h hs
  by_cases hanswer : (Test.eval c s.ahead (Look.afterGroup queryStarts) s.expected).1 =
      (Test.eval c' s'.ahead (Look.afterGroup queryStarts) s'.expected).1
  · exact Alike.cond_of_answer h hanswer hr hs (hsteady _ _ _ rfl) (hsteady _ _ _ rfl)
  · -- the group is not closed in the statement, so its columns are not read to their end
    have heof : kindAfterGroup 0 s.ahead = .eof :=
      (hs.ahead.kindAfterGroup 0).resolve_left fun hsame => hanswer (hsame.contains_eq rfl)
    have hno : (Look.afterGroup queryStarts).holds c s.ahead = false := by
      rw [Look.holds, heof]
      rfl
    have hexec : exec c grammar (run c grammar fuel) r
        (.cond (Look.afterGroup queryStarts) (insertFromQuery fieldsInParens)
          (insertFromConstructor fieldsInParens)) s =
        exec c grammar (run c grammar fuel) r (insertFromConstructor fieldsInParens) s := by
      rw [exec, Test.eval, hno]
    rw [hexec]
    cases ho : exec c grammar (run c grammar fuel) r (insertFromConstructor fieldsInParens) s with
    | aborted why u => exact .lost rfl
    | finished u =>
        have hvalues := insertFromConstructor_finished hr hc.ending ho
        rw [heof] at hvalues
        cases hvalues

end Special

/-! ### All phrases -/

theorem exprBody_steady (power : Nat) :
    (exprBody power).steady contractOf Phrase.isFirm true [] = true :=
  exprBody_of_lt (P := fun p => p.steady contractOf Phrase.isFirm true [] = true)
    (by decide) power

theorem bitExprBody_steady (power : Nat) :
    (bitExprBody power).steady contractOf Phrase.isFirm true [] = true :=
  bitExprBody_of_lt (P := fun p => p.steady contractOf Phrase.isFirm true [] = true)
    (by decide) power

/-- The phrases whose bodies look further than the check allows. -/
def Phrase.looksFurther : Phrase → Bool
  | .functionCall | .insertSource | .deleteStatement => true
  | _ => false

/-- All other bodies are steady. -/
theorem contractOf_steady (phrase : Phrase) (k : Contract) (h : contractOf phrase = some k)
    (hphrase : phrase.looksFurther = false) :
    (grammar phrase).steady contractOf Phrase.isFirm phrase.isFirm k.facts = true := by
  cases phrase with
  | script => cases h
  | functionCall => cases hphrase
  | insertSource => cases hphrase
  | deleteStatement => cases hphrase
  | expr power =>
      cases h
      exact exprBody_steady power
  | bitExpr power =>
      cases h
      exact bitExprBody_steady power
  | frame depth =>
      cases h
      cases depth <;> rfl
  | alterTokens depth =>
      cases h
      cases depth <;> rfl
  | _ =>
      cases h
      decide +kernel

section Runs

variable {slot : Slot} {c c' : Context}

theorem Agrees.of_strict {o o' : Outcome (List Tree)} (h : Agrees slot true o o') (strict : Bool) :
    Agrees slot strict o o' := by
  cases h with
  | finished h => exact .finished h
  | refused h => exact .refused h
  | lost h => cases h

/-- One more call on both sides. -/
theorem Alike.run {fuel fuel' : Nat} {strict : Bool} {p : Fragment} {k : Facts}
    (h : Alike slot c c' fuel fuel' strict p k) :
    RunAlike slot c c' (fuel + 1) (fuel' + 1) strict p k := by
  intro r s s' room hroom hr hready hs
  exact h r s s' hr
    ⟨hready.ok, hready.holds, hready.ended, hready.fits.trans (Nat.le_of_lt_succ hroom)⟩ hs

/-- The two runs of every phrase agree, and so do those of every steady program, when the
run in the script can go at least as deep. -/
theorem run_alike (hc : c.Like c') (fuel : Nat) : ∀ fuel', fuel ≤ fuel' →
    (∀ (strict : Bool) (p : Fragment) (k : Facts),
      p.steady contractOf Phrase.isFirm strict k = true →
        RunAlike slot c c' fuel fuel' strict p k) ∧
    (∀ (phrase : Phrase) (contract : Contract), contractOf phrase = some contract →
      RunAlike slot c c' fuel fuel' phrase.isFirm (grammar phrase) contract.facts) := by
  induction fuel with
  | zero =>
      intro fuel' hle
      refine ⟨fun strict p k hp => ?_, fun phrase contract hcontract => ?_⟩
      all_goals exact fun r s s' room hroom => absurd hroom (Nat.not_lt_zero room)
  | succ fuel ih =>
      intro fuel' hle
      obtain ⟨fuel', rfl⟩ : ∃ n, fuel' = n + 1 := ⟨fuel' - 1, by omega⟩
      obtain ⟨hprograms, hphrases⟩ := ih fuel' (Nat.le_of_succ_le_succ hle)
      -- what is shown of a firm phrase is enough for any caller
      have hcall : ∀ (strict : Bool) (phrase : Phrase), (!strict || phrase.isFirm) = true →
          ∀ contract, contractOf phrase = some contract →
            RunAlike slot c c' fuel fuel' strict (grammar phrase) contract.facts := by
        intro strict phrase hfirm contract hcontract r s s' room hroom hr hready hs
        have h := hphrases phrase contract hcontract r s s' room hroom hr hready hs
        cases hphrase : phrase.isFirm with
        | true => exact (hphrase ▸ h).of_strict strict
        | false =>
            rw [hphrase, Bool.or_false, Bool.not_eq_true'] at hfirm
            rw [hfirm]
            exact hphrase ▸ h
      have hsteady : ∀ (strict : Bool) (p : Fragment) (k : Facts),
          p.steady contractOf Phrase.isFirm strict k = true →
            Alike slot c c' fuel fuel' strict p k :=
        fun strict p k =>
          exec_steady hc (fun strict t p => hprograms strict (.loop t p) []) hcall p strict k
      refine ⟨fun strict p k hp => (hsteady strict p k hp).run, fun phrase contract hcontract => ?_⟩
      cases hfurther : phrase.looksFurther with
      | false => exact (hsteady _ _ _ (contractOf_steady phrase contract hcontract hfurther)).run
      | true =>
          cases phrase with
          | functionCall =>
              cases hcontract
              exact (functionCall_alike hsteady).run
          | insertSource =>
              cases hcontract
              exact (insertSource_alike hsteady hc).run
          | deleteStatement =>
              cases hcontract
              exact (deleteStatement_alike hsteady hc).run
          | _ => cases hfurther

end Runs

end MySqlAnalysis.Grammar
