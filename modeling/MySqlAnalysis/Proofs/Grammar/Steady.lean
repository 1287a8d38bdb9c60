import MySqlAnalysis.Proofs.Grammar.Lookahead
import MySqlAnalysis.Proofs.Grammar.Sparing

/-!
# Statements read alone and in scripts

A statement is read alone, up to the end of the input, and in a script, where a
semicolon and more input may follow. The two runs go through states that differ only in
the place of the tokens (`State.Alongside`) as long as no decision sees past the end of
the statement. A program is checked for that (`Program.steady`), and the two runs of a
checked program agree when those of everything that it calls do (`exec_steady`).

The runs agree in one of two ways (`Agrees`). Where the run over the statement alone
finishes, so does the other; strict agreement adds that both give up in the same places,
which is needed inside attempts, where giving up selects the alternative.
-/

set_option autoImplicit false

namespace MySqlAnalysis

/-! ### Moved trees -/

namespace Tree

mutual

/-- The tree over tokens that stand `n` places later. -/
def moved (n : Nat) : Tree → Tree
  | token index => token (index + n)
  | skipped index => skipped (index + n)
  | node rule first last children =>
    node rule (first + n) (last.map (· + n)) (movedAll n children)

/-- The trees over tokens that stand `n` places later. -/
def movedAll (n : Nat) : List Tree → List Tree
  | [] => []
  | t :: ts => t.moved n :: movedAll n ts

end

theorem movedAll_eq_map (n : Nat) (ts : List Tree) : movedAll n ts = ts.map (moved n) := by
  induction ts with
  | nil => rfl
  | cons t ts ih => rw [movedAll, ih, List.map_cons]

theorem first_moved (n : Nat) (t : Tree) : (t.moved n).first = t.first + n := by
  cases t <;> rfl

/-- The last tokens of two runs are the same one, moved, or both lie before the node. -/
theorem moved_closed (rule : Rule) (first : Nat) {n : Nat} {last last' : Option Nat}
    (hlast : last'.filter (n ≤ ·) = last.map (· + n)) (ts : List Tree) :
    closed rule (first + n) last' (ts.map (moved n)) = (closed rule first last ts).moved n := by
  have hfilter : last'.filter (first + n ≤ ·) = (last.filter (first ≤ ·)).map (· + n) := by
    have hmono : last'.filter (first + n ≤ ·) =
        (last'.filter (n ≤ ·)).filter (first + n ≤ ·) := by
      cases last' with
      | none => rfl
      | some i => grind
    rw [hmono, hlast]
    cases last with
    | none => rfl
    | some i => simp [Option.filter]
  rw [closed, closed, moved, movedAll_eq_map, hfilter]

theorem firstAround_moved (current n : Nat) (ts : List Tree) :
    firstAround (current + n) (ts.map (moved n)) = firstAround current ts + n := by
  rw [firstAround, firstAround, List.getLast?_map]
  cases ts.getLast? with
  | none => rfl
  | some t => exact first_moved n t

end Tree

namespace Grammar

/-! ### Two states at the same place of a statement -/

/-- The states of a run over a statement alone and of a run over a script, at the same
place of that statement. What the second run read before the statement lies before
all of its tokens. -/
structure State.Alongside (slot : Slot) (s s' : State (List Tree)) : Prop where
  ahead : Beside slot s.ahead s'.ahead
  last : s'.last.filter (slot.tokens ≤ ·) = s.last.map (· + slot.tokens)
  built : s'.built = s.built.map (Tree.moved slot.tokens)

namespace State.Alongside

variable {slot : Slot} {c c' : Context} {s s' t t' : State (List Tree)}

/-- The kinds that were tried do not matter. -/
theorem note (h : s.Alongside slot s') (expected expected' : List TokenKind) :
    State.Alongside slot { s with expected } { s' with expected := expected' } :=
  ⟨h.ahead, h.last, h.built⟩

theorem consume (h : s.Alongside slot s') (hne : c.kindAt s.ahead 0 ≠ .eof) :
    (s.consume c).Alongside slot (s'.consume c') := by
  obtain ⟨u, u', us, us', hahead, hahead', hu, hmoved, hrest⟩ := h.ahead.exists_cons hne
  have heof : u.isEof = false := by
    refine beq_eq_false_iff_ne.2 fun hk => ?_
    rw [hk] at hu
    cases hu
  have heof' : u'.isEof = false := by
    rw [Token.isEof, hmoved.kind]
    exact heof
  constructor
  · simpa [State.consume, shift, current, Context.peek, hahead, hahead', heof, heof'] using hrest
  · simp [State.consume, shift, current, Context.peek, hahead, hahead', hmoved.index,
      Option.filter]
  · simp [State.consume, shift, current, Context.peek, hahead, hahead', hmoved.index, h.built,
      Builder.token, Tree.moved]

theorem enter (h : s.Alongside slot s') (rule : Rule) :
    (s.enter c rule).Alongside slot (s'.enter c' rule) :=
  ⟨h.ahead, h.last, rfl⟩

theorem enterAround (h : s.Alongside slot s') (rule : Rule) :
    (s.enterAround c rule).Alongside slot (s'.enterAround c' rule) := by
  refine ⟨h.ahead, h.last, ?_⟩
  show s'.built.getLast?.toList = s.built.getLast?.toList.map (Tree.moved slot.tokens)
  rw [h.built, List.getLast?_map]
  cases s.built.getLast? <;> rfl

theorem leave (h : s.Alongside slot s') (h' : t.Alongside slot t') (rule : Rule) :
    (State.leave c rule s t).Alongside slot (State.leave c' rule s' t') := by
  refine ⟨h'.ahead, h'.last, ?_⟩
  have hfirst : (s'.current c').index = (s.current c).index + slot.tokens := h.ahead.index_peek
  show s'.built ++ [Tree.closed rule (s'.current c').index t'.last t'.built] = _
  rw [h.built, hfirst, h'.built, Tree.moved_closed rule _ h'.last]
  simp [State.leave, Builder.leave]

theorem leaveAround (h : s.Alongside slot s') (h' : t.Alongside slot t') (rule : Rule) :
    (State.leaveAround c rule s t).Alongside slot (State.leaveAround c' rule s' t') := by
  refine ⟨h'.ahead, h'.last, ?_⟩
  have hfirst : (s'.current c').index = (s.current c).index + slot.tokens := h.ahead.index_peek
  show s'.built.dropLast ++
    [Tree.closed rule (Tree.firstAround (s'.current c').index s'.built) t'.last t'.built] = _
  rw [h.built, hfirst, h'.built, Tree.firstAround_moved, Tree.moved_closed rule _ h'.last,
    ← List.map_dropLast]
  simp [State.leaveAround, Builder.leaveAround]

/-- What was built before an attempt is back after it. -/
theorem undo (h : s.Alongside slot s') : (s.undo t).Alongside slot (s'.undo t') :=
  ⟨h.ahead, h.last, h.built⟩

end State.Alongside

/-! ### Two outcomes -/

/-- The outcome of a run in a script agrees with that of a run over the statement
alone. -/
inductive Agrees (slot : Slot) (strict : Bool) : Outcome (List Tree) → Outcome (List Tree) → Prop
  | finished {s s' : State (List Tree)} (h : s.Alongside slot s') :
      Agrees slot strict (.finished s) (.finished s')
  /-- Both runs give up. -/
  | refused {why why' : Abort} {s s' : State (List Tree)} (h : why' ≠ .exhausted) :
      Agrees slot strict (.aborted why s) (.aborted why' s')
  /-- Nothing is said where the statement alone is not read to its end. -/
  | lost {why : Abort} {s : State (List Tree)} {o' : Outcome (List Tree)} (h : strict = false) :
      Agrees slot strict (.aborted why s) o'

namespace Agrees

variable {slot : Slot} {strict : Bool} {o o' : Outcome (List Tree)}

theorem andThen {f f' : State (List Tree) → Outcome (List Tree)} (h : Agrees slot strict o o')
    (hf : ∀ s s', o = .finished s → s.Alongside slot s' → Agrees slot strict (f s) (f' s')) :
    Agrees slot strict (o.andThen f) (o'.andThen f') := by
  cases h with
  | finished h => exact hf _ _ rfl h
  | refused h => exact .refused h
  | lost h => exact .lost h

theorem map {f f' : State (List Tree) → State (List Tree)} (h : Agrees slot strict o o')
    (hf : ∀ {s s'}, s.Alongside slot s' → (f s).Alongside slot (f' s')) :
    Agrees slot strict (o.map f) (o'.map f') := by
  cases h with
  | finished h => exact .finished (hf h)
  | refused h => exact .refused h
  | lost h => exact .lost h

end Agrees

section Moves

variable {slot : Slot} {c c' : Context} {s s' : State (List Tree)} {r : Reaction} {strict : Bool}

theorem State.fail_agrees (hr : r ≠ .recover) (cause : Cause) (s s' : State (List Tree)) :
    Agrees slot strict (s.fail c r cause) (s'.fail c' r cause) := by
  cases r with
  | recover => exact absurd rfl hr
  | bail => exact .refused (by simp)
  | backtrack => exact .refused (by simp)

theorem State.refuse_agrees (hr : r ≠ .recover) (why : Refusal) (s s' : State (List Tree)) :
    Agrees slot strict (s.refuse c r why) (s'.refuse c' r why) := by
  cases why <;> exact fail_agrees hr _ _ _

/-- A token that ends no statement is found in both runs or in none. -/
theorem State.expect_agrees (hr : r ≠ .recover) (h : s.Alongside slot s') {kind : TokenKind}
    (hkind : boundaryKinds.contains kind = false) :
    Agrees slot strict (s.expect c r kind) (s'.expect c' r kind) := by
  have hr' : (r == .recover) = false := beq_eq_false_iff_ne.2 hr
  have hsame : (c.kindAt s.ahead 0 == kind) = (c'.kindAt s'.ahead 0 == kind) :=
    h.ahead.kindAt_zero.beq_eq hkind
  rw [expect, expect]
  dsimp only
  rw [← hsame]
  simp only [hr', Bool.false_and, if_neg Bool.false_ne_true]
  split
  case isTrue hfound =>
    refine .finished ((h.note _ _).consume ?_)
    intro heof
    rw [beq_iff_eq.1 hfound] at heof
    rw [heof] at hkind
    cases hkind
  case isFalse => exact fail_agrees hr _ _ _

end Moves

/-! ### Steady programs -/

variable {φ : Type}

/-- Whether a program, at a place of a statement where the facts hold, sees nothing of
what follows the statement. Where giving up matters, it only calls phrases that are
`firm`, whose two runs agree strictly. -/
def Program.steady (contracts : φ → Option Contract) (firm : φ → Bool) :
    (strict : Bool) → Program φ → Facts → Bool
  | _, done, _ => true
  | _, advance, _ => true
  | _, expect kind, _ => !boundaryKinds.contains kind
  | _, refuse _, _ => true
  | strict, seq p q, k =>
    p.steady contracts firm strict k &&
      (p.flow contracts k).ending.all fun e => q.steady contracts firm strict e.facts
  | strict, cond t p q, k =>
    t.steady k &&
      (((t.facts true ++ k).impossible || p.steady contracts firm strict (t.facts true ++ k)) &&
        ((t.facts false ++ k).impossible || q.steady contracts firm strict (t.facts false ++ k)))
  | strict, loop t p, _ =>
    t.steady [] &&
      ((t.facts true).impossible || p.steady contracts firm strict (t.facts true))
  | strict, node _ p, k => p.steady contracts firm strict k
  | strict, wrap _ p, k => p.steady contracts firm strict k
  | strict, attempt p q, k => p.steady contracts firm true k && q.steady contracts firm strict k
  | _, resume _, _ => false
  | strict, call phrase, _ => !strict || firm phrase

/-! ### The two runs of a program -/

section Runs

variable (slot : Slot) (c c' : Context) (fuel fuel' : Nat) (strict : Bool)

/-- Executed over a statement alone and in a script, a program has agreeing outcomes
wherever it is ready. -/
def Alike (p : Fragment) (k : Facts) : Prop :=
  ∀ (r : Reaction) (s s' : State (List Tree)), r ≠ .recover → Ready c contractOf fuel p k s →
    s.Alongside slot s' →
      Agrees slot strict (exec c grammar (run c grammar fuel) r p s)
        (exec c' grammar (run c' grammar fuel') r p s')

/-- The same of what a program calls. -/
def RunAlike (p : Fragment) (k : Facts) : Prop :=
  ∀ (r : Reaction) (s s' : State (List Tree)) (room : Nat), room < fuel → r ≠ .recover →
    Ready c contractOf room p k s → s.Alongside slot s' →
      Agrees slot strict (run c grammar fuel r p s) (run c' grammar fuel' r p s')

end Runs

namespace Alike

variable {slot : Slot} {c c' : Context} {fuel fuel' : Nat} {strict : Bool} {p q : Fragment}
  {t : Test} {k : Facts}

theorem seq (hp : Alike slot c c' fuel fuel' strict p k)
    (hq : ∀ e ∈ (p.flow contractOf k).ending, Alike slot c c' fuel fuel' strict q e.facts) :
    Alike slot c c' fuel fuel' strict (.seq p q) k := by
  intro r s s' hr h hs
  have hflow := h.seq_left.flows contractOf_depth contractOf_kept r
  rw [exec, exec]
  refine (hp r s s' hr h.seq_left hs).andThen fun u u' hu hus => ?_
  rw [hu] at hflow
  obtain ⟨e, he, hready⟩ := h.seq_right contractOf_depth hflow
  exact hq e he r u u' hr hready hus

/-- A decision with one answer in both runs. -/
theorem cond_of_answer {r : Reaction} {s s' : State (List Tree)}
    (h : Ready c contractOf fuel (.cond t p q) k s)
    (hanswer : (t.eval c s.ahead s.expected).1 = (t.eval c' s'.ahead s'.expected).1)
    (hr : r ≠ .recover) (hs : s.Alongside slot s')
    (hp : Alike slot c c' fuel fuel' strict p (t.facts true ++ k))
    (hq : Alike slot c c' fuel fuel' strict q (t.facts false ++ k)) :
    Agrees slot strict (exec c grammar (run c grammar fuel) r (.cond t p q) s)
      (exec c' grammar (run c' grammar fuel') r (.cond t p q) s') := by
  rw [exec, exec]
  cases heval : t.eval c s.ahead s.expected with
  | mk answer expected =>
      cases heval' : t.eval c' s'.ahead s'.expected with
      | mk answer' expected' =>
          rw [heval, heval'] at hanswer
          cases (hanswer : answer = answer')
          cases answer with
          | true =>
              have hready := h.cond_true (by rw [heval])
              exact hp r _ _ hr (hready.of_ahead_eq rfl) (hs.note _ _)
          | false =>
              have hready := h.cond_false (by rw [heval])
              exact hq r _ _ hr (hready.of_ahead_eq rfl) (hs.note _ _)

theorem cond (hc : c.Like c') (ht : t.steady k = true)
    (hp : Alike slot c c' fuel fuel' strict p (t.facts true ++ k))
    (hq : Alike slot c c' fuel fuel' strict q (t.facts false ++ k)) :
    Alike slot c c' fuel fuel' strict (.cond t p q) k := by
  intro r s s' hr h hs
  exact cond_of_answer h (t.eval_of_steady hc hs.ahead _ _ h.holds ht) hr hs hp hq

theorem loop (hc : c.Like c') (ht : t.steady [] = true)
    (hp : Alike slot c c' fuel fuel' strict p (t.facts true))
    (hnext : RunAlike slot c c' fuel fuel' strict (.loop t p) []) :
    Alike slot c c' fuel fuel' strict (.loop t p) k := by
  intro r s s' hr h hs
  have hanswer := t.eval_of_steady hc hs.ahead s.expected s'.expected Facts.hold_nil ht
  rw [exec, exec]
  cases heval : t.eval c s.ahead s.expected with
  | mk answer expected =>
      cases heval' : t.eval c' s'.ahead s'.expected with
      | mk answer' expected' =>
          rw [heval, heval'] at hanswer
          cases (hanswer : answer = answer')
          cases answer with
          | false => exact .finished (hs.note _ _)
          | true =>
              -- both runs start a round, and the next one has less room
              have hanswer : (t.eval c s.ahead s.expected).1 = true := by rw [heval]
              have hready : Ready c contractOf fuel p (t.facts true) { s with expected } :=
                (h.loop_body hanswer).of_ahead_eq rfl
              have hflow : Flows c _ s _ :=
                (hready.flows contractOf_depth contractOf_kept r).of_reads_eq rfl rfl
              refine (hp r _ _ hr hready (hs.note _ _)).andThen fun u u' hu hus => ?_
              rw [hu] at hflow
              obtain ⟨room, hroom, hready'⟩ := h.loop_next hanswer hflow
              exact hnext r u u' room hroom hr hready' hus

theorem node (rule : Rule) (hp : Alike slot c c' fuel fuel' strict p k) :
    Alike slot c c' fuel fuel' strict (.node rule p) k := by
  intro r s s' hr h hs
  rw [exec, exec]
  have hbody := hp r (s.enter c rule) (s'.enter c' rule) hr ⟨h.ok, h.holds, h.ended, h.fits⟩
    (hs.enter rule)
  exact hbody.map fun hus => hs.leave hus rule

theorem wrap (rule : Rule) (hp : Alike slot c c' fuel fuel' strict p k) :
    Alike slot c c' fuel fuel' strict (.wrap rule p) k := by
  intro r s s' hr h hs
  rw [exec, exec]
  have hbody := hp r (s.enterAround c rule) (s'.enterAround c' rule) hr
    ⟨h.ok, h.holds, h.ended, h.fits⟩ (hs.enterAround rule)
  exact hbody.map fun hus => hs.leaveAround hus rule

/-- The first alternative fits in both runs or in none. -/
theorem attempt (hp : Alike slot c c' fuel fuel' true p k)
    (hq : Alike slot c c' fuel fuel' strict q k) :
    Alike slot c c' fuel fuel' strict (.attempt p q) k := by
  intro r s s' hr h hs
  have hfirst := hp .backtrack s s' (by decide) h.attempt_left hs
  have hflow := h.attempt_left.flows contractOf_depth contractOf_kept .backtrack
  rw [exec, exec]
  generalize exec c grammar (run c grammar fuel) .backtrack p s = o at hfirst hflow
  generalize exec c' grammar (run c' grammar fuel') .backtrack p s' = o' at hfirst
  cases hfirst with
  | finished hus => exact .finished hus
  | lost hstrict => cases hstrict
  | @refused why why' u u' hwhy' =>
      have hwhy : why ≠ .exhausted := fun hwhy => hflow.completes u (hwhy ▸ rfl)
      have hsecond := hq r (s.undo u) (s'.undo u') hr (h.attempt_right.of_ahead_eq rfl) hs.undo
      cases why <;> cases why' <;> first | exact hsecond | exact absurd rfl ‹_›

theorem call (phrase : Phrase)
    (hbody : ∀ contract, contractOf phrase = some contract →
      RunAlike slot c c' fuel fuel' strict (grammar phrase) contract.facts) :
    Alike slot c c' fuel fuel' strict (.call phrase) k := by
  intro r s s' hr h hs
  obtain ⟨contract, hcontract⟩ := h.exists_contract
  obtain ⟨room, hroom, hready⟩ := h.body hcontract (contractOf_kept phrase contract hcontract)
  exact hbody contract hcontract r s s' room hroom hr hready hs

/-- A branch that is not reached need not be checked. -/
theorem of_impossible {check : Bool} (h : (k.impossible || check) = true)
    (hp : check = true → Alike slot c c' fuel fuel' strict p k) :
    Alike slot c c' fuel fuel' strict p k := by
  intro r s s' hr hready hs
  exact hp (hready.holds.check h) r s s' hr hready hs

end Alike

/-- The two runs of a steady program agree when those of the phrases that it calls and of
further rounds of its loops do. -/
theorem exec_steady {slot : Slot} {c c' : Context} (hc : c.Like c') {firm : Phrase → Bool}
    {fuel fuel' : Nat}
    (hloop : ∀ (strict : Bool) (t : Test) (p : Fragment),
      (Program.loop t p).steady contractOf firm strict [] = true →
        RunAlike slot c c' fuel fuel' strict (.loop t p) [])
    (hcall : ∀ (strict : Bool) (phrase : Phrase), (!strict || firm phrase) = true →
      ∀ contract, contractOf phrase = some contract →
        RunAlike slot c c' fuel fuel' strict (grammar phrase) contract.facts)
    (p : Fragment) :
    ∀ (strict : Bool) (k : Facts), p.steady contractOf firm strict k = true →
      Alike slot c c' fuel fuel' strict p k := by
  induction p with
  | done => exact fun strict k hp r s s' hr h hs => .finished hs
  | advance =>
      intro strict k hp r s s' hr h hs
      exact .finished (hs.consume (Facts.kindAt_ne_of_rulesOut h.holds h.ok))
  | expect kind =>
      intro strict k hp r s s' hr h hs
      exact State.expect_agrees hr hs (Bool.not_eq_true' _ ▸ hp)
  | refuse why => exact fun strict k hp r s s' hr h hs => State.refuse_agrees hr why s s'
  | seq p q ihp ihq =>
      intro strict k hpq
      obtain ⟨hp, hq⟩ := Bool.and_eq_true_iff.1 hpq
      exact (ihp strict k hp).seq fun e he =>
        ihq strict e.facts ((Option.all_eq_true _ _).1 hq e he)
  | cond t p q ihp ihq =>
      intro strict k hpq
      obtain ⟨ht, hbranches⟩ := Bool.and_eq_true_iff.1 hpq
      obtain ⟨hp, hq⟩ := Bool.and_eq_true_iff.1 hbranches
      exact .cond hc ht (.of_impossible hp (ihp strict _)) (.of_impossible hq (ihq strict _))
  | loop t p ih =>
      intro strict k hp
      obtain ⟨ht, hbody⟩ := Bool.and_eq_true_iff.1 hp
      exact .loop hc ht (.of_impossible hbody (ih strict _)) (hloop strict t p hp)
  | node rule p ih => exact fun strict k hp => (ih strict k hp).node rule
  | wrap rule p ih => exact fun strict k hp => (ih strict k hp).wrap rule
  | attempt p q ihp ihq =>
      intro strict k hpq
      obtain ⟨hp, hq⟩ := Bool.and_eq_true_iff.1 hpq
      -- the second program is run on both sides or on none, so the first is checked strictly
      exact (ihp true k hp).attempt (ihq strict k hq)
  | resume p ih =>
      intro strict k hp
      cases hp
  | call phrase => exact fun strict k hp => .call phrase (hcall strict phrase hp)

end Grammar

end MySqlAnalysis
