import MySqlAnalysis.Proofs.Grammar.Reaction

/-!
# Evaluation without a bound

`run` stops when a bound on the depth of calls is reached. `Evaluates` says what
a program does without any bound: there is a rule for each constructor, a loop
goes on for as long as its test holds, a statement that was given up is skipped
to wherever it ends (`Skips`), and a look that searches walks from token to token
until it finds where to stop (`Walks`). Such a walk may go past the last token,
so it only stops on all inputs if it stops at the end of the input; `Program.halts`
checks this for every look of a program.

A run that does not reach its bound is an evaluation (`run_evaluates`), and no
program has two of them from one state (`Evaluates.unique`).
-/

set_option autoImplicit false

namespace MySqlAnalysis.Grammar

/-! ### Walks over the tokens ahead -/

/-- A search over the tokens ahead. -/
inductive Walk where
  /-- Inside `depth` parentheses, until they are closed. -/
  | group (depth : Nat)
  /-- Right behind a group. -/
  | behind
  /-- Past tokens of these kinds. -/
  | past (passed : List TokenKind)
  /-- For a keyword of the statement. -/
  | inStatement (k : Keyword)

namespace Walk

/-- How a walk goes on after a token of the kind; it may stop there instead. -/
def next : Walk → TokenKind → Option Walk
  | group _, .eof => none
  | group depth, .openParen => some (group (depth + 1))
  | group depth, .closeParen => some (if depth ≤ 1 then behind else group (depth - 1))
  | group depth, _ => some (group depth)
  | behind, _ => none
  | past passed, kind => if passed.contains kind then some (past passed) else none
  | inStatement k, kind =>
    if kind == .semicolon || kind == .eof || kind == .keyword k then none
    else some (inStatement k)

/-- Whether the walk stops at the end of the input. -/
def halts : Walk → Bool
  | past passed => !passed.contains .eof
  | _ => true

theorem next_eof {w : Walk} (h : w.halts = true) : w.next .eof = none := by
  cases w with
  | past passed => simp_all [next, halts]
  | _ => rfl

/-- A walk that halts keeps halting. -/
theorem halts_of_next {w w' : Walk} {kind : TokenKind} (h : w.halts = true)
    (hnext : w.next kind = some w') : w'.halts = true := by
  cases w with
  | group depth => unfold next at hnext; grind [halts]
  | behind => cases hnext
  | past passed => unfold next at hnext; grind
  | inStatement k => unfold next at hnext; grind

end Walk

/-- A walk from the place `n` on stops at a token of the kind. -/
inductive Walks (c : Context) (ahead : List Token) : Walk → Nat → TokenKind → Prop
  | stop {w : Walk} {n : Nat} :
      w.next (c.kindAt ahead n) = none → Walks c ahead w n (c.kindAt ahead n)
  | step {w w' : Walk} {n : Nat} {kind : TokenKind} :
      w.next (c.kindAt ahead n) = some w' → Walks c ahead w' (n + 1) kind → Walks c ahead w n kind

section Walks

variable {c : Context} {ahead : List Token} {n : Nat}

theorem Walks.unique {w : Walk} {kind kind' : TokenKind} (h : Walks c ahead w n kind)
    (h' : Walks c ahead w n kind') : kind = kind' := by
  induction h with
  | stop hstop =>
      cases h' with
      | stop => rfl
      | step hnext =>
          rw [hstop] at hnext
          cases hnext
  | step hnext hrest ih =>
      cases h' with
      | stop hstop =>
          rw [hstop] at hnext
          cases hnext
      | step hnext' hrest' =>
          rw [hnext] at hnext'
          cases hnext'
          exact ih hrest'

theorem kindAt_of_drop_nil (hc : c.ending.isEof = true) (h : ahead.drop n = []) :
    c.kindAt ahead n = .eof := by
  have hle : ahead.length ≤ n := List.drop_eq_nil_iff.1 h
  rw [Context.kindAt, Context.peek, List.getElem?_eq_none hle]
  exact beq_iff_eq.1 hc

theorem kindAt_of_drop_cons {t : Token} {ts : List Token} (h : ahead.drop n = t :: ts) :
    c.kindAt ahead n = t.kind ∧ ahead.drop (n + 1) = ts := by
  constructor
  · have hget : ahead[n]? = some t := by
      rw [← Nat.add_zero n, ← List.getElem?_drop, h]
      rfl
    rw [Context.kindAt, Context.peek, hget]
    rfl
  · rw [← List.drop_drop, h]
    rfl

theorem walks_behind : Walks c ahead .behind n (c.kindAt ahead n) := .stop rfl

/-- A walk through a group stops behind it. -/
theorem walks_group (hc : c.ending.isEof = true) (depth : Nat) :
    Walks c ahead (.group depth) n (kindAfterGroup depth (ahead.drop n)) := by
  induction hts : ahead.drop n generalizing n depth with
  | nil =>
      have hkind := kindAt_of_drop_nil hc hts
      rw [kindAfterGroup, ← hkind]
      exact .stop (by rw [hkind]; rfl)
  | cons t ts ih =>
      obtain ⟨hkind, hrest⟩ := kindAt_of_drop_cons (c := c) hts
      rw [kindAfterGroup]
      split
      case h_1 ht => exact .step (by rw [hkind, ht]; rfl) (ih (depth + 1) hrest)
      case h_2 ht =>
        split
        case isTrue hdepth =>
          -- the group is closed, and the token behind it is all that is left to look at
          have hstep : (Walk.group depth).next (c.kindAt ahead n) = some .behind := by
            rw [hkind, ht, Walk.next, if_pos hdepth]
          have hbehind : c.kindAt ahead (n + 1) = ((ts.head?).map (·.kind)).getD .eof := by
            cases ts with
            | nil => exact kindAt_of_drop_nil hc hrest
            | cons u us => exact (kindAt_of_drop_cons hrest).1
          rw [← hbehind]
          exact .step hstep walks_behind
        case isFalse hdepth =>
          exact .step (by rw [hkind, ht, Walk.next, if_neg hdepth]) (ih (depth - 1) hrest)
      case h_3 ht =>
        have hend : c.kindAt ahead n = .eof := hkind.trans ht
        rw [← hend]
        exact .stop (by rw [hend]; rfl)
      case h_4 hopen hclose heof =>
        have hstep : (Walk.group depth).next (c.kindAt ahead n) = some (.group depth) := by
          rw [hkind]
          unfold Walk.next
          grind
        exact .step hstep (ih depth hrest)

/-- A walk past some kinds stops at the first token of another kind. -/
theorem walks_past (hc : c.ending.isEof = true) {passed : List TokenKind}
    (h : (Walk.past passed).halts = true) :
    Walks c ahead (.past passed) n (kindBeyond passed (ahead.drop n)) := by
  induction hts : ahead.drop n generalizing n with
  | nil =>
      have hkind := kindAt_of_drop_nil hc hts
      rw [kindBeyond, ← hkind]
      exact .stop (by rw [hkind]; exact Walk.next_eof h)
  | cons t ts ih =>
      obtain ⟨hkind, hrest⟩ := kindAt_of_drop_cons (c := c) hts
      rw [kindBeyond]
      split
      case isTrue hmem => exact .step (by rw [hkind, Walk.next, if_pos hmem]) (ih hrest)
      case isFalse hmem =>
        rw [← hkind]
        exact .stop (by rw [hkind, Walk.next, if_neg hmem])

/-- A walk for a keyword stops at it or at the end of the statement. -/
theorem walks_inStatement (hc : c.ending.isEof = true) (k : Keyword) :
    ∃ kind, Walks c ahead (.inStatement k) n kind ∧
      (kind == .keyword k) = occursInStatement k (ahead.drop n) := by
  induction hts : ahead.drop n generalizing n with
  | nil =>
      have hkind := kindAt_of_drop_nil hc hts
      refine ⟨_, .stop (by rw [hkind]; rfl), ?_⟩
      rw [hkind]
      rfl
  | cons t ts ih =>
      obtain ⟨hkind, hrest⟩ := kindAt_of_drop_cons (c := c) hts
      by_cases hstop : t.kind == .semicolon || t.kind == .eof || t.kind == .keyword k
      · refine ⟨_, .stop (by rw [hkind, Walk.next, if_pos hstop]), ?_⟩
        rw [hkind, occursInStatement]
        grind
      · obtain ⟨kind, hwalk, hfound⟩ := ih hrest
        refine ⟨kind, .step (by rw [hkind, Walk.next, if_neg hstop]) hwalk, ?_⟩
        rw [hfound, occursInStatement]
        grind

end Walks

/-! ### Answers -/

namespace Look

/-- The searches that a look may start, with the places they start from. -/
def walks : Look → List (Walk × Nat)
  | .afterGroup _ => [(.group 0, 0)]
  | .beyond n passed _ => [(.past passed, n)]
  | .inStatement k => [(.inStatement k, 0)]
  | .both a b => a.walks ++ b.walks
  | .either a b => a.walks ++ b.walks
  | .not a => a.walks
  | _ => []

/-- Whether all searches of a look stop at the end of the input. -/
def halts (l : Look) : Bool := l.walks.all fun w => w.1.halts

/-- The answer to a look that is found by walking. -/
def Answers (c : Context) (ahead : List Token) : Look → Bool → Prop
  | .afterGroup kinds, answer =>
    ∃ kind, Walks c ahead (.group 0) 0 kind ∧ kinds.contains kind = answer
  | .beyond n passed kinds, answer =>
    ∃ kind, Walks c ahead (.past passed) n kind ∧ kinds.contains kind = answer
  | .inStatement k, answer =>
    ∃ kind, Walks c ahead (.inStatement k) 0 kind ∧ (kind == .keyword k) = answer
  | .both a b, answer => ∃ x y, a.Answers c ahead x ∧ b.Answers c ahead y ∧ (x && y) = answer
  | .either a b, answer => ∃ x y, a.Answers c ahead x ∧ b.Answers c ahead y ∧ (x || y) = answer
  | .not a, answer => ∃ x, a.Answers c ahead x ∧ (!x) = answer
  | l, answer => l.holds c ahead = answer

/-- Walking finds the answer of the look, and no other one. -/
theorem answers_iff {c : Context} {ahead : List Token} (hc : c.ending.isEof = true) (l : Look) :
    ∀ answer, l.halts = true → (l.Answers c ahead answer ↔ l.holds c ahead = answer) := by
  induction l with
  | afterGroup kinds =>
      intro answer _
      have hwalk : Walks c ahead (.group 0) 0 (kindAfterGroup 0 ahead) := walks_group hc 0
      -- a walk has one end, so any other walk ends with the same kind
      constructor
      · rintro ⟨kind, hw, h⟩
        rw [← hwalk.unique hw] at h
        exact h
      · exact fun h => ⟨_, hwalk, h⟩
  | beyond n passed kinds =>
      intro answer h
      have hpassed : (Walk.past passed).halts = true := (Bool.and_eq_true_iff.1 h).1
      have hwalk : Walks c ahead (.past passed) n (kindBeyond passed (ahead.drop n)) :=
        walks_past hc hpassed
      constructor
      · rintro ⟨kind, hw, h⟩
        rw [← hwalk.unique hw] at h
        exact h
      · exact fun h => ⟨_, hwalk, h⟩
  | inStatement k =>
      intro answer _
      obtain ⟨kind, hwalk, hfound⟩ : ∃ kind, Walks c ahead (.inStatement k) 0 kind ∧
          (kind == .keyword k) = occursInStatement k ahead := walks_inStatement hc k
      constructor
      · rintro ⟨kind', hw, h⟩
        rw [← hwalk.unique hw, hfound] at h
        exact h
      · intro h
        exact ⟨kind, hwalk, hfound.trans h⟩
  | both a b iha ihb =>
      intro answer h
      rw [halts, walks, List.all_append, Bool.and_eq_true] at h
      simp only [Answers, iha _ h.1, ihb _ h.2, holds]
      simp
  | either a b iha ihb =>
      intro answer h
      rw [halts, walks, List.all_append, Bool.and_eq_true] at h
      simp only [Answers, iha _ h.1, ihb _ h.2, holds]
      simp
  | not a ih =>
      intro answer h
      simp only [Answers, ih _ h, holds]
      simp
  | _ => exact fun answer _ => Iff.rfl

end Look

namespace Test

/-- The searches that a test may start, with the places they start from. -/
def walks : Test → List (Walk × Nat)
  | .look l => l.walks
  | .both a b => a.walks ++ b.walks
  | .either a b => a.walks ++ b.walks
  | .not a => a.walks
  | _ => []

/-- Whether all searches of a test stop at the end of the input. -/
def halts (t : Test) : Bool := t.walks.all fun w => w.1.halts

/-- The answer to a test that is found by walking, and the expected kinds after it. -/
def Answers (c : Context) (ahead : List Token) :
    Test → List TokenKind → Bool → List TokenKind → Prop
  | .look l, expected, answer, expected' => l.Answers c ahead answer ∧ expected' = expected
  | .both a b, expected, answer, expected' =>
    (∃ between, a.Answers c ahead expected true between ∧
      b.Answers c ahead between answer expected') ∨
    (a.Answers c ahead expected false expected' ∧ answer = false)
  | .either a b, expected, answer, expected' =>
    (∃ between, a.Answers c ahead expected false between ∧
      b.Answers c ahead between answer expected') ∨
    (a.Answers c ahead expected true expected' ∧ answer = true)
  | .not a, expected, answer, expected' => a.Answers c ahead expected (!answer) expected'
  | t, expected, answer, expected' => t.eval c ahead expected = (answer, expected')

/-- Walking finds the answer of the test, and no other one. -/
theorem answers_iff {c : Context} {ahead : List Token} (hc : c.ending.isEof = true) (t : Test) :
    ∀ expected answer expected', t.halts = true →
      (t.Answers c ahead expected answer expected' ↔
        t.eval c ahead expected = (answer, expected')) := by
  induction t with
  | look l =>
      intro expected answer expected' h
      rw [Answers, eval, l.answers_iff hc answer h, Prod.mk.injEq, eq_comm (a := expected)]
  | both a b iha ihb =>
      intro expected answer expected' h
      rw [halts, walks, List.all_append, Bool.and_eq_true] at h
      simp only [Answers, iha _ _ _ h.1, ihb _ _ _ h.2, eval]
      rcases a.eval c ahead expected with ⟨_ | _, between⟩ <;> simp [and_comm, eq_comm]
  | either a b iha ihb =>
      intro expected answer expected' h
      rw [halts, walks, List.all_append, Bool.and_eq_true] at h
      simp only [Answers, iha _ _ _ h.1, ihb _ _ _ h.2, eval]
      rcases a.eval c ahead expected with ⟨_ | _, between⟩ <;> simp [and_comm, eq_comm]
  | not a ih =>
      intro expected answer expected' h
      simp only [Answers, ih _ _ _ h, eval]
      rcases a.eval c ahead expected with ⟨x, between⟩
      cases x <;> cases answer <;> simp
  | _ => exact fun expected answer expected' _ => Iff.rfl

end Test

/-! ### Skipping a statement -/

section Skips

variable {β : Type} [Builder β]

/-- Passing over the rest of the statement, however long it is. -/
inductive Skips (c : Context) : State β → State β → Prop
  | stop {s : State β} : Look.atStatementEnd.holds c s.ahead = true → Skips c s s
  | step {s s' : State β} :
      Look.atStatementEnd.holds c s.ahead = false → Skips c (s.skip c) s' → Skips c s s'

variable {c : Context} {s s' s'' : State β}

theorem Skips.unique (h : Skips c s s') (h' : Skips c s s'') : s' = s'' := by
  induction h with
  | stop hend =>
      cases h' with
      | stop => rfl
      | step hgo =>
          rw [hend] at hgo
          cases hgo
  | step hgo _ ih =>
      cases h' with
      | stop hend =>
          rw [hend] at hgo
          cases hgo
      | step _ hrest => exact ih hrest

/-- Where the statement goes on there is a token to skip. -/
theorem State.skip_ahead (hc : c.ending.isEof = true)
    (h : Look.atStatementEnd.holds c s.ahead = false) :
    ∃ t, s.ahead = t :: (s.skip c).ahead := by
  have hkind : c.kindAt s.ahead 0 ≠ .eof := by
    intro heof
    simp [Look.atStatementEnd, Look.holds, heof] at h
  cases hahead : s.ahead with
  | nil =>
      rw [hahead] at hkind
      exact absurd (beq_iff_eq.1 hc) hkind
  | cons t ts =>
      rw [hahead] at hkind
      have ht : t.isEof = false := beq_eq_false_iff_ne.2 hkind
      refine ⟨t, ?_⟩
      simp [State.skip, State.shift, State.current, Context.peek, hahead, ht]

theorem skips_skipUpTo (hc : c.ending.isEof = true) (n : Nat) :
    ∀ s : State β, s.ahead.length ≤ n → Skips c s (State.skipUpTo c n s) := by
  induction n with
  | zero =>
      intro s hlen
      have hnil : s.ahead = [] := List.eq_nil_of_length_eq_zero (Nat.le_zero.1 hlen)
      refine .stop ?_
      rw [hnil]
      simp [Look.atStatementEnd, Look.holds, Context.kindAt, Context.peek, beq_iff_eq.1 hc]
  | succ n ih =>
      intro s hlen
      rw [State.skipUpTo]
      split
      case isTrue hend => exact .stop hend
      case isFalse hgo =>
        have hgo' := Bool.eq_false_iff.2 hgo
        obtain ⟨t, ht⟩ := State.skip_ahead hc hgo'
        rw [ht, List.length_cons] at hlen
        exact .step hgo' (ih _ (by omega))

/-- The bound of `State.skipStatement` is never what stops it. -/
theorem skips_skipStatement (hc : c.ending.isEof = true) (s : State β) :
    Skips c s (s.skipStatement c) :=
  skips_skipUpTo hc _ s le_rfl

end Skips

/-! ### Evaluation -/

variable {φ β : Type}

/-- Whether all searches of a program stop at the end of the input. -/
def Program.halts : Program φ → Bool
  | .seq p q => p.halts && q.halts
  | .cond t p q => t.halts && p.halts && q.halts
  | .loop t p => t.halts && p.halts
  | .node _ p => p.halts
  | .wrap _ p => p.halts
  | .attempt p q => p.halts && q.halts
  | .resume p => p.halts
  | _ => true

/-- A program, started in a state, comes to an end with the outcome. -/
inductive Evaluates [Builder β] (c : Context) (rules : φ → Program φ) :
    Reaction → Program φ → State β → Outcome β → Prop
  | done {r : Reaction} {s : State β} : Evaluates c rules r .done s (.finished s)
  | advance {r : Reaction} {s : State β} :
      Evaluates c rules r .advance s (.finished (s.consume c))
  | expect {r : Reaction} {s : State β} {kind : TokenKind} :
      Evaluates c rules r (.expect kind) s (s.expect c r kind)
  | refuse {r : Reaction} {s : State β} {why : Refusal} :
      Evaluates c rules r (.refuse why) s (s.refuse c r why)
  | seq {r : Reaction} {s s' : State β} {p q : Program φ} {o : Outcome β} :
      Evaluates c rules r p s (.finished s') → Evaluates c rules r q s' o →
        Evaluates c rules r (.seq p q) s o
  | seqAborted {r : Reaction} {s s' : State β} {p q : Program φ} {why : Abort} :
      Evaluates c rules r p s (.aborted why s') →
        Evaluates c rules r (.seq p q) s (.aborted why s')
  | condTrue {r : Reaction} {s : State β} {t : Test} {p q : Program φ}
      {expected : List TokenKind} {o : Outcome β} :
      t.Answers c s.ahead s.expected true expected →
        Evaluates c rules r p { s with expected } o → Evaluates c rules r (.cond t p q) s o
  | condFalse {r : Reaction} {s : State β} {t : Test} {p q : Program φ}
      {expected : List TokenKind} {o : Outcome β} :
      t.Answers c s.ahead s.expected false expected →
        Evaluates c rules r q { s with expected } o → Evaluates c rules r (.cond t p q) s o
  | loopStop {r : Reaction} {s : State β} {t : Test} {p : Program φ}
      {expected : List TokenKind} :
      t.Answers c s.ahead s.expected false expected →
        Evaluates c rules r (.loop t p) s (.finished { s with expected })
  | loopNext {r : Reaction} {s s' : State β} {t : Test} {p : Program φ}
      {expected : List TokenKind} {o : Outcome β} :
      t.Answers c s.ahead s.expected true expected →
        Evaluates c rules r p { s with expected } (.finished s') →
          Evaluates c rules r (.loop t p) s' o → Evaluates c rules r (.loop t p) s o
  | loopAborted {r : Reaction} {s s' : State β} {t : Test} {p : Program φ}
      {expected : List TokenKind} {why : Abort} :
      t.Answers c s.ahead s.expected true expected →
        Evaluates c rules r p { s with expected } (.aborted why s') →
          Evaluates c rules r (.loop t p) s (.aborted why s')
  | node {r : Reaction} {s : State β} {rule : Rule} {p : Program φ} {o : Outcome β} :
      Evaluates c rules r p (s.enter c rule) o →
        Evaluates c rules r (.node rule p) s (o.map (State.leave c rule s))
  | wrap {r : Reaction} {s : State β} {rule : Rule} {p : Program φ} {o : Outcome β} :
      Evaluates c rules r p (s.enterAround c rule) o →
        Evaluates c rules r (.wrap rule p) s (o.map (State.leaveAround c rule s))
  | attempt {r : Reaction} {s s' : State β} {p q : Program φ} :
      Evaluates c rules .backtrack p s (.finished s') →
        Evaluates c rules r (.attempt p q) s (.finished s')
  | attemptUndone {r : Reaction} {s s' : State β} {p q : Program φ} {why : Abort}
      {o : Outcome β} :
      Evaluates c rules .backtrack p s (.aborted why s') →
        Evaluates c rules r q (s.undo s') o → Evaluates c rules r (.attempt p q) s o
  | resume {r : Reaction} {s : State β} {p : Program φ} {o : Outcome β} :
      Evaluates c rules r p s o → (∀ s', o ≠ .aborted .resync s') →
        Evaluates c rules r (.resume p) s o
  | resumeSkipped {r : Reaction} {s s' s'' : State β} {p : Program φ} :
      Evaluates c rules r p s (.aborted .resync s') → Skips c s' s'' →
        Evaluates c rules r (.resume p) s (.finished s'')
  | call {r : Reaction} {s : State β} {phrase : φ} {o : Outcome β} :
      Evaluates c rules r (rules phrase) s o → Evaluates c rules r (.call phrase) s o

/-- The outcome is not that of a run that reached its bound. -/
def Outcome.Completed (o : Outcome β) : Prop := ∀ s, o ≠ .aborted .exhausted s

namespace Outcome.Completed

variable {o : Outcome β}

theorem of_andThen {f : State β → Outcome β} (h : (o.andThen f).Completed) : o.Completed := by
  cases o with
  | finished s =>
      intro s' ho
      cases ho
  | aborted why s => exact h

theorem of_map {f : State β → State β} (h : (o.map f).Completed) : o.Completed := by
  rintro s rfl
  exact h (f s) rfl

end Outcome.Completed

section Evaluation

variable [Builder β] {c : Context} {rules : φ → Program φ}
  {recur : Reaction → Program φ → State β → Outcome β}

/-- What a program does is an evaluation when everything that it calls is one. -/
theorem exec_evaluates (hc : c.ending.isEof = true)
    (hrules : ∀ phrase, (rules phrase).halts = true)
    (hrecur : ∀ r p s, p.halts = true → (recur r p s).Completed →
      Evaluates c rules r p s (recur r p s)) (p : Program φ) :
    ∀ (r : Reaction) (s : State β), p.halts = true → (exec c rules recur r p s).Completed →
      Evaluates c rules r p s (exec c rules recur r p s) := by
  induction p with
  | done => exact fun r s _ _ => .done
  | advance => exact fun r s _ _ => .advance
  | expect kind => exact fun r s _ _ => .expect
  | refuse why => exact fun r s _ _ => .refuse
  | seq p q ihp ihq =>
      intro r s hp h
      rw [Program.halts, Bool.and_eq_true] at hp
      rw [exec] at h ⊢
      have hfirst := ihp r s hp.1 h.of_andThen
      cases ho : exec c rules recur r p s with
      | finished s' =>
          rw [ho] at h hfirst
          exact .seq hfirst (ihq r s' hp.2 h)
      | aborted why s' =>
          rw [ho] at hfirst
          exact .seqAborted hfirst
  | cond t p q ihp ihq =>
      intro r s hp h
      rw [Program.halts, Bool.and_eq_true, Bool.and_eq_true] at hp
      rw [exec] at h ⊢
      split at h
      case h_1 expected heval =>
        exact .condTrue ((t.answers_iff hc _ _ _ hp.1.1).2 heval) (ihp r _ hp.1.2 h)
      case h_2 expected heval =>
        exact .condFalse ((t.answers_iff hc _ _ _ hp.1.1).2 heval) (ihq r _ hp.2 h)
  | loop t p ih =>
      intro r s hp h
      obtain ⟨ht, hbody⟩ := Bool.and_eq_true_iff.1 hp
      rw [exec] at h ⊢
      split at h
      case h_1 expected heval =>
        have htrue := (t.answers_iff hc _ _ _ ht).2 heval
        have hround := ih r _ hbody h.of_andThen
        cases ho : exec c rules recur r p { s with expected } with
        | finished s' =>
            rw [ho] at h hround
            exact .loopNext htrue hround (hrecur r (.loop t p) s' hp h)
        | aborted why s' =>
            rw [ho] at hround
            exact .loopAborted htrue hround
      case h_2 expected heval =>
        exact .loopStop ((t.answers_iff hc _ _ _ ht).2 heval)
  | node rule p ih =>
      intro r s hp h
      rw [exec] at h ⊢
      exact .node (ih r _ hp h.of_map)
  | wrap rule p ih =>
      intro r s hp h
      rw [exec] at h ⊢
      exact .wrap (ih r _ hp h.of_map)
  | attempt p q ihp ihq =>
      intro r s hp h
      rw [Program.halts, Bool.and_eq_true] at hp
      rw [exec] at h ⊢
      cases ho : exec c rules recur .backtrack p s with
      | finished s' =>
          have hfirst := ihp .backtrack s hp.1 (by rw [ho]; intro s'' h'; cases h')
          rw [ho] at hfirst
          exact .attempt hfirst
      | aborted why s' =>
          rw [ho] at h
          -- an attempt that reached the bound would have ended the run
          have hwhy : why ≠ .exhausted := by
            rintro rfl
            exact h s' rfl
          have hfirst := ihp .backtrack s hp.1 (by
            rw [ho]
            rintro s'' ⟨⟩
            exact hwhy rfl)
          rw [ho] at hfirst
          cases why with
          | exhausted => exact absurd rfl hwhy
          | cancelled token => exact .attemptUndone hfirst (ihq r _ hp.2 h)
          | resync => exact .attemptUndone hfirst (ihq r _ hp.2 h)
          | backtrack => exact .attemptUndone hfirst (ihq r _ hp.2 h)
  | resume p ih =>
      intro r s hp h
      rw [exec] at h ⊢
      split at h
      case h_1 s' ho =>
        have hbody := ih r s hp (by rw [ho]; intro s'' h'; cases h')
        rw [ho] at hbody
        exact .resumeSkipped hbody (skips_skipStatement hc s')
      case h_2 hne =>
        exact .resume (ih r s hp h) hne
  | call phrase =>
      intro r s _ h
      exact .call (hrecur r (rules phrase) s (hrules phrase) h)

/-- A run that does not reach its bound is an evaluation. -/
theorem run_evaluates (hc : c.ending.isEof = true)
    (hrules : ∀ phrase, (rules phrase).halts = true) (fuel : Nat) :
    ∀ (r : Reaction) (p : Program φ) (s : State β), p.halts = true →
      (run c rules fuel r p s).Completed →
        Evaluates c rules r p s (run c rules fuel r p s) := by
  induction fuel with
  | zero => exact fun r p s _ h => absurd rfl (h s)
  | succ fuel ih => exact fun r p s hp h => exec_evaluates hc hrules ih p r s hp h

/-- A program has at most one evaluation from a state. -/
theorem Evaluates.unique (hc : c.ending.isEof = true)
    (hrules : ∀ phrase, (rules phrase).halts = true) {r : Reaction} {p : Program φ} {s : State β}
    {o o' : Outcome β} (hp : p.halts = true) (h : Evaluates c rules r p s o)
    (h' : Evaluates c rules r p s o') : o = o' := by
  -- two answers to one test are equal, and so are the kinds expected after them
  have hsame : ∀ {t : Test} {s : State β} {x y : Bool} {a b : List TokenKind}, t.halts = true →
      t.Answers c s.ahead s.expected x a → t.Answers c s.ahead s.expected y b → x = y ∧ a = b := by
    intro t s x y a b ht hx hy
    rw [t.answers_iff hc _ _ _ ht] at hx hy
    exact Prod.mk.inj (hx.symm.trans hy)
  induction h generalizing o' with
  | done => cases h'; rfl
  | advance => cases h'; rfl
  | expect => cases h'; rfl
  | refuse => cases h'; rfl
  | seq _ _ ih ih' =>
      rw [Program.halts, Bool.and_eq_true] at hp
      cases h' with
      | seq hfirst hrest =>
          cases ih hp.1 hfirst
          exact ih' hp.2 hrest
      | seqAborted hfirst => cases ih hp.1 hfirst
  | seqAborted _ ih =>
      rw [Program.halts, Bool.and_eq_true] at hp
      cases h' with
      | seq hfirst _ => cases ih hp.1 hfirst
      | seqAborted hfirst => exact ih hp.1 hfirst
  | condTrue ht _ ih =>
      rw [Program.halts, Bool.and_eq_true, Bool.and_eq_true] at hp
      cases h' with
      | condTrue ht' hbranch =>
          cases (hsame hp.1.1 ht ht').2
          exact ih hp.1.2 hbranch
      | condFalse ht' => cases (hsame hp.1.1 ht ht').1
  | condFalse ht _ ih =>
      rw [Program.halts, Bool.and_eq_true, Bool.and_eq_true] at hp
      cases h' with
      | condTrue ht' => cases (hsame hp.1.1 ht ht').1
      | condFalse ht' hbranch =>
          cases (hsame hp.1.1 ht ht').2
          exact ih hp.2 hbranch
  | loopStop ht =>
      have hp' := (Bool.and_eq_true_iff.1 hp).1
      cases h' with
      | loopStop ht' =>
          cases (hsame hp' ht ht').2
          rfl
      | loopNext ht' => cases (hsame hp' ht ht').1
      | loopAborted ht' => cases (hsame hp' ht ht').1
  | loopNext ht _ _ ih ih' =>
      obtain ⟨hp', hbody⟩ := Bool.and_eq_true_iff.1 hp
      cases h' with
      | loopStop ht' => cases (hsame hp' ht ht').1
      | loopNext ht' hround hrest =>
          cases (hsame hp' ht ht').2
          cases ih hbody hround
          exact ih' hp hrest
      | loopAborted ht' hround =>
          cases (hsame hp' ht ht').2
          cases ih hbody hround
  | loopAborted ht _ ih =>
      obtain ⟨hp', hbody⟩ := Bool.and_eq_true_iff.1 hp
      cases h' with
      | loopStop ht' => cases (hsame hp' ht ht').1
      | loopNext ht' hround =>
          cases (hsame hp' ht ht').2
          cases ih hbody hround
      | loopAborted ht' hround =>
          cases (hsame hp' ht ht').2
          exact ih hbody hround
  | node _ ih =>
      cases h' with
      | node hbody => rw [ih hp hbody]
  | wrap _ ih =>
      cases h' with
      | wrap hbody => rw [ih hp hbody]
  | attempt _ ih =>
      rw [Program.halts, Bool.and_eq_true] at hp
      cases h' with
      | attempt hfirst => exact ih hp.1 hfirst
      | attemptUndone hfirst => cases ih hp.1 hfirst
  | attemptUndone _ _ ih ih' =>
      rw [Program.halts, Bool.and_eq_true] at hp
      cases h' with
      | attempt hfirst => cases ih hp.1 hfirst
      | attemptUndone hfirst hother =>
          cases ih hp.1 hfirst
          exact ih' hp.2 hother
  | resume _ hne ih =>
      cases h' with
      | resume hbody => exact ih hp hbody
      | resumeSkipped hbody => exact absurd (ih hp hbody) (hne _)
  | resumeSkipped _ hskip ih =>
      cases h' with
      | resume hbody hne => exact absurd (ih hp hbody).symm (hne _)
      | resumeSkipped hbody hskip' =>
          cases ih hp hbody
          rw [hskip.unique hskip']
  | call _ ih =>
      cases h' with
      | call hbody => exact ih (hrules _) hbody

end Evaluation

end MySqlAnalysis.Grammar
