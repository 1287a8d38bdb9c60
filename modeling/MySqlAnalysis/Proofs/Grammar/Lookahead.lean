import MySqlAnalysis.Proofs.Grammar.Facts

/-!
# Looking ahead across the end of a statement

A statement can stand alone, in front of the end of the input, or in a script, in
front of a semicolon and more input. The tokens ahead are then the same up to the end
of the statement, moved to another place (`Beside`), and what follows may differ. A
look is checked to see no difference between the two (`Look.steady`): it counts the
tokens ahead only where those before them are known to lie in the statement, and it
does not tell a semicolon from the end of the input. A checked look has one answer in
both places (`Look.holds_of_steady`), and so has a checked test
(`Test.eval_of_steady`).
-/

set_option autoImplicit false

namespace MySqlAnalysis

/-! ### Moved tokens -/

/-- The second token is the first one, moved by some places in the list and by some bytes
in the text. -/
structure Token.Moved (tokens : Nat) (bytes : Int) (t t' : Token) : Prop where
  kind : t'.kind = t.kind
  channel : t'.channel = t.channel
  text : t'.text = t.text
  index : t'.index = t.index + tokens
  start : (t'.start : Int) = t.start + bytes
  stop : (t'.stop : Int) = t.stop + bytes

namespace Grammar

/-- Where a statement stands in a script: how far its tokens are moved there, and the
tokens that come after them. -/
structure Slot where
  tokens : Nat
  bytes : Int
  after : List Token

/-- The tokens ahead in a statement that stands alone, and those ahead at the same
place of that statement in a script. -/
inductive Beside (slot : Slot) : List Token → List Token → Prop
  /-- The statement is over: the input ends, or it may go on after a semicolon. -/
  | ending {e b : Token} {rest : List Token} (he : e.kind = .eof)
      (hb : boundaryKinds.contains b.kind = true) (hindex : b.index = e.index + slot.tokens)
      (hafter : slot.after = b :: rest) : Beside slot [e] (b :: rest)
  | token {t t' : Token} {ts ts' : List Token} (ht : boundaryKinds.contains t.kind = false)
      (hmoved : t.Moved slot.tokens slot.bytes t') (h : Beside slot ts ts') :
      Beside slot (t :: ts) (t' :: ts')

/-- Two contexts differ only in the token that stands for everything past the end,
which ends the input in the first one. -/
structure Context.Like (c c' : Context) : Prop where
  version : c'.version = c.version
  mode : c'.mode = c.mode
  prediction : c'.prediction = c.prediction
  ending : c.ending.kind = .eof

/-- The kinds of two tokens at the same place: one kind that ends no statement, or the
end of the input and the end of a statement. -/
inductive SameKind : TokenKind → TokenKind → Prop
  | inner {kind : TokenKind} (h : boundaryKinds.contains kind = false) : SameKind kind kind
  | ending {kind : TokenKind} (h : boundaryKinds.contains kind = true) : SameKind .eof kind

namespace SameKind

variable {a b : TokenKind}

theorem cases_of_ending {kind : TokenKind} (h : boundaryKinds.contains kind = true) :
    kind = .eof ∨ kind = .semicolon := by
  simpa [boundaryKinds] using h

theorem boundary_of_eof (h : SameKind a b) (ha : a = .eof) :
    boundaryKinds.contains b = true := by
  cases h with
  | inner h =>
      rw [ha]
      rfl
  | ending h => exact h

theorem keyword?_eq (h : SameKind a b) : a.keyword?.isSome = b.keyword?.isSome := by
  cases h with
  | inner h => rfl
  | ending h => rcases cases_of_ending h with rfl | rfl <;> rfl

theorem isName_eq (h : SameKind a b) (f : Family) : a.isName f = b.isName f := by
  cases h with
  | inner h => rfl
  | ending h => rcases cases_of_ending h with rfl | rfl <;> rfl

end SameKind

/-- Whether a list of kinds does not tell a semicolon from the end of the input. -/
def endsAlike (kinds : List TokenKind) : Bool :=
  kinds.contains .eof == kinds.contains .semicolon

theorem SameKind.contains_eq {a b : TokenKind} (h : SameKind a b) {kinds : List TokenKind}
    (hkinds : endsAlike kinds = true) : kinds.contains a = kinds.contains b := by
  cases h with
  | inner h => rfl
  | ending h =>
      rcases cases_of_ending h with rfl | rfl
      · rfl
      · exact beq_iff_eq.1 hkinds

/-- A kind that ends no statement is found at both places or at none. -/
theorem SameKind.beq_eq {a b kind : TokenKind} (h : SameKind a b)
    (hkind : boundaryKinds.contains kind = false) : (a == kind) = (b == kind) := by
  cases h with
  | inner h => rfl
  | ending h =>
      have hne : ∀ e, boundaryKinds.contains e = true → (e == kind) = false := by
        rintro e he
        refine beq_eq_false_iff_ne.2 fun heq => ?_
        rw [heq, hkind] at he
        cases he
      rw [hne .eof rfl, hne _ h]

/-! ### Places in the two lists -/

namespace Beside

variable {slot : Slot} {c c' : Context} {ahead ahead' : List Token}

/-- The tokens at a place that all tokens before it reach. -/
theorem kindAt (h : Beside slot ahead ahead') :
    ∀ {n : Nat}, (∀ i < n, c.kindAt ahead i ≠ .eof) →
      SameKind (c.kindAt ahead n) (c'.kindAt ahead' n) := by
  induction h with
  | @ending e b rest he hb hindex hafter =>
      intro n hinside
      cases n with
      | zero =>
          show SameKind e.kind b.kind
          rw [he]
          exact .ending hb
      | succ n => exact absurd he (hinside 0 n.succ_pos)
  | @token t t' ts ts' ht hmoved h ih =>
      intro n hinside
      cases n with
      | zero =>
          show SameKind t.kind t'.kind
          rw [hmoved.kind]
          exact .inner ht
      | succ n => exact ih fun i hi => hinside (i + 1) (Nat.succ_lt_succ hi)

theorem kindAt_zero (h : Beside slot ahead ahead') :
    SameKind (c.kindAt ahead 0) (c'.kindAt ahead' 0) :=
  h.kindAt fun i hi => absurd hi (Nat.not_lt_zero i)

theorem index_peek (h : Beside slot ahead ahead') :
    (c'.peek ahead' 0).index = (c.peek ahead 0).index + slot.tokens := by
  cases h with
  | ending he hb hindex hafter => exact hindex
  | token ht hmoved h => exact hmoved.index

/-- The tokens after the first ones, which lie in the statement. -/
theorem drop (h : Beside slot ahead ahead') :
    ∀ {n : Nat}, (∀ i < n, c.kindAt ahead i ≠ .eof) →
      Beside slot (ahead.drop n) (ahead'.drop n) := by
  induction h with
  | @ending e b rest he hb hindex hafter =>
      intro n hinside
      cases n with
      | zero => exact .ending he hb hindex hafter
      | succ n => exact absurd he (hinside 0 n.succ_pos)
  | @token t t' ts ts' ht hmoved h ih =>
      intro n hinside
      cases n with
      | zero => exact .token ht hmoved h
      | succ n => exact ih fun i hi => hinside (i + 1) (Nat.succ_lt_succ hi)

/-- A next token that does not end the input is the same token in both lists. -/
theorem exists_cons (h : Beside slot ahead ahead') (hne : c.kindAt ahead 0 ≠ .eof) :
    ∃ t t' ts ts', ahead = t :: ts ∧ ahead' = t' :: ts' ∧
      boundaryKinds.contains t.kind = false ∧ t.Moved slot.tokens slot.bytes t' ∧
        Beside slot ts ts' := by
  cases h with
  | ending he hb hindex hafter => exact absurd he hne
  | token ht hmoved h => exact ⟨_, _, _, _, rfl, rfl, ht, hmoved, h⟩

/-- At the end of the statement, what comes after it in the script is ahead. -/
theorem eq_after (h : Beside slot ahead ahead') (heof : c.kindAt ahead 0 = .eof) :
    ahead' = slot.after := by
  cases h with
  | ending he hb hindex hafter => exact hafter.symm
  | @token t t' ts ts' ht hmoved h =>
      have hkind : t.kind = .eof := heof
      rw [hkind] at ht
      cases ht

theorem kindBeyond (h : Beside slot ahead ahead') {passed : List TokenKind}
    (heof : passed.contains .eof = false) (hsemicolon : passed.contains .semicolon = false) :
    SameKind (kindBeyond passed ahead) (kindBeyond passed ahead') := by
  induction h with
  | @ending e b rest he hb hindex hafter =>
      have hb' : passed.contains b.kind = false := by
        rcases SameKind.cases_of_ending hb with h | h <;> rw [h] <;> assumption
      simp only [Grammar.kindBeyond, he, heof, hb', if_neg Bool.false_ne_true]
      exact .ending hb
  | @token t t' ts ts' ht hmoved h ih =>
      rw [Grammar.kindBeyond, Grammar.kindBeyond, hmoved.kind]
      split
      case isTrue => exact ih
      case isFalse => exact .inner ht

theorem occursInStatement (h : Beside slot ahead ahead') (k : Keyword) :
    occursInStatement k ahead = occursInStatement k ahead' := by
  induction h with
  | @ending e b rest he hb hindex hafter =>
      rcases SameKind.cases_of_ending hb with h | h <;>
        simp [Grammar.occursInStatement, he, h]
  | @token t t' ts ts' ht hmoved h ih =>
      rw [Grammar.occursInStatement, Grammar.occursInStatement, hmoved.kind, ih]

/-- A group that is closed in the statement is followed by the same kind of token in
both lists; for a group that is not, the statement that stands alone sees its end. -/
theorem kindAfterGroup (h : Beside slot ahead ahead') :
    ∀ depth, SameKind (kindAfterGroup depth ahead) (kindAfterGroup depth ahead') ∨
      kindAfterGroup depth ahead = .eof := by
  induction h with
  | @ending e b rest he hb hindex hafter =>
      intro depth
      rw [Grammar.kindAfterGroup, he]
      exact .inr rfl
  | @token t t' ts ts' ht hmoved h ih =>
      intro depth
      rw [Grammar.kindAfterGroup, Grammar.kindAfterGroup, hmoved.kind]
      split
      case h_1 => exact ih (depth + 1)
      case h_2 =>
        split
        case isTrue =>
          -- the group is closed here, and the next token is the one that follows it
          cases h with
          | @ending e b rest he hb hindex hafter =>
              show SameKind e.kind b.kind ∨ _
              rw [he]
              exact .inl (.ending hb)
          | @token u u' us us' hu hmoved h =>
              show SameKind u.kind u'.kind ∨ _
              rw [hmoved.kind]
              exact .inl (.inner hu)
        case isFalse => exact ih (depth - 1)
      case h_3 => exact .inr rfl
      case h_4 => exact ih depth

end Beside

/-! ### Steady looks -/

/-- Whether the facts tell that the next `n` tokens do not end the input. -/
def Facts.inside (k : Facts) (n : Nat) : Bool :=
  (List.range n).all fun i => k.rulesOut i .eof

theorem Facts.kindAt_ne_of_inside {c : Context} {ahead : List Token} {k : Facts}
    (hk : k.Hold c ahead) {n : Nat} (h : k.inside n = true) :
    ∀ i < n, c.kindAt ahead i ≠ .eof := by
  intro i hi
  exact kindAt_ne_of_rulesOut hk (List.all_eq_true.1 h i (List.mem_range.2 hi))

/-- Whether a look, at a place of a statement where the facts hold, sees nothing of what
follows the statement. The second part of a conjunction or disjunction only matters when
the first one leaves the answer open. -/
def Look.steady : Look → Facts → Bool
  | .among n kinds, k => k.inside n && endsAlike kinds
  | .keyword n, k => k.inside n
  | .name n, k => k.inside n
  | .spelled _, k => k.inside 1
  | .adjacent, k => k.inside 2
  | .mode _, _ => true
  | .speculates, _ => true
  | .since _, _ => true
  | .afterGroup _, _ => false
  | .beyond n passed kinds, k =>
    k.inside n && !passed.contains .eof && !passed.contains .semicolon && endsAlike kinds
  | .inStatement _, _ => true
  | .both a b, k =>
    a.steady k && ((a.facts true ++ k).impossible || b.steady (a.facts true ++ k))
  | .either a b, k =>
    a.steady k && ((a.facts false ++ k).impossible || b.steady (a.facts false ++ k))
  | .not a, k => a.steady k

section Answers

variable {slot : Slot} {c c' : Context} {ahead ahead' : List Token}

/-- Two tokens of the statement are as far apart in both lists. -/
theorem Beside.adjacent (h : Beside slot ahead ahead')
    (hinside : ∀ i < 2, c.kindAt ahead i ≠ .eof) :
    ((c.peek ahead 0).stop + 1 == (c.peek ahead 1).start) =
      ((c'.peek ahead' 0).stop + 1 == (c'.peek ahead' 1).start) := by
  obtain ⟨t, t', ts, ts', rfl, rfl, -, hmoved, h⟩ := h.exists_cons (hinside 0 (by decide))
  have hne : c.kindAt ts 0 ≠ .eof := hinside 1 (by decide)
  obtain ⟨u, u', us, us', rfl, rfl, -, hmoved', -⟩ := h.exists_cons hne
  show (t.stop + 1 == u.start) = (t'.stop + 1 == u'.start)
  have hstop := hmoved.stop
  have hstart := hmoved'.start
  rw [Bool.eq_iff_iff, beq_iff_eq, beq_iff_eq]
  omega

/-- The facts of the branch that is taken hold, so its check was not left out. -/
theorem Facts.Hold.check {k : Facts} (hk : k.Hold c ahead) {check : Bool}
    (h : (k.impossible || check) = true) : check = true := by
  rcases Bool.or_eq_true_iff.1 h with himpossible | hcheck
  · exact absurd hk (not_hold_of_impossible himpossible)
  · exact hcheck

theorem Look.holds_of_steady (hc : c.Like c') (h : Beside slot ahead ahead') (l : Look) :
    ∀ {k : Facts}, k.Hold c ahead → l.steady k = true →
      l.holds c ahead = l.holds c' ahead' := by
  induction l with
  | among n kinds =>
      intro k hk hl
      obtain ⟨hinside, hkinds⟩ := Bool.and_eq_true_iff.1 hl
      exact (h.kindAt (Facts.kindAt_ne_of_inside hk hinside)).contains_eq hkinds
  | keyword n =>
      intro k hk hl
      exact (h.kindAt (Facts.kindAt_ne_of_inside hk hl)).keyword?_eq
  | name n =>
      intro k hk hl
      rw [holds, holds, Context.family, Context.family, hc.version]
      exact (h.kindAt (Facts.kindAt_ne_of_inside hk hl)).isName_eq _
  | spelled words =>
      intro k hk hl
      obtain ⟨t, t', ts, ts', rfl, rfl, -, hmoved, -⟩ :=
        h.exists_cons (Facts.kindAt_ne_of_inside hk hl 0 Nat.one_pos)
      show words.contains t.upperText = words.contains t'.upperText
      rw [Token.upperText, Token.upperText, hmoved.text]
  | adjacent =>
      intro k hk hl
      exact h.adjacent (Facts.kindAt_ne_of_inside hk hl)
  | mode flag =>
      intro k hk hl
      rw [holds, holds, hc.mode]
  | speculates =>
      intro k hk hl
      rw [holds, holds, hc.prediction]
  | since version =>
      intro k hk hl
      rw [holds, holds, hc.version]
  | afterGroup kinds =>
      -- no fact tells where a group closes, so the check never allows this look
      intro k hk hl
      cases hl
  | beyond n passed kinds =>
      intro k hk hl
      simp only [steady, Bool.and_eq_true, Bool.not_eq_true'] at hl
      obtain ⟨⟨⟨hinside, heof⟩, hsemicolon⟩, hkinds⟩ := hl
      -- the end of a statement is not passed over, so both searches stop there
      have hdrop := h.drop (Facts.kindAt_ne_of_inside hk hinside)
      exact (hdrop.kindBeyond heof hsemicolon).contains_eq hkinds
  | inStatement word =>
      intro k hk hl
      exact h.occursInStatement word
  | both a b iha ihb =>
      intro k hk hl
      obtain ⟨ha, hb⟩ := Bool.and_eq_true_iff.1 hl
      rw [holds, holds, ← iha hk ha]
      -- the second look only counts where the first one holds, with the facts of that
      cases hanswer : a.holds c ahead with
      | false => rfl
      | true =>
          have hfacts : (a.facts true ++ k).Hold c ahead :=
            Facts.hold_append.2 ⟨a.facts_hold true hanswer, hk⟩
          rw [ihb hfacts (hfacts.check hb)]
  | either a b iha ihb =>
      intro k hk hl
      obtain ⟨ha, hb⟩ := Bool.and_eq_true_iff.1 hl
      rw [holds, holds, ← iha hk ha]
      cases hanswer : a.holds c ahead with
      | true => rfl
      | false =>
          have hfacts : (a.facts false ++ k).Hold c ahead :=
            Facts.hold_append.2 ⟨a.facts_hold false hanswer, hk⟩
          rw [ihb hfacts (hfacts.check hb)]
  | not a ih =>
      intro k hk hl
      rw [holds, holds, ih hk hl]

/-! ### Steady tests -/

/-- Whether a test, at a place of a statement where the facts hold, sees nothing of what
follows the statement. -/
def Test.steady : Test → Facts → Bool
  | .look l, k => l.steady k
  | .next kinds, _ => endsAlike kinds
  | .nextName, _ => true
  | .nextText, _ => true
  | .both a b, k =>
    a.steady k && ((a.facts true ++ k).impossible || b.steady (a.facts true ++ k))
  | .either a b, k =>
    a.steady k && ((a.facts false ++ k).impossible || b.steady (a.facts false ++ k))
  | .not a, k => a.steady k

/-- The answer to a test does not depend on the kinds noted before. -/
theorem Test.eval_of_steady (hc : c.Like c') (h : Beside slot ahead ahead') (t : Test) :
    ∀ {k : Facts} (expected expected' : List TokenKind), k.Hold c ahead → t.steady k = true →
      (t.eval c ahead expected).1 = (t.eval c' ahead' expected').1 := by
  induction t with
  | look l => exact fun expected expected' hk ht => l.holds_of_steady hc h hk ht
  | next kinds => exact fun expected expected' hk ht => h.kindAt_zero.contains_eq ht
  | nextName =>
      intro k expected expected' hk ht
      rw [eval, eval, Context.family, Context.family, hc.version]
      exact h.kindAt_zero.isName_eq _
  | nextText =>
      intro k expected expected' hk ht
      rw [eval, eval]
      have hkind : SameKind (c.kindAt ahead 0) (c'.kindAt ahead' 0) := h.kindAt_zero
      have hsingle : boundaryKinds.contains .singleQuoted = false := rfl
      have hdouble : boundaryKinds.contains .doubleQuoted = false := rfl
      rw [hkind.beq_eq hsingle, hkind.beq_eq hdouble]
  | both a b iha ihb =>
      intro k expected expected' hk ht
      obtain ⟨ha, hb⟩ := Bool.and_eq_true_iff.1 ht
      have hsame := iha expected expected' hk ha
      rw [eval, eval]
      cases heval : a.eval c ahead expected with
      | mk answer noted =>
          cases heval' : a.eval c' ahead' expected' with
          | mk answer' noted' =>
              rw [heval, heval'] at hsame
              cases (hsame : answer = answer')
              cases answer with
              | false => rfl
              | true =>
                  -- the second test is only asked where the first one holds
                  have hfacts : (a.facts true ++ k).Hold c ahead :=
                    Facts.hold_append.2 ⟨a.facts_hold expected true (by rw [heval]), hk⟩
                  exact ihb noted noted' hfacts (hfacts.check hb)
  | either a b iha ihb =>
      intro k expected expected' hk ht
      obtain ⟨ha, hb⟩ := Bool.and_eq_true_iff.1 ht
      have hsame := iha expected expected' hk ha
      rw [eval, eval]
      cases heval : a.eval c ahead expected with
      | mk answer noted =>
          cases heval' : a.eval c' ahead' expected' with
          | mk answer' noted' =>
              rw [heval, heval'] at hsame
              cases (hsame : answer = answer')
              cases answer with
              | true => rfl
              | false =>
                  have hfacts : (a.facts false ++ k).Hold c ahead :=
                    Facts.hold_append.2 ⟨a.facts_hold expected false (by rw [heval]), hk⟩
                  exact ihb noted noted' hfacts (hfacts.check hb)
  | not a ih =>
      intro k expected expected' hk ht
      rw [eval, eval]
      exact congrArg Bool.not (ih expected expected' hk ht)

end Answers

end Grammar

end MySqlAnalysis
