import Mathlib.Data.List.Basic
import MySqlAnalysis.Grammar.Machine
import MySqlAnalysis.Proofs.Grammar.Reaction

/-!
# Reading tokens

Between two states of a run, tokens that do not end the input were moved from
the tokens ahead to the leaves of the trees that were built (`State.Reads`).
The single moves of the machine read in this sense: a token that was known not
to end the input, a token that was required and found, a token that was deleted,
and the rest of a statement that was given up.
-/

set_option autoImplicit false

namespace MySqlAnalysis

namespace Tree

@[simp] theorem leavesAll_append (xs ys : List Tree) :
    leavesAll (xs ++ ys) = leavesAll xs ++ leavesAll ys := by
  induction xs with
  | nil => rfl
  | cons t ts ih => rw [List.cons_append, leavesAll, leavesAll, ih, List.append_assoc]

@[simp] theorem leavesAll_singleton (t : Tree) : leavesAll [t] = t.leaves := by
  rw [leavesAll, leavesAll, List.append_nil]

@[simp] theorem leaves_closed (rule : Rule) (first : Nat) (last : Option Nat) (ts : List Tree) :
    (closed rule first last ts).leaves = leavesAll ts := by
  rw [closed, leaves]

/-- The last of some trees and those before it have the leaves of all. -/
theorem leavesAll_dropLast_append (ts : List Tree) :
    leavesAll ts.dropLast ++ leavesAll ts.getLast?.toList = leavesAll ts := by
  rcases List.eq_nil_or_concat ts with rfl | ⟨before, t, rfl⟩
  · rfl
  · simp

end Tree

namespace Grammar

/-! ### Where the input ends -/

/-- Only the last token ahead can end the input, and so does what stands for
everything past it. -/
structure Context.Ended (c : Context) (ahead : List Token) : Prop where
  ending : c.ending.isEof = true
  inner : ∀ t ∈ ahead.dropLast, t.isEof = false

namespace Context

variable {c : Context}

theorem Ended.of_suffix {read ahead : List Token} (h : c.Ended (read ++ ahead)) :
    c.Ended ahead where
  ending := h.ending
  inner t ht := by
    refine h.inner t ?_
    cases ahead with
    | nil => cases ht
    | cons x xs =>
        rw [List.dropLast_append_cons]
        exact List.mem_append_right _ ht

/-- A token that does not end the input is the first of those ahead. -/
theorem Ended.cons_of_kindAt_ne {ahead : List Token} (h : c.Ended ahead)
    (hk : c.kindAt ahead 0 ≠ .eof) : ∃ t ts, ahead = t :: ts ∧ t.isEof = false := by
  cases ahead with
  | nil =>
      have hending : c.ending.kind = .eof := beq_iff_eq.1 h.ending
      exact absurd hending hk
  | cons t ts => exact ⟨t, ts, rfl, beq_eq_false_iff_ne.2 hk⟩

/-- Two tokens of which the second does not end the input are the first two of
those ahead. -/
theorem Ended.cons_cons_of_kindAt_ne {ahead : List Token} (h : c.Ended ahead)
    (hk : c.kindAt ahead 1 ≠ .eof) :
    ∃ t u ts, ahead = t :: u :: ts ∧ t.isEof = false ∧ u.isEof = false := by
  have hending : c.ending.kind = .eof := beq_iff_eq.1 h.ending
  match ahead with
  | [] => exact absurd hending hk
  | [t] => exact absurd hending hk
  | t :: u :: ts => exact ⟨t, u, ts, rfl, h.inner t List.mem_cons_self, beq_eq_false_iff_ne.2 hk⟩

end Context

/-! ### What was read between two states -/

/-- The second state is reached from the first by reading tokens that do not
end the input into the leaves of the trees. -/
def State.Reads (s s' : State (List Tree)) : Prop :=
  ∃ read : List Token, s.ahead = read ++ s'.ahead ∧ (∀ t ∈ read, t.isEof = false) ∧
    Tree.leavesAll s'.built = Tree.leavesAll s.built ++ read.map Token.index

namespace State

variable {c : Context} {s s' : State (List Tree)}

theorem Reads.of_eq (hahead : s'.ahead = s.ahead) (hbuilt : s'.built = s.built) : s.Reads s' := by
  refine ⟨[], hahead.symm, fun t ht => absurd ht List.not_mem_nil, ?_⟩
  rw [hbuilt, List.map_nil, List.append_nil]

theorem Reads.refl (s : State (List Tree)) : s.Reads s := .of_eq rfl rfl

theorem Reads.trans {s'' : State (List Tree)} (h : s.Reads s') (h' : s'.Reads s'') :
    s.Reads s'' := by
  obtain ⟨read, hahead, hread, hleaves⟩ := h
  obtain ⟨read', hahead', hread', hleaves'⟩ := h'
  refine ⟨read ++ read', ?_, ?_, ?_⟩
  · rw [hahead, hahead', List.append_assoc]
  · intro t ht
    exact (List.mem_append.1 ht).elim (hread t) (hread' t)
  · rw [hleaves', hleaves, List.map_append, List.append_assoc]

theorem Reads.ended (h : s.Reads s') (he : c.Ended s.ahead) : c.Ended s'.ahead := by
  obtain ⟨read, hahead, -, -⟩ := h
  exact (hahead ▸ he).of_suffix

theorem Reads.length_le (h : s.Reads s') : s'.ahead.length ≤ s.ahead.length := by
  obtain ⟨read, hahead, -, -⟩ := h
  rw [hahead, List.length_append]
  exact Nat.le_add_left _ _

/-- Without a shorter rest nothing was read. -/
theorem Reads.ahead_eq (h : s.Reads s') (hlen : s.ahead.length ≤ s'.ahead.length) :
    s'.ahead = s.ahead := by
  obtain ⟨read, hahead, -, -⟩ := h
  rw [hahead, List.length_append] at hlen
  have hread : read = [] := List.eq_nil_of_length_eq_zero (by omega)
  rw [hahead, hread, List.nil_append]

/-- Passing the next token, which does not end the input, to the leaves. -/
theorem shift_reads (leaf : Nat → List Tree → List Tree) {t : Token} {ts : List Token}
    (hahead : s.ahead = t :: ts) (ht : t.isEof = false)
    (hleaf : ∀ i b, Tree.leavesAll (leaf i b) = Tree.leavesAll b ++ [i]) :
    (s.shift c leaf).ahead = ts ∧ s.Reads (s.shift c leaf) := by
  have hcurrent : s.current c = t := by
    rw [current, hahead]
    rfl
  have hts : (s.shift c leaf).ahead = ts := by
    rw [shift]
    dsimp only
    rw [hcurrent, ht, hahead]
    rfl
  refine ⟨hts, [t], ?_, ?_, ?_⟩
  · rw [hts]
    exact hahead
  · rintro u hu
    rw [List.mem_singleton.1 hu]
    exact ht
  · rw [shift]
    dsimp only
    rw [hleaf, hcurrent]
    rfl

theorem consume_reads {t : Token} {ts : List Token} (hahead : s.ahead = t :: ts)
    (ht : t.isEof = false) : (s.consume c).ahead = ts ∧ s.Reads (s.consume c) :=
  shift_reads Builder.token hahead ht fun i b => by
    simp [Builder.token, Tree.leaves]

theorem skip_reads {t : Token} {ts : List Token} (hahead : s.ahead = t :: ts)
    (ht : t.isEof = false) : (s.skip c).ahead = ts ∧ s.Reads (s.skip c) :=
  shift_reads Builder.skipped hahead ht fun i b => by
    simp [Builder.skipped, Tree.leaves]

/-- A closed node has the leaves of what was read inside it. -/
theorem Reads.leave (rule : Rule) (h : (s.enter c rule).Reads s') :
    s.Reads (State.leave c rule s s') := by
  obtain ⟨read, hahead, hread, hleaves⟩ := h
  refine ⟨read, hahead, hread, ?_⟩
  have hleaves' : Tree.leavesAll s'.built = read.map Token.index := hleaves
  simp [State.leave, Builder.leave, hleaves']

/-- The part that a node is opened around stays in front. -/
theorem Reads.leaveAround (rule : Rule) (h : (s.enterAround c rule).Reads s') :
    s.Reads (State.leaveAround c rule s s') := by
  obtain ⟨read, hahead, hread, hleaves⟩ := h
  refine ⟨read, hahead, hread, ?_⟩
  have hleaves' : Tree.leavesAll s'.built =
      Tree.leavesAll s.built.getLast?.toList ++ read.map Token.index := hleaves
  simp only [State.leaveAround, Builder.leaveAround, Tree.leavesAll_append,
    Tree.leavesAll_singleton, Tree.leaves_closed]
  rw [hleaves', ← List.append_assoc, Tree.leavesAll_dropLast_append]

/-! ### Giving up a statement -/

theorem kindAt_ne_eof_of_not_atStatementEnd {ahead : List Token}
    (h : ¬ Look.atStatementEnd.holds c ahead = true) : c.kindAt ahead 0 ≠ .eof := by
  intro he
  apply h
  rw [Look.atStatementEnd, Look.holds, he]
  rfl

/-- Skipping reads up to the end of the statement, unless the bound is reached. -/
theorem skipUpTo_reads (n : Nat) :
    ∀ s : State (List Tree), c.Ended s.ahead → s.ahead.length ≤ n →
      s.Reads (skipUpTo c n s) ∧ Look.atStatementEnd.holds c (skipUpTo c n s).ahead = true := by
  induction n with
  | zero =>
      intro s he hn
      have hnil : s.ahead = [] := List.eq_nil_of_length_eq_zero (Nat.le_zero.1 hn)
      -- no token is left, and the end of the input ends every statement
      refine ⟨.refl s, ?_⟩
      by_contra hend
      have hk := kindAt_ne_eof_of_not_atStatementEnd hend
      obtain ⟨t, ts, hahead, -⟩ := he.cons_of_kindAt_ne hk
      cases hnil.symm.trans hahead
  | succ n ih =>
      intro s he hn
      rw [skipUpTo]
      split
      case isTrue hend => exact ⟨.refl s, hend⟩
      case isFalse hend =>
        obtain ⟨t, ts, hahead, ht⟩ :=
          he.cons_of_kindAt_ne (kindAt_ne_eof_of_not_atStatementEnd hend)
        obtain ⟨hts, hreads⟩ := skip_reads (c := c) hahead ht
        have hlen : (s.skip c).ahead.length ≤ n := by
          rw [hts]
          rw [hahead, List.length_cons] at hn
          omega
        obtain ⟨hrest, hend'⟩ := ih (s.skip c) (hreads.ended he) hlen
        exact ⟨hreads.trans hrest, hend'⟩

theorem skipStatement_reads (he : c.Ended s.ahead) :
    s.Reads (s.skipStatement c) ∧
      Look.atStatementEnd.holds c (s.skipStatement c).ahead = true :=
  skipUpTo_reads s.ahead.length s he le_rfl

end State

end Grammar

end MySqlAnalysis
