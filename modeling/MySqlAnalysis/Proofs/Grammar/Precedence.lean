import Mathlib.Tactic.FinCases
import MySqlAnalysis.Proofs.Grammar.Climbing

/-!
# Expressions group by precedence

An expression of operands with logical and bit operators between them is read without a
report, whatever the settings are, and its tree is that of the only graded formula with
these tokens (`parse_expr_graded`). Bit operators are read inside predicates, which are the
operands of the logical ones, so the formula is climbed twice: from the bit operators to
the tokens and from the logical operators to the predicates.
-/

set_option autoImplicit false

namespace MySqlAnalysis.Grammar

/-! ### Tests that the next token answers -/

/-- Whether the kind of the next token is enough to answer a look with no. -/
def Look.failsAt (kind : TokenKind) : Look → Bool
  | .among 0 kinds => !kinds.contains kind
  | .both a b => a.failsAt kind || b.failsAt kind
  | .either a b => a.failsAt kind && b.failsAt kind
  | _ => false

/-- Whether the kind of the next token is enough to answer a test with no. -/
def Test.failsAt (kind : TokenKind) : Test → Bool
  | .look l => l.failsAt kind
  | .next kinds => !kinds.contains kind
  | .both a b => a.failsAt kind || b.failsAt kind
  | .either a b => a.failsAt kind && b.failsAt kind
  | _ => false

section FailsAt

variable {c : Context} {u : Token} {us : List Token}

theorem Look.holds_of_failsAt {l : Look} (h : l.failsAt u.kind = true) :
    l.holds c (u :: us) = false := by
  fun_induction Look.failsAt u.kind l with
  | case1 kinds => simpa [Look.holds, Context.kindAt, Context.peek] using h
  | case2 a b iha ihb =>
      rw [Look.holds]
      rcases Bool.or_eq_true_iff.1 h with h | h
      · rw [iha h, Bool.false_and]
      · rw [ihb h, Bool.and_false]
  | case3 a b iha ihb =>
      obtain ⟨ha, hb⟩ := Bool.and_eq_true_iff.1 h
      rw [Look.holds, iha ha, ihb hb]
      rfl
  | case4 => cases h

theorem Test.eval_of_failsAt {t : Test} (h : t.failsAt u.kind = true) :
    ∀ e, (t.eval c (u :: us) e).1 = false := by
  fun_induction Test.failsAt u.kind t with
  | case1 l => exact fun e => Look.holds_of_failsAt h
  | case2 kinds =>
      intro e
      simpa [Test.eval, Context.kindAt, Context.peek] using h
  | case3 a b iha ihb =>
      intro e
      rw [Test.eval]
      split
      case h_1 e' heval =>
        rcases Bool.or_eq_true_iff.1 h with h | h
        · have hfalse := iha h e
          rw [heval] at hfalse
          cases hfalse
        · exact ihb h e'
      case h_2 => rfl
  | case4 a b iha ihb =>
      obtain ⟨ha, hb⟩ := Bool.and_eq_true_iff.1 h
      intro e
      rw [Test.eval]
      split
      case h_1 e' heval =>
        have hfalse := iha ha e
        rw [heval] at hfalse
        cases hfalse
      case h_2 e' heval => exact ihb hb e'
  | case5 => cases h

end FailsAt

/-- What can stand behind an operand: an operator or the end of the input. -/
def closers : List TokenKind :=
  [.eof, .keyword .OR, .logicalOr, .keyword .XOR, .keyword .AND, .doubleAmpersand, .bar,
   .ampersand, .shiftLeft, .shiftRight, .plus, .minus, .star, .slash, .percent, .keyword .DIV,
   .keyword .MOD, .caret]

theorem mem_closers {kind : TokenKind} {m : Nat} (h : kind.rank? = some m) : kind ∈ closers := by
  unfold TokenKind.rank? at h
  split at h <;> first | decide | cases h

namespace Stops

variable {c : Context} {r : Reaction} {n : Nat} {rest : List Token} {t : Test} {p q : Fragment}
  {before after : List Tree}

theorem exists_closer (h : Stops n rest) : ∃ u us, rest = u :: us ∧ u.kind ∈ closers := by
  obtain ⟨u, us, hrest, hu⟩ := h
  refine ⟨u, us, hrest, ?_⟩
  rcases hu with heof | ⟨k, -, hk⟩
  · rw [heof]
    exact List.mem_cons_self
  · exact mem_closers hk

/-- A test that no closer passes fails. -/
theorem eval (h : Stops n rest) (hfails : ∀ kind ∈ closers, t.failsAt kind = true) :
    ∀ e, (t.eval c rest e).1 = false := by
  obtain ⟨u, us, rfl, hu⟩ := h.exists_closer
  exact Test.eval_of_failsAt (hfails u.kind hu)

/-- What no closer starts is left out. -/
theorem builds_cond (h : Stops n rest) (hc : c.ending.isEof = true) (ht : t.halts = true)
    (hfails : ∀ kind ∈ closers, t.failsAt kind = true) (hq : Builds c r q [] rest before after) :
    Builds c r (.cond t p q) [] rest before after :=
  .condFalse hc ht (h.eval hfails) hq

/-- What no closer starts is not repeated. -/
theorem builds_loop (h : Stops n rest) (hc : c.ending.isEof = true) (ht : t.halts = true)
    (hfails : ∀ kind ∈ closers, t.failsAt kind = true) :
    Builds c r (.loop t p) [] rest before before :=
  .loopStop hc ht (h.eval hfails)

end Stops

/-- A test that no operand passes fails in front of a formula. -/
theorem eval_formula {c : Context} {f : Formula} {n : Nat} {t : Test} (hf : f.Graded n)
    (hname : t.failsAt .identifier = true) (hnumber : t.failsAt .integer = true)
    (rest : List Token) : ∀ e, (t.eval c (f.tokens ++ rest) e).1 = false := by
  obtain ⟨u, us, hus, hu⟩ := hf.exists_cons
  rw [hus]
  refine Test.eval_of_failsAt ?_
  rcases hu with hu | hu
  · rw [hu]
    exact hname
  · rw [hu]
    exact hnumber

/-! ### Operands -/

section Operands

variable {c : Context} {r : Reaction} {n : Nat} {rest : List Token}

/-- A node around one token. -/
theorem Builds.leaf {p : Fragment} {rule : Rule} {t : Token} {after : List Tree}
    (h : Builds c r p [t] rest [] after) :
    Builds c r (.node rule p) [t] rest [] [.node rule t.index (some t.index) after] :=
  h.nodeOnly rfl rfl le_rfl

/-- A name is a column. -/
theorem builds_columnRef (hc : c.ending.isEof = true) {t : Token} (ht : t.kind = .identifier)
    (hstops : Stops n rest) :
    Builds c r columnRef [t] rest []
      [Formula.within [.columnRef, .identifier] t.index t.index (.token t.index)] := by
  have heof : t.isEof = false := by rw [Token.isEof, ht]; rfl
  have hidentifier : Builds c r identifier [t] rest []
      [Formula.within [.identifier] t.index t.index (.token t.index)] := by
    refine .leaf (.condTrue hc rfl (fun e => ?_) (.advance heof))
    simp [Test.eval, Context.kindAt, Context.peek, ht, TokenKind.isName]
  exact .leaf (.seqNil hidentifier (hstops.builds_cond hc rfl (by decide) .done))

/-- A number is a literal. -/
theorem builds_literal (hc : c.ending.isEof = true) {t : Token} (ht : t.kind = .integer) :
    Builds c r literalBody [t] rest []
      [Formula.within [.literal, .numLiteral] t.index t.index (.token t.index)] := by
  have heof : t.isEof = false := by rw [Token.isEof, ht]; rfl
  refine .leaf (.settle hc rfl ?_)
  obtain ⟨kind, channel, text, start, stop, line, column, index⟩ := t
  cases ht
  exact .leaf (.advance heof)

/-- An operand is read by what its token and the next one decide for. -/
theorem builds_operand (hc : c.ending.isEof = true) {t : Token} (ht : t.IsOperand)
    (hstops : Stops n rest) :
    Builds c r operandBody [t] rest []
      [Formula.within (Formula.operandRules t) t.index t.index (.token t.index)] := by
  refine .settle hc (grammar_halts .operand) ?_
  obtain ⟨u, us, rfl, hu⟩ := hstops.exists_closer
  rcases ht with ht | ht
  · have hrules : Formula.operandRules t = [.simpleExprColumnRef, .columnRef, .identifier] := by
      rw [Formula.operandRules, ht]
      rfl
    have hsettle : operandBody.settle c (t :: u :: us) .call =
        .node .simpleExprColumnRef columnRef := by
      obtain ⟨kind, channel, text, start, stop, line, column, index⟩ := t
      obtain ⟨kind', channel', text', start', stop', line', column', index'⟩ := u
      cases ht
      fin_cases hu <;> rfl
    rw [hrules, List.singleton_append, hsettle]
    exact .leaf (builds_columnRef hc ht hstops)
  · have hrules : Formula.operandRules t = [.simpleExprLiteral, .literal, .numLiteral] := by
      rw [Formula.operandRules, ht]
      rfl
    have hsettle : operandBody.settle c (t :: u :: us) .call =
        .node .simpleExprLiteral (.call .literal) := by
      obtain ⟨kind, channel, text, start, stop, line, column, index⟩ := t
      cases ht
      rfl
    rw [hrules, List.singleton_append, hsettle]
    exact .leaf (.call (builds_literal hc ht))

theorem builds_simpleExpr (hc : c.ending.isEof = true) {t : Token} (ht : t.IsOperand)
    (hstops : Stops n rest) :
    Builds c r simpleExprBody [t] rest []
      [Formula.within (Formula.operandRules t) t.index t.index (.token t.index)] :=
  .seqNil (.call (builds_operand hc ht hstops)) (hstops.builds_loop hc rfl (by decide))

end Operands

/-! ### Bit operators -/

section Bits

variable {c : Context} {r : Reaction}

/-- The bit operators are climbed down to the operands. -/
def bitClimber (r : Reaction) (hc : c.ending.isEof = true) :
    Climber c r bitLevels logicalRanks allRanks where
  ladder := bitLevels_ladder
  atom := .node .bitExpr (.call .simpleExpr)
  operand := bitOperand
  tree := Formula.bitTree
  first_tree f := by cases f <;> rfl
  tree_binary {f g op m} hop hbase _ := by rw [Formula.bitTree, operatorRule_of_le hbase]
  builds_atom {f n rest} before hf _ hstops _ := by
    obtain ⟨t, ht, rfl⟩ := hf.exists_operand
    exact (Builds.call (builds_simpleExpr hc ht hstops)).node rfl rfl le_rfl
  builds_operand {f rest before after} level hf h := by
    have hcall : Builds c r (.call (.bitExpr level.right)) f.tokens rest before after := h.call
    rw [bitOperand]
    split
    · exact .condFalse hc rfl (eval_formula hf rfl rfl rest) hcall
    · exact hcall

/-- A formula of bit operators is a predicate. -/
theorem builds_predicate (hc : c.ending.isEof = true) {f : Formula} {n : Nat} {rest : List Token}
    (hf : f.Graded logicalRanks) (hordered : f.Ordered) (hstops : Stops n rest)
    (hn : n ≤ logicalRanks) :
    Builds c r predicateBody f.tokens rest []
      [Formula.within [.predicate] f.first f.last f.bitTree] := by
  have hbits : Builds c r (.call (.bitExpr 0)) f.tokens rest [] [f.bitTree] :=
    .call ((bitClimber r hc).builds_whole hc [] hf hordered le_rfl (by decide) (Nat.zero_le _)
      hstops (Nat.le_succ_of_le hn) (hn.trans (by decide)) (by omega))
  -- none of the words that can follow a bit expression in a predicate comes next
  have hnot : Builds c r
      (.ifHolds (Look.both (.word [.NOT]) (.wordAt 1 negatable)) .advance) [] rest [f.bitTree]
      [f.bitTree] :=
    hstops.builds_cond hc rfl (by decide) .done
  refine .nodeOnly (.seqNil hbits (hstops.builds_cond hc rfl (by decide) (.seqNil hnot ?_)))
    f.head?_tokens f.getLast?_tokens hordered.first_le_last
  refine hstops.builds_cond hc rfl (by decide) ?_
  refine hstops.builds_cond hc rfl (by decide) ?_
  refine hstops.builds_cond hc rfl (by decide) ?_
  exact hstops.builds_cond hc rfl (by decide) .done

theorem builds_exprIs (hc : c.ending.isEof = true) {f : Formula} {n : Nat} {rest : List Token}
    (before : List Tree) (hf : f.Graded logicalRanks) (hordered : f.Ordered)
    (hstops : Stops n rest) (hn : n ≤ logicalRanks) :
    Builds c r exprIsBody f.tokens rest before (before ++ [f.predicateTree]) := by
  have hpredicate : Builds c r (.node .primaryExprPredicate (.call .predicate)) f.tokens rest []
      [Formula.within [.primaryExprPredicate, .predicate] f.first f.last f.bitTree] :=
    .nodeOnly (.call (builds_predicate hc hf hordered hstops hn)) f.head?_tokens
      f.getLast?_tokens hordered.first_le_last
  refine .node (.seqNil hpredicate (.seqNil (hstops.builds_loop hc rfl (by decide)) ?_))
    f.head?_tokens f.getLast?_tokens hordered.first_le_last
  exact hstops.builds_cond hc rfl (by decide) .done

end Bits

/-! ### Logical operators -/

section Logic

variable {c : Context} {r : Reaction}

/-- The logical operators are climbed down to the predicates. -/
def logicalClimber (r : Reaction) (hc : c.ending.isEof = true) :
    Climber c r logicalLevels 0 logicalRanks where
  ladder := logicalLevels_ladder
  atom :=
    .cond (.both (.word [.NOT]) (Look.not (.mode .highNotPrecedence)))
      (.node .exprNot (.seq .advance (.call (.expr notPower))))
      (.call .exprIs)
  operand level := .call (.expr level.right)
  tree := Formula.tree
  first_tree f := by
    cases f with
    | operand t => rfl
    | binary f op g =>
        rw [Formula.tree]
        split <;> rfl
  tree_binary {f g op m} hop _ htop := by rw [Formula.tree, Token.rank_eq hop, if_pos htop]
  builds_atom {f n rest} before hf hordered hstops hn := by
    rw [hf.tree_eq]
    exact .condFalse hc rfl (eval_formula hf rfl rfl rest)
      (.call (builds_exprIs hc before hf hordered hstops hn))
  builds_operand level _ h := h.call

end Logic

/-! ### Expressions -/

/-- An expression of operands and operators is read without a report and to its end,
whatever the settings are, and gives the tree of the one formula that groups as the levels
of the operators ask for. -/
theorem parse_expr_graded (o : Options) {tokens : List Token} (h : Listed tokens) (first : Token)
    (rest : List (Token × Token)) (ending : Token) (hfirst : first.IsOperand)
    (hrest : ∀ p ∈ rest, p.1.kind.rank?.isSome = true ∧ p.2.IsOperand)
    (hending : ending.isEof = true)
    (htokens : significant tokens = (first :: Formula.pairTokens rest) ++ [ending]) :
    ∃ f : Formula, f.Graded 0 ∧ f.tokens = first :: Formula.pairTokens rest ∧
      (∀ g : Formula, g.Graded 0 → g.tokens = f.tokens → g = f) ∧
      parse o .expr tokens = ⟨some f.tree, [], none⟩ ∧
      f.tree.leaves = (first :: Formula.pairTokens rest).map Token.index ∧
      f.tree.Every (Tiered tokens) := by
  have hc := (contextOf_ended h (o := o)).ending
  have hf := Formula.graded_ofPairs hfirst hrest
  have hread := Formula.tokens_ofPairs first rest
  generalize Formula.ofPairs first rest = f at hf hread
  rw [← hread] at htokens ⊢
  have hordered : f.Ordered := by
    have hsorted := h.pairwise_index
    rw [htokens, List.map_append] at hsorted
    exact (List.pairwise_append.1 hsorted).1
  have hstops : Stops 0 [ending] := ⟨ending, [], rfl, .inl (beq_iff_eq.1 hending)⟩
  have hbuilds : Builds (contextOf o tokens) o.strategy.reaction StartRule.expr.program f.tokens
      [ending] [] [f.tree] :=
    .call ((logicalClimber _ hc).builds_whole hc [] hf hordered le_rfl (Nat.zero_le _)
      (Nat.zero_le _) hstops (Nat.zero_le _) (Nat.zero_le _) (Nat.zero_le _))
  have hparse : parse o .expr tokens = ⟨some f.tree, [], none⟩ := by
    obtain ⟨u, hu, -, hbuilt, hreports, -⟩ := hbuilds (.initial tokens) htokens rfl
    obtain ⟨outcome, hparse, -, hunique⟩ := (terminates_of_listed h o .expr).evaluates
    rw [hparse, ← hunique _ hu, Parse.ofOutcome, Outcome.state, hbuilt, hreports]
    rfl
  refine ⟨f, hf, rfl, fun g hg htokens => hg.unique hf htokens, hparse, f.leaves_tree,
    (hf.every_tiered fun t ht => h.getElem?_index ?_).1⟩
  have hmem : t ∈ significant tokens := by
    rw [htokens]
    exact List.mem_append_left _ ht
  exact (List.mem_filter.1 hmem).1

/-- `a -1-b*2&&c`. -/
def mixedOperators : List Token :=
  [⟨.identifier, .default, "a", 0, 0, 1, 0, 0⟩,
   ⟨.whitespace, .hidden, " ", 1, 1, 1, 1, 1⟩,
   ⟨.minus, .default, "-", 2, 2, 1, 2, 2⟩,
   ⟨.integer, .default, "1", 3, 3, 1, 3, 3⟩,
   ⟨.minus, .default, "-", 4, 4, 1, 4, 4⟩,
   ⟨.identifier, .default, "b", 5, 5, 1, 5, 5⟩,
   ⟨.star, .default, "*", 6, 6, 1, 6, 6⟩,
   ⟨.integer, .default, "2", 7, 7, 1, 7, 7⟩,
   ⟨.doubleAmpersand, .default, "&&", 8, 9, 1, 8, 8⟩,
   ⟨.identifier, .default, "c", 10, 10, 1, 10, 9⟩,
   .ending ⟨11, 1, 11⟩ 10]

/-- The first difference is an operand of the second one, and the product another. -/
theorem parse_expr_graded_mixed :
    let options : Options := ⟨⟨50700⟩, .empty, .bounded, .bail⟩
    let read := (significant mixedOperators).dropLast
    Listed mixedOperators ∧ ∃ f : Formula, f.Graded 0 ∧ f.tokens = read ∧
      (∀ g : Formula, g.Graded 0 → g.tokens = f.tokens → g = f) ∧
      parse options .expr mixedOperators = ⟨some f.tree, [], none⟩ ∧
      f.tree.leaves = read.map Token.index ∧ f.tree.Every (Tiered mixedOperators) := by
  have hlisted : Listed mixedOperators := ⟨rfl, by decide, by decide⟩
  refine ⟨hlisted, ?_⟩
  exact parse_expr_graded ⟨⟨50700⟩, .empty, .bounded, .bail⟩ hlisted
    ⟨.identifier, .default, "a", 0, 0, 1, 0, 0⟩
    [(⟨.minus, .default, "-", 2, 2, 1, 2, 2⟩, ⟨.integer, .default, "1", 3, 3, 1, 3, 3⟩),
     (⟨.minus, .default, "-", 4, 4, 1, 4, 4⟩, ⟨.identifier, .default, "b", 5, 5, 1, 5, 5⟩),
     (⟨.star, .default, "*", 6, 6, 1, 6, 6⟩, ⟨.integer, .default, "2", 7, 7, 1, 7, 7⟩),
     (⟨.doubleAmpersand, .default, "&&", 8, 9, 1, 8, 8⟩,
      ⟨.identifier, .default, "c", 10, 10, 1, 10, 9⟩)]
    (.ending ⟨11, 1, 11⟩ 10) (.inl rfl) (by simp [TokenKind.rank?, Token.IsOperand]) rfl rfl

end MySqlAnalysis.Grammar
