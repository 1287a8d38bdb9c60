import MySqlAnalysis.Proofs.Tree.Lineage

/-!
# Formulas of ranked operators

A formula is made of operands and of operators between them, each of which has a rank.
It is graded when it groups the way the ranks ask for: an operator holds operators of at
least its own rank on its left and of larger ranks on its right (`Formula.Graded`). Each
sequence of operands and operators is that of one graded formula
(`Formula.graded_ofPairs`) and of no other (`Formula.Graded.unique`).

The syntax tree of a formula has a node for every operator; formulas without logical
operators lie below the nodes of predicates (`Formula.tree`). Read off that tree, the ranks
say which operators a node can have as its operands (`Formula.Graded.every_tiered`).
-/

set_option autoImplicit false

namespace MySqlAnalysis

/-! ### Operands and operators -/

/-- The rank of an operator, loosest first: the logical operators, then the bit operators. -/
def TokenKind.rank? : TokenKind → Option Nat
  | .keyword .OR | .logicalOr => some 0
  | .keyword .XOR => some 1
  | .keyword .AND | .doubleAmpersand => some 2
  | .bar => some 3
  | .ampersand => some 4
  | .shiftLeft | .shiftRight => some 5
  | .plus | .minus => some 6
  | .star | .slash | .percent | .keyword .DIV | .keyword .MOD => some 7
  | .caret => some 8
  | _ => none

/-- The number of ranks of logical operators. -/
def logicalRanks : Nat := 3

/-- The number of all ranks. -/
def allRanks : Nat := 9

theorem TokenKind.rank?_lt {kind : TokenKind} {m : Nat} (h : kind.rank? = some m) :
    m < allRanks := by
  unfold rank? at h
  split at h <;> cases h <;> decide

theorem Token.isEof_of_rank? {t : Token} {m : Nat} (h : t.kind.rank? = some m) :
    t.isEof = false := by
  refine beq_eq_false_iff_ne.2 fun heof => ?_
  rw [heof] at h
  cases h

/-- The rule of the node that an operator of a rank builds. -/
def operatorRule : Nat → Rule
  | 0 => .exprOr
  | 1 => .exprXor
  | 2 => .exprAnd
  | _ => .bitExpr

/-- Whether a rule is that of a logical operator. -/
def Rule.isLogical (rule : Rule) : Bool :=
  [Rule.exprOr, .exprXor, .exprAnd].contains rule

/-- The rank of an operator. -/
def Token.rank (t : Token) : Nat := t.kind.rank?.getD 0

theorem Token.rank_eq {t : Token} {m : Nat} (h : t.kind.rank? = some m) : t.rank = m := by
  rw [rank, h]
  rfl

/-- A token that is an operand on its own: a name or a number. -/
def Token.IsOperand (t : Token) : Prop :=
  t.kind = .identifier ∨ t.kind = .integer

theorem Token.IsOperand.rank?_eq {t : Token} (h : t.IsOperand) : t.kind.rank? = none := by
  rcases h with h | h <;> rw [h] <;> rfl

/-! ### Formulas -/

/-- Operands with operators between them, grouped. -/
inductive Formula where
  | operand (t : Token)
  | binary (left : Formula) (operator : Token) (right : Formula)

namespace Formula

/-- The tokens of a formula, left to right. -/
def tokens : Formula → List Token
  | operand t => [t]
  | binary l op r => l.tokens ++ op :: r.tokens

/-- The formula only has operators of rank `n` or more, and groups as their ranks ask
for: of two operators of one rank the first one is the inner one. -/
inductive Graded : Nat → Formula → Prop
  | operand {n : Nat} {t : Token} : t.IsOperand → Graded n (operand t)
  | binary {n m : Nat} {l r : Formula} {op : Token} :
      op.kind.rank? = some m → n ≤ m → Graded m l → Graded (m + 1) r → Graded n (binary l op r)

section Graded

variable {n m : Nat} {f g l r : Formula} {op : Token}

theorem Graded.mono (h : f.Graded m) (hnm : n ≤ m) : f.Graded n := by
  cases h with
  | operand ht => exact .operand ht
  | binary hop hm hl hr => exact .binary hop (Nat.le_trans hnm hm) hl hr

/-- All operators of a formula have the rank that is asked for. -/
theorem Graded.le_rank (h : f.Graded n) :
    ∀ t ∈ f.tokens, ∀ k, t.kind.rank? = some k → n ≤ k := by
  induction h with
  | operand ht =>
      intro u hu k hk
      rw [List.mem_singleton.1 hu, ht.rank?_eq] at hk
      cases hk
  | binary hop hnm _ _ ihl ihr =>
      intro u hu k hk
      rcases List.mem_append.1 hu with hu | hu
      · exact Nat.le_trans hnm (ihl u hu k hk)
      · rcases List.mem_cons.1 hu with rfl | hu
        · rw [hop] at hk
          cases hk
          exact hnm
        · have hlt := ihr u hu k hk
          omega

/-- A formula above all ranks is an operand. -/
theorem Graded.exists_operand (h : f.Graded allRanks) :
    ∃ t : Token, t.IsOperand ∧ f = .operand t := by
  cases h with
  | operand ht => exact ⟨_, ht, rfl⟩
  | binary hop hle _ _ => exact absurd (TokenKind.rank?_lt hop) (Nat.not_lt.2 hle)

/-- A formula starts with an operand. -/
theorem Graded.exists_cons (h : f.Graded n) : ∃ t ts, f.tokens = t :: ts ∧ t.IsOperand := by
  induction h with
  | operand ht => exact ⟨_, [], rfl, ht⟩
  | binary _ _ _ _ ihl _ =>
      obtain ⟨t, ts, hts, ht⟩ := ihl
      exact ⟨t, _, by rw [tokens, hts, List.cons_append], ht⟩

/-- Two ways to split a list around an entry are one, or each entry is in a part of the
other way. -/
theorem split_cases {α : Type} {xs ys xs' ys' : List α} {a a' : α}
    (h : xs ++ a :: ys = xs' ++ a' :: ys') :
    (xs = xs' ∧ a = a' ∧ ys = ys') ∨ (a ∈ xs' ∧ a' ∈ ys) ∨ (a' ∈ xs ∧ a ∈ ys') := by
  rcases List.append_eq_append_iff.1 h with ⟨more, rfl, hmore⟩ | ⟨more, rfl, hmore⟩
  · cases more with
    | nil =>
        obtain ⟨rfl, rfl⟩ := List.cons.inj hmore
        exact .inl ⟨(List.append_nil xs).symm, rfl, rfl⟩
    | cons b more =>
        obtain ⟨rfl, rfl⟩ := List.cons.inj hmore
        exact .inr (.inl ⟨by simp, by simp⟩)
  · cases more with
    | nil =>
        obtain ⟨rfl, rfl⟩ := List.cons.inj hmore
        exact .inl ⟨List.append_nil xs', rfl, rfl⟩
    | cons b more =>
        obtain ⟨rfl, rfl⟩ := List.cons.inj hmore
        exact .inr (.inr ⟨by simp, by simp⟩)

/-- An operator that stands on the right of another one cannot have it on its left. -/
theorem Graded.not_mem_of_mem {k : Nat} {op' : Token} (hop : op.kind.rank? = some m)
    (hop' : op'.kind.rank? = some k) (hr : r.Graded (m + 1)) (hl : l.Graded k)
    (hmem : op' ∈ r.tokens) : op ∉ l.tokens := by
  intro hmem'
  have hmk := hr.le_rank op' hmem k hop'
  have hkm := hl.le_rank op hmem' m hop
  omega

theorem tokens_ne_nil (f : Formula) : f.tokens ≠ [] := by
  cases f <;> simp [tokens]

theorem tokens_binary_ne (t : Token) : (binary l op r).tokens ≠ [t] := by
  intro h
  have hlength := congrArg List.length h
  have hl := List.length_pos_of_ne_nil l.tokens_ne_nil
  simp only [tokens, List.length_append, List.length_cons, List.length_nil] at hlength
  omega

/-- Two graded formulas with the same tokens are the same. -/
theorem Graded.unique (hf : f.Graded n) (hg : g.Graded m) (h : f.tokens = g.tokens) : f = g := by
  induction f generalizing g n m with
  | operand t =>
      cases g with
      | operand u =>
          cases h
          rfl
      | binary l op r => exact absurd h.symm (tokens_binary_ne t)
  | binary l op r ihl ihr =>
      cases g with
      | operand u => exact absurd h (tokens_binary_ne u)
      | binary l' op' r' =>
          cases hf with
          | binary hop _ hl hr =>
          cases hg with
          | binary hop' _ hl' hr' =>
          rcases split_cases h with ⟨hleft, rfl, hright⟩ | ⟨hmem, hmem'⟩ | ⟨hmem, hmem'⟩
          · rw [ihl hl hl' hleft, ihr hr hr' hright]
          -- otherwise each of the two operators stands on the wrong side of the other
          · exact absurd hmem (Graded.not_mem_of_mem hop hop' hr hl' hmem')
          · exact absurd hmem (Graded.not_mem_of_mem hop' hop hr' hl hmem')

end Graded

/-! ### The formula of a sequence -/

/-- Adds an operator and an operand on the right, below the operators that bind looser. -/
def push : Formula → Token × Token → Formula
  | operand t, next => binary (operand t) next.1 (operand next.2)
  | binary l op r, next =>
    if op.rank < next.1.rank then binary l op (r.push next)
    else binary (binary l op r) next.1 (operand next.2)

/-- The formula of an operand and the operators and operands that follow it. -/
def ofPairs (first : Token) (rest : List (Token × Token)) : Formula :=
  rest.foldl push (operand first)

/-- The tokens of operators and operands. -/
def pairTokens (pairs : List (Token × Token)) : List Token :=
  pairs.flatMap fun p => [p.1, p.2]

theorem tokens_push (f : Formula) (next : Token × Token) :
    (f.push next).tokens = f.tokens ++ [next.1, next.2] := by
  induction f with
  | operand t => rfl
  | binary l op r _ ihr =>
      rw [push]
      split
      · rw [tokens, tokens, ihr, List.append_assoc, List.cons_append]
      · rfl

/-- A looser operator than the last one takes the whole formula as its left operand. -/
theorem graded_push {n m : Nat} {f : Formula} {next : Token × Token} (h : f.Graded n)
    (hop : next.1.kind.rank? = some m) (hoperand : next.2.IsOperand) (hnm : n ≤ m) :
    (f.push next).Graded n := by
  induction h with
  | operand ht => exact .binary hop hnm (.operand ht) (.operand hoperand)
  | @binary n k l r op hk hnk hl hr ihl ihr =>
      rw [push, Token.rank_eq hk, Token.rank_eq hop]
      split
      case isTrue hlt => exact .binary hk hnk hl (ihr hlt)
      case isFalse hle =>
        have hmk : m ≤ k := Nat.le_of_not_lt hle
        exact .binary hop hnm (.binary hk hmk hl hr) (.operand hoperand)

theorem tokens_ofPairs (first : Token) (rest : List (Token × Token)) :
    (ofPairs first rest).tokens = first :: pairTokens rest := by
  have hfold : ∀ f : Formula, (rest.foldl push f).tokens = f.tokens ++ pairTokens rest := by
    induction rest with
    | nil => simp [pairTokens]
    | cons next rest ih =>
        intro f
        rw [List.foldl_cons, ih, tokens_push, pairTokens, pairTokens, List.flatMap_cons,
          List.append_assoc]
  exact hfold (operand first)

/-- The formula of a sequence of operands and operators is graded. -/
theorem graded_ofPairs {first : Token} {rest : List (Token × Token)} (hfirst : first.IsOperand)
    (hrest : ∀ p ∈ rest, p.1.kind.rank?.isSome = true ∧ p.2.IsOperand) :
    (ofPairs first rest).Graded 0 := by
  have hfold : ∀ f : Formula, f.Graded 0 → (rest.foldl push f).Graded 0 := by
    induction rest with
    | nil => exact fun f h => h
    | cons next rest ih =>
        rw [List.forall_mem_cons] at hrest
        intro f hf
        obtain ⟨m, hm⟩ := Option.isSome_iff_exists.1 hrest.1.1
        exact ih hrest.2 _ (graded_push hf hm hrest.1.2 (Nat.zero_le m))
  exact hfold _ (.operand hfirst)

/-! ### The tree of a formula -/

/-- Position of the first token. -/
def first : Formula → Nat
  | operand t => t.index
  | binary l _ _ => l.first

/-- Position of the last token. -/
def last : Formula → Nat
  | operand t => t.index
  | binary _ _ r => r.last

theorem head?_tokens (f : Formula) : f.tokens.head?.map Token.index = some f.first := by
  induction f with
  | operand t => rfl
  | binary l op r ihl _ =>
      obtain ⟨t, ht, hfirst⟩ := Option.map_eq_some_iff.1 ihl
      rw [tokens, List.head?_append, ht]
      exact congrArg some hfirst

theorem getLast?_tokens (f : Formula) : f.tokens.getLast?.map Token.index = some f.last := by
  induction f with
  | operand t => rfl
  | binary l op r _ ihr =>
      rw [tokens, List.getLast?_append_of_ne_nil _ (List.cons_ne_nil _ _),
        List.getLast?_cons_of_ne_nil r.tokens_ne_nil]
      exact ihr

/-- The tokens of the formula are numbered in increasing order. -/
def Ordered (f : Formula) : Prop :=
  (f.tokens.map Token.index).Pairwise (· < ·)

theorem Ordered.first_le_last {f : Formula} (h : f.Ordered) : f.first ≤ f.last := by
  have hfirst := f.head?_tokens
  have hlast := f.getLast?_tokens
  rw [← List.head?_map] at hfirst
  rw [← List.getLast?_map] at hlast
  obtain ⟨more, hmore⟩ := List.head?_eq_some_iff.1 hfirst
  rw [Ordered, hmore] at h
  rw [hmore] at hlast
  rcases List.mem_cons.1 (List.mem_of_getLast? hlast) with heq | hmem
  · exact Nat.le_of_eq heq.symm
  · exact Nat.le_of_lt (List.rel_of_pairwise_cons h hmem)

theorem Ordered.left {l r : Formula} {op : Token} (h : (binary l op r).Ordered) : l.Ordered :=
  h.sublist ((List.sublist_append_left _ _).map _)

theorem Ordered.right {l r : Formula} {op : Token} (h : (binary l op r).Ordered) : r.Ordered :=
  h.sublist (((List.sublist_cons_self _ _).trans (List.sublist_append_right _ _)).map _)

/-- Nodes of the rules around a tree, outermost first. -/
def within (rules : List Rule) (first last : Nat) (t : Tree) : Tree :=
  rules.foldr (fun rule t => .node rule first (some last) [t]) t

/-- The rules around an operand: it is a column or a literal. -/
def operandRules (t : Token) : List Rule :=
  if t.kind = .integer then [.simpleExprLiteral, .literal, .numLiteral]
  else [.simpleExprColumnRef, .columnRef, .identifier]

/-- The tree of a formula of bit operators. -/
def bitTree : Formula → Tree
  | operand t => within (.bitExpr :: operandRules t) t.index t.index (.token t.index)
  | binary l op r => .node .bitExpr l.first (some r.last) [l.bitTree, .token op.index, r.bitTree]

/-- The tree of a formula of bit operators as a predicate. -/
def predicateTree (f : Formula) : Tree :=
  within [.exprIs, .primaryExprPredicate, .predicate] f.first f.last f.bitTree

/-- The tree of a formula. -/
def tree : Formula → Tree
  | operand t => (operand t).predicateTree
  | binary l op r =>
    if op.rank < logicalRanks then
      .node (operatorRule op.rank) l.first (some r.last) [l.tree, .token op.index, r.tree]
    else (binary l op r).predicateTree

/-- A formula of bit operators is a predicate. -/
theorem Graded.tree_eq {f : Formula} (h : f.Graded logicalRanks) : f.tree = f.predicateTree := by
  cases h with
  | operand ht => rfl
  | binary hop hle _ _ => rw [tree, Token.rank_eq hop, if_neg (Nat.not_lt.2 hle)]

theorem leaves_within (rules : List Rule) (first last : Nat) (t : Tree) :
    (within rules first last t).leaves = t.leaves := by
  induction rules with
  | nil => rfl
  | cons rule rules ih =>
      rw [within, List.foldr_cons, Tree.leaves, Tree.leavesAll, Tree.leavesAll, List.append_nil]
      exact ih

theorem leaves_bitTree (f : Formula) : f.bitTree.leaves = f.tokens.map Token.index := by
  induction f with
  | operand t => rw [bitTree, leaves_within, Tree.leaves, tokens, List.map_singleton]
  | binary l op r ihl ihr => simp [bitTree, Tree.leaves, Tree.leavesAll, tokens, ihl, ihr]

/-- The leaves of the tree of a formula are its tokens. -/
theorem leaves_tree (f : Formula) : f.tree.leaves = f.tokens.map Token.index := by
  induction f with
  | operand t => rw [tree, predicateTree, leaves_within, leaves_bitTree]
  | binary l op r ihl ihr =>
      rw [tree]
      split
      · simp [Tree.leaves, Tree.leavesAll, tokens, ihl, ihr]
      · rw [predicateTree, leaves_within, leaves_bitTree]

end Formula

/-! ### Tiers of operators in a tree -/

/-- The rank of the operator of a node, which stands between two operands. -/
def Tree.rank? (tokens : List Token) : Tree → Option Nat
  | node _ _ _ [_, token i, _] => tokens[i]?.bind (·.kind.rank?)
  | _ => none

/-- What the levels of the operators ask of a node with the given rule and parts. -/
structure Tiered (tokens : List Token) (rule : Rule) (parts : List Tree) : Prop where
  /-- The node of an operator has no looser operator on its left, and only tighter ones
  on its right. -/
  operator : ∀ l i r, parts = [l, .token i, r] → ∃ u m, tokens[i]? = some u ∧
    u.kind.rank? = some m ∧ rule = operatorRule m ∧
      (∀ k ∈ l.rank? tokens, m ≤ k) ∧ ∀ k ∈ r.rank? tokens, m < k
  /-- A logical node is that of an operator. -/
  logical : rule.isLogical = true → ∃ l i r, parts = [l, .token i, r]
  /-- No logical node lies below a bit expression. -/
  bits : rule = .bitExpr → ∀ part ∈ parts, part.Every fun rule _ => rule.isLogical = false

theorem operatorRule_of_le {m : Nat} (h : logicalRanks ≤ m) : operatorRule m = .bitExpr := by
  match m, h with
  | m + 3, _ => rfl

theorem operatorRule_ne_bitExpr {m : Nat} (h : m < logicalRanks) : operatorRule m ≠ .bitExpr := by
  match m, h with
  | 0, _ => decide
  | 1, _ => decide
  | 2, _ => decide

/-- A tree in which the operators are tiered and none is logical. -/
structure Tree.Plain (tokens : List Token) (t : Tree) : Prop where
  tiered : t.Every (Tiered tokens)
  plain : t.Every fun rule _ => rule.isLogical = false

namespace Formula

variable {tokens : List Token}

/-- A node around one part that is not logical. -/
theorem plain_node {rule : Rule} {t : Tree} (hrule : rule.isLogical = false)
    (h : t.Plain tokens) (first last : Nat) :
    (Tree.node rule first (some last) [t]).Plain tokens := by
  constructor
  · refine .node _ _ ⟨fun l i r hparts => ?_, fun hlogical => ?_, fun _ => ?_⟩ ?_
    · cases hparts
    · rw [hrule] at hlogical
      cases hlogical
    · simpa using h.plain
    · simpa using h.tiered
  · exact .node _ _ hrule (by simpa using h.plain)

theorem plain_within {rules : List Rule} (hrules : ∀ rule ∈ rules, rule.isLogical = false)
    {t : Tree} (h : t.Plain tokens) (first last : Nat) :
    (within rules first last t).Plain tokens := by
  induction rules with
  | nil => exact h
  | cons rule rules ih =>
      rw [List.forall_mem_cons] at hrules
      exact plain_node hrules.1 (ih hrules.2) first last

/-- The tree of a formula of bit operators. -/
theorem Graded.plain_bitTree {n : Nat} {f : Formula} (h : f.Graded n) (hn : logicalRanks ≤ n)
    (htokens : ∀ t ∈ f.tokens, tokens[t.index]? = some t) :
    f.bitTree.Plain tokens ∧ ∀ k ∈ f.bitTree.rank? tokens, n ≤ k := by
  induction h with
  | @operand n t ht =>
      refine ⟨plain_within ?_ ⟨.token _, .token _⟩ t.index t.index, ?_⟩
      · unfold operandRules
        split <;> decide
      · intro k hk
        cases hk
  | @binary n m l r op hop hnm _ _ ihl ihr =>
      simp only [Formula.tokens, List.mem_append, List.mem_cons] at htokens
      have hget : tokens[op.index]? = some op := htokens op (.inr (.inl rfl))
      obtain ⟨hl, hlrank⟩ := ihl (by omega) fun t ht => htokens t (.inl ht)
      obtain ⟨hr, hrrank⟩ := ihr (by omega) fun t ht => htokens t (.inr (.inr ht))
      have hplain : ∀ {P : Rule → List Tree → Prop}, l.bitTree.Every P → r.bitTree.Every P →
          ∀ part ∈ [l.bitTree, .token op.index, r.bitTree], part.Every P := by
        intro P hl hr
        simp [hl, hr, Tree.Every.token]
      refine ⟨⟨.node _ _ ⟨?_, ?_, fun _ => hplain hl.plain hr.plain⟩ (hplain hl.tiered hr.tiered),
        .node _ _ rfl (hplain hl.plain hr.plain)⟩, ?_⟩
      · intro l' i r' hparts
        cases hparts
        exact ⟨op, m, hget, hop, (operatorRule_of_le (Nat.le_trans hn hnm)).symm, hlrank, hrrank⟩
      · intro hlogical
        cases hlogical
      · intro k hk
        rw [bitTree, Tree.rank?, hget] at hk
        cases hop.symm.trans hk
        exact hnm

theorem Graded.plain_predicateTree {n : Nat} {f : Formula} (h : f.Graded n)
    (hn : logicalRanks ≤ n) (htokens : ∀ t ∈ f.tokens, tokens[t.index]? = some t) :
    f.predicateTree.Plain tokens :=
  plain_within (by decide) (h.plain_bitTree hn htokens).1 f.first f.last

/-- In the tree of a graded formula the operators are tiered. -/
theorem Graded.every_tiered {n : Nat} {f : Formula} (h : f.Graded n)
    (htokens : ∀ t ∈ f.tokens, tokens[t.index]? = some t) :
    f.tree.Every (Tiered tokens) ∧ ∀ k ∈ f.tree.rank? tokens, n ≤ k := by
  induction h with
  | @operand n t ht =>
      have hplain := Graded.plain_predicateTree (.operand ht) (Nat.le_refl _) htokens
      refine ⟨hplain.tiered, fun k hk => ?_⟩
      cases hk
  | @binary n m l r op hop hnm hl hr ihl ihr =>
      rw [tree, Token.rank_eq hop]
      -- a bit operator has no logical one below it, so its formula is one predicate
      split
      case isFalse hbits =>
        have hf : (Formula.binary l op r).Graded logicalRanks :=
          .binary hop (Nat.le_of_not_lt hbits) hl hr
        refine ⟨(hf.plain_predicateTree (Nat.le_refl _) htokens).tiered, fun k hk => ?_⟩
        cases hk
      case isTrue hlogical =>
        simp only [Formula.tokens, List.mem_append, List.mem_cons] at htokens
        have hget : tokens[op.index]? = some op := htokens op (.inr (.inl rfl))
        obtain ⟨hl, hlrank⟩ := ihl fun t ht => htokens t (.inl ht)
        obtain ⟨hr, hrrank⟩ := ihr fun t ht => htokens t (.inr (.inr ht))
        refine ⟨.node _ _ ⟨?_, fun _ => ⟨_, _, _, rfl⟩, fun hbits => ?_⟩ ?_, fun k hk => ?_⟩
        · intro l' i r' hparts
          cases hparts
          exact ⟨op, m, hget, hop, rfl, hlrank, hrrank⟩
        · exact absurd hbits (operatorRule_ne_bitExpr hlogical)
        · simp [hl, hr, Tree.Every.token]
        · rw [Tree.rank?, hget] at hk
          cases hop.symm.trans hk
          exact hnm

end Formula

end MySqlAnalysis
