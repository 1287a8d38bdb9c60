import MySqlAnalysis.Proofs.Grammar.Bodies

/-!
# Rules below rules

The rules of the parts that a program adds to the open node can be read off its
text, when those of the phrases that it calls are known (`Program.within`,
`run_extends`). So the nodes of a query expression hold nothing but query
expressions, query specifications and a few clauses (`parse_nests`).
-/

set_option autoImplicit false

namespace MySqlAnalysis.Grammar

variable {φ : Type}

namespace Program

/-- Whether every node that a program adds to the open node has one of the rules,
`parts` telling the rules of the nodes that a phrase adds. -/
def within (parts : φ → Option (List Rule)) (rules : List Rule) : Program φ → Bool
  | seq p q => p.within parts rules && q.within parts rules
  | cond _ p q => p.within parts rules && q.within parts rules
  | loop _ p => p.within parts rules
  | node r _ => rules.contains r
  | wrap r _ => rules.contains r
  | attempt p q => p.within parts rules && q.within parts rules
  | resume p => p.within parts rules
  | call phrase =>
    match parts phrase with
    | some added => added.all rules.contains
    | none => false
  | _ => true

end Program

/-! ### Parts within a list of rules -/

/-- What is in the second list and not in the first is a leaf or a node of one of the rules. -/
def Extends (rules : List Rule) (before after : List Tree) : Prop :=
  ∀ t ∈ after, t ∈ before ∨ ∀ rule ∈ t.rule?, rule ∈ rules

namespace Extends

variable {rules : List Rule} {a b : List Tree}

theorem mono {rules' : List Rule} (h : Extends rules a b) (hrules : rules ⊆ rules') :
    Extends rules' a b := fun t ht => (h t ht).imp_right fun hrule r hr => hrules (hrule r hr)

theorem concat {t : Tree} (ht : ∀ rule ∈ t.rule?, rule ∈ rules) : Extends rules a (a ++ [t]) := by
  intro u hu
  rcases List.mem_append.1 hu with hu | hu
  · exact .inl hu
  · rw [List.mem_singleton.1 hu]
    exact .inr ht

theorem leafPreorder : LeafPreorder (Extends rules) where
  refl _ t ht := .inl ht
  trans h h' t ht := by
    rcases h' t ht with hmid | hrule
    · exact h t hmid
    · exact .inr hrule
  token _ _ := .concat fun _ hrule => by cases hrule
  skipped _ _ := .concat fun _ hrule => by cases hrule

end Extends

/-! ### Programs -/

section Programs

variable {c : Context} {rules : φ → Program φ} {parts : φ → Option (List Rule)}
  {recur : Reaction → Program φ → State (List Tree) → Outcome (List Tree)}

theorem within_hereditary (bound : List Rule) :
    Program.Hereditary fun p : Program φ => p.within parts bound = true where
  seq h := Bool.and_eq_true_iff.1 h
  cond h := Bool.and_eq_true_iff.1 h
  loop h := h
  attempt h := Bool.and_eq_true_iff.1 h
  resume h := h

/-- A program adds nodes of the rules that its text allows when everything that it
calls does. -/
theorem exec_extends
    (hrules : ∀ phrase, ∀ added ∈ parts phrase, (rules phrase).within parts added = true)
    (hrecur : ∀ (p : Program φ) (bound : List Rule), p.within parts bound = true →
      ∀ r s, Extends bound s.built (recur r p s).state.built)
    (p : Program φ) (bound : List Rule) (h : p.within parts bound = true) (r : Reaction)
    (s : State (List Tree)) : Extends bound s.built (exec c rules recur r p s).state.built := by
  refine exec_relates Extends.leafPreorder (within_hereditary bound) ?_ ?_
    (fun t p h => hrecur _ bound h) ?_ p h r s
  · intro rule p h _ r s
    rw [exec, Outcome.state_map]
    refine Extends.concat fun rule' hrule' => ?_
    cases hrule'
    exact List.contains_iff_mem.1 h
  · intro rule p h _ r s t ht
    rw [exec, Outcome.state_map] at ht
    rcases List.mem_append.1 ht with ht | ht
    · exact .inl (List.mem_of_mem_dropLast ht)
    · refine .inr fun rule' hrule' => ?_
      rw [List.mem_singleton.1 ht] at hrule'
      cases hrule'
      exact List.contains_iff_mem.1 h
  · intro phrase h r s
    rw [Program.within] at h
    cases hparts : parts phrase with
    | none =>
        rw [hparts] at h
        cases h
    | some added =>
        rw [hparts] at h
        -- the phrase keeps to rules of its own, all of which are allowed here
        have hsub : added ⊆ bound := fun rule hrule =>
          List.contains_iff_mem.1 (List.all_eq_true.1 h rule hrule)
        exact (hrecur _ added (hrules phrase added hparts) r s).mono hsub

/-- Every run adds nodes of the rules that the text of its program allows. -/
theorem run_extends (c : Context)
    (hrules : ∀ phrase, ∀ added ∈ parts phrase, (rules phrase).within parts added = true)
    (fuel : Nat) :
    ∀ (p : Program φ) (bound : List Rule), p.within parts bound = true →
      ∀ (r : Reaction) (s : State (List Tree)),
        Extends bound s.built (run c rules fuel r p s).state.built := by
  induction fuel with
  | zero => exact fun p bound h r s => Extends.leafPreorder.refl s.built
  | succ fuel ih => exact fun p bound h r s => exec_extends hrules ih p bound h r s

end Programs

/-! ### Query expressions -/

/-- The rules of the nodes in a query expression outside its order clause, apart
from nested query expressions and query specifications. -/
def queryParts : List Rule :=
  [.withClause, .commonTableExpression, .subquery, .queryExpressionParens, .queryExpressionBody,
   .limitClause, .limitOptions, .lockingClause, .tableRef, .identifier]

/-- The rules below a query expression and below the nodes in it. -/
def queryBounds (rule : Rule) : Option (List Rule) :=
  if rule = .queryExpression then some (.orderClause :: queryParts)
  else if rule ∈ queryParts then some (.queryExpression :: .querySpecification :: queryParts)
  else none

/-- The nodes that the phrases of a query expression add. -/
def phraseParts : Phrase → Option (List Rule)
  | .queryExpression => some [.queryExpression]
  | .querySpecification => some [.querySpecification]
  | .queryParens => some [.queryExpressionParens]
  | .subquery => some [.subquery]
  | .orderClause => some [.orderClause]
  | .lockingClauses => some [.lockingClause]
  | _ => none

/-- Whether a body adds only nodes of the rules below its rule. -/
def keepsBounds (rule : Rule) (p : Fragment) : Bool :=
  (queryBounds rule).all (p.within phraseParts ·)

/-- The phrases of a query expression add the nodes that they are said to. -/
theorem grammar_within (phrase : Phrase) :
    ∀ added ∈ phraseParts phrase, (grammar phrase).within phraseParts added = true := by
  cases phrase with
  | queryExpression => rintro added ⟨⟩; rfl
  | querySpecification => rintro added ⟨⟩; rfl
  | queryParens => rintro added ⟨⟩; rfl
  | subquery => rintro added ⟨⟩; rfl
  | orderClause => rintro added ⟨⟩; rfl
  | lockingClauses => rintro added ⟨⟩; rfl
  | _ => exact fun _ h => nomatch h

theorem grammar_keepsBounds (phrase : Phrase) :
    (grammar phrase).everyNode keepsBounds (fun rule => (queryBounds rule).isNone) = true := by
  cases phrase with
  | frame depth => cases depth <;> rfl
  | alterTokens depth => cases depth <;> rfl
  | _ => rfl

/-- The parts of a node keep to the bounds of query expressions. -/
def Nested (rule : Rule) (parts : List Tree) : Prop :=
  ∀ rules ∈ queryBounds rule, ∀ t ∈ parts, ∀ part ∈ t.rule?, part ∈ rules

/-- Every parse tree keeps to the bounds of query expressions. -/
theorem parse_nests (o : Options) (start : StartRule) (tokens : List Token) :
    ∀ t ∈ (parse o start tokens).root, t.Every Nested := by
  refine parse_every grammar_keepsBounds (fun start => by cases start <;> rfl) ?_ ?_ o start tokens
  · intro c fuel rule p r s hp rules hrules t ht
    -- the open node starts without parts, so all of them were added by the body
    have hwithin : p.within phraseParts rules = true := (Option.all_eq_true _ _).1 hp rules hrules
    have hextends := exec_extends (c := c) grammar_within (run_extends c grammar_within fuel) p
      rules hwithin r (s.enter c rule)
    exact (hextends t ht).resolve_left List.not_mem_nil
  · intro rule parts hnone rules hrules
    rw [Option.isNone_iff_eq_none] at hnone
    rw [hnone] at hrules
    cases hrules

end MySqlAnalysis.Grammar
