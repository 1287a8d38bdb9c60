import MySqlAnalysis.Proofs.Grammar.Shapes

/-!
# The shapes of expressions

The nodes of select items, assignments, expressions and what these are made of have the
shapes of a table (`ruleShapes`), in every text without a parser error
(`Config.analyze_shaped`). Nothing is said of the nodes of other rules.
-/

set_option autoImplicit false

namespace MySqlAnalysis

namespace Grammar

/-! ### Tables -/

/-- The rules of expressions with a logical operator between two others. -/
def logicalRules : List Rule := [.exprOr, .exprXor, .exprAnd]

/-- The rules of expressions. -/
def expressionRules : List Rule := .exprNot :: .exprIs :: logicalRules

/-- The rules of predicates with comparisons after them. -/
def primaryRules : List Rule :=
  [.primaryExprPredicate, .primaryExprIsNull, .primaryExprAllAny, .primaryExprCompare]

/-- The rules of simple expressions that start with a token. -/
def prefixedRules : List Rule :=
  [.simpleExprParamMarker, .simpleExprUnary, .simpleExprNot, .simpleExprList, .simpleExprExists,
   .simpleExprCase, .simpleExprBinary, .simpleExprCast, .simpleExprInterval, .simpleExprDefault]

/-- The rules of simple expressions with one part, each with the rule of that part. -/
def enclosingRules : List (Rule × Rule) :=
  [(.simpleExprVariable, .variable), (.simpleExprSubQuery, .subquery),
   (.simpleExprLiteral, .literal), (.simpleExprSum, .sumExpr),
   (.simpleExprRuntimeFunction, .runtimeFunctionCall), (.simpleExprFunction, .functionCall),
   (.simpleExprColumnRef, .columnRef)]

/-- The rules of simple expressions with an operator behind another simple expression. -/
def suffixedRules : List Rule := [.simpleExprCollate, .simpleExprConcat, .simpleExprJsonSeparator]

/-- The rules of simple expressions. -/
def simpleRules : List Rule := enclosingRules.map Prod.fst ++ prefixedRules ++ suffixedRules

/-- The rules of nodes that start with a token. -/
def openingRules : List Rule :=
  prefixedRules ++
    [.exprNot, .predicateExprIn, .predicateExprBetween, .predicateExprLike, .predicateExprRegexp,
     .variable, .queryExpressionParens, .textLiteral, .numLiteral, .boolLiteral, .nullLiteral,
     .temporalLiteral, .sumExpr, .runtimeFunctionCall]

/-- Some token. -/
def someToken : PartShape := .token none

/-- Just these parts. -/
def exactly (parts : List PartShape) : Shape := ⟨parts, false⟩

/-- These parts first. -/
def leading (parts : List PartShape) : Shape := ⟨parts, true⟩

/-- The shapes of the parts of nodes. -/
def ruleShapes (r : Rule) : List Shape :=
  if r ∈ openingRules then [leading [someToken]]
  else if r ∈ suffixedRules then [leading [.other, someToken]]
  else if r ∈ logicalRules then expressionRules.map fun x => leading [.node x, someToken]
  else match enclosingRules.lookup r with
  | some inner => [exactly [.node inner]]
  | none =>
    match r with
    | .selectItem =>
      exactly [.node .tableWild] ::
        (expressionRules.map (exactly [.node ·]) ++
          expressionRules.map fun x => exactly [.node x, .node .selectAlias])
    | .selectAlias =>
      [leading [someToken], exactly [.node .textLiteral], exactly [.node .identifier]]
    | .tableWild => [leading [.node .identifier, someToken]]
    | .exprIs =>
      primaryRules.flatMap fun x =>
        [exactly [.node x], exactly [.node x, someToken, someToken],
         exactly [.node x, someToken, someToken, someToken]]
    | .primaryExprPredicate => [exactly [.node .predicate]]
    | .primaryExprIsNull => primaryRules.map fun x => leading [.node x, someToken]
    | .primaryExprAllAny => primaryRules.map fun x => leading [.node x, .node .compOp]
    | .primaryExprCompare =>
      primaryRules.map fun x => exactly [.node x, .node .compOp, .node .predicate]
    | .compOp => [exactly [someToken]]
    | .predicate =>
      exactly [.node .bitExpr] ::
        [someToken, .node .predicateExprIn, .node .predicateExprBetween, .node .predicateExprLike,
          .node .predicateExprRegexp].map fun x => leading [.node .bitExpr, x]
    | .bitExpr => leading [.node .bitExpr, someToken] :: simpleRules.map (exactly [.node ·])
    | .subquery => [exactly [.node .queryExpressionParens]]
    | .literal =>
      leading [someToken] :: [.textLiteral, .numLiteral, .boolLiteral, .nullLiteral,
        .temporalLiteral].map (exactly [.node ·])
    | .functionCall => [leading [.node .identifier, someToken]]
    | .identifier => [exactly [someToken]]
    | .columnRef =>
      [exactly [.node .identifier], exactly [.node .identifier, someToken, .node .identifier],
       exactly [.node .identifier, someToken, .node .identifier, someToken, .node .identifier]]
    | .updateElement =>
      (someToken :: expressionRules.map .node).map fun x =>
        exactly [.node .columnRef, .token (some .equal), x]
    | _ => [Shape.any]

/-- The shapes of what phrases add. -/
def phraseShapes : Phrase → List Shape
  | .expr _ => expressionRules.map (exactly [.node ·])
  | .exprIs => [exactly [.node .exprIs]]
  | .predicate => [exactly [.node .predicate]]
  | .bitExpr _ => [exactly [.node .bitExpr]]
  | .simpleExpr => simpleRules.map (exactly [.node ·])
  | .operand => (enclosingRules.map Prod.fst ++ prefixedRules).map (exactly [.node ·])
  | .literal => [exactly [.node .literal]]
  | .functionCall => [exactly [.node .functionCall]]
  | .sumExpr => [exactly [.node .sumExpr]]
  | .queryParens => [exactly [.node .queryExpressionParens]]
  | .subquery => [exactly [.node .subquery]]
  | _ => [Shape.any]

/-! ### The check -/

/-- Whether a phrase adds what it is said to. -/
def fitsTables (phrase : Phrase) : Bool :=
  ((grammar phrase).shapes phraseShapes ruleShapes (Shape.width (phraseShapes phrase))
    [.empty]).any (Shape.allCovered (phraseShapes phrase))

theorem fitsTables_expr (power : Nat) : fitsTables (.expr power) = fitsTables (.expr 0) := by
  simp only [fitsTables, grammar, exprBody, operations, Program.steps, Program.shapes, phraseShapes]

theorem fitsTables_bitExpr (power : Nat) :
    fitsTables (.bitExpr power) = fitsTables (.bitExpr 0) := by
  simp only [fitsTables, grammar, bitExprBody, operations, Program.steps, Program.shapes,
    phraseShapes]

/-- Every phrase adds what it is said to, and the nodes in it fit their table. -/
theorem fitsTables_phrase (phrase : Phrase) : fitsTables phrase = true := by
  cases phrase with
  | expr power =>
      rw [fitsTables_expr]
      decide +kernel
  | bitExpr power =>
      rw [fitsTables_bitExpr]
      decide +kernel
  | frame depth => cases depth <;> rfl
  | alterTokens depth => cases depth <;> rfl
  | _ => decide +kernel

/-- The nodes of a tree that was read without a report have the shapes of their rules. -/
theorem parse_shaped {o : Options} {start : StartRule} {tokens : List Token}
    (h : Listed tokens)
    (hreports : (parse (o.withStrategy .recover) start tokens).reports = []) :
    ∀ root ∈ (parse (o.withStrategy .recover) start tokens).root,
      root.Every (Tabled tokens ruleShapes) := by
  obtain ⟨f, hf, haccepts⟩ := accepts_of_silent h hreports
  obtain ⟨T, hT⟩ : ∃ T, start.program.shapes phraseShapes ruleShapes 0 [.empty] = some T :=
    Option.isSome_iff_exists.1 (by cases start <;> decide +kernel)
  have hinitial : (State.initial tokens).Shaped tokens ruleShapes [] [.empty] :=
    ⟨List.suffix_rfl, ⟨[], rfl, .empty, List.mem_singleton_self _, Shape.fits_empty⟩,
      fun t ht => absurd ht List.not_mem_nil⟩
  have hfinal : f.Shaped tokens ruleShapes [] T :=
    Evaluates.shaped h (endingOf_isEof tokens) fitsTables_phrase haccepts (by decide) [] 0 _ T hT
      hinitial
  intro root hroot
  rw [hf] at hroot
  exact hfinal.every root (List.mem_of_head? hroot)

end Grammar

namespace Config

open Grammar

/-- In a text without a parser error, the nodes have the shapes of their rules. -/
theorem analyze_shaped (c : Config) (rule : StartRule) (text : String)
    (herror : (c.analyze rule text).diagnostics.parser = none) :
    ∀ root ∈ (c.analyze rule text).document.root,
      root.Every (Tabled (tokenize c.dialect text) ruleShapes) := by
  intro root hroot
  rw [root_eq_exact] at hroot
  exact parse_shaped (o := c.exactOptions) (tokenize_listed c.dialect text) (reports_eq_nil herror)
    root hroot

end Config

end MySqlAnalysis
