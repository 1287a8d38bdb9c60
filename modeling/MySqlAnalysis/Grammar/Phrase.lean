/-!
# Phrases

The names that grammar programs use for one another: everything that can occur
inside itself, and what is used in several places.
-/

set_option autoImplicit false

namespace MySqlAnalysis.Grammar

/-- A named part of the grammar. -/
inductive Phrase where
  /-- The statements of a script up to the end of the input. -/
  | script
  | simpleStatement
  /-- Any tokens up to the end of the statement. -/
  | restOfStatement
  /-- An expression whose logical operators bind at least as tight as `power`. -/
  | expr (power : Nat)
  | exprIs
  | predicate
  /-- A bit expression whose operators bind at least as tight as `power`. -/
  | bitExpr (power : Nat)
  | simpleExpr
  /-- A simple expression without operators after it. -/
  | operand
  | exprList
  | literal
  | functionCall
  | sumExpr
  /-- The frame of a window, inside `depth` parentheses of its own. -/
  | frame (depth : Nat)
  | selectStatement
  | queryExpression
  | querySpecification
  /-- A query expression in parentheses. -/
  | queryParens
  | subquery
  | selectItem
  | orderClause
  | lockingClauses
  | tableReferenceList
  | tableFactor
  | derivedTable
  | insertStatement
  | replaceStatement
  | insertSource
  | updateList
  | updateStatement
  | deleteStatement
  | createStatement
  | createTable
  | columnDefinition
  | columnAttribute
  | tableConstraint
  | keyList
  | createView
  | createIndex
  | createDatabase
  /-- Character set and collation of a database. -/
  | databaseOptions
  | dropStatement
  | alterStatement
  | alterItem
  /-- The tokens of an alter action without structure, inside `depth` parentheses. -/
  | alterTokens (depth : Nat)
  | setStatement
  | optionValue
  | transactionStatement
  /-- Characteristics of a started transaction. -/
  | transactionOptions
  | showStatement
  | describeStatement
  | explainStatement
  deriving DecidableEq

end MySqlAnalysis.Grammar
