import MySqlAnalysis.Grammar.Expression

/-!
# Queries

`SELECT` statements, query expressions and the tables they read from. Two
opening parentheses in a place for tables start either a nested query or a
nested list of tables; this is the one place where an alternative is tried and
taken back.
-/

set_option autoImplicit false

namespace MySqlAnalysis.Grammar

open Program

/-! ### Query expressions -/

/-- A locking clause comes next. -/
def nextLockingClause : Test :=
  .either
    (.both (.word [.FOR]) (Look.wordAt 1 [.UPDATE, .SHARE]))
    (.both (.word [.LOCK]) (Look.wordAt 1 [.IN]))

/-- A locking clause. -/
def lockingClause : Fragment :=
  .node .lockingClause
    (.cond (.word [.LOCK])
      (steps
        [.advance, .expect (.keyword .IN), .expect (.keyword .SHARE), .expect (.keyword .MODE)])
      (steps
        [.expect (.keyword .FOR),
         oneOf (words [.UPDATE, .SHARE]),
         after [.keyword .OF] (commaList tableRef),
         .cond (.word [.NOWAIT]) .advance (after [.keyword .SKIP] (.expect (.keyword .LOCKED)))]))

/-- The body of `Phrase.lockingClauses`. -/
def lockingClausesBody : Fragment :=
  .loop nextLockingClause lockingClause

/-- The body of `Phrase.selectStatement`. -/
def selectStatementBody : Fragment :=
  .node .selectStatement (steps [.call .queryExpression, .call .lockingClauses])

/-- `WITH` and the common table expressions. -/
def withClause : Fragment :=
  .node .withClause
    (steps
      [.advance,
       opt [.keyword .RECURSIVE],
       commaList
         (.node .commonTableExpression
           (steps
             [identifier,
              ifHolds (.is .openParen) identifierListInParens,
              .expect (.keyword .AS),
              .call .subquery]))])

/-- A query specification or a query in parentheses. -/
def queryPrimary : Fragment :=
  .cond (Look.is .openParen) (.call .queryParens) (.call .querySpecification)

/-- An expression and its direction. -/
def orderExpression : Fragment :=
  .node .orderExpression (steps [expression, opt (words [.ASC, .DESC])])

/-- The body of `Phrase.orderClause`. -/
def orderClauseBody : Fragment :=
  .node .orderClause
    (steps [.expect (.keyword .ORDER), .expect (.keyword .BY), commaList orderExpression])

/-- A number, a parameter or a variable. -/
def limitOption : Fragment :=
  .cond .nextName identifier (oneOf [.integer, .parameter])

/-- `LIMIT` with one or two options. -/
def limitClause : Fragment :=
  .node .limitClause
    (steps
      [.expect (.keyword .LIMIT),
       .node .limitOptions (steps [limitOption, after [.comma, .keyword .OFFSET] limitOption])])

/-- The body of `Phrase.queryExpression`. -/
def queryExpressionBody : Fragment :=
  .node .queryExpression
    (steps
      [ifHolds (.word [.WITH]) withClause,
       .node .queryExpressionBody
         (steps
           [queryPrimary,
            .loop (.word [.UNION])
              (steps [.advance, opt (words [.ALL, .DISTINCT]), queryPrimary])]),
       ifHolds (.word [.ORDER]) (.call .orderClause),
       ifHolds (.word [.LIMIT]) limitClause])

/-- The body of `Phrase.queryParens`. -/
def queryParensBody : Fragment :=
  .node .queryExpressionParens
    (steps
      [.expect .openParen, .call .queryExpression, .call .lockingClauses, .expect .closeParen])

/-- The body of `Phrase.subquery`. -/
def subqueryBody : Fragment :=
  .node .subquery (.call .queryParens)

/-! ### Query specifications -/

/-- Options of `SELECT`. -/
def selectOptions : List Keyword :=
  [.ALL, .DISTINCT, .DISTINCTROW, .HIGH_PRIORITY, .STRAIGHT_JOIN, .SQL_SMALL_RESULT,
   .SQL_BIG_RESULT, .SQL_BUFFER_RESULT, .SQL_CALC_FOUND_ROWS, .SQL_NO_CACHE, .SQL_CACHE]

/-- Words of the options of an output file. -/
def outfileOptions : List Keyword :=
  [.CHARACTER, .CHARSET, .SET, .FIELDS, .COLUMNS, .LINES, .TERMINATED, .OPTIONALLY, .ENCLOSED,
   .ESCAPED, .STARTING, .BY]

/-- All columns of a table come next. -/
def tableWildAhead : Look :=
  .both (.both (.name 0) (.isAt 1 .dot))
    (.either (.isAt 2 .star) (.both (.name 2) (.both (.isAt 3 .dot) (.isAt 4 .star))))

/-- All columns of a table. -/
def tableWild : Fragment :=
  .node .tableWild
    (steps
      [identifier,
       .expect .dot,
       ifHolds (Look.not (.is .star)) (steps [identifier, .expect .dot]),
       .expect .star])

/-- The body of `Phrase.selectItem`. -/
def selectItemBody : Fragment :=
  .node .selectItem
    (.cond tableWildAhead tableWild
      (steps
        [expression,
         ifHolds (.either (.word [.AS]) (.either .nextName .nextText))
           (.node .selectAlias (steps [opt [.keyword .AS], textOrIdentifier]))]))

/-- The items of a query. -/
def selectItemList : Fragment :=
  .node .selectItemList
    (steps
      [.cond (.is .star) .advance (.call .selectItem),
       .loop (.is .comma) (steps [.advance, .call .selectItem])])

/-- Where the rows of a query go. -/
def intoClause : Fragment :=
  .node .intoClause
    (steps
      [.advance,
       .cond (.word [.OUTFILE])
         (steps
           [.advance, textLiteral, .loop (.either (.word outfileOptions) .nextText) .advance])
         (.cond (.word [.DUMPFILE])
           (steps [.advance, textLiteral])
           (commaList (.cond (.is .userVariable) .advance textOrIdentifier)))])

/-- The tables of a query. -/
def fromClause : Fragment :=
  .node .fromClause (steps [.advance, .cond (.word [.DUAL]) .advance (.call .tableReferenceList)])

/-- The condition of a statement. -/
def whereClause : Fragment :=
  .node .whereClause (steps [.expect (.keyword .WHERE), expression])

/-- The grouping of a query. -/
def groupByClause : Fragment :=
  .node .groupByClause
    (steps
      [.advance,
       .expect (.keyword .BY),
       commaList orderExpression,
       ifHolds (Look.both (.word [.WITH]) (.wordAt 1 [.ROLLUP])) (steps [.advance, .advance])])

/-- The body of `Phrase.querySpecification`. -/
def querySpecificationBody : Fragment :=
  .node .querySpecification
    (steps
      [.expect (.keyword .SELECT),
       .loop (.word selectOptions) (leaf .selectOption),
       selectItemList,
       ifHolds (.word [.INTO]) intoClause,
       ifHolds (.word [.FROM]) fromClause,
       ifHolds (.word [.WHERE]) whereClause,
       ifHolds (.word [.GROUP]) groupByClause,
       ifHolds (.word [.HAVING]) (.node .havingClause (steps [.advance, expression]))])

/-! ### Tables -/

/-- The condition of a join. -/
def joinCondition : Fragment :=
  .cond (.word [.ON])
    (steps [.advance, expression])
    (after [.keyword .USING] identifierListInParens)

/-- A join up to and including the joined table. -/
def joinTarget : Fragment :=
  steps
    [.cond (.word [.LEFT, .RIGHT])
       (steps [.advance, opt [.keyword .OUTER]])
       (opt (words [.INNER, .CROSS])),
     .cond (.word [.STRAIGHT_JOIN]) .advance (.expect (.keyword .JOIN)),
     .call .tableFactor]

/-- A joined table; a natural join has no condition. -/
def joinedTable : Fragment :=
  .node .joinedTable
    (.cond (.word [.NATURAL]) (steps [.advance, joinTarget]) (steps [joinTarget, joinCondition]))

/-- A table and the tables joined to it. -/
def tableReference : Fragment :=
  .node .tableReference
    (steps
      [.call .tableFactor,
       .loop (.word [.JOIN, .INNER, .CROSS, .STRAIGHT_JOIN, .LEFT, .RIGHT, .NATURAL])
         joinedTable])

/-- The body of `Phrase.tableReferenceList`. -/
def tableReferenceListBody : Fragment :=
  .node .tableReferenceList (commaList tableReference)

/-- Which indexes to use. -/
def indexHint : Fragment :=
  .node .indexHint
    (steps
      [.advance,
       .advance,
       after [.keyword .FOR]
         (.cond (.word [.JOIN]) .advance
           (steps [oneOf (words [.ORDER, .GROUP]), .expect (.keyword .BY)])),
       .expect .openParen,
       unlessHolds (.is .closeParen) (commaList anyIdentifier),
       .expect .closeParen])

/-- A named table. -/
def singleTable : Fragment :=
  .node .singleTable
    (steps
      [tableRef,
       after [.keyword .PARTITION] identifierListInParens,
       ifHolds nextTableAlias tableAlias,
       .loop (.both (.word [.USE, .FORCE, .IGNORE]) (Look.wordAt 1 [.INDEX, .KEY])) indexHint])

/-- The body of `Phrase.derivedTable`: a query in the place of a table. -/
def derivedTableBody : Fragment :=
  .node .derivedTable
    (steps
      [.call .subquery,
       ifHolds nextTableAlias tableAlias,
       ifHolds (.is .openParen) identifierListInParens])

/-- Tables in parentheses. -/
def tableReferenceListParens : Fragment :=
  .node .tableReferenceListParens
    (steps [.expect .openParen, .call .tableReferenceList, .expect .closeParen])

/-- The body of `Phrase.tableFactor`. -/
def tableFactorBody : Fragment :=
  .node .tableFactor
    (choose
      [(.not (.is .openParen), singleTable),
       (.wordAt 1 [.SELECT, .WITH], .call .derivedTable),
       (.both (.isAt 1 .openParen) .speculates,
        .attempt (.call .derivedTable) tableReferenceListParens),
       (.isAt 1 .openParen, .call .derivedTable)]
      tableReferenceListParens)

end MySqlAnalysis.Grammar
