import MySqlAnalysis.Grammar.Query

/-!
# Changing rows

`INSERT`, `REPLACE`, `UPDATE` and `DELETE`.
-/

set_option autoImplicit false

namespace MySqlAnalysis.Grammar

open Program

/-- An expression, or the word for the default of the column. -/
def exprOrDefault : Fragment :=
  .cond (Look.both (.word [.DEFAULT]) (.not (.isAt 1 .openParen))) .advance expression

/-- The body of `Phrase.updateList`: assignments with commas between them. -/
def updateListBody : Fragment :=
  .node .updateList
    (commaList (.node .updateElement (steps [columnRef, .expect .equal, exprOrDefault])))

/-- Columns in parentheses, possibly none. -/
def fieldsInParens : Fragment :=
  steps
    [.expect .openParen,
     unlessHolds (.is .closeParen) (.node .fields (commaList columnRef)),
     .expect .closeParen]

/-- Rows of values. -/
def insertValues : Fragment :=
  .node .insertValues
    (steps
      [oneOf (words [.VALUES, .VALUE]),
       .node .valueList
         (commaList
           (steps
             [.expect .openParen,
              unlessHolds (.is .closeParen) (.node .values (commaList exprOrDefault)),
              .expect .closeParen]))])

/-- Rows to insert, given as values. -/
def insertFromConstructor (fields : Fragment) : Fragment :=
  .node .insertFromConstructor (steps [fields, insertValues])

/-- Rows to insert, given by a query. -/
def insertFromQuery (fields : Fragment) : Fragment :=
  .node .insertQueryExpression (steps [fields, .call .queryExpression])

/-- A list of columns comes next, and not a query in parentheses. -/
def fieldsAhead : Look :=
  .both (.is .openParen) (.not (.among 1 [.keyword .SELECT, .keyword .WITH, .openParen]))

/-- The words in front of rows of values. -/
def valuesWords : List TokenKind := words [.VALUES, .VALUE]

/-- The tokens that start a query. -/
def queryStarts : List TokenKind := [.keyword .SELECT, .keyword .WITH, .openParen]

/-- The body of `Phrase.insertSource`: everything between the target table and
what to do with duplicates. -/
def insertSourceBody : Fragment :=
  steps
    [after [.keyword .PARTITION] identifierListInParens,
     .cond (.word [.SET])
       (steps [.advance, .call .updateList])
       (.cond fieldsAhead
         (.cond (Look.afterGroup queryStarts)
           (insertFromQuery fieldsInParens)
           (insertFromConstructor fieldsInParens))
         (choose
           [(.among 0 valuesWords, insertFromConstructor .done),
            (.among 0 queryStarts, insertFromQuery .done)]
           (noAlternative [.keyword .VALUES, .keyword .SET, .keyword .SELECT, .openParen])))]

/-- The body of `Phrase.insertStatement`. -/
def insertStatementBody : Fragment :=
  .node .insertStatement
    (steps
      [.expect (.keyword .INSERT),
       opt (words [.LOW_PRIORITY, .DELAYED, .HIGH_PRIORITY]),
       opt [.keyword .IGNORE],
       opt [.keyword .INTO],
       tableRef,
       .call .insertSource,
       ifHolds (.word [.ON])
         (.node .insertUpdateList
           (steps
             [.advance,
              .expect (.keyword .DUPLICATE),
              .expect (.keyword .KEY),
              .expect (.keyword .UPDATE),
              .call .updateList]))])

/-- The body of `Phrase.replaceStatement`. -/
def replaceStatementBody : Fragment :=
  .node .replaceStatement
    (steps
      [.expect (.keyword .REPLACE),
       opt (words [.LOW_PRIORITY, .DELAYED]),
       opt [.keyword .INTO],
       tableRef,
       .call .insertSource])

/-- The condition, order and limit of a change. -/
def whereOrderLimit : Fragment :=
  steps
    [ifHolds (.word [.WHERE]) whereClause,
     ifHolds (.word [.ORDER]) (.call .orderClause),
     ifHolds (.word [.LIMIT]) limitClause]

/-- The body of `Phrase.updateStatement`. -/
def updateStatementBody : Fragment :=
  .node .updateStatement
    (steps
      [.expect (.keyword .UPDATE),
       opt [.keyword .LOW_PRIORITY],
       opt [.keyword .IGNORE],
       .call .tableReferenceList,
       .expect (.keyword .SET),
       .call .updateList,
       whereOrderLimit])

/-- The tables to delete from, each with an optional point and star. -/
def deleteTargets : Fragment :=
  .node .tableRefList
    (commaList
      (steps
        [tableRef, ifHolds (Look.both (.is .dot) (.isAt 1 .star)) (steps [.advance, .advance])]))

/-- A deletion from several tables; `word` stands between the targets and the
tables that are read. -/
def multiTableDelete (word : Keyword) : Fragment :=
  steps
    [deleteTargets,
     .expect (.keyword word),
     .call .tableReferenceList,
     ifHolds (.word [.WHERE]) whereClause]

/-- Several targets come next. -/
def multiTableAhead : Look :=
  .either (.isAt 1 .comma)
    (.either (.both (.isAt 1 .dot) (.isAt 2 .star))
      (.either (.wordAt 1 [.USING]) (.both (.isAt 1 .dot) (.wordAt 3 [.USING]))))

/-- The body of `Phrase.deleteStatement`. -/
def deleteStatementBody : Fragment :=
  .node .deleteStatement
    (steps
      [.expect (.keyword .DELETE),
       .loop (.word [.LOW_PRIORITY, .QUICK, .IGNORE]) .advance,
       .cond (.word [.FROM])
         (steps
           [.advance,
            .cond multiTableAhead
              (multiTableDelete .USING)
              (steps
                [tableRef,
                 ifHolds nextTableAlias tableAlias,
                 after [.keyword .PARTITION] identifierListInParens,
                 whereOrderLimit])])
         (multiTableDelete .FROM)])

end MySqlAnalysis.Grammar
