import MySqlAnalysis.Grammar.Change

/-!
# Sessions

Choosing a schema, setting variables, transactions, and the statements that
show, describe and explain.
-/

set_option autoImplicit false

namespace MySqlAnalysis.Grammar

open Program

/-- `USE`. -/
def useCommand : Fragment :=
  .node .useCommand (steps [.expect (.keyword .USE), schemaRef])

/-! ### Variables -/

/-- The scopes of a system variable. -/
def scopes : List Keyword := [.GLOBAL, .SESSION, .LOCAL, .PERSIST, .PERSIST_ONLY]

/-- Settings that are read without structure come next. -/
def nextPlainSetting : Test :=
  .either
    (.either (Look.word [.TRANSACTION])
      (.both (.word scopes) (Look.wordAt 1 [.TRANSACTION])))
    (.either (.word [.PASSWORD, .ROLE])
      (Look.both (.word [.DEFAULT]) (.wordAt 1 [.ROLE])))

/-- The body of `Phrase.setStatement`. -/
def setStatementBody : Fragment :=
  .node .setStatement
    (steps
      [.expect (.keyword .SET),
       .cond nextPlainSetting (.call .restOfStatement) (commaList (.call .optionValue))])

/-- The name of a system variable. -/
def systemVariableName : Fragment :=
  steps [anyIdentifier, after [.dot] anyIdentifier]

/-- The variable that is assigned to. -/
def settingTarget : Fragment :=
  choose
    [(.is .userVariable, .advance),
     (.is .atAt,
      steps
        [.advance,
         ifHolds (.both (.word scopes) (Look.isAt 1 .dot)) (steps [.advance, .advance]),
         systemVariableName])]
    (steps
      [ifHolds (.both (.word scopes) (Look.not (.among 1 [.equal, .assign, .dot]))) .advance,
       systemVariableName])

/-- The value that is assigned. -/
def settingValue : Fragment :=
  .cond
    (.either (.word [.ON, .ALL, .BINARY, .ROW])
      (Look.both (.word [.DEFAULT]) (.not (.isAt 1 .openParen))))
    .advance expression

/-- The body of `Phrase.optionValue`. -/
def optionValueBody : Fragment :=
  .node .optionValue
    (.cond (.word [.NAMES])
      (steps [.advance, charsetName, after [.keyword .COLLATE] charsetName])
      (.cond nextCharsetClause charsetClause
        (steps [settingTarget, oneOf [.equal, .assign], settingValue])))

/-! ### Transactions -/

/-- `COMMIT` or `ROLLBACK` with what follows the transaction. -/
def transactionEnd : Fragment :=
  .node .transactionStatement
    (steps
      [.advance,
       opt [.keyword .WORK],
       after [.keyword .AND] (steps [opt [.keyword .NO], .expect (.keyword .CHAIN)]),
       ifHolds (Look.both (.word [.NO]) (.wordAt 1 [.RELEASE])) .advance,
       opt [.keyword .RELEASE]])

/-- The body of `Phrase.transactionOptions`. -/
def transactionOptionsBody : Fragment :=
  let more : Fragment := after [.comma] (.call .transactionOptions)
  .cond (.word [.WITH])
    (steps [.advance, .expect (.keyword .CONSISTENT), .expect (.keyword .SNAPSHOT), more])
    (ifHolds (.word [.READ])
      (steps [.advance, oneOf (words [.ONLY, .WRITE]), more]))

/-- A return to a savepoint comes next. -/
def rollbackToAhead : Look :=
  .either (.both (.wordAt 1 [.WORK]) (.wordAt 2 [.TO])) (.wordAt 1 [.TO])

/-- The body of `Phrase.transactionStatement`: transactions and savepoints. -/
def transactionStatementBody : Fragment :=
  choose
    [(.word [.SAVEPOINT, .RELEASE],
      .node .savepointStatement
        (steps
          [.cond (.word [.SAVEPOINT]) .advance
             (steps [.expect (.keyword .RELEASE), .expect (.keyword .SAVEPOINT)]),
           identifier])),
     (.both (.word [.ROLLBACK]) rollbackToAhead,
      .node .savepointStatement
        (steps
          [.advance,
           opt [.keyword .WORK],
           .expect (.keyword .TO),
           opt [.keyword .SAVEPOINT],
           identifier])),
     (.word [.ROLLBACK, .COMMIT], transactionEnd),
     (.word [.BEGIN], .node .transactionStatement (steps [.advance, opt [.keyword .WORK]])),
     (.wordAt 1 [.TRANSACTION],
      .node .transactionStatement (steps [.advance, .advance, .call .transactionOptions]))]
    otherStatement

/-! ### Showing, describing and explaining -/

/-- The words in front of the owner of what is shown. -/
def ownerWords : List Keyword := [.FROM, .IN]

/-- The body of `Phrase.showStatement`. -/
def showStatementBody : Fragment :=
  .node .showStatement
    (steps
      [.expect (.keyword .SHOW),
       opt (words [.FULL, .EXTENDED]),
       .cond (Look.both (.word [.CREATE]) (.wordAt 1 [.TABLE, .VIEW]))
         (steps [.advance, .advance, tableRef])
         (steps
           [.cond (.word [.COLUMNS, .FIELDS, .INDEX, .INDEXES, .KEYS])
              (steps
                [.advance,
                 oneOf (words ownerWords),
                 tableRef,
                 after (words ownerWords) schemaRef])
              (after [.keyword .TABLES] (after (words ownerWords) schemaRef)),
            .call .restOfStatement])])

/-- The statements that can be explained. -/
def explainable : List TokenKind :=
  words [.SELECT, .WITH, .INSERT, .UPDATE, .DELETE, .REPLACE]

/-- A statement to explain comes next, and not a table to describe. -/
def explainAhead : Look :=
  .either (.among 1 (.openParen :: words [.ANALYZE, .FOR] ++ explainable))
    (.either (.both (.wordAt 1 [.FORMAT]) (.isAt 2 .equal))
      (.both (.wordAt 1 [.EXTENDED, .PARTITIONS]) (.among 2 (.openParen :: explainable))))

/-- The body of `Phrase.describeStatement`. -/
def describeStatementBody : Fragment :=
  .cond explainAhead
    (.call .explainStatement)
    (.node .describeStatement
      (steps
        [.advance,
         tableRef,
         .cond .nextText textLiteral (ifHolds .nextName (.node .columnRef identifier))]))

/-- The body of `Phrase.explainStatement`. -/
def explainStatementBody : Fragment :=
  .node .explainStatement
    (steps
      [.advance,
       .cond (.word [.FORMAT])
         (steps [.advance, .expect .equal, textOrIdentifier])
         (opt (words [.EXTENDED, .PARTITIONS, .ANALYZE])),
       .cond (.word [.FOR])
         (steps [.advance, .expect (.keyword .CONNECTION), .expect .integer])
         (choose
           [(.word [.INSERT], .call .insertStatement),
            (.word [.REPLACE], .call .replaceStatement),
            (.word [.UPDATE], .call .updateStatement),
            (.word [.DELETE], .call .deleteStatement)]
           (.call .selectStatement))])

end MySqlAnalysis.Grammar
