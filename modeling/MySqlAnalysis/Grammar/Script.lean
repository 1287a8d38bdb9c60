import MySqlAnalysis.Grammar.Schema
import MySqlAnalysis.Grammar.Session

/-!
# Scripts

The statements of a script, and the table that gives every phrase its program.
-/

set_option autoImplicit false

namespace MySqlAnalysis.Grammar

open Program

/-- The tokens listed when a statement starts with none of them. -/
def statementStarts : List TokenKind :=
  words [.SELECT, .INSERT, .UPDATE, .DELETE, .CREATE, .DROP, .ALTER, .SET, .SHOW, .USE] ++
    [.openParen]

/-- Statements that are read without structure. -/
def otherStatementStarts : List Keyword :=
  [.ANALYZE, .BINLOG, .CACHE, .CALL, .CHANGE, .CHECK, .CHECKSUM, .DEALLOCATE, .DO, .EXECUTE,
   .FLUSH, .GET, .GRANT, .HANDLER, .HELP, .IMPORT, .INSTALL, .KILL, .LOAD, .LOCK, .OPTIMIZE,
   .PREPARE, .PURGE, .REPAIR, .RESET, .RESIGNAL, .REVOKE, .SHUTDOWN, .SIGNAL, .STOP,
   .UNINSTALL, .UNLOCK, .XA]

/-- The body of `Phrase.simpleStatement`. -/
def simpleStatementBody : Fragment :=
  .node .simpleStatement
    (choose
      [(.among 0 [.openParen, .keyword .SELECT, .keyword .WITH], .call .selectStatement),
       (.word [.INSERT], .call .insertStatement),
       (.word [.REPLACE], .call .replaceStatement),
       (.word [.UPDATE], .call .updateStatement),
       (.word [.DELETE], .call .deleteStatement),
       (.word [.CREATE], .call .createStatement),
       (.word [.DROP], .call .dropStatement),
       (.word [.ALTER], .call .alterStatement),
       (.word [.TRUNCATE], truncateTable),
       (.word [.RENAME], renameStatement),
       (.word [.USE], useCommand),
       (.word [.SET], .call .setStatement),
       (.word [.START, .BEGIN, .COMMIT, .ROLLBACK, .SAVEPOINT, .RELEASE],
        .call .transactionStatement),
       (.word [.SHOW], .call .showStatement),
       (.word [.DESCRIBE, .DESC, .EXPLAIN], .call .describeStatement),
       (.word otherStatementStarts, otherStatement)]
      (noAlternative statementStarts))

/-- Statements up to the end of the input, each ended by a semicolon. After an
error reading goes on at the next semicolon. -/
def statements : Fragment :=
  .loop (.not (.is .eof))
    (.cond (.is .semicolon) .advance
      (steps
        [.resume (.call .simpleStatement),
         unlessHolds (.is .eof) (.resume (.expect .semicolon))]))

/-- The body of `Phrase.script`: statements and the end of the input. -/
def scriptBody : Fragment :=
  .node .query (steps [statements, .advance])

/-- The body of `Phrase.restOfStatement`. -/
def restOfStatementBody : Fragment :=
  .loop (Look.not .atStatementEnd) .advance

/-- The program of every phrase. -/
def grammar : Phrase → Fragment
  | .script => scriptBody
  | .simpleStatement => simpleStatementBody
  | .restOfStatement => restOfStatementBody
  | .expr power => exprBody power
  | .exprIs => exprIsBody
  | .predicate => predicateBody
  | .bitExpr power => bitExprBody power
  | .simpleExpr => simpleExprBody
  | .operand => operandBody
  | .exprList => exprListBody
  | .literal => literalBody
  | .functionCall => functionCallBody
  | .sumExpr => sumExprBody
  | .frame depth => frameBody depth
  | .selectStatement => selectStatementBody
  | .queryExpression => queryExpressionBody
  | .querySpecification => querySpecificationBody
  | .queryParens => queryParensBody
  | .subquery => subqueryBody
  | .selectItem => selectItemBody
  | .orderClause => orderClauseBody
  | .lockingClauses => lockingClausesBody
  | .tableReferenceList => tableReferenceListBody
  | .tableFactor => tableFactorBody
  | .derivedTable => derivedTableBody
  | .insertStatement => insertStatementBody
  | .replaceStatement => replaceStatementBody
  | .insertSource => insertSourceBody
  | .updateList => updateListBody
  | .updateStatement => updateStatementBody
  | .deleteStatement => deleteStatementBody
  | .createStatement => createStatementBody
  | .createTable => createTableBody
  | .columnDefinition => columnDefinitionBody
  | .columnAttribute => columnAttributeBody
  | .tableConstraint => tableConstraintBody
  | .keyList => keyListBody
  | .createView => createViewBody
  | .createIndex => createIndexBody
  | .createDatabase => createDatabaseBody
  | .databaseOptions => databaseOptionsBody
  | .dropStatement => dropStatementBody
  | .alterStatement => alterStatementBody
  | .alterItem => alterItemBody
  | .alterTokens depth => alterTokensBody depth
  | .setStatement => setStatementBody
  | .optionValue => optionValueBody
  | .transactionStatement => transactionStatementBody
  | .transactionOptions => transactionOptionsBody
  | .showStatement => showStatementBody
  | .describeStatement => describeStatementBody
  | .explainStatement => explainStatementBody

end MySqlAnalysis.Grammar
