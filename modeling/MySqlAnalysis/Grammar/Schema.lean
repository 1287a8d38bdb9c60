import MySqlAnalysis.Grammar.Query

/-!
# Changing the schema

`CREATE`, `DROP`, `ALTER TABLE`, `TRUNCATE` and `RENAME`. Objects without
structure of their own are read as plain tokens.
-/

set_option autoImplicit false

namespace MySqlAnalysis.Grammar

open Program

/-- The objects listed when the word after `CREATE` or `DROP` is none. -/
def objectStarts : List TokenKind :=
  words [.TABLE, .DATABASE, .INDEX, .VIEW, .PROCEDURE, .FUNCTION, .TRIGGER, .USER]

/-- Objects whose definitions are read without structure. -/
def otherObjects : List Keyword :=
  [.AGGREGATE, .EVENT, .FUNCTION, .LOGFILE, .PROCEDURE, .SERVER, .TABLESPACE, .TRIGGER, .UNDO,
   .USER]

/-- The words that start a table constraint. -/
def constraintStarts : List Keyword :=
  [.CONSTRAINT, .PRIMARY, .UNIQUE, .INDEX, .KEY, .FULLTEXT, .SPATIAL, .FOREIGN, .CHECK]

/-- `IF NOT EXISTS`, if it comes next. -/
def ifNotExists : Fragment :=
  ifHolds (.word [.IF])
    (.node .ifNotExists (steps [.advance, .expect (.keyword .NOT), .expect (.keyword .EXISTS)]))

/-- `IF EXISTS`, if it comes next. -/
def ifExists : Fragment :=
  ifHolds (.word [.IF]) (.node .ifExists (steps [.advance, .expect (.keyword .EXISTS)]))

/-- An expression in parentheses. -/
def exprInParens : Fragment :=
  steps [.expect .openParen, expression, .expect .closeParen]

/-- A default: an expression in parentheses or a simple expression. -/
def defaultValue : Fragment :=
  .cond (.is .openParen) (steps [.advance, expression, .expect .closeParen]) (.call .simpleExpr)

/-! ### Columns -/

/-- Names of data types. -/
def dataTypes : List Keyword :=
  [.INT, .INTEGER, .TINYINT, .SMALLINT, .MEDIUMINT, .MIDDLEINT, .BIGINT, .INT1, .INT2, .INT3,
   .INT4, .INT8, .DECIMAL, .DEC, .NUMERIC, .FIXED, .FLOAT, .FLOAT4, .FLOAT8, .DOUBLE, .REAL,
   .BIT, .BOOL, .BOOLEAN, .SERIAL, .CHAR, .CHARACTER, .NCHAR, .NATIONAL, .VARCHAR,
   .VARCHARACTER, .NVARCHAR, .BINARY, .VARBINARY, .TINYTEXT, .TEXT, .MEDIUMTEXT, .LONGTEXT,
   .LONG, .TINYBLOB, .BLOB, .MEDIUMBLOB, .LONGBLOB, .DATE, .TIME, .TIMESTAMP, .DATETIME, .YEAR,
   .ENUM, .SET, .JSON]

/-- The length, sign and character set of a data type. -/
def dataTypeOptions : Fragment :=
  steps
    [opt (words [.VARYING, .PRECISION]),
     ifHolds (.is .openParen) fieldLength,
     .loop
       (.either (.word [.UNSIGNED, .SIGNED, .ZEROFILL])
         (.either nextCharsetClause (.word [.BINARY, .ASCII])))
       (.cond (Look.word [.UNSIGNED, .SIGNED, .ZEROFILL, .BINARY, .ASCII]) .advance
         charsetClause)]

/-- A data type after an optional `NATIONAL`; `names` are the types allowed then. -/
def dataTypeFrom (names : List Keyword) : Fragment :=
  .cond (.word [.LONG])
    (steps [.advance, opt (words [.VARCHAR, .VARBINARY]), dataTypeOptions])
    (.cond (Look.word [.ENUM, .SET])
      (steps [.advance, .expect .openParen, commaList textLiteral, .expect .closeParen])
      (steps [oneOf (words names), dataTypeOptions]))

/-- A data type. -/
def dataType : Fragment :=
  .node .dataType
    (.cond (.word [.NATIONAL])
      (steps [.advance, dataTypeFrom [.CHAR, .CHARACTER, .VARCHAR, .VARCHARACTER]])
      (dataTypeFrom dataTypes))

/-- A column attribute comes next. -/
def nextColumnAttribute : Test :=
  .either (Look.word [.NOT])
    (.word
      [.NULL, .DEFAULT, .ON, .AUTO_INCREMENT, .PRIMARY, .KEY, .UNIQUE, .COMMENT, .COLLATE,
       .GENERATED, .AS, .VIRTUAL, .STORED, .VISIBLE, .INVISIBLE, .CHECK, .REFERENCES, .SERIAL])

/-- What happens to a row when the row it refers to changes. -/
def referenceAction : Fragment :=
  steps
    [.advance,
     .advance,
     .cond (.word [.SET])
       (steps [.advance, oneOf (words [.NULL, .DEFAULT])])
       (.cond (.word [.NO])
         (steps [.advance, .expect (.keyword .ACTION)])
         (oneOf (words [.RESTRICT, .CASCADE])))]

/-- A reference to the columns of another table. -/
def references : Fragment :=
  steps
    [.expect (.keyword .REFERENCES),
     tableRef,
     ifHolds (.is .openParen) (.call .keyList),
     .loop (Look.both (.word [.ON]) (.wordAt 1 [.DELETE, .UPDATE])) referenceAction]

/-- The body of `Phrase.columnAttribute`. -/
def columnAttributeBody : Fragment :=
  .node .columnAttribute
    (choose
      [(.word [.NOT], steps [.advance, .expect (.keyword .NULL)]),
       (.word [.DEFAULT], steps [.advance, defaultValue]),
       (.word [.ON], steps [.advance, .expect (.keyword .UPDATE), .call .simpleExpr]),
       (.word [.PRIMARY], steps [.advance, .expect (.keyword .KEY)]),
       (.word [.UNIQUE], steps [.advance, opt [.keyword .KEY]]),
       (.word [.COMMENT], steps [.advance, textLiteral]),
       (.word [.COLLATE], steps [.advance, charsetName]),
       (.word [.GENERATED, .AS],
        steps
          [after [.keyword .GENERATED] (.expect (.keyword .ALWAYS)),
           .expect (.keyword .AS),
           exprInParens,
           opt (words [.VIRTUAL, .STORED])]),
       (.word [.CHECK], steps [.advance, exprInParens]),
       (.word [.REFERENCES], references),
       (.word [.SERIAL],
        steps [.advance, .expect (.keyword .DEFAULT), .expect (.keyword .VALUE)])]
      .advance)

/-- The body of `Phrase.columnDefinition`. -/
def columnDefinitionBody : Fragment :=
  .node .columnDefinition
    (steps
      [.node .columnName identifier,
       dataType,
       .loop nextColumnAttribute (.call .columnAttribute)])

/-! ### Keys and constraints -/

/-- The body of `Phrase.keyList`: columns or expressions in parentheses. -/
def keyListBody : Fragment :=
  .node .keyList
    (steps
      [.expect .openParen,
       commaList
         (steps
           [.cond (.is .openParen)
              (steps [.advance, expression, .expect .closeParen])
              (steps [identifier, ifHolds (.is .openParen) fieldLength]),
            opt (words [.ASC, .DESC])]),
       .expect .closeParen])

/-- The kind of an index. -/
def indexType : Fragment :=
  after [.keyword .USING] (oneOf (words [.BTREE, .HASH]))

/-- Options after the columns of an index. -/
def indexOptions : Fragment :=
  .loop (.word [.USING, .COMMENT, .KEY_BLOCK_SIZE, .VISIBLE, .INVISIBLE])
    (choose
      [(.word [.USING], indexType),
       (.word [.COMMENT], steps [.advance, textLiteral]),
       (.word [.KEY_BLOCK_SIZE], steps [.advance, opt [.equal], .expect .integer])]
      .advance)

/-- The body of `Phrase.tableConstraint`. -/
def tableConstraintBody : Fragment :=
  .node .tableConstraintDef
    (steps
      [after [.keyword .CONSTRAINT] (ifHolds .nextName identifier),
       .cond (.word [.CHECK])
         (steps
           [.advance,
            exprInParens,
            ifHolds (Look.word [.NOT]) .advance,
            ifHolds (.both .nextName (Look.spelled ["ENFORCED"])) .advance])
         (.cond (.word [.FOREIGN])
           (steps
             [.advance,
              .expect (.keyword .KEY),
              ifHolds .nextName identifier,
              .call .keyList,
              references])
           (steps
             [.cond (.word [.PRIMARY])
                (steps [.advance, .expect (.keyword .KEY)])
                (.cond (.word [.UNIQUE, .FULLTEXT, .SPATIAL])
                  (steps [.advance, opt (words [.INDEX, .KEY])])
                  (oneOf (words [.INDEX, .KEY]))),
              ifHolds .nextName identifier,
              indexType,
              .call .keyList,
              indexOptions]))])

/-- Algorithm and lock of an index operation, in any order. -/
def algorithmAndLock : Fragment :=
  .loop (.word [.ALGORITHM, .LOCK])
    (steps [.advance, opt [.equal], .cond (.word [.DEFAULT]) .advance identifier])

/-- The body of `Phrase.createIndex`. -/
def createIndexBody : Fragment :=
  .node .createIndex
    (steps
      [opt (words [.ONLINE, .OFFLINE]),
       opt (words [.UNIQUE, .FULLTEXT, .SPATIAL]),
       .expect (.keyword .INDEX),
       identifier,
       indexType,
       .expect (.keyword .ON),
       tableRef,
       .call .keyList,
       indexOptions,
       algorithmAndLock])

/-! ### Creating -/

/-- Options of a table that take one token as their value. -/
def tableOptionWords : List Keyword :=
  [.AUTO_INCREMENT, .AVG_ROW_LENGTH, .CHECKSUM, .COMMENT, .CONNECTION, .ENGINE,
   .KEY_BLOCK_SIZE, .MAX_ROWS, .MIN_ROWS, .PACK_KEYS, .PASSWORD, .ROW_FORMAT, .TABLESPACE]

/-- The value of a table option: any one token that does not end it. -/
def tableOptionValue : Fragment :=
  .cond (Look.among 0 [.eof, .semicolon, .comma, .closeParen]) (.refuse .mismatch) .advance

/-- A collation after its word. -/
def collation : Fragment :=
  steps [.advance, opt [.equal], charsetName]

/-- A default character set or collation comes next. -/
def defaultCharsetAhead : Look :=
  .both (.word [.DEFAULT]) (.wordAt 1 [.CHARSET, .CHARACTER, .CHAR, .COLLATE])

/-- Options of a table. -/
def tableOptions : Fragment :=
  .loop
    (.either defaultCharsetAhead
      (.either nextCharsetClause (.word (.COLLATE :: tableOptionWords))))
    (steps
      [.cond (.either defaultCharsetAhead nextCharsetClause)
         (steps [opt [.keyword .DEFAULT], .cond (.word [.COLLATE]) collation charsetClause])
         (.cond (.word [.COLLATE]) collation (steps [.advance, opt [.equal], tableOptionValue])),
       opt [.comma]])

/-- Columns and constraints of a table. -/
def tableElementList : Fragment :=
  .node .tableElementList
    (commaList
      (.cond (.word constraintStarts) (.call .tableConstraint) (.call .columnDefinition)))

/-- A query that fills a new table, if one follows. -/
def createTableQuery : Fragment :=
  .cond (.word [.AS])
    (steps [.advance, .call .queryExpression])
    (ifHolds (.either (.word [.SELECT, .WITH]) (.is .openParen)) (.call .queryExpression))

/-- The body of `Phrase.createTable`. -/
def createTableBody : Fragment :=
  .node .createTable
    (steps
      [opt [.keyword .TEMPORARY],
       .expect (.keyword .TABLE),
       ifNotExists,
       tableName,
       .cond (.word [.LIKE])
         (steps [.advance, tableRef])
         (.cond (Look.both (.is .openParen) (.wordAt 1 [.LIKE]))
           (steps [.advance, .advance, tableRef, .expect .closeParen])
           (steps
             [ifHolds
                (Look.both (.is .openParen)
                  (.not (.among 1 [.keyword .SELECT, .keyword .WITH, .openParen])))
                (steps [.advance, tableElementList, .expect .closeParen]),
              tableOptions,
              opt (words [.IGNORE, .REPLACE]),
              createTableQuery]))])

/-- The body of `Phrase.databaseOptions`. -/
def databaseOptionsBody : Fragment :=
  steps
    [opt [.keyword .DEFAULT],
     .cond nextCharsetClause
       (steps [charsetClause, .call .databaseOptions])
       (ifHolds (.word [.COLLATE]) (steps [collation, .call .databaseOptions]))]

/-- The body of `Phrase.createDatabase`. -/
def createDatabaseBody : Fragment :=
  .node .createDatabase
    (steps [.advance, ifNotExists, .node .schemaName identifier, .call .databaseOptions])

/-- The body of `Phrase.createView`. -/
def createViewBody : Fragment :=
  .node .createView
    (steps
      [after [.keyword .OR] (.expect (.keyword .REPLACE)),
       after [.keyword .ALGORITHM] (steps [.expect .equal, identifier]),
       after [.keyword .DEFINER] (steps [.expect .equal, user]),
       after [.keyword .SQL]
         (steps [.expect (.keyword .SECURITY), oneOf (words [.DEFINER, .INVOKER])]),
       .expect (.keyword .VIEW),
       tableName,
       ifHolds (.is .openParen) identifierListInParens,
       .expect (.keyword .AS),
       .call .queryExpression,
       ifHolds (Look.word [.WITH])
         (steps
           [.advance,
            opt (words [.CASCADED, .LOCAL]),
            .expect (.keyword .CHECK),
            .expect (.keyword .OPTION)])])

/-- Roles with commas between them. -/
def roleList : Fragment :=
  .node .roleList (commaList user)

/-- A new role, known to servers from 8.0 on. -/
def createRole : Fragment :=
  .node .createRole
    (steps [require .createRole .v80, .expect (.keyword .ROLE), ifNotExists, roleList])

/-- The body of `Phrase.createStatement`. -/
def createStatementBody : Fragment :=
  .node .createStatement
    (steps
      [.expect (.keyword .CREATE),
       choose
         [(.word [.TABLE, .TEMPORARY], .call .createTable),
          (.word [.DATABASE, .SCHEMA], .call .createDatabase),
          (.word [.INDEX, .UNIQUE, .FULLTEXT, .SPATIAL, .ONLINE, .OFFLINE], .call .createIndex),
          (.word [.VIEW], .call .createView),
          (.word [.OR, .ALGORITHM, .DEFINER, .SQL],
           .cond (Look.inStatement .VIEW) (.call .createView) otherStatement),
          (.word [.ROLE], createRole),
          (.word otherObjects, otherStatement)]
         (noAlternative objectStarts)])

/-! ### Dropping, truncating and renaming -/

/-- What to do with the objects that depend on a dropped one. -/
def dropBehaviour : Fragment := opt (words [.RESTRICT, .CASCADE])

/-- The body of `Phrase.dropStatement`. -/
def dropStatementBody : Fragment :=
  .node .dropStatement
    (steps
      [.expect (.keyword .DROP),
       choose
         [(.word [.TABLE, .TABLES, .TEMPORARY],
           .node .dropTable
             (steps
               [opt [.keyword .TEMPORARY],
                oneOf (words [.TABLE, .TABLES]),
                ifExists,
                tableRefList,
                dropBehaviour])),
          (.word [.DATABASE, .SCHEMA],
           .node .dropDatabase (steps [.advance, ifExists, schemaRef])),
          (.word [.INDEX, .ONLINE, .OFFLINE],
           .node .dropIndex
             (steps
               [opt (words [.ONLINE, .OFFLINE]),
                .expect (.keyword .INDEX),
                identifier,
                .expect (.keyword .ON),
                tableRef,
                algorithmAndLock])),
          (.word [.VIEW],
           .node .dropView (steps [.advance, ifExists, tableRefList, dropBehaviour])),
          (.word [.ROLE],
           .node .dropRole (steps [require .dropRole .v80, .advance, ifExists, roleList])),
          (.word otherObjects, otherStatement)]
         (noAlternative objectStarts)])

/-- `TRUNCATE`. -/
def truncateTable : Fragment :=
  .node .truncateTable (steps [.expect (.keyword .TRUNCATE), opt [.keyword .TABLE], tableRef])

/-- `RENAME` of tables; other objects are read without structure. -/
def renameStatement : Fragment :=
  .cond (Look.wordAt 1 [.TABLE, .TABLES])
    (.node .renameTable
      (steps
        [.advance,
         .advance,
         commaList (.node .renamePair (steps [tableRef, .expect (.keyword .TO), tableName]))]))
    otherStatement

/-! ### Altering -/

/-- Where a column goes. -/
def columnPosition : Fragment :=
  .cond (.word [.AFTER]) (steps [.advance, identifier]) (opt [.keyword .FIRST])

/-- The body of `Phrase.alterTokens`. -/
def alterTokensBody (depth : Nat) : Fragment :=
  choose
    [(.atStatementEnd, .done),
     (.is .comma,
      match depth with
      | 0 => .done
      | depth + 1 => steps [.advance, .call (.alterTokens (depth + 1))]),
     (.is .openParen, steps [.advance, .call (.alterTokens (depth + 1))]),
     (.is .closeParen, steps [.advance, .call (.alterTokens (depth - 1))])]
    (steps [.advance, .call (.alterTokens depth)])

/-- An alter action without structure. -/
def plainAlterItem : Fragment :=
  .cond (Look.among 0 [.semicolon, .eof, .comma]) (.refuse .mismatch) (.call (.alterTokens 0))

/-- The body of `Phrase.alterItem`. -/
def alterItemBody : Fragment :=
  .node .alterListItem
    (choose
      [(.word [.ADD],
        steps
          [.advance,
           .cond (.word constraintStarts)
             (.call .tableConstraint)
             (steps
               [opt [.keyword .COLUMN],
                .cond (.is .openParen)
                  (steps [.advance, commaList (.call .columnDefinition), .expect .closeParen])
                  (steps [.call .columnDefinition, columnPosition])])]),
       (.word [.DROP],
        steps
          [.advance,
           .cond (.word [.PRIMARY])
             (steps [.advance, .expect (.keyword .KEY)])
             (.cond (.word [.FOREIGN])
               (steps [.advance, .expect (.keyword .KEY), identifier])
               (steps
                 [.cond (.word [.INDEX, .KEY, .CHECK]) .advance (opt [.keyword .COLUMN]),
                  identifier,
                  dropBehaviour]))]),
       (.word [.MODIFY],
        steps [.advance, opt [.keyword .COLUMN], .call .columnDefinition, columnPosition]),
       (.word [.CHANGE],
        steps
          [.advance,
           opt [.keyword .COLUMN],
           identifier,
           .call .columnDefinition,
           columnPosition]),
       (.word [.RENAME],
        steps
          [.advance,
           .cond (.word [.COLUMN, .INDEX, .KEY])
             (steps [.advance, identifier, .expect (.keyword .TO), identifier])
             (steps [opt (words [.TO, .AS]), tableName])]),
       (.word [.ALTER],
        steps
          [.advance,
           opt [.keyword .COLUMN],
           identifier,
           .cond (.word [.SET])
             (steps
               [.advance,
                .cond (.word [.DEFAULT])
                  (steps [.advance, defaultValue])
                  (oneOf (words [.VISIBLE, .INVISIBLE]))])
             (steps [.expect (.keyword .DROP), .expect (.keyword .DEFAULT)])])]
      plainAlterItem)

/-- The words between `ALTER` and `TABLE`. -/
def alterModifiers : List Keyword := [.ONLINE, .OFFLINE, .IGNORE]

/-- The body of `Phrase.alterStatement`: `ALTER TABLE`; other objects are read
without structure. -/
def alterStatementBody : Fragment :=
  .cond (Look.beyond 1 (words alterModifiers) [.keyword .TABLE])
    (.node .alterTable
      (steps
        [.expect (.keyword .ALTER),
         .loop (.word alterModifiers) .advance,
         .expect (.keyword .TABLE),
         tableRef,
         unlessHolds Look.atStatementEnd (commaList (.call .alterItem))]))
    otherStatement

end MySqlAnalysis.Grammar
