import MySqlAnalysis.Grammar.Name

/-!
# Expressions

Logical operators and bit operators are read by precedence: each has a power to
its left and a larger one to its right, which makes it associate to the left.
Comparisons, predicates and simple expressions lie between the two.
-/

set_option autoImplicit false

namespace MySqlAnalysis.Grammar

open Program

/-- Any expression. -/
def expression : Fragment := .call (.expr 0)

/-! ### Precedence -/

/-- Operators of one precedence. -/
structure Level where
  /-- The rule of the node that an operator builds. -/
  rule : Rule
  operators : List TokenKind
  left : Nat
  right : Nat

/-- The logical operators, loosest first. -/
def logicalLevels : List Level :=
  [⟨.exprOr, [.keyword .OR, .logicalOr], 1, 2⟩,
   ⟨.exprXor, [.keyword .XOR], 3, 4⟩,
   ⟨.exprAnd, [.keyword .AND, .doubleAmpersand], 5, 6⟩]

/-- The power to the right of a `NOT` in front of an expression. -/
def notPower : Nat := 7

/-- The bit operators, loosest first. -/
def bitLevels : List Level :=
  [⟨.bitExpr, [.bar], 1, 2⟩,
   ⟨.bitExpr, [.ampersand], 3, 4⟩,
   ⟨.bitExpr, [.shiftLeft, .shiftRight], 5, 6⟩,
   ⟨.bitExpr, [.plus, .minus], 7, 8⟩,
   ⟨.bitExpr, [.star, .slash, .percent, .keyword .DIV, .keyword .MOD], 9, 10⟩,
   ⟨.bitExpr, [.caret], 11, 12⟩]

/-- The operators of the levels that bind at least as tight as `power`. -/
def operatorsFrom (levels : List Level) (power : Nat) : List TokenKind :=
  (levels.filter fun level => power ≤ level.left).flatMap Level.operators

/-- Operators that bind at least as tight as `power`, each with the operand that
follows it, after a first operand that was already read. -/
def operations (levels : List Level) (power : Nat) (operand : Level → Fragment) : Fragment :=
  .loop (Look.among 0 (operatorsFrom levels power))
    (choose
      (levels.map fun level =>
        (.among 0 level.operators, .wrap level.rule (steps [.advance, operand level])))
      .done)

/-- The body of `Phrase.expr`. -/
def exprBody (power : Nat) : Fragment :=
  steps
    [.cond (.both (.word [.NOT]) (Look.not (.mode .highNotPrecedence)))
       (.node .exprNot (steps [.advance, .call (.expr notPower)]))
       (.call .exprIs),
     operations logicalLevels power fun level => .call (.expr level.right)]

/-- The operand after a bit operator; a sum can have an interval. -/
def bitOperand (level : Level) : Fragment :=
  if level.operators.contains .plus then
    .cond (Look.word [.INTERVAL])
      (steps [.advance, expression, intervalUnit])
      (.call (.bitExpr level.right))
  else .call (.bitExpr level.right)

/-- The body of `Phrase.bitExpr`. -/
def bitExprBody (power : Nat) : Fragment :=
  steps [.node .bitExpr (.call .simpleExpr), operations bitLevels power bitOperand]

/-! ### Comparisons and predicates -/

/-- The words for truth values. -/
def truthWords : List Keyword := [.TRUE, .FALSE, .UNKNOWN]

/-- A test for null comes next. -/
def nullTestAhead : Look :=
  .both (.word [.IS])
    (.either (.wordAt 1 [.NULL]) (.both (.wordAt 1 [.NOT]) (.wordAt 2 [.NULL])))

/-- A comparison operator comes next. -/
def comparisonAhead : Look :=
  .among 0 [.equal, .nullSafeEqual, .greaterOrEqual, .greater, .lessOrEqual, .less, .notEqual]

/-- The body of `Phrase.exprIs`: a predicate with comparisons after it and an
optional test for a truth value. -/
def exprIsBody : Fragment :=
  .node .exprIs
    (steps
      [.node .primaryExprPredicate (.call .predicate),
       .loop (Look.either nullTestAhead comparisonAhead)
         (choose
           [(nullTestAhead,
             .wrap .primaryExprIsNull
               (steps [.advance, opt [.keyword .NOT], .expect (.keyword .NULL)])),
            (.both (.wordAt 1 [.ALL, .ANY, .SOME]) (.isAt 2 .openParen),
             .wrap .primaryExprAllAny (steps [leaf .compOp, .advance, .call .subquery]))]
           (.wrap .primaryExprCompare (steps [leaf .compOp, .call .predicate]))),
       ifHolds
         (.both (.word [.IS])
           (Look.either (.wordAt 1 truthWords) (.both (.wordAt 1 [.NOT]) (.wordAt 2 truthWords))))
         (steps [.advance, opt [.keyword .NOT], oneOf (words truthWords)])])

/-- The operators of predicates that can be negated. -/
def negatable : List Keyword := [.IN, .BETWEEN, .LIKE, .REGEXP, .RLIKE]

/-- The body of `Phrase.predicate`. -/
def predicateBody : Fragment :=
  .node .predicate
    (steps
      [.call (.bitExpr 0),
       .cond (.word [.SOUNDS])
         (steps [.advance, .expect (.keyword .LIKE), .call (.bitExpr 0)])
         (steps
           [ifHolds (Look.both (.word [.NOT]) (.wordAt 1 negatable)) .advance,
            choose
              [(.word [.IN],
                .node .predicateExprIn
                  (steps
                    [.advance,
                     .cond (Look.both (.is .openParen) (.wordAt 1 [.SELECT]))
                       (.call .subquery)
                       (steps [.expect .openParen, .call .exprList, .expect .closeParen])])),
               (.word [.BETWEEN],
                .node .predicateExprBetween
                  (steps
                    [.advance, .call (.bitExpr 0), .expect (.keyword .AND), .call .predicate])),
               (.word [.LIKE],
                .node .predicateExprLike
                  (steps
                    [.advance, .call .simpleExpr, after [.keyword .ESCAPE] (.call .simpleExpr)])),
               (.word [.REGEXP, .RLIKE],
                .node .predicateExprRegexp (steps [.advance, .call (.bitExpr 0)]))]
              .done])])

/-! ### Simple expressions -/

/-- The body of `Phrase.simpleExpr`: an operand with collations, concatenations
and paths into a document after it. -/
def simpleExprBody : Fragment :=
  steps
    [.call .operand,
     .loop (Look.among 0 [.keyword .COLLATE, .concatenation, .arrow, .doubleArrow])
       (choose
         [(.word [.COLLATE], .wrap .simpleExprCollate (steps [.advance, textOrIdentifier])),
          (.is .concatenation, .wrap .simpleExprConcat (steps [.advance, .call .operand]))]
         (.wrap .simpleExprJsonSeparator (steps [.advance, textLiteral])))]

/-- Expressions with commas between them. -/
def exprListBody : Fragment :=
  .node .exprList (commaList expression)

/-- A user variable, optionally assigned to, or a system variable. -/
def variableTerm : Fragment :=
  .node .variable
    (.cond (.is .userVariable)
      (steps [.advance, after [.assign] expression])
      (steps
        [.expect .atAt,
         ifHolds (Look.both (.word [.GLOBAL, .SESSION, .LOCAL, .PERSIST]) (.isAt 1 .dot))
           (steps [.advance, .advance]),
         anyIdentifier,
         after [.dot] anyIdentifier]))

/-- `CASE`, with or without an expression to compare with. -/
def caseExpr : Fragment :=
  let branch : Fragment :=
    steps
      [.node .whenExpression (steps [.expect (.keyword .WHEN), expression]),
       .node .thenExpression (steps [.expect (.keyword .THEN), expression])]
  .node .simpleExprCase
    (steps
      [.advance,
       unlessHolds (.word [.WHEN]) expression,
       branch,
       .loop (.word [.WHEN]) branch,
       ifHolds (.word [.ELSE]) (.node .elseExpression (steps [.advance, expression])),
       .expect (.keyword .END)])

/-- The target of a type conversion. -/
def castType : Fragment :=
  .node .castType
    (steps
      [oneOf
         (words
           [.BINARY, .CHAR, .NCHAR, .SIGNED, .UNSIGNED, .DATE, .TIME, .DATETIME, .DECIMAL, .JSON,
            .REAL, .DOUBLE, .FLOAT, .YEAR]),
       opt (words [.INT, .INTEGER, .PRECISION]),
       ifHolds (.is .openParen) fieldLength,
       .cond nextCharsetClause charsetClause (opt [.keyword .ASCII])])

/-- A type conversion; `target` is what stands between the expression and the
closing parenthesis. -/
def conversion (target : Fragment) : Fragment :=
  .node .simpleExprCast
    (steps [.advance, .expect .openParen, expression, target, .expect .closeParen])

/-- `CAST(expr AS type)`. -/
def castExpr : Fragment :=
  conversion (steps [.expect (.keyword .AS), castType])

/-- `CONVERT(expr, type)` or `CONVERT(expr USING charset)`. -/
def convertExpr : Fragment :=
  conversion
    (.cond (.word [.USING]) (steps [.advance, charsetName]) (steps [.expect .comma, castType]))

/-- A built-in function that is a keyword. -/
def runtimeFunctionCall : Fragment :=
  .node .runtimeFunctionCall
    (steps
      [.advance,
       after [.openParen]
         (steps
           [unlessHolds (.is .closeParen)
              (steps [.call .exprList, after [.keyword .USING] charsetName]),
            .expect .closeParen])])

/-- Keywords that are functions in front of a parenthesis. -/
def runtimeFunctions : List Keyword :=
  [.CHAR, .CHARSET, .COLLATION, .CURRENT_USER, .DATABASE, .DATE, .DAY, .FORMAT, .HOUR, .IF,
   .INSERT, .LEFT, .MICROSECOND, .MINUTE, .MOD, .MONTH, .PASSWORD, .QUARTER, .REPEAT, .REPLACE,
   .REVERSE, .RIGHT, .SCHEMA, .SECOND, .TIME, .TIMESTAMP, .TRUNCATE, .USER, .VALUES, .WEEK,
   .YEAR]

/-- Keywords that are functions without a parenthesis too. -/
def bareFunctions : List Keyword :=
  [.CURRENT_DATE, .CURRENT_TIME, .CURRENT_TIMESTAMP, .CURRENT_USER, .LOCALTIME,
   .LOCALTIMESTAMP, .UTC_DATE, .UTC_TIME, .UTC_TIMESTAMP]

/-- Keywords that are window functions in front of a parenthesis. -/
def windowFunctions : List Keyword :=
  [.CUME_DIST, .DENSE_RANK, .FIRST_VALUE, .LAG, .LAST_VALUE, .LEAD, .NTH_VALUE, .NTILE,
   .PERCENT_RANK, .RANK, .ROW_NUMBER]

/-- Names of aggregate functions. -/
def sumFunctions : List String :=
  ["AVG", "BIT_AND", "BIT_OR", "BIT_XOR", "COUNT", "GROUP_CONCAT", "JSON_ARRAYAGG",
   "JSON_OBJECTAGG", "MAX", "MIN", "STD", "STDDEV", "STDDEV_POP", "STDDEV_SAMP", "SUM",
   "VARIANCE", "VAR_POP", "VAR_SAMP"]

/-- A name attached to its parenthesis can be a built-in function. -/
def builtinAhead : Look :=
  .both (.among 0 [.identifier, .keyword .AVG]) (.either .adjacent (.mode .ignoreSpace))

/-- The body of `Phrase.operand`. -/
def operandBody : Fragment :=
  choose
    [(.among 0 [.userVariable, .atAt], .node .simpleExprVariable variableTerm),
     (.is .parameter, leaf .simpleExprParamMarker),
     (.among 0 [.plus, .minus, .tilde],
      .node .simpleExprUnary (steps [.advance, .call .simpleExpr])),
     (.is .bang, .node .simpleExprNot (steps [.advance, .call .simpleExpr])),
     (.both (.word [.NOT]) (.mode .highNotPrecedence),
      .node .simpleExprNot (steps [.advance, .call .simpleExpr])),
     (.both (.is .openParen) (.wordAt 1 [.SELECT]), .node .simpleExprSubQuery (.call .subquery)),
     (.is .openParen,
      .node .simpleExprList (steps [.advance, .call .exprList, .expect .closeParen])),
     (.word [.EXISTS], .node .simpleExprExists (steps [.advance, .call .subquery])),
     (.word [.CASE], caseExpr),
     (.word [.BINARY], .node .simpleExprBinary (steps [.advance, .call .simpleExpr])),
     (.both (.word [.CONVERT]) (.isAt 1 .openParen), convertExpr),
     (.word [.INTERVAL],
      .node .simpleExprInterval
        (steps [.advance, expression, intervalUnit, after [.plus] expression])),
     (.both (.word [.DEFAULT]) (.isAt 1 .openParen),
      .node .simpleExprDefault
        (steps [.advance, .expect .openParen, columnRef, .expect .closeParen])),
     (.both (.word [.DATE, .TIME, .TIMESTAMP]) (.isAt 1 .singleQuoted),
      .node .simpleExprLiteral (.call .literal)),
     (.both (.word windowFunctions) (.isAt 1 .openParen), .node .simpleExprSum (.call .sumExpr)),
     (.either (.both (.word runtimeFunctions) (.isAt 1 .openParen)) (.word bareFunctions),
      .node .simpleExprRuntimeFunction runtimeFunctionCall),
     (.among 0
        [.singleQuoted,
         .doubleQuoted,
         .national,
         .charsetIntroducer,
         .integer,
         .decimal,
         .float,
         .hex,
         .binary,
         .keyword .TRUE,
         .keyword .FALSE,
         .keyword .NULL],
      .node .simpleExprLiteral (.call .literal)),
     (.both (.name 0) (.isAt 1 .openParen),
      choose
        [(.both builtinAhead (.spelled ["CAST"]), castExpr),
         (.both builtinAhead (.spelled sumFunctions), .node .simpleExprSum (.call .sumExpr))]
        (.node .simpleExprFunction (.call .functionCall))),
     (.both (.name 0) (.both (.isAt 1 .dot) (.both (.name 2) (.isAt 3 .openParen))),
      .node .simpleExprFunction (.call .functionCall)),
     (.name 0, .node .simpleExprColumnRef columnRef)]
    (noAlternative [.identifier, .integer, .singleQuoted, .openParen, .minus])

/-- The body of `Phrase.literal`. -/
def literalBody : Fragment :=
  .node .literal
    (choose
      [(.both (.is .charsetIntroducer) (.among 1 [.hex, .binary]), steps [.advance, .advance]),
       (.among 0 [.singleQuoted, .doubleQuoted, .national, .charsetIntroducer], textLiteral),
       (.among 0 [.integer, .decimal, .float], leaf .numLiteral),
       (.among 0 [.hex, .binary], .advance),
       (.word [.TRUE, .FALSE], leaf .boolLiteral),
       (.word [.NULL], leaf .nullLiteral),
       (.word [.DATE, .TIME, .TIMESTAMP],
        .node .temporalLiteral (steps [.advance, .expect .singleQuoted]))]
      (noAlternative [.singleQuoted, .integer, .keyword .NULL]))

/-! ### Functions -/

/-- Arguments of an ordinary function, each with an optional alias. -/
def functionArguments : Fragment :=
  .node .udfExprList
    (commaList (.node .udfExpr (steps [expression, after [.keyword .AS] textOrIdentifier])))

/-- Arguments of `TRIM` after an optional position. -/
def trimArguments (positional : Bool) : Fragment :=
  steps
    [unlessHolds (.word [.FROM]) expression,
     .cond (.word [.FROM])
       (steps [.advance, expression])
       (if positional then expression else .done)]

/-- A function name, the parenthesis and its arguments. -/
def callWith (arguments : Fragment) : Fragment :=
  steps
    [identifier,
     after [.dot] identifier,
     .expect .openParen,
     unlessHolds (.is .closeParen) arguments,
     .expect .closeParen]

/-- The body of `Phrase.functionCall`. A few functions have arguments with
keywords between them. -/
def functionCallBody : Fragment :=
  .node .functionCall
    (choose
      [(.spelled ["EXTRACT"],
        callWith (steps [intervalUnit, .expect (.keyword .FROM), expression])),
       (.spelled ["POSITION"],
        callWith (steps [.call (.bitExpr 0), .expect (.keyword .IN), expression])),
       (.spelled ["TRIM"],
        callWith
          (.cond (.word [.LEADING, .TRAILING, .BOTH])
            (steps [.advance, trimArguments true])
            (trimArguments false))),
       (.spelled ["SUBSTRING", "SUBSTR", "MID"],
        callWith
          (steps
            [expression,
             .cond (.word [.FROM])
               (steps [.advance, expression, after [.keyword .FOR] expression])
               (.loop (.is .comma) (steps [.advance, expression]))]))]
      (callWith functionArguments))

/-- `OVER` and a window, named or described. -/
def windowingClause : Fragment :=
  .node .windowingClause
    (steps
      [.advance,
       .cond (.is .openParen)
         (steps
           [.advance,
            ifHolds .nextName identifier,
            after [.keyword .PARTITION] (steps [.expect (.keyword .BY), .call .exprList]),
            ifHolds (.word [.ORDER]) (.call .orderClause),
            .call (.frame 0),
            .expect .closeParen])
         identifier])

/-- The body of `Phrase.frame`. -/
def frameBody (depth : Nat) : Fragment :=
  choose
    [(.atStatementEnd, .done),
     (.is .closeParen,
      match depth with
      | 0 => .done
      | depth + 1 => steps [.advance, .call (.frame depth)]),
     (.is .openParen, steps [.advance, .call (.frame (depth + 1))])]
    (steps [.advance, .call (.frame depth)])

/-- The body of `Phrase.sumExpr`: an aggregate or window function. -/
def sumExprBody : Fragment :=
  .node .sumExpr
    (steps
      [.advance,
       .expect .openParen,
       opt (words [.DISTINCT, .ALL]),
       .cond (.is .star) .advance (unlessHolds (.is .closeParen) (.call .exprList)),
       ifHolds (.word [.ORDER]) (.call .orderClause),
       after [.keyword .SEPARATOR] textLiteral,
       .expect .closeParen,
       ifHolds (.word [.OVER]) windowingClause])

end MySqlAnalysis.Grammar
