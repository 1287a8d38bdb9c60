import MySqlAnalysis.Grammar.Phrase
import MySqlAnalysis.Grammar.Program

/-!
# Names and strings

Identifiers, qualified names, string literals and character set names: the
phrases that contain no other phrase.
-/

set_option autoImplicit false

namespace MySqlAnalysis.Grammar

open Program

/-- A program over the phrases of the grammar. -/
abbrev Fragment := Program Phrase

/-- An identifier. -/
def identifier : Fragment :=
  .node .identifier (.cond .nextName .advance (.refuse .mismatch))

/-- An identifier where reserved words are allowed too, such as after a point. -/
def anyIdentifier : Fragment :=
  .node .identifier
    (.cond (.either .nextName (Look.keyword 0)) .advance (.refuse .mismatch))

/-- One or more adjacent strings, optionally introduced by a character set. -/
def textLiteral : Fragment :=
  .node .textLiteral
    (steps
      [.cond (.is .national) .advance
         (steps [opt [.charsetIntroducer], oneOf [.singleQuoted, .doubleQuoted]]),
       .loop (Look.among 0 [.singleQuoted, .doubleQuoted]) .advance])

/-- A string or an identifier. -/
def textOrIdentifier : Fragment :=
  .cond .nextText textLiteral identifier

/-- The name of a character set or collation. -/
def charsetName : Fragment :=
  .cond (.word [.BINARY]) .advance (.cond (.word [.DEFAULT]) .advance textOrIdentifier)

/-- A character set clause comes next. -/
def nextCharsetClause : Test :=
  .either (.word [.CHARSET]) (Look.both (.word [.CHARACTER, .CHAR]) (.wordAt 1 [.SET]))

/-- `CHARSET name`, `CHAR SET name` or `CHARACTER SET name`. -/
def charsetClause : Fragment :=
  steps
    [.cond (.word [.CHARSET]) .advance
       (steps [oneOf (words [.CHARACTER, .CHAR]), .expect (.keyword .SET)]),
     opt [.equal],
     charsetName]

/-- A column with up to two qualifiers. -/
def columnRef : Fragment :=
  .node .columnRef
    (steps [identifier, after [.dot] (steps [anyIdentifier, after [.dot] anyIdentifier])])

/-- A name with an optional qualifier, not followed by a star. -/
def qualifiedIdentifier : Fragment :=
  steps
    [identifier,
     ifHolds (Look.both (.is .dot) (.not (.isAt 1 .star))) (steps [.advance, anyIdentifier])]

/-- A table that is used. -/
def tableRef : Fragment := .node .tableRef qualifiedIdentifier

/-- A table that is defined. -/
def tableName : Fragment := .node .tableName qualifiedIdentifier

/-- Tables with commas between them. -/
def tableRefList : Fragment := .node .tableRefList (commaList tableRef)

/-- A schema that is used. -/
def schemaRef : Fragment := .node .schemaRef identifier

/-- Identifiers in parentheses. -/
def identifierListInParens : Fragment :=
  steps [.expect .openParen, commaList identifier, .expect .closeParen]

/-- A table alias comes next. -/
def nextTableAlias : Test :=
  .either (.word [.AS]) (.either (.is .equal) .nextName)

/-- An alias of a table. -/
def tableAlias : Fragment :=
  .node .tableAlias (steps [.cond (.word [.AS]) .advance (opt [.equal]), identifier])

/-- A length, or a length and a number of decimals, in parentheses. -/
def fieldLength : Fragment :=
  steps
    [.expect .openParen, .expect .integer, after [.comma] (.expect .integer), .expect .closeParen]

/-- A user name, with an optional host, or the current user. -/
def user : Fragment :=
  .cond (.word [.CURRENT_USER])
    (steps [.advance, after [.openParen] (.expect .closeParen)])
    (steps [textOrIdentifier, opt [.userVariable]])

/-- A unit of time. -/
def intervalUnit : Fragment :=
  .node .interval
    (oneOf (words
      [.MICROSECOND, .SECOND, .MINUTE, .HOUR, .DAY, .WEEK, .MONTH, .QUARTER, .YEAR,
       .SECOND_MICROSECOND, .MINUTE_MICROSECOND, .MINUTE_SECOND, .HOUR_MICROSECOND,
       .HOUR_SECOND, .HOUR_MINUTE, .DAY_MICROSECOND, .DAY_SECOND, .DAY_MINUTE, .DAY_HOUR,
       .YEAR_MONTH]))

/-- A statement that is read without structure. -/
def otherStatement : Fragment :=
  .node .otherStatement (steps [.advance, .call .restOfStatement])

end MySqlAnalysis.Grammar
