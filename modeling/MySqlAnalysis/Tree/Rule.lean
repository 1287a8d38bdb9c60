/-!
# Grammar rules

The rules that the nodes of a syntax tree are labelled with.
-/

set_option autoImplicit false

namespace MySqlAnalysis

/-- A rule of the grammar. -/
inductive Rule where
  | query | simpleStatement | selectStatement | withClause | commonTableExpression
  | queryExpression | queryExpressionBody | queryExpressionParens | querySpecification | subquery
  | selectOption | selectItemList | selectItem | selectAlias | tableWild | intoClause | fromClause
  | tableReferenceList | tableReference | tableFactor | singleTable | derivedTable
  | tableReferenceListParens | joinedTable | tableRef | tableAlias | indexHint | whereClause
  | groupByClause | havingClause | orderClause | orderExpression | limitClause | limitOptions
  | lockingClause | insertStatement | replaceStatement | insertFromConstructor | fields
  | insertValues | valueList | values | insertQueryExpression | insertUpdateList | updateList
  | updateElement | updateStatement | deleteStatement | createStatement | createTable
  | tableElementList | columnDefinition | columnName | dataType | columnAttribute
  | tableConstraintDef | keyList | createIndex | createDatabase | createView | createRole
  | roleList | dropStatement | dropTable | dropDatabase | dropIndex | dropView | dropRole
  | alterTable | alterListItem | truncateTable | renameTable | renamePair | tableName
  | tableRefList | schemaName | schemaRef | ifExists | ifNotExists | useCommand | setStatement
  | optionValue | transactionStatement | savepointStatement | showStatement | describeStatement
  | explainStatement | otherStatement | exprOr | exprXor | exprAnd | exprNot | exprIs
  | primaryExprPredicate | primaryExprIsNull | primaryExprCompare | primaryExprAllAny | compOp
  | predicate | predicateExprIn | predicateExprBetween | predicateExprLike | predicateExprRegexp
  | bitExpr | simpleExprVariable | simpleExprColumnRef | simpleExprRuntimeFunction
  | simpleExprFunction | simpleExprCollate | simpleExprLiteral | simpleExprParamMarker
  | simpleExprSum | simpleExprConcat | simpleExprUnary | simpleExprNot | simpleExprList
  | simpleExprSubQuery | simpleExprExists | simpleExprCase | simpleExprCast | simpleExprInterval
  | simpleExprBinary | simpleExprDefault | simpleExprJsonSeparator | exprList | literal
  | textLiteral | numLiteral | boolLiteral | nullLiteral | temporalLiteral | columnRef
  | functionCall | runtimeFunctionCall | sumExpr | windowingClause | udfExprList | udfExpr
  | whenExpression | thenExpression | elseExpression | castType | interval | variable | identifier
  deriving DecidableEq

/-- The name of a rule. -/
def Rule.name : Rule → String
  | .query => "query"
  | .simpleStatement => "simpleStatement"
  | .selectStatement => "selectStatement"
  | .withClause => "withClause"
  | .commonTableExpression => "commonTableExpression"
  | .queryExpression => "queryExpression"
  | .queryExpressionBody => "queryExpressionBody"
  | .queryExpressionParens => "queryExpressionParens"
  | .querySpecification => "querySpecification"
  | .subquery => "subquery"
  | .selectOption => "selectOption"
  | .selectItemList => "selectItemList"
  | .selectItem => "selectItem"
  | .selectAlias => "selectAlias"
  | .tableWild => "tableWild"
  | .intoClause => "intoClause"
  | .fromClause => "fromClause"
  | .tableReferenceList => "tableReferenceList"
  | .tableReference => "tableReference"
  | .tableFactor => "tableFactor"
  | .singleTable => "singleTable"
  | .derivedTable => "derivedTable"
  | .tableReferenceListParens => "tableReferenceListParens"
  | .joinedTable => "joinedTable"
  | .tableRef => "tableRef"
  | .tableAlias => "tableAlias"
  | .indexHint => "indexHint"
  | .whereClause => "whereClause"
  | .groupByClause => "groupByClause"
  | .havingClause => "havingClause"
  | .orderClause => "orderClause"
  | .orderExpression => "orderExpression"
  | .limitClause => "limitClause"
  | .limitOptions => "limitOptions"
  | .lockingClause => "lockingClause"
  | .insertStatement => "insertStatement"
  | .replaceStatement => "replaceStatement"
  | .insertFromConstructor => "insertFromConstructor"
  | .fields => "fields"
  | .insertValues => "insertValues"
  | .valueList => "valueList"
  | .values => "values"
  | .insertQueryExpression => "insertQueryExpression"
  | .insertUpdateList => "insertUpdateList"
  | .updateList => "updateList"
  | .updateElement => "updateElement"
  | .updateStatement => "updateStatement"
  | .deleteStatement => "deleteStatement"
  | .createStatement => "createStatement"
  | .createTable => "createTable"
  | .tableElementList => "tableElementList"
  | .columnDefinition => "columnDefinition"
  | .columnName => "columnName"
  | .dataType => "dataType"
  | .columnAttribute => "columnAttribute"
  | .tableConstraintDef => "tableConstraintDef"
  | .keyList => "keyList"
  | .createIndex => "createIndex"
  | .createDatabase => "createDatabase"
  | .createView => "createView"
  | .createRole => "createRole"
  | .roleList => "roleList"
  | .dropStatement => "dropStatement"
  | .dropTable => "dropTable"
  | .dropDatabase => "dropDatabase"
  | .dropIndex => "dropIndex"
  | .dropView => "dropView"
  | .dropRole => "dropRole"
  | .alterTable => "alterTable"
  | .alterListItem => "alterListItem"
  | .truncateTable => "truncateTable"
  | .renameTable => "renameTable"
  | .renamePair => "renamePair"
  | .tableName => "tableName"
  | .tableRefList => "tableRefList"
  | .schemaName => "schemaName"
  | .schemaRef => "schemaRef"
  | .ifExists => "ifExists"
  | .ifNotExists => "ifNotExists"
  | .useCommand => "useCommand"
  | .setStatement => "setStatement"
  | .optionValue => "optionValue"
  | .transactionStatement => "transactionStatement"
  | .savepointStatement => "savepointStatement"
  | .showStatement => "showStatement"
  | .describeStatement => "describeStatement"
  | .explainStatement => "explainStatement"
  | .otherStatement => "otherStatement"
  | .exprOr => "exprOr"
  | .exprXor => "exprXor"
  | .exprAnd => "exprAnd"
  | .exprNot => "exprNot"
  | .exprIs => "exprIs"
  | .primaryExprPredicate => "primaryExprPredicate"
  | .primaryExprIsNull => "primaryExprIsNull"
  | .primaryExprCompare => "primaryExprCompare"
  | .primaryExprAllAny => "primaryExprAllAny"
  | .compOp => "compOp"
  | .predicate => "predicate"
  | .predicateExprIn => "predicateExprIn"
  | .predicateExprBetween => "predicateExprBetween"
  | .predicateExprLike => "predicateExprLike"
  | .predicateExprRegexp => "predicateExprRegexp"
  | .bitExpr => "bitExpr"
  | .simpleExprVariable => "simpleExprVariable"
  | .simpleExprColumnRef => "simpleExprColumnRef"
  | .simpleExprRuntimeFunction => "simpleExprRuntimeFunction"
  | .simpleExprFunction => "simpleExprFunction"
  | .simpleExprCollate => "simpleExprCollate"
  | .simpleExprLiteral => "simpleExprLiteral"
  | .simpleExprParamMarker => "simpleExprParamMarker"
  | .simpleExprSum => "simpleExprSum"
  | .simpleExprConcat => "simpleExprConcat"
  | .simpleExprUnary => "simpleExprUnary"
  | .simpleExprNot => "simpleExprNot"
  | .simpleExprList => "simpleExprList"
  | .simpleExprSubQuery => "simpleExprSubQuery"
  | .simpleExprExists => "simpleExprExists"
  | .simpleExprCase => "simpleExprCase"
  | .simpleExprCast => "simpleExprCast"
  | .simpleExprInterval => "simpleExprInterval"
  | .simpleExprBinary => "simpleExprBinary"
  | .simpleExprDefault => "simpleExprDefault"
  | .simpleExprJsonSeparator => "simpleExprJsonSeparator"
  | .exprList => "exprList"
  | .literal => "literal"
  | .textLiteral => "textLiteral"
  | .numLiteral => "numLiteral"
  | .boolLiteral => "boolLiteral"
  | .nullLiteral => "nullLiteral"
  | .temporalLiteral => "temporalLiteral"
  | .columnRef => "columnRef"
  | .functionCall => "functionCall"
  | .runtimeFunctionCall => "runtimeFunctionCall"
  | .sumExpr => "sumExpr"
  | .windowingClause => "windowingClause"
  | .udfExprList => "udfExprList"
  | .udfExpr => "udfExpr"
  | .whenExpression => "whenExpression"
  | .thenExpression => "thenExpression"
  | .elseExpression => "elseExpression"
  | .castType => "castType"
  | .interval => "interval"
  | .variable => "variable"
  | .identifier => "identifier"

end MySqlAnalysis
