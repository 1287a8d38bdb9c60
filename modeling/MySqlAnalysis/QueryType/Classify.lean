import MySqlAnalysis.QueryType.Basic
import MySqlAnalysis.Token.Stream

/-!
# Classifying a statement

The kind of a statement is decided by its first significant words, so that
statements are classified which the grammar rejects or does not know. Words are
compared by their text; only quoted names, literals and operators are no words.

Tokens are asked for one by one, and only while the kind is undecided. A kind is
absent where the classifier asks for a token and the cursor never comes back.
-/

set_option autoImplicit false

namespace MySqlAnalysis

/-- What the classifier gets when it asks for a token. -/
inductive Step where
  /-- An unquoted identifier or a keyword, in upper case. -/
  | word (text : String) (isKeyword : Bool)
  | symbol (kind : TokenKind)
  /-- Nothing: the call never returns. -/
  | stuck
  deriving DecidableEq

namespace Step

/-- The step that a token stands for. -/
def ofToken (t : Token) : Step :=
  match t.kind with
  | .identifier => word t.upperText false
  | .keyword _ => word t.upperText true
  | kind => symbol kind

/-- What up to `n` calls of a cursor give. The end of the input is no step. -/
def ofCalls : (n : Nat) → TokenStream → List Step
  | 0, _ => []
  | n + 1, s =>
    match s.next? with
    | none => [stuck]
    | some (none, _) => []
    | some (some t, s) => if t.isEof then [] else ofToken t :: ofCalls n s

/-- What the calls of a cursor give. A call that gives a step uses a token up, so
one call more than there are tokens is enough. -/
def ofStream (s : TokenStream) : List Step :=
  ofCalls (s.ahead.length + 1) s

/-- The steps of a token list. -/
def ofTokens (tokens : List Token) : List Step :=
  ofStream (TokenStream.ofTokens tokens)

end Step

namespace QueryType

/-- Goes on with the next word. Without one the kind is undecided, and anything
else than a word is unknown. -/
def afterWord (steps : List Step) (decide : String → List Step → Option QueryType) :
    Option QueryType :=
  match steps with
  | [] => ambiguous
  | .word text _ :: rest => decide text rest
  | .symbol _ :: _ => unknown
  | .stuck :: _ => none

/-- Goes on with the next word, if the next step is one. -/
def afterOptionalWord (steps : List Step)
    (decide : Option String → List Step → Option QueryType) : Option QueryType :=
  match steps with
  | [] => decide none []
  | .word text _ :: rest => decide (some text) rest
  | .symbol _ :: rest => decide none rest
  | .stuck :: _ => none

/-- Parenthesised queries, and partition clauses. -/
def ofParenthesised : List Step → Option QueryType
  | [] => ambiguous
  | .symbol .openParen :: rest => ofParenthesised rest
  | .word "SELECT" _ :: _ => select
  | .word "WITH" _ :: _ => select
  | .stuck :: _ => none
  | _ => partition

/-- The words that can follow the definer of a stored object. -/
def isDefined (word : String) : Bool :=
  ["EVENT", "VIEW", "PROCEDURE", "FUNCTION", "TRIGGER", "SQL"].contains word

/-- Skips the account after the word for a definer and goes on with the word for
what is defined. -/
def afterDefiner (steps : List Step) (decide : String → List Step → Option QueryType) :
    Option QueryType :=
  match steps with
  | [] => ambiguous
  | .word text _ :: rest => if isDefined text then decide text rest else afterDefiner rest decide
  | .symbol _ :: rest => afterDefiner rest decide
  | .stuck :: _ => none

/-- Goes on with the next word, or with the one after a definer. -/
def afterObjectWord (steps : List Step) (decide : String → List Step → Option QueryType) :
    Option QueryType :=
  afterWord steps fun word rest =>
    if word == "DEFINER" then afterDefiner rest decide else decide word rest

/-- Statements that start with the word for a change. -/
def ofAlter (steps : List Step) : Option QueryType :=
  afterObjectWord steps fun word _ =>
    match word with
    | "DATABASE" | "SCHEMA" => alterDatabase
    | "LOGFILE" => alterLogFileGroup
    | "FUNCTION" => alterFunction
    | "PROCEDURE" => alterProcedure
    | "SERVER" => alterServer
    | "TABLE" | "ONLINE" | "OFFLINE" | "IGNORE" => alterTable
    | "TABLESPACE" => alterTableSpace
    | "EVENT" => alterEvent
    | "VIEW" | "ALGORITHM" | "SQL" => alterView
    | "USER" => alterUser
    | _ => unknown

/-- Function definitions. A loaded function has its return type right after its name. -/
def ofCreateFunction : List Step → Option QueryType
  | [] => ambiguous
  | .stuck :: _ => none
  | _ :: rest =>
    afterOptionalWord rest fun word _ =>
      if word == some "RETURNS" then createUdf else createFunction

/-- Statements that start with the word for a definition. -/
def ofCreate (steps : List Step) : Option QueryType :=
  afterObjectWord steps fun word rest =>
    match word with
    | "TEMPORARY" | "TABLE" => createTable
    | "ONLINE" | "OFFLINE" | "INDEX" | "UNIQUE" | "FULLTEXT" | "SPATIAL" => createIndex
    | "DATABASE" | "SCHEMA" => createDatabase
    | "EVENT" => createEvent
    | "VIEW" | "OR" | "ALGORITHM" | "SQL" => createView
    | "PROCEDURE" => createProcedure
    | "FUNCTION" => ofCreateFunction rest
    | "AGGREGATE" => createUdf
    | "TRIGGER" => createTrigger
    | "LOGFILE" => createLogFileGroup
    | "SERVER" => createServer
    | "TABLESPACE" | "UNDO" => createTableSpace
    | "USER" => createUser
    | "ROLE" => createRole
    | _ => unknown

/-- Statements that start with the word for a removal. -/
def ofDrop (steps : List Step) : Option QueryType :=
  afterWord steps fun word _ =>
    match word with
    | "DATABASE" | "SCHEMA" => dropDatabase
    | "EVENT" => dropEvent
    | "PROCEDURE" => dropProcedure
    | "FUNCTION" => dropFunction
    | "ONLINE" | "OFFLINE" | "INDEX" => dropIndex
    | "LOGFILE" => dropLogfileGroup
    | "SERVER" => dropServer
    | "TEMPORARY" | "TABLE" | "TABLES" => dropTable
    | "TABLESPACE" | "UNDO" => dropTablespace
    | "TRIGGER" => dropTrigger
    | "VIEW" => dropView
    | "PREPARE" => deallocate
    | "USER" => dropUser
    | "ROLE" => dropRole
    | _ => unknown

/-- The statement after common table expressions: the first deciding word
outside the parentheses that `depth` counts. -/
def ofWith (depth : Nat) : List Step → Option QueryType
  | [] => ambiguous
  | .symbol .openParen :: rest => ofWith (depth + 1) rest
  | .symbol .closeParen :: rest => ofWith (depth - 1) rest
  | .symbol _ :: rest => ofWith depth rest
  | .stuck :: _ => none
  | .word text _ :: rest =>
    if depth == 0 then
      match text with
      | "SELECT" => select
      | "UPDATE" => update
      | "DELETE" => delete
      | _ => ofWith depth rest
    else ofWith depth rest

/-- Statements that load something. -/
def ofLoad (steps : List Step) : Option QueryType :=
  afterWord steps fun word rest =>
    match word with
    | "DATA" =>
      afterOptionalWord rest fun word _ => if word == some "FROM" then loadDataMaster else loadData
    | "XML" => loadXml
    | "TABLE" => loadTableMaster
    | "INDEX" => loadIndex
    | _ => unknown

/-- Rollbacks, by the word for where they go back to. -/
def ofRollbackWord (word : Option String) : QueryType :=
  if word == some "TO" then rollbackSavePoint else rollbackWork

/-- Rollbacks, of the whole transaction or to a savepoint. -/
def ofRollback (steps : List Step) : Option QueryType :=
  afterOptionalWord steps fun word rest =>
    if word == some "WORK" then afterOptionalWord rest fun word _ => ofRollbackWord word
    else ofRollbackWord word

/-- The words for the scope of a variable. -/
def isScope (word : String) : Bool :=
  ["GLOBAL", "SESSION", "LOCAL", "PERSIST", "PERSIST_ONLY"].contains word

/-- Assignments of a system variable with this name. -/
def ofSystemVariable (name : String) : QueryType :=
  if name == "AUTOCOMMIT" then setAutoCommit else setVariable

/-- Assignments that start with two at signs, with or without a scope. -/
def ofSetSystem (steps : List Step) : Option QueryType :=
  afterWord steps fun name rest =>
    if isScope name then
      match rest with
      | .symbol .dot :: rest => afterWord rest fun name _ => ofSystemVariable name
      | .stuck :: _ => none
      | _ => setVariable
    else ofSystemVariable name

/-- Assignments. -/
def ofSet : List Step → Option QueryType
  | [] => ambiguous
  | .symbol .atAt :: rest => ofSetSystem rest
  | .symbol _ :: _ => setVariable
  | .stuck :: _ => none
  | .word text _ :: rest =>
    match text with
    | "PASSWORD" => setPassword
    | "TRANSACTION" => setTransaction
    | "AUTOCOMMIT" => setAutoCommit
    | _ =>
      if isScope text then
        afterWord rest fun word _ =>
          if word == "TRANSACTION" then setTransaction else ofSystemVariable word
      else setVariable

/-- Statements that clear the state of a server. -/
def ofReset (steps : List Step) : Option QueryType :=
  afterWord steps fun word _ =>
    match word with
    | "MASTER" => resetMaster
    | "SLAVE" | "REPLICA" => resetSlave
    | _ => reset

/-- Statements about privileges: `proxy` when the privilege is that of a proxy. -/
def ofPrivilege (plain proxy : QueryType) (steps : List Step) : Option QueryType :=
  afterWord steps fun word _ => if word == "PROXY" then proxy else plain

/-- Listings that count errors or warnings. -/
def ofShowCount (steps : List Step) : List TokenKind → Option QueryType
  | [] =>
    afterWord steps fun word _ =>
      match word with
      | "ERRORS" => showErrors
      | "WARNINGS" => showWarnings
      | _ => unknown
  | expected :: more =>
    match steps with
    | [] => ambiguous
    | .stuck :: _ => none
    | step :: rest => if step == .symbol expected then ofShowCount rest more else unknown

/-- Listings of the statement that defines an object. -/
def ofShowCreate (steps : List Step) : Option QueryType :=
  afterWord steps fun word _ =>
    match word with
    | "DATABASE" | "SCHEMA" => showCreateDatabase
    | "EVENT" => showCreateEvent
    | "FUNCTION" => showCreateFunction
    | "PROCEDURE" => showCreateProcedure
    | "TABLE" => showCreateTable
    | "TRIGGER" => showCreateTrigger
    | "VIEW" => showCreateView
    | _ => unknown

/-- Listings, by the word for what is listed. -/
def ofShowWord (word : String) (rest : List Step) : Option QueryType :=
  match word with
  | "AUTHORS" => showAuthors
  | "BINARY" | "MASTER" =>
    afterWord rest fun word _ =>
      match word with
      | "LOGS" => showBinLogs
      | "STATUS" => showMasterStatus
      | _ => unknown
  | "BINLOG" => showBinLogEvents
  | "RELAYLOG" => showRelayLogEvents
  | "CHAR" | "CHARACTER" | "CHARSET" => showCharset
  | "COLLATION" => showCollation
  | "COLUMNS" | "FIELDS" => showColumns
  | "CONTRIBUTORS" => showContributors
  | "COUNT" => ofShowCount rest [.openParen, .star, .closeParen]
  | "CREATE" => ofShowCreate rest
  | "DATABASES" | "SCHEMAS" => showDatabases
  | "ENGINE" => showEngineStatus
  | "STORAGE" | "ENGINES" => showStorageEngines
  | "ERRORS" => showErrors
  | "EVENTS" => showEvents
  | "FUNCTION" =>
    afterWord rest fun word _ => if word == "CODE" then showFunctionCode else showFunctionStatus
  | "PROCEDURE" =>
    afterWord rest fun word _ => if word == "CODE" then showProcedureCode else showProcedureStatus
  | "GRANTS" => showGrants
  | "INDEX" | "INDEXES" | "KEYS" => showIndexes
  | "INNODB" => showInnoDbStatus
  | "OPEN" => showOpenTables
  | "PLUGIN" | "PLUGINS" => showPlugins
  | "PRIVILEGES" => showPrivileges
  | "PROCESSLIST" => showProcessList
  | "PROFILE" => showProfile
  | "PROFILES" => showProfiles
  | "SLAVE" | "REPLICA" =>
    afterWord rest fun word _ =>
      match word with
      | "HOSTS" => showSlaveHosts
      | "STATUS" => showSlaveStatus
      | _ => unknown
  | "REPLICAS" => showSlaveHosts
  | "GLOBAL" | "SESSION" | "LOCAL" =>
    afterWord rest fun word _ =>
      match word with
      | "STATUS" => showStatus
      | "VARIABLES" => showVariables
      | _ => unknown
  | "STATUS" => showStatus
  | "VARIABLES" => showVariables
  | "TABLE" =>
    afterWord rest fun word _ => if word == "STATUS" then showTableStatus else unknown
  | "TABLES" => showTables
  | "TRIGGERS" => showTriggers
  | "WARNINGS" => showWarnings
  | _ => showOther

/-- Listings, in full or not. -/
def ofShow (steps : List Step) : Option QueryType :=
  afterWord steps fun word rest =>
    if word == "FULL" then afterWord rest ofShowWord else ofShowWord word rest

/-- The words that start a statement whose plan can be explained. -/
def isExplainable (word : String) : Bool :=
  ["SELECT", "WITH", "TABLE", "INSERT", "REPLACE", "UPDATE", "DELETE"].contains word

/-- Explanations that ask for more output in the old way. -/
def ofExplainMore : List Step → Option QueryType
  | [] => ambiguous
  | .symbol .openParen :: _ => explainStatement
  | .symbol _ :: _ => explainTable
  | .stuck :: _ => none
  | .word text _ :: _ => if isExplainable text then explainStatement else explainTable

/-- Explanations, of a table or of a statement. -/
def ofExplain : List Step → Option QueryType
  | [] => ambiguous
  | .symbol .openParen :: _ => explainStatement
  | .symbol .quotedIdentifier :: _ => explainTable
  | .symbol .doubleQuoted :: _ => explainTable
  | .symbol _ :: _ => unknown
  | .stuck :: _ => none
  | .word _ false :: _ => explainTable
  | .word text true :: rest =>
    match text with
    | "EXTENDED" | "PARTITIONS" => ofExplainMore rest
    | "FORMAT" | "ANALYZE" | "FOR" => explainStatement
    | _ => if isExplainable text then explainStatement else explainTable

/-- The beginning of a transaction, or of something else. -/
def ofBegin : List Step → Option QueryType
  | [] => beginWork
  | .symbol .semicolon :: _ => beginWork
  | .word "WORK" _ :: _ => beginWork
  | .stuck :: _ => none
  | _ => unknown

/-- Statements that start with this word. -/
def ofVerb (verb : String) (rest : List Step) : Option QueryType :=
  match verb with
  | "ALTER" => ofAlter rest
  | "CREATE" => ofCreate rest
  | "DROP" => ofDrop rest
  | "TRUNCATE" => truncateTable
  | "CALL" => call
  | "DELETE" => delete
  | "DO" => doStatement
  | "HANDLER" => handler
  | "INSERT" => insert
  | "REPLACE" => replace
  | "SELECT" | "TABLE" | "VALUES" => select
  | "UPDATE" => update
  | "WITH" => ofWith 0 rest
  | "LOAD" => ofLoad rest
  | "START" =>
    afterWord rest fun word _ =>
      match word with
      | "TRANSACTION" => startTransaction
      | "SLAVE" | "REPLICA" => startSlave
      | _ => unknown
  | "BEGIN" => ofBegin rest
  | "COMMIT" => commit
  | "ROLLBACK" => ofRollback rest
  | "SET" => ofSet rest
  | "SAVEPOINT" => savePoint
  | "RELEASE" => releaseSavePoint
  | "LOCK" => lock
  | "UNLOCK" => unlock
  | "XA" => xa
  | "PURGE" => purge
  | "CHANGE" =>
    afterWord rest fun word _ =>
      match word with
      | "MASTER" | "REPLICATION" => changeMaster
      | _ => unknown
  | "RESET" => ofReset rest
  | "STOP" =>
    afterWord rest fun word _ =>
      match word with
      | "SLAVE" | "REPLICA" => stopSlave
      | _ => unknown
  | "PREPARE" => prepare
  | "EXECUTE" => execute
  | "DEALLOCATE" => deallocate
  | "GRANT" => ofPrivilege grant grantProxy rest
  | "REVOKE" => ofPrivilege revoke revokeProxy rest
  | "RENAME" =>
    afterWord rest fun word _ =>
      match word with
      | "TABLE" | "TABLES" => renameTable
      | "USER" => renameUser
      | _ => unknown
  | "ANALYZE" => analyzeTable
  | "CHECK" => checkTable
  | "CHECKSUM" => checksumTable
  | "OPTIMIZE" => optimizeTable
  | "REPAIR" => repairTable
  | "BACKUP" => backUpTable
  | "RESTORE" => restoreTable
  | "INSTALL" => installPlugin
  | "UNINSTALL" => uninstallPlugin
  | "SHOW" => ofShow rest
  | "CACHE" => cacheIndex
  | "FLUSH" => flush
  | "KILL" => kill
  | "DESCRIBE" | "DESC" | "EXPLAIN" => ofExplain rest
  | "HELP" => help
  | "USE" => use
  | _ => unknown

/-- The kind of the statement that a list of steps starts with. -/
def ofSteps : List Step → Option QueryType
  | [] => ambiguous
  | .symbol .openParen :: rest => ofParenthesised rest
  | .symbol _ :: _ => unknown
  | .stuck :: _ => none
  | .word text _ :: rest => ofVerb text rest

/-- The kind of the statement that a token list starts with; absent where the
classifier never returns. -/
def classify? (tokens : List Token) : Option QueryType :=
  ofSteps (Step.ofTokens tokens)

/-- The kind of the statement that a token list starts with, for lists on which the
classifier returns. -/
def classify (tokens : List Token) : QueryType :=
  (classify? tokens).getD ambiguous

end QueryType

end MySqlAnalysis
