/-!
# Kinds of statements

The tags that a statement is classified by, each with a stable name, and which
of them change the schema.
-/

set_option autoImplicit false

namespace MySqlAnalysis

/-- The kind of a statement. -/
inductive QueryType where
  /-- The first words match no known statement. -/
  | unknown
  /-- The text ended before the kind was decided. -/
  | ambiguous
  | alterDatabase
  | alterLogFileGroup
  | alterFunction
  | alterProcedure
  | alterServer
  | alterTable
  | alterTableSpace
  | alterEvent
  | alterView
  | createTable
  | createIndex
  | createDatabase
  | createEvent
  | createView
  | createRoutine
  | createProcedure
  | createFunction
  /-- A function loaded from a library. -/
  | createUdf
  | createTrigger
  | createLogFileGroup
  | createServer
  | createTableSpace
  | createRole
  | dropDatabase
  | dropEvent
  | dropFunction
  | dropProcedure
  | dropIndex
  | dropLogfileGroup
  | dropServer
  | dropTable
  | dropTablespace
  | dropTrigger
  | dropView
  | dropRole
  | renameTable
  | truncateTable
  | call
  | delete
  | doStatement
  | handler
  | insert
  | loadData
  | loadXml
  | replace
  | select
  | update
  /-- A partition clause in parentheses. -/
  | partition
  | startTransaction
  | beginWork
  | commit
  | rollbackWork
  | setAutoCommit
  | setTransaction
  | savePoint
  | releaseSavePoint
  | rollbackSavePoint
  | lock
  | unlock
  | xa
  | purge
  | changeMaster
  | reset
  | resetMaster
  | resetSlave
  | startSlave
  | stopSlave
  | loadDataMaster
  | loadTableMaster
  | prepare
  | execute
  | deallocate
  | alterUser
  | createUser
  | dropUser
  | grantProxy
  | grant
  | renameUser
  | revokeProxy
  | revoke
  | analyzeTable
  | checkTable
  | checksumTable
  | optimizeTable
  | repairTable
  | backUpTable
  | restoreTable
  | installPlugin
  | uninstallPlugin
  /-- Any assignment of variables. -/
  | setVariable
  | setPassword
  /-- A listing of a kind that is not told apart. -/
  | showOther
  | showAuthors
  | showBinLogEvents
  | showBinLogs
  | showCharset
  | showCollation
  | showColumns
  | showContributors
  | showCreateDatabase
  | showCreateEvent
  | showCreateFunction
  | showCreateProcedure
  | showCreateTable
  | showCreateTrigger
  | showCreateView
  | showDatabases
  | showEngineStatus
  | showStorageEngines
  | showErrors
  | showEvents
  | showFunctionCode
  | showFunctionStatus
  | showGrants
  | showIndexes
  | showInnoDbStatus
  | showMasterStatus
  | showOpenTables
  | showPlugins
  | showProcedureStatus
  | showProcedureCode
  | showPrivileges
  | showProcessList
  | showProfile
  | showProfiles
  | showRelayLogEvents
  | showSlaveHosts
  | showSlaveStatus
  | showStatus
  | showVariables
  | showTableStatus
  | showTables
  | showTriggers
  | showWarnings
  | cacheIndex
  | flush
  | kill
  | loadIndex
  /-- The columns of a table. -/
  | explainTable
  /-- The plan of a statement. -/
  | explainStatement
  | help
  | use
  deriving DecidableEq

namespace QueryType

/-- All tags. -/
def all : List QueryType :=
  [.unknown, .ambiguous, .alterDatabase, .alterLogFileGroup, .alterFunction, .alterProcedure,
   .alterServer, .alterTable, .alterTableSpace, .alterEvent, .alterView, .createTable,
   .createIndex, .createDatabase, .createEvent, .createView, .createRoutine,
   .createProcedure, .createFunction, .createUdf, .createTrigger, .createLogFileGroup,
   .createServer, .createTableSpace, .createRole, .dropDatabase, .dropEvent, .dropFunction,
   .dropProcedure, .dropIndex, .dropLogfileGroup, .dropServer, .dropTable, .dropTablespace,
   .dropTrigger, .dropView, .dropRole, .renameTable, .truncateTable, .call, .delete,
   .doStatement, .handler, .insert, .loadData, .loadXml, .replace, .select, .update,
   .partition, .startTransaction, .beginWork, .commit, .rollbackWork, .setAutoCommit,
   .setTransaction, .savePoint, .releaseSavePoint, .rollbackSavePoint, .lock, .unlock, .xa,
   .purge, .changeMaster, .reset, .resetMaster, .resetSlave, .startSlave, .stopSlave,
   .loadDataMaster, .loadTableMaster, .prepare, .execute, .deallocate, .alterUser,
   .createUser, .dropUser, .grantProxy, .grant, .renameUser, .revokeProxy, .revoke,
   .analyzeTable, .checkTable, .checksumTable, .optimizeTable, .repairTable, .backUpTable,
   .restoreTable, .installPlugin, .uninstallPlugin, .setVariable, .setPassword, .showOther,
   .showAuthors, .showBinLogEvents, .showBinLogs, .showCharset, .showCollation,
   .showColumns, .showContributors, .showCreateDatabase, .showCreateEvent,
   .showCreateFunction, .showCreateProcedure, .showCreateTable, .showCreateTrigger,
   .showCreateView, .showDatabases, .showEngineStatus, .showStorageEngines, .showErrors,
   .showEvents, .showFunctionCode, .showFunctionStatus, .showGrants, .showIndexes,
   .showInnoDbStatus, .showMasterStatus, .showOpenTables, .showPlugins,
   .showProcedureStatus, .showProcedureCode, .showPrivileges, .showProcessList,
   .showProfile, .showProfiles, .showRelayLogEvents, .showSlaveHosts, .showSlaveStatus,
   .showStatus, .showVariables, .showTableStatus, .showTables, .showTriggers,
   .showWarnings, .cacheIndex, .flush, .kill, .loadIndex, .explainTable, .explainStatement,
   .help, .use]

/-- The name of a tag. -/
def name : QueryType → String
  | unknown => "unknown"
  | ambiguous => "ambiguous"
  | alterDatabase => "alter_database"
  | alterLogFileGroup => "alter_log_file_group"
  | alterFunction => "alter_function"
  | alterProcedure => "alter_procedure"
  | alterServer => "alter_server"
  | alterTable => "alter_table"
  | alterTableSpace => "alter_table_space"
  | alterEvent => "alter_event"
  | alterView => "alter_view"
  | createTable => "create_table"
  | createIndex => "create_index"
  | createDatabase => "create_database"
  | createEvent => "create_event"
  | createView => "create_view"
  | createRoutine => "create_routine"
  | createProcedure => "create_procedure"
  | createFunction => "create_function"
  | createUdf => "create_udf"
  | createTrigger => "create_trigger"
  | createLogFileGroup => "create_log_file_group"
  | createServer => "create_server"
  | createTableSpace => "create_table_space"
  | createRole => "create_role"
  | dropDatabase => "drop_database"
  | dropEvent => "drop_event"
  | dropFunction => "drop_function"
  | dropProcedure => "drop_procedure"
  | dropIndex => "drop_index"
  | dropLogfileGroup => "drop_logfile_group"
  | dropServer => "drop_server"
  | dropTable => "drop_table"
  | dropTablespace => "drop_tablespace"
  | dropTrigger => "drop_trigger"
  | dropView => "drop_view"
  | dropRole => "drop_role"
  | renameTable => "rename_table"
  | truncateTable => "truncate_table"
  | call => "call"
  | delete => "delete"
  | doStatement => "do"
  | handler => "handler"
  | insert => "insert"
  | loadData => "load_data"
  | loadXml => "load_xml"
  | replace => "replace"
  | select => "select"
  | update => "update"
  | partition => "partition"
  | startTransaction => "start_transaction"
  | beginWork => "begin_work"
  | commit => "commit"
  | rollbackWork => "rollback_work"
  | setAutoCommit => "set_auto_commit"
  | setTransaction => "set_transaction"
  | savePoint => "save_point"
  | releaseSavePoint => "release_save_point"
  | rollbackSavePoint => "rollback_save_point"
  | lock => "lock"
  | unlock => "unlock"
  | xa => "xa"
  | purge => "purge"
  | changeMaster => "change_master"
  | reset => "reset"
  | resetMaster => "reset_master"
  | resetSlave => "reset_slave"
  | startSlave => "start_slave"
  | stopSlave => "stop_slave"
  | loadDataMaster => "load_data_master"
  | loadTableMaster => "load_table_master"
  | prepare => "prepare"
  | execute => "execute"
  | deallocate => "deallocate"
  | alterUser => "alter_user"
  | createUser => "create_user"
  | dropUser => "drop_user"
  | grantProxy => "grant_proxy"
  | grant => "grant"
  | renameUser => "rename_user"
  | revokeProxy => "revoke_proxy"
  | revoke => "revoke"
  | analyzeTable => "analyze_table"
  | checkTable => "check_table"
  | checksumTable => "checksum_table"
  | optimizeTable => "optimize_table"
  | repairTable => "repair_table"
  | backUpTable => "back_up_table"
  | restoreTable => "restore_table"
  | installPlugin => "install_plugin"
  | uninstallPlugin => "uninstall_plugin"
  | setVariable => "set"
  | setPassword => "set_password"
  | showOther => "show"
  | showAuthors => "show_authors"
  | showBinLogEvents => "show_bin_log_events"
  | showBinLogs => "show_bin_logs"
  | showCharset => "show_charset"
  | showCollation => "show_collation"
  | showColumns => "show_columns"
  | showContributors => "show_contributors"
  | showCreateDatabase => "show_create_database"
  | showCreateEvent => "show_create_event"
  | showCreateFunction => "show_create_function"
  | showCreateProcedure => "show_create_procedure"
  | showCreateTable => "show_create_table"
  | showCreateTrigger => "show_create_trigger"
  | showCreateView => "show_create_view"
  | showDatabases => "show_databases"
  | showEngineStatus => "show_engine_status"
  | showStorageEngines => "show_storage_engines"
  | showErrors => "show_errors"
  | showEvents => "show_events"
  | showFunctionCode => "show_function_code"
  | showFunctionStatus => "show_function_status"
  | showGrants => "show_grants"
  | showIndexes => "show_indexes"
  | showInnoDbStatus => "show_inno_db_status"
  | showMasterStatus => "show_master_status"
  | showOpenTables => "show_open_tables"
  | showPlugins => "show_plugins"
  | showProcedureStatus => "show_procedure_status"
  | showProcedureCode => "show_procedure_code"
  | showPrivileges => "show_privileges"
  | showProcessList => "show_process_list"
  | showProfile => "show_profile"
  | showProfiles => "show_profiles"
  | showRelayLogEvents => "show_relay_log_events"
  | showSlaveHosts => "show_slave_hosts"
  | showSlaveStatus => "show_slave_status"
  | showStatus => "show_status"
  | showVariables => "show_variables"
  | showTableStatus => "show_table_status"
  | showTables => "show_tables"
  | showTriggers => "show_triggers"
  | showWarnings => "show_warnings"
  | cacheIndex => "cache_index"
  | flush => "flush"
  | kill => "kill"
  | loadIndex => "load_index"
  | explainTable => "explain_table"
  | explainStatement => "explain_statement"
  | help => "help"
  | use => "use"

/-- Whether statements of this kind change the schema. -/
def isDdl : QueryType → Bool
  | alterDatabase => true
  | alterLogFileGroup => true
  | alterFunction => true
  | alterProcedure => true
  | alterServer => true
  | alterTable => true
  | alterTableSpace => true
  | alterEvent => true
  | alterView => true
  | createTable => true
  | createIndex => true
  | createDatabase => true
  | createEvent => true
  | createView => true
  | createRoutine => true
  | createProcedure => true
  | createFunction => true
  | createUdf => true
  | createTrigger => true
  | createLogFileGroup => true
  | createServer => true
  | createTableSpace => true
  | createRole => true
  | dropDatabase => true
  | dropEvent => true
  | dropFunction => true
  | dropProcedure => true
  | dropIndex => true
  | dropLogfileGroup => true
  | dropServer => true
  | dropTable => true
  | dropTablespace => true
  | dropTrigger => true
  | dropView => true
  | dropRole => true
  | renameTable => true
  | truncateTable => true
  | _ => false

end QueryType

end MySqlAnalysis
