import MySqlAnalysis.Keyword.Basic

/-!
# The keyword vocabulary

For each keyword the word as written in SQL and its status in the families 5.6,
5.7 and 8.0. A word that is absent from a family is an ordinary identifier
there; a non-reserved word is a keyword that can still be used as an
identifier; a reserved word needs quotes for that.
-/

set_option autoImplicit false

namespace MySqlAnalysis

namespace Keyword

/-- What a word is in one server family. -/
inductive Status where
  | absent
  | nonReserved
  | reserved
  deriving DecidableEq, Repr

/-- A row of the vocabulary. -/
structure Entry where
  word : String
  in56 : Status
  in57 : Status
  in80 : Status

/-- A word that is reserved in every family. -/
def Entry.reserved (word : String) : Entry := ⟨word, .reserved, .reserved, .reserved⟩

/-- A word that is a non-reserved keyword in every family. -/
def Entry.nonReserved (word : String) : Entry := ⟨word, .nonReserved, .nonReserved, .nonReserved⟩

/-- A word that is reserved from 8.0 on and an identifier before. -/
def Entry.reservedSince80 (word : String) : Entry := ⟨word, .absent, .absent, .reserved⟩

/-- A word that is a non-reserved keyword from 8.0 on and an identifier before. -/
def Entry.nonReservedSince80 (word : String) : Entry := ⟨word, .absent, .absent, .nonReserved⟩

/-- A word that is reserved from 5.7 on and an identifier before. -/
def Entry.reservedSince57 (word : String) : Entry := ⟨word, .absent, .reserved, .reserved⟩

/-- A word that is a non-reserved keyword from 5.7 on and an identifier before. -/
def Entry.nonReservedSince57 (word : String) : Entry :=
  ⟨word, .absent, .nonReserved, .nonReserved⟩

/-- The vocabulary. -/
def entry : Keyword → Entry
  | .ACCESSIBLE => .reserved "ACCESSIBLE"
  | .ACCOUNT => .nonReservedSince57 "ACCOUNT"
  | .ACTION => .nonReserved "ACTION"
  | .ADD => .reserved "ADD"
  | .ADMIN => .nonReservedSince80 "ADMIN"
  | .AFTER => .nonReserved "AFTER"
  | .AGAINST => .nonReserved "AGAINST"
  | .AGGREGATE => .nonReserved "AGGREGATE"
  | .ALGORITHM => .nonReserved "ALGORITHM"
  | .ALL => .reserved "ALL"
  | .ALTER => .reserved "ALTER"
  | .ALWAYS => .nonReservedSince57 "ALWAYS"
  | .ANALYSE => ⟨"ANALYSE", .nonReserved, .nonReserved, .absent⟩
  | .ANALYZE => .reserved "ANALYZE"
  | .AND => .reserved "AND"
  | .ANY => .nonReserved "ANY"
  | .AS => .reserved "AS"
  | .ASC => .reserved "ASC"
  | .ASCII => .nonReserved "ASCII"
  | .ASENSITIVE => .reserved "ASENSITIVE"
  | .AT => .nonReserved "AT"
  | .AUTHORS => ⟨"AUTHORS", .nonReserved, .absent, .absent⟩
  | .AUTO_INCREMENT => .nonReserved "AUTO_INCREMENT"
  | .AUTOEXTEND_SIZE => .nonReserved "AUTOEXTEND_SIZE"
  | .AVG => .nonReserved "AVG"
  | .AVG_ROW_LENGTH => .nonReserved "AVG_ROW_LENGTH"
  | .BEFORE => .reserved "BEFORE"
  | .BEGIN => .nonReserved "BEGIN"
  | .BETWEEN => .reserved "BETWEEN"
  | .BIGINT => .reserved "BIGINT"
  | .BINARY => .reserved "BINARY"
  | .BINLOG => .nonReserved "BINLOG"
  | .BIT => .nonReserved "BIT"
  | .BLOB => .reserved "BLOB"
  | .BLOCK => .nonReserved "BLOCK"
  | .BOOL => .nonReserved "BOOL"
  | .BOOLEAN => .nonReserved "BOOLEAN"
  | .BOTH => .reserved "BOTH"
  | .BTREE => .nonReserved "BTREE"
  | .BY => .reserved "BY"
  | .CACHE => .nonReserved "CACHE"
  | .CALL => .reserved "CALL"
  | .CASCADE => .reserved "CASCADE"
  | .CASCADED => .nonReserved "CASCADED"
  | .CASE => .reserved "CASE"
  | .CHAIN => .nonReserved "CHAIN"
  | .CHANGE => .reserved "CHANGE"
  | .CHANGED => .nonReserved "CHANGED"
  | .CHAR => .reserved "CHAR"
  | .CHARACTER => .reserved "CHARACTER"
  | .CHARSET => .nonReserved "CHARSET"
  | .CHECK => .reserved "CHECK"
  | .CHECKSUM => .nonReserved "CHECKSUM"
  | .CLOSE => .nonReserved "CLOSE"
  | .CODE => .nonReserved "CODE"
  | .COLLATE => .reserved "COLLATE"
  | .COLLATION => .nonReserved "COLLATION"
  | .COLUMN => .reserved "COLUMN"
  | .COLUMNS => .nonReserved "COLUMNS"
  | .COMMENT => .nonReserved "COMMENT"
  | .COMMIT => .nonReserved "COMMIT"
  | .COMMITTED => .nonReserved "COMMITTED"
  | .COMPACT => .nonReserved "COMPACT"
  | .COMPRESSED => .nonReserved "COMPRESSED"
  | .CONDITION => .reserved "CONDITION"
  | .CONNECTION => .nonReserved "CONNECTION"
  | .CONSISTENT => .nonReserved "CONSISTENT"
  | .CONSTRAINT => .reserved "CONSTRAINT"
  | .CONTAINS => .nonReserved "CONTAINS"
  | .CONTINUE => .reserved "CONTINUE"
  | .CONTRIBUTORS => ⟨"CONTRIBUTORS", .nonReserved, .absent, .absent⟩
  | .CONVERT => .reserved "CONVERT"
  | .CREATE => .reserved "CREATE"
  | .CROSS => .reserved "CROSS"
  | .CUBE => .reservedSince80 "CUBE"
  | .CUME_DIST => .reservedSince80 "CUME_DIST"
  | .CURRENT => .nonReserved "CURRENT"
  | .CURRENT_DATE => .reserved "CURRENT_DATE"
  | .CURRENT_TIME => .reserved "CURRENT_TIME"
  | .CURRENT_TIMESTAMP => .reserved "CURRENT_TIMESTAMP"
  | .CURRENT_USER => .reserved "CURRENT_USER"
  | .CURSOR => .reserved "CURSOR"
  | .DATA => .nonReserved "DATA"
  | .DATABASE => .reserved "DATABASE"
  | .DATABASES => .reserved "DATABASES"
  | .DATE => .nonReserved "DATE"
  | .DATETIME => .nonReserved "DATETIME"
  | .DAY => .nonReserved "DAY"
  | .DAY_HOUR => .reserved "DAY_HOUR"
  | .DAY_MICROSECOND => .reserved "DAY_MICROSECOND"
  | .DAY_MINUTE => .reserved "DAY_MINUTE"
  | .DAY_SECOND => .reserved "DAY_SECOND"
  | .DEALLOCATE => .nonReserved "DEALLOCATE"
  | .DEC => .reserved "DEC"
  | .DECIMAL => .reserved "DECIMAL"
  | .DECLARE => .reserved "DECLARE"
  | .DEFAULT => .reserved "DEFAULT"
  | .DEFINER => .nonReserved "DEFINER"
  | .DELAYED => .reserved "DELAYED"
  | .DELETE => .reserved "DELETE"
  | .DENSE_RANK => .reservedSince80 "DENSE_RANK"
  | .DESC => .reserved "DESC"
  | .DESCRIBE => .reserved "DESCRIBE"
  | .DETERMINISTIC => .reserved "DETERMINISTIC"
  | .DISABLE => .nonReserved "DISABLE"
  | .DISCARD => .nonReserved "DISCARD"
  | .DISTINCT => .reserved "DISTINCT"
  | .DISTINCTROW => .reserved "DISTINCTROW"
  | .DIV => .reserved "DIV"
  | .DO => .nonReserved "DO"
  | .DOUBLE => .reserved "DOUBLE"
  | .DROP => .reserved "DROP"
  | .DUAL => .reserved "DUAL"
  | .DUMPFILE => .nonReserved "DUMPFILE"
  | .DUPLICATE => .nonReserved "DUPLICATE"
  | .DYNAMIC => .nonReserved "DYNAMIC"
  | .EACH => .reserved "EACH"
  | .ELSE => .reserved "ELSE"
  | .ELSEIF => .reserved "ELSEIF"
  | .EMPTY => .reservedSince80 "EMPTY"
  | .ENABLE => .nonReserved "ENABLE"
  | .ENCLOSED => .reserved "ENCLOSED"
  | .END => .nonReserved "END"
  | .ENGINE => .nonReserved "ENGINE"
  | .ENGINES => .nonReserved "ENGINES"
  | .ENUM => .nonReserved "ENUM"
  | .ERRORS => .nonReserved "ERRORS"
  | .ESCAPE => .nonReserved "ESCAPE"
  | .ESCAPED => .reserved "ESCAPED"
  | .EVENT => .nonReserved "EVENT"
  | .EVENTS => .nonReserved "EVENTS"
  | .EVERY => .nonReserved "EVERY"
  | .EXCEPT => .reservedSince80 "EXCEPT"
  | .EXCHANGE => .nonReserved "EXCHANGE"
  | .EXECUTE => .nonReserved "EXECUTE"
  | .EXISTS => .reserved "EXISTS"
  | .EXIT => .reserved "EXIT"
  | .EXPANSION => .nonReserved "EXPANSION"
  | .EXPLAIN => .reserved "EXPLAIN"
  | .EXTENDED => .nonReserved "EXTENDED"
  | .FALSE => .reserved "FALSE"
  | .FETCH => .reserved "FETCH"
  | .FIELDS => .nonReserved "FIELDS"
  | .FILE => .nonReserved "FILE"
  | .FIRST => .nonReserved "FIRST"
  | .FIRST_VALUE => .reservedSince80 "FIRST_VALUE"
  | .FIXED => .nonReserved "FIXED"
  | .FLOAT => .reserved "FLOAT"
  | .FLOAT4 => .reserved "FLOAT4"
  | .FLOAT8 => .reserved "FLOAT8"
  | .FLUSH => .nonReserved "FLUSH"
  | .FOLLOWING => .nonReservedSince80 "FOLLOWING"
  | .FOR => .reserved "FOR"
  | .FORCE => .reserved "FORCE"
  | .FOREIGN => .reserved "FOREIGN"
  | .FORMAT => .nonReserved "FORMAT"
  | .FROM => .reserved "FROM"
  | .FULL => .nonReserved "FULL"
  | .FULLTEXT => .reserved "FULLTEXT"
  | .FUNCTION => ⟨"FUNCTION", .nonReserved, .nonReserved, .reserved⟩
  | .GENERATED => .reservedSince57 "GENERATED"
  | .GET => .reserved "GET"
  | .GLOBAL => .nonReserved "GLOBAL"
  | .GRANT => .reserved "GRANT"
  | .GRANTS => .nonReserved "GRANTS"
  | .GROUP => .reserved "GROUP"
  | .GROUPING => .reservedSince80 "GROUPING"
  | .GROUPS => .reservedSince80 "GROUPS"
  | .HANDLER => .nonReserved "HANDLER"
  | .HASH => .nonReserved "HASH"
  | .HAVING => .reserved "HAVING"
  | .HELP => .nonReserved "HELP"
  | .HIGH_PRIORITY => .reserved "HIGH_PRIORITY"
  | .HOST => .nonReserved "HOST"
  | .HOSTS => .nonReserved "HOSTS"
  | .HOUR => .nonReserved "HOUR"
  | .HOUR_MICROSECOND => .reserved "HOUR_MICROSECOND"
  | .HOUR_MINUTE => .reserved "HOUR_MINUTE"
  | .HOUR_SECOND => .reserved "HOUR_SECOND"
  | .IDENTIFIED => .nonReserved "IDENTIFIED"
  | .IF => .reserved "IF"
  | .IGNORE => .reserved "IGNORE"
  | .IMPORT => .nonReserved "IMPORT"
  | .IN => .reserved "IN"
  | .INDEX => .reserved "INDEX"
  | .INDEXES => .nonReserved "INDEXES"
  | .INFILE => .reserved "INFILE"
  | .INNER => .reserved "INNER"
  | .INOUT => .reserved "INOUT"
  | .INSENSITIVE => .reserved "INSENSITIVE"
  | .INSERT => .reserved "INSERT"
  | .INSTALL => .nonReserved "INSTALL"
  | .INT => .reserved "INT"
  | .INT1 => .reserved "INT1"
  | .INT2 => .reserved "INT2"
  | .INT3 => .reserved "INT3"
  | .INT4 => .reserved "INT4"
  | .INT8 => .reserved "INT8"
  | .INTEGER => .reserved "INTEGER"
  | .INTERSECT => .reservedSince80 "INTERSECT"
  | .INTERVAL => .reserved "INTERVAL"
  | .INTO => .reserved "INTO"
  | .INVISIBLE => .nonReservedSince80 "INVISIBLE"
  | .INVOKER => .nonReserved "INVOKER"
  | .IO_AFTER_GTIDS => .reserved "IO_AFTER_GTIDS"
  | .IO_BEFORE_GTIDS => .reserved "IO_BEFORE_GTIDS"
  | .IS => .reserved "IS"
  | .ISOLATION => .nonReserved "ISOLATION"
  | .ITERATE => .reserved "ITERATE"
  | .JOIN => .reserved "JOIN"
  | .JSON => .nonReservedSince57 "JSON"
  | .JSON_TABLE => .reservedSince80 "JSON_TABLE"
  | .KEY => .reserved "KEY"
  | .KEY_BLOCK_SIZE => .nonReserved "KEY_BLOCK_SIZE"
  | .KEYS => .reserved "KEYS"
  | .KILL => .reserved "KILL"
  | .LAG => .reservedSince80 "LAG"
  | .LANGUAGE => .nonReserved "LANGUAGE"
  | .LAST => .nonReserved "LAST"
  | .LAST_VALUE => .reservedSince80 "LAST_VALUE"
  | .LATERAL => .reservedSince80 "LATERAL"
  | .LEAD => .reservedSince80 "LEAD"
  | .LEADING => .reserved "LEADING"
  | .LEAVE => .reserved "LEAVE"
  | .LEFT => .reserved "LEFT"
  | .LESS => .nonReserved "LESS"
  | .LEVEL => .nonReserved "LEVEL"
  | .LIKE => .reserved "LIKE"
  | .LIMIT => .reserved "LIMIT"
  | .LINEAR => .reserved "LINEAR"
  | .LINES => .reserved "LINES"
  | .LIST => .nonReserved "LIST"
  | .LOAD => .reserved "LOAD"
  | .LOCAL => .nonReserved "LOCAL"
  | .LOCALTIME => .reserved "LOCALTIME"
  | .LOCALTIMESTAMP => .reserved "LOCALTIMESTAMP"
  | .LOCK => .reserved "LOCK"
  | .LOCKED => .nonReservedSince80 "LOCKED"
  | .LOGFILE => .nonReserved "LOGFILE"
  | .LOGS => .nonReserved "LOGS"
  | .LONG => .reserved "LONG"
  | .LONGBLOB => .reserved "LONGBLOB"
  | .LONGTEXT => .reserved "LONGTEXT"
  | .LOOP => .reserved "LOOP"
  | .LOW_PRIORITY => .reserved "LOW_PRIORITY"
  | .MASTER => .nonReserved "MASTER"
  | .MASTER_BIND => .reserved "MASTER_BIND"
  | .MASTER_SSL_VERIFY_SERVER_CERT => .reserved "MASTER_SSL_VERIFY_SERVER_CERT"
  | .MATCH => .reserved "MATCH"
  | .MAX_ROWS => .nonReserved "MAX_ROWS"
  | .MAXVALUE => .reserved "MAXVALUE"
  | .MEDIUM => .nonReserved "MEDIUM"
  | .MEDIUMBLOB => .reserved "MEDIUMBLOB"
  | .MEDIUMINT => .reserved "MEDIUMINT"
  | .MEDIUMTEXT => .reserved "MEDIUMTEXT"
  | .MEMORY => .nonReserved "MEMORY"
  | .MERGE => .nonReserved "MERGE"
  | .MICROSECOND => .nonReserved "MICROSECOND"
  | .MIDDLEINT => .reserved "MIDDLEINT"
  | .MIN_ROWS => .nonReserved "MIN_ROWS"
  | .MINUTE => .nonReserved "MINUTE"
  | .MINUTE_MICROSECOND => .reserved "MINUTE_MICROSECOND"
  | .MINUTE_SECOND => .reserved "MINUTE_SECOND"
  | .MOD => .reserved "MOD"
  | .MODE => .nonReserved "MODE"
  | .MODIFIES => .reserved "MODIFIES"
  | .MODIFY => .nonReserved "MODIFY"
  | .MONTH => .nonReserved "MONTH"
  | .NAME => .nonReserved "NAME"
  | .NAMES => .nonReserved "NAMES"
  | .NATIONAL => .nonReserved "NATIONAL"
  | .NATURAL => .reserved "NATURAL"
  | .NCHAR => .nonReserved "NCHAR"
  | .NEXT => .nonReserved "NEXT"
  | .NO => .nonReserved "NO"
  | .NO_WRITE_TO_BINLOG => .reserved "NO_WRITE_TO_BINLOG"
  | .NONE => .nonReserved "NONE"
  | .NOT => .reserved "NOT"
  | .NOWAIT => .nonReservedSince80 "NOWAIT"
  | .NTH_VALUE => .reservedSince80 "NTH_VALUE"
  | .NTILE => .reservedSince80 "NTILE"
  | .NULL => .reserved "NULL"
  | .NULLS => .nonReservedSince80 "NULLS"
  | .NUMERIC => .reserved "NUMERIC"
  | .NVARCHAR => .nonReserved "NVARCHAR"
  | .OF => .reservedSince80 "OF"
  | .OFFLINE => .nonReserved "OFFLINE"
  | .OFFSET => .nonReserved "OFFSET"
  | .ON => .reserved "ON"
  | .ONLINE => .nonReserved "ONLINE"
  | .ONLY => .nonReserved "ONLY"
  | .OPEN => .nonReserved "OPEN"
  | .OPTIMIZE => .reserved "OPTIMIZE"
  | .OPTIMIZER_COSTS => .reservedSince57 "OPTIMIZER_COSTS"
  | .OPTION => .reserved "OPTION"
  | .OPTIONALLY => .reserved "OPTIONALLY"
  | .OPTIONS => .nonReserved "OPTIONS"
  | .OR => .reserved "OR"
  | .ORDER => .reserved "ORDER"
  | .OUT => .reserved "OUT"
  | .OUTER => .reserved "OUTER"
  | .OUTFILE => .reserved "OUTFILE"
  | .OVER => .reservedSince80 "OVER"
  | .OWNER => .nonReserved "OWNER"
  | .PACK_KEYS => .nonReserved "PACK_KEYS"
  | .PARSER => .nonReserved "PARSER"
  | .PARTIAL => .nonReserved "PARTIAL"
  | .PARTITION => .reserved "PARTITION"
  | .PARTITIONING => .nonReserved "PARTITIONING"
  | .PARTITIONS => .nonReserved "PARTITIONS"
  | .PASSWORD => .nonReserved "PASSWORD"
  | .PERCENT_RANK => .reservedSince80 "PERCENT_RANK"
  | .PERSIST => .nonReservedSince80 "PERSIST"
  | .PERSIST_ONLY => .nonReservedSince80 "PERSIST_ONLY"
  | .PHASE => .nonReserved "PHASE"
  | .PLUGIN => .nonReserved "PLUGIN"
  | .PLUGINS => .nonReserved "PLUGINS"
  | .PORT => .nonReserved "PORT"
  | .PRECEDING => .nonReservedSince80 "PRECEDING"
  | .PRECISION => .reserved "PRECISION"
  | .PREPARE => .nonReserved "PREPARE"
  | .PRESERVE => .nonReserved "PRESERVE"
  | .PREV => .nonReserved "PREV"
  | .PRIMARY => .reserved "PRIMARY"
  | .PRIVILEGES => .nonReserved "PRIVILEGES"
  | .PROCEDURE => .reserved "PROCEDURE"
  | .PROCESSLIST => .nonReserved "PROCESSLIST"
  | .PROFILE => .nonReserved "PROFILE"
  | .PROFILES => .nonReserved "PROFILES"
  | .PROXY => .nonReserved "PROXY"
  | .PURGE => .reserved "PURGE"
  | .QUARTER => .nonReserved "QUARTER"
  | .QUERY => .nonReserved "QUERY"
  | .QUICK => .nonReserved "QUICK"
  | .RANGE => .reserved "RANGE"
  | .RANK => .reservedSince80 "RANK"
  | .READ => .reserved "READ"
  | .READ_ONLY => .nonReserved "READ_ONLY"
  | .READ_WRITE => .reserved "READ_WRITE"
  | .READS => .reserved "READS"
  | .REAL => .reserved "REAL"
  | .REBUILD => .nonReserved "REBUILD"
  | .RECOVER => .nonReserved "RECOVER"
  | .RECURSIVE => .reservedSince80 "RECURSIVE"
  | .REDUNDANT => .nonReserved "REDUNDANT"
  | .REFERENCES => .reserved "REFERENCES"
  | .REGEXP => .reserved "REGEXP"
  | .RELAYLOG => .nonReserved "RELAYLOG"
  | .RELEASE => .reserved "RELEASE"
  | .RELOAD => .nonReserved "RELOAD"
  | .REMOVE => .nonReserved "REMOVE"
  | .RENAME => .reserved "RENAME"
  | .REORGANIZE => .nonReserved "REORGANIZE"
  | .REPAIR => .nonReserved "REPAIR"
  | .REPEAT => .reserved "REPEAT"
  | .REPEATABLE => .nonReserved "REPEATABLE"
  | .REPLACE => .reserved "REPLACE"
  | .REPLICATION => .nonReserved "REPLICATION"
  | .REQUIRE => .reserved "REQUIRE"
  | .RESET => .nonReserved "RESET"
  | .RESIGNAL => .reserved "RESIGNAL"
  | .RESTRICT => .reserved "RESTRICT"
  | .RESUME => .nonReserved "RESUME"
  | .RETURN => .reserved "RETURN"
  | .RETURNS => .nonReserved "RETURNS"
  | .REVERSE => .nonReserved "REVERSE"
  | .REVOKE => .reserved "REVOKE"
  | .RIGHT => .reserved "RIGHT"
  | .RLIKE => .reserved "RLIKE"
  | .ROLE => .nonReservedSince80 "ROLE"
  | .ROLLBACK => .nonReserved "ROLLBACK"
  | .ROLLUP => .nonReserved "ROLLUP"
  | .ROUTINE => .nonReserved "ROUTINE"
  | .ROW => ⟨"ROW", .nonReserved, .nonReserved, .reserved⟩
  | .ROW_FORMAT => .nonReserved "ROW_FORMAT"
  | .ROW_NUMBER => .reservedSince80 "ROW_NUMBER"
  | .ROWS => ⟨"ROWS", .nonReserved, .nonReserved, .reserved⟩
  | .SAVEPOINT => .nonReserved "SAVEPOINT"
  | .SCHEDULE => .nonReserved "SCHEDULE"
  | .SCHEMA => .reserved "SCHEMA"
  | .SCHEMAS => .reserved "SCHEMAS"
  | .SECOND => .nonReserved "SECOND"
  | .SECOND_MICROSECOND => .reserved "SECOND_MICROSECOND"
  | .SECURITY => .nonReserved "SECURITY"
  | .SELECT => .reserved "SELECT"
  | .SENSITIVE => .reserved "SENSITIVE"
  | .SEPARATOR => .reserved "SEPARATOR"
  | .SERIAL => .nonReserved "SERIAL"
  | .SERIALIZABLE => .nonReserved "SERIALIZABLE"
  | .SERVER => .nonReserved "SERVER"
  | .SESSION => .nonReserved "SESSION"
  | .SET => .reserved "SET"
  | .SHARE => .nonReserved "SHARE"
  | .SHOW => .reserved "SHOW"
  | .SHUTDOWN => .nonReserved "SHUTDOWN"
  | .SIGNAL => .reserved "SIGNAL"
  | .SIGNED => .nonReserved "SIGNED"
  | .SIMPLE => .nonReserved "SIMPLE"
  | .SKIP => .nonReservedSince80 "SKIP"
  | .SLAVE => .nonReserved "SLAVE"
  | .SLOW => .nonReserved "SLOW"
  | .SMALLINT => .reserved "SMALLINT"
  | .SNAPSHOT => .nonReserved "SNAPSHOT"
  | .SOCKET => .nonReserved "SOCKET"
  | .SOME => .nonReserved "SOME"
  | .SONAME => .nonReserved "SONAME"
  | .SOUNDS => .nonReserved "SOUNDS"
  | .SOURCE => .nonReserved "SOURCE"
  | .SPATIAL => .reserved "SPATIAL"
  | .SPECIFIC => .reserved "SPECIFIC"
  | .SQL => .reserved "SQL"
  | .SQL_BIG_RESULT => .reserved "SQL_BIG_RESULT"
  | .SQL_BUFFER_RESULT => .nonReserved "SQL_BUFFER_RESULT"
  | .SQL_CACHE => ⟨"SQL_CACHE", .nonReserved, .nonReserved, .absent⟩
  | .SQL_CALC_FOUND_ROWS => .reserved "SQL_CALC_FOUND_ROWS"
  | .SQL_NO_CACHE => .nonReserved "SQL_NO_CACHE"
  | .SQL_SMALL_RESULT => .reserved "SQL_SMALL_RESULT"
  | .SQLEXCEPTION => .reserved "SQLEXCEPTION"
  | .SQLSTATE => .reserved "SQLSTATE"
  | .SQLWARNING => .reserved "SQLWARNING"
  | .SSL => .reserved "SSL"
  | .START => .nonReserved "START"
  | .STARTING => .reserved "STARTING"
  | .STARTS => .nonReserved "STARTS"
  | .STATUS => .nonReserved "STATUS"
  | .STOP => .nonReserved "STOP"
  | .STORAGE => .nonReserved "STORAGE"
  | .STORED => .reservedSince57 "STORED"
  | .STRAIGHT_JOIN => .reserved "STRAIGHT_JOIN"
  | .STRING => .nonReserved "STRING"
  | .SUBJECT => .nonReserved "SUBJECT"
  | .SUBPARTITION => .nonReserved "SUBPARTITION"
  | .SUBPARTITIONS => .nonReserved "SUBPARTITIONS"
  | .SUPER => .nonReserved "SUPER"
  | .SUSPEND => .nonReserved "SUSPEND"
  | .SYSTEM => .reservedSince80 "SYSTEM"
  | .TABLE => .reserved "TABLE"
  | .TABLES => .nonReserved "TABLES"
  | .TABLESPACE => .nonReserved "TABLESPACE"
  | .TEMPORARY => .nonReserved "TEMPORARY"
  | .TEMPTABLE => .nonReserved "TEMPTABLE"
  | .TERMINATED => .reserved "TERMINATED"
  | .TEXT => .nonReserved "TEXT"
  | .THAN => .nonReserved "THAN"
  | .THEN => .reserved "THEN"
  | .TIME => .nonReserved "TIME"
  | .TIMESTAMP => .nonReserved "TIMESTAMP"
  | .TINYBLOB => .reserved "TINYBLOB"
  | .TINYINT => .reserved "TINYINT"
  | .TINYTEXT => .reserved "TINYTEXT"
  | .TO => .reserved "TO"
  | .TRAILING => .reserved "TRAILING"
  | .TRANSACTION => .nonReserved "TRANSACTION"
  | .TRIGGER => .reserved "TRIGGER"
  | .TRIGGERS => .nonReserved "TRIGGERS"
  | .TRUE => .reserved "TRUE"
  | .TRUNCATE => .nonReserved "TRUNCATE"
  | .TYPE => .nonReserved "TYPE"
  | .UNCOMMITTED => .nonReserved "UNCOMMITTED"
  | .UNDEFINED => .nonReserved "UNDEFINED"
  | .UNDO => .reserved "UNDO"
  | .UNINSTALL => .nonReserved "UNINSTALL"
  | .UNION => .reserved "UNION"
  | .UNIQUE => .reserved "UNIQUE"
  | .UNKNOWN => .nonReserved "UNKNOWN"
  | .UNLOCK => .reserved "UNLOCK"
  | .UNSIGNED => .reserved "UNSIGNED"
  | .UNTIL => .nonReserved "UNTIL"
  | .UPDATE => .reserved "UPDATE"
  | .UPGRADE => .nonReserved "UPGRADE"
  | .USAGE => .reserved "USAGE"
  | .USE => .reserved "USE"
  | .USE_FRM => .nonReserved "USE_FRM"
  | .USER => .nonReserved "USER"
  | .USING => .reserved "USING"
  | .UTC_DATE => .reserved "UTC_DATE"
  | .UTC_TIME => .reserved "UTC_TIME"
  | .UTC_TIMESTAMP => .reserved "UTC_TIMESTAMP"
  | .VALIDATION => .nonReservedSince57 "VALIDATION"
  | .VALUE => .nonReserved "VALUE"
  | .VALUES => .reserved "VALUES"
  | .VARBINARY => .reserved "VARBINARY"
  | .VARCHAR => .reserved "VARCHAR"
  | .VARCHARACTER => .reserved "VARCHARACTER"
  | .VARIABLES => .nonReserved "VARIABLES"
  | .VARYING => .reserved "VARYING"
  | .VIEW => .nonReserved "VIEW"
  | .VIRTUAL => .reservedSince57 "VIRTUAL"
  | .VISIBLE => .nonReservedSince80 "VISIBLE"
  | .WAIT => .nonReserved "WAIT"
  | .WARNINGS => .nonReserved "WARNINGS"
  | .WEEK => .nonReserved "WEEK"
  | .WHEN => .reserved "WHEN"
  | .WHERE => .reserved "WHERE"
  | .WHILE => .reserved "WHILE"
  | .WINDOW => .reservedSince80 "WINDOW"
  | .WITH => .reserved "WITH"
  | .WITHOUT => .nonReserved "WITHOUT"
  | .WORK => .nonReserved "WORK"
  | .WRAPPER => .nonReserved "WRAPPER"
  | .WRITE => .reserved "WRITE"
  | .X509 => .nonReserved "X509"
  | .XA => .nonReserved "XA"
  | .XML => .nonReserved "XML"
  | .XOR => .reserved "XOR"
  | .YEAR => .nonReserved "YEAR"
  | .YEAR_MONTH => .reserved "YEAR_MONTH"
  | .ZEROFILL => .reserved "ZEROFILL"

/-- The keyword as written in SQL. -/
def word (k : Keyword) : String := k.entry.word

/-- The status of a keyword in a family. -/
def status (k : Keyword) : Family → Status
  | .v56 => k.entry.in56
  | .v57 => k.entry.in57
  | .v80 => k.entry.in80

/-- Whether the word is a keyword at all in a family. -/
def isAvailable (k : Keyword) (f : Family) : Bool :=
  k.status f != .absent

/-- Whether the word is reserved in a family. -/
def isReserved (k : Keyword) (f : Family) : Bool :=
  k.status f == .reserved

/-- The keyword that a word spells, in any case and whatever its availability. -/
def ofWord? (text : String) : Option Keyword :=
  let wanted := String.ofList (Text.upper text.toList)
  all.find? (·.word == wanted)

end Keyword

end MySqlAnalysis
