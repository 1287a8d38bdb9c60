import MySqlAnalysis.Version

/-!
# Keywords

The words that the tokenizer can recognise as keywords in some server family.
A keyword is named by the word itself; `MySqlAnalysis.Keyword.Vocabulary` gives
its status in each family.
-/

set_option autoImplicit false

namespace MySqlAnalysis

/-- A word of the SQL vocabulary. -/
inductive Keyword where
  | ACCESSIBLE | ACCOUNT | ACTION | ADD | ADMIN | AFTER | AGAINST | AGGREGATE | ALGORITHM | ALL
  | ALTER | ALWAYS | ANALYSE | ANALYZE | AND | ANY | AS | ASC | ASCII | ASENSITIVE | AT | AUTHORS
  | AUTO_INCREMENT | AUTOEXTEND_SIZE | AVG | AVG_ROW_LENGTH | BEFORE | BEGIN | BETWEEN | BIGINT
  | BINARY | BINLOG | BIT | BLOB | BLOCK | BOOL | BOOLEAN | BOTH | BTREE | BY | CACHE | CALL
  | CASCADE | CASCADED | CASE | CHAIN | CHANGE | CHANGED | CHAR | CHARACTER | CHARSET | CHECK
  | CHECKSUM | CLOSE | CODE | COLLATE | COLLATION | COLUMN | COLUMNS | COMMENT | COMMIT
  | COMMITTED | COMPACT | COMPRESSED | CONDITION | CONNECTION | CONSISTENT | CONSTRAINT | CONTAINS
  | CONTINUE | CONTRIBUTORS | CONVERT | CREATE | CROSS | CUBE | CUME_DIST | CURRENT | CURRENT_DATE
  | CURRENT_TIME | CURRENT_TIMESTAMP | CURRENT_USER | CURSOR | DATA | DATABASE | DATABASES | DATE
  | DATETIME | DAY | DAY_HOUR | DAY_MICROSECOND | DAY_MINUTE | DAY_SECOND | DEALLOCATE | DEC
  | DECIMAL | DECLARE | DEFAULT | DEFINER | DELAYED | DELETE | DENSE_RANK | DESC | DESCRIBE
  | DETERMINISTIC | DISABLE | DISCARD | DISTINCT | DISTINCTROW | DIV | DO | DOUBLE | DROP | DUAL
  | DUMPFILE | DUPLICATE | DYNAMIC | EACH | ELSE | ELSEIF | EMPTY | ENABLE | ENCLOSED | END
  | ENGINE | ENGINES | ENUM | ERRORS | ESCAPE | ESCAPED | EVENT | EVENTS | EVERY | EXCEPT
  | EXCHANGE | EXECUTE | EXISTS | EXIT | EXPANSION | EXPLAIN | EXTENDED | FALSE | FETCH | FIELDS
  | FILE | FIRST | FIRST_VALUE | FIXED | FLOAT | FLOAT4 | FLOAT8 | FLUSH | FOLLOWING | FOR | FORCE
  | FOREIGN | FORMAT | FROM | FULL | FULLTEXT | FUNCTION | GENERATED | GET | GLOBAL | GRANT
  | GRANTS | GROUP | GROUPING | GROUPS | HANDLER | HASH | HAVING | HELP | HIGH_PRIORITY | HOST
  | HOSTS | HOUR | HOUR_MICROSECOND | HOUR_MINUTE | HOUR_SECOND | IDENTIFIED | IF | IGNORE
  | IMPORT | IN | INDEX | INDEXES | INFILE | INNER | INOUT | INSENSITIVE | INSERT | INSTALL | INT
  | INT1 | INT2 | INT3 | INT4 | INT8 | INTEGER | INTERSECT | INTERVAL | INTO | INVISIBLE | INVOKER
  | IO_AFTER_GTIDS | IO_BEFORE_GTIDS | IS | ISOLATION | ITERATE | JOIN | JSON | JSON_TABLE | KEY
  | KEY_BLOCK_SIZE | KEYS | KILL | LAG | LANGUAGE | LAST | LAST_VALUE | LATERAL | LEAD | LEADING
  | LEAVE | LEFT | LESS | LEVEL | LIKE | LIMIT | LINEAR | LINES | LIST | LOAD | LOCAL | LOCALTIME
  | LOCALTIMESTAMP | LOCK | LOCKED | LOGFILE | LOGS | LONG | LONGBLOB | LONGTEXT | LOOP
  | LOW_PRIORITY | MASTER | MASTER_BIND | MASTER_SSL_VERIFY_SERVER_CERT | MATCH | MAX_ROWS
  | MAXVALUE | MEDIUM | MEDIUMBLOB | MEDIUMINT | MEDIUMTEXT | MEMORY | MERGE | MICROSECOND
  | MIDDLEINT | MIN_ROWS | MINUTE | MINUTE_MICROSECOND | MINUTE_SECOND | MOD | MODE | MODIFIES
  | MODIFY | MONTH | NAME | NAMES | NATIONAL | NATURAL | NCHAR | NEXT | NO | NO_WRITE_TO_BINLOG
  | NONE | NOT | NOWAIT | NTH_VALUE | NTILE | NULL | NULLS | NUMERIC | NVARCHAR | OF | OFFLINE
  | OFFSET | ON | ONLINE | ONLY | OPEN | OPTIMIZE | OPTIMIZER_COSTS | OPTION | OPTIONALLY
  | OPTIONS | OR | ORDER | OUT | OUTER | OUTFILE | OVER | OWNER | PACK_KEYS | PARSER | PARTIAL
  | PARTITION | PARTITIONING | PARTITIONS | PASSWORD | PERCENT_RANK | PERSIST | PERSIST_ONLY
  | PHASE | PLUGIN | PLUGINS | PORT | PRECEDING | PRECISION | PREPARE | PRESERVE | PREV | PRIMARY
  | PRIVILEGES | PROCEDURE | PROCESSLIST | PROFILE | PROFILES | PROXY | PURGE | QUARTER | QUERY
  | QUICK | RANGE | RANK | READ | READ_ONLY | READ_WRITE | READS | REAL | REBUILD | RECOVER
  | RECURSIVE | REDUNDANT | REFERENCES | REGEXP | RELAYLOG | RELEASE | RELOAD | REMOVE | RENAME
  | REORGANIZE | REPAIR | REPEAT | REPEATABLE | REPLACE | REPLICATION | REQUIRE | RESET | RESIGNAL
  | RESTRICT | RESUME | RETURN | RETURNS | REVERSE | REVOKE | RIGHT | RLIKE | ROLE | ROLLBACK
  | ROLLUP | ROUTINE | ROW | ROW_FORMAT | ROW_NUMBER | ROWS | SAVEPOINT | SCHEDULE | SCHEMA
  | SCHEMAS | SECOND | SECOND_MICROSECOND | SECURITY | SELECT | SENSITIVE | SEPARATOR | SERIAL
  | SERIALIZABLE | SERVER | SESSION | SET | SHARE | SHOW | SHUTDOWN | SIGNAL | SIGNED | SIMPLE
  | SKIP | SLAVE | SLOW | SMALLINT | SNAPSHOT | SOCKET | SOME | SONAME | SOUNDS | SOURCE | SPATIAL
  | SPECIFIC | SQL | SQL_BIG_RESULT | SQL_BUFFER_RESULT | SQL_CACHE | SQL_CALC_FOUND_ROWS
  | SQL_NO_CACHE | SQL_SMALL_RESULT | SQLEXCEPTION | SQLSTATE | SQLWARNING | SSL | START
  | STARTING | STARTS | STATUS | STOP | STORAGE | STORED | STRAIGHT_JOIN | STRING | SUBJECT
  | SUBPARTITION | SUBPARTITIONS | SUPER | SUSPEND | SYSTEM | TABLE | TABLES | TABLESPACE
  | TEMPORARY | TEMPTABLE | TERMINATED | TEXT | THAN | THEN | TIME | TIMESTAMP | TINYBLOB
  | TINYINT | TINYTEXT | TO | TRAILING | TRANSACTION | TRIGGER | TRIGGERS | TRUE | TRUNCATE | TYPE
  | UNCOMMITTED | UNDEFINED | UNDO | UNINSTALL | UNION | UNIQUE | UNKNOWN | UNLOCK | UNSIGNED
  | UNTIL | UPDATE | UPGRADE | USAGE | USE | USE_FRM | USER | USING | UTC_DATE | UTC_TIME
  | UTC_TIMESTAMP | VALIDATION | VALUE | VALUES | VARBINARY | VARCHAR | VARCHARACTER | VARIABLES
  | VARYING | VIEW | VIRTUAL | VISIBLE | WAIT | WARNINGS | WEEK | WHEN | WHERE | WHILE | WINDOW
  | WITH | WITHOUT | WORK | WRAPPER | WRITE | X509 | XA | XML | XOR | YEAR | YEAR_MONTH | ZEROFILL
  deriving DecidableEq

/-- Every keyword, in the order of the vocabulary. -/
def Keyword.all : List Keyword :=
  [.ACCESSIBLE, .ACCOUNT, .ACTION, .ADD, .ADMIN, .AFTER, .AGAINST, .AGGREGATE, .ALGORITHM, .ALL,
   .ALTER, .ALWAYS, .ANALYSE, .ANALYZE, .AND, .ANY, .AS, .ASC, .ASCII, .ASENSITIVE, .AT, .AUTHORS,
   .AUTO_INCREMENT, .AUTOEXTEND_SIZE, .AVG, .AVG_ROW_LENGTH, .BEFORE, .BEGIN, .BETWEEN, .BIGINT,
   .BINARY, .BINLOG, .BIT, .BLOB, .BLOCK, .BOOL, .BOOLEAN, .BOTH, .BTREE, .BY, .CACHE, .CALL,
   .CASCADE, .CASCADED, .CASE, .CHAIN, .CHANGE, .CHANGED, .CHAR, .CHARACTER, .CHARSET, .CHECK,
   .CHECKSUM, .CLOSE, .CODE, .COLLATE, .COLLATION, .COLUMN, .COLUMNS, .COMMENT, .COMMIT,
   .COMMITTED, .COMPACT, .COMPRESSED, .CONDITION, .CONNECTION, .CONSISTENT, .CONSTRAINT,
   .CONTAINS, .CONTINUE, .CONTRIBUTORS, .CONVERT, .CREATE, .CROSS, .CUBE, .CUME_DIST, .CURRENT,
   .CURRENT_DATE, .CURRENT_TIME, .CURRENT_TIMESTAMP, .CURRENT_USER, .CURSOR, .DATA, .DATABASE,
   .DATABASES, .DATE, .DATETIME, .DAY, .DAY_HOUR, .DAY_MICROSECOND, .DAY_MINUTE, .DAY_SECOND,
   .DEALLOCATE, .DEC, .DECIMAL, .DECLARE, .DEFAULT, .DEFINER, .DELAYED, .DELETE, .DENSE_RANK,
   .DESC, .DESCRIBE, .DETERMINISTIC, .DISABLE, .DISCARD, .DISTINCT, .DISTINCTROW, .DIV, .DO,
   .DOUBLE, .DROP, .DUAL, .DUMPFILE, .DUPLICATE, .DYNAMIC, .EACH, .ELSE, .ELSEIF, .EMPTY, .ENABLE,
   .ENCLOSED, .END, .ENGINE, .ENGINES, .ENUM, .ERRORS, .ESCAPE, .ESCAPED, .EVENT, .EVENTS, .EVERY,
   .EXCEPT, .EXCHANGE, .EXECUTE, .EXISTS, .EXIT, .EXPANSION, .EXPLAIN, .EXTENDED, .FALSE, .FETCH,
   .FIELDS, .FILE, .FIRST, .FIRST_VALUE, .FIXED, .FLOAT, .FLOAT4, .FLOAT8, .FLUSH, .FOLLOWING,
   .FOR, .FORCE, .FOREIGN, .FORMAT, .FROM, .FULL, .FULLTEXT, .FUNCTION, .GENERATED, .GET, .GLOBAL,
   .GRANT, .GRANTS, .GROUP, .GROUPING, .GROUPS, .HANDLER, .HASH, .HAVING, .HELP, .HIGH_PRIORITY,
   .HOST, .HOSTS, .HOUR, .HOUR_MICROSECOND, .HOUR_MINUTE, .HOUR_SECOND, .IDENTIFIED, .IF, .IGNORE,
   .IMPORT, .IN, .INDEX, .INDEXES, .INFILE, .INNER, .INOUT, .INSENSITIVE, .INSERT, .INSTALL, .INT,
   .INT1, .INT2, .INT3, .INT4, .INT8, .INTEGER, .INTERSECT, .INTERVAL, .INTO, .INVISIBLE,
   .INVOKER, .IO_AFTER_GTIDS, .IO_BEFORE_GTIDS, .IS, .ISOLATION, .ITERATE, .JOIN, .JSON,
   .JSON_TABLE, .KEY, .KEY_BLOCK_SIZE, .KEYS, .KILL, .LAG, .LANGUAGE, .LAST, .LAST_VALUE,
   .LATERAL, .LEAD, .LEADING, .LEAVE, .LEFT, .LESS, .LEVEL, .LIKE, .LIMIT, .LINEAR, .LINES, .LIST,
   .LOAD, .LOCAL, .LOCALTIME, .LOCALTIMESTAMP, .LOCK, .LOCKED, .LOGFILE, .LOGS, .LONG, .LONGBLOB,
   .LONGTEXT, .LOOP, .LOW_PRIORITY, .MASTER, .MASTER_BIND, .MASTER_SSL_VERIFY_SERVER_CERT, .MATCH,
   .MAX_ROWS, .MAXVALUE, .MEDIUM, .MEDIUMBLOB, .MEDIUMINT, .MEDIUMTEXT, .MEMORY, .MERGE,
   .MICROSECOND, .MIDDLEINT, .MIN_ROWS, .MINUTE, .MINUTE_MICROSECOND, .MINUTE_SECOND, .MOD, .MODE,
   .MODIFIES, .MODIFY, .MONTH, .NAME, .NAMES, .NATIONAL, .NATURAL, .NCHAR, .NEXT, .NO,
   .NO_WRITE_TO_BINLOG, .NONE, .NOT, .NOWAIT, .NTH_VALUE, .NTILE, .NULL, .NULLS, .NUMERIC,
   .NVARCHAR, .OF, .OFFLINE, .OFFSET, .ON, .ONLINE, .ONLY, .OPEN, .OPTIMIZE, .OPTIMIZER_COSTS,
   .OPTION, .OPTIONALLY, .OPTIONS, .OR, .ORDER, .OUT, .OUTER, .OUTFILE, .OVER, .OWNER, .PACK_KEYS,
   .PARSER, .PARTIAL, .PARTITION, .PARTITIONING, .PARTITIONS, .PASSWORD, .PERCENT_RANK, .PERSIST,
   .PERSIST_ONLY, .PHASE, .PLUGIN, .PLUGINS, .PORT, .PRECEDING, .PRECISION, .PREPARE, .PRESERVE,
   .PREV, .PRIMARY, .PRIVILEGES, .PROCEDURE, .PROCESSLIST, .PROFILE, .PROFILES, .PROXY, .PURGE,
   .QUARTER, .QUERY, .QUICK, .RANGE, .RANK, .READ, .READ_ONLY, .READ_WRITE, .READS, .REAL,
   .REBUILD, .RECOVER, .RECURSIVE, .REDUNDANT, .REFERENCES, .REGEXP, .RELAYLOG, .RELEASE, .RELOAD,
   .REMOVE, .RENAME, .REORGANIZE, .REPAIR, .REPEAT, .REPEATABLE, .REPLACE, .REPLICATION, .REQUIRE,
   .RESET, .RESIGNAL, .RESTRICT, .RESUME, .RETURN, .RETURNS, .REVERSE, .REVOKE, .RIGHT, .RLIKE,
   .ROLE, .ROLLBACK, .ROLLUP, .ROUTINE, .ROW, .ROW_FORMAT, .ROW_NUMBER, .ROWS, .SAVEPOINT,
   .SCHEDULE, .SCHEMA, .SCHEMAS, .SECOND, .SECOND_MICROSECOND, .SECURITY, .SELECT, .SENSITIVE,
   .SEPARATOR, .SERIAL, .SERIALIZABLE, .SERVER, .SESSION, .SET, .SHARE, .SHOW, .SHUTDOWN, .SIGNAL,
   .SIGNED, .SIMPLE, .SKIP, .SLAVE, .SLOW, .SMALLINT, .SNAPSHOT, .SOCKET, .SOME, .SONAME, .SOUNDS,
   .SOURCE, .SPATIAL, .SPECIFIC, .SQL, .SQL_BIG_RESULT, .SQL_BUFFER_RESULT, .SQL_CACHE,
   .SQL_CALC_FOUND_ROWS, .SQL_NO_CACHE, .SQL_SMALL_RESULT, .SQLEXCEPTION, .SQLSTATE, .SQLWARNING,
   .SSL, .START, .STARTING, .STARTS, .STATUS, .STOP, .STORAGE, .STORED, .STRAIGHT_JOIN, .STRING,
   .SUBJECT, .SUBPARTITION, .SUBPARTITIONS, .SUPER, .SUSPEND, .SYSTEM, .TABLE, .TABLES,
   .TABLESPACE, .TEMPORARY, .TEMPTABLE, .TERMINATED, .TEXT, .THAN, .THEN, .TIME, .TIMESTAMP,
   .TINYBLOB, .TINYINT, .TINYTEXT, .TO, .TRAILING, .TRANSACTION, .TRIGGER, .TRIGGERS, .TRUE,
   .TRUNCATE, .TYPE, .UNCOMMITTED, .UNDEFINED, .UNDO, .UNINSTALL, .UNION, .UNIQUE, .UNKNOWN,
   .UNLOCK, .UNSIGNED, .UNTIL, .UPDATE, .UPGRADE, .USAGE, .USE, .USE_FRM, .USER, .USING,
   .UTC_DATE, .UTC_TIME, .UTC_TIMESTAMP, .VALIDATION, .VALUE, .VALUES, .VARBINARY, .VARCHAR,
   .VARCHARACTER, .VARIABLES, .VARYING, .VIEW, .VIRTUAL, .VISIBLE, .WAIT, .WARNINGS, .WEEK, .WHEN,
   .WHERE, .WHILE, .WINDOW, .WITH, .WITHOUT, .WORK, .WRAPPER, .WRITE, .X509, .XA, .XML, .XOR,
   .YEAR, .YEAR_MONTH, .ZEROFILL]

end MySqlAnalysis
