import MySqlAnalysis.Token.Recognize

/-!
# Configuration

The settings of an analysis: the version of the server, its modes, and the
character sets that may introduce a string.
-/

set_option autoImplicit false

namespace MySqlAnalysis

/-- The settings of an analysis. -/
structure Config where
  /-- The server version as `major.minor.patch`. -/
  version : String
  mode : SqlMode
  /-- The names accepted after an underscore in front of a string. -/
  charsets : List String
  deriving DecidableEq

namespace Config

/-- The character sets that a server knows. -/
def knownCharsets : List String :=
  ["armscii8", "ascii", "big5", "binary", "cp1250", "cp1251", "cp1256", "cp1257", "cp850",
   "cp852", "cp866", "cp932", "dec8", "eucjpms", "euckr", "gb18030", "gb2312", "gbk", "geostd8",
   "greek", "hebrew", "hp8", "keybcs2", "koi8r", "koi8u", "latin1", "latin2", "latin5", "latin7",
   "macce", "macroman", "sjis", "swe7", "tis620", "ucs2", "ujis", "utf16", "utf16le", "utf32",
   "utf8", "utf8mb3", "utf8mb4"]

/-- The settings for the first 8.0 server without modes. -/
def standard : Config := ⟨"8.0.0", .empty, knownCharsets⟩

/-- The server version; one that cannot be read is zero. -/
def serverVersion (c : Config) : ServerVersion :=
  (ServerVersion.read? c.version).getD ⟨0⟩

/-- The family of the server version. -/
def family? (c : Config) : Option Family :=
  (ServerVersion.read? c.version).bind ServerVersion.family?

/-- What decides how text is cut into tokens. -/
def dialect (c : Config) : Dialect :=
  ⟨c.serverVersion, c.mode, c.charsets⟩

/-- The settings for another server version. -/
def withVersion (c : Config) (version : String) : Config :=
  { c with version }

end Config

end MySqlAnalysis
