import MySqlAnalysis.Text.Search

/-!
# SQL modes

The modes that change how text is read, as a set of 32 bits of which five have
a name. Two text forms exist: the server's comma separated list, where unknown
names are ignored, and the list of flags joined by bars, which keeps every bit.
-/

set_option autoImplicit false

namespace MySqlAnalysis

/-- A set of mode bits. -/
structure SqlMode where
  bits : UInt32
  deriving DecidableEq, Repr

namespace SqlMode

/-- The modes with a name. -/
inductive Flag where
  /-- Double quoted text is an identifier. -/
  | ansiQuotes
  /-- `NOT` binds tighter than the comparison operators. -/
  | highNotPrecedence
  /-- Two bars join strings. -/
  | pipesAsConcat
  /-- Blanks may stand between a function name and its parenthesis. -/
  | ignoreSpace
  /-- A backslash is an ordinary character of a string literal. -/
  | noBackslashEscapes
  deriving DecidableEq, Repr

/-- All flags, lowest bit first. -/
def Flag.all : List Flag :=
  [.ansiQuotes, .highNotPrecedence, .pipesAsConcat, .ignoreSpace, .noBackslashEscapes]

/-- The bit of a flag. -/
def Flag.bit : Flag → UInt32
  | .ansiQuotes => 1
  | .highNotPrecedence => 2
  | .pipesAsConcat => 4
  | .ignoreSpace => 8
  | .noBackslashEscapes => 16

/-- The name of a flag. -/
def Flag.name : Flag → String
  | .ansiQuotes => "ANSI_QUOTES"
  | .highNotPrecedence => "HIGH_NOT_PRECEDENCE"
  | .pipesAsConcat => "PIPES_AS_CONCAT"
  | .ignoreSpace => "IGNORE_SPACE"
  | .noBackslashEscapes => "NO_BACKSLASH_ESCAPES"

/-- The flag with the given name. -/
def Flag.ofName? (name : String) : Option Flag :=
  Flag.all.find? (·.name == name)

/-- No mode. -/
def empty : SqlMode := ⟨0⟩

/-- The mode with exactly one flag. -/
def ofFlag (f : Flag) : SqlMode := ⟨f.bit⟩

/-- Whether a flag is set. -/
def has (m : SqlMode) (f : Flag) : Bool :=
  m.bits &&& f.bit != 0

/-- The bits of either mode. -/
def union (m n : SqlMode) : SqlMode := ⟨m.bits ||| n.bits⟩

/-- The flags that are set, lowest bit first. -/
def flags (m : SqlMode) : List Flag :=
  Flag.all.filter m.has

/-- The bits that no flag names. -/
def unnamed (m : SqlMode) : UInt32 :=
  m.bits &&& ~~~31

/-- The flags that a name of the server's list stands for. Combination modes
expand to the flags that matter for reading; other names stand for none. -/
def flagsOfServerName (name : String) : List Flag :=
  if ["ANSI", "DB2", "MAXDB", "MSSQL", "ORACLE", "POSTGRESQL"].contains name then
    [.ansiQuotes, .pipesAsConcat, .ignoreSpace]
  else (Flag.ofName? name).toList

/-- Reads the server's comma separated list, ignoring case and unknown names. -/
def ofServerList (text : String) : SqlMode :=
  (Text.split ',' text.toList).foldl
    (fun m piece =>
      (flagsOfServerName (String.ofList (Text.upper (Text.trim piece)))).foldl
        (fun m f => m.union (ofFlag f)) m)
    empty

/-- The parts of the bar separated form: the names of the flags that are set and,
when other bits are set, their hexadecimal value. -/
def parts (m : SqlMode) : List String :=
  m.flags.map Flag.name ++
    if m.unnamed == 0 then []
    else ["0x" ++ String.ofList (Nat.toDigits 16 m.unnamed.toNat)]

/-- A part of the bar separated form as it may be given: the name of a flag, or `0x`
and the hexadecimal digits of at most 32 bits. -/
inductive IsPart : List Char → SqlMode → Prop where
  | name (f : Flag) : IsPart f.name.toList (ofFlag f)
  | digits {digits : List Char} {bits : UInt32} (hne : digits ≠ [])
      (hdigits : digits.all Text.isHexDigit = true)
      (hvalue : Text.hexadecimalValue digits = bits.toNat) : IsPart ('0' :: 'x' :: digits) ⟨bits⟩

/-- The bar separated form as it may be given: no part at all, or parts with bars
between them; blanks do not count. -/
inductive IsBarForm : List Char → SqlMode → Prop where
  | blank {text : List Char} (h : text.all Text.isWhiteSpace = true) : IsBarForm text empty
  | parts {text : List Char} {modes : List SqlMode}
      (h : Text.Separated '|' Text.isWhiteSpace IsPart text modes) :
      IsBarForm text (modes.foldl union empty)

end SqlMode

end MySqlAnalysis
