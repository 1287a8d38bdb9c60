/-!
# Character classes of MySQL text

The tokenizer, the statement splitter and the configuration readers each have
their own idea of a blank. This file names the classes once, together with the
three quote characters and the characters of an unquoted identifier.
-/

set_option autoImplicit false

namespace MySqlAnalysis.Text

/-- The quote of string literals. -/
def apostrophe : Char := '\x27'

/-- The double quote, which opens a string or, in ANSI mode, an identifier. -/
def quotationMark : Char := '\x22'

/-- The quote of identifiers. -/
def backtick : Char := '\x60'

/-- The character that escapes the next one inside a string literal. -/
def backslash : Char := '\x5c'

/-- One of the three characters that open a quoted region. -/
def isQuote (c : Char) : Bool :=
  c == apostrophe || c == quotationMark || c == backtick

/-- Characters outside ASCII. -/
def isWide (c : Char) : Bool :=
  128 ≤ c.toNat

/-- Blanks between tokens: space, tab, line feed, carriage return, vertical tab, form feed. -/
def isBlank (c : Char) : Bool :=
  c == ' ' || c == '\t' || c == '\n' || c == '\r' || c == '\x0b' || c == '\x0c'

/-- Blanks that do not give a statement any content: the blanks between tokens
without the vertical tab. -/
def isPlainBlank (c : Char) : Bool :=
  c == ' ' || c == '\t' || c == '\n' || c == '\r' || c == '\x0c'

/-- Characters that may follow the two dashes of a line comment: ASCII controls and the space. -/
def endsDashes (c : Char) : Bool :=
  c.toNat ≤ 0x20 || c.toNat == 0x7f

/-- Unicode white space, the class that trimming removes. -/
def isWhiteSpace (c : Char) : Bool :=
  let n := c.toNat
  (0x09 ≤ n && n ≤ 0x0d) || n == 0x20 || n == 0x85 || n == 0xa0 || n == 0x1680 ||
    (0x2000 ≤ n && n ≤ 0x200a) || n == 0x2028 || n == 0x2029 || n == 0x202f ||
    n == 0x205f || n == 0x3000

/-- Characters that can start an unquoted identifier. -/
def isIdentifierStart (c : Char) : Bool :=
  c.isAlpha || c == '_' || c == '$' || isWide c

/-- Characters that can continue an unquoted identifier. -/
def isIdentifierPart (c : Char) : Bool :=
  isIdentifierStart c || c.isDigit

/-- Hexadecimal digits in either case. -/
def isHexDigit (c : Char) : Bool :=
  c.isDigit || ('a' ≤ c && c ≤ 'f') || ('A' ≤ c && c ≤ 'F')

/-- Value of a hexadecimal digit; `0` for any other character. -/
def hexValue (c : Char) : Nat :=
  if c.isDigit then c.toNat - 0x30
  else if 'a' ≤ c && c ≤ 'f' then c.toNat - 0x57
  else if 'A' ≤ c && c ≤ 'F' then c.toNat - 0x37
  else 0

/-- Value of a digit sequence in base ten. -/
def decimalValue (digits : List Char) : Nat :=
  digits.foldl (fun value c => 10 * value + (c.toNat - 0x30)) 0

/-- Value of a digit sequence in base sixteen. -/
def hexadecimalValue (digits : List Char) : Nat :=
  digits.foldl (fun value c => 16 * value + hexValue c) 0

/-- The text with its ASCII letters in upper case. -/
def upper (cs : List Char) : List Char :=
  cs.map Char.toUpper

end MySqlAnalysis.Text
