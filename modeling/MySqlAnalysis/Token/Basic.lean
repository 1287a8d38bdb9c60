import MySqlAnalysis.Keyword.Vocabulary
import MySqlAnalysis.Text.Offset

/-!
# Tokens

A token is a kind, the text it was read from and the place of that text. Blanks
and comments are tokens too; they travel on a channel of their own, which the
grammar does not see.
-/

set_option autoImplicit false

namespace MySqlAnalysis

/-- What a token is. -/
inductive TokenKind where
  | keyword (k : Keyword)
  /-- An unquoted identifier. -/
  | identifier
  /-- An identifier in back ticks or, in ANSI mode, in double quotes. -/
  | quotedIdentifier
  | singleQuoted
  | doubleQuoted
  /-- A string with the mark of the national character set, `N'text'`. -/
  | national
  | integer
  | decimal
  /-- A number with an exponent. -/
  | float
  | hex
  | binary
  /-- A character set name after an underscore, in front of a string. -/
  | charsetIntroducer
  | userVariable
  | atAt
  | parameter
  | equal
  | nullSafeEqual
  | greaterOrEqual
  | greater
  | lessOrEqual
  | less
  | notEqual
  | plus
  | minus
  | star
  | slash
  | percent
  | bang
  | tilde
  | shiftLeft
  | shiftRight
  | doubleAmpersand
  | ampersand
  | caret
  /-- Two bars as a logical operator. -/
  | logicalOr
  /-- Two bars that join strings. -/
  | concatenation
  | bar
  | dot
  | comma
  | semicolon
  | colon
  | assign
  | openParen
  | closeParen
  | openBrace
  | closeBrace
  | arrow
  | doubleArrow
  | whitespace
  | comment
  /-- The end of the input. -/
  | eof
  deriving DecidableEq

namespace TokenKind

/-- The name under which a kind is listed among the expected ones. -/
def name : TokenKind → String
  | keyword k => k.word
  | identifier => "identifier"
  | quotedIdentifier => "back tick quoted identifier"
  | singleQuoted => "single quoted text"
  | doubleQuoted => "double quoted text"
  | national => "national string"
  | integer => "integer"
  | decimal => "decimal number"
  | float => "float number"
  | hex => "hex number"
  | binary => "binary number"
  | charsetIntroducer => "charset introducer"
  | userVariable => "user variable"
  | atAt => "@@"
  | parameter => "?"
  | equal => "="
  | nullSafeEqual => "<=>"
  | greaterOrEqual => ">="
  | greater => ">"
  | lessOrEqual => "<="
  | less => "<"
  | notEqual => "<>"
  | plus => "+"
  | minus => "-"
  | star => "*"
  | slash => "/"
  | percent => "%"
  | bang => "!"
  | tilde => "~"
  | shiftLeft => "<<"
  | shiftRight => ">>"
  | doubleAmpersand => "&&"
  | ampersand => "&"
  | caret => "^"
  | logicalOr => "||"
  | concatenation => "||"
  | bar => "|"
  | dot => "."
  | comma => ","
  | semicolon => ";"
  | colon => ":"
  | assign => ":="
  | openParen => "("
  | closeParen => ")"
  | openBrace => "\x7b"
  | closeBrace => "\x7d"
  | arrow => "->"
  | doubleArrow => "->>"
  | whitespace => "whitespace"
  | comment => "comment"
  | eof => "<EOF>"

/-- The keyword of a keyword token. -/
def keyword? : TokenKind → Option Keyword
  | keyword k => some k
  | _ => none

/-- Whether the token can be used as an unquoted identifier in a family. -/
def isName (f : Family) : TokenKind → Bool
  | identifier => true
  | quotedIdentifier => true
  | keyword k => k.status f == .nonReserved
  | _ => false

end TokenKind

/-- The channel a token travels on. -/
inductive Channel where
  /-- Tokens that the grammar sees. -/
  | default
  /-- Blanks and comments. -/
  | hidden
  deriving DecidableEq

/-- Blanks and comments are hidden, everything else is not. -/
def TokenKind.channel : TokenKind → Channel
  | whitespace => .hidden
  | comment => .hidden
  | _ => .default

/-- A token with its place in the text. `stop` is the offset of its last byte. -/
structure Token where
  kind : TokenKind
  channel : Channel
  text : String
  start : Nat
  stop : Nat
  line : Nat
  column : Nat
  /-- Position in the list of all tokens. -/
  index : Nat
  deriving DecidableEq

namespace Token

/-- Whether this is the token that ends the input. -/
def isEof (t : Token) : Bool := t.kind == .eof

/-- Whether the token is on the channel that the grammar sees. -/
def isSignificant (t : Token) : Bool := t.channel == .default

/-- Whether an offset lies on the token, both ends included. -/
def contains (t : Token) (offset : Nat) : Bool :=
  t.start ≤ offset && offset ≤ t.stop

/-- The text with its ASCII letters in upper case. -/
def upperText (t : Token) : String :=
  String.ofList (Text.upper t.text.toList)

/-- The token that ends an input at the given place. -/
def ending (p : Text.Position) (index : Nat) : Token :=
  ⟨.eof, .default, "", p.offset, p.offset, p.line, p.column, index⟩

end Token

end MySqlAnalysis
