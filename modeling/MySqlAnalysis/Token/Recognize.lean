import MySqlAnalysis.SqlMode
import MySqlAnalysis.Token.Basic

/-!
# Recognising one token

`recognize` looks at the head of a text and says which token starts there and
how many further characters belong to it. It never looks back except at two
facts: whether a version comment is open, and what the last significant token
was.
-/

set_option autoImplicit false

namespace MySqlAnalysis

/-- What decides how text is read: the server version, the modes, and the
character sets accepted after an underscore. -/
structure Dialect where
  version : ServerVersion
  mode : SqlMode
  charsets : List String
  deriving DecidableEq

namespace Token

open Text

/-- What was recognised at the head of a text. -/
structure Recognition where
  /-- The kind of token, absent when the text cannot be read. -/
  kind : Option TokenKind
  /-- Number of characters after the first one that belong to it. -/
  extra : Nat
  /-- Whether a version comment is open afterwards. -/
  versionComment : Bool

/-- What the tokenizer remembers between two tokens. -/
structure ScanState where
  position : Position
  versionComment : Bool
  last : Option TokenKind

/-- The state before the first token. -/
def ScanState.start : ScanState := ⟨.start, false, none⟩

/-- Number of characters up to and including the quote that closes a region
opened by `quote`. A doubled quote and, with `escapes`, a backslash and the
character after it do not close it. -/
def closeQuote (quote : Char) (escapes : Bool) : List Char → Option Nat
  | [] => none
  | [c] => if escapes && c == backslash then none else if c == quote then some 1 else none
  | c :: d :: cs =>
    if escapes && c == backslash then (closeQuote quote escapes cs).map (· + 2)
    else if c == quote then
      if d == quote then (closeQuote quote escapes cs).map (· + 2) else some 1
    else (closeQuote quote escapes (d :: cs)).map (· + 1)

/-- Whether a backslash escapes inside a region opened by `quote`. -/
def hasEscapes (d : Dialect) (quote : Char) : Bool :=
  quote != backtick && !d.mode.has .noBackslashEscapes

/-- The kind of a region opened by `quote`. -/
def quotedKind (d : Dialect) (quote : Char) : TokenKind :=
  if quote == apostrophe then .singleQuoted
  else if quote == backtick || d.mode.has .ansiQuotes then .quotedIdentifier
  else .doubleQuoted

/-- The token of kind `kind` when its length is known; otherwise all of the rest
is unreadable. -/
def closed (kind : TokenKind) (extra : Option Nat) (rest : List Char) (inComment : Bool) :
    Recognition :=
  match extra with
  | some n => ⟨some kind, n, inComment⟩
  | none => ⟨none, rest.length, inComment⟩

/-- The comment that starts with a slash and a star; `body` is the text after
the star. A version comment whose version is reached only opens: its body is
read as code. -/
def blockComment (d : Dialect) (body : List Char) (inComment : Bool) : Recognition :=
  let digits := (body.tail.takeWhile Char.isDigit).take 5
  if body.head? == some '!' && (digits.isEmpty || decimalValue digits ≤ d.version.number) then
    ⟨some .comment, 2 + digits.length, true⟩
  else
    closed .comment ((find? ['*', '/'] body).map (· + 3)) ('*' :: body) inComment

/-- Digits of a number written with a radix mark. -/
def isRadixDigit (mark c : Char) : Bool :=
  if mark == 'x' then isHexDigit c else c == '0' || c == '1'

/-- The length of an exponent at the head of a text, `0` when there is none. -/
def exponentLength (cs : List Char) : Nat :=
  match cs with
  | e :: rest =>
    if e == 'e' || e == 'E' then
      let sign := if rest.head? == some '+' || rest.head? == some '-' then 1 else 0
      let digits := runLength Char.isDigit (rest.drop sign)
      if digits == 0 then 0 else 1 + sign + digits
    else 0
  | [] => 0

/-- The length and kind of a number written with a radix mark. -/
def radixNumber? (cs : List Char) : Option (Nat × TokenKind) :=
  match cs with
  | '0' :: mark :: rest =>
    if mark == 'x' || mark == 'b' then
      let digits := runLength (isRadixDigit mark) rest
      if digits == 0 then none
      else some (2 + digits, if mark == 'x' then .hex else .binary)
    else none
  | _ => none

/-- The length and kind of a number without a radix mark: digits, then a point
and digits, then an exponent. -/
def plainNumber (cs : List Char) : Nat × TokenKind :=
  let whole := runLength Char.isDigit cs
  let rest := cs.drop whole
  let fraction := if rest.head? == some '.' then 1 + runLength Char.isDigit rest.tail else 0
  let power := exponentLength (rest.drop fraction)
  (whole + fraction + power,
    if power != 0 then .float else if fraction != 0 then .decimal else .integer)

/-- A number. Digits, with or without a radix mark, that run into identifier
characters make an identifier of the whole word. -/
def number (cs : List Char) (inComment : Bool) : Recognition :=
  let (length, kind) := (radixNumber? cs).getD (plainNumber cs)
  let tail := runLength isIdentifierPart (cs.drop length)
  if tail != 0 && (kind == .integer || kind == .hex || kind == .binary) then
    ⟨some .identifier, length + tail - 1, inComment⟩
  else ⟨some kind, length - 1, inComment⟩

/-- Characters of an unquoted user variable. -/
def isVariablePart (c : Char) : Bool :=
  isIdentifierPart c || c == '.'

/-- What starts with an at sign; `rest` is the text after it. -/
def atSign (d : Dialect) (rest : List Char) (inComment : Bool) : Recognition :=
  match rest with
  | c :: cs =>
    if c == '@' then ⟨some .atAt, 1, inComment⟩
    else if isQuote c then
      closed .userVariable ((closeQuote c (hasEscapes d c) cs).map (· + 1)) rest inComment
    else if isVariablePart c then ⟨some .userVariable, runLength isVariablePart rest, inComment⟩
    else ⟨none, 0, inComment⟩
  | [] => ⟨none, 0, inComment⟩

/-- Whether a word is an underscore and a known character set. -/
def isCharsetIntroducer (d : Dialect) (word : List Char) : Bool :=
  word.head? == some '_' &&
    d.charsets.any fun known => upper known.toList == upper word.tail

/-- The kind of an unquoted word: a character set introducer, a keyword of the
server's family, or an identifier. -/
def wordKind (d : Dialect) (word : List Char) : TokenKind :=
  if isCharsetIntroducer d word then .charsetIntroducer
  else
    match Keyword.ofWord? (String.ofList word) with
    | some k => if k.isAvailable d.version.grammarFamily then .keyword k else .identifier
    | none => .identifier

/-- The operator or punctuation mark that starts with `c`, and how many further
characters it has. -/
def operator? (d : Dialect) (c : Char) (rest : List Char) : Option (TokenKind × Nat) :=
  let second := rest.head?
  let third := rest.tail.head?
  match c with
  | '<' =>
    if second == some '=' then
      if third == some '>' then some (.nullSafeEqual, 2) else some (.lessOrEqual, 1)
    else if second == some '>' then some (.notEqual, 1)
    else if second == some '<' then some (.shiftLeft, 1)
    else some (.less, 0)
  | '>' =>
    if second == some '=' then some (.greaterOrEqual, 1)
    else if second == some '>' then some (.shiftRight, 1)
    else some (.greater, 0)
  | '=' => some (.equal, 0)
  | '!' => if second == some '=' then some (.notEqual, 1) else some (.bang, 0)
  | '-' =>
    if second == some '>' then
      if third == some '>' then some (.doubleArrow, 2) else some (.arrow, 1)
    else some (.minus, 0)
  | '+' => some (.plus, 0)
  | '*' => some (.star, 0)
  | '/' => some (.slash, 0)
  | '%' => some (.percent, 0)
  | '~' => some (.tilde, 0)
  | '^' => some (.caret, 0)
  | '&' => if second == some '&' then some (.doubleAmpersand, 1) else some (.ampersand, 0)
  | '|' =>
    if second == some '|' then
      some (if d.mode.has .pipesAsConcat then .concatenation else .logicalOr, 1)
    else some (.bar, 0)
  | ':' => if second == some '=' then some (.assign, 1) else some (.colon, 0)
  | '.' => some (.dot, 0)
  | ',' => some (.comma, 0)
  | ';' => some (.semicolon, 0)
  | '(' => some (.openParen, 0)
  | ')' => some (.closeParen, 0)
  | '\x7b' => some (.openBrace, 0)
  | '\x7d' => some (.closeBrace, 0)
  | '?' => some (.parameter, 0)
  | _ => none

/-- Whether two dashes at the head of a text start a comment; `rest` is the text
after the first dash. -/
def startsDashComment (rest : List Char) : Bool :=
  rest.head? == some '-' && (rest.tail.head?).all endsDashes

/-- Whether a point at the head of a text starts a number; `rest` is the text
after the point. After an identifier it separates names. -/
def startsFraction (last : Option TokenKind) (rest : List Char) : Bool :=
  rest.head?.any Char.isDigit && last != some .identifier && last != some .quotedIdentifier

/-- Recognises the token at the head of the text `c :: rest`. -/
def recognize (d : Dialect) (s : ScanState) (c : Char) (rest : List Char) : Recognition :=
  let inComment := s.versionComment
  if isBlank c then ⟨some .whitespace, runLength isBlank rest, inComment⟩
  else if c == '#' || (c == '-' && startsDashComment rest) then
    ⟨some .comment, runLength (· != '\n') rest, inComment⟩
  else if c == '/' && rest.head? == some '*' then blockComment d rest.tail inComment
  else if c == '*' && inComment && rest.head? == some '/' then ⟨some .comment, 1, false⟩
  else if isQuote c then
    closed (quotedKind d c) (closeQuote c (hasEscapes d c) rest) rest inComment
  else if (c == 'x' || c == 'X') && rest.head? == some apostrophe then
    closed .hex ((find? [apostrophe] rest.tail).map (· + 2)) rest inComment
  else if (c == 'b' || c == 'B') && rest.head? == some apostrophe then
    closed .binary ((find? [apostrophe] rest.tail).map (· + 2)) rest inComment
  else if (c == 'n' || c == 'N') && rest.head? == some apostrophe then
    closed .national
      ((closeQuote apostrophe (hasEscapes d apostrophe) rest.tail).map (· + 1)) rest inComment
  else if c.isDigit || (c == '.' && startsFraction s.last rest) then number (c :: rest) inComment
  else if c == '@' then atSign d rest inComment
  else if isIdentifierStart c then
    let extra := runLength isIdentifierPart rest
    ⟨some (wordKind d (c :: rest.take extra)), extra, inComment⟩
  else
    match operator? d c rest with
    | some (kind, extra) => ⟨some kind, extra, inComment⟩
    | none => ⟨none, 0, inComment⟩

end Token

end MySqlAnalysis
