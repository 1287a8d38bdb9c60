import MySqlAnalysis.SyntaxEvent
import MySqlAnalysis.Token.Recognize

/-!
# Tokenizing a text

A text is cut into lexemes, one per round: each is a token or a stretch that
cannot be read. The tokens are the readable lexemes in order, numbered, and the
token that ends the input; the unreadable ones become events.
-/

set_option autoImplicit false

namespace MySqlAnalysis

open Text

/-- A stretch of text that one round of the tokenizer consumed. -/
structure Lexeme where
  /-- The kind of token, absent when the text cannot be read. -/
  kind : Option TokenKind
  text : List Char
  position : Position

namespace Token

/-- The state after a lexeme was recognised. -/
def ScanState.after (s : ScanState) (r : Recognition) (text : List Char) : ScanState where
  position := s.position.after text
  versionComment := r.versionComment
  last :=
    match r.kind with
    | some kind => if kind.channel == .default then some kind else s.last
    | none => s.last

/-- The lexemes of a text whose first `pending` characters are already part of
the lexeme before it. -/
def lexemesFrom (d : Dialect) : (pending : Nat) → ScanState → List Char → List Lexeme
  | _, _, [] => []
  | pending + 1, s, _ :: rest => lexemesFrom d pending s rest
  | 0, s, c :: rest =>
    let r := recognize d s c rest
    let text := c :: rest.take r.extra
    ⟨r.kind, text, s.position⟩ :: lexemesFrom d r.extra (s.after r text) rest

/-- The lexemes of a text. -/
def lexemes (d : Dialect) (text : List Char) : List Lexeme :=
  lexemesFrom d 0 .start text

/-- The token that a readable lexeme stands for. -/
def ofLexeme (l : Lexeme) (kind : TokenKind) (index : Nat) : Token where
  kind := kind
  channel := kind.channel
  text := String.ofList l.text
  start := l.position.offset
  stop := l.position.offset + byteLength l.text - 1
  line := l.position.line
  column := l.position.column
  index := index

/-- The tokens of the readable lexemes, numbered from `index`, and the token
that ends the input at `stop`. -/
def ofLexemes (stop : Position) : (index : Nat) → List Lexeme → List Token
  | index, [] => [ending stop index]
  | index, l :: ls =>
    match l.kind with
    | some kind => ofLexeme l kind index :: ofLexemes stop (index + 1) ls
    | none => ofLexemes stop index ls

/-- The event for a lexeme that cannot be read. -/
def eventOfLexeme? (l : Lexeme) : Option SyntaxEvent :=
  match l.kind with
  | some _ => none
  | none => some (.unreadable (String.ofList l.text) l.position)

end Token

/-- The tokens of a text, hidden ones included; the last one ends the input. -/
def tokenize (d : Dialect) (text : String) : List Token :=
  Token.ofLexemes (Position.start.after text.toList) 0 (Token.lexemes d text.toList)

/-- The events for the stretches of a text that cannot be read. -/
def tokenEvents (d : Dialect) (text : String) : List SyntaxEvent :=
  (Token.lexemes d text.toList).filterMap Token.eventOfLexeme?

end MySqlAnalysis
