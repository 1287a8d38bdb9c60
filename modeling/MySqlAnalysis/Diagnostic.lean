import MySqlAnalysis.SyntaxEvent
import MySqlAnalysis.Text.Search

/-!
# Diagnostics

Diagnostics are syntax events in words for an editor. Of each kind, the latest
event counts.
-/

set_option autoImplicit false

namespace MySqlAnalysis

/-- Text that is no token. -/
structure LexerError where
  message : String
  /-- Offset just past the text. -/
  offset : Nat
  line : Nat
  column : Nat
  deriving DecidableEq

/-- A token that the grammar did not accept. -/
structure ParserError where
  message : String
  /-- The names of the tokens that would have been accepted, without repetitions. -/
  expected : List String
  offending : Token
  line : Nat
  column : Nat
  deriving DecidableEq

/-! ## Wording -/

/-- A text between double quotes. -/
def inQuotes (text : String) : String := "\x22" ++ text ++ "\x22"

namespace LexerError

/-- The wording for a text that is no token, by its first characters. -/
def describe (text : String) : String :=
  match text.toList with
  | '/' :: _ => "Unfinished multiline comment"
  | '\x22' :: _ => "Unfinished double quoted string literal"
  | '\x27' :: _ => "Unfinished single quoted string literal"
  | '\x60' :: _ => "Unfinished back tick quoted string literal"
  | 'x' :: '\x27' :: _ => "Unfinished hex string literal"
  | 'X' :: '\x27' :: _ => "Unfinished hex string literal"
  | 'b' :: '\x27' :: _ => "Unfinished binary string literal"
  | 'B' :: '\x27' :: _ => "Unfinished binary string literal"
  | _ => inQuotes text ++ " is no valid input at all"

/-- The error that an event of the tokenizer stands for. -/
def ofEvent? (e : SyntaxEvent) : Option LexerError :=
  match e.origin with
  | .lexer text offset => some ⟨describe text, offset, e.line, e.column⟩
  | .grammar _ _ _ => none

end LexerError

namespace ParserError

/-- The most names that a message lists. -/
def listedNames : Nat := 5

/-- The names of token kinds in order, without repetitions. -/
def names (kinds : List TokenKind) : List String :=
  kinds.foldl
    (fun seen kind => if seen.contains kind.name then seen else seen ++ [kind.name]) []

/-- The wording for a token that was not accepted, from the wording of its event. -/
def describe (raw : String) (offending : Token) (expected : List String)
    (failure : Option RecognitionFailure) : String :=
  match failure with
  | none =>
    let listed := ", ".intercalate (expected.take listedNames)
    if expected.length == 1 && (Text.find? "missing".toList raw.toList).isSome then
      "Missing " ++ listed
    else "Extraneous input " ++ inQuotes offending.text ++ " found, expecting " ++ listed
  | some .failedPredicate => raw
  | some _ =>
    if offending.isEof then "Statement is incomplete"
    else inQuotes offending.text ++ " is not valid at this position"

/-- The error that an event of the grammar stands for. -/
def ofEvent? (e : SyntaxEvent) : Option ParserError :=
  match e.origin with
  | .lexer _ _ => none
  | .grammar offending expected failure =>
    some
      { message := describe e.message offending (names expected) failure
        expected := names expected
        offending := offending
        line := e.line
        column := e.column }

end ParserError

/-! ## Either kind -/

/-- A syntax error of either kind. -/
inductive Diagnostic where
  | lexer (error : LexerError)
  | parser (error : ParserError)
  deriving DecidableEq

namespace Diagnostic

/-- The number of the kind of error. -/
def code : Diagnostic → Nat
  | lexer _ => 1
  | parser _ => 2

/-- The wording. -/
def message : Diagnostic → String
  | lexer error => error.message
  | parser error => error.message

/-- The line of the first character. -/
def line : Diagnostic → Nat
  | lexer error => error.line
  | parser error => error.line

/-- The column of the first character. -/
def column : Diagnostic → Nat
  | lexer error => error.column
  | parser error => error.column

end Diagnostic

/-- The latest error of each kind. -/
structure Diagnostics where
  lexer : Option LexerError
  parser : Option ParserError
  deriving DecidableEq

namespace Diagnostics

/-- No errors. -/
def none : Diagnostics := ⟨.none, .none⟩

/-- The errors after one more event. -/
def observe (d : Diagnostics) (e : SyntaxEvent) : Diagnostics :=
  ⟨(LexerError.ofEvent? e).or d.lexer, (ParserError.ofEvent? e).or d.parser⟩

/-- The latest errors of a list of events. -/
def ofEvents (events : List SyntaxEvent) : Diagnostics :=
  events.foldl observe none

/-- The errors that are present, the tokenizer's first. -/
def list (d : Diagnostics) : List Diagnostic :=
  (d.lexer.map Diagnostic.lexer).toList ++ (d.parser.map Diagnostic.parser).toList

/-- Whether there is an error. -/
def hasErrors (d : Diagnostics) : Bool :=
  d.lexer.isSome || d.parser.isSome

end Diagnostics

end MySqlAnalysis
