import MySqlAnalysis.Token.Basic

/-!
# Syntax events

What is reported while a text is read: stretches that are no token, and tokens
that the grammar did not accept.
-/

set_option autoImplicit false

namespace MySqlAnalysis

/-- Why the grammar gave up on a token. -/
inductive RecognitionFailure where
  /-- The token is not the required one. -/
  | inputMismatch
  /-- No alternative starts with the token. -/
  | noViableAlternative
  /-- The server version does not have the rule. -/
  | failedPredicate
  deriving DecidableEq

/-- Where an event comes from. -/
inductive EventOrigin where
  /-- A stretch of text that is no token; `offset` is just past it. -/
  | lexer (text : String) (offset : Nat)
  /-- A token that was not accepted. The failure is absent when the input was
  repaired by deleting or inserting one token. -/
  | grammar (offending : Token) (expected : List TokenKind)
      (failure : Option RecognitionFailure)
  deriving DecidableEq

/-- One report. -/
structure SyntaxEvent where
  line : Nat
  column : Nat
  message : String
  origin : EventOrigin
  deriving DecidableEq

/-- The report of a stretch of text that is no token. -/
def SyntaxEvent.unreadable (text : String) (p : Text.Position) : SyntaxEvent where
  line := p.line
  column := p.column
  message := "token recognition error at: '" ++ text ++ "'"
  origin := .lexer text (p.offset + Text.byteLength text.toList)

end MySqlAnalysis
