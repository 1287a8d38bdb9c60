import MySqlAnalysis.SyntaxEvent
import MySqlAnalysis.Tree.Rule

/-!
# Reports of the grammar

A report names the token that was not accepted, the kinds that were tried at
its place and the cause. `Report.event` puts it into words.
-/

set_option autoImplicit false

namespace MySqlAnalysis.Grammar

/-- What was wrong with a token. -/
inductive Cause where
  /-- The token was deleted, since the next one is the required one. -/
  | extraneous
  /-- A token of this kind was inserted before it. -/
  | missing (kind : TokenKind)
  /-- It is not the required token. -/
  | mismatched
  /-- It starts none of the alternatives. -/
  | noAlternative
  /-- The server does not have the rule before this version. -/
  | gate (rule : Rule) (version : ServerVersion)
  deriving DecidableEq

/-- The failure behind a cause, absent when the input was repaired. -/
def Cause.failure? : Cause → Option RecognitionFailure
  | extraneous => none
  | missing _ => none
  | mismatched => some .inputMismatch
  | noAlternative => some .noViableAlternative
  | gate _ _ => some .failedPredicate

/-- A refused token. -/
structure Report where
  offending : Token
  /-- The kinds tried since the last token was read, in order. -/
  expected : List TokenKind
  cause : Cause
  deriving DecidableEq

/-- A token between quotes. -/
def quoted (t : Token) : String :=
  if t.isEof then "'<EOF>'" else "'" ++ t.text ++ "'"

/-- The names of the expected kinds: one alone, several in braces. -/
def listed (expected : List TokenKind) : String :=
  match expected with
  | [kind] => kind.name
  | kinds => "\x7b" ++ ", ".intercalate (kinds.map TokenKind.name) ++ "\x7d"

namespace Report

/-- The wording of a report. -/
def message (r : Report) : String :=
  match r.cause with
  | .extraneous => "extraneous input " ++ quoted r.offending ++ " expecting " ++ listed r.expected
  | .missing kind => "missing " ++ kind.name ++ " at " ++ quoted r.offending
  | .mismatched => "mismatched input " ++ quoted r.offending ++ " expecting " ++ listed r.expected
  | .noAlternative => "no viable alternative at input " ++ quoted r.offending
  | .gate rule version =>
    "rule " ++ rule.name ++ " failed predicate: \x7bserverVersion >= " ++
      toString version.number ++ "\x7d?"

/-- The event that a report is announced as. -/
def event (r : Report) : SyntaxEvent where
  line := r.offending.line
  column := r.offending.column
  message := r.message
  origin := .grammar r.offending r.expected r.cause.failure?

end Report

end MySqlAnalysis.Grammar
