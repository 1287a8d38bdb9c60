import MySqlAnalysis.Config.Basic
import MySqlAnalysis.Diagnostic
import MySqlAnalysis.Grammar.Parse
import MySqlAnalysis.Keyword.Policy
import MySqlAnalysis.QueryType.Classify
import MySqlAnalysis.Reference.Infer
import MySqlAnalysis.Script.Statement
import MySqlAnalysis.Token.Tokenize

/-!
# Analysing a text

An analysis is the document read from a text, its references, and its latest
errors. The tree comes from a fast run, which decides by a bounded number of
tokens and stops at the first error; only when that run is cancelled does an
exact run with error recovery replace it.
-/

set_option autoImplicit false

namespace MySqlAnalysis

open Grammar

/-- What was found in a text. -/
structure Analysis where
  document : Document
  references : List Reference
  /-- The events for text that is no token. -/
  tokenEvents : List SyntaxEvent
  /-- The events for tokens that the grammar did not accept. -/
  grammarEvents : List SyntaxEvent
  /-- The family whose reserved words are looked up. -/
  family : Option Family

namespace Config

/-- The settings of the run that stops at the first error. -/
def fastOptions (c : Config) : Options :=
  ⟨c.serverVersion, c.mode, .bounded, .bail⟩

/-- The settings of the run that recovers from errors. -/
def exactOptions (c : Config) : Options :=
  ⟨c.serverVersion, c.mode, .speculative, .recover⟩

/-- Reads a token list with the fast run or, when it is cancelled, with the exact one. -/
def parseTokens (c : Config) (rule : StartRule) (tokens : List Token) : Parse :=
  let fast := parse c.fastOptions rule tokens
  if fast.cancelled.isSome then parse c.exactOptions rule tokens else fast

/-- The arena of the run that `parseTokens` takes its result from. -/
def arenaTokens (c : Config) (rule : StartRule) (tokens : List Token) : Arena :=
  let fast := parse c.fastOptions rule tokens
  if fast.cancelled.isSome then arenaOf c.exactOptions rule tokens
  else arenaOf c.fastOptions rule tokens

/-- Analyses a text from a start rule on. -/
def analyze (c : Config) (rule : StartRule) (text : String) : Analysis :=
  let tokens := tokenize c.dialect text
  let parsed := c.parseTokens rule tokens
  let document : Document := ⟨text, tokens.toArray, parsed.root⟩
  { document := document
    references := document.references
    tokenEvents := MySqlAnalysis.tokenEvents c.dialect text
    grammarEvents := parsed.reports.map Report.event
    family := c.family? }

/-- The statements of a script with line feeds and semicolons. -/
def statements (_ : Config) (text : String) : List Statement :=
  Script.statements (.ofTexts "\n" ";") text

/-- The statements of a script, each analysed on its own. -/
def analyzeScript (c : Config) (text : String) : List (Statement × Analysis) :=
  (c.statements text).map fun s => (s, c.analyze .query s.text)

/-- The keywords of the configured server. -/
def keywords (c : Config) : List String := Keyword.words c.family?

/-- The reserved words of the configured server. -/
def reservedWords (c : Config) : List String := Keyword.reservedWords c.family?

/-- Whether a word is a keyword of the configured server. -/
def isKeyword (c : Config) (word : String) : Bool := Keyword.isKeyword word c.family?

/-- Whether a word is reserved on the configured server. -/
def isReservedWord (c : Config) (word : String) : Bool := Keyword.isReservedWord word c.family?

end Config

namespace Analysis

/-- All tokens, hidden ones included. -/
def tokens (a : Analysis) : List Token := a.document.tokens.toList

/-- The latest errors. -/
def diagnostics (a : Analysis) : Diagnostics :=
  .ofEvents (a.tokenEvents ++ a.grammarEvents)

/-- The kind of the first statement. -/
def queryType (a : Analysis) : QueryType := .classify a.tokens

/-- The first token on an offset, other than the end of the input. -/
def tokenAt? (a : Analysis) (offset : Nat) : Option Token :=
  a.tokens.find? fun t => !t.isEof && t.contains offset

/-- The first reference on an offset. -/
def referenceAt? (a : Analysis) (offset : Nat) : Option Reference :=
  a.references.find? (·.contains offset)

/-- The keyword reference for a reserved word, placed after all references. -/
def keywordReference? (a : Analysis) (t : Token) : Option Reference :=
  if Keyword.isReservedWord t.text a.family then
    some ⟨a.references.length, t.start, t.stop, .keyword t.text⟩
  else none

/-- The reference on an offset or, without one, the reserved word there. -/
def mentionAt? (a : Analysis) (offset : Nat) : Option Reference :=
  match a.referenceAt? offset with
  | some r => some r
  | none => (a.tokenAt? offset).bind a.keywordReference?

end Analysis

end MySqlAnalysis
