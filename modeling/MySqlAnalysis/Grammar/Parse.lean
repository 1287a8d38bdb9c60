import MySqlAnalysis.Grammar.Machine
import MySqlAnalysis.Grammar.Script
import MySqlAnalysis.Token.Stream
import MySqlAnalysis.Tree.Arena

/-!
# Parsing a token list

`parse` runs the program of a start rule over the significant tokens of a list
and returns the tree, the reports and whether the run was cancelled. `arenaOf`
is the same run with the tree built in an arena.
-/

set_option autoImplicit false

namespace MySqlAnalysis.Grammar

/-- A rule that reading can start at. -/
inductive StartRule where
  /-- A script of statements. -/
  | query
  | simpleStatement
  | selectStatement
  | expr
  | identifier
  deriving DecidableEq

namespace StartRule

/-- All start rules. -/
def all : List StartRule := [query, simpleStatement, selectStatement, expr, identifier]

/-- The name of a start rule. -/
def name : StartRule → String
  | query => "query"
  | simpleStatement => "simpleStatement"
  | selectStatement => "selectStatement"
  | expr => "expr"
  | identifier => "identifier"

/-- The start rule with the given name. -/
def ofName? (name : String) : Option StartRule :=
  all.find? (·.name == name)

/-- The complaint about a name that no start rule has. -/
def unknownMessage (name : String) : String := "unknown start rule: " ++ name

/-- The program of a start rule. -/
def program : StartRule → Fragment
  | query => .call .script
  | simpleStatement => .call .simpleStatement
  | selectStatement => .call .selectStatement
  | expr => .call (.expr 0)
  | identifier => Grammar.identifier

end StartRule

/-- The token that stands for everything past the end of a list: the last one
that ends the input or, when the list has none, a token just past the last one. -/
def endingOf (tokens : List Token) : Token :=
  match tokens.reverse.find? Token.isEof with
  | some t => t
  | none =>
    match tokens.getLast? with
    | some t => .ending ⟨t.stop + 1, t.line, 0⟩ tokens.length
    | none => .ending ⟨0, 1, 0⟩ tokens.length

/-- What stays the same during a run over a token list. -/
def contextOf (o : Options) (tokens : List Token) : Context :=
  ⟨o.version, o.mode, o.prediction, endingOf tokens⟩

/-- The state before the first token. -/
def State.initial {β : Type} [Builder β] (tokens : List Token) : State β :=
  ⟨significant tokens, [], none, Builder.empty, []⟩

/-- The result of a run. -/
structure Parse where
  /-- The tree, absent when nothing was run. -/
  root : Option Tree
  reports : List Report
  /-- Position of the token that cancelled the run. -/
  cancelled : Option Nat

/-- A result without a run. -/
def Parse.empty : Parse := ⟨none, [], none⟩

/-- More calls than can lie inside each other while no token is read. -/
def callDepth : Nat := 64

/-- A bound for the calls inside each other on a token list. -/
def fuelFor (tokens : List Token) : Nat :=
  callDepth * ((significant tokens).length + 2)

/-- The outcome of running a start rule over a token list with a builder. -/
def outcomeIn (β : Type) [Builder β] (o : Options) (rule : StartRule) (tokens : List Token) :
    Outcome β :=
  run (contextOf o tokens) grammar (fuelFor tokens) o.strategy.reaction rule.program
    (.initial tokens)

/-- The outcome of running a start rule over a token list, with the trees built. -/
def outcomeOf (o : Options) (rule : StartRule) (tokens : List Token) : Outcome (List Tree) :=
  outcomeIn (List Tree) o rule tokens

/-- The position of the token that an outcome was cancelled at. -/
def Outcome.cancelled? {β : Type} : Outcome β → Option Nat
  | .aborted (.cancelled token) _ => some token
  | _ => none

/-- The result that an outcome stands for. -/
def Parse.ofOutcome (outcome : Outcome (List Tree)) : Parse where
  root := outcome.state.built.head?
  reports := outcome.state.reports
  cancelled := outcome.cancelled?

/-- Reads a token list from a start rule on. -/
def parse (o : Options) (rule : StartRule) (tokens : List Token) : Parse :=
  .ofOutcome (outcomeOf o rule tokens)

/-- The arena that is built when a token list is read from a start rule on. -/
def arenaOf (o : Options) (rule : StartRule) (tokens : List Token) : Arena :=
  (outcomeIn Arena o rule tokens).state.built

end MySqlAnalysis.Grammar
