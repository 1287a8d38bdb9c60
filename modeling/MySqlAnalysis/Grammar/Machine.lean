import MySqlAnalysis.Grammar.Program
import MySqlAnalysis.Grammar.Report
import MySqlAnalysis.Tree.Builder

/-!
# The grammar machine

A machine state holds the tokens still ahead, the kinds tried since the last
token was read, what was built from the tokens behind, and the reports made so
far. What is built is up to a builder. `exec` runs a program on a state, with the
meaning of names and of further rounds of a loop given by a parameter; `run` ties
the knot with a number that bounds the depth of such calls.

An error is handled as the reaction says: `bail` stops the whole run, `recover`
repairs the input or reports the error and gives up on the statement, and
`backtrack`, under which speculative alternatives run, silently fails.
-/

set_option autoImplicit false

namespace MySqlAnalysis.Grammar

/-- How ambiguous alternatives are decided. -/
inductive Prediction where
  /-- By a bounded number of tokens ahead. -/
  | bounded
  /-- By trying one alternative and taking it back when it does not fit. -/
  | speculative
  deriving DecidableEq

/-- What happens on a syntax error. -/
inductive ErrorStrategy where
  /-- The run stops, reporting nothing. -/
  | bail
  /-- The error is reported and the run goes on. -/
  | recover
  deriving DecidableEq

/-- The settings of a run. -/
structure Options where
  version : ServerVersion
  mode : SqlMode
  prediction : Prediction
  strategy : ErrorStrategy
  deriving DecidableEq

/-- What a program does on an error. -/
inductive Reaction where
  | bail
  | recover
  | backtrack
  deriving DecidableEq

/-- The reaction that a strategy starts with. -/
def ErrorStrategy.reaction : ErrorStrategy → Reaction
  | .bail => .bail
  | .recover => .recover

/-- What stays the same during a run. -/
structure Context where
  version : ServerVersion
  mode : SqlMode
  prediction : Prediction
  /-- The token that stands for everything past the last one. -/
  ending : Token

/-- The family whose keywords decide what can be an identifier. -/
def Context.family (c : Context) : Family := c.version.grammarFamily

/-- The state of a run with a builder. -/
structure State (β : Type) where
  /-- The significant tokens not yet read. -/
  ahead : List Token
  /-- The kinds tried since the last token was read, without repetitions. -/
  expected : List TokenKind
  /-- Position of the last token that was read. -/
  last : Option Nat
  /-- What was built from the tokens that were read. -/
  built : β
  reports : List Report

/-- Why a program stopped early. -/
inductive Abort where
  /-- The run is over, because of the token at this position. -/
  | cancelled (token : Nat)
  /-- The error was reported; reading goes on after the statement. -/
  | resync
  /-- The speculative alternative does not fit. -/
  | backtrack
  /-- The bound on the depth of calls was reached. -/
  | exhausted
  deriving DecidableEq

/-- What a program leaves behind. -/
inductive Outcome (β : Type) where
  | finished (s : State β)
  | aborted (why : Abort) (s : State β)

namespace Outcome

variable {β : Type}

/-- The state left behind. -/
def state : Outcome β → State β
  | finished s => s
  | aborted _ s => s

/-- Goes on with `f` unless the program stopped early. -/
def andThen (o : Outcome β) (f : State β → Outcome β) : Outcome β :=
  match o with
  | finished s => f s
  | aborted why s => aborted why s

/-- Changes the state left behind. -/
def map (o : Outcome β) (f : State β → State β) : Outcome β :=
  match o with
  | finished s => finished (f s)
  | aborted why s => aborted why (f s)

end Outcome

/-! ### Looking ahead -/

/-- A token ahead, counted from `0`. -/
def Context.peek (c : Context) (ahead : List Token) (n : Nat) : Token :=
  (ahead[n]?).getD c.ending

/-- The kind of a token ahead. -/
def Context.kindAt (c : Context) (ahead : List Token) (n : Nat) : TokenKind :=
  (c.peek ahead n).kind

/-- The kind of the token after the group that closes `depth` parentheses. -/
def kindAfterGroup : (depth : Nat) → List Token → TokenKind
  | _, [] => .eof
  | depth, t :: ts =>
    match t.kind with
    | .openParen => kindAfterGroup (depth + 1) ts
    | .closeParen =>
      if depth ≤ 1 then ((ts.head?).map (·.kind)).getD .eof
      else kindAfterGroup (depth - 1) ts
    | .eof => .eof
    | _ => kindAfterGroup depth ts

/-- The kind of the first token that is not among `passed`. -/
def kindBeyond (passed : List TokenKind) : List Token → TokenKind
  | [] => .eof
  | t :: ts => if passed.contains t.kind then kindBeyond passed ts else t.kind

/-- Whether a keyword occurs before the end of the statement. -/
def occursInStatement (k : Keyword) : List Token → Bool
  | [] => false
  | t :: ts =>
    if t.kind == .semicolon || t.kind == .eof then false
    else t.kind == .keyword k || occursInStatement k ts

/-- The answer to a look. -/
def Look.holds (c : Context) (ahead : List Token) : Look → Bool
  | .among n kinds => kinds.contains (c.kindAt ahead n)
  | .keyword n => (c.kindAt ahead n).keyword?.isSome
  | .name n => (c.kindAt ahead n).isName c.family
  | .spelled ws => ws.contains (c.peek ahead 0).upperText
  | .adjacent => (c.peek ahead 0).stop + 1 == (c.peek ahead 1).start
  | .mode flag => c.mode.has flag
  | .speculates => c.prediction == .speculative
  | .since version => version.number ≤ c.version.number
  | .afterGroup kinds => kinds.contains (kindAfterGroup 0 ahead)
  | .beyond n passed kinds => kinds.contains (kindBeyond passed (ahead.drop n))
  | .inStatement k => occursInStatement k ahead
  | .both a b => a.holds c ahead && b.holds c ahead
  | .either a b => a.holds c ahead || b.holds c ahead
  | .not a => !a.holds c ahead

/-- Notes a kind as expected, once. -/
def noteKind (expected : List TokenKind) (kind : TokenKind) : List TokenKind :=
  if expected.contains kind then expected else expected ++ [kind]

/-- Notes kinds as expected. -/
def noteKinds (expected kinds : List TokenKind) : List TokenKind :=
  kinds.foldl noteKind expected

/-- The answer to a test and the expected kinds after it. -/
def Test.eval (c : Context) (ahead : List Token) :
    Test → List TokenKind → Bool × List TokenKind
  | .look l, expected => (l.holds c ahead, expected)
  | .next kinds, expected =>
    (kinds.contains (c.kindAt ahead 0), noteKinds expected kinds)
  | .nextName, expected =>
    ((c.kindAt ahead 0).isName c.family, noteKind expected .identifier)
  | .nextText, expected =>
    (c.kindAt ahead 0 == .singleQuoted || c.kindAt ahead 0 == .doubleQuoted,
      noteKind expected .singleQuoted)
  | .both a b, expected =>
    match a.eval c ahead expected with
    | (true, expected) => b.eval c ahead expected
    | (false, expected) => (false, expected)
  | .either a b, expected =>
    match a.eval c ahead expected with
    | (true, expected) => (true, expected)
    | (false, expected) => b.eval c ahead expected
  | .not a, expected =>
    match a.eval c ahead expected with
    | (answer, expected) => (!answer, expected)

/-! ### Moving -/

namespace State

variable {β : Type}

/-- The next token. -/
def current (s : State β) (c : Context) : Token :=
  c.peek s.ahead 0

/-- Adds the next token to the open node by `leaf` and moves past it; the end of
the input is not passed. What is added is the number that the token carries. A
leaf stands for a place in the token list, and the two agree on a list that is
numbered by place, as the tokenizer numbers its own. -/
def shift (s : State β) (c : Context) (leaf : Nat → β → β) : State β :=
  let t := s.current c
  { s with
    ahead := if t.isEof then s.ahead else s.ahead.tail
    last := some t.index
    built := leaf t.index s.built }

/-- Reports the next token. -/
def report (s : State β) (c : Context) (cause : Cause) : State β :=
  { s with reports := s.reports ++ [⟨s.current c, s.expected, cause⟩] }

/-- Gives up on the next token. -/
def fail (s : State β) (c : Context) (r : Reaction) (cause : Cause) : Outcome β :=
  match r with
  | .bail => .aborted (.cancelled (s.current c).index) s
  | .recover => .aborted .resync (s.report c cause)
  | .backtrack => .aborted .backtrack s

/-- Refuses the next token. -/
def refuse (s : State β) (c : Context) (r : Reaction) : Refusal → Outcome β
  | .mismatch => s.fail c r .mismatched
  | .noAlternative starts =>
    { s with expected := noteKinds s.expected starts }.fail c r .noAlternative
  | .gate rule version => s.fail c r (.gate rule version)

variable [Builder β]

/-- Reads the next token. -/
def consume (s : State β) (c : Context) : State β :=
  { s.shift c Builder.token with expected := [] }

/-- Passes over the next token. -/
def skip (s : State β) (c : Context) : State β :=
  s.shift c Builder.skipped

/-- Passes over at most `n` tokens, up to the end of the statement. -/
def skipUpTo (c : Context) : (n : Nat) → State β → State β
  | 0, s => s
  | n + 1, s =>
    if Look.atStatementEnd.holds c s.ahead then s else skipUpTo c n (s.skip c)

/-- Passes over the rest of the statement. -/
def skipStatement (s : State β) (c : Context) : State β :=
  skipUpTo c s.ahead.length s

/-- Reads a token of the given kind. When the next token is another one and
errors are recovered from, it is deleted if the required one follows, and a
closing parenthesis or brace is inserted. -/
def expect (s : State β) (c : Context) (r : Reaction) (kind : TokenKind) : Outcome β :=
  let s := { s with expected := noteKind s.expected kind }
  if c.kindAt s.ahead 0 == kind then .finished (s.consume c)
  else if r == .recover && c.kindAt s.ahead 1 == kind then
    .finished (((s.report c .extraneous).skip c).consume c)
  else if r == .recover && (kind == .closeParen || kind == .closeBrace) then
    .finished { { s with expected := [kind] }.report c (.missing kind) with expected := [] }
  else s.fail c r .mismatched

/-- Opens a node of the given rule at the next token, whose number it carries. As
for a leaf, that is the place of the token in a list that is numbered by place. -/
def enter (s : State β) (c : Context) (rule : Rule) : State β :=
  { s with built := Builder.enter rule (s.current c).index s.built }

/-- Closes a node that was opened in the state `before`, in the state `after`
its parts. -/
def leave (c : Context) (rule : Rule) (before after : State β) : State β :=
  { after with
    built := Builder.leave rule (before.current c).index after.last before.built after.built }

/-- Opens a node of the given rule around the part that was built last. -/
def enterAround (s : State β) (c : Context) (rule : Rule) : State β :=
  { s with built := Builder.enterAround rule (s.current c).index s.built }

/-- Closes a node that was opened around a part in the state `before`, in the
state `after` its parts. -/
def leaveAround (c : Context) (rule : Rule) (before after : State β) : State β :=
  { after with
    built :=
      Builder.leaveAround rule (before.current c).index after.last before.built after.built }

/-- Takes everything back that was read and built since the state `before`. -/
def undo (before after : State β) : State β :=
  { before with
    built := Builder.undo before.built after.built
    reports := after.reports }

end State

/-! ### Running programs -/

variable {φ β : Type} [Builder β]

/-- Runs a program. `recur` runs what names stand for and the further rounds of
a loop. -/
def exec (c : Context) (rules : φ → Program φ)
    (recur : Reaction → Program φ → State β → Outcome β) :
    Reaction → Program φ → State β → Outcome β
  | _, .done, s => .finished s
  | _, .advance, s => .finished (s.consume c)
  | r, .expect kind, s => s.expect c r kind
  | r, .refuse why, s => s.refuse c r why
  | r, .seq p q, s => (exec c rules recur r p s).andThen (exec c rules recur r q)
  | r, .cond t p q, s =>
    match t.eval c s.ahead s.expected with
    | (true, expected) => exec c rules recur r p { s with expected }
    | (false, expected) => exec c rules recur r q { s with expected }
  | r, .loop t p, s =>
    match t.eval c s.ahead s.expected with
    | (true, expected) =>
      (exec c rules recur r p { s with expected }).andThen (recur r (.loop t p))
    | (false, expected) => .finished { s with expected }
  | r, .node rule p, s =>
    (exec c rules recur r p (s.enter c rule)).map (State.leave c rule s)
  | r, .wrap rule p, s =>
    (exec c rules recur r p (s.enterAround c rule)).map (State.leaveAround c rule s)
  | r, .attempt p q, s =>
    match exec c rules recur .backtrack p s with
    | .finished s' => .finished s'
    | .aborted .exhausted s' => .aborted .exhausted s'
    | .aborted _ s' => exec c rules recur r q (s.undo s')
  | r, .resume p, s =>
    match exec c rules recur r p s with
    | .aborted .resync s' => .finished (s'.skipStatement c)
    | outcome => outcome
  | r, .call phrase, s => recur r (rules phrase) s

/-- Runs a program with at most `fuel` calls inside each other. -/
def run (c : Context) (rules : φ → Program φ) :
    (fuel : Nat) → Reaction → Program φ → State β → Outcome β
  | 0, _, _, s => .aborted .exhausted s
  | fuel + 1, r, p, s => exec c rules (run c rules fuel) r p s

end MySqlAnalysis.Grammar
