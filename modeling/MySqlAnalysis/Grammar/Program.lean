import MySqlAnalysis.SqlMode
import MySqlAnalysis.Token.Basic
import MySqlAnalysis.Tree.Rule

/-!
# Grammar programs

The grammar is described by programs: small terms that say which tokens to
read, which nodes to build around them and how to decide between alternatives.
Decisions are made by looks, which only inspect the coming tokens, and by
tests, which also note the kinds of token that would have been accepted; those
kinds are listed when a token is refused. `MySqlAnalysis.Grammar.Machine` gives
programs their meaning.
-/

set_option autoImplicit false

namespace MySqlAnalysis.Grammar

/-- A question about the coming tokens and the settings that leaves no trace.
Tokens ahead are counted from `0`, the next one. -/
inductive Look where
  /-- The kind of a token ahead is one of these. -/
  | among (ahead : Nat) (kinds : List TokenKind)
  /-- A token ahead is a keyword. -/
  | keyword (ahead : Nat)
  /-- A token ahead can be used as an unquoted identifier. -/
  | name (ahead : Nat)
  /-- The next token is one of these words, in any case. -/
  | spelled (words : List String)
  /-- No byte lies between the next token and the one after it. -/
  | adjacent
  /-- A mode is set. -/
  | mode (flag : SqlMode.Flag)
  /-- Ambiguous alternatives are tried speculatively. -/
  | speculates
  /-- The server has at least this version. -/
  | since (version : ServerVersion)
  /-- The kind of the token after the parenthesised group that comes next is one of these. -/
  | afterGroup (kinds : List TokenKind)
  /-- The kind of the first token from `ahead` on that is not among `passed` is one of `kinds`. -/
  | beyond (ahead : Nat) (passed kinds : List TokenKind)
  /-- A keyword occurs before the end of the statement. -/
  | inStatement (k : Keyword)
  | both (a b : Look)
  | either (a b : Look)
  | not (a : Look)

/-- A decision. The second part of a conjunction or disjunction is only asked
when the first one leaves the answer open. -/
inductive Test where
  | look (l : Look)
  /-- The next token is one of these kinds, which are noted as expected. -/
  | next (kinds : List TokenKind)
  /-- The next token can be used as an identifier, which is noted as expected. -/
  | nextName
  /-- The next token is a string, which is noted as expected. -/
  | nextText
  | both (a b : Test)
  | either (a b : Test)
  | not (a : Test)

instance : Coe Look Test := ⟨Test.look⟩

/-- Why a token is refused. -/
inductive Refusal where
  /-- It is not the required token. -/
  | mismatch
  /-- It starts none of the alternatives, which these kinds stand for. -/
  | noAlternative (starts : List TokenKind)
  /-- The server does not have the rule before this version. -/
  | gate (rule : Rule) (version : ServerVersion)

/-- A description of what to read; `φ` is the type of names for other descriptions. -/
inductive Program (φ : Type) where
  /-- Reads nothing. -/
  | done
  /-- Reads the next token, whatever it is. -/
  | advance
  /-- Reads a token of this kind, repairing the input if one is close. -/
  | expect (kind : TokenKind)
  /-- Refuses the next token. -/
  | refuse (why : Refusal)
  | seq (p q : Program φ)
  | cond (t : Test) (p q : Program φ)
  /-- Reads `p` as long as the test holds. -/
  | loop (t : Test) (p : Program φ)
  /-- Builds a node around what `p` reads. -/
  | node (rule : Rule) (p : Program φ)
  /-- Builds a node around the part read last and what `p` reads. -/
  | wrap (rule : Rule) (p : Program φ)
  /-- Tries `p`; if it does not fit, takes everything back and reads `q`. -/
  | attempt (p q : Program φ)
  /-- Reads `p`; after an error, skips to the end of the statement. -/
  | resume (p : Program φ)
  /-- Reads what the name stands for. -/
  | call (phrase : φ)

namespace Program

variable {φ : Type}

/-- Reads these programs, one after the other. -/
def steps : List (Program φ) → Program φ
  | [] => .done
  | [p] => p
  | p :: q :: rest => .seq p (steps (q :: rest))

/-- Reads a token of one of these kinds if there is one. -/
def opt (kinds : List TokenKind) : Program φ :=
  .cond (.next kinds) .advance .done

/-- Reads a token of one of these kinds. -/
def oneOf (kinds : List TokenKind) : Program φ :=
  .cond (.next kinds) .advance (.refuse .mismatch)

/-- Reads `p` if the test holds. -/
def ifHolds (t : Test) (p : Program φ) : Program φ :=
  .cond t p .done

/-- Reads `p` unless the test holds. -/
def unlessHolds (t : Test) (p : Program φ) : Program φ :=
  .cond t .done p

/-- Reads a token of one of these kinds and then `p`, if there is one. -/
def after (kinds : List TokenKind) (p : Program φ) : Program φ :=
  .cond (.next kinds) (.seq .advance p) .done

/-- Reads one or more `p` with commas between them. -/
def commaList (p : Program φ) : Program φ :=
  .seq p (.loop (.next [.comma]) (.seq .advance p))

/-- Builds a node around the next token. -/
def leaf (rule : Rule) : Program φ :=
  .node rule .advance

/-- The first program whose look succeeds. -/
def choose (options : List (Look × Program φ)) (last : Program φ) : Program φ :=
  options.foldr (fun option rest => .cond option.1 option.2 rest) last

/-- Refuses the next token as none of these kinds. -/
def noAlternative (starts : List TokenKind) : Program φ :=
  .refuse (.noAlternative starts)

/-- Refuses the next token on servers before `version`. -/
def require (rule : Rule) (version : ServerVersion) : Program φ :=
  .cond (Look.since version) .done (.refuse (.gate rule version))

end Program

/-- The token kinds of keywords. -/
def words (ks : List Keyword) : List TokenKind :=
  ks.map .keyword

namespace Look

/-- The next token is one of these keywords. -/
def word (ks : List Keyword) : Look := .among 0 (words ks)

/-- A token ahead is one of these keywords. -/
def wordAt (ahead : Nat) (ks : List Keyword) : Look := .among ahead (words ks)

/-- The next token has this kind. -/
def is (kind : TokenKind) : Look := .among 0 [kind]

/-- A token ahead has this kind. -/
def isAt (ahead : Nat) (kind : TokenKind) : Look := .among ahead [kind]

/-- The statement ends here. -/
def atStatementEnd : Look := .among 0 [.semicolon, .eof]

end Look

/-- The next token is one of these keywords, which are noted as expected. -/
def Test.word (ks : List Keyword) : Test := .next (words ks)

/-- The next token has this kind, which is noted as expected. -/
def Test.is (kind : TokenKind) : Test := .next [kind]

end MySqlAnalysis.Grammar
