import MySqlAnalysis.Token.Basic

/-!
# Significant tokens

The tokens that the grammar and the classifier see, and a cursor that hands
them out one at a time. A cursor that has reached the end of the input keeps
returning it: the end is looked at, but not used up. An end of the input on the
hidden channel is not handed out either, so that a cursor in front of it
searches for ever.
-/

set_option autoImplicit false

namespace MySqlAnalysis

/-- The tokens on the default channel. -/
def significant (tokens : List Token) : List Token :=
  tokens.filter Token.isSignificant

/-- How far the search for the next significant token has come. -/
inductive Search where
  /-- It is over: the token that was found, or that there is none, and the tokens left. -/
  | ended (answer : Option Token) (ahead : List Token)
  /-- It goes on with these tokens. -/
  | going (ahead : List Token)

namespace Search

/-- One round of the search. -/
def round : List Token → Search
  | [] => ended none []
  | t :: ts =>
    let ahead := if t.isEof then t :: ts else ts
    if t.isSignificant then ended (some t) ahead else going ahead

/-- The search after at most `n` rounds. -/
def after : (n : Nat) → List Token → Search
  | 0, ts => going ts
  | n + 1, ts =>
    match round ts with
    | ended answer ahead => ended answer ahead
    | going ahead => after n ahead

end Search

/-- A cursor over a token list. -/
structure TokenStream where
  tokens : List Token
  /-- The tokens not yet handed out. -/
  ahead : List Token

namespace TokenStream

/-- The cursor before the first token. -/
def ofTokens (tokens : List Token) : TokenStream := ⟨tokens, tokens⟩

/-- The cursor moved back to the first token. -/
def reset (s : TokenStream) : TokenStream := ofTokens s.tokens

/-- What the search for the next significant token ends with: the token, unless
there is none, and the tokens left. It is absent for a search that never ends. -/
def nextOf : List Token → Option (Option Token × List Token)
  | [] => some (none, [])
  | t :: ts =>
    if t.isSignificant then some (some t, if t.isEof then t :: ts else ts)
    else if t.isEof then none
    else nextOf ts

/-- Hands out the next significant token; absent for a call that never returns. -/
def next? (s : TokenStream) : Option (Option Token × TokenStream) :=
  (nextOf s.ahead).map fun (answer, ahead) => (answer, { s with ahead })

/-- Hands out the next significant token, for a cursor whose calls return. -/
def next (s : TokenStream) : Option Token × TokenStream :=
  s.next?.getD (none, s)

end TokenStream

end MySqlAnalysis
