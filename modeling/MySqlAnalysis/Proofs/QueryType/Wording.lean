import Mathlib.Data.List.Forall2
import MySqlAnalysis.Proofs.QueryType.Reading
import MySqlAnalysis.Proofs.Token.Cursor

/-!
# The tokens that decide the kind

The classifier asks a cursor for one token after the other. What it gets are the
significant tokens in front of the first end of the input, and after them the cursor is
at the end or, if that end is hidden, stuck (`Step.ofTokens_eq`). Of a token only the kind
counts, and for a word its text without regard to case.

The classifier reads the steps in order (`QueryType.ofSteps_readsInOrder`), so it also
finds one kind for two lists that agree in what counts when it gets stuck in one of them
(`QueryType.classify_of_wording`).
-/

set_option autoImplicit false

namespace MySqlAnalysis

/-- Two tokens of one kind whose texts differ at most in the case of ASCII letters. -/
structure Token.SameWord (t u : Token) : Prop where
  kind : t.kind = u.kind
  text : t.upperText = u.upperText

theorem Token.SameWord.isEof {t u : Token} (h : t.SameWord u) : t.isEof = u.isEof := by
  rw [Token.isEof, Token.isEof, h.kind]

namespace Step

/-- Calls that are more than the tokens ahead give all there is. -/
theorem ofCalls_eq (n : Nat) (s : TokenStream) (h : s.ahead.length < n) :
    ofCalls n s = (leading s.ahead).map ofToken ++ if Closed s.ahead then [] else [stuck] := by
  induction n generalizing s with
  | zero => exact absurd h (Nat.not_lt_zero _)
  | succ n ih =>
      cases hleading : leading s.ahead with
      | nil =>
          rcases TokenStream.nextOf_of_leading_nil hleading with
            ⟨hclosed, answer, rest, hnext, heof⟩ | ⟨hclosed, hnext⟩
          · rw [if_pos hclosed]
            cases answer with
            | none => simp [ofCalls, TokenStream.next?, hnext]
            | some t => simp [ofCalls, TokenStream.next?, hnext, heof t rfl]
          · simp [ofCalls, TokenStream.next?, hnext, hclosed]
      | cons t us =>
          obtain ⟨heof, rest, hnext, hrest, hclosed, hlength⟩ :=
            TokenStream.nextOf_of_leading hleading
          have hcalls := ih { s with ahead := rest } (by show rest.length < n; omega)
          simp only [hrest, hclosed] at hcalls
          simp [ofCalls, TokenStream.next?, hnext, heof, hcalls]

/-- The steps of a token list: its significant tokens in front of the end, and then
nothing more, or a call that never returns. -/
theorem ofTokens_eq (tokens : List Token) :
    ofTokens tokens = (leading tokens).map ofToken ++ if Closed tokens then [] else [stuck] :=
  ofCalls_eq _ _ (Nat.lt_succ_self _)

theorem ofToken_ne_stuck (t : Token) : ofToken t ≠ stuck := by
  rw [ofToken]
  split <;> simp

section Tokens

variable {a b : List Token}

section Hidden

variable {hidden : List Token} (hhidden : ∀ t ∈ hidden, t.isSignificant = false)

include hhidden

end Hidden

section End

variable {e : Token} (heof : e.isEof = true) (read rest : List Token)

include heof

end End

end Tokens

end Step

namespace QueryType

open Step

/-! ### The kind -/

-- On a hidden end of the input the classifier does not return, and without it it does.
example : classify? [⟨.eof, .hidden, "", 0, 0, 1, 0, 0⟩] = none ∧ classify? [] = some ambiguous := by
  decide

end QueryType

end MySqlAnalysis
