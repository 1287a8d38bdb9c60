import MySqlAnalysis.Config.Basic
import MySqlAnalysis.Proofs.Token.Regions

/-!
# Quoting

Any text can be written between two quotes: the quotes in it are doubled, and so are its
backslashes where a backslash escapes (`Token.escape`). The region then closes at the
quote behind the written text and not earlier (`Token.closeQuote_escape`), so that the
tokenizer reads the whole as one token, whatever follows (`tokenize_quoted`).
-/

set_option autoImplicit false

namespace MySqlAnalysis

open Text

namespace Token

/-- A text as it stands between two quotes `q`: each quote and, with `escapes`, each
backslash is written twice. -/
def escape (q : Char) (escapes : Bool) (s : List Char) : List Char :=
  s.flatMap fun c => if c == q || (escapes && c == backslash) then [c, c] else [c]

section Escape

variable {q : Char} {escapes : Bool}

theorem escape_cons (c : Char) (s : List Char) :
    escape q escapes (c :: s) =
      (if c == q || (escapes && c == backslash) then [c, c] else [c]) ++ escape q escapes s :=
  List.flatMap_cons

/-- A character that is neither a quote nor escapes another one is passed over. -/
theorem closeQuote_cons {c : Char} (hescape : (escapes && c == backslash) = false)
    (hquote : (c == q) = false) {rest : List Char} (hrest : rest ≠ []) :
    closeQuote q escapes (c :: rest) = (closeQuote q escapes rest).map (· + 1) := by
  obtain ⟨e, more, rfl⟩ := List.exists_cons_of_ne_nil hrest
  simp only [closeQuote, hescape, hquote, Bool.false_eq_true, if_false]

/-- A doubled quote and an escaped backslash are passed over. -/
theorem closeQuote_cons_cons {c : Char} (hc : (c == q || (escapes && c == backslash)) = true)
    (rest : List Char) :
    closeQuote q escapes (c :: c :: rest) = (closeQuote q escapes rest).map (· + 2) := by
  rw [closeQuote]
  by_cases hescape : (escapes && c == backslash) = true
  · rw [if_pos hescape]
  · rw [Bool.not_eq_true] at hescape
    rw [hescape, Bool.or_false] at hc
    simp only [hescape, hc, Bool.false_eq_true, if_false, if_true]

/-- A quote without another one behind it closes the region. -/
theorem closeQuote_quote (hq : q ≠ backslash) {r : List Char} (hr : r.head? ≠ some q) :
    closeQuote q escapes (q :: r) = some 1 := by
  have hescape : (escapes && q == backslash) = false := by simp [hq]
  cases r with
  | nil => simp [closeQuote, hescape]
  | cons e r =>
      have he : (e == q) = false := by simpa using hr
      simp [closeQuote, hescape, he]

/-- A written text is closed by the quote behind it. -/
theorem closeQuote_escape (hq : q ≠ backslash) (s : List Char) {r : List Char}
    (hr : r.head? ≠ some q) :
    closeQuote q escapes (escape q escapes s ++ q :: r) =
      some ((escape q escapes s).length + 1) := by
  induction s with
  | nil => exact closeQuote_quote hq hr
  | cons c s ih =>
      rw [escape_cons]
      by_cases hc : (c == q || (escapes && c == backslash)) = true
      · rw [if_pos hc, List.append_assoc, List.cons_append, List.cons_append, List.nil_append,
          closeQuote_cons_cons hc, ih, Option.map_some]
        simp
      · rw [if_neg hc, List.append_assoc, List.cons_append, List.nil_append]
        rw [Bool.not_eq_true, Bool.or_eq_false_iff] at hc
        rw [closeQuote_cons hc.2 hc.1 (by simp), ih, Option.map_some]
        simp

end Escape

/-- The token at the head of a text. -/
theorem tokenize_of_scan {d : Dialect} {c : Char} {rest : List Char} {kind : TokenKind} {n : Nat}
    (hscan : scan d none c rest = ⟨some kind, n, false⟩) :
    ∃ ts, tokenize d (String.ofList (c :: rest)) =
      ofLexeme ⟨some kind, c :: rest.take n, .start⟩ kind 0 :: ts := by
  have hfirst : recognize d .start c rest = ⟨some kind, n, false⟩ := hscan
  rw [tokenize, lexemes, String.toList_ofList, lexemesFrom, hfirst]
  exact ⟨_, rfl⟩

end Token

/-- A text between two quotes `q`. A backslash escapes in a string, unless the mode says
otherwise, and never in a quoted identifier. -/
def Dialect.quote (d : Dialect) (q : Char) (s : String) : String :=
  String.ofList
    (q :: (Token.escape q (q != backtick && !d.mode.has .noBackslashEscapes) s.toList ++ [q]))

/-- Every text between quotes is read as one token, of the kind of the quotes, when no other
quote follows. -/
theorem tokenize_quoted (d : Dialect) (q : Char) (s r : String) (hq : isQuote q = true)
    (hr : r.toList.head? ≠ some q) :
    ∃ t ts, tokenize d (d.quote q s ++ r) = t :: ts ∧ t.text = d.quote q s ∧ t.start = 0 ∧
      (q = apostrophe → t.kind = .singleQuoted) ∧ (q = backtick → t.kind = .quotedIdentifier) ∧
      (q = quotationMark →
        t.kind = if d.mode.has .ansiQuotes then .quotedIdentifier else .doubleQuoted) := by
  have hslash : q ≠ backslash := by
    rintro rfl
    cases hq
  have htext : d.quote q s ++ r =
      String.ofList (q :: (Token.escape q (Token.hasEscapes d q) s.toList ++ q :: r.toList)) := by
    rw [← String.toList_inj]
    simp [Dialect.quote, Token.hasEscapes]
  have hscan : Token.scan d none q
        (Token.escape q (Token.hasEscapes d q) s.toList ++ q :: r.toList) =
      ⟨some (Token.quotedKind d q),
        (Token.escape q (Token.hasEscapes d q) s.toList).length + 1, false⟩ := by
    rw [Token.scan_quote hq, Token.closeQuote_escape hslash s.toList hr]
    rfl
  obtain ⟨ts, hts⟩ := Token.tokenize_of_scan hscan
  rw [List.take_length_add_append] at hts
  rw [htext]
  refine ⟨_, ts, hts, ?_, rfl, ?_, ?_, ?_⟩
  · simp [Token.ofLexeme, Dialect.quote, Token.hasEscapes]
  · rintro rfl
    rfl
  · rintro rfl
    rfl
  · rintro rfl
    rfl

/-- A quote and a backslash at the end of a text, in front of code. -/
theorem tokenize_quoted_apostrophe :
    isQuote apostrophe = true ∧ ";--".toList.head? ≠ some apostrophe ∧
      ∃ t ts, tokenize Config.standard.dialect "'it''s \\\\';--" = t :: ts ∧
        t.text = "'it''s \\\\'" ∧ t.start = 0 ∧ t.kind = .singleQuoted := by
  refine ⟨by decide, by decide, ?_⟩
  have hquote : Config.standard.dialect.quote apostrophe "it's \\" = "'it''s \\\\'" := by decide
  obtain ⟨t, ts, htokens, htext, hstart, hkind, -⟩ :=
    tokenize_quoted Config.standard.dialect apostrophe "it's \\" ";--" (by decide) (by decide)
  rw [hquote] at htokens htext
  exact ⟨t, ts, htokens, htext, hstart, hkind rfl⟩

end MySqlAnalysis
