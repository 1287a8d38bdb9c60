import Mathlib.Data.List.DropRight
import MySqlAnalysis.Proofs.Token.Tiling

/-!
# Lines and columns

The tokenizer moves its place in the text one character at a time. What it counts on the
way can be read off the text before the place (`Text.Position.start_after`): a line for
every line feed, and the characters behind the last one. Every token and every unreadable
stretch therefore has the line and the column of its first character
(`tokenize_positions`).
-/

set_option autoImplicit false

namespace MySqlAnalysis

namespace Text

/-- The line on which a text ends, counted from 1. -/
def lastLine (cs : List Char) : Nat :=
  1 + cs.count '\n'

/-- The characters behind the last line feed of a text. -/
def lastColumn (cs : List Char) : Nat :=
  (cs.rtakeWhile (· != '\n')).length

theorem lastLine_concat (cs : List Char) (c : Char) :
    lastLine (cs ++ [c]) = if c = '\n' then lastLine cs + 1 else lastLine cs := by
  rw [lastLine, lastLine, List.count_append, List.count_singleton]
  by_cases hc : c = '\n'
  · simp [hc, Nat.add_assoc]
  · simp [hc]

theorem lastColumn_concat (cs : List Char) (c : Char) :
    lastColumn (cs ++ [c]) = if c = '\n' then 0 else lastColumn cs + 1 := by
  rw [lastColumn, lastColumn, List.rtakeWhile_concat]
  by_cases hc : c = '\n'
  · simp [hc]
  · simp [hc]

/-- The place behind a text. -/
theorem Position.start_after (cs : List Char) :
    Position.start.after cs = ⟨byteLength cs, lastLine cs, lastColumn cs⟩ := by
  -- the place moves at the end of the text
  induction cs using List.reverseRecOn with
  | nil => rfl
  | append_singleton cs c ih =>
      have hlast : Position.start.after (cs ++ [c]) = (Position.start.after cs).next c :=
        Position.after_append _ cs [c]
      rw [hlast, ih, next, lastLine_concat, lastColumn_concat, byteLength_append]
      by_cases hc : c = '\n'
      · simp [hc]
      · simp [hc]

end Text

open Text

/-- Every lexeme has the offset, the line and the column of its first character. -/
theorem Token.lexemes_position {d : Dialect} {cs : List Char} {l : Lexeme}
    (hl : l ∈ lexemes d cs) : ∃ before after, cs = before ++ l.text ++ after ∧
      l.position = ⟨byteLength before, lastLine before, lastColumn before⟩ := by
  obtain ⟨before, after, hsplit, hposition⟩ := lexemesFrom_position 0 .start cs l hl
  exact ⟨before, after, hsplit, hposition.trans (Position.start_after before)⟩

/-- Every token has the line and the column of the place where it starts, and every event of
the tokenizer those of the text that it is about and the offset behind that text. -/
theorem tokenize_positions (d : Dialect) (text : String) :
    (∀ t ∈ tokenize d text, ∃ before after, text.toList = before ++ t.text.toList ++ after ∧
      t.start = byteLength before ∧ t.line = lastLine before ∧ t.column = lastColumn before) ∧
    ∀ e ∈ tokenEvents d text, ∃ before part after, text.toList = before ++ part ++ after ∧
      part ≠ [] ∧ e.origin = .lexer (String.ofList part) (byteLength (before ++ part)) ∧
      e.line = lastLine before ∧ e.column = lastColumn before := by
  constructor
  · intro t ht
    obtain ⟨last, hlast⟩ := Token.ofLexemes_eq_products 0 (Token.lexemes d text.toList)
      (Position.start.after text.toList)
    rw [tokenize, hlast] at ht
    rcases List.mem_append.1 ht with ht | ht
    · obtain ⟨l, hl, kind, i, -, rfl⟩ := Token.mem_filterMap_token? ht
      obtain ⟨before, after, hsplit, hposition⟩ := Token.lexemes_position hl
      refine ⟨before, after, by rwa [Token.ofLexeme, String.toList_ofList], ?_⟩
      rw [Token.ofLexeme, hposition]
      exact ⟨rfl, rfl, rfl⟩
    · -- the end of the input has the whole text before it
      rw [List.mem_singleton.1 ht, Position.start_after]
      exact ⟨text.toList, [], by simp [Token.ending], rfl, rfl, rfl⟩
  · intro e he
    obtain ⟨l, hl, hevent⟩ := List.mem_filterMap.1 he
    obtain ⟨before, after, hsplit, hposition⟩ := Token.lexemes_position hl
    rw [Token.eventOfLexeme?] at hevent
    split at hevent
    case h_1 => cases hevent
    case h_2 =>
      cases hevent
      refine ⟨before, l.text, after, hsplit,
        Token.lexemesFrom_text_ne_nil 0 .start text.toList l hl, ?_⟩
      rw [SyntaxEvent.unreadable, hposition, byteLength_append, String.toList_ofList]
      exact ⟨rfl, rfl, rfl⟩

end MySqlAnalysis
