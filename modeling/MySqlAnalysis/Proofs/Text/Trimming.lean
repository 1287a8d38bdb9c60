import Mathlib.Data.List.TakeWhile
import MySqlAnalysis.Text.Search

/-!
# Trimming

A trimmed text is the part of a text between the white space around it
(`Text.exists_trim`); it has no white space around it itself (`Text.trim_trim`), and it
is empty for white space alone (`Text.trim_eq_nil_iff`).
-/

set_option autoImplicit false

namespace MySqlAnalysis.Text

theorem trimEnd_prefix (cs : List Char) : trimEnd cs <+: cs := by
  rw [trimEnd, ← List.reverse_suffix, List.reverse_reverse]
  exact List.dropWhile_suffix _

/-- A trimmed text lies behind the white space in front of it. -/
theorem exists_trim (cs : List Char) :
    ∃ after, cs = cs.takeWhile isWhiteSpace ++ trim cs ++ after := by
  obtain ⟨after, hafter⟩ := trimEnd_prefix (trimStart cs)
  refine ⟨after, ?_⟩
  rw [List.append_assoc, trim, hafter]
  exact List.takeWhile_append_dropWhile.symm

theorem trimStart_eq_self {cs : List Char} (h : ∀ c ∈ cs.head?, isWhiteSpace c = false) :
    trimStart cs = cs := by
  cases cs with
  | nil => rfl
  | cons c cs => exact List.dropWhile_cons_of_neg (by simp [h c rfl])

theorem trimEnd_eq_self {cs : List Char} (h : ∀ c ∈ cs.getLast?, isWhiteSpace c = false) :
    trimEnd cs = cs := by
  have hreverse : trimStart cs.reverse = cs.reverse := trimStart_eq_self (by simpa using h)
  rw [trimStart] at hreverse
  rw [trimEnd, hreverse, List.reverse_reverse]

theorem head?_dropWhile_isWhiteSpace (cs : List Char) :
    ∀ c ∈ (cs.dropWhile isWhiteSpace).head?, isWhiteSpace c = false := by
  intro c hc
  have hnot := List.head?_dropWhile_not isWhiteSpace cs
  rw [Option.mem_def.1 hc] at hnot
  exact hnot

/-- A trimmed text has no white space around it. -/
theorem trim_trim (cs : List Char) : trim (trim cs) = trim cs := by
  have hhead : ∀ c ∈ (trim cs).head?, isWhiteSpace c = false := by
    intro c hc
    obtain ⟨after, hafter⟩ := trimEnd_prefix (trimStart cs)
    refine head?_dropWhile_isWhiteSpace cs c ?_
    rw [← trimStart, ← hafter, List.head?_append]
    rw [show (trimEnd (trimStart cs)).head? = some c from hc]
    rfl
  have hlast : ∀ c ∈ (trim cs).getLast?, isWhiteSpace c = false := by
    intro c hc
    rw [trim, trimEnd, List.getLast?_reverse] at hc
    exact head?_dropWhile_isWhiteSpace _ c hc
  rw [trim.eq_def (trim cs), trimStart_eq_self hhead, trimEnd_eq_self hlast]

theorem trimStart_append {before cs : List Char} (hbefore : ∀ c ∈ before, isWhiteSpace c = true)
    (hcs : ∀ c ∈ cs, isWhiteSpace c = false) (after : List Char) (hne : cs ≠ []) :
    trimStart (before ++ (cs ++ after)) = cs ++ after := by
  obtain ⟨c, rest, rfl⟩ := List.exists_cons_of_ne_nil hne
  rw [trimStart, List.dropWhile_append_of_pos hbefore, List.cons_append]
  exact List.dropWhile_cons_of_neg (by simp [hcs c List.mem_cons_self])

/-- Blanks around a text without any are trimmed. -/
theorem trim_append {before cs after : List Char}
    (hbefore : ∀ c ∈ before, isWhiteSpace c = true) (hcs : ∀ c ∈ cs, isWhiteSpace c = false)
    (hafter : ∀ c ∈ after, isWhiteSpace c = true) (hne : cs ≠ []) :
    trim (before ++ (cs ++ after)) = cs := by
  -- the end is trimmed as the start of the reversed text
  have hend : trimStart (after.reverse ++ (cs.reverse ++ [])) = cs.reverse ++ [] :=
    trimStart_append (by simpa using hafter) (by simpa using hcs) [] (by simpa using hne)
  rw [trim, trimStart_append hbefore hcs after hne, trimEnd, List.reverse_append]
  rw [trimStart, List.append_nil] at hend
  rw [hend, List.reverse_reverse]

/-- A text is trimmed away when it is blank, and only then. -/
theorem trim_eq_nil_iff {cs : List Char} : trim cs = [] ↔ ∀ c ∈ cs, isWhiteSpace c = true := by
  have hrest : trim cs = [] ↔ ∀ c ∈ trimStart cs, isWhiteSpace c = true := by
    rw [trim, trimEnd, List.reverse_eq_nil_iff, List.dropWhile_eq_nil_iff]
    simp only [List.mem_reverse]
  have hsplit : cs.takeWhile isWhiteSpace ++ trimStart cs = cs := List.takeWhile_append_dropWhile
  rw [hrest]
  constructor
  · intro h c hc
    rw [← hsplit] at hc
    rcases List.mem_append.1 hc with hc | hc
    · exact List.mem_takeWhile_imp hc
    · exact h c hc
  · exact fun h c hc => h c ((List.dropWhile_sublist _).subset hc)

end MySqlAnalysis.Text
