import Mathlib.Data.List.Infix
import MySqlAnalysis.Proofs.Token.Solid
import MySqlAnalysis.Script.Statement

/-!
# Regular texts

A script and the tokens of its text do not have the same idea of a directive, of a
version comment, of two dashes, of a blank and of a backslash. In a regular text
none of these differences shows.
-/

set_option autoImplicit false

namespace MySqlAnalysis.Script

open Text

/-- A text without directives, version comments, dashes in front of a semicolon,
control characters other than tab and line ends, white space outside of ASCII and,
when it has a backslash, without the quotes that do not know escapes. -/
structure Regular (cs : List Char) : Prop where
  directive : ¬ directiveWord <:+: upper cs
  versionComment : ¬ ['/', '*', '!'] <:+: cs
  dashes : ¬ ['-', '-', ';'] <:+: cs
  control : ∀ c ∈ cs, c.toNat < 0x20 ∨ c.toNat = 0x7f → c = '\t' ∨ c = '\n' ∨ c = '\r'
  space : ∀ c ∈ cs, isWide c = true → isWhiteSpace c = false
  escape : backslash ∈ cs →
    backtick ∉ cs ∧ ∀ mark ∈ ['x', 'X', 'b', 'B'], ¬ [mark, apostrophe] <:+: cs

namespace Regular

theorem iff_and (cs : List Char) :
    Regular cs ↔ ¬ directiveWord <:+: upper cs ∧ ¬ ['/', '*', '!'] <:+: cs ∧
      ¬ ['-', '-', ';'] <:+: cs ∧
      (∀ c ∈ cs, c.toNat < 0x20 ∨ c.toNat = 0x7f → c = '\t' ∨ c = '\n' ∨ c = '\r') ∧
      (∀ c ∈ cs, isWide c = true → isWhiteSpace c = false) ∧
      (backslash ∈ cs →
        backtick ∉ cs ∧ ∀ mark ∈ ['x', 'X', 'b', 'B'], ¬ [mark, apostrophe] <:+: cs) :=
  ⟨fun ⟨h₁, h₂, h₃, h₄, h₅, h₆⟩ => ⟨h₁, h₂, h₃, h₄, h₅, h₆⟩,
    fun ⟨h₁, h₂, h₃, h₄, h₅, h₆⟩ => ⟨h₁, h₂, h₃, h₄, h₅, h₆⟩⟩

-- the quantifiers run over the text and not over all characters
instance (cs : List Char) : Decidable (Regular cs) :=
  have : Decidable (∀ c ∈ cs, c.toNat < 0x20 ∨ c.toNat = 0x7f → c = '\t' ∨ c = '\n' ∨ c = '\r') :=
    List.decidableBAll _ cs
  have : Decidable (∀ c ∈ cs, isWide c = true → isWhiteSpace c = false) := List.decidableBAll _ cs
  have : Decidable (∀ mark ∈ ['x', 'X', 'b', 'B'], ¬ [mark, apostrophe] <:+: cs) :=
    List.decidableBAll _ _
  decidable_of_iff _ (iff_and cs).symm

variable {cs a rest : List Char} {c : Char}

theorem of_infix (h : Regular cs) (ha : a <:+: cs) : Regular a where
  directive := fun hword => h.directive (hword.trans (ha.map Char.toUpper))
  versionComment := fun hword => h.versionComment (hword.trans ha)
  dashes := fun hword => h.dashes (hword.trans ha)
  control := fun c hc => h.control c (ha.subset hc)
  space := fun c hc => h.space c (ha.subset hc)
  escape := fun hslash =>
    ⟨fun htick => (h.escape (ha.subset hslash)).1 (ha.subset htick),
      fun mark hmark hword => (h.escape (ha.subset hslash)).2 mark hmark (hword.trans ha)⟩

theorem of_cons (h : Regular (c :: rest)) : Regular rest :=
  h.of_infix (List.suffix_cons c rest).isInfix

theorem of_append_left {b : List Char} (h : Regular (a ++ b)) : Regular a :=
  h.of_infix (List.prefix_append a b).isInfix

theorem of_append_right {b : List Char} (h : Regular (a ++ b)) : Regular b :=
  h.of_infix (List.suffix_append a b).isInfix

/-- The codes of the blanks. -/
theorem isBlank_iff_toNat :
    isBlank c = true ↔ c.toNat = 0x20 ∨ (0x09 ≤ c.toNat ∧ c.toNat ≤ 0x0d) := by
  simp only [isBlank, Bool.or_eq_true, beq_iff_eq, ← Char.toNat_inj, Char.reduceToNat]
  omega

/-- The codes of the control characters that a regular text can have. -/
theorem control_toNat (h : Regular cs) (hc : c ∈ cs) (hcode : c.toNat < 0x20 ∨ c.toNat = 0x7f) :
    c.toNat = 0x09 ∨ c.toNat = 0x0a ∨ c.toNat = 0x0d := by
  rcases h.control c hc hcode with rfl | rfl | rfl <;> decide

theorem isPlainBlank_eq (h : Regular cs) (hc : c ∈ cs) : isPlainBlank c = isBlank c := by
  have hcontrol := h.control_toNat hc
  rw [Bool.eq_iff_iff, isBlank_iff_toNat]
  simp only [isPlainBlank, Bool.or_eq_true, beq_iff_eq, ← Char.toNat_inj, Char.reduceToNat]
  omega

theorem endsDashes_eq (h : Regular cs) (hc : c ∈ cs) : endsDashes c = isBlank c := by
  have hcontrol := h.control_toNat hc
  rw [Bool.eq_iff_iff, isBlank_iff_toNat]
  simp only [endsDashes, Bool.or_eq_true, beq_iff_eq, decide_eq_true_eq]
  omega

theorem isWhiteSpace_eq (h : Regular cs) (hc : c ∈ cs) : isWhiteSpace c = isBlank c := by
  have hspace := h.space c hc
  by_cases hwide : 128 ≤ c.toNat
  · -- beyond ASCII there is neither white space nor a blank
    rw [hspace (decide_eq_true hwide), eq_comm, Bool.eq_false_iff, Ne, isBlank_iff_toNat]
    omega
  · rw [Bool.eq_iff_iff, isBlank_iff_toNat]
    simp only [isWhiteSpace, Bool.or_eq_true, Bool.and_eq_true, beq_iff_eq, decide_eq_true_eq]
    omega

/-- Two dashes start a comment for a script exactly if they do for the tokens. -/
theorem dashesStartComment_eq (h : Regular rest) :
    dashesStartComment ['\n'] rest = rest.head?.all endsDashes := by
  cases rest with
  | nil => rfl
  | cons c rest =>
      have hblank := h.endsDashes_eq (c := c) List.mem_cons_self
      have hcontrol := h.control_toNat (c := c) List.mem_cons_self
      have hbreak : ['\n'].isPrefixOf (c :: rest) = (c == '\n') := by
        rw [List.isPrefixOf_cons_cons, List.isPrefixOf_nil_left, Bool.and_true, Bool.beq_comm]
      rw [List.head?_cons, Option.all_some, hblank, Bool.eq_iff_iff, isBlank_iff_toNat]
      simp only [dashesStartComment, hbreak, Bool.or_eq_true, beq_iff_eq, ← Char.toNat_inj,
        Char.reduceToNat]
      omega

/-- No directive starts anywhere in a regular text. -/
theorem startsDirective_eq_false (h : Regular cs) (previous : Option Char) :
    startsDirective previous cs = false := by
  by_contra hstart
  rw [Bool.not_eq_false, startsDirective, Bool.and_eq_true, beq_iff_eq] at hstart
  refine h.directive ?_
  rw [← hstart.2]
  exact ((List.take_prefix _ cs).map Char.toUpper).isInfix

end Regular

end MySqlAnalysis.Script
