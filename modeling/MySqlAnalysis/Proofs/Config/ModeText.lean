import MySqlAnalysis.Config.Json
import MySqlAnalysis.Proofs.Json.Written
import MySqlAnalysis.Proofs.Text.Trimming

/-!
# The text form of modes

A set of mode bits is written as the names of its flags and, behind them, the other
bits as one hexadecimal number, with bars between the parts. What the parts stand for
adds up to the bits that were written, so the text is a bar separated form of them
(`SqlMode.isBarForm_parts`).

The reader that runs finds the modes of every such form (`SqlMode.read?_of_isBarForm`):
no part holds a bar or a blank (`Solid`), so cutting at the bars finds the parts
(`Text.split_of_separated`).
-/

set_option autoImplicit false

namespace MySqlAnalysis

namespace Text

/-! ### Cutting -/

section Split

variable {separator : Char}

theorem split_ne_nil (separator : Char) (cs : List Char) : split separator cs ≠ [] := by
  cases cs with
  | nil => exact List.cons_ne_nil _ _
  | cons c cs =>
      rw [split]
      split
      · exact List.cons_ne_nil _ _
      · split <;> exact List.cons_ne_nil _ _

/-- A text without the separator is one piece. -/
theorem split_of_not_mem {cs : List Char} (h : separator ∉ cs) : split separator cs = [cs] := by
  induction cs with
  | nil => rfl
  | cons c cs ih =>
      rw [List.mem_cons, not_or] at h
      simp [split, ih h.2, Ne.symm h.1]

/-- The first piece ends at the first separator. -/
theorem split_append_cons {piece : List Char} (h : separator ∉ piece) (rest : List Char) :
    split separator (piece ++ separator :: rest) = piece :: split separator rest := by
  induction piece with
  | nil =>
      rw [List.nil_append, split]
      cases hrest : split separator rest with
      | nil => exact absurd hrest (split_ne_nil separator rest)
      | cons next pieces => simp
  | cons c piece ih =>
      rw [List.mem_cons, not_or] at h
      rw [List.cons_append, split, ih h.2]
      simp [Ne.symm h.1]

end Split

/-! ### Parts between bars -/

/-- A part that is found again between bars: it is not empty and has neither bars nor
blanks. -/
structure Solid (part : List Char) : Prop where
  ne_nil : part ≠ []
  bar : '|' ∉ part
  blank : ∀ c ∈ part, isWhiteSpace c = false

/-- Cutting at the bars finds the parts, without the blanks around them. -/
theorem split_of_separated {α : Type} {IsPiece : List Char → α → Prop} {cs : List Char}
    {values : List α} (h : Separated '|' isWhiteSpace IsPiece cs values)
    (hsolid : ∀ {piece a}, IsPiece piece a → Solid piece) :
    List.Forall₂ IsPiece ((split '|' cs).map trim) values := by
  have hbar : ∀ blanks : List Char, blanks.all isWhiteSpace = true → '|' ∉ blanks :=
    fun blanks h hmem => absurd (List.all_eq_true.1 h _ hmem) (by decide)
  induction h with
  | @last before piece after a hbefore hpiece hafter =>
      have hpart := hsolid hpiece
      have hwhole : '|' ∉ before ++ (piece ++ after) := by
        simp only [List.mem_append, not_or]
        exact ⟨hbar _ hbefore, hpart.bar, hbar _ hafter⟩
      rw [split_of_not_mem hwhole, List.map_singleton, trim_append (List.all_eq_true.1 hbefore)
        hpart.blank (List.all_eq_true.1 hafter) hpart.ne_nil]
      exact .cons hpiece .nil
  | @cons before piece after rest a values hbefore hpiece hafter _ ih =>
      have hpart := hsolid hpiece
      have hfirst : '|' ∉ before ++ (piece ++ after) := by
        simp only [List.mem_append, not_or]
        exact ⟨hbar _ hbefore, hpart.bar, hbar _ hafter⟩
      have hcut : before ++ (piece ++ (after ++ '|' :: rest)) =
          (before ++ (piece ++ after)) ++ '|' :: rest := by simp
      rw [hcut, split_append_cons hfirst, List.map_cons, trim_append (List.all_eq_true.1 hbefore)
        hpart.blank (List.all_eq_true.1 hafter) hpart.ne_nil]
      exact .cons hpiece ih

/-! ### Hexadecimal numbers -/

theorem isHexDigit_digitChar :
    ∀ n < 16, isHexDigit n.digitChar = true ∧ hexValue n.digitChar = n := by
  decide

/-- The digits of a number are hexadecimal, and their value is the number. -/
theorem toDigits_hexadecimal (n : Nat) :
    (Nat.toDigits 16 n).all isHexDigit = true ∧ hexadecimalValue (Nat.toDigits 16 n) = n := by
  induction n using Nat.strongRecOn with
  | ind n ih =>
      rw [Nat.toDigits_eq_if (by decide)]
      split
      case isTrue h =>
        obtain ⟨hhex, hvalue⟩ := isHexDigit_digitChar n h
        simp [hhex, hvalue, hexadecimalValue]
      case isFalse h =>
        obtain ⟨hhex, hvalue⟩ := isHexDigit_digitChar (n % 16) (Nat.mod_lt _ (by decide))
        obtain ⟨ihhex, ihvalue⟩ := ih (n / 16) (by omega)
        rw [hexadecimalValue] at ihvalue ⊢
        rw [List.all_append, ihhex, List.foldl_append, ihvalue]
        simp only [List.all_cons, List.all_nil, hhex, List.foldl_cons, List.foldl_nil, hvalue]
        exact ⟨rfl, by omega⟩

theorem not_isWhiteSpace_of_isHexDigit {c : Char} (h : isHexDigit c = true) :
    isWhiteSpace c = false ∧ c ≠ '|' ∧ c ≠ '+' := by
  have hrange : (48 ≤ c.val.toNat ∧ c.val.toNat ≤ 57) ∨ (97 ≤ c.val.toNat ∧ c.val.toNat ≤ 102) ∨
      (65 ≤ c.val.toNat ∧ c.val.toNat ≤ 70) := by
    simp only [isHexDigit, Char.isDigit, Bool.or_eq_true, Bool.and_eq_true, decide_eq_true_eq,
      Char.le_def, UInt32.le_iff_toNat_le] at h
    rcases h with (h | h) | h
    · exact .inl h
    · exact .inr (.inl h)
    · exact .inr (.inr h)
  refine ⟨?_, ?_, ?_⟩
  · simp only [isWhiteSpace, Bool.or_eq_false_iff, Bool.and_eq_false_iff, decide_eq_false_iff_not,
      beq_eq_false_iff_ne, Char.toNat]
    omega
  · rintro rfl
    revert hrange
    decide
  · rintro rfl
    revert hrange
    decide

end Text

namespace SqlMode

open Text

/-! ### Parts -/

theorem solid_of_isPart {part : List Char} {m : SqlMode} (h : IsPart part m) : Solid part := by
  cases h with
  | name f =>
      have hblank : f.name.toList.any isWhiteSpace = false := by cases f <;> decide
      refine ⟨?_, ?_, by simpa using hblank⟩ <;> cases f <;> decide
  | @digits digits bits _ hdigits _ =>
      have hdigits := List.all_eq_true.1 hdigits
      refine ⟨List.cons_ne_nil _ _, ?_, ?_⟩
      · simp only [List.mem_cons, not_or]
        exact ⟨by decide, by decide,
          fun hmem => (not_isWhiteSpace_of_isHexDigit (hdigits _ hmem)).2.1 rfl⟩
      · simp only [List.forall_mem_cons]
        exact ⟨by decide, by decide,
          fun c hc => (not_isWhiteSpace_of_isHexDigit (hdigits c hc)).1⟩

theorem readPart?_of_isPart {part : List Char} {m : SqlMode} (h : IsPart part m) :
    readPart? part = some m := by
  cases h with
  | name f => cases f <;> decide
  | @digits digits bits hne hdigits hvalue =>
      obtain ⟨c, rest, rfl⟩ := List.exists_cons_of_ne_nil hne
      have hplus : c ≠ '+' :=
        (not_isWhiteSpace_of_isHexDigit (List.all_eq_true.1 hdigits c List.mem_cons_self)).2.2
      have hread : readHex? (c :: rest) = some bits := by
        have hsize := bits.toNat_lt_size
        simp [readHex?, hplus, hdigits, hvalue, hsize]
      show (readHex? _).map _ = _
      rw [hread]
      rfl

/-- The modes that the parts of the written form stand for. -/
def partModes (m : SqlMode) : List SqlMode :=
  m.flags.map ofFlag ++ if m.unnamed == 0 then [] else [⟨m.unnamed⟩]

/-- Each part of the written form stands for its mode. -/
theorem isPart_parts (m : SqlMode) :
    List.Forall₂ IsPart (m.parts.map String.toList) m.partModes := by
  have hnames : List.Forall₂ IsPart ((m.flags.map Flag.name).map String.toList)
      (m.flags.map ofFlag) := by
    rw [List.map_map]
    exact List.forall₂_map_left_iff.2 (List.forall₂_map_right_iff.2
      (List.forall₂_same.2 fun f _ => .name f))
  rw [parts, partModes, List.map_append]
  refine List.rel_append hnames ?_
  split
  case isTrue => exact .nil
  case isFalse =>
    obtain ⟨hdigits, hvalue⟩ := toDigits_hexadecimal m.unnamed.toNat
    have htext : ("0x" ++ String.ofList (Nat.toDigits 16 m.unnamed.toNat)).toList =
        '0' :: 'x' :: Nat.toDigits 16 m.unnamed.toNat := by simp
    refine .cons ?_ .nil
    rw [htext]
    exact .digits Nat.toDigits_ne_nil hdigits hvalue

theorem foldl_readPart? {parts : List (List Char)} {modes : List SqlMode}
    (h : List.Forall₂ IsPart parts modes) (m : SqlMode) :
    parts.foldl (fun m part => m.bind fun m => (readPart? part).map m.union) (some m) =
      some (modes.foldl union m) := by
  induction h generalizing m with
  | nil => rfl
  | cons hpart _ ih =>
      rw [List.foldl_cons, List.foldl_cons, Option.bind_some, readPart?_of_isPart hpart]
      exact ih (m.union _)

/-! ### The bits -/

/-- A mode has a flag or not, there is nothing between. -/
theorem and_bit_cases (bits : UInt32) (f : Flag) : bits &&& f.bit = f.bit ∨ bits &&& f.bit = 0 := by
  obtain ⟨i, hi⟩ : ∃ i, f.bit.toBitVec = BitVec.twoPow 32 i := by
    cases f
    · exact ⟨0, rfl⟩
    · exact ⟨1, rfl⟩
    · exact ⟨2, rfl⟩
    · exact ⟨3, rfl⟩
    · exact ⟨4, rfl⟩
  have hand : (bits &&& f.bit).toBitVec =
      if bits.toBitVec.getLsbD i then f.bit.toBitVec else 0#32 := by
    rw [UInt32.toBitVec_and, hi, BitVec.and_twoPow]
  split at hand
  · exact .inl (UInt32.toBitVec_inj.1 hand)
  · exact .inr (UInt32.toBitVec_inj.1 hand)

/-- Adding a flag that is set adds its bit. -/
theorem union_flag (m n : SqlMode) (f : Flag) :
    (if m.has f then n.union (ofFlag f) else n) = ⟨n.bits ||| (m.bits &&& f.bit)⟩ := by
  have hbit : f.bit ≠ 0 := by cases f <;> decide
  rcases and_bit_cases m.bits f with h | h
  · simp [has, h, hbit, union, ofFlag]
  · simp [has, h]

theorem and_or_and (bits a b : UInt32) : bits &&& a ||| bits &&& b = bits &&& (a ||| b) :=
  UInt32.toBitVec_inj.1 BitVec.and_or_distrib_left.symm

/-- What the parts of the written form stand for adds up to the mode. -/
theorem union_partModes (m : SqlMode) : m.partModes.foldl union empty = m := by
  have hrest : ∀ n : SqlMode,
      (if m.unnamed == 0 then [] else [⟨m.unnamed⟩]).foldl union n = ⟨n.bits ||| m.unnamed⟩ := by
    intro n
    split
    case isTrue h => simp [beq_iff_eq.1 h]
    case isFalse => rfl
  have hmask : ((1 : UInt32) ||| 2 ||| 4 ||| 8 ||| 16 ||| ~~~31) = -1 := by decide
  rw [partModes, List.foldl_append, List.foldl_map, flags, List.foldl_filter, hrest]
  simp only [union_flag, Flag.all, List.foldl_cons, List.foldl_nil, empty, Flag.bit, unnamed,
    UInt32.zero_or, and_or_and, hmask, UInt32.and_neg_one]

/-! ### The form -/

/-- The written form of a mode is a form of that mode. -/
theorem isBarForm_parts (m : SqlMode) : IsBarForm (" | ".intercalate m.parts).toList m := by
  have hparts := m.isPart_parts
  have htext : (" | ".intercalate m.parts).toList =
      " | ".toList.intercalate (m.parts.map String.toList) := String.toList_intercalate
  rw [htext]
  by_cases hnone : m.partModes = []
  · have hempty := m.union_partModes
    rw [hnone, List.forall₂_nil_right_iff] at hparts
    rw [hnone] at hempty
    rw [hparts, ← hempty]
    exact .blank rfl
  · have hspace : [' '].all isWhiteSpace = true := by decide
    have hform := IsBarForm.parts (separated_intercalate hspace hspace hparts hnone
      (List.all_nil : [].all isWhiteSpace = true))
    rwa [union_partModes] at hform

/-- The reader that runs finds the modes of every form. -/
theorem read?_of_isBarForm {text : String} {m : SqlMode} (h : IsBarForm text.toList m) :
    read? text = some m := by
  rw [read?]
  generalize text.toList = cs at h
  cases h with
  | blank h =>
      rw [trim_eq_nil_iff.2 (List.all_eq_true.1 h)]
      rfl
  | parts h =>
      have hparts := split_of_separated h solid_of_isPart
      have hfold := foldl_readPart? hparts empty
      rw [List.foldl_map] at hfold
      have hblank : trim cs ≠ [] := by
        -- blank text has no bars, and its only part would be empty
        intro hnil
        have hwhite := trim_eq_nil_iff.1 hnil
        rw [split_of_not_mem fun hmem => absurd (hwhite _ hmem) (by decide), List.map_singleton,
          hnil] at hparts
        cases hparts with
        | cons hpart _ => exact (solid_of_isPart hpart).ne_nil rfl
      rw [List.isEmpty_eq_false_iff.2 hblank]
      exact hfold

end SqlMode

end MySqlAnalysis
