import Mathlib.Data.List.Forall2
import MySqlAnalysis.Config.Serialization

/-!
# Written configurations are JSON text

A character that is written between quotes stands for itself, whether it is escaped or
not (`Quoted.encodeCharacter`), so a written text stands for that text
(`isText_encode`). From the values up the written form of a configuration is a document
whose members are the settings (`Config.isDocument_written`).
-/

set_option autoImplicit false

namespace MySqlAnalysis

namespace Text

/-- Pieces with the same blanks in front of and behind each separator. -/
theorem separated_intercalate {α : Type} {separator : Char} {isBlank : Char → Bool}
    {IsPiece : List Char → α → Prop} {before after : List Char}
    (hbefore : before.all isBlank = true) (hafter : after.all isBlank = true)
    {pieces : List (List Char)} {values : List α} (h : List.Forall₂ IsPiece pieces values)
    (hne : values ≠ []) {front : List Char} (hfront : front.all isBlank = true) :
    Separated separator isBlank IsPiece
      (front ++ (after ++ separator :: before).intercalate pieces) values := by
  induction h generalizing front with
  | nil => exact absurd rfl hne
  | @cons piece a pieces values hpiece hrest ih =>
      cases hrest with
      | nil =>
          rw [List.intercalate_singleton, ← List.append_nil piece]
          exact .last hfront hpiece List.all_nil
      | cons hnext hrest =>
          have hmore := ih (List.cons_ne_nil _ _) hbefore
          have hcons := Separated.cons hfront hpiece hafter hmore
          rw [List.intercalate_cons_cons]
          simpa using hcons

end Text

namespace Json

open Text

/-! ### Quoted text -/

theorem hexValue_hexDigit :
    ∀ n < 16, isHexDigit (hexDigit n) = true ∧ hexValue (hexDigit n) = n := by
  decide

theorem isUnit_unitDigits {n : Nat} (h : n < 0x10000) : IsUnit (unitDigits n) n := by
  have hdigit : ∀ m, isHexDigit (hexDigit (m % 16)) = true ∧
      hexValue (hexDigit (m % 16)) = m % 16 :=
    fun m => hexValue_hexDigit (m % 16) (Nat.mod_lt _ (by decide))
  refine ⟨rfl, ?_, ?_⟩
  · simp only [unitDigits, List.all_cons, List.all_nil, (hdigit _).1, Bool.and_self]
  · simp only [hexadecimalValue, unitDigits, List.foldl_cons, List.foldl_nil, (hdigit _).2]
    omega

/-- A written character stands for itself. -/
theorem Quoted.encodeCharacter (c : Char) {cs text : List Char} (h : Quoted cs text) :
    Quoted (encodeCharacter c ++ cs) (c :: text) := by
  unfold Json.encodeCharacter
  split
  case h_8 hquote hescape _ _ _ _ _ =>
    split
    case isTrue hc =>
      have hunit : IsUnit (unitDigits c.toNat) c.toNat := isUnit_unitDigits (by omega)
      have hleading : isLeading c.toNat = false := by
        simp [isLeading]
        omega
      have htrailing : isTrailing c.toNat = false := by
        simp [isTrailing]
        omega
      have hquoted := h.unit hunit hleading htrailing
      rwa [Char.ofNat_toNat] at hquoted
    case isFalse hc => exact .character (Nat.not_lt.1 hc) hquote hescape h
  all_goals exact .escape rfl h

/-- A written text stands for that text. -/
theorem quoted_encode (text : List Char) : Quoted (text.flatMap encodeCharacter) text := by
  induction text with
  | nil => exact .nil
  | cons c text ih => exact ih.encodeCharacter c

/-! ### Values -/

theorem no_blanks : ([] : List Char).all isSpace = true := rfl

theorem isText_encode (text : String) : IsText (encode text) text := by
  have htext : IsText (encode text) (String.ofList text.toList) := .quoted (quoted_encode _)
  rwa [String.ofList_toList] at htext

/-- Written values between brackets. -/
theorem enclosed_enclose {α : Type} {opening closing : Char} {IsPiece : List Char → α → Prop}
    {pieces : List (List Char)} {values : List α} (h : List.Forall₂ IsPiece pieces values) :
    Enclosed opening closing IsPiece (enclose opening closing pieces) values := by
  cases h with
  | nil => exact .empty no_blanks
  | cons hpiece hrest =>
      exact .values (separated_intercalate no_blanks no_blanks (.cons hpiece hrest)
        (List.cons_ne_nil _ _) no_blanks)

theorem isDatum_encode (text : String) : IsDatum (encode text) (.text text) :=
  .text (isText_encode text)

theorem isDatum_enclose (texts : List String) :
    IsDatum (enclose '[' ']' (texts.map encode)) (.texts texts) := by
  refine .texts (enclosed_enclose (List.forall₂_map_left_iff.2 ?_))
  exact List.forall₂_same.2 fun text _ => isText_encode text

theorem isMember_encodeMember (key : String) {value : List Char} {d : Datum}
    (h : IsDatum value d) : IsMember (encodeMember key value) (key, d) :=
  .named (isText_encode key) no_blanks no_blanks h

end Json

open Json

/-- The written form of a configuration is an object with the settings. -/
theorem Config.isDocument_written (c : Config) (modeText : String) :
    IsDocument (c.written modeText)
      [("version", .text c.version), ("mode", .text modeText), ("charsets", .texts c.charsets)] := by
  have hmembers : Enclosed '\x7b' '\x7d' IsMember (c.written modeText)
      [("version", .text c.version), ("mode", .text modeText), ("charsets", .texts c.charsets)] :=
    enclosed_enclose (.cons (isMember_encodeMember _ (isDatum_encode _))
      (.cons (isMember_encodeMember _ (isDatum_encode _))
        (.cons (isMember_encodeMember _ (isDatum_enclose _)) .nil)))
  rw [← List.append_nil (c.written modeText)]
  exact .object no_blanks hmembers no_blanks

end MySqlAnalysis
