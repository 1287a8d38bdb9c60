import Mathlib.Data.List.TakeWhile
import Mathlib.Data.Prod.Lex
import MySqlAnalysis.Config.Basic

/-!
# Version numbers

A text is a version if it is, without the white space around it, three numerals between
points and a rest that does not start with a digit (`ServerVersion.Spells`). Its number has
two decimal places each for the minor part and the patch, so that numbers are ordered as
the parts are (`ServerVersion.number_le_number_iff`). Reading the number in words of 32
bits gives the same, and no step that is not checked leaves a word
(`ServerVersion.readWords_eq`). Together this says exactly what is read
(`ServerVersion.read?_exact`).
-/

set_option autoImplicit false

namespace MySqlAnalysis

open Text

namespace ServerVersion

/-! ### Texts that are versions -/

/-- Digits that make up a number; zeros in front do not count. -/
structure Numeral (cs : List Char) (n : Nat) : Prop where
  ne_nil : cs ≠ []
  digits : ∀ c ∈ cs, c.isDigit = true
  value : decimalValue cs = n

/-- A text of three numerals between points. What follows the last of them does not start
with a digit. -/
inductive Spells : List Char → Nat → Nat → Nat → Prop
  | intro {a b c suffix : List Char} {major minor patch : Nat} (ha : Numeral a major)
      (hb : Numeral b minor) (hc : Numeral c patch)
      (hsuffix : ∀ e ∈ suffix.head?, e.isDigit = false) :
      Spells (a ++ '.' :: (b ++ '.' :: (c ++ suffix))) major minor patch

/-- A version in the range of version numbers: the last two parts have two decimal places
each, and the number has 32 bits. -/
structure Accepted (text : String) (major minor patch : Nat) : Prop where
  spells : Spells (trim text.toList) major minor patch
  minor_le : minor ≤ 99
  patch_le : patch ≤ 99
  fits : major * 10000 + minor * 100 + patch < UInt32.size

/-! ### The parts of a version -/

/-- The text up to the first point, the text up to the second one, and the digits behind it. -/
def parts? (cs : List Char) : Option (List Char × List Char × List Char) :=
  let behindMajor := cs.dropWhile (· != '.')
  let behindMinor := behindMajor.tail.dropWhile (· != '.')
  if behindMajor.isEmpty || behindMinor.isEmpty then none
  else some (cs.takeWhile (· != '.'), behindMajor.tail.takeWhile (· != '.'),
    behindMinor.tail.takeWhile Char.isDigit)

/-- The number that three parts are read as. -/
def number? (major minor patch : Nat) : Option Nat :=
  if minor ≤ 99 && patch ≤ 99 && (ofParts major minor patch).number < UInt32.size then
    some (ofParts major minor patch).number
  else none

/-- The number that the texts of three parts are read as. -/
def numberOf? (a b c : List Char) : Option Nat :=
  (readComponent? a).bind fun major => (readComponent? b).bind fun minor =>
    (readComponent? c).bind fun patch => number? major minor patch

theorem readNumber?_eq (cs : List Char) :
    readNumber? cs = (parts? (trim cs)).bind fun (a, b, c) => numberOf? a b c := by
  unfold readNumber? parts? numberOf?
  dsimp only
  split
  case isTrue => rfl
  case isFalse =>
    rw [Option.bind_some]
    cases readComponent? _ <;> cases readComponent? _ <;> cases readComponent? _ <;> rfl

theorem readComponent?_eq_some_iff {cs : List Char} {n : Nat} :
    readComponent? cs = some n ↔ Numeral cs n := by
  have hdigits : (!cs.isEmpty && cs.all Char.isDigit) = true ↔
      cs ≠ [] ∧ ∀ c ∈ cs, c.isDigit = true := by simp
  rw [readComponent?, Option.ite_none_right_eq_some, hdigits, Option.some.injEq, and_assoc]
  exact ⟨fun ⟨hne, hall, hvalue⟩ => ⟨hne, hall, hvalue⟩,
    fun h => ⟨h.ne_nil, h.digits, h.value⟩⟩

theorem number?_eq_some_iff {major minor patch n : Nat} :
    number? major minor patch = some n ↔ minor ≤ 99 ∧ patch ≤ 99 ∧
      major * 10000 + minor * 100 + patch < UInt32.size ∧
        n = major * 10000 + minor * 100 + patch := by
  rw [number?, Option.ite_none_right_eq_some, Bool.and_eq_true, Bool.and_eq_true,
    decide_eq_true_eq, decide_eq_true_eq, decide_eq_true_eq, Option.some.injEq, and_assoc,
    and_assoc, eq_comm (a := (ofParts major minor patch).number)]
  rfl

/-- The text around the first point. -/
theorem cut_at_point {a : List Char} (ha : '.' ∉ a) (b : List Char) :
    (a ++ '.' :: b).takeWhile (· != '.') = a ∧ (a ++ '.' :: b).dropWhile (· != '.') = '.' :: b := by
  have hall : ∀ c ∈ a, (c != '.') = true := fun c hc => bne_iff_ne.2 fun h => ha (h ▸ hc)
  constructor
  · rw [List.takeWhile_append_of_pos hall, List.takeWhile_cons_of_neg (by simp), List.append_nil]
  · rw [List.dropWhile_append_of_pos hall, List.dropWhile_cons_of_neg (by simp)]

theorem exists_cut_at_point {cs : List Char} (h : cs.dropWhile (· != '.') ≠ []) :
    cs = cs.takeWhile (· != '.') ++ '.' :: (cs.dropWhile (· != '.')).tail := by
  obtain ⟨c, rest, hdrop⟩ := List.exists_cons_of_ne_nil h
  have hc := List.head?_dropWhile_not (· != '.') cs
  rw [hdrop] at hc
  obtain rfl : c = '.' := by simpa using hc
  rw [hdrop, List.tail_cons, ← hdrop]
  exact List.takeWhile_append_dropWhile.symm

theorem Numeral.not_mem {cs : List Char} {n : Nat} (h : Numeral cs n) : '.' ∉ cs := fun hmem => by
  have hdigit := h.digits '.' hmem
  revert hdigit
  decide

/-- The parts of a text are numerals exactly if it is a version. -/
theorem spells_iff {cs : List Char} {major minor patch : Nat} :
    Spells cs major minor patch ↔
      ∃ a b c, parts? cs = some (a, b, c) ∧ Numeral a major ∧ Numeral b minor ∧
        Numeral c patch := by
  constructor
  · rintro ⟨ha, hb, hc, hsuffix⟩
    rename_i a b c suffix
    -- there is no point in a numeral, so the first two points are those between the parts
    obtain ⟨htakeMajor, hdropMajor⟩ := cut_at_point ha.not_mem (b ++ '.' :: (c ++ suffix))
    obtain ⟨htakeMinor, hdropMinor⟩ := cut_at_point hb.not_mem (c ++ suffix)
    have hpatch : (c ++ suffix).takeWhile Char.isDigit = c := by
      rw [List.takeWhile_append_of_pos hc.digits]
      cases suffix with
      | nil => exact List.append_nil c
      | cons e suffix =>
          rw [List.takeWhile_cons_of_neg (by simp [hsuffix e rfl]), List.append_nil]
    refine ⟨a, b, c, ?_, ha, hb, hc⟩
    rw [parts?, hdropMajor, htakeMajor, List.tail_cons, hdropMinor, htakeMinor, List.tail_cons,
      hpatch]
    rfl
  · rintro ⟨a, b, c, hparts, ha, hb, hc⟩
    rw [parts?, Option.ite_none_left_eq_some, Bool.or_eq_true, not_or, List.isEmpty_iff,
      List.isEmpty_iff] at hparts
    obtain ⟨⟨hmajor, hminor⟩, hparts⟩ := hparts
    cases hparts
    have hsplit := exists_cut_at_point hmajor
    rw [exists_cut_at_point hminor] at hsplit
    rw [hsplit, ← List.takeWhile_append_dropWhile (p := Char.isDigit)
      (l := ((cs.dropWhile (· != '.')).tail.dropWhile (· != '.')).tail)]
    refine .intro ha hb hc fun e he => ?_
    have hnot := List.head?_dropWhile_not Char.isDigit
      ((cs.dropWhile (· != '.')).tail.dropWhile (· != '.')).tail
    rw [Option.mem_def.1 he] at hnot
    exact hnot

/-- A number is read exactly from the versions in the range of version numbers. -/
theorem read?_eq_some_iff {text : String} {n : Nat} :
    read? text = some ⟨n⟩ ↔ ∃ major minor patch, Accepted text major minor patch ∧
      n = major * 10000 + minor * 100 + patch := by
  have hread : read? text = some ⟨n⟩ ↔ readNumber? text.toList = some n := by
    simp [read?]
  rw [hread, readNumber?_eq]
  simp only [numberOf?, Option.bind_eq_some_iff, Prod.exists, readComponent?_eq_some_iff,
    number?_eq_some_iff]
  constructor
  · rintro ⟨a, b, c, hparts, major, ha, minor, hb, patch, hc, hminor, hpatch, hfits, hn⟩
    exact ⟨major, minor, patch, ⟨spells_iff.2 ⟨a, b, c, hparts, ha, hb, hc⟩, hminor, hpatch,
      hfits⟩, hn⟩
  · rintro ⟨major, minor, patch, h, hn⟩
    obtain ⟨a, b, c, hparts, ha, hb, hc⟩ := spells_iff.1 h.spells
    exact ⟨a, b, c, hparts, major, ha, minor, hb, patch, hc, h.minor_le, h.patch_le, h.fits, hn⟩

/-! ### Reading in words -/

/-- A product or a sum of words of 32 bits that does not fit a word. -/
inductive Overflow where
  | product (a b : UInt32)
  | sum (a b : UInt32)

/-- The product of two words. -/
def mulWords (a b : UInt32) : Except Overflow UInt32 :=
  if a.toNat * b.toNat < UInt32.size then .ok (a * b) else .error (.product a b)

/-- The sum of two words. -/
def addWords (a b : UInt32) : Except Overflow UInt32 :=
  if a.toNat + b.toNat < UInt32.size then .ok (a + b) else .error (.sum a b)

/-- A word with one more digit behind it. -/
def addDigit (word : UInt32) (c : Char) : Except Overflow UInt32 := do
  addWords (← mulWords 10 word) (UInt32.ofNat (c.toNat - 0x30))

/-- Value of a non-empty sequence of digits, absent if it does not fit a word. -/
def wordComponent? (cs : List Char) : Option UInt32 :=
  if !cs.isEmpty && cs.all Char.isDigit then (cs.foldlM addDigit 0).toOption else none

/-- The number of a version in words. The product with the major part and the last sum are
checked: where they do not fit there is no number. The other steps are not. -/
def wordNumber (major minor patch : UInt32) : Except Overflow (Option UInt32) :=
  if 99 < minor || 99 < patch then .ok none
  else
    match (mulWords major 10000).toOption with
    | none => .ok none
    | some high => do
      let low ← addWords (← mulWords minor 100) patch
      return (addWords high low).toOption

/-- Reads a version in words. -/
def readWords (cs : List Char) : Except Overflow (Option UInt32) :=
  match parts? (trim cs) with
  | none => .ok none
  | some (a, b, c) =>
    match wordComponent? a, wordComponent? b, wordComponent? c with
    | some major, some minor, some patch => wordNumber major minor patch
    | _, _, _ => .ok none

/-- What comes out of a computation in words whose exact result is a number: the number if
it fits a word. -/
inductive Computes : Except Overflow UInt32 → Nat → Prop
  | fits (word : UInt32) : Computes (.ok word) word.toNat
  | exceeds (e : Overflow) {n : Nat} (h : UInt32.size ≤ n) : Computes (.error e) n

theorem mulWords_computes (a b : UInt32) : Computes (mulWords a b) (a.toNat * b.toNat) := by
  unfold mulWords
  split
  case isTrue h =>
    have hvalue : (a * b).toNat = a.toNat * b.toNat := by
      rw [UInt32.toNat_mul]
      exact Nat.mod_eq_of_lt h
    rw [← hvalue]
    exact .fits (a * b)
  case isFalse h => exact .exceeds _ (Nat.not_lt.1 h)

theorem addWords_computes (a b : UInt32) : Computes (addWords a b) (a.toNat + b.toNat) := by
  unfold addWords
  split
  case isTrue h =>
    have hvalue : (a + b).toNat = a.toNat + b.toNat := by
      rw [UInt32.toNat_add]
      exact Nat.mod_eq_of_lt h
    rw [← hvalue]
    exact .fits (a + b)
  case isFalse h => exact .exceeds _ (Nat.not_lt.1 h)

theorem toNat_digit {c : Char} (hc : c.isDigit = true) :
    (UInt32.ofNat (c.toNat - 0x30)).toNat = c.toNat - 0x30 := by
  have hle : c.toNat ≤ 57 := (Char.isDigit_iff_toNat.1 hc).2
  exact UInt32.toNat_ofNat_of_lt' (by simp only [UInt32.size]; omega)

theorem addDigit_computes (word : UInt32) {c : Char} (hc : c.isDigit = true) :
    Computes (addDigit word c) (10 * word.toNat + (c.toNat - 0x30)) := by
  have hproduct : Computes (mulWords 10 word) (10 * word.toNat) := mulWords_computes 10 word
  rw [addDigit]
  generalize 10 * word.toNat = n at hproduct ⊢
  generalize mulWords 10 word = r at hproduct ⊢
  cases hproduct with
  | fits tens =>
      have hsum := addWords_computes tens (UInt32.ofNat (c.toNat - 0x30))
      rwa [toNat_digit hc] at hsum
  | exceeds e h => exact .exceeds e (Nat.le_add_right_of_le h)

/-- More digits make a number no smaller. -/
theorem le_foldl_digits (cs : List Char) (n : Nat) :
    n ≤ cs.foldl (fun value c => 10 * value + (c.toNat - 0x30)) n := by
  induction cs generalizing n with
  | nil => exact Nat.le_refl n
  | cons c cs ih =>
      have hstep : n ≤ 10 * n + (c.toNat - 0x30) := by omega
      exact Nat.le_trans hstep (ih _)

/-- Digits are read in words up to the first step that does not fit. -/
theorem foldlM_addDigit_computes (cs : List Char) (hcs : ∀ c ∈ cs, c.isDigit = true)
    (word : UInt32) : Computes (cs.foldlM addDigit word)
      (cs.foldl (fun value c => 10 * value + (c.toNat - 0x30)) word.toNat) := by
  induction cs generalizing word with
  | nil => exact .fits word
  | cons c cs ih =>
      have hdigit := addDigit_computes word (hcs c List.mem_cons_self)
      have hrest := ih fun e he => hcs e (List.mem_cons_of_mem c he)
      rw [List.foldlM_cons, List.foldl_cons]
      generalize 10 * word.toNat + (c.toNat - 0x30) = n at hdigit ⊢
      generalize addDigit word c = r at hdigit ⊢
      cases hdigit with
      | fits word' => exact hrest word'
      | exceeds e h => exact .exceeds e (Nat.le_trans h (le_foldl_digits cs n))

theorem Computes.map_toNat {r : Except Overflow UInt32} {n : Nat} (h : Computes r n) :
    r.toOption.map UInt32.toNat = if n < UInt32.size then some n else none := by
  cases h with
  | fits word => exact (if_pos word.toNat_lt_size).symm
  | exceeds e h => exact (if_neg (Nat.not_lt.2 h)).symm

/-- A part is read in words if its value fits a word. -/
theorem wordComponent?_cases (cs : List Char) :
    (∃ word, wordComponent? cs = some word ∧ readComponent? cs = some word.toNat) ∨
      wordComponent? cs = none ∧ ∀ n ∈ readComponent? cs, UInt32.size ≤ n := by
  rw [wordComponent?, readComponent?]
  split
  case isTrue h =>
    have hdigits : ∀ c ∈ cs, c.isDigit = true := by
      rw [Bool.and_eq_true, List.all_eq_true] at h
      exact h.2
    have hcomputes : Computes (cs.foldlM addDigit 0) (decimalValue cs) :=
      foldlM_addDigit_computes cs hdigits 0
    generalize decimalValue cs = n at hcomputes ⊢
    generalize cs.foldlM addDigit 0 = r at hcomputes ⊢
    cases hcomputes with
    | fits word => exact .inl ⟨word, rfl, rfl⟩
    | exceeds e h => exact .inr ⟨rfl, fun m hm => Option.some.inj hm ▸ h⟩
  case isFalse => exact .inr ⟨rfl, fun m hm => by cases hm⟩

theorem Computes.exists_ok {r : Except Overflow UInt32} {n : Nat} (h : Computes r n)
    (hn : n < UInt32.size) : ∃ word, r = .ok word ∧ word.toNat = n := by
  cases h with
  | fits word => exact ⟨word, rfl, rfl⟩
  | exceeds e h => exact absurd hn (Nat.not_lt.2 h)

theorem number?_eq_none {major minor patch : Nat}
    (h : UInt32.size ≤ major ∨ 99 < minor ∨ 99 < patch) : number? major minor patch = none := by
  rw [Option.eq_none_iff_forall_ne_some]
  intro n hn
  obtain ⟨hminor, hpatch, hfits, -⟩ := number?_eq_some_iff.1 hn
  omega

theorem numberOf?_eq_none {a b c : List Char} (h : ∀ major ∈ readComponent? a,
    ∀ minor ∈ readComponent? b, ∀ patch ∈ readComponent? c,
      UInt32.size ≤ major ∨ 99 < minor ∨ 99 < patch) : numberOf? a b c = none := by
  rw [Option.eq_none_iff_forall_ne_some]
  intro n hn
  simp only [numberOf?, Option.bind_eq_some_iff] at hn
  obtain ⟨major, ha, minor, hb, patch, hc, hnumber⟩ := hn
  rw [number?_eq_none (h major ha minor hb patch hc)] at hnumber
  cases hnumber

theorem number?_of_le {major minor patch : Nat} (hminor : minor ≤ 99) (hpatch : patch ≤ 99) :
    number? major minor patch =
      if major * 10000 + (minor * 100 + patch) < UInt32.size then
        some (major * 10000 + (minor * 100 + patch))
      else none := by
  simp [number?, hminor, hpatch, ofParts, Nat.add_assoc]

/-- The number in words is that of the version, and no step that is not checked leaves a
word. -/
theorem wordNumber_eq (major minor patch : UInt32) :
    ∃ word, wordNumber major minor patch = .ok word ∧
      word.map UInt32.toNat = number? major.toNat minor.toNat patch.toNat := by
  rw [wordNumber]
  split
  case isTrue h =>
    rw [Bool.or_eq_true, decide_eq_true_eq, decide_eq_true_eq, UInt32.lt_iff_toNat_lt,
      UInt32.lt_iff_toNat_lt] at h
    exact ⟨none, rfl, (number?_eq_none (.inr h)).symm⟩
  case isFalse h =>
    rw [Bool.or_eq_true, not_or, decide_eq_true_eq, decide_eq_true_eq, UInt32.lt_iff_toNat_lt,
      UInt32.lt_iff_toNat_lt, Nat.not_lt, Nat.not_lt] at h
    obtain ⟨hminor, hpatch⟩ : minor.toNat ≤ 99 ∧ patch.toNat ≤ 99 := h
    -- the last two parts are small enough for the steps that are not checked
    have hhundred : (100 : UInt32).toNat = 100 := rfl
    obtain ⟨shifted, hshifted, hshiftedValue⟩ := (mulWords_computes minor 100).exists_ok (by
      rw [hhundred, UInt32.size]
      omega)
    obtain ⟨low, hlow, hlowValue⟩ := (addWords_computes shifted patch).exists_ok (by
      rw [hshiftedValue, hhundred, UInt32.size]
      omega)
    rw [hshiftedValue, hhundred] at hlowValue
    have hhigh : Computes (mulWords major 10000) (major.toNat * 10000) :=
      mulWords_computes major 10000
    rw [number?_of_le hminor hpatch, ← hlowValue]
    generalize major.toNat * 10000 = top at hhigh ⊢
    generalize mulWords major 10000 = r at hhigh ⊢
    cases hhigh with
    | fits high =>
        refine ⟨(addWords high low).toOption, ?_, (addWords_computes high low).map_toNat⟩
        change ((mulWords minor 100).bind fun shifted => _) = _
        rw [hshifted]
        change ((addWords shifted patch).bind fun low => _) = _
        rw [hlow]
        rfl
    | exceeds e h => exact ⟨none, rfl, (if_neg (by omega)).symm⟩

/-- Reading in words gives the number of the version, and no step that is not checked leaves a
word. -/
theorem readWords_eq (cs : List Char) :
    ∃ word, readWords cs = .ok word ∧ word.map UInt32.toNat = readNumber? cs := by
  rw [readWords, readNumber?_eq]
  cases parts? (trim cs) with
  | none => exact ⟨none, rfl, rfl⟩
  | some parts =>
      obtain ⟨a, b, c⟩ := parts
      have hsmall : 99 < UInt32.size := by decide
      dsimp only
      rw [Option.bind_some]
      -- a part that is no word makes the version too large
      rcases wordComponent?_cases a with ⟨major, ha, ha'⟩ | ⟨ha, ha'⟩
      · rcases wordComponent?_cases b with ⟨minor, hb, hb'⟩ | ⟨hb, hb'⟩
        · rcases wordComponent?_cases c with ⟨patch, hc, hc'⟩ | ⟨hc, hc'⟩
          · rw [ha, hb, hc, numberOf?, ha', hb', hc']
            exact wordNumber_eq major minor patch
          · refine ⟨none, by rw [ha, hb, hc], (numberOf?_eq_none ?_).symm⟩
            exact fun _ _ _ _ p hp => .inr (.inr (Nat.lt_of_lt_of_le hsmall (hc' p hp)))
        · refine ⟨none, by rw [ha, hb], (numberOf?_eq_none ?_).symm⟩
          exact fun _ _ m hm _ _ => .inr (.inl (Nat.lt_of_lt_of_le hsmall (hb' m hm)))
      · refine ⟨none, by rw [ha], (numberOf?_eq_none ?_).symm⟩
        exact fun m hm _ _ _ _ => .inl (ha' m hm)

/-! ### The order of versions -/

/-- Versions are ordered by the first part in which they differ. -/
def ordered (major minor patch : Nat) : Nat ×ₗ Nat ×ₗ Nat :=
  toLex (major, toLex (minor, patch))

/-- The parts that have two decimal places do not reach into the part before them. -/
theorem number_le_number_iff {major minor patch major' minor' patch' : Nat} (hminor : minor ≤ 99)
    (hpatch : patch ≤ 99) (hminor' : minor' ≤ 99) (hpatch' : patch' ≤ 99) :
    (ofParts major minor patch).number ≤ (ofParts major' minor' patch').number ↔
      ordered major minor patch ≤ ordered major' minor' patch' := by
  simp only [ofParts, ordered, Prod.Lex.toLex_le_toLex]
  omega

/-- The family of a version by its parts: that of the newest series that is not newer. -/
def familyOf (major minor patch : Nat) : Option Family :=
  if ordered 8 0 0 ≤ ordered major minor patch then some .v80
  else if ordered 5 7 0 ≤ ordered major minor patch then some .v57
  else if ordered 5 6 0 ≤ ordered major minor patch then some .v56
  else none

theorem family?_ofParts {major minor patch : Nat} (hminor : minor ≤ 99) (hpatch : patch ≤ 99) :
    (ofParts major minor patch).family? = familyOf major minor patch := by
  have hfirst (a b : Nat) (hb : b ≤ 99) : (ofParts a b 0).number ≤
      (ofParts major minor patch).number ↔ ordered a b 0 ≤ ordered major minor patch :=
    number_le_number_iff hb (Nat.zero_le 99) hminor hpatch
  rw [family?, familyOf, show v80.number = (ofParts 8 0 0).number from rfl,
    show v57.number = (ofParts 5 7 0).number from rfl,
    show v56.number = (ofParts 5 6 0).number from rfl]
  simp only [hfirst 8 0 (by decide), hfirst 5 7 (by decide), hfirst 5 6 (by decide)]

/-- The versions that are read are those in the range of version numbers, each with its number,
also when it is read in words. Numbers are ordered as the parts are, and the family is that of
the parts. -/
theorem read?_exact (text : String) :
    (∀ n, read? text = some ⟨n⟩ ↔ ∃ major minor patch, Accepted text major minor patch ∧
      n = major * 10000 + minor * 100 + patch) ∧
    (∃ word, readWords text.toList = .ok word ∧
      word.map UInt32.toNat = (read? text).map number) ∧
    ∀ major minor patch, Accepted text major minor patch →
      (∀ other major' minor' patch', Accepted other major' minor' patch' →
        ∃ v v', read? text = some v ∧ read? other = some v' ∧
          (v.number ≤ v'.number ↔ ordered major minor patch ≤ ordered major' minor' patch')) ∧
      ∀ c : Config, c.version = text → c.family? = familyOf major minor patch := by
  have hread {text : String} {major minor patch : Nat} (h : Accepted text major minor patch) :
      read? text = some (ofParts major minor patch) :=
    read?_eq_some_iff.2 ⟨major, minor, patch, h, rfl⟩
  refine ⟨fun n => read?_eq_some_iff, ?_, fun major minor patch h => ⟨?_, ?_⟩⟩
  · obtain ⟨word, hword, hvalue⟩ := readWords_eq text.toList
    refine ⟨word, hword, ?_⟩
    rw [hvalue, read?, Option.map_map]
    exact Option.map_id'.symm
  · intro other major' minor' patch' h'
    exact ⟨_, _, hread h, hread h',
      number_le_number_iff h.minor_le h.patch_le h'.minor_le h'.patch_le⟩
  · rintro c rfl
    rw [Config.family?, hread h, Option.bind_some, family?_ofParts h.minor_le h.patch_le]

/-- A version with blanks around it and more points behind it, and one with zeros in front. -/
theorem read?_exact_suffix :
    Accepted " 5.7.20-log.1 " 5 7 20 ∧ Accepted "008.00.0" 8 0 0 ∧
      read? " 5.7.20-log.1 " = some ⟨50720⟩ ∧
      (∃ v v', read? " 5.7.20-log.1 " = some v ∧ read? "008.00.0" = some v' ∧
        (v.number ≤ v'.number ↔ ordered 5 7 20 ≤ ordered 8 0 0)) ∧
      (Config.standard.withVersion " 5.7.20-log.1 ").family? = some .v57 := by
  have hnumeral {cs : List Char} {n : Nat} (h : readComponent? cs = some n) : Numeral cs n :=
    readComponent?_eq_some_iff.1 h
  have hsuffix : Accepted " 5.7.20-log.1 " 5 7 20 :=
    ⟨spells_iff.2 ⟨['5'], ['7'], ['2', '0'], by decide, hnumeral rfl, hnumeral rfl, hnumeral rfl⟩,
      by decide, by decide, by decide⟩
  have hzeros : Accepted "008.00.0" 8 0 0 :=
    ⟨spells_iff.2 ⟨['0', '0', '8'], ['0', '0'], ['0'], by decide, hnumeral rfl, hnumeral rfl,
      hnumeral rfl⟩, by decide, by decide, by decide⟩
  obtain ⟨hread, -, hparts⟩ := read?_exact " 5.7.20-log.1 "
  obtain ⟨horder, hfamily⟩ := hparts 5 7 20 hsuffix
  refine ⟨hsuffix, hzeros, (hread 50720).2 ⟨5, 7, 20, hsuffix, rfl⟩,
    horder "008.00.0" 8 0 0 hzeros, ?_⟩
  rw [hfamily _ rfl]
  decide

end ServerVersion

end MySqlAnalysis
