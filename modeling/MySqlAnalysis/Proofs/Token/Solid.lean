import Mathlib.Data.List.TakeWhile
import MySqlAnalysis.Proofs.Token.Spans

/-!
# Words, numbers and operators

What is neither a blank nor a comment nor quoted is a word, a number, a variable or an
operator (`Token.Solid`, `Token.scan_solid`). Such a token ends in front of every
semicolon and every blank: whether more text follows there makes no difference to it
(`Token.solid_append`). Of the characters that mean something to a script it contains
at most the sign of an exponent (`Token.takes_solid`).
-/

set_option autoImplicit false

namespace MySqlAnalysis.Token

open Text

/-! ### Breaks -/

/-- The characters at which every word, number and operator ends. -/
def isBreak (c : Char) : Bool :=
  c == ';' || isBlank c

/-- All of them. -/
def breakCharacters : List Char :=
  [';', ' ', '\t', '\n', '\r', '\x0b', '\x0c']

/-- A text that is empty or starts with a break. -/
def Breaks (w : List Char) : Prop :=
  ∀ c ∈ w.head?, isBreak c = true

theorem Breaks.nil : Breaks [] := by
  simp [Breaks]

theorem Breaks.cons {b : Char} (hb : isBreak b = true) (w : List Char) : Breaks (b :: w) := by
  simpa [Breaks] using hb

theorem isBreak_of_isBlank {b : Char} (hb : isBlank b = true) : isBreak b = true := by
  simp [isBreak, hb]

theorem isBlank_of_isBreak {b : Char} (hb : isBreak b = false) : isBlank b = false := by
  rw [isBreak, Bool.or_eq_false_iff] at hb
  exact hb.2

theorem isBreak_iff {c : Char} : isBreak c = true ↔ c ∈ breakCharacters := by
  simp [isBreak, isBlank, breakCharacters, or_assoc]

/-- No break belongs to a class of characters that none of the seven breaks does. -/
theorem not_class_of_isBreak {p : Char → Bool} (hp : breakCharacters.any p = false) {c : Char}
    (hc : isBreak c = true) : p c = false := by
  rw [List.any_eq_false] at hp
  exact Bool.eq_false_iff.2 (hp c (isBreak_iff.1 hc))

theorem isIdentifierPart_of_isBreak {c : Char} (h : isBreak c = true) :
    isIdentifierPart c = false :=
  not_class_of_isBreak rfl h

theorem isDigit_of_isBreak {c : Char} (h : isBreak c = true) : c.isDigit = false :=
  not_class_of_isBreak (p := Char.isDigit) rfl h

theorem isVariablePart_of_isBreak {c : Char} (h : isBreak c = true) : isVariablePart c = false :=
  not_class_of_isBreak rfl h

theorem isRadixDigit_of_isBreak (mark : Char) {c : Char} (h : isBreak c = true) :
    isRadixDigit mark c = false := by
  unfold isRadixDigit
  split
  · exact not_class_of_isBreak (p := isHexDigit) rfl h
  · exact not_class_of_isBreak (p := fun c => c == '0' || c == '1') rfl h

/-! ### Characters without a meaning for scripts -/

/-- Characters that are no blank and neither open nor end anything in a script. -/
def isOrdinary (c : Char) : Bool :=
  !isBreak c && c != '/' && c != '-' && c != '#' && !isQuote c

theorem isBreak_of_isOrdinary {c : Char} (hc : isOrdinary c = true) : isBreak c = false := by
  simp only [isOrdinary, Bool.and_eq_true, Bool.not_eq_true'] at hc
  exact hc.1.1.1.1

/-- Ordinary characters, and dashes with another character after them. -/
inductive Smooth : List Char → Prop
  | nil : Smooth []
  | cons {c : Char} {cs : List Char} : isOrdinary c = true → Smooth cs → Smooth (c :: cs)
  | dash {c : Char} {cs : List Char} : isOrdinary c = true → Smooth cs → Smooth ('-' :: c :: cs)

namespace Smooth

theorem append {a b : List Char} (ha : Smooth a) (hb : Smooth b) : Smooth (a ++ b) := by
  induction ha with
  | nil => exact hb
  | cons hc _ ih => exact .cons hc ih
  | dash hc _ ih => exact .dash hc ih

theorem of_forall {cs : List Char} (h : ∀ c ∈ cs, isOrdinary c = true) : Smooth cs := by
  induction cs with
  | nil => exact .nil
  | cons c cs ih =>
      rw [List.forall_mem_cons] at h
      exact .cons h.1 (ih h.2)

theorem tail {c : Char} {cs : List Char} (h : Smooth (c :: cs)) : Smooth cs := by
  cases h with
  | cons _ h => exact h
  | dash hc h => exact .cons hc h

theorem isBreak_eq_false {cs : List Char} (h : Smooth cs) : ∀ c ∈ cs, isBreak c = false := by
  induction h with
  | nil => exact fun c hc => absurd hc List.not_mem_nil
  | cons hc _ ih => exact List.forall_mem_cons.2 ⟨isBreak_of_isOrdinary hc, ih⟩
  | dash hc _ ih =>
      refine List.forall_mem_cons.2 ⟨by decide, ?_⟩
      exact List.forall_mem_cons.2 ⟨isBreak_of_isOrdinary hc, ih⟩

end Smooth

/-- A class without the characters that mean something to a script is ordinary. -/
theorem isOrdinary_of_class {p : Char → Bool}
    (hp : (breakCharacters ++ ['/', '-', '#', apostrophe, quotationMark, backtick]).any p = false)
    {c : Char} (hc : p c = true) : isOrdinary c = true := by
  rw [List.any_eq_false] at hp
  by_contra hnot
  refine hp c ?_ hc
  simp only [isOrdinary, isBreak, isBlank, isQuote, Bool.and_eq_true, Bool.not_eq_true',
    bne_iff_ne, Bool.or_eq_false_iff, beq_eq_false_iff_ne] at hnot
  simp only [breakCharacters, List.cons_append, List.nil_append, List.mem_cons, List.not_mem_nil,
    or_false]
  by_contra hout
  simp only [not_or] at hout
  exact hnot (by simp [hout])

theorem isOrdinary_of_isDigit {c : Char} (h : c.isDigit = true) : isOrdinary c = true :=
  isOrdinary_of_class (p := Char.isDigit) rfl h

theorem isOrdinary_of_isIdentifierPart {c : Char} (h : isIdentifierPart c = true) :
    isOrdinary c = true :=
  isOrdinary_of_class rfl h

theorem isOrdinary_of_isVariablePart {c : Char} (h : isVariablePart c = true) :
    isOrdinary c = true :=
  isOrdinary_of_class rfl h

theorem isOrdinary_of_isRadixDigit (mark : Char) {c : Char} (h : isRadixDigit mark c = true) :
    isOrdinary c = true := by
  unfold isRadixDigit at h
  split at h
  · exact isOrdinary_of_class (p := isHexDigit) rfl h
  · exact isOrdinary_of_class (p := fun c => c == '0' || c == '1') rfl h

/-- The first `n` characters of a text are there and smooth. -/
def Takes (n : Nat) (x : List Char) : Prop :=
  n ≤ x.length ∧ Smooth (x.take n)

theorem Takes.zero (x : List Char) : Takes 0 x :=
  ⟨Nat.zero_le _, .nil⟩

theorem Takes.add {m n : Nat} {x : List Char} (hm : Takes m x) (hn : Takes n (x.drop m)) :
    Takes (m + n) x := by
  have hlength := hn.1
  rw [List.length_drop] at hlength
  refine ⟨by have := hm.1; omega, ?_⟩
  rw [List.take_add]
  exact hm.2.append hn.2

theorem Takes.cons {n : Nat} {c : Char} {x : List Char} (hc : isOrdinary c = true)
    (h : Takes n x) : Takes (1 + n) (c :: x) := by
  rw [Nat.add_comm]
  exact ⟨Nat.succ_le_succ h.1, .cons hc h.2⟩

theorem Takes.pred {n : Nat} {c : Char} {x : List Char} (h : Takes n (c :: x)) :
    Takes (n - 1) x := by
  cases n with
  | zero => exact .zero x
  | succ n => exact ⟨Nat.le_of_succ_le_succ h.1, h.2.tail⟩

theorem take_runLength (p : Char → Bool) (x : List Char) :
    x.take (runLength p x) = x.takeWhile p :=
  (List.prefix_iff_eq_take.1 (List.takeWhile_prefix p)).symm

theorem drop_runLength (p : Char → Bool) (x : List Char) :
    x.drop (runLength p x) = x.dropWhile p := by
  have hsplit := List.take_append_drop (runLength p x) x
  rw [take_runLength] at hsplit
  exact List.append_cancel_left (hsplit.trans List.takeWhile_append_dropWhile.symm)

theorem takes_runLength {p : Char → Bool} (hp : ∀ c, p c = true → isOrdinary c = true)
    (x : List Char) : Takes (runLength p x) x := by
  refine ⟨(List.takeWhile_prefix p).length_le, ?_⟩
  rw [take_runLength]
  exact .of_forall fun c hc => hp c (List.mem_takeWhile_imp hc)

section Append

variable {x w : List Char}

theorem runLength_append {p : Char → Bool} (hp : ∀ c, isBreak c = true → p c = false)
    (hw : Breaks w) (x : List Char) : runLength p (x ++ w) = runLength p x := by
  have hstop : w.takeWhile p = [] := by
    cases w with
    | nil => rfl
    | cons c w => simp [hp c (hw c rfl)]
  rw [runLength, runLength, List.takeWhile_append]
  split
  · simp [hstop]
    omega
  · rfl

/-- A character that is no break is the first of a text exactly if it is before a break. -/
theorem head?_append_beq (hw : Breaks w) {a : Char} (ha : isBreak a = false) (x : List Char) :
    ((x ++ w).head? == some a) = (x.head? == some a) := by
  cases x with
  | cons c x => rfl
  | nil =>
      cases w with
      | nil => rfl
      | cons c w =>
          have hne : c ≠ a := by
            rintro rfl
            rw [hw c rfl] at ha
            cases ha
          simp [hne]

theorem any_head?_append {p : Char → Bool} (hp : ∀ c, isBreak c = true → p c = false)
    (hw : Breaks w) (x : List Char) : (x ++ w).head?.any p = x.head?.any p := by
  cases x with
  | cons c x => rfl
  | nil =>
      cases w with
      | nil => rfl
      | cons c w => simp [hp c (hw c rfl)]

theorem drop_append_of_le {n : Nat} (h : n ≤ x.length) (w : List Char) :
    (x ++ w).drop n = x.drop n ++ w := by
  rw [List.drop_append_of_le_length h]

/-! ### Numbers -/

theorem exponentLength_append (hw : Breaks w) (x : List Char) :
    exponentLength (x ++ w) = exponentLength x := by
  cases x with
  | nil =>
      cases w with
      | nil => rfl
      | cons c w =>
          have hc : (c == 'e' || c == 'E') = false :=
            not_class_of_isBreak (p := fun c => c == 'e' || c == 'E') rfl (hw c rfl)
          simp [exponentLength, hc]
  | cons e rest =>
      have hplus := head?_append_beq hw (a := '+') (by decide) rest
      have hminus := head?_append_beq hw (a := '-') (by decide) rest
      rw [List.cons_append, exponentLength, exponentLength, hplus, hminus]
      -- a sign is there only before the break
      have hdrop : (rest ++ w).drop
            (if rest.head? == some '+' || rest.head? == some '-' then 1 else 0) =
          rest.drop (if rest.head? == some '+' || rest.head? == some '-' then 1 else 0) ++ w := by
        cases rest with
        | nil => rfl
        | cons c rest =>
            apply drop_append_of_le
            split <;> simp
      dsimp only
      rw [hdrop, runLength_append (fun c => isDigit_of_isBreak) hw]

/-- A radix mark follows a zero. -/
theorem radixNumber?_of_mark {c mark : Char} {rest : List Char}
    (h : ¬ (c = '0' ∧ (mark == 'x' || mark == 'b') = true)) :
    radixNumber? (c :: mark :: rest) = none := by
  unfold radixNumber?
  split
  · next heq =>
    simp only [List.cons.injEq] at heq
    obtain ⟨rfl, rfl, rfl⟩ := heq
    rw [if_neg fun hmark => h ⟨rfl, hmark⟩]
  · rfl

theorem radixNumber?_append (hw : Breaks w) (c : Char) (x : List Char) :
    radixNumber? (c :: x ++ w) = radixNumber? (c :: x) := by
  cases x with
  | nil =>
      have hone : radixNumber? [c] = none := by
        rw [radixNumber?]
        simp
      cases w with
      | nil => rfl
      | cons b w =>
          have hb : (b == 'x' || b == 'b') = false :=
            not_class_of_isBreak (p := fun c => c == 'x' || c == 'b') rfl (hw b rfl)
          rw [hone]
          exact radixNumber?_of_mark (by simp [hb])
  | cons mark rest =>
      by_cases h : c = '0' ∧ (mark == 'x' || mark == 'b') = true
      · obtain ⟨rfl, hmark⟩ := h
        simp only [List.cons_append, radixNumber?, hmark, if_true]
        rw [runLength_append (fun c => isRadixDigit_of_isBreak mark) hw]
      · rw [radixNumber?_of_mark h]
        exact radixNumber?_of_mark h

/-- The length of a point and digits after it. -/
def fractionLength (cs : List Char) : Nat :=
  if cs.head? == some '.' then 1 + runLength Char.isDigit cs.tail else 0

theorem fractionLength_append (hw : Breaks w) (x : List Char) :
    fractionLength (x ++ w) = fractionLength x := by
  rw [fractionLength, fractionLength, head?_append_beq hw (by decide)]
  cases x with
  | nil => rfl
  | cons c x =>
      rw [List.cons_append, List.tail_cons, List.tail_cons,
        runLength_append (fun c => isDigit_of_isBreak) hw]

theorem takes_fractionLength (x : List Char) : Takes (fractionLength x) x := by
  rw [fractionLength]
  split
  case isTrue h =>
    cases x with
    | nil => simp at h
    | cons c x =>
        have hc : c = '.' := by simpa using h
        subst hc
        exact .cons (by decide) (takes_runLength (fun c => isOrdinary_of_isDigit) x)
  case isFalse => exact .zero x

/-- The sign of an exponent has a digit after it. -/
theorem takes_sign {c : Char} (hc : c = '+' ∨ c = '-') {rest : List Char}
    (hdigits : runLength Char.isDigit rest ≠ 0) :
    Takes (1 + runLength Char.isDigit rest) (c :: rest) := by
  obtain ⟨hle, hsmooth⟩ := takes_runLength (fun c => isOrdinary_of_isDigit) rest
  obtain ⟨n, hn⟩ := Nat.exists_eq_succ_of_ne_zero hdigits
  rcases hc with rfl | rfl
  · exact .cons (by decide) ⟨hle, hsmooth⟩
  · rw [hn] at hle hsmooth ⊢
    rw [Nat.add_comm]
    cases rest with
    | nil => cases hle
    | cons digit rest =>
        refine ⟨Nat.succ_le_succ hle, ?_⟩
        have hdigit : digit.isDigit = true := by
          by_contra hnot
          simp [runLength, hnot] at hdigits
        exact .dash (isOrdinary_of_isDigit hdigit) hsmooth.tail

theorem takes_exponentLength (x : List Char) : Takes (exponentLength x) x := by
  cases x with
  | nil => exact .zero []
  | cons e rest =>
      rw [exponentLength]
      dsimp only
      split
      case isTrue he =>
        have hordinary : isOrdinary e = true :=
          isOrdinary_of_class (p := fun c => c == 'e' || c == 'E') rfl he
        split
        case isTrue hsign =>
          split
          case isTrue => exact .zero _
          case isFalse hdigits =>
            cases rest with
            | nil => simp at hsign
            | cons c rest =>
                have hc : c = '+' ∨ c = '-' := by simpa using hsign
                rw [List.drop_succ_cons, List.drop_zero] at hdigits ⊢
                rw [Nat.add_assoc]
                exact .cons hordinary (takes_sign hc (by simpa using hdigits))
        case isFalse =>
          split
          case isTrue => exact .zero _
          case isFalse =>
            rw [List.drop_zero, Nat.add_zero]
            exact .cons hordinary (takes_runLength (fun c => isOrdinary_of_isDigit) rest)
      case isFalse => exact .zero _

/-- The parts of a number without a radix mark. -/
theorem plainNumber_eq (cs : List Char) :
    plainNumber cs =
      let whole := runLength Char.isDigit cs
      let fraction := fractionLength (cs.drop whole)
      let power := exponentLength ((cs.drop whole).drop fraction)
      (whole + fraction + power,
        if power != 0 then .float else if fraction != 0 then .decimal else .integer) :=
  rfl

theorem plainNumber_append (hw : Breaks w) (x : List Char) :
    plainNumber (x ++ w) = plainNumber x := by
  have hwhole := runLength_append (fun c => isDigit_of_isBreak) hw x
  rw [plainNumber_eq, plainNumber_eq, hwhole]
  dsimp only
  rw [drop_append_of_le (takes_runLength (fun c => isOrdinary_of_isDigit) x).1,
    fractionLength_append hw, drop_append_of_le (takes_fractionLength _).1,
    exponentLength_append hw]

theorem takes_plainNumber (x : List Char) : Takes (plainNumber x).1 x :=
  ((takes_runLength (fun c => isOrdinary_of_isDigit) x).add (takes_fractionLength _)).add
    (by rw [← List.drop_drop]; exact takes_exponentLength _)

theorem takes_radixNumber? {n : Nat × TokenKind} (h : radixNumber? x = some n) : Takes n.1 x := by
  unfold radixNumber? at h
  split at h
  · next mark rest =>
    split at h
    case isTrue hmark =>
      dsimp only at h
      split at h
      · cases h
      · cases h
        have hordinary : isOrdinary mark = true :=
          isOrdinary_of_class (p := fun c => c == 'x' || c == 'b') rfl hmark
        have htakes := Takes.cons (by decide : isOrdinary '0' = true) (.cons hordinary
          (takes_runLength (fun c => isOrdinary_of_isRadixDigit mark) rest))
        rwa [← Nat.add_assoc] at htakes
    case isFalse => cases h
  · cases h

/-- The length and kind of a number before it runs into a word. -/
def numberBody (cs : List Char) : Nat × TokenKind :=
  (radixNumber? cs).getD (plainNumber cs)

theorem number_eq (cs : List Char) (inComment : Bool) :
    number cs inComment =
      let tail := runLength isIdentifierPart (cs.drop (numberBody cs).1)
      if tail != 0 && ((numberBody cs).2 == .integer || (numberBody cs).2 == .hex ||
        (numberBody cs).2 == .binary) then
        ⟨some .identifier, (numberBody cs).1 + tail - 1, inComment⟩
      else ⟨some (numberBody cs).2, (numberBody cs).1 - 1, inComment⟩ :=
  rfl

theorem takes_numberBody (x : List Char) : Takes (numberBody x).1 x := by
  rw [numberBody]
  cases h : radixNumber? x with
  | none => exact takes_plainNumber x
  | some n => exact takes_radixNumber? h

theorem takes_number (c : Char) (x : List Char) (inComment : Bool) :
    Takes (number (c :: x) inComment).extra x := by
  have hbody := takes_numberBody (c :: x)
  rw [number_eq]
  dsimp only
  split
  · exact (hbody.add (takes_runLength (fun c => isOrdinary_of_isIdentifierPart) _)).pred
  · exact hbody.pred

/-- A number is not cut by a break. -/
theorem number_append (hw : Breaks w) (c : Char) (x : List Char) (inComment : Bool) :
    number (c :: x ++ w) inComment = number (c :: x) inComment := by
  have hbody : numberBody (c :: x ++ w) = numberBody (c :: x) := by
    rw [numberBody, numberBody, radixNumber?_append hw, plainNumber_append hw]
  rw [number_eq, number_eq, hbody, drop_append_of_le (takes_numberBody (c :: x)).1,
    runLength_append (fun c => isIdentifierPart_of_isBreak) hw]

/-! ### Operators -/

/-- Of the second character only these five matter, and of the third one, after two of
them, only one. -/
theorem operator?_congr (d : Dialect) (c : Char) {r r' : List Char}
    (hsecond : ∀ a ∈ ['=', '>', '<', '&', '|'], (r.head? == some a) = (r'.head? == some a))
    (hthird : (r'.head? == some '=') = true ∨ (r'.head? == some '>') = true →
      (r.tail.head? == some '>') = (r'.tail.head? == some '>')) :
    operator? d c r = operator? d c r' := by
  simp only [List.forall_mem_cons, List.not_mem_nil, false_implies, implies_true, and_true]
    at hsecond
  obtain ⟨h₁, h₂, h₃, h₄, h₅⟩ := hsecond
  unfold operator?
  dsimp only
  rw [h₁, h₂, h₃, h₄, h₅]
  by_cases h : (r'.head? == some '=') = true ∨ (r'.head? == some '>') = true
  · rw [hthird h]
  · rw [not_or, Bool.not_eq_true, Bool.not_eq_true] at h
    rw [h.1, h.2]
    rfl

/-- The characters that continue an operator. -/
theorem isOrdinary_of_operator : ∀ a ∈ ['=', '>', '<', '&', '|'], isOrdinary a = true :=
  List.all_eq_true.1 rfl

theorem operator?_append (d : Dialect) (hw : Breaks w) (c : Char) (x : List Char) :
    operator? d c (x ++ w) = operator? d c x := by
  apply operator?_congr
  · intro a ha
    apply head?_append_beq hw
    exact isBreak_of_isOrdinary (isOrdinary_of_operator a ha)
  · intro hx
    cases x with
    | nil => simp at hx
    | cons a x => exact head?_append_beq hw (by decide) x

/-- The characters after the first one of an operator. -/
theorem operator?_extra {d : Dialect} {c : Char} {kind : TokenKind} {n : Nat}
    (h : operator? d c x = some (kind, n)) :
    n = 0 ∨ (n = 1 ∧ ∃ a ∈ ['=', '>', '<', '&', '|'], x.head? = some a) ∨
      (n = 2 ∧ (∃ a ∈ ['=', '>'], x.head? = some a) ∧ x.tail.head? = some '>') := by
  unfold operator? at h
  grind

theorem takes_operator? {d : Dialect} {c : Char} {kind : TokenKind} {n : Nat}
    (h : operator? d c x = some (kind, n)) : Takes n x := by
  rcases operator?_extra h with rfl | ⟨rfl, a, ha, hx⟩ | ⟨rfl, ⟨a, ha, hx⟩, hx'⟩
  · exact .zero x
  · obtain ⟨rest, rfl⟩ := List.head?_eq_some_iff.1 hx
    exact .cons (isOrdinary_of_operator a ha) (.zero rest)
  · obtain ⟨rest, rfl⟩ := List.head?_eq_some_iff.1 hx
    obtain ⟨rest', rfl⟩ := List.head?_eq_some_iff.1 hx'
    have ha' : a ∈ ['=', '>', '<', '&', '|'] := List.mem_append_left ['<', '&', '|'] ha
    exact .cons (isOrdinary_of_operator a ha') (.cons (by decide) (.zero rest'))

/-! ### Variables -/

theorem atSign_append (d : Dialect) (hw : Breaks w) (hx : x.head?.any isQuote = false)
    (inComment : Bool) : atSign d (x ++ w) inComment = atSign d x inComment := by
  cases x with
  | nil =>
      cases w with
      | nil => rfl
      | cons b w =>
          have hb := hw b rfl
          have hat : (b == '@') = false := not_class_of_isBreak (p := (· == '@')) rfl hb
          have hquote : isQuote b = false := not_class_of_isBreak rfl hb
          simp [atSign, hat, hquote, isVariablePart_of_isBreak hb]
  | cons c x =>
      have hrun := runLength_append (fun c => isVariablePart_of_isBreak) hw (c :: x)
      have hquote : isQuote c = false := by simpa using hx
      rw [List.cons_append] at hrun ⊢
      simp only [atSign, hquote, hrun, Bool.false_eq_true, if_false]

theorem takes_atSign (d : Dialect) (hx : x.head?.any isQuote = false) (inComment : Bool) :
    Takes (atSign d x inComment).extra x := by
  cases x with
  | nil => exact .zero []
  | cons c x =>
      have hquote : isQuote c = false := by simpa using hx
      simp only [atSign, hquote, Bool.false_eq_true, if_false]
      split
      case isTrue hat =>
        rw [beq_iff_eq] at hat
        subst hat
        exact .cons (by decide) (.zero x)
      case isFalse =>
        split
        · exact takes_runLength (fun c => isOrdinary_of_isVariablePart) _
        · exact .zero _

end Append

/-! ### Solid tokens -/

/-- The marks that a string can have in front of its apostrophe. -/
def stringMarks : List Char :=
  ['x', 'X', 'b', 'B', 'n', 'N']

/-- Whether a line comment starts with `c :: rest`. -/
def startsLineComment (c : Char) (rest : List Char) : Bool :=
  c == '#' || (c == '-' && startsDashComment rest)

/-- Neither a blank nor a comment nor anything quoted starts with `c :: rest`. -/
structure Solid (c : Char) (rest : List Char) : Prop where
  blank : isBlank c = false
  lineComment : startsLineComment c rest = false
  blockComment : (c == '/' && rest.head? == some '*') = false
  quote : isQuote c = false
  string : (stringMarks.contains c && rest.head? == some apostrophe) = false
  atQuote : (c == '@' && rest.head?.any isQuote) = false

/-- The token at the head of a text that is solid. -/
def solid (d : Dialect) (last : Option TokenKind) (c : Char) (rest : List Char) : Recognition :=
  if c.isDigit || (c == '.' && startsFraction last rest) then number (c :: rest) false
  else if c == '@' then atSign d rest false
  else if isIdentifierStart c then
    ⟨some (wordKind d (c :: rest.take (runLength isIdentifierPart rest))),
      runLength isIdentifierPart rest, false⟩
  else
    match operator? d c rest with
    | some (kind, extra) => ⟨some kind, extra, false⟩
    | none => ⟨none, 0, false⟩

variable {d : Dialect} {last : Option TokenKind} {c : Char} {rest x w : List Char}

theorem scan_solid (h : Solid c rest) : scan d last c rest = solid d last c rest := by
  obtain ⟨hblank, hline, hblock, hquote, hstring, hat⟩ := h
  have hmark : ∀ p : Char → Bool, (∀ m, p m = true → stringMarks.contains m = true) →
      (p c && rest.head? == some apostrophe) = false := by
    intro p hp
    cases hc : p c with
    | false => rfl
    | true =>
        rw [hp c hc] at hstring
        exact hstring
  have hx := hmark (fun c => c == 'x' || c == 'X') (by simp [stringMarks])
  have hb := hmark (fun c => c == 'b' || c == 'B') (by simp [stringMarks])
  have hn := hmark (fun c => c == 'n' || c == 'N') (by simp [stringMarks])
  unfold scan recognize solid
  dsimp only [startsLineComment] at hline hx hb hn ⊢
  rw [hblank, hline, hblock, hquote, hx, hb, hn, Bool.and_false, Bool.false_and]
  rfl

/-- Text behind a break does not make a line comment, and it does not end one that starts,
unless two dashes stand right in front of the break and it is not one that ends them. -/
theorem startsLineComment_append_of_ends (hw : Breaks w)
    (hends : c = '-' → x = ['-'] → w.head?.all endsDashes = true) :
    startsLineComment c (x ++ w) = startsLineComment c x := by
  by_cases hc : c = '-'
  · subst hc
    suffices hdashes : startsDashComment (x ++ w) = startsDashComment x by
      rw [startsLineComment, startsLineComment, hdashes]
    rcases x with _ | ⟨a, _ | ⟨b, x⟩⟩
    · -- no break is a dash
      have hhead := head?_append_beq hw (a := '-') (by decide) []
      rw [startsDashComment, hhead]
      rfl
    · by_cases ha : a = '-'
      · subst ha
        simp [startsDashComment, hends rfl rfl]
      · simp [startsDashComment, ha]
    · rfl
  · have hdash : (c == '-') = false := beq_eq_false_iff_ne.2 hc
    rw [startsLineComment, startsLineComment, hdash]
    rfl

/-- What is solid in front of a break does not depend on the break. -/
theorem solid_append_iff (hw : Breaks w)
    (hline : startsLineComment c (x ++ w) = startsLineComment c x) :
    Solid c (x ++ w) ↔ Solid c x := by
  have hstar := head?_append_beq hw (a := '*') (by decide) x
  have happ := head?_append_beq hw (a := apostrophe) (by decide) x
  have hquotes : (x ++ w).head?.any isQuote = x.head?.any isQuote :=
    any_head?_append (fun b hb => not_class_of_isBreak rfl hb) hw x
  constructor
  · rintro ⟨hblank, hl, hblock, hquote, hstring, hat⟩
    rw [hline] at hl
    rw [hstar] at hblock
    rw [happ] at hstring
    rw [hquotes] at hat
    exact ⟨hblank, hl, hblock, hquote, hstring, hat⟩
  · rintro ⟨hblank, hl, hblock, hquote, hstring, hat⟩
    rw [← hline] at hl
    rw [← hstar] at hblock
    rw [← happ] at hstring
    rw [← hquotes] at hat
    exact ⟨hblank, hl, hblock, hquote, hstring, hat⟩

/-- A solid token ends before every break. -/
theorem solid_append (hw : Breaks w) (h : Solid c x) :
    solid d last c (x ++ w) = solid d last c x := by
  have hfraction : startsFraction last (x ++ w) = startsFraction last x := by
    rw [startsFraction, startsFraction, any_head?_append (fun c => isDigit_of_isBreak) hw]
  have hrun := runLength_append (fun c => isIdentifierPart_of_isBreak) hw x
  have htake : (x ++ w).take (runLength isIdentifierPart x) =
      x.take (runLength isIdentifierPart x) :=
    List.take_append_of_le_length
      (takes_runLength (fun c => isOrdinary_of_isIdentifierPart) x).1
  have hnumber : number (c :: (x ++ w)) false = number (c :: x) false := number_append hw c x false
  unfold solid
  rw [hfraction, hnumber, hrun, htake, operator?_append d hw]
  by_cases hat : (c == '@') = true
  · -- a quote after the at sign would open a region
    have hx : x.head?.any isQuote = false := by
      have hat' := h.atQuote
      rwa [hat, Bool.true_and] at hat'
    rw [atSign_append d hw hx]
  · rw [Bool.not_eq_true] at hat
    rw [hat]
    rfl

theorem takes_solid (h : Solid c rest) : Takes (solid d last c rest).extra rest := by
  unfold solid
  split
  · exact takes_number c rest false
  · split
    case isTrue hat =>
      have hat' := h.atQuote
      rw [hat, Bool.true_and] at hat'
      exact takes_atSign d hat' false
    case isFalse =>
      split
      · exact takes_runLength (fun c => isOrdinary_of_isIdentifierPart) rest
      · split
        case h_1 ho => exact takes_operator? ho
        case h_2 => exact .zero rest

@[simp]
theorem closed_versionComment (kind : TokenKind) (extra : Option Nat) (rest : List Char)
    (inComment : Bool) : (closed kind extra rest inComment).versionComment = inComment := by
  cases extra <;> rfl

theorem solid_versionComment (d : Dialect) (last : Option TokenKind) (c : Char)
    (rest : List Char) : (solid d last c rest).versionComment = false := by
  have hat : (atSign d rest false).versionComment = false := by
    cases rest with
    | nil => rfl
    | cons c rest =>
        simp only [atSign, apply_ite Recognition.versionComment, closed_versionComment, ite_self]
  have hnumber : (number (c :: rest) false).versionComment = false := by
    simp only [number_eq, apply_ite Recognition.versionComment, ite_self]
  unfold solid
  split
  · exact hnumber
  · split
    · exact hat
    · split
      · rfl
      · split <;> rfl

/-! ### Kinds -/

theorem numberBody_kind (x : List Char) :
    (numberBody x).2 ∈ [TokenKind.hex, .binary, .float, .decimal, .integer] := by
  have hplain : ∀ a b : Bool, (if a then TokenKind.float else if b then .decimal else .integer) ∈
      [TokenKind.hex, .binary, .float, .decimal, .integer] := by
    decide
  rw [numberBody]
  cases h : radixNumber? x with
  | none => exact hplain _ _
  | some n =>
      unfold radixNumber? at h
      split at h
      · split at h
        · dsimp only at h
          split at h
          · cases h
          · cases h
            dsimp only [Option.getD_some]
            split <;> decide
        · cases h
      · cases h

theorem number_kind_ne_semicolon (cs : List Char) (inComment : Bool) :
    (number cs inComment).kind ≠ some .semicolon := by
  rw [number_eq]
  dsimp only
  split
  · simp
  · intro h
    have hkind := numberBody_kind cs
    rw [Option.some.inj h] at hkind
    simp at hkind

theorem wordKind_ne_semicolon (word : List Char) : wordKind d word ≠ .semicolon := by
  unfold wordKind
  split
  · simp
  · split
    · split <;> simp
    · simp

theorem atSign_kind_ne_semicolon (rest : List Char) (inComment : Bool) :
    (atSign d rest inComment).kind ≠ some .semicolon := by
  unfold atSign
  split
  · split
    · simp
    · split
      · unfold closed
        split <;> simp
      · split <;> simp
  · simp

theorem eq_semicolon_of_operator? {n : Nat} (h : operator? d c rest = some (.semicolon, n)) :
    c = ';' := by
  unfold operator? at h
  grind

/-- Only the semicolon itself is read as one. -/
theorem solid_kind_ne_semicolon (hc : c ≠ ';') : (solid d last c rest).kind ≠ some .semicolon := by
  unfold solid
  split
  · exact number_kind_ne_semicolon _ _
  · split
    · exact atSign_kind_ne_semicolon _ _
    · split
      · exact fun h => wordKind_ne_semicolon _ (Option.some.inj h)
      · split
        case h_1 ho =>
          rintro ⟨⟩
          exact hc (eq_semicolon_of_operator? ho)
        case h_2 => simp

end MySqlAnalysis.Token
