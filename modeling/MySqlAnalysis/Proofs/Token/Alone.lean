import MySqlAnalysis.Proofs.Token.VersionComments
import MySqlAnalysis.Proofs.Token.Words

/-!
# Tokens on their own

Where a token ends is decided by the characters behind it, and whether a point starts a
number by the token in front of it. But none of this is needed to read a token again: cut
out of its text, every significant token is one token of the same kind
(`tokenize_alone`). Each part of a scan reads the same when the text is cut off behind
what the scan takes, which is shown from the runs of characters up to the whole token
(`Token.recognize_take`).
-/

set_option autoImplicit false

namespace MySqlAnalysis

open Text

namespace Token

variable {d : Dialect} {x : List Char} {m : Nat}

/-! ### Runs -/

theorem runLength_take (p : Char → Bool) (x : List Char) (m : Nat) :
    runLength p (x.take m) = min m (runLength p x) := by
  induction x generalizing m with
  | nil => simp [runLength]
  | cons c x ih =>
      cases m with
      | zero => simp [runLength]
      | succ m =>
          rw [List.take_succ_cons]
          cases hc : p c with
          | false => simp [runLength, hc]
          | true =>
              have hstep := ih m
              simp only [runLength, List.takeWhile_cons, hc, if_true, List.length_cons] at hstep ⊢
              omega

theorem runLength_take_of_le {p : Char → Bool} (h : runLength p x ≤ m) :
    runLength p (x.take m) = runLength p x := by
  rw [runLength_take, Nat.min_eq_right h]

theorem eq_of_head?_take {a : Char} (h : (x.take m).head? = some a) : x.head? = some a := by
  rw [List.head?_take] at h
  split at h
  · cases h
  · exact h

/-- Cutting a text off takes nothing away at its head but everything. -/
theorem head?_take_beq (a : Char) (h : (x.head? == some a) = true → m ≠ 0) :
    ((x.take m).head? == some a) = (x.head? == some a) := by
  rw [List.head?_take]
  split
  · next hm =>
      cases hx : x.head? == some a with
      | true => exact absurd hm (h hx)
      | false => rfl
  · rfl

/-! ### Numbers -/

theorem fractionLength_take (h : fractionLength x ≤ m) :
    fractionLength (x.take m) = fractionLength x := by
  cases x with
  | nil => rw [List.take_nil]
  | cons c x =>
      cases m with
      | zero => exact (Nat.le_zero.1 h).symm
      | succ m =>
          rw [List.take_succ_cons]
          cases hc : c == '.' with
          | false => simp [fractionLength, beq_eq_false_iff_ne.1 hc]
          | true =>
              have hlength : ∀ y : List Char, fractionLength (c :: y) =
                  1 + runLength Char.isDigit y := by
                intro y
                simp [fractionLength, beq_iff_eq.1 hc]
              rw [hlength] at h
              rw [hlength, hlength, runLength_take_of_le (by omega)]

/-- The length of a sign. -/
def signLength (cs : List Char) : Nat :=
  if cs.head? == some '+' || cs.head? == some '-' then 1 else 0

/-- The parts of an exponent. -/
theorem exponentLength_cons {e : Char} (he : (e == 'e' || e == 'E') = true) (rest : List Char) :
    exponentLength (e :: rest) =
      let digits := runLength Char.isDigit (rest.drop (signLength rest))
      if digits = 0 then 0 else 1 + signLength rest + digits := by
  simp [exponentLength, he, signLength]

theorem exponentLength_take (h : exponentLength x ≤ m) :
    exponentLength (x.take m) = exponentLength x := by
  cases x with
  | nil => rw [List.take_nil]
  | cons e rest =>
      cases m with
      | zero => exact (Nat.le_zero.1 h).symm
      | succ m =>
          rw [List.take_succ_cons]
          by_cases he : (e == 'e' || e == 'E') = true
          · rw [exponentLength_cons he] at h
            rw [exponentLength_cons he, exponentLength_cons he]
            dsimp only at h ⊢
            by_cases hm : m = 0
            · -- without a text behind the mark there are no digits
              subst hm
              have hdigits : runLength Char.isDigit (rest.drop (signLength rest)) = 0 := by
                by_contra hdigits
                rw [if_neg hdigits] at h
                omega
              rw [hdigits]
              rfl
            · have hsign : signLength (rest.take m) = signLength rest := by
                have hhead : ∀ a : Char, ((rest.take m).head? == some a) = (rest.head? == some a) :=
                  fun a => head?_take_beq a fun _ => hm
                rw [signLength, signLength, hhead, hhead]
              have hle : signLength rest ≤ 1 := by
                unfold signLength
                split <;> decide
              rw [hsign, List.drop_take, runLength_take]
              split at h <;> split <;> omega
          · simp [exponentLength, he]

theorem radixNumber?_take (h : ∀ n ∈ radixNumber? x, n.1 ≤ m) :
    radixNumber? (x.take m) = radixNumber? x := by
  rcases x with _ | ⟨c, _ | ⟨mark, rest⟩⟩
  · rw [List.take_nil]
  · cases m with
    | zero => simp [radixNumber?]
    | succ m => rw [List.take_succ_cons, List.take_nil]
  · by_cases hmark : c = '0' ∧ (mark == 'x' || mark == 'b') = true
    · obtain ⟨rfl, hmark⟩ := hmark
      have hnumber : ∀ y : List Char, radixNumber? ('0' :: mark :: y) =
          let digits := runLength (isRadixDigit mark) y
          if digits = 0 then none
          else some (2 + digits, if mark == 'x' then .hex else .binary) := by
        intro y
        simp only [radixNumber?, hmark, if_true, beq_iff_eq]
      rw [hnumber] at h
      dsimp only at h
      rw [hnumber]
      dsimp only
      split at h
      case isTrue hdigits =>
        rw [if_pos hdigits]
        rcases m with _ | _ | m
        · rfl
        · simp [radixNumber?]
        · rw [List.take_succ_cons, List.take_succ_cons, hnumber]
          dsimp only
          rw [runLength_take, hdigits, Nat.min_zero, if_pos rfl]
      case isFalse hdigits =>
        have hle := h _ rfl
        dsimp only at hle
        obtain ⟨m, rfl⟩ : ∃ m', m = m' + 2 := ⟨m - 2, by omega⟩
        rw [List.take_succ_cons, List.take_succ_cons, hnumber]
        dsimp only
        rw [runLength_take_of_le (by omega)]
    · rw [radixNumber?_of_mark hmark]
      rcases m with _ | _ | m
      · rfl
      · simp [radixNumber?]
      · exact radixNumber?_of_mark hmark

theorem plainNumber_take (h : (plainNumber x).1 ≤ m) : plainNumber (x.take m) = plainNumber x := by
  rw [plainNumber_eq] at h
  dsimp only at h
  have hwhole : runLength Char.isDigit (x.take m) = runLength Char.isDigit x :=
    runLength_take_of_le (by omega)
  have hfraction := fractionLength_take (x := x.drop (runLength Char.isDigit x))
    (m := m - runLength Char.isDigit x) (by omega)
  have hpower := exponentLength_take
    (x := (x.drop (runLength Char.isDigit x)).drop
      (fractionLength (x.drop (runLength Char.isDigit x))))
    (m := m - runLength Char.isDigit x - fractionLength (x.drop (runLength Char.isDigit x)))
    (by omega)
  rw [plainNumber_eq, plainNumber_eq]
  dsimp only
  rw [hwhole, List.drop_take, hfraction, List.drop_take, hpower]

theorem numberBody_take (h : (numberBody x).1 ≤ m) : numberBody (x.take m) = numberBody x := by
  rw [numberBody] at h ⊢
  rw [numberBody]
  cases hradix : radixNumber? x with
  | some n =>
      rw [hradix, Option.getD_some] at h
      rw [radixNumber?_take (x := x) (m := m) (by rw [hradix]; simpa using h), hradix]
      rfl
  | none =>
      rw [hradix, Option.getD_none] at h
      rw [radixNumber?_take (x := x) (m := m) (by simp [hradix]), hradix, Option.getD_none,
        Option.getD_none, plainNumber_take h]

/-- A number is the same without what follows it. -/
theorem number_take (h : 0 < (numberBody x).1) (inComment : Bool) :
    number (x.take ((number x inComment).extra + 1)) inComment = number x inComment := by
  have htail : ∀ m, runLength isIdentifierPart ((x.take m).drop (numberBody x).1) =
      min (m - (numberBody x).1) (runLength isIdentifierPart (x.drop (numberBody x).1)) := by
    intro m
    rw [List.drop_take, runLength_take]
  rw [number_eq x]
  dsimp only
  split
  case isTrue hrun =>
    -- the word that the number runs into is there as a whole
    dsimp only
    rw [Nat.sub_add_cancel (by omega), number_eq, numberBody_take (by omega), htail,
      Nat.add_sub_cancel_left, Nat.min_self]
    exact if_pos hrun
  case isFalse hrun =>
    -- nothing is left behind the number
    dsimp only
    rw [Nat.sub_add_cancel (by omega), number_eq, numberBody_take (by omega), htail,
      Nat.sub_self, Nat.zero_min]
    rfl

variable {c : Char} {rest : List Char}

/-- A number that starts with a digit takes at least that digit. -/
theorem numberBody_pos (h : c.isDigit = true) : 0 < (numberBody (c :: rest)).1 := by
  rw [numberBody]
  cases hradix : radixNumber? (c :: rest) with
  | none =>
      rw [Option.getD_none, plainNumber_eq]
      rw [runLength, List.takeWhile_cons_of_pos h, List.length_cons]
      dsimp only
      omega
  | some n =>
      obtain ⟨n, kind⟩ := n
      unfold radixNumber? at hradix
      split at hradix
      · split at hradix
        · dsimp only at hradix
          split at hradix
          · cases hradix
          · cases hradix
            dsimp only [Option.getD_some]
            omega
        · cases hradix
      · cases hradix

/-- A fraction takes the point and a digit. -/
theorem numberBody_fraction (h : rest.head?.any Char.isDigit = true) :
    2 ≤ (numberBody ('.' :: rest)).1 := by
  have hradix : radixNumber? ('.' :: rest) = none := by simp [radixNumber?]
  have hdigits : 0 < runLength Char.isDigit rest := by
    cases rest with
    | nil => simp at h
    | cons c rest => simp [runLength, show c.isDigit = true by simpa using h]
  rw [numberBody, hradix, Option.getD_none, plainNumber_eq]
  simp [runLength, fractionLength] at hdigits ⊢
  omega

/-! ### Operators and variables -/

/-- An operator is as long as it is because of its own characters. -/
theorem operator?_take {kind : TokenKind} {n : Nat} (h : operator? d c x = some (kind, n)) :
    operator? d c (x.take n) = some (kind, n) := by
  have hsecond : ∀ m : Nat, ∀ a : Char,
      ((x.take (m + 1)).head? == some a) = (x.head? == some a) := by
    intro m a
    cases x <;> rfl
  have hthird : ∀ a : Char, ((x.take 2).tail.head? == some a) = (x.tail.head? == some a) := by
    intro a
    rcases x with _ | ⟨b, _ | ⟨e, x⟩⟩ <;> rfl
  have hnone : (x.take 1).tail.head? = none := by cases x <;> rfl
  rcases operator?_extra h with rfl | ⟨rfl, -⟩ | ⟨rfl, -⟩
  · rw [List.take_zero]
    revert h
    fun_cases operator? d c x <;> simp +contextual [operator?]
  · unfold operator? at h ⊢
    dsimp only at h ⊢
    simp only [hsecond 0, hnone]
    split <;> grind
  · unfold operator? at h ⊢
    dsimp only at h ⊢
    simpa only [hsecond 1, hthird] using h

/-- A variable without quotes, and the mark of a system variable. -/
theorem atSign_take {kind : TokenKind} {n : Nat} (hquote : x.head?.any isQuote = false)
    (h : atSign d x false = ⟨some kind, n, false⟩) :
    atSign d (x.take n) false = ⟨some kind, n, false⟩ := by
  cases x with
  | nil => rwa [List.take_nil]
  | cons a x =>
      have ha : isQuote a = false := by simpa using hquote
      have hsign : ∀ y : List Char, atSign d (a :: y) false =
          if a == '@' then ⟨some .atAt, 1, false⟩
          else if isVariablePart a then
            ⟨some .userVariable, runLength isVariablePart (a :: y), false⟩
          else ⟨none, 0, false⟩ := by
        intro y
        simp only [atSign, ha, Bool.false_eq_true, if_false]
      rw [hsign] at h
      split at h
      case isTrue hat =>
        cases h
        rw [List.take_succ_cons, hsign, if_pos hat]
      case isFalse hat =>
        split at h
        case isTrue hpart =>
          cases h
          have hrun : ∀ y, runLength isVariablePart (a :: y) = runLength isVariablePart y + 1 := by
            intro y
            simp [runLength, hpart]
          rw [hrun, List.take_succ_cons, hsign, if_neg hat, if_pos hpart, hrun,
            runLength_take_of_le (Nat.le_refl _)]
        case isFalse => cases h

/-! ### Solid tokens -/

/-- A dash that no line comment starts with is read alone or as an arrow. -/
theorem startsLineComment_take {n : Nat} (hline : startsLineComment c rest = false)
    (hdash : c = '-' → rest.head? = some '-' → n = 0) :
    startsLineComment c (rest.take n) = false := by
  rw [startsLineComment, Bool.or_eq_false_iff, Bool.and_eq_false_imp] at hline ⊢
  refine ⟨hline.1, fun hc => ?_⟩
  rw [startsDashComment, Bool.and_eq_false_imp]
  intro hhead
  have hzero := hdash (beq_iff_eq.1 hc) (eq_of_head?_take (beq_iff_eq.1 hhead))
  rw [hzero] at hhead
  cases hhead

theorem solid_take_solid {n : Nat} (h : Solid c rest)
    (hdash : c = '-' → rest.head? = some '-' → n = 0) : Solid c (rest.take n) := by
  have hpair : ∀ (p : Bool) (a : Char), (p && rest.head? == some a) = false →
      (p && (rest.take n).head? == some a) = false := by
    intro p a hp
    rw [Bool.and_eq_false_imp] at hp ⊢
    intro hpt
    rw [beq_eq_false_iff_ne]
    intro hhead
    have hrest := hp hpt
    rw [eq_of_head?_take hhead] at hrest
    simp at hrest
  obtain ⟨hblank, hline, hblock, hquote, hstring, hat⟩ := h
  refine ⟨hblank, startsLineComment_take hline hdash, hpair _ _ hblock, hquote,
    hpair _ _ hstring, ?_⟩
  rw [Bool.and_eq_false_imp] at hat ⊢
  intro hc
  have hnone := hat hc
  rw [List.head?_take]
  split
  · rfl
  · exact hnone

/-- A number that ran into a word or not takes its body. -/
theorem numberBody_le_number (x : List Char) (inComment : Bool) :
    (numberBody x).1 ≤ (number x inComment).extra + 1 := by
  rw [number_eq]
  dsimp only
  split <;> dsimp only <;> omega

/-- A number on its own: a point in front of it starts it wherever it stands. -/
theorem scan_number_take {last : Option TokenKind} (h : Solid c rest)
    (hnumber : (c.isDigit || (c == '.' && startsFraction last rest)) = true) :
    scan d none c (rest.take (number (c :: rest) false).extra) = number (c :: rest) false := by
  have hle := numberBody_le_number (c :: rest) false
  have hpos : 0 < (numberBody (c :: rest)).1 ∧
      ∀ n, (numberBody (c :: rest)).1 ≤ n + 1 →
        (c.isDigit || (c == '.' && startsFraction none (rest.take n))) = true := by
    cases hdigit : c.isDigit with
    | true => exact ⟨numberBody_pos hdigit, fun _ _ => rfl⟩
    | false =>
        rw [hdigit, Bool.false_or, Bool.and_eq_true, beq_iff_eq, startsFraction,
          Bool.and_eq_true, Bool.and_eq_true] at hnumber
        obtain ⟨rfl, ⟨hfraction, -⟩, -⟩ := hnumber
        have htwo := numberBody_fraction hfraction
        refine ⟨by omega, fun n hn => ?_⟩
        have hhead : (rest.take n).head? = rest.head? := by
          rw [List.head?_take, if_neg (by omega)]
        simp [startsFraction, hhead, hfraction]
  have hdash : c ≠ '-' := by
    rintro rfl
    cases hnumber
  rw [scan_solid (solid_take_solid h fun hc => absurd hc hdash), solid, if_pos (hpos.2 _ hle),
    ← List.take_succ_cons, number_take hpos.1]

/-- A solid token on its own. -/
theorem scan_solid_take {last : Option TokenKind} {kind : TokenKind} {n : Nat} (h : Solid c rest)
    (hsolid : solid d last c rest = ⟨some kind, n, false⟩) :
    scan d none c (rest.take n) = ⟨some kind, n, false⟩ := by
  by_cases hnumber : (c.isDigit || (c == '.' && startsFraction last rest)) = true
  · rw [solid, if_pos hnumber] at hsolid
    have hscan := scan_number_take (d := d) h hnumber
    rwa [hsolid] at hscan
  rw [solid, if_neg hnumber] at hsolid
  have hdigit : c.isDigit = false := by
    rw [Bool.or_eq_true, not_or, Bool.not_eq_true] at hnumber
    exact hnumber.1
  -- on its own the token starts no number either, since a point is alone
  have hscan : (c = '-' → rest.head? = some '-' → n = 0) →
      scan d none c (rest.take n) = solid d none c (rest.take n) :=
    fun hdash => scan_solid (solid_take_solid h hdash)
  have hno : (c = '.' → n = 0) →
      ¬ (c.isDigit || (c == '.' && startsFraction none (rest.take n))) = true := by
    intro hpoint
    rw [hdigit, Bool.false_or, Bool.not_eq_true, Bool.and_eq_false_imp, beq_iff_eq]
    intro hc
    rw [hpoint hc]
    rfl
  by_cases hat : (c == '@') = true
  · rw [if_pos hat] at hsolid
    have hne : ∀ a : Char, a ≠ '@' → c ≠ a := fun a ha hc => ha (hc ▸ beq_iff_eq.1 hat)
    have hquote := h.atQuote
    rw [hat, Bool.true_and] at hquote
    rw [hscan fun hc => absurd hc (hne _ (by decide)), solid,
      if_neg (hno fun hc => absurd hc (hne _ (by decide))), if_pos hat]
    exact atSign_take hquote hsolid
  rw [if_neg hat] at hsolid
  by_cases hstart : isIdentifierStart c = true
  · rw [if_pos hstart] at hsolid
    have hne : ∀ a : Char, isIdentifierStart a = false → c ≠ a := by
      rintro a ha rfl
      rw [ha] at hstart
      cases hstart
    cases hsolid
    rw [hscan fun hc => absurd hc (hne _ (by decide)), solid,
      if_neg (hno fun hc => absurd hc (hne _ (by decide))), if_neg hat, if_pos hstart,
      runLength_take_of_le (Nat.le_refl _), List.take_take,
      Nat.min_self]
  · rw [if_neg hstart] at hsolid
    cases hoperator : operator? d c rest with
    | none =>
        rw [hoperator] at hsolid
        cases hsolid
    | some found =>
        obtain ⟨kind', n'⟩ := found
        rw [hoperator] at hsolid
        cases hsolid
        rw [hscan ?_, solid, if_neg (hno ?_), if_neg hat, if_neg hstart,
          operator?_take hoperator]
        · rintro rfl
          cases hoperator
          rfl
        · rintro rfl hhead
          simp [operator?, hhead] at hoperator
          exact hoperator.2.symm

/-! ### Quoted tokens -/

theorem closeQuote_take {q : Char} {escapes : Bool} {x : List Char} {n : Nat}
    (h : closeQuote q escapes x = some n) : closeQuote q escapes (x.take n) = some n := by
  fun_induction closeQuote q escapes x generalizing n with
  | case1 => cases h
  | case2 => cases h
  | case3 c hescape hquote =>
      cases h
      simp [closeQuote, hescape, hquote]
  | case4 => cases h
  | case5 c e cs hescape ih =>
      -- an escaped character
      obtain ⟨m, hm, rfl⟩ := Option.map_eq_some_iff.1 h
      simp [closeQuote, hescape, ih hm]
  | case6 c e cs hescape hquote hdouble ih =>
      -- a doubled quote
      obtain ⟨m, hm, rfl⟩ := Option.map_eq_some_iff.1 h
      simp only [List.take_succ_cons, closeQuote, hescape, hquote, hdouble, if_true, ih hm,
        Bool.false_eq_true, if_false, Option.map_some]
  | case7 c e cs hescape hquote hdouble =>
      cases h
      simp [closeQuote, hescape, hquote]
  | case8 c e cs hescape hquote ih =>
      obtain ⟨m, hm, rfl⟩ := Option.map_eq_some_iff.1 h
      -- the character behind is kept too, for the close is at it or behind it
      have hpos := (closeQuote_bounds hm).1
      obtain ⟨k, rfl⟩ : ∃ k, m = k + 1 := ⟨m - 1, by omega⟩
      have hrest := ih hm
      rw [List.take_succ_cons] at hrest ⊢
      rw [List.take_succ_cons]
      simp only [closeQuote, hescape, hquote, hrest, Bool.false_eq_true, if_false, Option.map_some]

theorem find?_take {word : List Char} {n : Nat} (h : find? word x = some n) :
    find? word (x.take (n + word.length)) = some n := by
  have hle : n + word.length ≤ (x.take (n + word.length)).length := by
    rw [List.length_take_of_le (find?_le h)]
  rw [← find?_append_iff hle (x.drop (n + word.length)), List.take_append_drop]
  exact h

/-- A region is closed where it is because of what is in it. -/
theorem Region.close_take {opening body : List Char} {close : List Char → Option Nat}
    {kind : TokenKind} (h : Region d opening close kind) {n : Nat} (hclose : close body = some n) :
    close (body.take n) = some n := by
  have hfind : ∀ word : List Char, (find? word body).map (· + word.length) = some n →
      (find? word (body.take n)).map (· + word.length) = some n := by
    intro word hword
    obtain ⟨m, hm, rfl⟩ := Option.map_eq_some_iff.1 hword
    rw [find?_take hm]
    rfl
  cases h with
  | comment => exact hfind ['*', '/'] hclose
  | quoted => exact closeQuote_take hclose
  | hex => exact hfind [apostrophe] hclose
  | binary => exact hfind [apostrophe] hclose
  | national => exact closeQuote_take hclose
  | userVariable => exact closeQuote_take hclose

/-- Only a comment is opened by a slash. -/
theorem Region.opening_of_slash {opening : List Char} {close : List Char → Option Nat}
    {kind : TokenKind} (h : Region d ('/' :: opening) close kind) : opening = ['*'] := by
  cases h with
  | comment => rfl
  | quoted hq => cases hq
  | hex hm => simp at hm
  | binary hm => simp at hm
  | national hm => simp at hm

/-! ### All tokens -/

theorem silent_blockComment (body : List Char) (inComment : Bool) :
    Silent (blockComment d body inComment).kind := by
  unfold blockComment closed
  dsimp only
  split
  · exact silent_comment
  · split
    · exact silent_comment
    · exact silent_none

/-- What is significant outside of a version comment, on its own. -/
theorem scan_take {last : Option TokenKind} {kind : TokenKind}
    (hkind : (scan d last c rest).kind = some kind) (hchannel : kind.channel = .default) :
    scan d none c (rest.take (scan d last c rest).extra) =
      ⟨some kind, (scan d last c rest).extra, false⟩ := by
  have hsilent : ¬ Silent (scan d last c rest).kind := fun h => h kind hkind hchannel
  rcases starts_cases d c rest with
    hblank | hline | ⟨opening, body, close, k, hregion, rfl⟩ | hsolid
  · refine absurd ?_ hsilent
    rw [scan, recognize, if_pos hblank]
    exact silent_whitespace
  · refine absurd ?_ hsilent
    have hline' : (c == '#' || (c == '-' && startsDashComment rest)) = true := hline
    rw [scan, recognize, if_neg (by simp [isBlank_of_startsLineComment hline]), if_pos hline']
    exact silent_comment
  · have hplain : ∀ y, ¬ ['/', '*', '!'] <+: c :: opening ++ y := by
      intro y hopen
      obtain ⟨rfl, -⟩ := List.cons_prefix_cons.1 hopen
      obtain rfl := hregion.opening_of_slash
      exact hsilent (silent_blockComment (d := d) body false)
    rw [hregion.scan_eq (hplain body)] at hkind ⊢
    cases hclose : close body with
    | none =>
        rw [hclose] at hkind
        cases hkind
    | some n =>
        rw [hclose] at hkind
        cases hkind
        -- the closing mark is among the characters that are taken
        have htake : (opening ++ body).take (n + opening.length) = opening ++ body.take n := by
          simp [List.take_append, List.take_of_length_le]
        dsimp only [Option.map_some, closed]
        rw [htake, hregion.scan_eq (hplain _), hregion.close_take hclose]
        rfl
  · rw [scan_solid hsolid] at hkind ⊢
    apply scan_solid_take hsolid
    rw [← hkind, ← solid_versionComment d last c rest]

/-- What is significant anywhere, on its own. -/
theorem recognize_take {s : ScanState} {kind : TokenKind}
    (hkind : (recognize d s c rest).kind = some kind) (hchannel : kind.channel = .default) :
    recognize d .start c (rest.take (recognize d s c rest).extra) =
      ⟨some kind, (recognize d s c rest).extra, false⟩ := by
  obtain ⟨place, inComment, last⟩ := s
  simp only [recognize_place place] at hkind ⊢
  cases inComment with
  | false => exact scan_take hkind hchannel
  | true =>
      have hsilent : ¬ Silent (recognize d ⟨.start, true, last⟩ c rest).kind :=
        fun h => h kind hkind hchannel
      by_cases hopen : ['/', '*'] <+: c :: rest
      · obtain ⟨body, hbody⟩ := hopen
        cases hbody
        exact absurd (silent_blockComment body true) hsilent
      by_cases hclose : ['*', '/'] <+: c :: rest
      · obtain ⟨body, hbody⟩ := hclose
        cases hbody
        exact absurd silent_comment hsilent
      rw [recognize_inComment hopen hclose] at hkind ⊢
      exact scan_take hkind hchannel

/-- Every significant token starts the text that it was cut out of, and takes all of it. -/
theorem tokenize_recognized {text : String} {t : Token} (ht : t ∈ tokenize d text)
    (hsig : t.isSignificant = true) (heof : t.isEof = false) :
    ∃ c rest n, t.text.toList = c :: rest ∧ rest.length ≤ n ∧
      recognize d .start c rest = ⟨some t.kind, n, false⟩ := by
  rcases tokenize_cases ht with ⟨s, c, rest, hkind, hchannel, htext⟩ | ⟨hkind, -⟩
  · refine ⟨c, _, (recognize d s c rest).extra, htext, List.length_take_le _ _, ?_⟩
    exact recognize_take hkind (hchannel.symm.trans (beq_iff_eq.1 hsig))
  · rw [isEof, hkind] at heof
    cases heof

end Token

/-- Cut out of its text, every significant token is one token of the same kind, whatever
stood around it. -/
theorem tokenize_alone {d : Dialect} {text : String} {t : Token} (ht : t ∈ tokenize d text)
    (hsig : t.isSignificant = true) (heof : t.isEof = false) :
    tokenEvents d t.text = [] ∧
      ∃ u e : Token, tokenize d t.text = [u, e] ∧ u.kind = t.kind ∧ u.text = t.text ∧
        e.isEof = true := by
  obtain ⟨c, rest, n, htext, hn, hrecognized⟩ := Token.tokenize_recognized ht hsig heof
  have hlexemes : Token.lexemes d t.text.toList = [⟨some t.kind, t.text.toList, .start⟩] := by
    rw [htext, Token.lexemes, Token.lexemesFrom, hrecognized, Token.lexemesFrom_pending,
      List.drop_of_length_le hn, List.take_of_length_le hn]
    rfl
  have htokens : tokenize d t.text =
      [.ofLexeme ⟨some t.kind, t.text.toList, .start⟩ t.kind 0,
        .ending (Position.start.after t.text.toList) 1] := by
    rw [tokenize, hlexemes]
    rfl
  refine ⟨?_, _, _, htokens, rfl, ?_, rfl⟩
  · rw [tokenEvents, hlexemes]
    rfl
  · exact String.ofList_toList

/-- A point after a name and digits that run into letters. -/
theorem tokenize_alone_point :
    ⟨.dot, .default, ".", 1, 1, 1, 1, 1⟩ ∈ tokenize Config.standard.dialect "t.5a" ∧
      tokenEvents Config.standard.dialect "." = [] ∧
        ∃ u e : Token, tokenize Config.standard.dialect "." = [u, e] ∧ u.kind = .dot ∧
          u.text = "." ∧ e.isEof = true :=
  have hmem : ⟨.dot, .default, ".", 1, 1, 1, 1, 1⟩ ∈ tokenize Config.standard.dialect "t.5a" := by
    decide +kernel
  ⟨hmem, tokenize_alone hmem rfl rfl⟩

end MySqlAnalysis
