import Mathlib.Data.List.Forall2
import MySqlAnalysis.Config.Json

/-!
# JSON text is read

The reader that runs finds the value of every text of the notation. Each form of the
notation has a lemma that says what the reader makes of text that starts with it, up to
the text behind it (`readQuoted_of_quoted`, `readValue_of_isDatum`,
`readMembers_of_separated`); the last one is about whole documents
(`read?_of_isDocument`).
-/

set_option autoImplicit false

namespace MySqlAnalysis.Json

open Text

/-! ### Quoted text -/

/-- The four digits of a unit are read as that unit. -/
theorem readQuoted_unit {digits : List Char} {value : Nat} (h : IsUnit digits value)
    (rest : List Char) :
    readQuoted (backslash :: 'u' :: (digits ++ rest)) =
      (readQuoted rest).map fun p => (.unit value :: p.1, p.2) := by
  obtain ⟨hlength, hdigit, hvalue⟩ := h
  match digits, hlength with
  | [a, b, c, d], _ =>
      rw [backslash]
      simp only [List.cons_append, List.nil_append]
      rw [readQuoted, if_pos hdigit, hvalue]

theorem readQuoted_escape {mark c : Char} (h : escaped? mark = some c) (rest : List Char) :
    readQuoted (backslash :: mark :: rest) =
      (readQuoted rest).map fun p => (.character c :: p.1, p.2) := by
  have hmark : mark ≠ 'u' := by
    rintro rfl
    cases h
  rw [backslash, readQuoted]
  · rw [h, Option.bind_some]
  · simp [hmark]

/-- A character that needs no escape is read as itself. -/
theorem readQuoted_cons {c : Char} (hquote : c ≠ quotationMark) (hescape : c ≠ backslash)
    (hcontrol : 0x20 ≤ c.toNat) (rest : List Char) :
    readQuoted (c :: rest) = (readQuoted rest).map fun p => (.character c :: p.1, p.2) := by
  rw [readQuoted.eq_def]
  split
  case h_5 heq =>
    cases heq
    rw [if_neg]
    simpa [hescape] using hcontrol
  all_goals simp_all [backslash, quotationMark]

/-- A unit that is no surrogate stands for its character, whatever follows. -/
theorem decode_unit {n : Nat} (hleading : isLeading n = false) (htrailing : isTrailing n = false)
    (elements : List Element) :
    decode (.unit n :: elements) = (decode elements).map (Char.ofNat n :: ·) := by
  match elements with
  | [] => simp [decode, hleading, htrailing]
  | .character c :: rest => simp [decode, hleading, htrailing]
  | .unit m :: rest => simp [decode, hleading, htrailing]

/-- Quoted text is read up to its closing quote, as elements that stand for its text. -/
theorem readQuoted_of_quoted {cs text : List Char} (h : Quoted cs text) (rest : List Char) :
    ∃ elements, readQuoted (cs ++ quotationMark :: rest) = some (elements, rest) ∧
      decode elements = some text := by
  induction h with
  | nil => exact ⟨[], rfl, rfl⟩
  | @character c cs text hcontrol hquote hescape _ ih =>
      obtain ⟨elements, hread, hdecode⟩ := ih
      refine ⟨.character c :: elements, ?_, by rw [decode, hdecode]; rfl⟩
      rw [List.cons_append, readQuoted_cons hquote hescape hcontrol, hread]
      rfl
  | @escape mark c cs text hmark _ ih =>
      obtain ⟨elements, hread, hdecode⟩ := ih
      refine ⟨.character c :: elements, ?_, by rw [decode, hdecode]; rfl⟩
      rw [List.cons_append, List.cons_append, readQuoted_escape hmark, hread]
      rfl
  | @unit digits cs text value hdigits hleading htrailing _ ih =>
      obtain ⟨elements, hread, hdecode⟩ := ih
      refine ⟨.unit value :: elements, ?_, by rw [decode_unit hleading htrailing, hdecode]; rfl⟩
      rw [List.cons_append, List.cons_append, List.append_assoc, readQuoted_unit hdigits, hread]
      rfl
  | @pair first second cs text leading trailing hfirst hleading hsecond htrailing _ ih =>
      obtain ⟨elements, hread, hdecode⟩ := ih
      refine ⟨.unit leading :: .unit trailing :: elements, ?_, by
        rw [decode, if_pos hleading, if_pos htrailing, hdecode]; rfl⟩
      simp only [List.cons_append, List.append_assoc]
      rw [readQuoted_unit hfirst, readQuoted_unit hsecond, hread]
      rfl

/-! ### Blanks -/

theorem skipSpace_append {blanks : List Char} (h : blanks.all isSpace = true) (cs : List Char) :
    skipSpace (blanks ++ cs) = skipSpace cs :=
  List.dropWhile_append_of_pos (List.all_eq_true.1 h)

theorem skipSpace_cons {c : Char} (h : isSpace c = false) (cs : List Char) :
    skipSpace (c :: cs) = c :: cs :=
  List.dropWhile_cons_of_neg (by simp [h])

/-- A mark is found behind blanks. -/
theorem skipMark_append {blanks : List Char} (h : blanks.all isSpace = true) {c : Char}
    (hc : isSpace c = false) (cs : List Char) : skipMark c (blanks ++ c :: cs) = some cs := by
  simp [skipMark, skipSpace_append h, skipSpace_cons hc]

/-- No other mark is found. -/
theorem skipMark_append_of_ne {blanks : List Char} (h : blanks.all isSpace = true) {mark c : Char}
    (hc : isSpace c = false) (hne : c ≠ mark) (cs : List Char) :
    skipMark mark (blanks ++ c :: cs) = none := by
  simp [skipMark, skipSpace_append h, skipSpace_cons hc, hne]

/-- Blanks in front of a value do not count. -/
theorem readValue_append {blanks : List Char} (h : blanks.all isSpace = true) (fuel : Nat)
    (cs : List Char) : readValue fuel (blanks ++ cs) = readValue fuel cs := by
  cases fuel with
  | zero => rfl
  | succ fuel => rw [readValue, readValue, skipSpace_append h]

/-! ### Values -/

/-- What is read stands for the value that was given. -/
inductive Value.Stands : Value → Datum → Prop where
  | text {value : Value} {text : String} (h : value.text? = some text) : Stands value (.text text)
  | texts {value : Value} {texts : List String} (h : value.texts? = some texts) :
      Stands value (.texts texts)

theorem IsText.two_le {cs : List Char} {text : String} (h : IsText cs text) : 2 ≤ cs.length := by
  obtain ⟨-⟩ := h
  simp

theorem IsText.exists_cons {cs : List Char} {text : String} (h : IsText cs text) :
    ∃ more, cs = quotationMark :: more := by
  obtain ⟨-⟩ := h
  exact ⟨_, rfl⟩

theorem IsMember.exists_cons {cs : List Char} {member : String × Datum} (h : IsMember cs member) :
    ∃ more, cs = quotationMark :: more := by
  obtain ⟨hkey, -, -, -⟩ := h
  obtain ⟨more, rfl⟩ := hkey.exists_cons
  exact ⟨_, rfl⟩

theorem readValue_of_isText {cs : List Char} {text : String} (h : IsText cs text) (fuel : Nat)
    (rest : List Char) :
    ∃ value, readValue (fuel + 1) (cs ++ rest) = some (value, rest) ∧ value.text? = some text := by
  obtain ⟨h⟩ := h
  obtain ⟨elements, hread, hdecode⟩ := readQuoted_of_quoted h rest
  refine ⟨.text elements, ?_, by rw [Value.text?, hdecode]; rfl⟩
  rw [List.cons_append, List.append_assoc, readValue, skipSpace_cons (by decide)]
  show (readQuoted _).map _ = _
  rw [List.singleton_append, hread]
  rfl

theorem exists_first_piece {α : Type} {IsPiece : List Char → α → Prop} {cs : List Char}
    {values : List α} (h : Separated ',' isSpace IsPiece cs values) :
    ∃ before piece more a, before.all isSpace = true ∧ IsPiece piece a ∧
      cs = before ++ (piece ++ more) := by
  cases h with
  | last hbefore hpiece _ => exact ⟨_, _, _, _, hbefore, hpiece, rfl⟩
  | cons hbefore hpiece _ _ => exact ⟨_, _, _, _, hbefore, hpiece, rfl⟩

/-- Where pieces start with a quote, no bracket is found in front of them. -/
theorem skipMark_of_separated {α : Type} {IsPiece : List Char → α → Prop} {cs : List Char}
    {values : List α} (h : Separated ',' isSpace IsPiece cs values)
    (hquote : ∀ {piece a}, IsPiece piece a → ∃ more, piece = quotationMark :: more) {mark : Char}
    (hne : quotationMark ≠ mark) (rest : List Char) : skipMark mark (cs ++ rest) = none := by
  obtain ⟨before, piece, more, a, hbefore, hpiece, rfl⟩ := exists_first_piece h
  obtain ⟨more', rfl⟩ := hquote hpiece
  rw [List.append_assoc, List.append_assoc]
  exact skipMark_append_of_ne hbefore (by decide) hne _

/-- Values between brackets: either the closing one is the next mark, or values that start
with a quote stand in front of it. -/
theorem enclosed_cases {α : Type} {opening closing : Char} {IsPiece : List Char → α → Prop}
    {cs : List Char} {values : List α} (h : Enclosed opening closing IsPiece cs values)
    (hquote : ∀ {piece a}, IsPiece piece a → ∃ more, piece = quotationMark :: more)
    (hclosing : isSpace closing = false) (hne : quotationMark ≠ closing) (rest : List Char) :
    (∃ inner, cs ++ rest = opening :: inner ∧ skipMark closing inner = some rest ∧ values = []) ∨
      ∃ inner, cs ++ rest = opening :: (inner ++ closing :: rest) ∧
        skipMark closing (inner ++ closing :: rest) = none ∧
          Separated ',' isSpace IsPiece inner values ∧ inner.length + 1 < cs.length := by
  cases h with
  | @empty blanks hblanks =>
      exact .inl ⟨blanks ++ closing :: rest, by simp, skipMark_append hblanks hclosing rest, rfl⟩
  | @values inner _ h =>
      exact .inr ⟨inner, by simp, skipMark_of_separated h hquote hne _, h, by simp⟩

/-- Texts with commas between them are read up to the bracket. -/
theorem readItems_of_separated {cs : List Char} {texts : List String}
    (h : Separated ',' isSpace IsText cs texts) (rest : List Char) {fuel : Nat}
    (hfuel : cs.length < fuel) :
    ∃ items, readItems fuel (cs ++ ']' :: rest) = some (items, rest) ∧
      items.mapM Value.text? = some texts := by
  induction h generalizing fuel with
  | @last before piece after text hbefore hpiece hafter =>
      -- one round for the list of items and one for the text, which is two quotes long at least
      have hlength := hpiece.two_le
      simp only [List.length_append] at hfuel
      obtain ⟨fuel, rfl⟩ : ∃ m, fuel = m + 2 := ⟨fuel - 2, by omega⟩
      obtain ⟨value, hread, htext⟩ := readValue_of_isText hpiece fuel (after ++ ']' :: rest)
      refine ⟨[value], ?_, by simp [htext]⟩
      rw [readItems, List.append_assoc, List.append_assoc, readValue_append hbefore, hread]
      simp only [skipSpace_append hafter, skipSpace_cons (show isSpace ']' = false by decide)]
  | @cons before piece after more text texts hbefore hpiece hafter _ ih =>
      have hlength := hpiece.two_le
      simp only [List.length_append, List.length_cons] at hfuel
      obtain ⟨fuel, rfl⟩ : ∃ m, fuel = m + 2 := ⟨fuel - 2, by omega⟩
      obtain ⟨items, hitems, htexts⟩ := @ih (fuel + 1) (by omega)
      obtain ⟨value, hread, htext⟩ :=
        readValue_of_isText hpiece fuel (after ++ ',' :: (more ++ ']' :: rest))
      refine ⟨value :: items, ?_, by simp [htext, htexts]⟩
      simp only [List.append_assoc, List.cons_append]
      rw [readItems, readValue_append hbefore, hread]
      simp only [skipSpace_append hafter, skipSpace_cons (show isSpace ',' = false by decide),
        hitems]
      rfl

theorem readValue_of_isTexts {cs : List Char} {texts : List String}
    (h : Enclosed '[' ']' IsText cs texts) (rest : List Char) {fuel : Nat}
    (hfuel : cs.length < fuel) :
    ∃ value, readValue fuel (cs ++ rest) = some (value, rest) ∧ value.texts? = some texts := by
  obtain ⟨fuel, rfl⟩ : ∃ m, fuel = m + 1 := ⟨fuel - 1, by omega⟩
  rcases enclosed_cases h IsText.exists_cons (by decide) (by decide) rest with
    ⟨inner, hcs, hmark, rfl⟩ | ⟨inner, hcs, hmark, hitems, hlength⟩
  · refine ⟨.array [], ?_, rfl⟩
    rw [hcs, readValue, skipSpace_cons (by decide)]
    simp [hmark]
  · obtain ⟨items, hread, htexts⟩ :=
      readItems_of_separated hitems rest (show inner.length < fuel by omega)
    refine ⟨.array items, ?_, htexts⟩
    rw [hcs, readValue, skipSpace_cons (by decide)]
    simp [hmark, hread]

theorem readValue_of_isDatum {cs : List Char} {d : Datum} (h : IsDatum cs d) (rest : List Char)
    {fuel : Nat} (hfuel : cs.length < fuel) :
    ∃ value, readValue fuel (cs ++ rest) = some (value, rest) ∧ value.Stands d := by
  cases h with
  | text h =>
      obtain ⟨fuel, rfl⟩ : ∃ m, fuel = m + 1 := ⟨fuel - 1, by omega⟩
      obtain ⟨value, hread, htext⟩ := readValue_of_isText h fuel rest
      exact ⟨value, hread, .text htext⟩
  | texts h =>
      obtain ⟨value, hread, htexts⟩ := readValue_of_isTexts h rest hfuel
      exact ⟨value, hread, .texts htexts⟩

/-! ### Objects -/

/-- What is read stands for the member that was given. -/
structure MemberStands (member : List Element × Value) (given : String × Datum) : Prop where
  key : (decode member.1).map String.ofList = some given.1
  value : member.2.Stands given.2

/-- A member is read as its name and, behind the colon, its value. -/
theorem readMember_of_isMember {cs : List Char} {given : String × Datum} (h : IsMember cs given)
    {blanks : List Char} (hblanks : blanks.all isSpace = true) (rest : List Char) {fuel : Nat}
    (hfuel : cs.length ≤ fuel) :
    ∃ key value more,
      (skipMark '\x22' (blanks ++ (cs ++ rest))).bind readQuoted = some (key, more) ∧
        (skipMark ':' more).bind (readValue fuel) = some (value, rest) ∧
          MemberStands (key, value) given := by
  cases h with
  | @named _ before after vs _ d hkey hbefore hafter hvalue =>
      -- the name is read as text, and the colon leads to the value
      cases hkey with
      | @quoted ks text hkey =>
          simp only [List.length_append, List.length_cons] at hfuel
          have hfuel : vs.length < fuel := by omega
          obtain ⟨value, hread, hstands⟩ := readValue_of_isDatum hvalue rest hfuel
          obtain ⟨elements, hquoted, hdecode⟩ :=
            readQuoted_of_quoted hkey (before ++ ':' :: (after ++ (vs ++ rest)))
          refine ⟨elements, value, before ++ ':' :: (after ++ (vs ++ rest)), ?_, ?_,
            ⟨by rw [hdecode]; rfl, hstands⟩⟩
          · simp only [List.append_assoc, List.cons_append, List.nil_append]
            rw [← quotationMark, skipMark_append hblanks (by decide), Option.bind_some, hquoted]
          · rw [skipMark_append hbefore (by decide), Option.bind_some, readValue_append hafter,
              hread]

/-- Members with commas between them are read up to the brace. -/
theorem readMembers_of_separated {cs : List Char} {given : List (String × Datum)}
    (h : Separated ',' isSpace IsMember cs given) (rest : List Char) {fuel : Nat}
    (hfuel : cs.length < fuel) :
    ∃ members, readMembers fuel (cs ++ '\x7d' :: rest) = some (members, rest) ∧
      List.Forall₂ MemberStands members given := by
  obtain ⟨fuel, rfl⟩ : ∃ m, fuel = m + 1 := ⟨fuel - 1, by omega⟩
  induction h generalizing fuel with
  | @last before piece after member hbefore hpiece hafter =>
      simp only [List.length_append] at hfuel
      have hlength : piece.length ≤ fuel := by omega
      obtain ⟨key, value, more, hkey, hvalue, hstands⟩ :=
        readMember_of_isMember hpiece hbefore (after ++ '\x7d' :: rest) hlength
      refine ⟨[(key, value)], ?_, .cons hstands .nil⟩
      simp only [List.append_assoc]
      rw [readMembers, hkey]
      simp only [hvalue, skipSpace_append hafter,
        skipSpace_cons (show isSpace '\x7d' = false by decide)]
  | @cons before piece after others member given hbefore hpiece hafter _ ih =>
      simp only [List.length_append, List.length_cons] at hfuel
      obtain ⟨fuel, rfl⟩ : ∃ m, fuel = m + 1 := ⟨fuel - 1, by omega⟩
      obtain ⟨members, hmembers, hstand⟩ := ih fuel (by omega)
      have hlength : piece.length ≤ fuel + 1 := by omega
      obtain ⟨key, value, more, hkey, hvalue, hstands⟩ :=
        readMember_of_isMember hpiece hbefore (after ++ ',' :: (others ++ '\x7d' :: rest)) hlength
      refine ⟨(key, value) :: members, ?_, .cons hstands hstand⟩
      simp only [List.append_assoc, List.cons_append]
      rw [readMembers, hkey]
      simp only [hvalue, skipSpace_append hafter,
        skipSpace_cons (show isSpace ',' = false by decide), hmembers]
      rfl

theorem readValue_of_object {cs : List Char} {given : List (String × Datum)}
    (h : Enclosed '\x7b' '\x7d' IsMember cs given) (rest : List Char) {fuel : Nat}
    (hfuel : cs.length < fuel) :
    ∃ members, readValue fuel (cs ++ rest) = some (.object members, rest) ∧
      List.Forall₂ MemberStands members given := by
  obtain ⟨fuel, rfl⟩ : ∃ m, fuel = m + 1 := ⟨fuel - 1, by omega⟩
  rcases enclosed_cases h IsMember.exists_cons (by decide) (by decide) rest with
    ⟨inner, hcs, hmark, rfl⟩ | ⟨inner, hcs, hmark, hmembers, hlength⟩
  · refine ⟨[], ?_, .nil⟩
    rw [hcs, readValue, skipSpace_cons (by decide)]
    simp [hmark]
  · obtain ⟨members, hread, hstand⟩ :=
      readMembers_of_separated hmembers rest (show inner.length < fuel by omega)
    refine ⟨members, ?_, hstand⟩
    rw [hcs, readValue, skipSpace_cons (by decide)]
    simp [hmark, hread]

/-- A document is read as an object with members that stand for the given ones. -/
theorem read?_of_isDocument {document : List Char} {given : List (String × Datum)}
    (h : IsDocument document given) :
    ∃ members, Json.read? document = some (.object members) ∧
      List.Forall₂ MemberStands members given := by
  cases h with
  | @object before cs after _ hbefore h hafter =>
      -- a call uses up a character, so the whole length is more than enough for the object
      have hfuel : cs.length < 2 * (before ++ (cs ++ after)).length + 1 := by
        simp only [List.length_append]
        omega
      obtain ⟨members, hread, hstand⟩ := readValue_of_object h after hfuel
      have hend : skipSpace after = [] := by
        have hskip := skipSpace_append hafter []
        rwa [List.append_nil] at hskip
      refine ⟨members, ?_, hstand⟩
      rw [Json.read?, readValue_append hbefore, hread]
      simp only [hend, List.isEmpty_nil, if_true]

end MySqlAnalysis.Json
