import MySqlAnalysis.Diagnostic
import MySqlAnalysis.Proofs.Token.Tiling
import MySqlAnalysis.Proofs.Token.VersionComments
import MySqlAnalysis.Proofs.Token.Words

/-!
# Comments that are left open

A block comment is closed in the round that opens it, or it takes the rest of the text and
is reported. A version comment whose version is reached is only opened: what closes it is a
later round, and at the end of the text nobody asks for it. So a comment is left open if it
is reported, or if the end of the text is read inside of a version comment
(`tokenize_leftOpen_iff`). Each round is one of five kinds (`Token.recognize_round`), from
which both are shown by induction on the rounds.
-/

set_option autoImplicit false

namespace MySqlAnalysis

open Text

/-- A text is called a comment if it starts with a slash. -/
theorem LexerError.describe_eq_comment {text : String} :
    describe text = "Unfinished multiline comment" ↔ text.toList.head? = some '/' := by
  unfold describe
  split
  case h_9 hslash _ _ _ _ _ _ _ =>
    refine iff_of_false (fun h => ?_) (fun h => ?_)
    · -- the wording starts with a quotation mark
      have hchars := congrArg (fun text => text.toList.head?) h
      simp [inQuotes] at hchars
    · obtain ⟨rest, hrest⟩ := List.head?_eq_some_iff.1 h
      exact hslash rest hrest
  -- in the other cases the text starts with a character that is given
  all_goals
    rename_i htext
    simp [htext]

namespace Token

/-! ### Marks of comments -/

/-- A block comment with the mark that closes it, and no such mark before. -/
def Enclosed (cs : List Char) : Prop :=
  ∃ body, cs = '/' :: '*' :: (body ++ ['*', '/']) ∧ ¬ ['*', '/'] <:+: body

/-- The mark that opens a version comment whose version the server has reached, with up to
five digits of the version. -/
def OpensVersion (d : Dialect) (cs : List Char) : Prop :=
  ∃ v, cs = '/' :: '*' :: '!' :: v ∧ v.length ≤ 5 ∧ (∀ c ∈ v, c.isDigit = true) ∧
    decimalValue v ≤ d.version.number

/-- Something of the class `p` has been opened by a round and is not closed by a later one. -/
def LeftOpen (p : List Char → Prop) (rounds : List (List Char)) : Prop :=
  ∃ before opening after, rounds = before ++ opening :: after ∧ p opening ∧ ['*', '/'] ∉ after

/-- A block comment without the mark that closes it. -/
def OpensComment (cs : List Char) : Prop :=
  ['/', '*'] <+: cs ∧ ¬ Enclosed cs

/-- The state in which the end of a text is reached. -/
def endFrom (d : Dialect) : (pending : Nat) → ScanState → List Char → ScanState
  | _, s, [] => s
  | pending + 1, s, _ :: rest => endFrom d pending s rest
  | 0, s, c :: rest =>
    let r := recognize d s c rest
    endFrom d r.extra (s.after r (c :: rest.take r.extra)) rest

variable {d : Dialect} {c : Char} {rest : List Char}

theorem leftOpen_nil (p : List Char → Prop) : ¬ LeftOpen p [] := by
  rintro ⟨before, opening, after, h, -⟩
  simp at h

theorem leftOpen_cons {p : List Char → Prop} {cs : List Char} {rounds : List (List Char)} :
    LeftOpen p (cs :: rounds) ↔ p cs ∧ ['*', '/'] ∉ rounds ∨ LeftOpen p rounds := by
  constructor
  · rintro ⟨before, opening, after, h, hp, hafter⟩
    rcases List.cons_eq_append_iff.1 h with ⟨rfl, h⟩ | ⟨before, rfl, rfl⟩
    · obtain ⟨rfl, rfl⟩ := List.cons.inj h
      exact .inl ⟨hp, hafter⟩
    · exact .inr ⟨before, opening, after, rfl, hp, hafter⟩
  · rintro (⟨hp, hafter⟩ | ⟨before, opening, after, rfl, hp, hafter⟩)
    · exact ⟨[], cs, rounds, rfl, hp, hafter⟩
    · exact ⟨cs :: before, opening, after, rfl, hp, hafter⟩

theorem Enclosed.opens {cs : List Char} (h : Enclosed cs) : ['/', '*'] <+: cs := by
  obtain ⟨body, rfl, -⟩ := h
  exact ⟨body ++ ['*', '/'], rfl⟩

theorem OpensVersion.opens {cs : List Char} (h : OpensVersion d cs) : ['/', '*'] <+: cs := by
  obtain ⟨v, rfl, -⟩ := h
  exact ⟨'!' :: v, rfl⟩

/-- A mark has no star behind the first one. -/
theorem OpensVersion.not_enclosed {cs : List Char} (h : OpensVersion d cs) : ¬ Enclosed cs := by
  obtain ⟨v, rfl, -, hdigits, -⟩ := h
  rintro ⟨body, hbody, -⟩
  have hmem : '*' ∈ '!' :: v := by
    rw [List.cons_inj_right, List.cons_inj_right] at hbody
    rw [hbody]
    simp
  rcases List.mem_cons.1 hmem with hstar | hstar
  · cases hstar
  · have hdigit := hdigits '*' hstar
    revert hdigit
    decide

theorem OpensVersion.opensComment {cs : List Char} (h : OpensVersion d cs) : OpensComment cs :=
  ⟨h.opens, h.not_enclosed⟩

/-! ### One round -/

/-- What a round that reads `c :: rest` makes of comments: it opens a version comment, closes
it, encloses a comment, finds a comment that is not closed, or has nothing to do with them. -/
inductive Round (d : Dialect) (inComment : Bool) (c : Char) (rest : List Char) :
    Recognition → Prop
  | opens {n : Nat} (h : OpensVersion d (c :: rest.take n)) :
      Round d inComment c rest ⟨some .comment, n, true⟩
  | closes {n : Nat} (h : c :: rest.take n = ['*', '/']) :
      Round d inComment c rest ⟨some .comment, n, false⟩
  | encloses {n : Nat} (h : Enclosed (c :: rest.take n)) :
      Round d inComment c rest ⟨some .comment, n, inComment⟩
  | unclosed (h : OpensComment (c :: rest)) (hversion : ¬ OpensVersion d (c :: rest)) :
      Round d inComment c rest ⟨none, rest.length, inComment⟩
  | other {kind : Option TokenKind} {n : Nat} (hopen : ¬ ['/', '*'] <+: c :: rest)
      (hclose : c :: rest.take n ≠ ['*', '/']) : Round d inComment c rest ⟨kind, n, inComment⟩

theorem prefix_cons_take (c : Char) (n : Nat) (rest : List Char) :
    c :: rest.take n <+: c :: rest :=
  List.cons_prefix_cons.2 ⟨rfl, List.take_prefix n rest⟩

/-- The mark behind the slash and the star is that of a version that is reached, or the
comment goes on up to its close. -/
theorem blockComment_round (d : Dialect) (inComment : Bool) (body : List Char) :
    Round d inComment '/' ('*' :: body) (blockComment d body inComment) := by
  rw [blockComment]
  split
  case isTrue h =>
    rw [Bool.and_eq_true, beq_iff_eq, List.head?_eq_some_iff] at h
    obtain ⟨⟨more, rfl⟩, hreached⟩ := h
    rw [List.tail_cons] at hreached ⊢
    -- the mark takes the digits of the version from the text behind it
    have hprefix : (more.takeWhile Char.isDigit).take 5 <+: more :=
      (List.take_prefix _ _).trans (List.takeWhile_prefix _)
    generalize hv : (more.takeWhile Char.isDigit).take 5 = v at hreached hprefix ⊢
    refine .opens ⟨v, ?_, ?_, fun c hc => ?_, ?_⟩
    · rw [Nat.add_comm, List.take_succ_cons, List.take_succ_cons,
        ← List.prefix_iff_eq_take.1 hprefix]
    · rw [← hv]
      exact List.length_take_le _ _
    · rw [← hv] at hc
      exact List.mem_takeWhile_imp (List.mem_of_mem_take hc)
    · cases v with
      | nil => exact Nat.zero_le _
      | cons c v => simpa using hreached
  case isFalse h =>
    cases hfind : find? ['*', '/'] body with
    | none =>
        refine .unclosed ⟨⟨body, rfl⟩, ?_⟩ ?_
        · rintro ⟨before, hbefore, -⟩
          rw [List.cons_inj_right, List.cons_inj_right] at hbefore
          refine find?_eq_none_iff.1 hfind ?_
          rw [hbefore]
          exact (List.suffix_append before ['*', '/']).isInfix
        · -- a whole text that is a mark would have been read as one
          rintro ⟨v, hv, hlength, hdigits, hreached⟩
          rw [List.cons_inj_right, List.cons_inj_right] at hv
          have htake : (v.takeWhile Char.isDigit).take 5 = v := by
            rw [List.takeWhile_eq_self_iff.2 hdigits, List.take_of_length_le hlength]
          refine h ?_
          rw [hv, List.tail_cons, htake]
          simp [hreached]
    | some n =>
        have hnot := not_infix_take_of_find? (by simp) hfind
        obtain ⟨before, after, rfl, rfl⟩ := find?_eq_some hfind
        rw [List.append_assoc, List.take_left] at hnot
        refine .encloses ⟨before, ?_, hnot⟩
        rw [List.take_succ_cons, List.append_assoc, List.take_length_add_append]
        rfl

/-- Away from the marks of comments, a version comment stays open or closed. -/
theorem recognize_versionComment (s : ScanState) (hopen : ¬ ['/', '*'] <+: c :: rest)
    (hclose : ¬ ['*', '/'] <+: c :: rest) :
    (recognize d s c rest).versionComment = s.versionComment := by
  have hnumber (inComment : Bool) : (number (c :: rest) inComment).versionComment = inComment := by
    simp only [number_eq, apply_ite Recognition.versionComment, ite_self]
  have hat (inComment : Bool) : (atSign d rest inComment).versionComment = inComment := by
    cases rest with
    | nil => rfl
    | cons c rest =>
        simp only [atSign, apply_ite Recognition.versionComment, closed_versionComment, ite_self]
  have hmark : (c == '*' && s.versionComment && rest.head? == some '/') = false := by
    rw [Bool.and_right_comm, pair_eq_false hclose, Bool.false_and]
  unfold recognize
  simp only [pair_eq_false hopen, hmark, Bool.false_eq_true, if_false,
    apply_ite Recognition.versionComment, closed_versionComment, hnumber, hat]
  cases operator? d c rest <;> simp

/-- Every round is one of the five. -/
theorem recognize_round (d : Dialect) (s : ScanState) (c : Char) (rest : List Char) :
    Round d s.versionComment c rest (recognize d s c rest) := by
  by_cases hopen : ['/', '*'] <+: c :: rest
  · obtain ⟨body, hbody⟩ := hopen
    cases hbody
    exact blockComment_round d s.versionComment body
  by_cases hclose : ['*', '/'] <+: c :: rest
  · obtain ⟨more, hmore⟩ := hclose
    cases hmore
    obtain ⟨position, inComment, last⟩ := s
    -- outside of a version comment the star is an operator
    cases inComment with
    | true => exact .closes (n := 1) rfl
    | false => exact .other (n := 0) (by simp) (by simp)
  · have hkeeps := recognize_versionComment (d := d) s hopen hclose
    generalize recognize d s c rest = r at hkeeps ⊢
    obtain ⟨kind, n, inComment⟩ := r
    obtain rfl : inComment = s.versionComment := hkeeps
    exact .other hopen fun h => hclose (h ▸ prefix_cons_take c n rest)

namespace Round

variable {inComment : Bool} {r : Recognition}

/-- Which rounds leave a version comment open. -/
theorem versionComment_iff (h : Round d inComment c rest r) :
    r.versionComment = true ↔ OpensVersion d (c :: rest.take r.extra) ∨
      inComment = true ∧ c :: rest.take r.extra ≠ ['*', '/'] := by
  have hmark {cs : List Char} (hcs : ['/', '*'] <+: cs) : cs ≠ ['*', '/'] := by
    rintro rfl
    simp at hcs
  cases h with
  | opens h => simp [h]
  | closes h =>
      have hnot : ¬ OpensVersion d ['*', '/'] := fun h => hmark h.opens rfl
      simp [h, hnot]
  | @encloses n h =>
      have hnot : ¬ OpensVersion d (c :: rest.take n) := fun hversion => hversion.not_enclosed h
      simp [hnot, hmark h.opens]
  | unclosed h hversion => simp [hversion, hmark h.1]
  | @other _ n hopen hclose =>
      have hnot : ¬ OpensVersion d (c :: rest.take n) := fun hversion =>
        hopen (hversion.opens.trans (prefix_cons_take c n rest))
      simp [hnot, hclose]

/-- Which rounds open a comment that they do not close. -/
theorem opensComment_iff (h : Round d inComment c rest r) :
    OpensComment (c :: rest.take r.extra) ↔ OpensVersion d (c :: rest.take r.extra) ∨
      r.kind = none ∧ ['/', '*'] <+: c :: rest.take r.extra := by
  cases h with
  | opens h => simp [h, h.opensComment]
  | closes h =>
      have hnot : ¬ ['/', '*'] <+: ['*', '/'] := by simp
      have hversion : ¬ OpensVersion d ['*', '/'] := fun h => hnot h.opens
      simp [h, OpensComment, hversion]
  | @encloses n h =>
      have hnot : ¬ OpensVersion d (c :: rest.take n) := fun hversion => hversion.not_enclosed h
      simp [hnot, OpensComment, h]
  | unclosed h hversion => simp [h, h.1]
  | @other _ n hopen hclose =>
      have hnot : ¬ ['/', '*'] <+: c :: rest.take n := fun h =>
        hopen (h.trans (prefix_cons_take c n rest))
      have hversion : ¬ OpensVersion d (c :: rest.take n) := fun h => hnot h.opens
      simp only [OpensComment, hnot, hversion, false_and, and_false, or_false]

/-- A comment that is not closed takes the rest of the text. -/
theorem extra_eq (h : Round d inComment c rest r) (hkind : r.kind = none)
    (hopen : ['/', '*'] <+: c :: rest.take r.extra) : r.extra = rest.length := by
  cases h with
  | opens => cases hkind
  | closes => cases hkind
  | encloses => cases hkind
  | unclosed => rfl
  | other hno => exact absurd (hopen.trans (prefix_cons_take ..)) hno

end Round

/-! ### All rounds -/

/-- A version comment is open behind some rounds if the last mark among them opens one, or if
it was open before and no mark closes it. -/
theorem versionComment_endFrom (d : Dialect) (pending : Nat) (s : ScanState) (cs : List Char) :
    (endFrom d pending s cs).versionComment = true ↔
      s.versionComment = true ∧ ['*', '/'] ∉ (lexemesFrom d pending s cs).map Lexeme.text ∨
        LeftOpen (OpensVersion d) ((lexemesFrom d pending s cs).map Lexeme.text) := by
  fun_induction lexemesFrom d pending s cs with
  | case1 pending s => simp [endFrom, leftOpen_nil]
  | case2 pending s c rest ih => exact ih
  | case3 s c rest r text ih =>
      have hround : (s.after r text).versionComment = true ↔
          OpensVersion d text ∨ s.versionComment = true ∧ text ≠ ['*', '/'] :=
        (recognize_round d s c rest).versionComment_iff
      have hend : endFrom d 0 s (c :: rest) = endFrom d r.extra (s.after r text) rest := rfl
      rw [hend, ih, hround, List.map_cons, leftOpen_cons, List.mem_cons, not_or]
      constructor
      · rintro (⟨hversion | ⟨hinside, hne⟩, hnot⟩ | hleft)
        · exact .inr (.inl ⟨hversion, hnot⟩)
        · exact .inl ⟨hinside, hne.symm, hnot⟩
        · exact .inr (.inr hleft)
      · rintro (⟨hinside, hne, hnot⟩ | ⟨hversion, hnot⟩ | hleft)
        · exact .inl ⟨.inr ⟨hinside, Ne.symm hne⟩, hnot⟩
        · exact .inl ⟨.inl hversion, hnot⟩
        · exact .inr hleft

/-- The comments that are left open by some rounds are version comments and those that cannot be
read. -/
theorem leftOpen_lexemesFrom (d : Dialect) (pending : Nat) (s : ScanState) (cs : List Char) :
    LeftOpen OpensComment ((lexemesFrom d pending s cs).map Lexeme.text) ↔
      LeftOpen (OpensVersion d) ((lexemesFrom d pending s cs).map Lexeme.text) ∨
        ∃ l ∈ lexemesFrom d pending s cs, l.kind = none ∧ ['/', '*'] <+: l.text := by
  fun_induction lexemesFrom d pending s cs with
  | case1 pending s => simp [leftOpen_nil]
  | case2 pending s c rest ih => exact ih
  | case3 s c rest r text ih =>
      have hround : OpensComment text ↔
          OpensVersion d text ∨ r.kind = none ∧ ['/', '*'] <+: text :=
        (recognize_round d s c rest).opensComment_iff
      -- nothing comes after a comment that cannot be read
      have hlast (hkind : r.kind = none) (hopen : ['/', '*'] <+: text) :
          lexemesFrom d r.extra (s.after r text) rest = [] := by
        have hextra : r.extra = rest.length := (recognize_round d s c rest).extra_eq hkind hopen
        rw [lexemesFrom_pending, hextra, List.drop_length, lexemesFrom]
      rw [List.map_cons, leftOpen_cons, leftOpen_cons, ih, hround]
      constructor
      · rintro (⟨hversion | hunread, hnot⟩ | hleft | ⟨l, hl, hunread⟩)
        · exact .inl (.inl ⟨hversion, hnot⟩)
        · exact .inr ⟨_, List.mem_cons_self, hunread⟩
        · exact .inl (.inr hleft)
        · exact .inr ⟨l, List.mem_cons_of_mem _ hl, hunread⟩
      · rintro ((⟨hversion, hnot⟩ | hleft) | ⟨l, hl, hunread⟩)
        · exact .inl ⟨.inl hversion, hnot⟩
        · exact .inr (.inl hleft)
        · rcases List.mem_cons.1 hl with rfl | hl
          · refine .inl ⟨.inr hunread, ?_⟩
            rw [hlast hunread.1 hunread.2]
            exact List.not_mem_nil
          · exact .inr (.inr ⟨l, hl, hunread⟩)

/-! ### Reports -/

/-- A slash that opens no comment is an operator. -/
theorem recognize_slash (d : Dialect) (s : ScanState) (hrest : rest.head? ≠ some '*') :
    (recognize d s '/' rest).kind = some .slash := by
  have hstar : (rest.head? == some '*') = false := beq_eq_false_iff_ne.2 hrest
  unfold recognize
  simp only [hstar]
  rfl

/-- What starts with a slash and cannot be read is a comment. -/
theorem opens_of_slash {l : Lexeme} {cs : List Char} (hl : l ∈ lexemes d cs)
    (hkind : l.kind = none) (hslash : l.text.head? = some '/') : ['/', '*'] <+: l.text := by
  obtain ⟨s, c, rest, hkind', htext⟩ := lexemesFrom_recognized 0 .start cs l hl
  rw [htext, List.head?_cons, Option.some.injEq] at hslash
  subst hslash
  rw [hkind] at hkind'
  rw [htext]
  have hround := recognize_round d s '/' rest
  generalize hr : recognize d s '/' rest = r at hround hkind' ⊢
  cases hround with
  | opens => cases hkind'
  | closes => cases hkind'
  | encloses => cases hkind'
  | unclosed h => rw [List.take_length]; exact h.1
  | other hopen =>
      have hrest : rest.head? ≠ some '*' := fun h => hopen (pair_prefix_iff.2 (by simp [h]))
      have hslash := recognize_slash d s hrest
      rw [hr] at hslash
      cases hslash.symm.trans hkind'.symm

/-- An unfinished comment is reported for what starts as a comment and cannot be read. -/
theorem reportsComment_iff (d : Dialect) (text : String) :
    (∃ e ∈ tokenEvents d text, (LexerError.ofEvent? e).map LexerError.message =
      some "Unfinished multiline comment") ↔
      ∃ l ∈ lexemes d text.toList, l.kind = none ∧ ['/', '*'] <+: l.text := by
  have hmessage (l : Lexeme) :
      (LexerError.ofEvent? (.unreadable (String.ofList l.text) l.position)).map
        LexerError.message = some "Unfinished multiline comment" ↔ l.text.head? = some '/' := by
    rw [LexerError.ofEvent?, SyntaxEvent.unreadable, Option.map_some, Option.some.injEq,
      LexerError.describe_eq_comment, String.toList_ofList]
  constructor
  · rintro ⟨e, he, hcomment⟩
    obtain ⟨l, hl, hevent⟩ := List.mem_filterMap.1 he
    rw [eventOfLexeme?] at hevent
    split at hevent
    case h_1 => cases hevent
    case h_2 hkind =>
      cases hevent
      exact ⟨l, hl, hkind, opens_of_slash hl hkind ((hmessage l).1 hcomment)⟩
  · rintro ⟨l, hl, hkind, body, hbody⟩
    refine ⟨.unreadable (String.ofList l.text) l.position, List.mem_filterMap.2 ⟨l, hl, ?_⟩,
      (hmessage l).2 (by rw [← hbody]; rfl)⟩
    rw [eventOfLexeme?, hkind]

end Token

open Token

/-- Whether the end of a text is read inside of a version comment. -/
def endsInComment (d : Dialect) (text : String) : Bool :=
  (endFrom d 0 .start text.toList).versionComment

/-- A block comment is left open if it is reported, or if the end of the text is read inside of
a version comment. The second is the case if the last mark that opens or closes a version
comment opens one. -/
theorem tokenize_leftOpen_iff (d : Dialect) (text : String) :
    (LeftOpen OpensComment ((products d text).map Product.text) ↔
      (∃ e ∈ tokenEvents d text, (LexerError.ofEvent? e).map LexerError.message =
        some "Unfinished multiline comment") ∨ endsInComment d text = true) ∧
    (endsInComment d text = true ↔
      LeftOpen (OpensVersion d) ((products d text).map Product.text)) := by
  have hversion : endsInComment d text = true ↔
      LeftOpen (OpensVersion d) ((lexemes d text.toList).map Lexeme.text) := by
    have hstart : ScanState.start.versionComment = false := rfl
    rw [endsInComment, versionComment_endFrom, hstart]
    simp [lexemes]
  rw [products, map_text_productsOf, hversion, reportsComment_iff, or_comm]
  exact ⟨leftOpen_lexemesFrom d 0 .start text.toList, Iff.rfl⟩

/-- A version comment that is left open is not reported. -/
theorem tokenize_leaves_open :
    tokenEvents Config.standard.dialect "/*! SELECT 1" = [] ∧
      LeftOpen OpensComment
        ((products Config.standard.dialect "/*! SELECT 1").map Product.text) ∧
      endsInComment Config.standard.dialect "/*! SELECT 1" = true := by
  refine ⟨by decide +kernel, ?_, by decide +kernel⟩
  refine ⟨[], "/*!".toList, [" ".toList, "SELECT".toList, " ".toList, "1".toList],
    by decide +kernel, ⟨by decide +kernel, ?_⟩, by decide +kernel⟩
  rintro ⟨body, hbody, -⟩
  have hlength := congrArg List.length hbody
  simp at hlength

end MySqlAnalysis
