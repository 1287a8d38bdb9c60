import MySqlAnalysis.Config.Basic
import MySqlAnalysis.Proofs.Token.Regions

/-!
# Version comments

A version comment that the server has reached the version of is read as code: its tokens
are those of its body on its own. Otherwise it is one comment (`tokenize_versionComment`).
What a text starts with does not depend on a tail behind a blank that closes nothing
(`Token.Starts`, `Token.starts`), and inside of a version comment it is read as outside
(`Token.recognize_inComment`), so that the body and the mark that closes the comment stay
apart (`Token.contentsFrom_inComment`).
-/

set_option autoImplicit false

namespace MySqlAnalysis

open Text

namespace Token

variable {d : Dialect} {last : Option TokenKind} {c : Char} {rest : List Char}

/-! ### Contents -/

/-- The kind and the text of a span. -/
def Span.content (s : Span) : TokenKind × String :=
  (s.kind, s.text)

/-- The kinds and the texts of the significant tokens. -/
def contents (tokens : List Token) : List (TokenKind × String) :=
  (significant tokens).map fun t => (t.kind, t.text)

/-- The contents of a text, inside or outside of a version comment, after a significant
token of the kind `last`. -/
def contentsFrom (d : Dialect) (inComment : Bool) (last : Option TokenKind) (cs : List Char) :
    List (TokenKind × String) :=
  ((lexemesFrom d 0 ⟨.start, inComment, last⟩ cs).filterMap lexemeSpan?).map Span.content

theorem contents_tokenize (d : Dialect) (text : String) :
    contents (tokenize d text) = contentsFrom d false none text.toList ++ [(.eof, "")] := by
  have hspans : (spans d text).map Span.content = contentsFrom d false none text.toList := by
    rw [spans_eq_spansFrom]
    rfl
  obtain ⟨read, last, heq, hread⟩ := ofLexemes_eq_append (Position.start.after text.toList)
    (lexemes d text.toList) (lexemesFrom_kind_ne_eof 0 .start text.toList) 0
  have hsplit : significant (tokenize d text) =
      significant read ++ [ending (Position.start.after text.toList) last] := by
    rw [tokenize, heq, significant, List.filter_append]
    rfl
  have hall : (significant read).filter (fun t => !t.isEof) = significant read := by
    rw [List.filter_eq_self]
    intro t ht
    rw [hread t (List.mem_filter.1 ht).1]
    rfl
  have hlast : [ending (Position.start.after text.toList) last].filter (fun t => !t.isEof) = [] :=
    rfl
  rw [← hspans, spans, hsplit, contents, hsplit, List.filter_append, hall, hlast, List.append_nil,
    List.map_append, List.map_map]
  rfl

@[simp]
theorem contentsFrom_nil (inComment : Bool) (last : Option TokenKind) :
    contentsFrom d inComment last [] = [] := by
  simp [contentsFrom, lexemesFrom]

/-- The first content of a text and those after it. -/
theorem contentsFrom_of_recognize {inComment inComment' : Bool} {kind : Option TokenKind} {n : Nat}
    (h : recognize d ⟨.start, inComment, last⟩ c rest = ⟨kind, n, inComment'⟩) :
    contentsFrom d inComment last (c :: rest) =
      (spanAt? kind (c :: rest.take n) 0).toList.map Span.content ++
        contentsFrom d inComment' (lastAfter last kind) (rest.drop n) := by
  -- a content does not say where it stands
  have hrest := filterMap_lexemesFrom_shift (d := d) 0
    ⟨.start, inComment', lastAfter last kind⟩ (rest.drop n) (byteLength (c :: rest.take n))
    (Position.start.after (c :: rest.take n)) (by simp)
  have hplace : Span.content ∘ Span.shift (byteLength (c :: rest.take n)) = Span.content := rfl
  rw [contentsFrom, filterMap_lexemesFrom_cons h, hrest, List.map_append, List.map_map, hplace]
  rfl

/-- Text that the grammar does not see has no contents. -/
theorem contentsFrom_of_silent {inComment inComment' : Bool} {kind : Option TokenKind} {n : Nat}
    (hkind : Silent kind)
    (h : recognize d ⟨.start, inComment, last⟩ c rest = ⟨kind, n, inComment'⟩) :
    contentsFrom d inComment last (c :: rest) = contentsFrom d inComment' last (rest.drop n) := by
  rw [contentsFrom_of_recognize h, hkind.spanAt?, hkind.lastAfter]
  rfl

/-- Blanks are skipped one by one. -/
theorem contentsFrom_blank (hc : isBlank c = true) (inComment : Bool) (rest : List Char) :
    contentsFrom d inComment last (c :: rest) = contentsFrom d inComment last rest := by
  have hblank : ∀ {c : Char} {rest : List Char}, isBlank c = true →
      contentsFrom d inComment last (c :: rest) =
        contentsFrom d inComment last (rest.dropWhile isBlank) := by
    intro c rest hc
    have hfirst : recognize d ⟨.start, inComment, last⟩ c rest =
        ⟨some .whitespace, runLength isBlank rest, inComment⟩ := if_pos hc
    rw [contentsFrom_of_silent silent_whitespace hfirst, drop_runLength]
  rw [hblank hc]
  cases rest with
  | nil => rfl
  | cons b rest =>
      by_cases hb : isBlank b = true
      · rw [hblank hb, List.dropWhile_cons_of_pos hb]
      · rw [List.dropWhile_cons_of_neg hb]

/-! ### Tails that close nothing -/

/-- A text that starts with a blank and has neither quotes nor line feeds. -/
structure Quiet (w : List Char) : Prop where
  blank : w.head? = some ' '
  closes : ∀ c ∈ w, isQuote c = false ∧ c ≠ '\n'

theorem Quiet.breaks {w : List Char} (h : Quiet w) : Breaks w := by
  obtain ⟨w, rfl⟩ := List.head?_eq_some_iff.1 h.blank
  exact .cons rfl w

/-- A pair of characters in front of a quiet text does not reach into it. -/
theorem Quiet.not_prefix {w : List Char} (h : Quiet w) {a b : Char} (hb : isBreak b = false)
    (hno : ¬ [a, b] <+: c :: rest) : ¬ [a, b] <+: c :: (rest ++ w) := by
  rwa [pair_prefix_iff, head?_append_beq h.breaks hb, ← pair_prefix_iff]

/-- What `c :: rest` starts with in front of every quiet text: a token that ends before it, or
something without tokens that reaches up to the end. -/
inductive Starts (d : Dialect) (last : Option TokenKind) (c : Char) (rest : List Char) : Prop
  | inside (kind : Option TokenKind) (n : Nat) (le : n ≤ rest.length)
      (reads : ∀ w, Quiet w → scan d last c (rest ++ w) = ⟨kind, n, false⟩)
  | through (kind : Option TokenKind) (silent : Silent kind)
      (reads : ∀ w, Quiet w → scan d last c (rest ++ w) = ⟨kind, (rest ++ w).length, false⟩)

theorem Quiet.startsLineComment_append {w : List Char} (h : Quiet w) (c : Char)
    (rest : List Char) : startsLineComment c (rest ++ w) = startsLineComment c rest := by
  apply startsLineComment_append_of_ends h.breaks
  intro _ _
  rw [h.blank]
  rfl

theorem starts_lineComment (h : startsLineComment c rest = true) : Starts d last c rest := by
  have hscan : ∀ w, Quiet w → scan d last c (rest ++ w) =
      ⟨some .comment, runLength (· != '\n') (rest ++ w), false⟩ := by
    intro w hw
    have hline : startsLineComment c (rest ++ w) = true := by
      rw [hw.startsLineComment_append, h]
    unfold scan recognize
    rw [isBlank_of_startsLineComment hline]
    exact if_pos hline
  by_cases hfeed : (rest.takeWhile (· != '\n')).length = rest.length
  · refine .through (some .comment) silent_comment fun w hw => ?_
    have hw' : ∀ b ∈ w, (b != '\n') = true := fun b hb => bne_iff_ne.2 (hw.closes b hb).2
    rw [hscan w hw, runLength, List.takeWhile_append, if_pos hfeed,
      List.takeWhile_eq_self_iff.2 hw']
  · refine .inside (some .comment) (runLength (· != '\n') rest)
      (List.takeWhile_prefix _).length_le fun w hw => ?_
    rw [hscan w hw, runLength, List.takeWhile_append, if_neg hfeed]
    rfl

theorem starts_region {opening body : List Char} {close : List Char → Option Nat}
    {kind : TokenKind} (h : Region d (c :: opening) close kind)
    (hopen : ¬ ['/', '*'] <+: c :: (opening ++ body)) : Starts d last c (opening ++ body) := by
  have hopening : c :: opening ≠ ['/', '*'] := by
    rintro heq
    rw [← List.cons_append, heq] at hopen
    exact hopen (List.prefix_append _ _)
  have hscan : ∀ w, Quiet w → scan d last c (opening ++ body ++ w) =
      closed kind ((close (body ++ w)).map (· + opening.length)) (opening ++ body ++ w) false := by
    intro w hw
    rw [List.append_assoc]
    refine h.scan_eq fun hplain => ?_
    rw [List.cons_append, ← List.append_assoc] at hplain
    exact hw.not_prefix (by decide) hopen
      ((List.prefix_append ['/', '*'] ['!']).trans hplain)
  -- a quiet text closes nothing, so the close is in front of it or nowhere
  cases hclose : close body with
  | some n =>
      have hn := h.closing.le hclose
      refine .inside (some kind) (n + opening.length)
        (by rw [List.length_append]; omega) fun w hw => ?_
      rw [hscan w hw, (h.closing.append_iff hw.breaks hn).2 hclose]
      rfl
  | none =>
      refine .through none silent_none fun w hw => ?_
      rw [hscan w hw, h.close_append_eq_none hopening hw.breaks
        (fun b hb => (hw.closes b hb).1) hclose]
      rfl

theorem starts_solid (h : Solid c rest) : Starts d last c rest := by
  have htakes : Takes (solid d last c rest).extra rest := takes_solid h
  refine .inside (solid d last c rest).kind _ htakes.1 fun w hw => ?_
  rw [scan_solid ((solid_append_iff hw.breaks (hw.startsLineComment_append c rest)).2 h),
    solid_append hw.breaks h, ← solid_versionComment d last c rest]

theorem starts (hblank : isBlank c = false) (hopen : ¬ ['/', '*'] <+: c :: rest)
    (d : Dialect) (last : Option TokenKind) : Starts d last c rest := by
  rcases starts_cases d c rest with hc | hline | ⟨opening, body, close, kind, hregion, rfl⟩ | hsolid
  · rw [hblank] at hc
    cases hc
  · exact starts_lineComment hline
  · exact starts_region hregion hopen
  · exact starts_solid hsolid

/-! ### Inside of a version comment -/

/-- The same, with an open version comment. -/
def Recognition.within (r : Recognition) : Recognition :=
  { r with versionComment := true }

theorem ite_within {p : Prop} [Decidable p] {r₁ r₂ r₁' r₂' : Recognition} (h₁ : r₁' = r₁.within)
    (h₂ : r₂' = r₂.within) : (if p then r₁' else r₂') = (if p then r₁ else r₂).within := by
  split
  · exact h₁
  · exact h₂

theorem closed_within (kind : TokenKind) (extra : Option Nat) (text : List Char) :
    closed kind extra text true = (closed kind extra text false).within := by
  cases extra <;> rfl

theorem number_within (cs : List Char) : number cs true = (number cs false).within := by
  rw [number_eq, number_eq]
  exact ite_within rfl rfl

theorem atSign_within (rest : List Char) : atSign d rest true = (atSign d rest false).within := by
  cases rest with
  | nil => rfl
  | cons c rest =>
      rw [atSign, atSign]
      refine ite_within rfl ?_
      refine ite_within (closed_within _ _ _) ?_
      exact ite_within rfl rfl

/-- Inside of a version comment everything but the marks of comments is read as outside. -/
theorem recognize_inComment (hopen : ¬ ['/', '*'] <+: c :: rest)
    (hclose : ¬ ['*', '/'] <+: c :: rest) :
    recognize d ⟨.start, true, last⟩ c rest = (scan d last c rest).within := by
  unfold scan recognize
  simp only [pair_eq_false hopen, pair_eq_false hclose, Bool.and_true, Bool.and_false,
    Bool.false_and, Bool.false_eq_true, if_false]
  -- branch by branch; each of them passes on whether a version comment is open
  refine ite_within rfl ?_
  refine ite_within rfl ?_
  refine ite_within (closed_within _ _ _) ?_
  refine ite_within (closed_within _ _ _) ?_
  refine ite_within (closed_within _ _ _) ?_
  refine ite_within (closed_within _ _ _) ?_
  refine ite_within (number_within _) ?_
  refine ite_within (atSign_within _) ?_
  refine ite_within rfl ?_
  cases operator? d c rest <;> rfl

/-- A blank in front of the mark that closes a comment. -/
theorem quiet_closing : Quiet [' ', '*', '/'] :=
  ⟨rfl, by simp; decide⟩

/-- A blank at the end. -/
theorem quiet_blank : Quiet [' '] :=
  ⟨rfl, List.forall_mem_singleton.2 ⟨rfl, by decide⟩⟩

/-- What a text without marks of comments starts with is also there inside of a version
comment, in front of every quiet text. -/
theorem recognize_inComment_append {w : List Char} (hw : Quiet w)
    (hopen : ¬ ['/', '*'] <+: c :: rest) (hclose : ¬ ['*', '/'] <+: c :: rest) (d : Dialect)
    (last : Option TokenKind) :
    recognize d ⟨.start, true, last⟩ c (rest ++ w) = (scan d last c (rest ++ w)).within :=
  recognize_inComment (hw.not_prefix rfl hopen) (hw.not_prefix rfl hclose)

/-- The mark that closes a version comment has no contents. -/
theorem contentsFrom_closing : contentsFrom d true last ['*', '/'] = [] := by
  have hmark : recognize d ⟨.start, true, last⟩ '*' ['/'] = ⟨some .comment, 1, false⟩ := rfl
  rw [contentsFrom_of_silent silent_comment hmark]
  exact contentsFrom_nil ..

/-- Inside of a version comment a text without marks of comments is read as on its own. -/
theorem contentsFrom_inComment : (cs : List Char) → ¬ ['/', '*'] <:+: cs → ¬ ['*', '/'] <:+: cs →
    ∀ last, contentsFrom d true last (cs ++ [' ', '*', '/']) =
      contentsFrom d false last (cs ++ [' '])
  | [], _, _, last => by
    have hspace : isBlank ' ' = true := rfl
    rw [List.nil_append, List.nil_append, contentsFrom_blank hspace, contentsFrom_blank hspace,
      contentsFrom_closing, contentsFrom_nil]
  | c :: rest, hopen, hclose, last => by
    have hpart (n : Nat) : rest.drop n <:+: c :: rest :=
      ((List.drop_suffix n rest).trans (List.suffix_cons c rest)).isInfix
    -- the text behind the first token has no marks either
    have hlater (n : Nat) := contentsFrom_inComment (rest.drop n)
      (fun h => hopen (h.trans (hpart n))) (fun h => hclose (h.trans (hpart n)))
    by_cases hblank : isBlank c = true
    · rw [List.cons_append, List.cons_append, contentsFrom_blank hblank, contentsFrom_blank hblank]
      exact hlater 0 last
    · rw [Bool.not_eq_true] at hblank
      have hopen' : ¬ ['/', '*'] <+: c :: rest := fun h => hopen h.isInfix
      have hclose' : ¬ ['*', '/'] <+: c :: rest := fun h => hclose h.isInfix
      have hin := recognize_inComment_append quiet_closing hopen' hclose' d last
      rw [List.cons_append, List.cons_append]
      cases starts hblank hopen' d last with
      | inside kind n le reads =>
          rw [reads _ quiet_closing] at hin
          rw [contentsFrom_of_recognize hin, contentsFrom_of_recognize (reads _ quiet_blank),
            List.take_append_of_le_length le, List.take_append_of_le_length le,
            List.drop_append_of_le_length le, List.drop_append_of_le_length le, hlater n]
      | through kind silent reads =>
          rw [reads _ quiet_closing] at hin
          rw [contentsFrom_of_silent silent hin,
            contentsFrom_of_silent silent (reads _ quiet_blank), List.drop_length,
            List.drop_length, contentsFrom_nil, contentsFrom_nil]
termination_by cs => cs.length
decreasing_by
  rw [List.length_drop, List.length_cons]
  omega

/-! ### The mark that opens a version comment -/

section Opening

variable {v body : List Char}

/-- The version of a comment is the run of digits behind its mark. -/
theorem take_digits (hlength : v.length = 5) (hdigits : ∀ c ∈ v, c.isDigit = true) :
    ((v ++ ' ' :: body).takeWhile Char.isDigit).take 5 = v := by
  have hspace : (' ' :: body).takeWhile Char.isDigit = [] := rfl
  rw [List.takeWhile_append_of_pos hdigits, hspace, List.append_nil, ← hlength, List.take_length]

/-- The text behind the star and the number of its characters that are skipped to its close. -/
theorem blockComment_version (hlength : v.length = 5) (hdigits : ∀ c ∈ v, c.isDigit = true) :
    blockComment d ('!' :: (v ++ ' ' :: body)) false =
      if decimalValue v ≤ d.version.number then ⟨some .comment, 7, true⟩
      else closed .comment ((find? ['*', '/'] ('!' :: (v ++ ' ' :: body))).map (· + 3))
        ('*' :: '!' :: (v ++ ' ' :: body)) false := by
  have hsome : v.isEmpty = false := by
    cases v with
    | nil => cases hlength
    | cons c v => rfl
  rw [blockComment, List.tail_cons, take_digits hlength hdigits, hsome, hlength]
  simp

/-- A version comment whose version is reached is opened by its mark. -/
theorem contentsFrom_reached (hlength : v.length = 5) (hdigits : ∀ c ∈ v, c.isDigit = true)
    (hreached : decimalValue v ≤ d.version.number) :
    contentsFrom d false last ('/' :: '*' :: '!' :: (v ++ ' ' :: body)) =
      contentsFrom d true last body := by
  have hmark : recognize d ⟨.start, false, last⟩ '/' ('*' :: '!' :: (v ++ ' ' :: body)) =
      blockComment d ('!' :: (v ++ ' ' :: body)) false := rfl
  rw [blockComment_version hlength hdigits, if_pos hreached] at hmark
  have hdrop : ('*' :: '!' :: (v ++ ' ' :: body)).drop 7 = ' ' :: body := by
    rw [List.drop_succ_cons, List.drop_succ_cons, ← hlength, List.drop_left]
  rw [contentsFrom_of_silent silent_comment hmark, hdrop, contentsFrom_blank rfl]

/-- A version comment whose version is not reached is one lexeme. -/
theorem lexemes_unreached (hlength : v.length = 5) (hdigits : ∀ c ∈ v, c.isDigit = true)
    (hclose : ¬ ['*', '/'] <:+: body) (hunreached : d.version.number < decimalValue v) :
    lexemes d ('/' :: '*' :: '!' :: (v ++ ' ' :: (body ++ [' ', '*', '/']))) =
      [⟨some .comment, '/' :: '*' :: '!' :: (v ++ ' ' :: (body ++ [' ', '*', '/'])), .start⟩] := by
  have hversion : '*' ∉ '!' :: (v ++ [' ']) := by
    simp only [List.mem_cons, List.mem_append, List.not_mem_nil, or_false, not_or]
    refine ⟨by decide, fun hstar => ?_, by decide⟩
    have := hdigits _ hstar
    revert this
    decide
  -- the mark that closes the comment is the only one
  have hfind := find?_closing
    (not_infix_append hversion (not_infix_concat (c := ' ') (by decide) hclose)) []
  have hmark : recognize d .start '/' ('*' :: '!' :: (v ++ ' ' :: (body ++ [' ', '*', '/']))) =
      blockComment d ('!' :: (v ++ ' ' :: (body ++ [' ', '*', '/']))) false := rfl
  have hsplit : '!' :: (v ++ [' ']) ++ (body ++ [' ']) ++ ['*', '/'] =
      '!' :: (v ++ ' ' :: (body ++ [' ', '*', '/'])) := by simp
  rw [hsplit] at hfind
  rw [blockComment_version hlength hdigits, if_neg (Nat.not_le_of_lt hunreached), hfind] at hmark
  have htake : ('*' :: '!' :: (v ++ ' ' :: (body ++ [' ', '*', '/']))).take
      (('!' :: (v ++ [' ']) ++ (body ++ [' '])).length + 3) =
        '*' :: '!' :: (v ++ ' ' :: (body ++ [' ', '*', '/'])) :=
    List.take_of_length_le (by simp; omega)
  have hdrop : ('*' :: '!' :: (v ++ ' ' :: (body ++ [' ', '*', '/']))).drop
      (('!' :: (v ++ [' ']) ++ (body ++ [' '])).length + 3) = [] :=
    List.drop_of_length_le (by simp; omega)
  rw [lexemes, lexemesFrom, hmark]
  simp only [closed, Option.map_some]
  rw [lexemesFrom_pending, htake, hdrop, lexemesFrom]
  rfl

end Opening

/-- A body in a comment of a version. -/
def versionComment (version body : String) : String :=
  "/*!" ++ version ++ " " ++ body ++ " */"

theorem toList_versionComment (version body : String) :
    (versionComment version body).toList =
      '/' :: '*' :: '!' :: (version.toList ++ ' ' :: (body.toList ++ [' ', '*', '/'])) := by
  simp [versionComment]

end Token

open Token

/-- A version comment is read as its body when the server has reached its version. Otherwise
it is one comment, without events. -/
theorem tokenize_versionComment (d : Dialect) (v b : String) (hlength : v.toList.length = 5)
    (hdigits : ∀ c ∈ v.toList, c.isDigit = true) (hopen : ¬ ['/', '*'] <:+: b.toList)
    (hclose : ¬ ['*', '/'] <:+: b.toList) :
    (decimalValue v.toList ≤ d.version.number →
      contents (tokenize d (versionComment v b)) = contents (tokenize d (b ++ " "))) ∧
    (d.version.number < decimalValue v.toList →
      tokenEvents d (versionComment v b) = [] ∧
      ∃ comment last, tokenize d (versionComment v b) = [comment, last] ∧
        comment.kind = .comment ∧ comment.channel = .hidden ∧
        comment.text = versionComment v b ∧ comment.start = 0 ∧
        comment.stop + 1 = byteLength (versionComment v b).toList ∧ last.isEof = true) := by
  constructor
  · intro hreached
    have hbody : (b ++ " ").toList = b.toList ++ [' '] := by simp
    rw [contents_tokenize, contents_tokenize, toList_versionComment,
      contentsFrom_reached hlength hdigits hreached, contentsFrom_inComment _ hopen hclose, hbody]
  · intro hunreached
    have hlexemes := lexemes_unreached hlength hdigits hclose hunreached
    rw [← toList_versionComment] at hlexemes
    refine ⟨by rw [tokenEvents, hlexemes]; rfl, _, _, by rw [tokenize, hlexemes]; rfl,
      rfl, rfl, String.ofList_toList, rfl, ?_, rfl⟩
    have hpos : 0 < byteLength (versionComment v b).toList := by
      rw [toList_versionComment]
      exact byteLength_pos (List.cons_ne_nil _ _)
    simp only [ofLexeme, Position.start]
    omega

/-- A string that is not closed, behind a version that is reached and one that is not. -/
theorem tokenize_versionComment_unclosed :
    contents (tokenize Config.standard.dialect "/*!50701 select 'x */") =
        contents (tokenize Config.standard.dialect "select 'x ") ∧
      tokenEvents Config.standard.dialect "/*!99999 select 'x */" = [] := by
  have htext : versionComment "50701" "select 'x" = "/*!50701 select 'x */" := by decide
  have htext' : versionComment "99999" "select 'x" = "/*!99999 select 'x */" := by decide
  have hbody : "select 'x" ++ " " = "select 'x " := by decide
  have hopen : ¬ ['/', '*'] <:+: "select 'x".toList := by decide +kernel
  have hclose : ¬ ['*', '/'] <:+: "select 'x".toList := by decide +kernel
  have hreached := tokenize_versionComment Config.standard.dialect "50701" "select 'x"
    (by decide) (by simp) hopen hclose
  have hunreached := tokenize_versionComment Config.standard.dialect "99999" "select 'x"
    (by decide) (by simp) hopen hclose
  rw [← htext, ← htext', ← hbody]
  exact ⟨hreached.1 (by decide +kernel), (hunreached.2 (by decide +kernel)).1⟩

end MySqlAnalysis
