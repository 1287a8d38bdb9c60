import MySqlAnalysis.Proofs.Script.StatementSpans
import MySqlAnalysis.Proofs.Script.Stretches

/-!
# Directives between two scripts

A directive line ends the script in front of it and gives the script behind it another
delimiter: the statements of the whole are those of the two scripts, each read with its
own delimiter (`Script.statements_directive`). The pieces in front of the line do not
depend on what follows a line feed (`Script.piecesFrom_bare`), and the line feeds that
the directive takes from the second script are blanks there
(`Script.statementsOf_lineFeeds`).
-/

set_option autoImplicit false

namespace MySqlAnalysis.Script

open Text

/-- A text without quotes, comments and directives. -/
structure Bare (cs : List Char) : Prop where
  quote : ∀ c ∈ cs, isQuote c = false
  hash : '#' ∉ cs
  dashes : ¬ ['-', '-'] <:+: cs
  block : ¬ ['/', '*'] <:+: cs
  directive : ¬ directiveWord <:+: upper cs

theorem Bare.of_suffix {a cs : List Char} (h : Bare cs) (ha : a <:+ cs) : Bare a where
  quote c hc := h.quote c (ha.subset hc)
  hash hmem := h.hash (ha.subset hmem)
  dashes hword := h.dashes (hword.trans ha.isInfix)
  block hword := h.block (hword.trans ha.isInfix)
  directive hword := h.directive (hword.trans (ha.isInfix.map Char.toUpper))

/-! ### In front of a directive -/

/-- A word is not found across a character that it lacks. -/
theorem prefix_append_iff_of_not_mem {w x : List Char} {q : Char} (hx : q ∈ x) (hw : q ∉ w)
    (t : List Char) : w <+: x ++ t ↔ w <+: x := by
  constructor
  · intro h
    rcases List.prefix_or_prefix_of_prefix h (List.prefix_append x t) with hwx | hxw
    · exact hwx
    · exact absurd (hxw.subset hx) hw
  · exact fun h => h.trans (List.prefix_append x t)

section Bare

variable {s : Separators} {c : Char} {rest : List Char}

/-- A character of a bare text starts a delimiter, or it is a piece of its own. -/
theorem cut_of_bare (h : Bare (c :: rest)) (previous : Option Char) :
    cut s previous c rest =
      if s.delimiter.isPrefixOf (c :: rest) then ⟨.terminator, s.delimiter.length - 1⟩
      else ⟨if isPlainBlank c then .blank else .content, 0⟩ := by
  refine cut_of_plain (fun hp => h.block hp.isInfix) (fun hp => h.dashes hp.isInfix) ?_
    (h.quote c List.mem_cons_self) (fun hp => h.directive hp.isInfix)
  rintro rfl
  exact h.hash List.mem_cons_self

/-- The same in front of any text, when a line feed keeps them apart. -/
theorem cut_bare (h : Bare (c :: rest)) (hfeed : '\n' ∈ c :: rest) (previous : Option Char)
    (t : List Char) :
    cut s previous c (rest ++ t) =
      if s.delimiter.isPrefixOf (c :: (rest ++ t)) then ⟨.terminator, s.delimiter.length - 1⟩
      else ⟨if isPlainBlank c then .blank else .content, 0⟩ := by
  have hno : ∀ {a b : Char}, '\n' ∉ [a, b] → ¬ [a, b] <:+: c :: rest →
      ¬ [a, b] <+: c :: (rest ++ t) := fun hab hin hprefix =>
    hin ((prefix_append_iff_of_not_mem hfeed hab t).1 hprefix).isInfix
  have hword : ¬ directiveWord <+: upper (c :: (rest ++ t)) := by
    intro hprefix
    have hupper : '\n' ∈ upper (c :: rest) := List.mem_map.2 ⟨'\n', hfeed, by decide⟩
    have hsplit : upper (c :: (rest ++ t)) = upper (c :: rest) ++ upper t := by
      simp [upper]
    rw [hsplit, prefix_append_iff_of_not_mem hupper (by decide)] at hprefix
    exact h.directive hprefix.isInfix
  refine cut_of_plain (hno (by decide) h.block) (hno (by decide) h.dashes) ?_
    (h.quote c List.mem_cons_self) hword
  rintro rfl
  exact h.hash List.mem_cons_self

/-- The piece at the head of a bare text ends before the next line does. -/
theorem cut_bare_append (hd : '\n' ∉ s.delimiter) (h : Bare (c :: rest)) (hfeed : '\n' ∈ c :: rest)
    (previous : Option Char) (t : List Char) :
    ∃ role n, n ≤ rest.length ∧ s.after role = s ∧ cut s previous c rest = ⟨role, n⟩ ∧
      cut s previous c (rest ++ t) = ⟨role, n⟩ := by
  have hsame : s.delimiter.isPrefixOf (c :: (rest ++ t)) = s.delimiter.isPrefixOf (c :: rest) := by
    rw [Bool.eq_iff_iff, List.isPrefixOf_iff_prefix, List.isPrefixOf_iff_prefix]
    exact prefix_append_iff_of_not_mem hfeed hd t
  by_cases hprefix : s.delimiter.isPrefixOf (c :: rest) = true
  · refine ⟨.terminator, s.delimiter.length - 1, ?_, rfl, ?_, ?_⟩
    · have hle := (List.isPrefixOf_iff_prefix.1 hprefix).length_le
      rw [List.length_cons] at hle
      omega
    · rw [cut_of_bare h previous, if_pos hprefix]
    · rw [cut_bare h hfeed, hsame, if_pos hprefix]
  · refine ⟨if isPlainBlank c then .blank else .content, 0, Nat.zero_le _, ?_, ?_, ?_⟩
    · split <;> rfl
    · rw [cut_of_bare h previous, if_neg hprefix]
    · rw [cut_bare h hfeed, hsame, if_neg hprefix]

/-- Behind a line feed that ends a bare text the pieces start anew. -/
theorem piecesFrom_bare (hd : '\n' ∉ s.delimiter) {a : List Char} (h : Bare a)
    (hfeed : a.getLast? = some '\n') (previous : Option Char) (offset : Nat) (t : List Char) :
    piecesFrom s 0 previous offset (a ++ t) =
      piecesFrom s 0 previous offset a ++
        piecesFrom s 0 (some '\n') (offset + byteLength a) t := by
  -- piece by piece; none of them reaches beyond the line feed
  induction hlength : a.length using Nat.strong_induction_on generalizing a previous offset with
  | _ length ih =>
    subst hlength
    cases a with
    | nil => cases hfeed
    | cons c rest =>
        obtain ⟨role, n, hn, hafter, hcut, hcut'⟩ :=
          cut_bare_append hd h (List.mem_of_getLast? hfeed) previous t
        rw [List.cons_append, piecesFrom_of_cut_eq hcut', piecesFrom_of_cut_eq hcut, hafter,
          List.take_append_of_le_length hn, List.drop_append_of_le_length hn, List.cons_append]
        congr 1
        have hsplit : c :: rest = c :: rest.take n ++ rest.drop n := by
          rw [List.cons_append, List.take_append_drop]
        have hbytes : byteLength (c :: rest) =
            byteLength (c :: rest.take n) + byteLength (rest.drop n) := by
          rw [← byteLength_append, ← hsplit]
        rw [hsplit, List.getLast?_append] at hfeed
        rw [hbytes, ← Nat.add_assoc]
        by_cases hnil : rest.drop n = []
        · rw [hnil] at hfeed ⊢
          rw [show (c :: rest.take n).getLast? = some '\n' from hfeed]
          simp [piecesFrom]
        · refine ih _ (by rw [List.length_drop, List.length_cons]; omega)
            (h.of_suffix ((List.drop_suffix n rest).trans (List.suffix_cons c rest))) ?_ _ _ rfl
          have hlast := List.getLast?_eq_some_getLast hnil
          rw [hlast] at hfeed ⊢
          exact hfeed

end Bare

/-! ### The directive -/

theorem repeatLength_singleton (q : Char) (cs : List Char) :
    repeatLength [q] 0 cs = (cs.takeWhile (· == q)).length := by
  induction cs with
  | nil => rfl
  | cons c cs ih =>
      rw [repeatLength, List.isPrefixOf_cons_cons, List.isPrefixOf_nil_left, Bool.and_true,
        List.takeWhile_cons, Bool.beq_comm]
      split
      · exact congrArg (· + 1) ih
      · rfl

section Directive

variable {s : Separators} {previous : Option Char} {c : Char} {kw value b : List Char}

theorem cut_directive (hprevious : previous.any isIdentifierPart = false)
    (hkw : upper (c :: kw) = directiveWord) (rest : List Char) :
    cut s previous c (kw ++ rest) = cutDirective s.lineBreak (c :: kw ++ rest) := by
  have hhead : c.toUpper = 'D' := (List.cons.inj hkw).1
  have hne : ∀ {q : Char}, q.toUpper ≠ 'D' → (c == q) = false := by
    intro q hq
    rw [beq_eq_false_iff_ne]
    rintro rfl
    exact hq hhead
  have hquote : isQuote c = false := by
    simp only [isQuote, hne (q := apostrophe) (by decide),
      hne (q := quotationMark) (by decide), hne (q := backtick) (by decide), Bool.or_self]
  have hword : startsDirective previous (c :: (kw ++ rest)) = true := by
    have hprefix : directiveWord <+: upper (c :: (kw ++ rest)) := by
      rw [← hkw]
      exact (List.prefix_append (c :: kw) rest).map Char.toUpper
    rw [startsDirective_eq, hprevious, List.isPrefixOf_iff_prefix.2 hprefix]
    rfl
  unfold cut
  rw [hne (q := '/') (by decide), hne (q := '-') (by decide), hne (q := '#') (by decide), hquote,
    hword]
  rfl

theorem getLast?_lineFeeds (b : List Char) :
    ('\n' :: b.takeWhile (· == '\n')).getLast? = some '\n' := by
  have hfeeds : ∀ c ∈ '\n' :: b.takeWhile (· == '\n'), c = '\n' := by
    intro c hc
    rcases List.mem_cons.1 hc with rfl | hc
    · rfl
    · have hfeed := List.mem_takeWhile_imp hc
      exact beq_iff_eq.1 hfeed
  rw [List.getLast?_eq_some_getLast (List.cons_ne_nil _ _), hfeeds _ (List.getLast_mem _)]

/-- A directive takes its line and the line feeds behind it. -/
theorem piecesFrom_directive (hs : s.lineBreak = ['\n'])
    (hprevious : previous.any isIdentifierPart = false) (hkw : upper kw = directiveWord)
    (hvalue : '\n' ∉ value) (offset : Nat) :
    piecesFrom s 0 previous offset (kw ++ (value ++ '\n' :: b)) =
      ⟨.directive (trim value), offset, kw ++ (value ++ '\n' :: b.takeWhile (· == '\n'))⟩ ::
        piecesFrom (s.after (.directive (trim value))) 0 (some '\n')
          (offset + byteLength (kw ++ (value ++ '\n' :: b.takeWhile (· == '\n'))))
          (b.dropWhile (· == '\n')) := by
  obtain ⟨c, kw, rfl⟩ : ∃ c cs, kw = c :: cs := by
    refine List.exists_cons_of_ne_nil ?_
    rintro rfl
    exact absurd hkw (by decide)
  have hlength : (c :: kw).length = directiveWord.length := by
    rw [← hkw, upper, List.length_map]
  -- the value ends at its line feed, and the run behind it is all of the line feeds
  have hdirective : cutDirective ['\n'] (c :: kw ++ (value ++ '\n' :: b)) =
      ⟨.directive (trim value), kw.length + (value ++ '\n' :: b.takeWhile (· == '\n')).length⟩ := by
    rw [cutDirective, List.drop_left' hlength, find?_append_cons hvalue, Option.getD_some,
      List.take_left, List.drop_left, repeatLength_singleton, ← hlength]
    simp [Nat.add_assoc]
  have hcut := (cut_directive hprevious hkw (value ++ '\n' :: b)).trans (hs ▸ hdirective)
  have hsplit : kw ++ (value ++ '\n' :: b) =
      kw ++ (value ++ '\n' :: b.takeWhile (· == '\n')) ++ b.dropWhile (· == '\n') := by
    simp [List.takeWhile_append_dropWhile]
  rw [List.cons_append, piecesFrom_of_cut_eq hcut, hsplit, ← List.length_append, List.take_left,
    List.drop_left]
  have hlast : (c :: (kw ++ (value ++ '\n' :: b.takeWhile (· == '\n')))).getLast? = some '\n' := by
    rw [← List.cons_append, List.getLast?_append, List.getLast?_append, getLast?_lineFeeds]
    rfl
  rw [hlast]
  rfl

end Directive

/-! ### Behind a directive -/

/-- The line feeds that a script starts with belong to no statement. -/
theorem statementsOf_lineFeeds {s : Separators} (hd : s.delimiter ≠ [])
    (hfeed : '\n' ∉ s.delimiter) (offset : Nat) (b : List Char) :
    statementsOf (piecesFrom s 0 (some '\n') offset b) =
      statementsOf (piecesFrom s 0 (some '\n')
        (offset + byteLength (b.takeWhile (· == '\n'))) (b.dropWhile (· == '\n'))) := by
  induction b generalizing offset with
  | nil => rfl
  | cons c b ih =>
      by_cases hc : c = '\n'
      · subst hc
        have hdelimiter : ¬ s.delimiter <+: '\n' :: b := by
          intro hprefix
          obtain ⟨e, more, hmore⟩ := List.exists_cons_of_ne_nil hd
          rw [hmore, List.cons_prefix_cons] at hprefix
          rw [hmore, hprefix.1] at hfeed
          exact hfeed List.mem_cons_self
        rw [statementsOf_blank rfl hdelimiter, ih]
        simp [Nat.add_assoc]
      · have hne : (c == '\n') = false := beq_eq_false_iff_ne.2 hc
        rw [List.takeWhile_cons, List.dropWhile_cons, hne]
        rfl

/-! ### Both sides of a directive -/

theorem ofTexts_eq {d : String} (hd : d ≠ "") : Separators.ofTexts "\n" d = ⟨['\n'], d.toList⟩ := by
  have hempty : d.isEmpty = false := by simpa [String.isEmpty_iff] using hd
  rw [Separators.ofTexts, hempty]
  rfl

theorem after_directive {s : Separators} {d : List Char} (hd : d ≠ []) :
    s.after (.directive d) = { s with delimiter := d } := by
  simp [Separators.after, hd]

/-- The text in front of a directive keeps its pieces, and the directive is recognised. -/
theorem exists_piecesFrom_bare {s : Separators} {a : List Char} (hd : '\n' ∉ s.delimiter)
    (h : Bare a) (ha : a = [] ∨ a.getLast? = some '\n') (t : List Char) :
    ∃ previous : Option Char, previous.any isIdentifierPart = false ∧
      pieces s (a ++ t) = pieces s a ++ piecesFrom s 0 previous (byteLength a) t := by
  rcases ha with rfl | ha
  · exact ⟨none, rfl, rfl⟩
  · refine ⟨some '\n', rfl, ?_⟩
    rw [pieces, piecesFrom_bare hd h ha, Nat.zero_add]
    rfl

/-- The statements behind a line feed are those of a script that starts there. -/
theorem statementsOf_behind {d b : String} (hd : d ≠ "") (hfeed : '\n' ∉ d.toList) (n : Nat) :
    statementsOf (piecesFrom (.ofTexts "\n" d) 0 (some '\n')
        (n + byteLength (b.toList.takeWhile (· == '\n'))) (b.toList.dropWhile (· == '\n'))) =
      (statements (.ofTexts "\n" d) b).map (Statement.shift n) := by
  rw [ofTexts_eq hd, ← statementsOf_lineFeeds (by simpa using hd) hfeed, statements_eq, pieces,
    ← statementsOf_shift, ← piecesFrom_shift, Nat.zero_add]
  have hsame : startsDirective (some '\n') b.toList = startsDirective none b.toList := rfl
  rw [piecesFrom_previous hsame]

/-- A directive line ends the script in front of it, and the script behind it is read with the
delimiter that the line names. -/
theorem statements_directive (a kw v b d₀ : String) (hkw : upper kw.toList = directiveWord)
    (hv : '\n' ∉ v.toList) (hblank : trim v.toList ≠ []) (hd : d₀ ≠ "") (hfeed : '\n' ∉ d₀.toList)
    (ha : a = "" ∨ a.toList.getLast? = some '\n') (hbare : Bare a.toList) :
    statements (.ofTexts "\n" d₀) (a ++ kw ++ " " ++ v ++ "\n" ++ b) =
      statements (.ofTexts "\n" d₀) a ++
        (statements (.ofTexts "\n" (String.ofList (trim v.toList))) b).map
          (Statement.shift (byteLength (a ++ kw ++ " " ++ v ++ "\n").toList)) := by
  have hvalue : trim (' ' :: v.toList) = trim v.toList := rfl
  have htrim : '\n' ∉ trim v.toList := by
    obtain ⟨after, hafter⟩ := exists_trim v.toList
    intro hmem
    refine hv ?_
    rw [hafter]
    exact List.mem_append_left _ (List.mem_append_right _ hmem)
  have hnamed : String.ofList (trim v.toList) ≠ "" := by
    simpa [← String.toList_inj] using hblank
  have htext : (a ++ kw ++ " " ++ v ++ "\n" ++ b).toList =
      a.toList ++ (kw.toList ++ (' ' :: v.toList ++ '\n' :: b.toList)) := by
    simp
  obtain ⟨previous, hprevious, hpieces⟩ := exists_piecesFrom_bare (s := .ofTexts "\n" d₀)
    (by rwa [ofTexts_eq hd]) hbare (ha.imp_left (by simpa using ·))
    (kw.toList ++ (' ' :: v.toList ++ '\n' :: b.toList))
  have hfeed' : '\n' ∉ ' ' :: v.toList := by simpa using hv
  have hline := piecesFrom_directive (s := .ofTexts "\n" d₀) (b := b.toList) (by rw [ofTexts_eq hd])
    hprevious hkw hfeed' (byteLength a.toList)
  have hsep : (Separators.ofTexts "\n" d₀).after (.directive (trim v.toList)) =
      .ofTexts "\n" (String.ofList (trim v.toList)) := by
    rw [ofTexts_eq hd, ofTexts_eq hnamed, after_directive hblank, String.toList_ofList]
  -- the line feeds behind the line belong to the directive
  have hbytes : byteLength a.toList + byteLength
        (kw.toList ++ (' ' :: v.toList ++ '\n' :: b.toList.takeWhile (· == '\n'))) =
      byteLength (a ++ kw ++ " " ++ v ++ "\n").toList +
        byteLength (b.toList.takeWhile (· == '\n')) := by
    simp [Nat.add_assoc]
  rw [statements_eq, htext, hpieces, hline, statementsOf_append rfl, hvalue, hsep, ← statements_eq,
    hbytes, statementsOf_behind hnamed (by rwa [String.toList_ofList])]

/-- A semicolon ends a statement in front of the line and is text behind it. -/
theorem statements_directive_dollars :
    statements (.ofTexts "\n" ";") ("a;b\n" ++ "DeLimiter" ++ " " ++ "$$ " ++ "\n" ++ "\n;c$$d") =
      [⟨"a", 0, 1⟩, ⟨"b", 2, 3⟩, ⟨";c", 19, 21⟩, ⟨"d", 23, 24⟩] := by
  rw [statements_directive "a;b\n" "DeLimiter" "$$ " "\n;c$$d" ";" (by decide) (by decide)
    (by decide) (by decide) (by decide) (.inr (by decide))
    ⟨by simp; decide, by decide, by decide, by decide, by decide⟩]
  decide +kernel

end MySqlAnalysis.Script
