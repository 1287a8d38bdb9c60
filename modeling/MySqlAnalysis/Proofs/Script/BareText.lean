import MySqlAnalysis.Proofs.Script.Directives

/-!
# Scripts without quotes, comments and directives

The statements of a bare text are its parts between the delimiters, trimmed and without
the empty ones (`Script.statements_bare`). Up to the leftmost delimiter every character is
a piece of its own (`Script.exists_piecesFrom_bare_append`), and these pieces are content
or white space, so that they make up the trimmed part (`Script.statement?_plain`).
-/

set_option autoImplicit false

namespace MySqlAnalysis

open Text

/-- The trimmed text of a part of a script, at its offsets. -/
def Text.Part.trimmed (p : Part) : Statement :=
  let start := p.start + byteLength (p.text.takeWhile isWhiteSpace)
  ⟨String.ofList (trim p.text), start, start + byteLength (trim p.text)⟩

namespace Script

/-! ### Pieces of a part -/

/-- Pieces that end nothing and are white space where they are no content. -/
def Plain (ps : List Piece) : Prop :=
  ∀ p ∈ ps, p.role.endsStatement = false ∧
    (p.role ≠ .content → ∀ c ∈ p.text, isWhiteSpace c = true)

section Plain

variable {offset : Nat} {ps : List Piece} {cs : List Char}

/-- The pieces in front of the content are left out of a statement; as white space they would be
trimmed in any case. -/
theorem statement?_plain (hrow : Row offset ps cs) (h : Plain ps) :
    statement? ps = Statement.ofRegion? offset cs := by
  induction hrow with
  | nil => rfl
  | @cons p ps rest hp hrow ih =>
      obtain ⟨hfirst, hrest⟩ := List.forall_mem_cons.1 h
      by_cases hcontent : p.role = .content
      · rw [statement?_cons hcontent, List.flatMap_cons, hrow.flatMap_text]
      · have hdrop : (p.role != .content) = true := bne_iff_ne.2 hcontent
        have hskip : statement? (p :: ps) = statement? ps := by
          rw [statement?, List.dropWhile_cons, hdrop]
          rfl
        rw [hskip, ih hrest, ofRegion?_white (hfirst.2 hcontent)]

theorem statementsOf_plain (hrow : Row offset ps cs) (h : Plain ps) :
    statementsOf ps = (Statement.ofRegion? offset cs).toList := by
  have hone : sections ps = [ps] := by
    have hall : sections (ps ++ []) = [ps ++ []] := sections_append (fun p hp => (h p hp).1) rfl
    rwa [List.append_nil] at hall
  rw [statementsOf, hone, List.filterMap_cons, statement?_plain hrow h]
  cases Statement.ofRegion? offset cs <;> rfl

end Plain

/-! ### Bare texts -/

section Bare

variable {s : Separators}

/-- In front of the leftmost delimiter there are plain pieces. -/
theorem exists_piecesFrom_bare_append {a t : List Char} (h : Bare (a ++ t))
    (hfirst : ∀ m < a.length, ¬ s.delimiter <+: (a ++ t).drop m) (previous : Option Char)
    (offset : Nat) :
    ∃ ps previous', Row offset ps a ∧ Plain ps ∧
      piecesFrom s 0 previous offset (a ++ t) =
        ps ++ piecesFrom s 0 previous' (offset + byteLength a) t := by
  induction a generalizing previous offset with
  | nil => exact ⟨[], previous, .nil offset, fun p hp => absurd hp List.not_mem_nil, rfl⟩
  | cons c a ih =>
      -- the delimiter does not start here, so a single character is cut off
      have hcut : cut s previous c (a ++ t) = ⟨if isPlainBlank c then .blank else .content, 0⟩ := by
        rw [List.cons_append] at h hfirst
        rw [cut_of_bare h, if_neg]
        rw [List.isPrefixOf_iff_prefix]
        exact hfirst 0 (Nat.zero_lt_succ _)
      obtain ⟨previous₁, hpieces⟩ := piecesFrom_of_cut hcut offset
      obtain ⟨ps, previous₂, hrow, hplain, hrest⟩ := ih (h.of_suffix (List.suffix_cons c (a ++ t)))
        (fun m hm => hfirst (m + 1) (Nat.succ_lt_succ hm)) previous₁ (offset + byteLength [c])
      have hsame : s.after (if isPlainBlank c then .blank else .content) = s := by
        split <;> rfl
      rw [hsame] at hpieces
      refine ⟨⟨if isPlainBlank c then .blank else .content, offset, [c]⟩ :: ps, previous₂,
        .cons (p := ⟨_, offset, [c]⟩) (List.cons_ne_nil c []) hrow,
        List.forall_mem_cons.2 ⟨?_, hplain⟩, ?_⟩
      · by_cases hc : isPlainBlank c = true
        · rw [if_pos hc]
          exact ⟨rfl, fun _ => List.forall_mem_singleton.2 (isWhiteSpace_of_isPlainBlank hc)⟩
        · rw [if_neg hc]
          exact ⟨rfl, fun hne => absurd rfl hne⟩
      · have hbytes : offset + byteLength [c] + byteLength a = offset + byteLength (c :: a) := by
          simp [Nat.add_assoc]
        rw [← hbytes]
        exact hpieces.trans (congrArg _ hrest)

/-- A delimiter at the head of a bare text is a piece. -/
theorem exists_piecesFrom_delimiter {t : List Char} (hd : s.delimiter ≠ [])
    (h : Bare (s.delimiter ++ t)) (previous : Option Char) (offset : Nat) :
    ∃ previous', piecesFrom s 0 previous offset (s.delimiter ++ t) =
      ⟨.terminator, offset, s.delimiter⟩ ::
        piecesFrom s 0 previous' (offset + byteLength s.delimiter) t := by
  obtain ⟨c, more, hmore⟩ := List.exists_cons_of_ne_nil hd
  have hcut : cut s previous c (more ++ t) = ⟨.terminator, more.length⟩ := by
    rw [hmore, List.cons_append] at h
    rw [cut_of_bare h, if_pos]
    · rw [hmore]
      rfl
    · rw [List.isPrefixOf_iff_prefix, hmore]
      exact List.prefix_append _ _
  obtain ⟨previous', hpieces⟩ := piecesFrom_of_cut hcut offset
  rw [List.take_left, List.drop_left] at hpieces
  refine ⟨previous', ?_⟩
  rw [hmore]
  exact hpieces

/-- The statements of a bare text are those of its parts between the delimiters. -/
theorem statementsOf_bare (hd : s.delimiter ≠ []) {cs : List Char} (h : Bare cs)
    (previous : Option Char) (offset : Nat) :
    statementsOf (piecesFrom s 0 previous offset cs) =
      (parts s.delimiter hd offset cs).filterMap fun p => Statement.ofRegion? p.start p.text := by
  -- part by part, each with the delimiter behind it
  fun_induction parts s.delimiter hd offset cs generalizing previous with
  | case1 offset cs hnone =>
      have hbare : Bare (cs ++ []) := by rwa [List.append_nil]
      have hfirst : ∀ m < cs.length, ¬ s.delimiter <+: (cs ++ []).drop m := by
        intro m _ hthere
        rw [List.append_nil] at hthere
        exact find?_eq_none_iff.1 hnone (hthere.isInfix.trans (List.drop_suffix m cs).isInfix)
      obtain ⟨ps, _, hrow, hplain, hpieces⟩ :=
        exists_piecesFrom_bare_append hbare hfirst previous offset
      rw [List.append_nil, piecesFrom, List.append_nil] at hpieces
      rw [hpieces, statementsOf_plain hrow hplain]
      cases hregion : Statement.ofRegion? offset cs <;> simp [hregion]
  | case2 offset cs n hsome ih =>
      have hsplit := append_of_find? hsome
      rw [hsplit] at h
      have hbehind : Bare (s.delimiter ++ cs.drop (n + s.delimiter.length)) :=
        h.of_suffix (List.suffix_append _ _)
      have hfirst : ∀ m < (cs.take n).length, ¬ s.delimiter <+:
          (cs.take n ++ (s.delimiter ++ cs.drop (n + s.delimiter.length))).drop m := by
        intro m hm
        rw [← hsplit]
        exact (find?_eq_some_iff.1 hsome).2 m (Nat.lt_of_lt_of_le hm (List.length_take_le n cs))
      obtain ⟨ps, previous₁, hrow, hplain, hpieces⟩ :=
        exists_piecesFrom_bare_append h hfirst previous offset
      obtain ⟨previous₂, hterminator⟩ :=
        exists_piecesFrom_delimiter hd hbehind previous₁ (offset + byteLength (cs.take n))
      rw [← hsplit, hterminator] at hpieces
      rw [hpieces, statementsOf_append rfl, statementsOf_plain hrow hplain, Nat.add_assoc,
        ← byteLength_append, ih (hbehind.of_suffix (List.suffix_append _ _)), List.filterMap_cons]
      cases Statement.ofRegion? offset (cs.take n) <;> rfl

end Bare

theorem filterMap_ofRegion? (ps : List Part) :
    (ps.filterMap fun p => Statement.ofRegion? p.start p.text) =
      (ps.filter fun p => !(trim p.text).isEmpty).map Part.trimmed := by
  induction ps with
  | nil => rfl
  | cons p ps ih =>
      rw [List.filterMap_cons, List.filter_cons, ih]
      by_cases hempty : (trim p.text).isEmpty = true
      · simp [Statement.ofRegion?, hempty]
      · simp [Statement.ofRegion?, hempty, Part.trimmed]

/-- The statements of a text without quotes, comments and directives are its parts between the
delimiters, trimmed and without the empty ones. -/
theorem statements_bare (lineBreak delimiter text : String) (hd : delimiter.toList ≠ [])
    (h : Bare text.toList) :
    statements (.ofTexts lineBreak delimiter) text =
      ((parts delimiter.toList hd 0 text.toList).filter fun p => !(trim p.text).isEmpty).map
        Part.trimmed := by
  have hempty : delimiter.isEmpty = false := by
    rw [Bool.eq_false_iff]
    intro hempty
    rw [String.isEmpty_iff.1 hempty] at hd
    exact hd rfl
  have hdelimiter : (Separators.ofTexts lineBreak delimiter).delimiter = delimiter.toList := by
    rw [Separators.ofTexts, hempty]
    rfl
  have hstatements := statementsOf_bare (s := .ofTexts lineBreak delimiter)
    (by rwa [hdelimiter]) h none 0
  simp only [hdelimiter] at hstatements
  rw [statements_eq, pieces, hstatements, filterMap_ofRegion?]

/-- A delimiter that overlaps itself. -/
theorem statements_bare_dollars :
    statements (.ofTexts "\n" "$$") "a$$$ é$$ \u00a0$$$$b" =
      [⟨"a", 0, 1⟩, ⟨"$ é", 3, 7⟩, ⟨"b", 16, 17⟩] := by
  rw [statements_bare "\n" "$$" _ (by decide)
    ⟨by simp; decide, by decide, by decide, by decide, by decide⟩]
  decide +kernel

end Script

end MySqlAnalysis
