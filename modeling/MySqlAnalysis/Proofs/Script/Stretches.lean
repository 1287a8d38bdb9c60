import MySqlAnalysis.Proofs.Script.Regular
import MySqlAnalysis.Proofs.Script.Rows
import MySqlAnalysis.Proofs.Token.Regions

/-!
# Stretches of a script

The stretches of a regular text that the tokens of the text take as one are pieces of
its script as well: blanks and comments are one piece without content
(`Script.Idle`), everything else is a row of pieces with content (`Script.Live`). A
quoted region with doubled quotes is a row of quoted regions to a script, so that both
end at the same quote.
-/

set_option autoImplicit false

namespace MySqlAnalysis.Script

open Text Token

/-- A line feed ends a line and a semicolon a statement. -/
def plainSeparators : Separators :=
  ⟨['\n'], [';']⟩

theorem ofTexts_eq_plainSeparators : Separators.ofTexts "\n" ";" = plainSeparators := by
  decide

/-! ### The first piece -/

section Cut

variable {c : Char} {rest : List Char}

/-- Both ask the same of two dashes. -/
theorem dashes_eq (h : Regular (c :: rest)) :
    (c == '-' && rest.head? == some '-' && dashesStartComment ['\n'] rest.tail) =
      (c == '-' && startsDashComment rest) := by
  have htail : Regular rest.tail := h.of_cons.of_infix (List.tail_suffix rest).isInfix
  rw [htail.dashesStartComment_eq, startsDashComment, Bool.and_assoc]

theorem cut_blank (h : Regular (c :: rest)) (hc : isBlank c = true) (previous : Option Char) :
    cut plainSeparators previous c rest = ⟨.blank, 0⟩ := by
  rw [← h.isPlainBlank_eq List.mem_cons_self] at hc
  unfold cut
  rw [h.startsDirective_eq_false, hc]
  simp only [isPlainBlank, Bool.or_eq_true, beq_iff_eq] at hc
  rcases hc with (((rfl | rfl) | rfl) | rfl) | rfl <;> rfl

theorem cut_content (h : Regular (c :: rest)) (hblank : isBlank c = false)
    (hline : startsLineComment c rest = false)
    (hblock : (c == '/' && rest.head? == some '*') = false) (hquote : isQuote c = false)
    (hc : c ≠ ';') (previous : Option Char) :
    cut plainSeparators previous c rest = ⟨.content, 0⟩ := by
  simp only [startsLineComment, Bool.or_eq_false_iff] at hline
  have hdelimiter : [';'].isPrefixOf (c :: rest) = false := by
    rw [List.isPrefixOf_cons_cons]
    simp [Ne.symm hc]
  unfold cut plainSeparators
  dsimp only
  rw [hblock, dashes_eq h, hline.1, hline.2, hquote, h.startsDirective_eq_false, hdelimiter,
    h.isPlainBlank_eq List.mem_cons_self, hblank]
  rfl

theorem cut_lineComment (h : Regular (c :: rest)) (hline : startsLineComment c rest = true)
    (previous : Option Char) :
    cut plainSeparators previous c rest = ⟨.comment, lineLength ['\n'] (c :: rest) - 1⟩ := by
  have hcases : c = '#' ∨ c = '-' ∧ startsDashComment rest = true := by
    simpa [startsLineComment] using hline
  rcases hcases with rfl | ⟨rfl, hdashes⟩
  · rfl
  · unfold cut plainSeparators
    dsimp only
    rw [dashes_eq h, hdashes]
    rfl

theorem cut_blockComment {body : List Char} (hbody : body.head? ≠ some '!')
    (previous : Option Char) :
    cut plainSeparators previous '/' ('*' :: body) =
      ⟨.comment, blockCommentExtra ('*' :: body)⟩ := by
  have hplain : (body.head? == some '!') = false := beq_eq_false_iff_ne.2 hbody
  unfold cut
  rw [List.tail_cons, hplain]
  rfl

theorem cut_quote (hc : isQuote c = true) (previous : Option Char) :
    cut plainSeparators previous c rest = ⟨.content, quotedExtra c rest⟩ := by
  rcases isQuote_cases hc with rfl | rfl | rfl <;> rfl

theorem cut_semicolon (h : Regular (';' :: rest)) (previous : Option Char) :
    cut plainSeparators previous ';' rest = ⟨.terminator, 0⟩ := by
  unfold cut
  rw [h.startsDirective_eq_false]
  rfl

end Cut

/-! ### Going through a script -/

/-- In front of `t`, the text `u` is a piece without content. -/
def Idle (u t : List Char) : Prop :=
  ∀ previous offset, ∃ previous' role, (role = .blank ∨ role = .comment) ∧
    piecesFrom plainSeparators 0 previous offset (u ++ t) =
      ⟨role, offset, u⟩ :: piecesFrom plainSeparators 0 previous' (offset + byteLength u) t

/-- In front of `t`, the text `u` is a row of pieces with content. -/
def Live (u t : List Char) : Prop :=
  ∀ previous offset, ∃ previous' ps, ps.flatMap Piece.text = u ∧
    (∀ p ∈ ps, p.role = .content) ∧
    piecesFrom plainSeparators 0 previous offset (u ++ t) =
      ps ++ piecesFrom plainSeparators 0 previous' (offset + byteLength u) t

theorem Idle.of_cut {c : Char} {rest : List Char} {role : Role} {n : Nat}
    (hrole : role = .blank ∨ role = .comment)
    (hcut : ∀ previous, cut plainSeparators previous c rest = ⟨role, n⟩) :
    Idle (c :: rest.take n) (rest.drop n) := by
  intro previous offset
  obtain ⟨previous', hpieces⟩ := piecesFrom_of_cut (hcut previous) offset
  refine ⟨previous', role, hrole, ?_⟩
  rw [List.cons_append, List.take_append_drop, hpieces]
  rcases hrole with rfl | rfl <;> rfl

namespace Live

theorem nil (t : List Char) : Live [] t :=
  fun previous _ => ⟨previous, [], rfl, by simp, rfl⟩

theorem of_cut {c : Char} {rest : List Char} {n : Nat}
    (hcut : ∀ previous, cut plainSeparators previous c rest = ⟨.content, n⟩) :
    Live (c :: rest.take n) (rest.drop n) := by
  intro previous offset
  obtain ⟨previous', hpieces⟩ := piecesFrom_of_cut (hcut previous) offset
  refine ⟨previous', [⟨.content, offset, c :: rest.take n⟩], by simp, by simp, ?_⟩
  rw [List.cons_append, List.take_append_drop, hpieces]
  rfl

theorem append {u v t : List Char} (hu : Live u (v ++ t)) (hv : Live v t) :
    Live (u ++ v) t := by
  intro previous offset
  obtain ⟨previous₁, ps, hps, hrole, hpieces⟩ := hu previous offset
  obtain ⟨previous₂, qs, hqs, hrole', hpieces'⟩ := hv previous₁ (offset + byteLength u)
  refine ⟨previous₂, ps ++ qs, by simp [hps, hqs], ?_, ?_⟩
  · exact List.forall_mem_append.2 ⟨hrole, hrole'⟩
  · rw [List.append_assoc, hpieces, hpieces', byteLength_append, List.append_assoc, Nat.add_assoc]

theorem cons {c : Char} {u t : List Char}
    (hcut : ∀ previous, cut plainSeparators previous c (u ++ t) = ⟨.content, 0⟩) (hu : Live u t) :
    Live (c :: u) t :=
  append (of_cut hcut) hu

end Live

/-! ### Words, numbers and operators -/

theorem live_ordinary {c : Char} {u t : List Char} (h : Regular (c :: (u ++ t)))
    (hc : isOrdinary c = true) (hu : Live u t) : Live (c :: u) t := by
  simp only [isOrdinary, isBreak, Bool.and_eq_true, Bool.not_eq_true', bne_iff_ne,
    Bool.or_eq_false_iff, beq_eq_false_iff_ne] at hc
  obtain ⟨⟨⟨⟨⟨hsemicolon, hblank⟩, hslash⟩, hdash⟩, hhash⟩, hquote⟩ := hc
  exact .cons (cut_content h hblank (by simp [startsLineComment, hdash, hhash])
    (by simp [hslash]) hquote hsemicolon) hu

theorem live_smooth {u t : List Char} (hu : Smooth u) (h : Regular (u ++ t)) : Live u t := by
  induction hu with
  | nil => exact .nil t
  | cons hc _ ih => exact live_ordinary h hc (ih h.of_cons)
  | @dash c cs hc _ ih =>
      refine .cons (cut_content h rfl ?_ rfl rfl (by decide))
        (live_ordinary h.of_cons hc (ih h.of_cons.of_cons))
      -- the character after the dash is no dash
      have hne : c ≠ '-' := by
        rintro rfl
        cases hc
      simp [startsLineComment, startsDashComment, hne]

theorem live_solid {c : Char} {rest : List Char} {n : Nat} (h : Regular (c :: rest))
    (hsolid : Solid c rest) (hc : c ≠ ';') (hn : Takes n rest) :
    Live (c :: rest.take n) (rest.drop n) := by
  have hsplit := List.take_append_drop n rest
  refine .cons ?_ (live_smooth hn.2 (by rw [hsplit]; exact h.of_cons))
  rw [hsplit]
  exact cut_content h hsolid.blank hsolid.lineComment hsolid.blockComment hsolid.quote hc

/-! ### Quotes -/

theorem getD_map_add (o : Option Nat) (n k : Nat) :
    (o.map (· + k)).getD (n + k) = o.getD n + k := by
  cases o <;> rfl

/-- The quote that closes a region for a script either closes it, or it is doubled. -/
theorem closeQuote_eq_quotedExtra {q : Char} {escapes : Bool} {body : List Char}
    (h : escapes = true ∨ backslash ∉ body) :
    (closeQuote q escapes body).getD body.length = quotedExtra q body ∨
      ∃ body', body.drop (quotedExtra q body) = q :: body' ∧
        (closeQuote q escapes body).getD body.length =
          quotedExtra q body + (1 + (closeQuote q escapes body').getD body'.length) := by
  fun_induction quotedExtra q body with
  | case1 => exact .inl rfl
  | case2 c =>
      refine .inl ?_
      rw [closeQuote]
      split
      · rfl
      · split <;> rfl
  | case3 c e cs hslash ih =>
      -- the escape is seen by both
      have hescapes : escapes = true :=
        h.resolve_right fun hmem => hmem (by simp [beq_iff_eq.1 hslash])
      rw [closeQuote, hescapes, hslash, Bool.and_true, if_pos rfl, List.length_cons,
        List.length_cons, getD_map_add]
      rw [hescapes] at ih
      rcases ih (.inl rfl) with heq | ⟨body', hdrop, heq⟩
      · exact .inl (by rw [heq])
      · exact .inr ⟨body', hdrop, by omega⟩
  | case4 c e cs hslash hquote =>
      rw [Bool.not_eq_true] at hslash
      rw [closeQuote, hslash, Bool.and_false, if_neg Bool.false_ne_true, if_pos hquote]
      split
      case isTrue hdouble =>
        -- the second quote opens the next region of the script
        rw [List.length_cons, List.length_cons, getD_map_add]
        exact .inr ⟨cs, by simp [beq_iff_eq.1 hdouble], by omega⟩
      case isFalse => exact .inl rfl
  | case5 c e cs hslash hquote ih =>
      rw [Bool.not_eq_true] at hslash
      rw [closeQuote, hslash, Bool.and_false, if_neg Bool.false_ne_true, if_neg hquote,
        List.length_cons, getD_map_add]
      rcases ih (h.imp_right fun hmem hcs => hmem (List.mem_cons_of_mem c hcs)) with
        heq | ⟨body', hdrop, heq⟩
      · exact .inl (by rw [heq])
      · exact .inr ⟨body', hdrop, by omega⟩

theorem find?_cons_of_ne {q c : Char} (h : c ≠ q) (cs : List Char) :
    find? [q] (c :: cs) = (find? [q] cs).map (· + 1) := by
  have hne : (q == c) = false := beq_eq_false_iff_ne.2 (Ne.symm h)
  rw [find?, List.isPrefixOf_cons_cons, hne]
  rfl

theorem find?_append_cons {q : Char} {a : List Char} (ha : q ∉ a) (t : List Char) :
    find? [q] (a ++ q :: t) = some a.length := by
  induction a with
  | nil => simp [find?]
  | cons c a ih =>
      rw [List.mem_cons, not_or] at ha
      rw [List.cons_append, find?_cons_of_ne (Ne.symm ha.1), ih ha.2]
      rfl

theorem find?_eq_none {q : Char} {a : List Char} (ha : q ∉ a) : find? [q] a = none := by
  rwa [find?_eq_none_iff, List.singleton_infix_iff]

/-- Without escapes, a script looks for the next quote. -/
theorem quotedExtra_eq_find? {q : Char} {body : List Char} (h : backslash ∉ body) :
    quotedExtra q body = ((find? [q] body).map (· + 1)).getD body.length := by
  fun_induction quotedExtra q body with
  | case1 => rfl
  | case2 c =>
      rw [find?]
      split <;> rfl
  | case3 c e cs hslash => exact absurd (by simp [beq_iff_eq.1 hslash]) h
  | case4 c e cs _ hquote => simp [find?, beq_iff_eq.1 hquote]
  | case5 c e cs _ hquote ih =>
      have hne : c ≠ q := by simpa using hquote
      rw [ih fun hmem => h (List.mem_cons_of_mem c hmem), find?_cons_of_ne hne, ← getD_map_add]
      rfl

/-- A quoted region with doubled quotes is a row of quoted regions. -/
theorem live_quoted {q : Char} (hq : isQuote q = true) {escapes : Bool} {body : List Char}
    (h : escapes = true ∨ backslash ∉ body) :
    Live (q :: body.take ((closeQuote q escapes body).getD body.length))
      (body.drop ((closeQuote q escapes body).getD body.length)) := by
  -- region by region of the script, up to the quote that is not doubled
  induction hlength : body.length using Nat.strong_induction_on generalizing body with
  | _ length ih =>
    subst hlength
    rcases closeQuote_eq_quotedExtra h with heq | ⟨body', hdrop, heq⟩
    · rw [heq]
      exact .of_cut (cut_quote hq)
    · have hsplit := List.take_append_drop (quotedExtra q body) body
      have hshorter : body'.length < body.length := by
        rw [← hsplit, hdrop]
        simp
        omega
      have hmem : ∀ c ∈ body', c ∈ body := by
        intro c hc
        rw [← hsplit, hdrop]
        simp [hc]
      have hrest := ih body'.length hshorter (h.imp_right fun hbody hc => hbody (hmem _ hc)) rfl
      have hfirst : Live (q :: body.take (quotedExtra q body)) (body.drop (quotedExtra q body)) :=
        .of_cut (cut_quote hq)
      rw [hdrop, ← List.take_append_drop ((closeQuote q escapes body').getD body'.length) body']
        at hfirst
      rw [heq, List.take_add, ← List.drop_drop, hdrop, Nat.add_comm 1, List.take_succ_cons,
        List.drop_succ_cons]
      exact hfirst.append hrest

/-- A region in which quotes are not doubled. -/
theorem live_digits {q : Char} (hq : isQuote q = true) {body : List Char}
    (h : backslash ∉ body) :
    Live (q :: body.take (((find? [q] body).map (· + 1)).getD body.length))
      (body.drop (((find? [q] body).map (· + 1)).getD body.length)) := by
  rw [← quotedExtra_eq_find? h]
  exact .of_cut (cut_quote hq)

/-! ### Comments -/

theorem idle_blank {c : Char} {rest : List Char} (h : Regular (c :: rest))
    (hc : isBlank c = true) : Idle [c] rest :=
  .of_cut (.inl rfl) (cut_blank h hc)

theorem idle_blockComment {body : List Char} (hbody : body.head? ≠ some '!') :
    Idle ('/' :: '*' :: body.take (((find? ['*', '/'] body).map (· + 2)).getD body.length))
      (body.drop (((find? ['*', '/'] body).map (· + 2)).getD body.length)) := by
  have hextra : blockCommentExtra ('*' :: body) =
      ((find? ['*', '/'] body).map (· + 2)).getD body.length + 1 := by
    rw [blockCommentExtra, List.tail_cons]
    cases find? ['*', '/'] body <;> rfl
  have hidle := Idle.of_cut (.inr rfl) (cut_blockComment hbody)
  rwa [hextra, List.take_succ_cons, List.drop_succ_cons] at hidle

theorem ne_of_startsLineComment {c : Char} {rest : List Char}
    (hc : startsLineComment c rest = true) : c ≠ '\n' := by
  rintro rfl
  cases isBlank_of_startsLineComment hc

theorem lineLength_comment {c : Char} {body : List Char} (hc : c ≠ '\n') (h : '\n' ∉ body)
    (t : List Char) : lineLength ['\n'] (c :: (body ++ '\n' :: t)) - 1 = body.length + 1 := by
  have hline : '\n' ∉ c :: body := by simp [Ne.symm hc, h]
  rw [lineLength, ← List.cons_append, find?_append_cons hline]
  rfl

/-- A line comment takes its line feed with it. -/
theorem idle_lineComment {c : Char} {a t : List Char} (h : Regular (c :: (a ++ '\n' :: t)))
    (hc : startsLineComment c (a ++ '\n' :: t) = true) (ha : '\n' ∉ a) :
    Idle (c :: (a ++ ['\n'])) t := by
  have hsplit : a ++ '\n' :: t = a ++ ['\n'] ++ t := by simp
  have hidle := Idle.of_cut (.inr rfl) (cut_lineComment h hc)
  rwa [lineLength_comment (ne_of_startsLineComment hc) ha, hsplit, List.take_left' (by simp),
    List.drop_left' (by simp)] at hidle

theorem idle_lineComment_end {c : Char} {rest : List Char} (h : Regular (c :: rest))
    (hc : startsLineComment c rest = true) (hrest : '\n' ∉ rest) : Idle (c :: rest) [] := by
  have hline : lineLength ['\n'] (c :: rest) - 1 = rest.length := by
    rw [lineLength, find?_cons_of_ne (ne_of_startsLineComment hc), find?_eq_none hrest]
    rfl
  have hidle := Idle.of_cut (.inr rfl) (cut_lineComment h hc)
  rwa [hline, List.take_length, List.drop_length] at hidle

/-! ### Regions -/

section Regions

variable {d : Dialect} {opening body : List Char} {close : List Char → Option Nat}
  {kind : TokenKind}

theorem hasEscapes_or (hd : d.mode.has .noBackslashEscapes = false) {q : Char}
    (h : Regular (opening ++ body)) (hq : q ∈ opening) :
    hasEscapes d q = true ∨ backslash ∉ body := by
  by_cases htick : q = backtick
  · refine .inr fun hslash => ?_
    have hno := (h.escape (List.mem_append_right _ hslash)).1
    exact hno (List.mem_append_left _ (htick ▸ hq))
  · exact .inl (by simp [hasEscapes, htick, hd])

theorem not_mem_of_mark {mark : Char} (hmark : mark ∈ ['x', 'X', 'b', 'B'])
    (h : Regular ([mark, apostrophe] ++ body)) : backslash ∉ body := fun hslash =>
  (h.escape (List.mem_append_right _ hslash)).2 mark hmark
    (List.prefix_append [mark, apostrophe] body).isInfix

/-- A mark in front of a quote is a piece of its own. -/
theorem live_marked {mark q : Char} (hmark : mark ∈ '@' :: stringMarks) {n : Nat}
    (h : Regular ([mark, q] ++ body)) (hu : Live (q :: body.take n) (body.drop n)) :
    Live ([mark, q] ++ body.take n) (body.drop n) := by
  have hordinary : ∀ m ∈ '@' :: stringMarks, isOrdinary m = true :=
    List.all_eq_true.1 rfl
  have hsplit : Regular (mark :: (q :: body.take n ++ body.drop n)) := by
    rwa [List.cons_append, List.take_append_drop]
  exact live_ordinary hsplit (hordinary mark hmark) hu

/-- A region is a comment without content, or a row of pieces with content. -/
theorem idle_or_live_region (hd : d.mode.has .noBackslashEscapes = false)
    (hregion : Region d opening close kind) (h : Regular (opening ++ body)) :
    Silent (some kind) ∧ Idle (opening ++ body.take ((close body).getD body.length))
        (body.drop ((close body).getD body.length)) ∨
      Live (opening ++ body.take ((close body).getD body.length))
        (body.drop ((close body).getD body.length)) := by
  have hmarks : ['x', 'X', 'b', 'B'] ⊆ '@' :: stringMarks := by simp [stringMarks]
  have hnational : ['n', 'N'] ⊆ '@' :: stringMarks := by simp [stringMarks]
  cases hregion with
  | comment =>
      -- a regular text has no version comments, so nothing in the comment counts
      have hbody : body.head? ≠ some '!' := by
        rw [Ne, List.head?_eq_some_iff]
        rintro ⟨rest, rfl⟩
        exact h.versionComment (List.prefix_append ['/', '*', '!'] rest).isInfix
      exact .inl ⟨silent_comment, idle_blockComment hbody⟩
  | quoted hq =>
      exact .inr (live_quoted hq (hasEscapes_or hd h List.mem_cons_self))
  | @hex mark hm =>
      have hm' : mark ∈ ['x', 'X', 'b', 'B'] := List.mem_append_left ['b', 'B'] hm
      exact .inr (live_marked (hmarks hm') h
        (live_digits (by decide) (not_mem_of_mark hm' h)))
  | @binary mark hm =>
      have hm' : mark ∈ ['x', 'X', 'b', 'B'] := List.mem_append_right ['x', 'X'] hm
      exact .inr (live_marked (hmarks hm') h
        (live_digits (by decide) (not_mem_of_mark hm' h)))
  | @national mark hm =>
      have hescapes := hasEscapes_or hd h (List.mem_cons_of_mem mark List.mem_cons_self)
      exact .inr (live_marked (hnational hm) h (live_quoted (by decide) hescapes))
  | userVariable hq =>
      have hescapes := hasEscapes_or hd h (List.mem_cons_of_mem '@' List.mem_cons_self)
      exact .inr (live_marked List.mem_cons_self h (live_quoted hq hescapes))

end Regions

end MySqlAnalysis.Script
