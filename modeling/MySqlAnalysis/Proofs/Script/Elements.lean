import Mathlib.Data.List.DropRight
import MySqlAnalysis.Proofs.Script.Stretches

/-!
# Elements of a regular text

A regular text is a row of elements. An element is read as one token or skipped as a
whole, and it stays the same when the text is cut off at a later break
(`Script.Element.reads`); to a script it is a semicolon, a piece without content or a
row of pieces with content (`Script.exists_element`). It follows that blanks around a
regular text change nothing but the offsets of its tokens (`Script.spansFrom_trim`).
-/

set_option autoImplicit false

namespace MySqlAnalysis.Script

open Text Token

variable {d : Dialect} {last : Option TokenKind}

/-! ### Cutting off a text at a break -/

section CutOff

variable {c : Char} {x w : List Char}

/-- Without a semicolon after two dashes, a cut at a break does not start a comment. -/
theorem startsLineComment_append (h : Regular (c :: (x ++ w))) (hw : Breaks w) :
    startsLineComment c (x ++ w) = startsLineComment c x := by
  apply startsLineComment_append_of_ends hw
  rintro rfl rfl
  cases w with
  | nil => rfl
  | cons b w =>
      have hne : b ≠ ';' := by
        rintro rfl
        exact h.dashes (List.prefix_append ['-', '-', ';'] w).isInfix
      -- what is left are blanks, and they end the dashes like the end of the text does
      have hblank : isBlank b = true := by simpa [isBreak, hne] using hw b rfl
      have hends : endsDashes b = true := by
        rw [h.endsDashes_eq (by simp), hblank]
      simp [hends]

theorem solid_of_append (h : Regular (c :: (x ++ w))) (hw : Breaks w) (hsolid : Solid c (x ++ w)) :
    Solid c x :=
  (solid_append_iff hw (startsLineComment_append h hw)).1 hsolid

end CutOff

/-! ### Elements -/

/-- The text `u` is read on its own in front of `t`, as a token of the given kind. This
stays so when `t` is cut off at a break, and a blank at the very end can be left out. -/
structure Element (d : Dialect) (last kind : Option TokenKind) (u t : List Char) : Prop where
  reads : ∀ (offset : Nat) {t' w : List Char}, t = t' ++ w → Breaks w →
    spansFrom d last offset (u ++ t') =
      (spanAt? kind u offset).toList ++
        spansFrom d (lastAfter last kind) (offset + byteLength u) t'
  ends : ∀ (offset : Nat) {v : List Char} {b : Char}, t = [] → u = v ++ [b] → isBlank b = true →
    spansFrom d last offset u = spansFrom d last offset v

/-- An element that does not end in a blank is read as it is. -/
theorem Element.of_last {kind : Option TokenKind} {u t : List Char}
    (hlast : t = [] → ∀ b ∈ u.getLast?, isBlank b = false)
    (hreads : ∀ (offset : Nat) {t' w : List Char}, t = t' ++ w → Breaks w →
      spansFrom d last offset (u ++ t') =
        (spanAt? kind u offset).toList ++
          spansFrom d (lastAfter last kind) (offset + byteLength u) t') :
    Element d last kind u t where
  reads := hreads
  ends offset v b ht hu hb := by
    have hno := hlast ht b (by rw [hu, List.getLast?_concat]; rfl)
    rw [hb] at hno
    cases hno

/-- What is skipped up to the end is no token. -/
theorem Element.of_skipped {kind : Option TokenKind} {u : List Char} (hkind : Silent kind)
    (hskipped : ∀ offset, spansFrom d last offset u = [])
    (hcut : ∀ {v : List Char} {b : Char}, u = v ++ [b] → isBlank b = true →
      ∀ offset, spansFrom d last offset v = []) :
    Element d last kind u [] where
  reads offset t' w ht _ := by
    obtain ⟨rfl, -⟩ := List.append_eq_nil_iff.1 ht.symm
    rw [List.append_nil, hskipped, hkind.spanAt?, spansFrom_nil]
    rfl
  ends offset v b _ hu hb := by
    rw [hskipped, hcut hu hb]

theorem element_blank {c : Char} (hc : isBlank c = true) (t : List Char) :
    Element d last (some .whitespace) [c] t where
  reads offset t' w _ _ := by
    rw [silent_whitespace.spanAt?, silent_whitespace.lastAfter, List.singleton_append,
      spansFrom_blank hc]
    simp
  ends offset v b _ hu _ := by
    have hv : v = [] := by
      simpa using congrArg List.dropLast hu.symm
    rw [spansFrom_blank hc, hv, spansFrom_nil, spansFrom_nil]

/-! ### Line comments -/

section LineComment

variable {c : Char} {a t : List Char}

theorem bne_of_not_mem (ha : '\n' ∉ a) : ∀ b ∈ a, (b != '\n') = true := fun b hb => by
  rw [bne_iff_ne]
  rintro rfl
  exact ha hb

theorem spansFrom_line (hc : startsLineComment c (a ++ '\n' :: t) = true) (ha : '\n' ∉ a)
    (offset : Nat) :
    spansFrom d last offset (c :: (a ++ '\n' :: t)) =
      spansFrom d last (offset + byteLength (c :: (a ++ ['\n']))) t := by
  have htake : ('\n' :: t).takeWhile (· != '\n') = [] := rfl
  have hdrop : ('\n' :: t).dropWhile (· != '\n') = '\n' :: t := rfl
  rw [spansFrom_lineComment hc, List.takeWhile_append_of_pos (bne_of_not_mem ha),
    List.dropWhile_append_of_pos (bne_of_not_mem ha), htake, hdrop, spansFrom_blank rfl]
  simp [Nat.add_assoc]

theorem spansFrom_last_line (hc : startsLineComment c a = true) (ha : '\n' ∉ a) (offset : Nat) :
    spansFrom d last offset (c :: a) = [] := by
  have hdrop : a.dropWhile (· != '\n') = [] := List.dropWhile_eq_nil_iff.2 (bne_of_not_mem ha)
  rw [spansFrom_lineComment hc, hdrop, spansFrom_nil]

theorem element_line (h : Regular (c :: (a ++ '\n' :: t)))
    (hc : startsLineComment c (a ++ '\n' :: t) = true) (ha : '\n' ∉ a) :
    Element d last (some .comment) (c :: (a ++ ['\n'])) t where
  reads offset t' w ht hw := by
    subst ht
    have hsplit : a ++ '\n' :: (t' ++ w) = a ++ '\n' :: t' ++ w := by simp
    rw [hsplit] at h hc
    rw [startsLineComment_append h hw] at hc
    have hrow : c :: (a ++ ['\n']) ++ t' = c :: (a ++ '\n' :: t') := by simp
    rw [hrow, spansFrom_line hc ha, silent_comment.spanAt?, silent_comment.lastAfter]
    rfl
  ends offset v b ht hu hb := by
    subst ht
    have hv : v = c :: a := by
      have hrow : c :: a ++ ['\n'] = v ++ [b] := hu
      exact (List.append_inj' hrow rfl).1.symm
    have hline : startsLineComment c a = true := by
      rwa [startsLineComment_append h (.cons rfl [])] at hc
    rw [spansFrom_line hc ha, spansFrom_nil, hv, spansFrom_last_line hline ha]

theorem element_last_line (h : Regular (c :: a)) (hc : startsLineComment c a = true)
    (ha : '\n' ∉ a) : Element d last (some .comment) (c :: a) [] := by
  refine .of_skipped silent_comment (spansFrom_last_line hc ha) ?_
  intro v b hu hb offset
  cases v with
  | nil =>
      -- a line comment does not start with a blank
      have hbc : c = b := by simpa using congrArg List.head? hu
      rw [← hbc, isBlank_of_startsLineComment hc] at hb
      cases hb
  | cons e v =>
      rw [List.cons_append] at hu
      obtain ⟨rfl, rfl⟩ := List.cons.inj hu
      rw [startsLineComment_append h (.cons (isBreak_of_isBlank hb) [])] at hc
      exact spansFrom_last_line hc (fun hmem => ha (List.mem_append_left _ hmem)) offset

end LineComment

/-! ### Regions -/

section Regions

variable {opening body : List Char} {close : List Char → Option Nat} {kind : TokenKind}

theorem not_prefix_of_regular (h : Regular body) : ¬ ['/', '*', '!'] <+: body :=
  fun hprefix => h.versionComment hprefix.isInfix

theorem isBlank_of_close (hregion : Region d opening close kind)
    (hclose : close body = some body.length) :
    ∀ b ∈ (opening ++ body).getLast?, isBlank b = false := by
  intro b hb
  apply isBlank_of_isBreak
  rw [List.getLast?_append] at hb
  cases hlast : body.getLast? with
  | none =>
      rw [hlast, Option.none_or] at hb
      exact hregion.isBreak_eq_false b (List.mem_of_getLast? hb)
  | some e =>
      rw [hlast, Option.some_or] at hb
      cases hb
      exact hregion.closing.last hclose b hlast

theorem element_region (hregion : Region d opening close kind) (h : Regular (opening ++ body))
    {n : Nat} (hclose : close body = some n) :
    Element d last (some kind) (opening ++ body.take n) (body.drop n) := by
  have hn := hregion.closing.le hclose
  apply Element.of_last
  · intro ht
    have hlength : n = body.length := Nat.le_antisymm hn (List.drop_eq_nil_iff.1 ht)
    subst hlength
    rw [List.take_length]
    exact isBlank_of_close hregion hclose
  · intro offset t' w ht hw
    -- the close lies in front of the cut, so it is found there as well
    have hbody : body = body.take n ++ t' ++ w := by
      rw [List.append_assoc, ← ht, List.take_append_drop]
    have hlength : (body.take n).length = n := List.length_take_of_le hn
    have hcut : close (body.take n ++ t') = some n := by
      rw [hbody] at hclose
      exact (hregion.closing.append_iff hw (by simp [hlength])).1 hclose
    have hplain : ¬ ['/', '*', '!'] <+: opening ++ (body.take n ++ t') := by
      rw [hbody, ← List.append_assoc] at h
      exact not_prefix_of_regular h.of_append_left
    rw [List.append_assoc, spansFrom_region hregion hplain hcut, List.take_left' hlength,
      List.drop_left' hlength]

theorem element_open_region (hregion : Region d opening close kind)
    (h : Regular (opening ++ body)) (hclose : close body = none) :
    Element d last none (opening ++ body) [] := by
  refine .of_skipped silent_none
    (spansFrom_region_eq_nil hregion (not_prefix_of_regular h) hclose) ?_
  intro v b hu hb offset
  rcases List.eq_nil_or_concat body with rfl | ⟨body', e, rfl⟩
  · -- what opens a region has no blanks
    have hmem : b ∈ opening := by
      rw [List.append_nil] at hu
      simp [hu]
    have hno := hregion.isBreak_eq_false b hmem
    rw [isBreak_of_isBlank hb] at hno
    cases hno
  · rw [List.concat_eq_append] at hu h hclose
    rw [← List.append_assoc] at hu h
    obtain ⟨rfl, hbe⟩ := List.append_inj' hu rfl
    obtain rfl : e = b := List.singleton_inj.1 hbe
    refine spansFrom_region_eq_nil hregion (not_prefix_of_regular h.of_append_left) ?_ offset
    -- a close in front of the blank would close the region with the blank, too
    rw [Option.eq_none_iff_forall_ne_some]
    intro n hn
    have hle := hregion.closing.le hn
    rw [(hregion.closing.append_iff (.cons (isBreak_of_isBlank hb) []) hle).2 hn] at hclose
    cases hclose

end Regions

/-! ### Solid tokens -/

/-- A solid token is read alike when the text is cut off at a break. -/
theorem spansFrom_solid_append {c : Char} {x w : List Char} (h : Regular (c :: (x ++ w)))
    (hw : Breaks w) (hsolid : Solid c (x ++ w)) (offset : Nat) :
    spansFrom d last offset (c :: x) =
      (spanAt? (solid d last c (x ++ w)).kind (c :: x.take (solid d last c (x ++ w)).extra)
          offset).toList ++
        spansFrom d (lastAfter last (solid d last c (x ++ w)).kind)
          (offset + byteLength (c :: x.take (solid d last c (x ++ w)).extra))
          (x.drop (solid d last c (x ++ w)).extra) := by
  have hx : Solid c x := solid_of_append h hw hsolid
  rw [solid_append hw hx]
  exact spansFrom_solid hx offset

theorem element_solid {c : Char} {rest : List Char} (h : Regular (c :: rest))
    (hsolid : Solid c rest) :
    Element d last (solid d last c rest).kind (c :: rest.take (solid d last c rest).extra)
      (rest.drop (solid d last c rest).extra) := by
  have htakes : Takes (solid d last c rest).extra rest := takes_solid hsolid
  obtain ⟨hn, hsmooth⟩ := htakes
  apply Element.of_last
  · intro _ b hb
    rcases List.mem_cons.1 (List.mem_of_getLast? hb) with rfl | hmem
    · exact hsolid.blank
    · exact isBlank_of_isBreak (hsmooth.isBreak_eq_false b hmem)
  · intro offset t' w ht hw
    generalize hextra : (solid d last c rest).extra = n at *
    have hrest : rest = rest.take n ++ t' ++ w := by
      rw [List.append_assoc, ← ht, List.take_append_drop]
    have hlength : (rest.take n).length = n := List.length_take_of_le hn
    have hcut : spansFrom d last offset (c :: (rest.take n ++ t')) = _ :=
      spansFrom_solid_append (w := w) (by rwa [← hrest]) hw (by rwa [← hrest]) offset
    rw [← hrest, hextra, List.take_left' hlength, List.drop_left' hlength] at hcut
    exact hcut

/-! ### The first element of a text -/

theorem kind_ne_semicolon_of_region {opening : List Char} {close : List Char → Option Nat}
    {kind : TokenKind} (hregion : Region d opening close kind) : kind ≠ .semicolon := by
  cases hregion with
  | quoted =>
      rw [quotedKind]
      split
      · simp
      · split <;> simp
  | _ => simp

/-- What an element is to a script. -/
def Element.Plays (kind : Option TokenKind) (u t : List Char) : Prop :=
  u = [';'] ∧ kind = some .semicolon ∨
    kind ≠ some .semicolon ∧ (Silent kind ∧ Idle u t ∨ Live u t)

theorem exists_element (hd : d.mode.has .noBackslashEscapes = false) (last : Option TokenKind)
    {c : Char} {rest : List Char} (h : Regular (c :: rest)) :
    ∃ kind u t, c :: rest = u ++ t ∧ u ≠ [] ∧ Element d last kind u t ∧
      Element.Plays kind u t := by
  rcases starts_cases d c rest with hblank | hline | ⟨opening, body, close, kind, hregion, rfl⟩ |
    hsolid
  · exact ⟨_, [c], rest, rfl, by simp, element_blank hblank rest,
      .inr ⟨by simp, .inl ⟨silent_whitespace, idle_blank h hblank⟩⟩⟩
  · -- the line feed that ends a comment belongs to it
    by_cases hmem : '\n' ∈ rest
    · obtain ⟨a, t, rfl, ha⟩ := List.eq_append_cons_of_mem hmem
      exact ⟨_, c :: (a ++ ['\n']), t, by simp, by simp, element_line h hline ha,
        .inr ⟨by simp, .inl ⟨silent_comment, idle_lineComment h hline ha⟩⟩⟩
    · exact ⟨_, c :: rest, [], by simp, by simp, element_last_line h hline hmem,
        .inr ⟨by simp, .inl ⟨silent_comment, idle_lineComment_end h hline hmem⟩⟩⟩
  · have hplays := idle_or_live_region hd hregion h
    cases hclose : close body with
    | none =>
        rw [hclose, Option.getD_none, List.take_length, List.drop_length] at hplays
        exact ⟨none, c :: opening ++ body, [], by simp, by simp,
          element_open_region hregion h hclose,
          .inr ⟨by simp, hplays.imp_left fun hidle => ⟨silent_none, hidle.2⟩⟩⟩
    | some n =>
        rw [hclose, Option.getD_some] at hplays
        exact ⟨some kind, c :: opening ++ body.take n, body.drop n, by simp, by simp,
          element_region hregion h hclose,
          .inr ⟨by simpa using kind_ne_semicolon_of_region hregion, hplays⟩⟩
  · refine ⟨_, _, _, ?_, by simp, element_solid h hsolid, ?_⟩
    · rw [List.cons_append, List.take_append_drop]
    · by_cases hc : c = ';'
      · subst hc
        exact .inl ⟨rfl, rfl⟩
      · exact .inr ⟨solid_kind_ne_semicolon hc, .inr (live_solid h hsolid hc (takes_solid hsolid))⟩

/-! ### Blanks around a text -/

/-- A blank at the end changes nothing. -/
theorem spansFrom_concat_blank (hd : d.mode.has .noBackslashEscapes = false) {v : List Char}
    {b : Char} (h : Regular (v ++ [b])) (hb : isBlank b = true) (offset : Nat) :
    spansFrom d last offset (v ++ [b]) = spansFrom d last offset v := by
  -- element by element: the blank stands after the first one, or it ends it
  induction hlength : v.length using Nat.strong_induction_on generalizing v last offset with
  | _ length ih =>
    subst hlength
    cases v with
    | nil => rw [List.nil_append, spansFrom_blank hb, spansFrom_nil, spansFrom_nil]
    | cons c x =>
        obtain ⟨kind, u, t, hsplit, hu, helement, -⟩ := exists_element hd last h
        rcases List.eq_nil_or_concat t with rfl | ⟨t, e, rfl⟩
        · rw [List.append_nil] at hsplit
          subst hsplit
          exact helement.ends offset rfl rfl hb
        · rw [List.concat_eq_append] at hsplit helement
          have hrow : c :: x ++ [b] = u ++ t ++ [e] := by
            rw [List.append_assoc]
            exact hsplit
          obtain ⟨hx, hbe⟩ := List.append_inj' hrow rfl
          obtain rfl : b = e := List.singleton_inj.1 hbe
          have hshorter : t.length < (c :: x).length := by
            have hpos := List.length_pos_iff.2 hu
            rw [hx, List.length_append]
            omega
          have hregular : Regular (t ++ [b]) := by
            rw [hx, List.append_assoc] at h
            exact h.of_append_right
          rw [hx, List.append_assoc, helement.reads offset (List.append_nil _).symm .nil,
            helement.reads offset rfl (.cons (isBreak_of_isBlank hb) []),
            ih t.length hshorter hregular _ rfl]

theorem spansFrom_trimEnd (hd : d.mode.has .noBackslashEscapes = false) {cs : List Char}
    (h : Regular cs) (offset : Nat) :
    spansFrom d last offset (trimEnd cs) = spansFrom d last offset cs := by
  induction cs using List.reverseRecOn with
  | nil => rfl
  | append_singleton v b ih =>
      have hwhite := h.isWhiteSpace_eq (c := b) (by simp)
      by_cases hb : isBlank b = true
      · have htrim : trimEnd (v ++ [b]) = trimEnd v := by
          simp [trimEnd, hwhite, hb]
        rw [htrim, ih h.of_append_left, spansFrom_concat_blank hd h hb]
      · have htrim : trimEnd (v ++ [b]) = v ++ [b] := by
          simp [trimEnd, hwhite, hb]
        rw [htrim]

theorem spansFrom_trimStart {cs : List Char} (h : Regular cs) (offset : Nat) :
    spansFrom d last (offset + byteLength (cs.takeWhile isWhiteSpace)) (trimStart cs) =
      spansFrom d last offset cs := by
  induction cs generalizing offset with
  | nil => simp [trimStart]
  | cons c cs ih =>
      have hwhite := h.isWhiteSpace_eq (c := c) List.mem_cons_self
      by_cases hc : isBlank c = true
      · rw [spansFrom_blank hc, ← ih h.of_cons]
        simp [trimStart, hwhite, hc, Nat.add_assoc]
      · simp [trimStart, hwhite, hc]

/-- Blanks around a text change nothing but the offsets. -/
theorem spansFrom_trim (hd : d.mode.has .noBackslashEscapes = false) {cs : List Char}
    (h : Regular cs) (offset : Nat) :
    spansFrom d last (offset + byteLength (cs.takeWhile isWhiteSpace)) (trim cs) =
      spansFrom d last offset cs := by
  have hregular : Regular (trimStart cs) := h.of_infix (List.dropWhile_suffix _).isInfix
  rw [trim, spansFrom_trimEnd hd hregular, spansFrom_trimStart h]

end MySqlAnalysis.Script
