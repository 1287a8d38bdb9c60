import MySqlAnalysis.Proofs.Text.Searching
import MySqlAnalysis.Proofs.Token.Solid

/-!
# Regions with an end of their own

Block comments and quoted texts reach up to the mark that closes them, or to the end
of the text. Where a region is closed does not depend on what follows from the next
break on (`Token.Closing`). Every text starts with a blank, a line comment, a region
or a solid token (`Token.starts_cases`).
-/

set_option autoImplicit false

namespace MySqlAnalysis.Token

open Text

/-- A search for the close of a region: it gives the number of characters up to and
including the close, which is no break, and does not look past the break after it. -/
structure Closing (close : List Char → Option Nat) : Prop where
  le : ∀ {x : List Char} {n : Nat}, close x = some n → n ≤ x.length
  last : ∀ {x : List Char}, close x = some x.length → ∀ b ∈ x.getLast?, isBreak b = false
  append_iff : ∀ {x w : List Char} {n : Nat}, Breaks w → n ≤ x.length →
    (close (x ++ w) = some n ↔ close x = some n)

/-! ### Words as closes -/

/-- A comment is closed by the first mark that closes comments. -/
theorem find?_closing {body : List Char} (h : ¬ ['*', '/'] <:+: body) (t : List Char) :
    find? ['*', '/'] (body ++ '*' :: '/' :: t) = some body.length := by
  induction body with
  | nil => simp [find?]
  | cons c body ih =>
      have hprefix : ¬ ['*', '/'] <+: c :: (body ++ '*' :: '/' :: t) := by
        intro hclose
        rw [List.cons_prefix_cons] at hclose
        obtain ⟨rfl, hclose⟩ := hclose
        cases body with
        | nil => simp at hclose
        | cons d body =>
            obtain ⟨rfl, -⟩ := List.cons_prefix_cons.1 hclose
            exact h (List.prefix_append ['*', '/'] body).isInfix
      rw [List.cons_append, find?, if_neg (by rwa [List.isPrefixOf_iff_prefix]),
        ih fun hclose => h (hclose.trans (List.suffix_cons c body).isInfix)]
      rfl

theorem closing_find? (needle : List Char) {e : Char} (hlast : needle.getLast? = some e)
    (he : isBreak e = false) : Closing fun x => (find? needle x).map (· + needle.length) where
  le h := by
    obtain ⟨n, hn, rfl⟩ := Option.map_eq_some_iff.1 h
    exact find?_le hn
  last h b hb := by
    obtain ⟨n, hn, hlength⟩ := Option.map_eq_some_iff.1 h
    obtain ⟨a, rest, rfl, rfl⟩ := find?_eq_some hn
    have hrest : rest = [] := List.length_eq_zero_iff.1 (by
      simp only [List.length_append] at hlength
      omega)
    rw [hrest, List.append_nil, List.getLast?_append, hlast] at hb
    cases hb
    exact he
  append_iff {x w n} _ hn := by
    simp only [Option.map_eq_some_iff]
    refine exists_congr fun m => and_congr_left fun hm => ?_
    exact find?_append_iff (by omega) w

/-! ### Quotes as closes -/

/-- The quote that closes a region is the last character up to the close. -/
theorem closeQuote_eq_some {q : Char} {escapes : Bool} {x : List Char} {n : Nat}
    (h : closeQuote q escapes x = some n) : ∃ a b, x = a ++ q :: b ∧ a.length + 1 = n := by
  have hskip : ∀ (front : List Char) {cs : List Char} {m : Nat},
      (∃ a b, cs = a ++ q :: b ∧ a.length + 1 = m) →
        ∃ a b, front ++ cs = a ++ q :: b ∧ a.length + 1 = m + front.length := by
    rintro front cs m ⟨a, b, rfl, rfl⟩
    exact ⟨front ++ a, b, by simp, by simp only [List.length_append]; omega⟩
  fun_induction closeQuote q escapes x generalizing n with
  | case1 => cases h
  | case2 => cases h
  | case3 c _ hquote =>
      cases h
      exact ⟨[], [], by simp [beq_iff_eq.1 hquote], rfl⟩
  | case4 => cases h
  | case5 c e cs _ ih =>
      -- an escaped character
      obtain ⟨m, hm, rfl⟩ := Option.map_eq_some_iff.1 h
      exact hskip [c, e] (ih hm)
  | case6 c e cs _ _ _ ih =>
      -- a doubled quote
      obtain ⟨m, hm, rfl⟩ := Option.map_eq_some_iff.1 h
      exact hskip [c, e] (ih hm)
  | case7 c e cs _ hquote =>
      cases h
      exact ⟨[], e :: cs, by simp [beq_iff_eq.1 hquote], rfl⟩
  | case8 c e cs _ _ ih =>
      obtain ⟨m, hm, rfl⟩ := Option.map_eq_some_iff.1 h
      exact hskip [c] (ih hm)

theorem closeQuote_bounds {q : Char} {escapes : Bool} {x : List Char} {n : Nat}
    (h : closeQuote q escapes x = some n) : 0 < n ∧ n ≤ x.length := by
  obtain ⟨a, b, rfl, rfl⟩ := closeQuote_eq_some h
  simp only [List.length_append, List.length_cons]
  omega

theorem closeQuote_last {q : Char} {escapes : Bool} {x : List Char}
    (h : closeQuote q escapes x = some x.length) : x.getLast? = some q := by
  obtain ⟨a, b, rfl, hlength⟩ := closeQuote_eq_some h
  have hb : b = [] := List.length_eq_zero_iff.1 (by
    simp only [List.length_append, List.length_cons] at hlength
    omega)
  rw [hb, List.getLast?_concat]

theorem map_add_eq_some_iff {o : Option Nat} {k n : Nat} :
    o.map (· + k) = some n ↔ k ≤ n ∧ o = some (n - k) := by
  cases o with
  | none => simp
  | some m =>
      simp only [Option.map_some, Option.some.injEq]
      omega

/-- A quote that closes a region has no other one after it. -/
theorem closeQuote_append_iff {q : Char} {escapes : Bool} {x w : List Char} {n : Nat}
    (hw : w.head? ≠ some q) (hn : n ≤ x.length) :
    closeQuote q escapes (x ++ w) = some n ↔ closeQuote q escapes x = some n := by
  fun_induction closeQuote q escapes x generalizing n with
  | case1 =>
      refine iff_of_false (fun h => ?_) (by simp)
      have hpos := (closeQuote_bounds h).1
      simp only [List.length_nil] at hn
      omega
  | case2 c hescape =>
      cases w with
      | nil => simp [closeQuote, hescape]
      | cons b w =>
          simp only [List.length_singleton] at hn
          simp only [List.singleton_append, closeQuote, hescape, if_true, map_add_eq_some_iff]
          exact iff_of_false (fun h => absurd h.1 (by omega)) (by simp)
  | case3 c hescape hquote =>
      cases w with
      | nil => simp [closeQuote, hescape, hquote]
      | cons b w =>
          -- the quote is the last of `x` and stays a single one
          have hb : ¬ (b == q) = true := by simpa using hw
          simp [closeQuote, hescape, hquote, hb]
  | case4 c hescape hquote =>
      cases w with
      | nil => simp [closeQuote, hescape, hquote]
      | cons b w =>
          simp only [List.singleton_append, closeQuote, hescape, hquote, Bool.false_eq_true,
            if_false, map_add_eq_some_iff]
          -- a close would lie behind `x`
          refine iff_of_false (fun h => ?_) (by simp)
          have hpos := (closeQuote_bounds h.2).1
          simp only [List.length_singleton] at hn
          omega
  | case5 c e cs hescape ih =>
      simp only [List.cons_append, closeQuote, hescape, if_true, map_add_eq_some_iff]
      simp only [List.length_cons] at hn
      exact and_congr_right fun hk => ih (by omega)
  | case6 c e cs hescape hquote hdouble ih =>
      simp only [List.cons_append, closeQuote, hescape, hquote, hdouble, Bool.false_eq_true,
        if_false, if_true, map_add_eq_some_iff]
      simp only [List.length_cons] at hn
      exact and_congr_right fun hk => ih (by omega)
  | case7 c e cs hescape hquote hdouble =>
      simp only [List.cons_append, closeQuote, hescape, hquote, hdouble, Bool.false_eq_true,
        if_false, if_true]
  | case8 c e cs hescape hquote ih =>
      simp only [List.cons_append, closeQuote, hescape, hquote, Bool.false_eq_true, if_false,
        map_add_eq_some_iff]
      simp only [List.length_cons] at hn ih
      exact and_congr_right fun hk => ih (by omega)

theorem isBreak_of_isQuote {q : Char} (hq : isQuote q = true) : isBreak q = false := by
  by_contra h
  rw [Bool.not_eq_false] at h
  rw [not_class_of_isBreak (p := isQuote) rfl h] at hq
  cases hq

theorem closing_closeQuote {q : Char} (hq : isQuote q = true) (escapes : Bool) :
    Closing (closeQuote q escapes) where
  le h := (closeQuote_bounds h).2
  last h b hb := by
    rw [closeQuote_last h] at hb
    cases hb
    exact isBreak_of_isQuote hq
  append_iff hw := closeQuote_append_iff fun hhead => by
    have hbreak := hw q hhead
    rw [isBreak_of_isQuote hq] at hbreak
    cases hbreak

/-! ### Regions -/

/-- The regions: what opens them, how their close is found, and the kind of a closed one. -/
inductive Region (d : Dialect) : List Char → (List Char → Option Nat) → TokenKind → Prop
  | comment : Region d ['/', '*'] (fun body => (find? ['*', '/'] body).map (· + 2)) .comment
  | quoted {q : Char} : isQuote q = true →
      Region d [q] (closeQuote q (hasEscapes d q)) (quotedKind d q)
  | hex {mark : Char} : mark ∈ ['x', 'X'] →
      Region d [mark, apostrophe] (fun body => (find? [apostrophe] body).map (· + 1)) .hex
  | binary {mark : Char} : mark ∈ ['b', 'B'] →
      Region d [mark, apostrophe] (fun body => (find? [apostrophe] body).map (· + 1)) .binary
  | national {mark : Char} : mark ∈ ['n', 'N'] →
      Region d [mark, apostrophe] (closeQuote apostrophe (hasEscapes d apostrophe)) .national
  | userVariable {q : Char} : isQuote q = true →
      Region d ['@', q] (closeQuote q (hasEscapes d q)) .userVariable

variable {d : Dialect} {last : Option TokenKind} {opening body : List Char}
  {close : List Char → Option Nat} {kind : TokenKind}

theorem Region.closing (h : Region d opening close kind) : Closing close := by
  cases h with
  | comment => exact closing_find? ['*', '/'] rfl (by decide)
  | quoted hq => exact closing_closeQuote hq _
  | hex => exact closing_find? [apostrophe] rfl (by decide)
  | binary => exact closing_find? [apostrophe] rfl (by decide)
  | national => exact closing_closeQuote (by decide) _
  | userVariable hq => exact closing_closeQuote hq _

theorem Region.isBreak_eq_false (h : Region d opening close kind) :
    ∀ c ∈ opening, isBreak c = false := by
  have hmark : ∀ {marks : List Char} {mark : Char}, mark ∈ marks →
      marks.any isBreak = false → ∀ c ∈ [mark, apostrophe], isBreak c = false := by
    intro marks mark hmem hmarks
    rw [List.any_eq_false] at hmarks
    simpa using ⟨Bool.eq_false_iff.2 (hmarks mark hmem), by decide⟩
  cases h with
  | comment => simpa using ⟨by decide, by decide⟩
  | quoted hq => simpa using isBreak_of_isQuote hq
  | hex hm => exact hmark hm rfl
  | binary hm => exact hmark hm rfl
  | national hm => exact hmark hm rfl
  | userVariable hq => simpa using ⟨by decide, isBreak_of_isQuote hq⟩

/-- Everything but a comment is closed by a quote. -/
theorem Region.close_eq_some (h : Region d opening close kind) (hopening : opening ≠ ['/', '*'])
    {n : Nat} (hclose : close body = some n) :
    ∃ a q b, body = a ++ q :: b ∧ isQuote q = true ∧ a.length + 1 = n := by
  have happ : ∀ {o : Option Nat}, (∀ m, o = some m → ∃ a b, body = a ++ [apostrophe] ++ b ∧
      a.length = m) → o.map (· + 1) = some n →
        ∃ a q b, body = a ++ q :: b ∧ isQuote q = true ∧ a.length + 1 = n := by
    intro o ho hn
    obtain ⟨m, hm, rfl⟩ := Option.map_eq_some_iff.1 hn
    obtain ⟨a, b, rfl, rfl⟩ := ho m hm
    exact ⟨a, apostrophe, b, by simp, rfl, rfl⟩
  have hquote : ∀ {q : Char} {escapes : Bool}, isQuote q = true →
      closeQuote q escapes body = some n →
        ∃ a q b, body = a ++ q :: b ∧ isQuote q = true ∧ a.length + 1 = n := by
    intro q escapes hq hn
    obtain ⟨a, b, hbody, hlength⟩ := closeQuote_eq_some hn
    exact ⟨a, q, b, hbody, hq, hlength⟩
  cases h with
  | comment => exact absurd rfl hopening
  | quoted hq => exact hquote hq hclose
  | hex => exact happ (fun _ => find?_eq_some) hclose
  | binary => exact happ (fun _ => find?_eq_some) hclose
  | national => exact hquote rfl hclose
  | userVariable hq => exact hquote hq hclose

/-- Text without quotes does not close an open region. -/
theorem Region.close_append_eq_none (h : Region d opening close kind)
    (hopening : opening ≠ ['/', '*']) {w : List Char} (hw : Breaks w)
    (hquotes : ∀ c ∈ w, isQuote c = false) (hclose : close body = none) :
    close (body ++ w) = none := by
  rw [Option.eq_none_iff_forall_ne_some]
  intro n hn
  rcases Nat.lt_or_ge body.length n with hlt | hle
  · -- the quote would stand behind `body`
    obtain ⟨a, q, b, hsplit, hq, rfl⟩ := h.close_eq_some hopening hn
    have ha : a <+: body ++ w := by
      rw [hsplit]
      exact List.prefix_append _ _
    obtain ⟨a', rfl⟩ : body <+: a :=
      List.prefix_of_prefix_length_le (List.prefix_append _ _) ha (by omega)
    rw [List.append_assoc] at hsplit
    have hno := hquotes q (by rw [List.append_cancel_left hsplit]; simp)
    rw [hq] at hno
    cases hno
  · rw [(h.closing.append_iff hw hle).1 hn] at hclose
    cases hclose

theorem isQuote_cases {q : Char} (hq : isQuote q = true) :
    q = apostrophe ∨ q = quotationMark ∨ q = backtick := by
  simpa [isQuote, or_assoc] using hq

/-- A quote is nothing else. -/
theorem scan_quote {q : Char} (hq : isQuote q = true) (body : List Char) :
    scan d last q body =
      closed (quotedKind d q) (closeQuote q (hasEscapes d q) body) body false := by
  rcases isQuote_cases hq with rfl | rfl | rfl <;> rfl

/-- Every region but a version comment is closed or is no token. -/
theorem Region.scan_eq {c : Char} (h : Region d (c :: opening) close kind)
    (hplain : ¬ ['/', '*', '!'] <+: c :: opening ++ body) :
    scan d last c (opening ++ body) =
      closed kind ((close body).map (· + opening.length)) (opening ++ body) false := by
  cases h with
  | comment =>
      have hbody : (body.head? == some '!') = false := by
        rw [beq_eq_false_iff_ne, Ne, List.head?_eq_some_iff]
        rintro ⟨rest, rfl⟩
        exact hplain ⟨rest, rfl⟩
      have hblock : scan d last '/' ('*' :: body) = blockComment d body false := rfl
      rw [List.singleton_append, hblock, blockComment, hbody, Option.map_map]
      rfl
  | quoted hq =>
      rw [List.nil_append, scan_quote hq]
      simp
  | hex hm =>
      have hm' : c = 'x' ∨ c = 'X' := by simpa using hm
      rw [Option.map_map]
      rcases hm' with rfl | rfl <;> rfl
  | binary hm =>
      have hm' : c = 'b' ∨ c = 'B' := by simpa using hm
      rw [Option.map_map]
      rcases hm' with rfl | rfl <;> rfl
  | national hm =>
      have hm' : c = 'n' ∨ c = 'N' := by simpa using hm
      rcases hm' with rfl | rfl <;> rfl
  | @userVariable q hq =>
      have hat : scan d last '@' (q :: body) = atSign d (q :: body) false := rfl
      have hne : (q == '@') = false := by
        rcases isQuote_cases hq with rfl | rfl | rfl <;> rfl
      rw [List.singleton_append, hat, atSign]
      simp only [hq, hne, if_true]
      rfl

/-! ### What a text starts with -/

theorem starts_cases (d : Dialect) (c : Char) (rest : List Char) :
    isBlank c = true ∨ startsLineComment c rest = true ∨
      (∃ opening body close kind, Region d (c :: opening) close kind ∧ rest = opening ++ body) ∨
      Solid c rest := by
  by_cases hblank : isBlank c = true
  · exact .inl hblank
  by_cases hline : startsLineComment c rest = true
  · exact .inr (.inl hline)
  refine .inr (.inr ?_)
  by_cases hblock : (c == '/' && rest.head? == some '*') = true
  · simp only [Bool.and_eq_true, beq_iff_eq, List.head?_eq_some_iff] at hblock
    obtain ⟨rfl, body, rfl⟩ := hblock
    exact .inl ⟨_, body, _, _, .comment, rfl⟩
  by_cases hquote : isQuote c = true
  · exact .inl ⟨[], rest, _, _, .quoted hquote, rfl⟩
  by_cases hstring : (stringMarks.contains c && rest.head? == some apostrophe) = true
  · simp only [Bool.and_eq_true, List.contains_iff_mem, beq_iff_eq, List.head?_eq_some_iff]
      at hstring
    obtain ⟨hmark, body, rfl⟩ := hstring
    -- each mark has a kind of its own
    have hcases : c ∈ ['x', 'X'] ∨ c ∈ ['b', 'B'] ∨ c ∈ ['n', 'N'] := by
      simpa [stringMarks, or_assoc] using hmark
    rcases hcases with hm | hm | hm
    · exact .inl ⟨_, body, _, _, .hex hm, rfl⟩
    · exact .inl ⟨_, body, _, _, .binary hm, rfl⟩
    · exact .inl ⟨_, body, _, _, .national hm, rfl⟩
  by_cases hat : (c == '@' && rest.head?.any isQuote) = true
  · simp only [Bool.and_eq_true, beq_iff_eq, Option.any_eq_true, List.head?_eq_some_iff] at hat
    obtain ⟨rfl, q, ⟨body, rfl⟩, hq⟩ := hat
    exact .inl ⟨_, body, _, _, .userVariable hq, rfl⟩
  · rw [Bool.not_eq_true] at hblank hline hblock hquote hstring hat
    exact .inr ⟨hblank, hline, hblock, hquote, hstring, hat⟩

variable {c : Char} {rest : List Char}

/-- A kind of text that the grammar does not see. -/
def Silent (kind : Option TokenKind) : Prop :=
  ∀ k ∈ kind, k.channel ≠ .default

theorem silent_none : Silent none := by
  simp [Silent]

theorem silent_whitespace : Silent (some .whitespace) := by
  simp [Silent, TokenKind.channel]

theorem silent_comment : Silent (some .comment) := by
  simp [Silent, TokenKind.channel]

theorem Silent.spanAt? {kind : Option TokenKind} (h : Silent kind) (text : List Char)
    (offset : Nat) : spanAt? kind text offset = none := by
  cases kind with
  | none => rfl
  | some k => simp [Token.spanAt?, h k rfl]

theorem Silent.lastAfter {kind : Option TokenKind} (h : Silent kind) :
    lastAfter last kind = last := by
  cases kind with
  | none => rfl
  | some k => simp [Token.lastAfter, h k rfl]

/-- The first token of a text and those after it. -/
theorem spansFrom_of_scan {kind : Option TokenKind} {n : Nat}
    (hscan : scan d last c rest = ⟨kind, n, false⟩) (offset : Nat) :
    spansFrom d last offset (c :: rest) =
      (spanAt? kind (c :: rest.take n) offset).toList ++
        spansFrom d (lastAfter last kind) (offset + byteLength (c :: rest.take n))
          (rest.drop n) := by
  rw [spansFrom_cons (by rw [hscan]), hscan]

/-- Text that the grammar does not see is skipped. -/
theorem spansFrom_of_silent {kind : Option TokenKind} {n : Nat} (hkind : Silent kind)
    (hscan : scan d last c rest = ⟨kind, n, false⟩) (offset : Nat) :
    spansFrom d last offset (c :: rest) =
      spansFrom d last (offset + byteLength (c :: rest.take n)) (rest.drop n) := by
  rw [spansFrom_of_scan hscan, hkind.spanAt?, hkind.lastAfter]
  rfl

/-- Blanks are skipped one by one. -/
theorem spansFrom_blank (hc : isBlank c = true) (offset : Nat) (rest : List Char) :
    spansFrom d last offset (c :: rest) = spansFrom d last (offset + c.utf8Size) rest := by
  have hscan : ∀ {c : Char} {rest : List Char}, isBlank c = true →
      scan d last c rest = ⟨some .whitespace, runLength isBlank rest, false⟩ := by
    intro c rest hc
    unfold scan recognize
    rw [if_pos hc]
  rw [spansFrom_of_silent silent_whitespace (hscan hc)]
  cases rest with
  | nil => simp
  | cons b rest =>
      by_cases hb : isBlank b = true
      · rw [spansFrom_of_silent silent_whitespace (hscan hb)]
        simp [runLength, hb, Nat.add_assoc]
      · simp [runLength, hb]

theorem isBlank_of_startsLineComment (hc : startsLineComment c rest = true) :
    isBlank c = false := by
  by_contra hblank
  rw [Bool.not_eq_false] at hblank
  have hno : (c == '#' || c == '-') = false :=
    not_class_of_isBreak (p := fun c => c == '#' || c == '-') rfl
      (isBreak_of_isBlank hblank)
  simp only [Bool.or_eq_false_iff] at hno
  simp [startsLineComment, hno] at hc

/-- A line comment is skipped up to its line feed. -/
theorem spansFrom_lineComment (hc : startsLineComment c rest = true) (offset : Nat) :
    spansFrom d last offset (c :: rest) =
      spansFrom d last (offset + byteLength (c :: rest.takeWhile (· != '\n')))
        (rest.dropWhile (· != '\n')) := by
  have hscan : scan d last c rest = ⟨some .comment, runLength (· != '\n') rest, false⟩ := by
    unfold scan recognize
    rw [isBlank_of_startsLineComment hc]
    exact if_pos hc
  rw [spansFrom_of_silent silent_comment hscan, take_runLength, drop_runLength]

/-- A region that is closed is one token. -/
theorem spansFrom_region {opening : List Char} (h : Region d opening close kind)
    (hplain : ¬ ['/', '*', '!'] <+: opening ++ body) {n : Nat} (hclose : close body = some n)
    (offset : Nat) :
    spansFrom d last offset (opening ++ body) =
      (spanAt? (some kind) (opening ++ body.take n) offset).toList ++
        spansFrom d (lastAfter last (some kind)) (offset + byteLength (opening ++ body.take n))
          (body.drop n) := by
  cases opening with
  | nil => cases h
  | cons c opening =>
      have hscan : scan d last c (opening ++ body) = ⟨some kind, n + opening.length, false⟩ := by
        rw [h.scan_eq hplain, hclose]
        rfl
      have htake : (opening ++ body).take (n + opening.length) = opening ++ body.take n := by
        simp [List.take_append, List.take_of_length_le]
      have hdrop : (opening ++ body).drop (n + opening.length) = body.drop n := by
        simp [List.drop_append]
      rw [List.cons_append, spansFrom_of_scan hscan, htake, hdrop]
      rfl

/-- A region that is not closed is no token. -/
theorem spansFrom_region_eq_nil {opening : List Char} (h : Region d opening close kind)
    (hplain : ¬ ['/', '*', '!'] <+: opening ++ body) (hclose : close body = none)
    (offset : Nat) :
    spansFrom d last offset (opening ++ body) = [] := by
  cases opening with
  | nil => cases h
  | cons c opening =>
      have hscan : scan d last c (opening ++ body) = ⟨none, (opening ++ body).length, false⟩ := by
        rw [h.scan_eq hplain, hclose]
        rfl
      rw [List.cons_append, spansFrom_of_silent silent_none hscan, List.drop_length, spansFrom_nil]

/-- A solid token and those after it. -/
theorem spansFrom_solid (h : Solid c rest) (offset : Nat) :
    spansFrom d last offset (c :: rest) =
      (spanAt? (solid d last c rest).kind (c :: rest.take (solid d last c rest).extra)
          offset).toList ++
        spansFrom d (lastAfter last (solid d last c rest).kind)
          (offset + byteLength (c :: rest.take (solid d last c rest).extra))
          (rest.drop (solid d last c rest).extra) := by
  rw [← scan_solid h]
  exact spansFrom_cons (by rw [scan_solid h, solid_versionComment])

end MySqlAnalysis.Token
