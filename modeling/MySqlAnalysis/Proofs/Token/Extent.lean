import MySqlAnalysis.Proofs.Token.Tiling

/-!
# The text from one token to another

Every token of a text ends before the next one starts (`tokenize_apart`). The text
from the first byte of a token to the last byte of another one that does not come
before it therefore lies inside the text and between characters (`tokenize_extent`),
also up to the end of the input (`tokenize_slice`).
-/

set_option autoImplicit false

namespace MySqlAnalysis

open Text

/-! ### Parts of a text -/

namespace Text

/-- Of two beginnings of a text the one with fewer bytes is a beginning of the other. -/
theorem prefix_of_byteLength_le {a b cs : List Char} (ha : a <+: cs) (hb : b <+: cs)
    (h : byteLength a ≤ byteLength b) : a <+: b := by
  rcases List.prefix_or_prefix_of_prefix ha hb with hab | ⟨more, rfl⟩
  · exact hab
  · have hmore : more = [] := by
      by_contra hne
      have hpos := byteLength_pos hne
      rw [byteLength_append] at h
      omega
    simp [hmore]

/-- The text between the ends of two beginnings. -/
theorem exists_slice?_of_prefix {a b cs : List Char} (ha : a <+: cs) (hb : b <+: cs)
    (h : byteLength a ≤ byteLength b) :
    ∃ part, slice? cs (byteLength a) (byteLength b) = some part := by
  obtain ⟨part, rfl⟩ := prefix_of_byteLength_le ha hb h
  obtain ⟨rest, rfl⟩ := hb
  exact ⟨part, by rw [byteLength_append]; exact slice?_append a part rest⟩

end Text

/-- The bytes from `start` to `stop`, both included, are the characters `part` of a text. -/
structure Extent (cs : List Char) (start stop : Nat) (part : List Char) : Prop where
  le : start ≤ stop
  lt : stop < byteLength cs
  slice : slice? cs start (stop + 1) = some part

/-- A part of a text that is not empty. -/
theorem Extent.of_append (before : List Char) {part : List Char} (after : List Char)
    (h : part ≠ []) :
    Extent (before ++ part ++ after) (byteLength before)
      (byteLength before + byteLength part - 1) part := by
  have hpos := byteLength_pos h
  constructor
  case le => omega
  case lt =>
    rw [byteLength_append, byteLength_append]
    omega
  case slice =>
    rw [Nat.sub_add_cancel (by omega)]
    exact slice?_append before part after

/-! ### The order of the tokens -/

namespace Token

/-- A lexeme starts where those before it have ended. -/
theorem lexemesFrom_apart (d : Dialect) (pending : Nat) (s : ScanState) (cs : List Char) :
    (lexemesFrom d pending s cs).Pairwise fun l l' =>
      l.position.offset + byteLength l.text ≤ l'.position.offset := by
  fun_induction lexemesFrom d pending s cs with
  | case1 => exact List.Pairwise.nil
  | case2 pending s c rest ih => exact ih
  | case3 s c rest r text ih =>
      refine List.pairwise_cons.2 ⟨fun l hl => ?_, ih⟩
      obtain ⟨before, -, -, hoffset⟩ := lexemesFrom_placed r.extra (s.after r text) rest l hl
      rw [hoffset, ScanState.offset_after]
      exact Nat.le_add_right _ _

theorem productsOf_apart (index : Nat) {ls : List Lexeme}
    (h : ls.Pairwise fun l l' => l.position.offset + byteLength l.text ≤ l'.position.offset)
    (htext : ∀ l ∈ ls, l.text ≠ []) :
    ((productsOf index ls).filterMap Product.token?).Pairwise fun t t' => t.stop < t'.start := by
  fun_induction productsOf index ls with
  | case1 => exact List.Pairwise.nil
  | case2 index l ls kind hkind ih =>
      rw [List.pairwise_cons] at h
      rw [List.filterMap_cons]
      refine List.pairwise_cons.2
        ⟨fun t ht => ?_, ih h.2 fun l hl => htext l (List.mem_cons_of_mem _ hl)⟩
      obtain ⟨l', hl', kind', i, -, rfl⟩ := mem_filterMap_token? ht
      have hle := h.1 l' hl'
      have hpos := byteLength_pos (htext l List.mem_cons_self)
      simp only [ofLexeme]
      omega
  | case3 index l ls hkind ih =>
      rw [List.pairwise_cons] at h
      rw [List.filterMap_cons]
      exact ih h.2 fun l hl => htext l (List.mem_cons_of_mem _ hl)

end Token

section Text

variable {d : Dialect} {text : String}

/-- The tokens of a text, one after the other; the end of the input comes last. -/
theorem tokenize_apart (d : Dialect) (text : String) :
    (tokenize d text).Pairwise fun t t' => t'.isEof = false → t.stop < t'.start := by
  obtain ⟨last, hlast, heof, -⟩ := (tokenize_tiles d text).2.emitted
  rw [hlast, List.pairwise_append]
  refine ⟨?_, List.pairwise_singleton _ _, fun t _ t' ht' hne => ?_⟩
  · refine (Token.productsOf_apart 0 (Token.lexemesFrom_apart d 0 .start text.toList)
      (Token.lexemesFrom_text_ne_nil 0 .start text.toList)).imp ?_
    exact fun hlt _ => hlt
  · rw [List.mem_singleton.1 ht', heof] at hne
    cases hne

/-- A token that does not end the input is a part of the text. -/
theorem tokenize_part {t : Token} (ht : t ∈ tokenize d text) (heof : t.isEof = false) :
    ∃ before after, text.toList = before ++ t.text.toList ++ after ∧ t.text.toList ≠ [] ∧
      t.start = byteLength before ∧ t.stop + 1 = byteLength before + byteLength t.text.toList := by
  obtain ⟨last, hlast, hlasteof, -⟩ := (tokenize_tiles d text).2.emitted
  rw [hlast] at ht
  rcases List.mem_append.1 ht with ht | ht
  · obtain ⟨l, hl, kind, i, -, rfl⟩ := Token.mem_filterMap_token? ht
    obtain ⟨before, after, hsplit, hoffset⟩ := Token.lexemesFrom_placed 0 .start text.toList l hl
    have hne := Token.lexemesFrom_text_ne_nil 0 .start text.toList l hl
    have hpos := byteLength_pos hne
    have hstart : l.position.offset = byteLength before := by
      simpa [Token.ScanState.start, Position.start] using hoffset
    refine ⟨before, after, by simpa [Token.ofLexeme] using hsplit,
      by simpa [Token.ofLexeme] using hne, hstart, ?_⟩
    simp only [Token.ofLexeme, String.toList_ofList]
    omega
  · rw [List.mem_singleton.1 ht, hlasteof] at heof
    cases heof

/-- The text from one token to another that does not come before it; neither ends
the input. -/
theorem tokenize_extent {i j : Nat} {u v : Token} (hu : (tokenize d text)[i]? = some u)
    (hv : (tokenize d text)[j]? = some v) (hij : i ≤ j) (hueof : u.isEof = false)
    (hveof : v.isEof = false) : ∃ part, Extent text.toList u.start v.stop part := by
  obtain ⟨before, after, htext, hne, hstart, hstop⟩ :=
    tokenize_part (List.mem_of_getElem? hu) hueof
  obtain ⟨before', after', htext', hne', hstart', hstop'⟩ :=
    tokenize_part (List.mem_of_getElem? hv) hveof
  -- the second token starts at the first one or behind it
  have hle : byteLength before ≤ byteLength before' := by
    rcases Nat.eq_or_lt_of_le hij with rfl | hlt
    · rw [hu] at hv
      cases hv
      omega
    · obtain ⟨hi, rfl⟩ := List.getElem?_eq_some_iff.1 hu
      obtain ⟨hj, rfl⟩ := List.getElem?_eq_some_iff.1 hv
      have hapart := List.pairwise_iff_getElem.1 (tokenize_apart d text) i j hi hj hlt hveof
      omega
  have hbefore : before <+: text.toList := by
    rw [htext, List.append_assoc]
    exact List.prefix_append _ _
  have hbefore' : before' <+: text.toList := by
    rw [htext', List.append_assoc]
    exact List.prefix_append _ _
  obtain ⟨between, rfl⟩ := prefix_of_byteLength_le hbefore hbefore' hle
  refine ⟨between ++ v.text.toList, ?_⟩
  have hextent := Extent.of_append before after'
    (List.append_ne_nil_of_right_ne_nil between hne')
  rw [byteLength_append] at hstop'
  rw [byteLength_append, ← List.append_assoc before between] at hextent
  rw [hstart, htext']
  rwa [show byteLength before + (byteLength between + byteLength v.text.toList) - 1 = v.stop by
    omega] at hextent

/-- The text of one token. -/
theorem tokenize_extent_self {t : Token} (ht : t ∈ tokenize d text) (heof : t.isEof = false) :
    Extent text.toList t.start t.stop t.text.toList := by
  obtain ⟨before, after, htext, hne, hstart, hstop⟩ := tokenize_part ht heof
  have hextent := Extent.of_append before after hne
  rw [hstart, htext]
  rwa [show byteLength before + byteLength t.text.toList - 1 = t.stop by omega] at hextent

/-! ### The text up to a token -/

/-- The offset where the text of a token ends; the end of the input has no text. -/
def Token.finish (t : Token) : Nat :=
  if t.isEof then t.start else t.stop + 1

/-- The token that ends the input stands behind the text. -/
theorem tokenize_place_of_isEof {t : Token} (ht : t ∈ tokenize d text) (heof : t.isEof = true) :
    t.start = byteLength text.toList ∧ t.stop = byteLength text.toList := by
  obtain ⟨last, hlast, -, hplace⟩ := (tokenize_tiles d text).2.emitted
  rw [hlast] at ht
  rcases List.mem_append.1 ht with ht | ht
  · rw [(tokenize_tiles d text).2.inner t ht] at heof
    cases heof
  · rw [List.mem_singleton.1 ht]
    exact hplace

/-- A token starts and ends between characters of the text. -/
theorem tokenize_bounds {t : Token} (ht : t ∈ tokenize d text) :
    t.start ≤ t.stop ∧ (∃ before, before <+: text.toList ∧ t.start = byteLength before) ∧
      ∃ through, through <+: text.toList ∧ t.finish = byteLength through := by
  cases heof : t.isEof with
  | false =>
      obtain ⟨before, after, htext, hne, hstart, hstop⟩ := tokenize_part ht heof
      have hpos := byteLength_pos hne
      refine ⟨by omega, ⟨before, ?_, hstart⟩, before ++ t.text.toList, ?_, ?_⟩
      · rw [htext, List.append_assoc]
        exact List.prefix_append _ _
      · rw [htext]
        exact List.prefix_append _ _
      · rw [Token.finish, heof, byteLength_append]
        exact hstop
  | true =>
      obtain ⟨hstart, hstop⟩ := tokenize_place_of_isEof ht heof
      refine ⟨by omega, ⟨text.toList, List.prefix_rfl, hstart⟩, text.toList, List.prefix_rfl, ?_⟩
      rw [Token.finish, heof]
      exact hstart

/-- The text from one token to another that does not come before it. -/
theorem tokenize_slice {i j : Nat} {u v : Token} (hu : (tokenize d text)[i]? = some u)
    (hv : (tokenize d text)[j]? = some v) (hij : i ≤ j) :
    ∃ part, slice? text.toList u.start v.finish = some part := by
  obtain ⟨hule, ⟨before, hbefore, hstart⟩, -⟩ := tokenize_bounds (List.mem_of_getElem? hu)
  obtain ⟨hvle, -, through, hthrough, hfinish⟩ := tokenize_bounds (List.mem_of_getElem? hv)
  have hle : u.start ≤ v.finish := by
    cases heof : v.isEof with
    | true =>
        rw [Token.finish, heof, hstart]
        have hend := (tokenize_place_of_isEof (List.mem_of_getElem? hv) heof).1
        obtain ⟨after, hafter⟩ := hbefore
        rw [← hafter, byteLength_append] at hend
        exact Nat.le_of_add_right_le (Nat.le_of_eq hend.symm)
    | false =>
        rw [Token.finish, heof]
        rcases Nat.eq_or_lt_of_le hij with rfl | hlt
        · rw [hu] at hv
          cases hv
          exact Nat.le_succ_of_le hule
        · obtain ⟨hi, rfl⟩ := List.getElem?_eq_some_iff.1 hu
          obtain ⟨hj, rfl⟩ := List.getElem?_eq_some_iff.1 hv
          have hapart := List.pairwise_iff_getElem.1 (tokenize_apart d text) i j hi hj hlt heof
          simp only [Bool.false_eq_true, if_false]
          omega
  rw [hstart, hfinish] at hle ⊢
  exact exists_slice?_of_prefix hbefore hthrough hle

end Text

end MySqlAnalysis
