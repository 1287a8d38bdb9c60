import Mathlib.Data.List.Basic
import MySqlAnalysis.Token.Stream
import MySqlAnalysis.Token.Tokenize

/-!
# The order of the tokens of a text

The tokens of a text are numbered by their places in the list, only the last one
ends the input, and it is not hidden (`tokenize_listed`). A list that was cut
short keeps this (`Listed.take`).
-/

set_option autoImplicit false

namespace MySqlAnalysis

/-- Tokens as they come from a text, possibly cut short. -/
structure Listed (tokens : List Token) : Prop where
  numbered : tokens.map Token.index = List.range tokens.length
  /-- Only the last token can end the input. -/
  inner : ∀ t ∈ tokens.dropLast, t.isEof = false
  /-- The end of the input is not hidden. -/
  shown : ∀ t ∈ tokens, t.isEof = true → t.isSignificant = true

theorem Listed.take {tokens : List Token} (h : Listed tokens) (n : Nat) :
    Listed (tokens.take n) where
  numbered := by
    rw [List.map_take, h.numbered, List.take_range, List.length_take]
  inner t ht := by
    refine h.inner t ?_
    rw [List.dropLast_eq_take] at ht ⊢
    rw [List.take_take] at ht
    refine List.take_subset_take_left _ ?_ ht
    rw [List.length_take]
    omega
  shown t ht := h.shown t (List.mem_of_mem_take ht)

/-! ### No token of a text ends the input -/

namespace Token

variable {d : Dialect} {inComment : Bool}

theorem closed_kind_ne_eof {kind : TokenKind} (h : kind ≠ .eof) (extra : Option Nat)
    (rest : List Char) : (closed kind extra rest inComment).kind ≠ some .eof := by
  cases extra with
  | none =>
      intro he
      cases he
  | some n => exact fun he => h (Option.some.inj he)

theorem quotedKind_ne_eof (quote : Char) : quotedKind d quote ≠ .eof := by
  unfold quotedKind
  split
  · simp
  · split <;> simp

theorem blockComment_kind_ne_eof (body : List Char) :
    (blockComment d body inComment).kind ≠ some .eof := by
  unfold blockComment
  dsimp only
  split
  · simp
  · exact closed_kind_ne_eof (by decide) _ _

theorem radixNumber?_kind_ne_eof {cs : List Char} {n : Nat × TokenKind}
    (h : radixNumber? cs = some n) : n.2 ≠ .eof := by
  unfold radixNumber? at h
  split at h
  · split at h
    · dsimp only at h
      split at h
      · cases h
      · cases h
        dsimp only
        split <;> simp
    · cases h
  · cases h

theorem plainNumber_kind_ne_eof (cs : List Char) : (plainNumber cs).2 ≠ .eof := by
  have hkinds : ∀ a b : Bool,
      (if a then TokenKind.float else if b then .decimal else .integer) ≠ .eof := by
    decide
  exact hkinds _ _

theorem number_kind_ne_eof (cs : List Char) : (number cs inComment).kind ≠ some .eof := by
  have hkind : ((radixNumber? cs).getD (plainNumber cs)).2 ≠ .eof := by
    cases h : radixNumber? cs with
    | none => exact plainNumber_kind_ne_eof cs
    | some n => exact radixNumber?_kind_ne_eof h
  unfold number
  dsimp only
  split
  · simp
  · exact fun he => hkind (Option.some.inj he)

theorem atSign_kind_ne_eof (rest : List Char) : (atSign d rest inComment).kind ≠ some .eof := by
  unfold atSign
  split
  · split
    · simp
    · split
      · exact closed_kind_ne_eof (by decide) _ _
      · split <;> simp
  · simp

theorem wordKind_ne_eof (word : List Char) : wordKind d word ≠ .eof := by
  unfold wordKind
  split
  · simp
  · split
    · split <;> simp
    · simp

theorem operator?_ne_eof (c : Char) (rest : List Char) (extra : Nat) :
    operator? d c rest ≠ some (.eof, extra) := by
  fun_cases operator? d c rest <;> simp [ite_eq_iff]

theorem ite_kind_ne_eof {p : Prop} [Decidable p] {r r' : Recognition}
    (h : r.kind ≠ some .eof) (h' : r'.kind ≠ some .eof) :
    (if p then r else r').kind ≠ some .eof := by
  split
  · exact h
  · exact h'

/-- No text is read as the end of the input. -/
theorem recognize_kind_ne_eof (s : ScanState) (c : Char) (rest : List Char) :
    (recognize d s c rest).kind ≠ some .eof := by
  unfold recognize
  dsimp only
  refine ite_kind_ne_eof (by simp) ?_
  refine ite_kind_ne_eof (by simp) ?_
  refine ite_kind_ne_eof (blockComment_kind_ne_eof _) ?_
  refine ite_kind_ne_eof (by simp) ?_
  refine ite_kind_ne_eof (closed_kind_ne_eof (quotedKind_ne_eof c) _ _) ?_
  refine ite_kind_ne_eof (closed_kind_ne_eof (by decide) _ _) ?_
  refine ite_kind_ne_eof (closed_kind_ne_eof (by decide) _ _) ?_
  refine ite_kind_ne_eof (closed_kind_ne_eof (by decide) _ _) ?_
  refine ite_kind_ne_eof (number_kind_ne_eof _) ?_
  refine ite_kind_ne_eof (atSign_kind_ne_eof _) ?_
  refine ite_kind_ne_eof (fun he => wordKind_ne_eof _ (Option.some.inj he)) ?_
  split
  case h_1 kind extra ho =>
    rintro ⟨⟩
    exact operator?_ne_eof c rest extra ho
  case h_2 => simp

theorem lexemesFrom_kind_ne_eof (pending : Nat) (s : ScanState) (cs : List Char) :
    ∀ l ∈ lexemesFrom d pending s cs, l.kind ≠ some .eof := by
  fun_induction lexemesFrom d pending s cs with
  | case1 => exact fun l hl => absurd hl List.not_mem_nil
  | case2 pending s c rest ih => exact ih
  | case3 s c rest r text ih =>
      intro l hl
      rcases List.mem_cons.1 hl with rfl | hl
      · exact recognize_kind_ne_eof s c rest
      · exact ih l hl

/-! ### Numbering -/

section Numbering

variable (stop : Text.Position)

theorem map_index_ofLexemes (ls : List Lexeme) :
    ∀ index, (ofLexemes stop index ls).map Token.index =
      List.range' index (ofLexemes stop index ls).length := by
  induction ls with
  | nil => exact fun index => rfl
  | cons l ls ih =>
      intro index
      rw [ofLexemes]
      split
      · rw [List.map_cons, ih (index + 1), List.length_cons, List.range'_succ]
        rfl
      · exact ih index

/-- The tokens of a text are those of its lexemes and the end of the input. -/
theorem ofLexemes_eq_append (ls : List Lexeme) (hls : ∀ l ∈ ls, l.kind ≠ some .eof) :
    ∀ index, ∃ read last, ofLexemes stop index ls = read ++ [ending stop last] ∧
      ∀ t ∈ read, t.isEof = false := by
  induction ls with
  | nil => exact fun index => ⟨[], index, rfl, fun t ht => absurd ht List.not_mem_nil⟩
  | cons l ls ih =>
      intro index
      have hrest : ∀ l ∈ ls, l.kind ≠ some .eof := fun l hl => hls l (List.mem_cons_of_mem _ hl)
      rw [ofLexemes]
      split
      case h_1 kind hkind =>
        obtain ⟨read, last, heq, hread⟩ := ih hrest (index + 1)
        refine ⟨ofLexeme l kind index :: read, last, by rw [heq, List.cons_append], ?_⟩
        intro t ht
        rcases List.mem_cons.1 ht with rfl | ht
        · have hne : kind ≠ .eof := fun he => hls l List.mem_cons_self (he ▸ hkind)
          exact beq_eq_false_iff_ne.2 hne
        · exact hread t ht
      case h_2 =>
        -- unreadable text gives no token and takes no number
        exact ih hrest index

end Numbering

end Token

theorem tokenize_listed (d : Dialect) (text : String) : Listed (tokenize d text) := by
  obtain ⟨read, last, heq, hread⟩ :=
    Token.ofLexemes_eq_append (Text.Position.start.after text.toList)
      (Token.lexemes d text.toList) (Token.lexemesFrom_kind_ne_eof 0 .start text.toList) 0
  refine ⟨?_, ?_, ?_⟩
  · rw [List.range_eq_range']
    exact Token.map_index_ofLexemes _ _ 0
  · rw [tokenize, heq, List.dropLast_concat]
    exact hread
  · rw [tokenize, heq]
    intro t ht heof
    rcases List.mem_append.1 ht with ht | ht
    · rw [hread t ht] at heof
      cases heof
    · rw [List.mem_singleton.1 ht]
      rfl

/-! ### Significant tokens -/

/-- The places of the significant tokens in a list. -/
def significantPositions (tokens : List Token) : List Nat :=
  (tokens.zipIdx.filter fun p => p.1.isSignificant).map Prod.snd

theorem map_snd_filter_zipIdx (tokens : List Token) :
    ∀ k, tokens.map Token.index = List.range' k tokens.length →
      ((tokens.zipIdx k).filter fun p => p.1.isSignificant).map Prod.snd =
        (significant tokens).map Token.index := by
  induction tokens with
  | nil => exact fun k h => rfl
  | cons t ts ih =>
      intro k h
      rw [List.map_cons, List.length_cons, List.range'_succ, List.cons.injEq] at h
      have hrest := ih (k + 1) h.2
      rw [significant] at hrest ⊢
      rw [List.zipIdx_cons, List.filter_cons, List.filter_cons]
      dsimp only
      split
      · rw [List.map_cons, List.map_cons, hrest, h.1]
      · exact hrest

namespace Listed

variable {tokens : List Token}

/-- The significant tokens are numbered by their places. -/
theorem map_index_significant (h : Listed tokens) :
    (significant tokens).map Token.index = significantPositions tokens := by
  refine (map_snd_filter_zipIdx tokens 0 ?_).symm
  rw [h.numbered, List.range_eq_range']

/-- Significant tokens are numbered in increasing order. -/
theorem pairwise_index (h : Listed tokens) :
    ((significant tokens).map Token.index).Pairwise (· < ·) := by
  have hall : (tokens.map Token.index).Pairwise (· < ·) := by
    rw [h.numbered]
    exact List.pairwise_lt_range
  exact hall.sublist (List.filter_sublist.map _)

/-- A token stands where its number says. -/
theorem getElem?_index (h : Listed tokens) {t : Token} (ht : t ∈ tokens) :
    tokens[t.index]? = some t := by
  obtain ⟨i, hi, rfl⟩ := List.mem_iff_getElem.1 ht
  have hindex : (tokens.map Token.index)[i]? = some tokens[i].index := by simp [hi]
  rw [h.numbered, List.getElem?_range hi] at hindex
  rw [← Option.some.inj hindex]
  exact List.getElem?_eq_getElem hi

theorem index_lt_length (h : Listed tokens) {t : Token} (ht : t ∈ tokens) :
    t.index < tokens.length := by
  have hmem : t.index ∈ tokens.map Token.index := List.mem_map_of_mem ht
  rw [h.numbered] at hmem
  exact List.mem_range.1 hmem

/-- Only the last significant token can end the input. -/
theorem inner_significant (h : Listed tokens) :
    ∀ t ∈ (significant tokens).dropLast, t.isEof = false := by
  intro t ht
  refine h.inner t ?_
  rcases List.eq_nil_or_concat' tokens with rfl | ⟨before, last, rfl⟩
  · exact ht
  · rw [List.dropLast_concat]
    rw [significant, List.filter_append, List.filter_singleton] at ht
    -- a last token that is not significant leaves the significant ones before it
    cases hs : last.isSignificant with
    | true =>
        rw [hs, cond_true, List.dropLast_concat] at ht
        exact (List.mem_filter.1 ht).1
    | false =>
        rw [hs, cond_false, List.append_nil] at ht
        exact (List.mem_filter.1 ((List.dropLast_subset _) ht)).1

/-- A token that ends the input is significant. -/
theorem any_isEof_significant (h : Listed tokens) :
    (significant tokens).any Token.isEof = tokens.any Token.isEof := by
  rw [Bool.eq_iff_iff, List.any_eq_true, List.any_eq_true]
  constructor
  · rintro ⟨t, ht, heof⟩
    exact ⟨t, (List.mem_filter.1 ht).1, heof⟩
  · rintro ⟨t, ht, heof⟩
    exact ⟨t, List.mem_filter.2 ⟨ht, h.shown t ht heof⟩, heof⟩

end Listed

end MySqlAnalysis
