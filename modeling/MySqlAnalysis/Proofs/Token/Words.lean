import MySqlAnalysis.Proofs.Token.Regions
import MySqlAnalysis.Proofs.Token.Tiling

/-!
# Words

What the text of a token says when its kind is known. An unquoted identifier does not
start with a quote, so that there is nothing to strip (`tokenize_identifier_unquote`).
A keyword token spells its keyword (`tokenize_keyword_word`), and a word that spells a
keyword of the server is that keyword (`tokenize_kind_of_spelling`).
-/

set_option autoImplicit false

namespace MySqlAnalysis

open Text

/-- An unquoted identifier or a keyword. -/
def TokenKind.isWord : TokenKind → Bool
  | identifier => true
  | keyword _ => true
  | _ => false

namespace Token

variable {d : Dialect} {inComment : Bool}

/-- Every lexeme was recognised at the head of some text. -/
theorem lexemesFrom_recognized (pending : Nat) (s : ScanState) (cs : List Char) :
    ∀ l ∈ lexemesFrom d pending s cs, ∃ (s' : ScanState) (c : Char) (rest : List Char),
      l.kind = (recognize d s' c rest).kind ∧
        l.text = c :: rest.take (recognize d s' c rest).extra := by
  fun_induction lexemesFrom d pending s cs with
  | case1 => exact fun l hl => absurd hl List.not_mem_nil
  | case2 pending s c rest ih => exact ih
  | case3 s c rest r text ih =>
      intro l hl
      rcases List.mem_cons.1 hl with rfl | hl
      · exact ⟨s, c, rest, rfl, rfl⟩
      · exact ih l hl

/-- A token of a text was recognised at the head of some text, or it ends the input. -/
theorem tokenize_cases {text : String} {t : Token} (ht : t ∈ tokenize d text) :
    (∃ (s : ScanState) (c : Char) (rest : List Char),
      (recognize d s c rest).kind = some t.kind ∧ t.channel = t.kind.channel ∧
        t.text.toList = c :: rest.take (recognize d s c rest).extra) ∨
      (t.kind = .eof ∧ t.text.toList = []) := by
  obtain ⟨last, hlast⟩ : ∃ last, tokenize d text =
      (productsOf 0 (lexemes d text.toList)).filterMap Product.token? ++
        [ending (Position.start.after text.toList) last] :=
    ofLexemes_eq_products 0 _ _
  rw [hlast] at ht
  rcases List.mem_append.1 ht with ht | ht
  · obtain ⟨l, hl, kind, i, hkind, rfl⟩ := mem_filterMap_token? ht
    obtain ⟨s, c, rest, hlkind, hltext⟩ := lexemesFrom_recognized 0 .start text.toList l hl
    exact .inl ⟨s, c, rest, hlkind ▸ hkind, rfl, by simpa [ofLexeme] using hltext⟩
  · rw [List.mem_singleton.1 ht]
    exact .inr ⟨rfl, rfl⟩

/-! ### Where words come from -/

/-- A recognition at the head of `c :: rest` that is no word, or digits that run into
letters, or the word that is looked up. -/
def Recognition.Worded (d : Dialect) (c : Char) (rest : List Char) (r : Recognition) : Prop :=
  ∀ kind, r.kind = some kind → kind.isWord = true →
    (c.isDigit = true ∧ kind = .identifier) ∨
      (isQuote c = false ∧ kind = wordKind d (c :: rest.take r.extra))

variable {c : Char} {rest : List Char}

theorem worded_ite {p : Prop} [Decidable p] {r r' : Recognition}
    (h : p → r.Worded d c rest) (h' : ¬ p → r'.Worded d c rest) :
    (if p then r else r').Worded d c rest := by
  split
  case isTrue hp => exact h hp
  case isFalse hp => exact h' hp

theorem worded_of_kind {kind : TokenKind} {extra : Nat} (h : kind.isWord = false) :
    Recognition.Worded d c rest ⟨some kind, extra, inComment⟩ := by
  rintro _ ⟨⟩ hword
  rw [h] at hword
  cases hword

theorem worded_closed {kind : TokenKind} (h : kind.isWord = false) (extra : Option Nat)
    (text : List Char) : (closed kind extra text inComment).Worded d c rest := by
  cases extra with
  | none =>
      intro kind' hkind
      cases hkind
  | some n => exact worded_of_kind h

theorem worded_unreadable {extra : Nat} :
    Recognition.Worded d c rest ⟨none, extra, inComment⟩ := by
  intro kind hkind
  cases hkind

theorem quotedKind_isWord (quote : Char) : (quotedKind d quote).isWord = false := by
  unfold quotedKind
  split
  · rfl
  · split <;> rfl

theorem worded_blockComment (body : List Char) :
    (blockComment d body inComment).Worded d c rest := by
  unfold blockComment
  dsimp only
  exact worded_ite (fun _ => worded_of_kind rfl) fun _ => worded_closed rfl _ _

theorem radixNumber?_isWord {cs : List Char} {n : Nat × TokenKind}
    (h : radixNumber? cs = some n) : n.2.isWord = false ∧ cs.head? = some '0' := by
  unfold radixNumber? at h
  split at h
  · split at h
    · dsimp only at h
      split at h
      · cases h
      · cases h
        refine ⟨?_, rfl⟩
        dsimp only
        split <;> rfl
    · cases h
  · cases h

theorem plainNumber_isWord (cs : List Char) : (plainNumber cs).2.isWord = false := by
  have hkinds : ∀ a b : Bool,
      (if a then TokenKind.float else if b then .decimal else .integer).isWord = false := by
    decide
  exact hkinds _ _

/-- Digits run into letters only where digits come first. -/
theorem worded_number (h : c.isDigit = true ∨ c = '.') :
    (number (c :: rest) inComment).Worded d c rest := by
  have hkind : ((radixNumber? (c :: rest)).getD (plainNumber (c :: rest))).2.isWord = false := by
    cases hn : radixNumber? (c :: rest) with
    | none => exact plainNumber_isWord _
    | some n => exact (radixNumber?_isWord hn).1
  unfold number
  dsimp only
  refine worded_ite (fun hrun => ?_) fun _ => worded_of_kind hkind
  rcases h with hc | rfl
  · intro kind hk _
    cases hk
    exact .inl ⟨hc, rfl⟩
  · -- a fraction is no integer
    have hradix : radixNumber? ('.' :: rest) = none := rfl
    have hplain : (plainNumber ('.' :: rest)).2 = .float ∨
        (plainNumber ('.' :: rest)).2 = .decimal := by
      have hfraction : ∀ a : Bool, ∀ n : Nat,
          (if a then TokenKind.float else if 1 + n != 0 then .decimal else .integer) = .float ∨
          (if a then TokenKind.float else if 1 + n != 0 then .decimal else .integer) =
            .decimal := by
        intro a n
        cases a <;> simp
      exact hfraction _ _
    rw [hradix, Option.getD_none] at hrun
    rcases hplain with hplain | hplain <;> simp [hplain] at hrun

theorem worded_atSign (text : List Char) : (atSign d text inComment).Worded d c rest := by
  unfold atSign
  split
  · refine worded_ite (fun _ => worded_of_kind rfl) fun _ => ?_
    refine worded_ite (fun _ => worded_closed rfl _ _) fun _ => ?_
    exact worded_ite (fun _ => worded_of_kind rfl) fun _ => worded_unreadable
  · exact worded_unreadable

theorem operator?_isWord {text : List Char} {kind : TokenKind} {extra : Nat}
    (h : operator? d c text = some (kind, extra)) : kind.isWord = false := by
  have hall : ∀ p ∈ operator? d c text, p.1.isWord = false := by
    fun_cases operator? d c text <;> simp [ite_eq_iff, TokenKind.isWord]
  exact hall _ h

theorem recognize_worded (s : ScanState) (c : Char) (rest : List Char) :
    (recognize d s c rest).Worded d c rest := by
  unfold recognize
  dsimp only
  refine worded_ite (fun _ => worded_of_kind rfl) fun _ => ?_
  refine worded_ite (fun _ => worded_of_kind rfl) fun _ => ?_
  refine worded_ite (fun _ => worded_blockComment _) fun _ => ?_
  refine worded_ite (fun _ => worded_of_kind rfl) fun _ => ?_
  refine worded_ite (fun _ => worded_closed (quotedKind_isWord c) _ _) fun hquote => ?_
  refine worded_ite (fun _ => worded_closed rfl _ _) fun _ => ?_
  refine worded_ite (fun _ => worded_closed rfl _ _) fun _ => ?_
  refine worded_ite (fun _ => worded_closed rfl _ _) fun _ => ?_
  refine worded_ite (fun hnumber => worded_number ?_) fun _ => ?_
  · rw [Bool.or_eq_true, Bool.and_eq_true, beq_iff_eq] at hnumber
    exact hnumber.imp_right And.left
  refine worded_ite (fun _ => worded_atSign _) fun _ => ?_
  refine worded_ite (fun _ => ?_) fun _ => ?_
  · intro kind hkind _
    cases hkind
    exact .inr ⟨by simpa using hquote, rfl⟩
  · split
    case h_1 kind extra ho => exact worded_of_kind (operator?_isWord ho)
    case h_2 => exact worded_unreadable

/-! ### What a word says -/

/-- A word of a text: digits that run into letters, or what was looked up. -/
theorem tokenize_worded {text : String} {t : Token} (ht : t ∈ tokenize d text)
    (hword : t.kind.isWord = true) : ∃ (c : Char) (rest : List Char), t.text.toList = c :: rest ∧
      ((c.isDigit = true ∧ t.kind = .identifier) ∨
        (isQuote c = false ∧ t.kind = wordKind d (c :: rest))) := by
  rcases tokenize_cases ht with ⟨s, c, rest, hkind, -, htext⟩ | ⟨hkind, -⟩
  · exact ⟨c, _, htext, recognize_worded s c rest t.kind hkind hword⟩
  · rw [hkind] at hword
    cases hword

end Token

section Text

variable {d : Dialect} {text : String} {t : Token}

theorem Text.isQuote_of_isDigit {c : Char} (h : c.isDigit = true) : isQuote c = false := by
  rw [← Bool.not_eq_true]
  intro hquote
  rcases Token.isQuote_cases hquote with rfl | rfl | rfl <;> cases h

theorem Text.unquote_cons {c : Char} (hc : isQuote c = false) (rest : List Char) :
    unquote (c :: rest) = c :: rest := by
  simp [unquote, hc]

/-- An unquoted identifier has no quotes to strip. -/
theorem tokenize_identifier_unquote (ht : t ∈ tokenize d text) (hkind : t.kind = .identifier) :
    unquote t.text.toList = t.text.toList := by
  obtain ⟨c, rest, htext, hcase⟩ := Token.tokenize_worded ht (by rw [hkind]; rfl)
  rw [htext]
  rcases hcase with ⟨hdigit, -⟩ | ⟨hquote, -⟩
  · exact unquote_cons (isQuote_of_isDigit hdigit) rest
  · exact unquote_cons hquote rest

/-- The characters of keywords: letters in upper case, digits and the underscore. -/
def Keyword.isSpelling (c : Char) : Bool :=
  c.isUpper || c.isDigit || c == '_'

/-- The bytes of a keyword, each one read as a character. -/
def Keyword.letters (k : Keyword) : List Char :=
  k.word.toByteArray.data.toList.map Char.ofUInt8

-- The bytes are compared, since decoding the characters of all keywords takes far longer.
theorem Keyword.word_letters :
    ∀ k ∈ Keyword.all, k.word = String.ofList k.letters ∧
      k.letters.head?.any Char.isUpper = true ∧ k.letters.all isSpelling = true := by
  decide +kernel

/-- Every keyword is spelled with these characters, the first one being a letter. -/
theorem Keyword.word_spelling {k : Keyword} (hk : k ∈ Keyword.all) :
    k.word.toList.head?.any Char.isUpper = true ∧ k.word.toList.all isSpelling = true := by
  obtain ⟨hword, hletters⟩ := word_letters k hk
  rwa [hword, String.toList_ofList]

theorem Text.isDigit_of_isAlpha {c : Char} (hc : c.isAlpha = true) : c.isDigit = false := by
  have habove : 'A'.val ≤ c.val := by
    rcases Bool.or_eq_true_iff.1 hc with hupper | hlower
    · exact (of_decide_eq_true hupper).1
    · exact UInt32.le_trans (by decide) (of_decide_eq_true (Bool.and_eq_true_iff.1 hlower).1)
  rw [← Bool.not_eq_true]
  intro hdigit
  have hbelow : c.val ≤ '9'.val := of_decide_eq_true (Bool.and_eq_true_iff.1 hdigit).2
  exact absurd (UInt32.le_trans habove hbelow) (by decide)

theorem Text.toUpper_of_isDigit {c : Char} (h : c.isDigit = true) : c.toUpper = c := by
  have hc : c.val ≤ 57 := by
    simpa using (Bool.and_eq_true_iff.1 h).2
  have hlower : ¬ (c.val ≥ 'a'.val ∧ c.val ≤ 'z'.val) := by
    intro hlower
    exact absurd (UInt32.le_trans hlower.1 hc) (by decide)
  exact dif_neg hlower

theorem wordKind_eq_keyword {word : List Char} {k : Keyword}
    (h : Token.wordKind d word = .keyword k) :
    Keyword.all.find? (·.word == String.ofList (upper word)) = some k := by
  unfold Token.wordKind at h
  split at h
  · cases h
  · split at h
    case h_1 k' hk' =>
      split at h
      · cases h
        simpa [Keyword.ofWord?] using hk'
      · cases h
    case h_2 => cases h

/-- A keyword token spells its keyword. -/
theorem tokenize_keyword_word {k : Keyword} (ht : t ∈ tokenize d text)
    (hkind : t.kind = .keyword k) : t.upperText = k.word := by
  obtain ⟨c, rest, htext, hcase⟩ := Token.tokenize_worded ht (by rw [hkind]; rfl)
  rcases hcase with ⟨-, hid⟩ | ⟨-, hlooked⟩
  · rw [hid] at hkind
    cases hkind
  · rw [hkind] at hlooked
    have hfind := List.find?_some (wordKind_eq_keyword hlooked.symm)
    rw [Token.upperText, htext]
    exact (beq_iff_eq.1 hfind).symm

/-- A word that spells a keyword of the server is that keyword. -/
theorem tokenize_kind_of_spelling {k : Keyword} (ht : t ∈ tokenize d text)
    (hword : t.kind.isWord = true) (hk : Keyword.all.find? (·.word == t.upperText) = some k)
    (hserver : k.isAvailable d.version.grammarFamily = true)
    (hplain : k.word.toList.head? ≠ some '_') : t.kind = .keyword k := by
  obtain ⟨c, rest, htext, hcase⟩ := Token.tokenize_worded ht hword
  have hfound := List.find?_some hk
  have hspelled : k.word = t.upperText := beq_iff_eq.1 hfound
  have hupper : k.word.toList = c.toUpper :: upper rest := by
    rw [hspelled, Token.upperText, htext, String.toList_ofList]
    rfl
  rcases hcase with ⟨hdigit, -⟩ | ⟨-, hlooked⟩
  · -- the word would start with a digit
    have hhead := (Keyword.word_spelling (List.mem_of_find?_eq_some hk)).1
    rw [hupper, toUpper_of_isDigit hdigit] at hhead
    have halpha : c.isAlpha = true := Bool.or_eq_true_iff.2 (.inl hhead)
    rw [isDigit_of_isAlpha halpha] at hdigit
    cases hdigit
  · have hintroducer : Token.isCharsetIntroducer d (c :: rest) = false := by
      rw [← Bool.not_eq_true]
      intro hintroducer
      have hc : c = '_' := by
        simpa using (Bool.and_eq_true_iff.1 hintroducer).1
      rw [hupper, hc] at hplain
      exact hplain rfl
    have hfind : Keyword.ofWord? (String.ofList (c :: rest)) = some k := by
      rw [Keyword.ofWord?, String.toList_ofList, ← hk, Token.upperText, htext]
    rw [hlooked, Token.wordKind, hintroducer, hfind]
    simp [hserver]

end Text

end MySqlAnalysis
