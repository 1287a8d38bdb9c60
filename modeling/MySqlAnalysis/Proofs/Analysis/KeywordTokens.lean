import MySqlAnalysis.Proofs.Reference.WellFormed
import MySqlAnalysis.Proofs.Token.VersionComments
import MySqlAnalysis.Proofs.Token.Words

/-!
# Keywords in a text

Whether a word is a keyword can be asked of its text alone, and the tokenizer decides it
while it cuts a text into tokens. Both agree on every token of an analysis
(`Config.analyze_keywords`). A token spelled with the characters of keywords is looked up
as a word wherever it stands (`Token.tokenize_kind_of_parts`), since everything else that
is read starts with another character or has a quote in it (`Token.recognize_start`).
-/

set_option autoImplicit false

namespace MySqlAnalysis

open Text

/-! ### Spelling -/

/-- A character is a small letter or its own capital. -/
theorem Text.isLower_or_toUpper_eq (c : Char) : c.isLower = true ∨ c.toUpper = c := by
  by_cases h : c.val ≥ 'a'.val ∧ c.val ≤ 'z'.val
  · exact .inl (Bool.and_eq_true_iff.2 ⟨decide_eq_true h.1, decide_eq_true h.2⟩)
  · exact .inr (dif_neg h)

theorem Text.isAlpha_of_toUpper {c : Char} (h : c.toUpper.isUpper = true) : c.isAlpha = true := by
  refine Bool.or_eq_true_iff.2 ?_
  rcases isLower_or_toUpper_eq c with hc | hc
  · exact .inr hc
  · exact .inl (hc ▸ h)

theorem Text.isIdentifierPart_of_toUpper {c : Char} (h : Keyword.isSpelling c.toUpper = true) :
    isIdentifierPart c = true := by
  rcases isLower_or_toUpper_eq c with hc | hc
  · have halpha : c.isAlpha = true := Bool.or_eq_true_iff.2 (.inr hc)
    simp [isIdentifierPart, isIdentifierStart, halpha]
  · rw [hc] at h
    simp only [Keyword.isSpelling, Bool.or_eq_true] at h
    rcases h with (h | h) | h
    · have halpha : c.isAlpha = true := Bool.or_eq_true_iff.2 (.inl h)
      simp [isIdentifierPart, isIdentifierStart, halpha]
    · simp [isIdentifierPart, h]
    · simp [isIdentifierPart, isIdentifierStart, h]

/-- A text that spells a keyword starts with a letter and goes on like an identifier. -/
theorem Keyword.spelled {text : String} {k : Keyword} (h : ofWord? text = some k) :
    ∃ c rest, text.toList = c :: rest ∧ c.isAlpha = true ∧
      ∀ a ∈ rest, isIdentifierPart a = true := by
  have hfind : Keyword.all.find? (·.word == String.ofList (upper text.toList)) = some k := h
  have hspelled := List.find?_some hfind
  have hword : k.word = String.ofList (upper text.toList) := beq_iff_eq.1 hspelled
  obtain ⟨hhead, hall⟩ := word_spelling (List.mem_of_find?_eq_some hfind)
  rw [hword, String.toList_ofList] at hhead hall
  cases htext : text.toList with
  | nil =>
      rw [htext] at hhead
      cases hhead
  | cons c rest =>
      rw [htext] at hhead hall
      rw [List.all_eq_true] at hall
      refine ⟨c, rest, rfl, isAlpha_of_toUpper hhead, fun a ha => ?_⟩
      exact isIdentifierPart_of_toUpper
        (hall _ (List.mem_map_of_mem (List.mem_cons_of_mem c ha)))

/-! ### Words of a text -/

namespace Token

variable {d : Dialect}

/-- What starts with a letter is a word, or a string with a mark in front of its
apostrophe. -/
theorem recognize_start (s : ScanState) {c : Char} (hc : c.isAlpha = true) (rest : List Char) :
    (rest.head? = some apostrophe ∧ ∃ kind extra, recognize d s c rest =
        closed kind (Option.map (· + 1) extra) rest s.versionComment) ∨
      recognize d s c rest =
        ⟨some (wordKind d (c :: rest.take (runLength isIdentifierPart rest))),
          runLength isIdentifierPart rest, s.versionComment⟩ := by
  have hne : ∀ a : Char, a.isAlpha = false → (c == a) = false := by
    intro a ha
    rw [beq_eq_false_iff_ne]
    rintro rfl
    rw [ha] at hc
    cases hc
  have hblank : isBlank c = false := by simp (disch := decide) only [isBlank, hne, Bool.or_false]
  have hquote : isQuote c = false := by simp (disch := decide) only [isQuote, hne, Bool.or_false]
  have hstart : isIdentifierStart c = true := by simp [isIdentifierStart, hc]
  unfold recognize
  dsimp only
  rw [hblank, hne '#' (by decide), hne '-' (by decide), hne '/' (by decide), hne '*' (by decide),
    hquote, isDigit_of_isAlpha hc, hne '.' (by decide), hne '@' (by decide), hstart]
  simp only [Bool.false_and, Bool.false_or, Bool.false_eq_true, if_false, if_true]
  -- only the marks in front of a string look at the next character
  by_cases happ : (rest.head? == some apostrophe) = true
  · rw [happ]
    simp only [Bool.and_true]
    have hhead := beq_iff_eq.1 happ
    split
    · exact .inl ⟨hhead, _, (find? [apostrophe] rest.tail).map (· + 1), by rw [Option.map_map]; rfl⟩
    split
    · exact .inl ⟨hhead, _, (find? [apostrophe] rest.tail).map (· + 1), by rw [Option.map_map]; rfl⟩
    split
    · exact .inl ⟨hhead, _, _, rfl⟩
    · simp
  · rw [Bool.not_eq_true] at happ
    rw [happ]
    simp only [Bool.and_false, Bool.false_eq_true, if_false]
    exact .inr trivial

/-- A token spelled like an identifier is looked up as one. -/
theorem tokenize_kind_of_parts {text : String} {t : Token} (ht : t ∈ tokenize d text) {c : Char}
    {rest : List Char} (htext : t.text.toList = c :: rest) (hc : c.isAlpha = true)
    (hrest : ∀ a ∈ rest, isIdentifierPart a = true) : t.kind = wordKind d (c :: rest) := by
  rcases tokenize_cases ht with ⟨s, a, x, hkind, -, hx⟩ | ⟨-, hempty⟩
  · rw [htext] at hx
    obtain ⟨rfl, hx⟩ := List.cons.inj hx
    rcases recognize_start (d := d) s hc x with ⟨happ, k, extra, hrecognized⟩ | hrecognized
    · -- an apostrophe would be in the token
      rw [hrecognized] at hkind hx
      cases extra with
      | none => cases hkind
      | some n =>
          obtain ⟨y, rfl⟩ := List.head?_eq_some_iff.1 happ
          have hno := hrest apostrophe (hx ▸ List.mem_cons_self)
          cases hno
    · rw [hrecognized] at hkind hx
      rw [hx]
      exact (Option.some.inj hkind).symm
  · rw [htext] at hempty
    cases hempty

/-- A word is a keyword exactly if it spells one of the server's family: the name of a
character set behind an underscore spells none. -/
theorem wordKind_eq_keyword_iff {word : List Char} {k : Keyword} :
    wordKind d word = .keyword k ↔
      Keyword.ofWord? (String.ofList word) = some k ∧
        k.isAvailable d.version.grammarFamily = true := by
  rw [wordKind]
  cases hintroducer : isCharsetIntroducer d word with
  | true =>
      rw [isCharsetIntroducer, Bool.and_eq_true, beq_iff_eq] at hintroducer
      -- a keyword starts with a letter, the name of a character set with an underscore
      refine iff_of_false (fun h => by cases h) fun h => ?_
      obtain ⟨c, rest, htext, hc, -⟩ := Keyword.spelled h.1
      rw [String.toList_ofList] at htext
      rw [htext] at hintroducer
      obtain rfl : c = '_' := Option.some.inj hintroducer.1
      cases hc
  | false =>
      rw [if_neg Bool.false_ne_true]
      cases Keyword.ofWord? (String.ofList word) with
      | none => simp
      | some k' =>
          dsimp only
          split
          case isTrue h =>
            rw [TokenKind.keyword.injEq, Option.some.injEq]
            exact (and_iff_left_of_imp fun hk => hk ▸ h).symm
          case isFalse h =>
            refine iff_of_false (fun hk => by cases hk) fun hk => ?_
            rw [Option.some.inj hk.1] at h
            exact h hk.2

/-- A token is a keyword exactly if its text spells one of the server's family. -/
theorem tokenize_keyword_iff {text : String} {t : Token} (ht : t ∈ tokenize d text)
    (k : Keyword) :
    t.kind = .keyword k ↔
      Keyword.ofWord? t.text = some k ∧ k.isAvailable d.version.grammarFamily = true := by
  constructor
  · intro hkind
    obtain ⟨c, rest, htext, hcase⟩ := tokenize_worded ht (by rw [hkind]; rfl)
    rw [hkind] at hcase
    rcases hcase with ⟨-, hno⟩ | ⟨-, hlooked⟩
    · cases hno
    · have hspelled : t.text = String.ofList (c :: rest) := by rw [← htext, String.ofList_toList]
      rw [hspelled]
      exact wordKind_eq_keyword_iff.1 hlooked.symm
  · rintro ⟨hk, havailable⟩
    obtain ⟨c, rest, htext, hc, hrest⟩ := Keyword.spelled hk
    rw [tokenize_kind_of_parts ht htext hc hrest, wordKind_eq_keyword_iff, ← htext,
      String.ofList_toList]
    exact ⟨hk, havailable⟩

end Token

/-! ### The keyword policy -/

namespace Keyword

variable {text : String} {f : Family}

theorem isKeyword_iff :
    isKeyword text (some f) = true ↔ ∃ k, ofWord? text = some k ∧ k.isAvailable f = true := by
  unfold isKeyword
  cases ofWord? text <;> simp

theorem isReservedWord_iff :
    isReservedWord text (some f) = true ↔ ∃ k, ofWord? text = some k ∧ k.isReserved f = true := by
  unfold isReservedWord
  cases ofWord? text <;> simp

theorem isAvailable_of_isReserved {k : Keyword} (h : k.isReserved f = true) :
    k.isAvailable f = true := by
  rw [isReserved, beq_iff_eq] at h
  rw [isAvailable, h]
  rfl

end Keyword

section Policy

variable {d : Dialect} {text : String} {t : Token} {f : Family}

/-- The policy and the tokenizer agree on keywords. -/
theorem Token.isKeyword_iff (hf : d.version.grammarFamily = f) (ht : t ∈ tokenize d text) :
    Keyword.isKeyword t.text (some f) = true ↔ ∃ k, t.kind = .keyword k := by
  subst hf
  rw [Keyword.isKeyword_iff]
  exact exists_congr fun k => (tokenize_keyword_iff ht k).symm

/-- The policy and the tokenizer agree on reserved words. -/
theorem Token.isReservedWord_iff (hf : d.version.grammarFamily = f) (ht : t ∈ tokenize d text) :
    Keyword.isReservedWord t.text (some f) = true ↔
      ∃ k, t.kind = .keyword k ∧ k.isReserved f = true := by
  subst hf
  rw [Keyword.isReservedWord_iff]
  refine exists_congr fun k => and_congr_left fun hreserved => ?_
  rw [tokenize_keyword_iff ht]
  exact (and_iff_left (Keyword.isAvailable_of_isReserved hreserved)).symm

end Policy

/-! ### Analyses -/

/-- The server of a known family is read with the grammar of that family. -/
theorem Config.grammarFamily_of_family? {c : Config} {f : Family} (h : c.family? = some f) :
    c.dialect.version.grammarFamily = f := by
  obtain ⟨v, hv, hfamily⟩ := Option.bind_eq_some_iff.1 h
  have hversion : c.dialect.version = v := by
    rw [dialect, serverVersion, hv]
    rfl
  rw [hversion, ServerVersion.grammarFamily, hfamily]
  rfl

namespace Analysis

variable {a : Analysis} {offset : Nat} {r : Reference}

/-- A keyword is mentioned where no reference is and the token is a reserved word, when
the references themselves are none of keywords. -/
theorem mentionAt?_keyword_iff (hnone : ∀ r ∈ a.references, ∀ word, r.mention ≠ .keyword word) :
    (a.mentionAt? offset = some r ∧ ∃ word, r.mention = .keyword word) ↔
      (∀ r' ∈ a.references, r'.contains offset = false) ∧
        ∃ t, a.tokenAt? offset = some t ∧ Keyword.isReservedWord t.text a.family = true ∧
          r = ⟨a.references.length, t.start, t.stop, .keyword t.text⟩ := by
  rw [mentionAt?]
  cases hat : a.referenceAt? offset with
  | some r' =>
      -- the reference itself is found, which is no keyword
      have hmem := List.mem_of_find?_eq_some hat
      have hcontains := List.find?_some hat
      refine iff_of_false ?_ ?_
      · rintro ⟨⟨⟩, word, hword⟩
        exact hnone _ hmem word hword
      · rintro ⟨hfree, -⟩
        rw [hfree r' hmem] at hcontains
        cases hcontains
  | none =>
      have hfree : ∀ r' ∈ a.references, r'.contains offset = false := by
        simpa using List.find?_eq_none.1 hat
      dsimp only
      rw [Option.bind_eq_some_iff]
      constructor
      · rintro ⟨⟨t, ht, hr⟩, -⟩
        rw [keywordReference?] at hr
        split at hr
        case isTrue hreserved =>
          cases hr
          exact ⟨hfree, t, ht, hreserved, rfl⟩
        case isFalse => cases hr
      · rintro ⟨-, t, ht, hreserved, rfl⟩
        exact ⟨⟨t, ht, if_pos hreserved⟩, t.text, rfl⟩

end Analysis

/-- On a server of a known family the keyword policy and the tokenizer agree on every
token of a text, so that a keyword is mentioned exactly where no reference is and the
token is one that the grammar treats as reserved. -/
theorem Config.analyze_keywords (c : Config) {f : Family} (hf : c.family? = some f)
    (rule : Grammar.StartRule) (text : String) :
    (∀ t ∈ (c.analyze rule text).tokens,
      (Keyword.isKeyword t.text (some f) = true ↔ ∃ k, t.kind = .keyword k) ∧
        (Keyword.isReservedWord t.text (some f) = true ↔
          ∃ k, t.kind = .keyword k ∧ k.isReserved f = true)) ∧
      ∀ (offset : Nat) (r : Reference),
        ((c.analyze rule text).mentionAt? offset = some r ∧
            ∃ word, r.mention = .keyword word) ↔
          (∀ r' ∈ (c.analyze rule text).references, r'.contains offset = false) ∧
            ∃ t, (c.analyze rule text).tokenAt? offset = some t ∧
              (∃ k, t.kind = .keyword k ∧ k.isReserved f = true) ∧
              r = ⟨(c.analyze rule text).references.length, t.start, t.stop,
                .keyword t.text⟩ := by
  have hgrammar := grammarFamily_of_family? hf
  have hfamily : (c.analyze rule text).family = some f := hf
  have hread : ∀ t ∈ (c.analyze rule text).tokens, t ∈ tokenize c.dialect text := by
    intro t ht
    simpa [Analysis.tokens, analyze] using ht
  have hwell : Reference.WellFormed (c.analyze rule text).references :=
    Document.references_wellFormed _ (c.parseTokens_aliases rule _)
  refine ⟨fun t ht => ?_, fun offset r => ?_⟩
  · exact ⟨Token.isKeyword_iff hgrammar (hread t ht),
      Token.isReservedWord_iff hgrammar (hread t ht)⟩
  · rw [Analysis.mentionAt?_keyword_iff fun r hr word hword =>
      hwell.linked.noKeyword word (hword ▸ List.mem_map_of_mem hr), hfamily]
    refine and_congr_right fun _ => exists_congr fun t => and_congr_right fun ht => ?_
    have hmem := hread t (List.mem_of_find?_eq_some ht)
    rw [Token.isReservedWord_iff hgrammar hmem]

/-- The word that starts a query, and no reference is there. -/
theorem Config.analyze_keywords_select :
    standard.family? = some .v80 ∧
      (standard.analyze .query "Select 1").mentionAt? 3 = some ⟨1, 0, 5, .keyword "Select"⟩ := by
  have hfamily : standard.family? = some .v80 := by decide +kernel
  have hfree : ∀ r ∈ (standard.analyze .query "Select 1").references, r.contains 3 = false := by
    decide +kernel
  have htoken : (standard.analyze .query "Select 1").tokenAt? 3 =
      some ⟨.keyword .SELECT, .default, "Select", 0, 5, 1, 0, 0⟩ := by
    decide +kernel
  have hlength : (standard.analyze .query "Select 1").references.length = 1 := by decide +kernel
  have hmention := ((analyze_keywords standard hfamily .query "Select 1").2 3 _).2
    ⟨hfree, _, htoken, ⟨.SELECT, rfl, rfl⟩, rfl⟩
  rw [hlength] at hmention
  exact ⟨hfamily, hmention.1⟩

end MySqlAnalysis
