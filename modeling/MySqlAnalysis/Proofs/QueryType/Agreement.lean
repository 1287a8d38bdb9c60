import MySqlAnalysis.Proofs.Analysis.TwoPass
import MySqlAnalysis.Proofs.Grammar.Leading
import MySqlAnalysis.Proofs.QueryType.Wording
import MySqlAnalysis.Proofs.Token.Words

/-!
# The kind of a statement and its tree

Statements are classified by their first words, and the grammar decides by the kinds
of their first tokens. Where a script starts with a statement that has structure, both
decide the same, whatever errors follow (`Config.queryType_of_leadingRule`). The words
that the classifier reads are those of the keyword tokens that the grammar looked at
(`classify_of_keyword`).
-/

set_option autoImplicit false

namespace MySqlAnalysis

open Grammar

/-- The kind of a savepoint statement with this first keyword. -/
def QueryType.ofSavepoint? : Keyword → Option QueryType
  | .SAVEPOINT => some savePoint
  | .RELEASE => some releaseSavePoint
  | .ROLLBACK => some rollbackSavePoint
  | _ => none

/-- The kind of a transaction statement with this first keyword. -/
def QueryType.ofTransaction? : Keyword → Option QueryType
  | .COMMIT => some commit
  | .ROLLBACK => some rollbackWork
  | .START => some startTransaction
  | _ => none

/-- The kind of statement that a leading rule stands for; for savepoints and
transactions the first keyword tells. -/
def QueryType.ofRule? (first : Option Keyword) : Rule → Option QueryType
  | .insertStatement => some insert
  | .replaceStatement => some replace
  | .updateStatement => some update
  | .deleteStatement => some delete
  | .createTable => some createTable
  | .createIndex => some createIndex
  | .createDatabase => some createDatabase
  | .createRole => some createRole
  | .dropTable => some dropTable
  | .dropDatabase => some dropDatabase
  | .dropIndex => some dropIndex
  | .dropView => some dropView
  | .dropRole => some dropRole
  | .alterTable => some alterTable
  | .truncateTable => some truncateTable
  | .renameTable => some renameTable
  | .useCommand => some use
  | .savepointStatement => first.bind ofSavepoint?
  | .transactionStatement => first.bind ofTransaction?
  | _ => none

/-- The keyword that a text starts with. -/
def Analysis.firstKeyword? (a : Analysis) : Option Keyword :=
  (significant a.tokens).head?.bind (·.kind.keyword?)

/-! ### Keywords as steps -/

namespace Step

/-- The steps of significant tokens. -/
def ofSignificant (ts : List Token) : List Step :=
  (ts.takeWhile fun t => !t.isEof).map ofToken

/-- The step of a keyword. -/
def ofKeyword (k : Keyword) : Step :=
  word k.word true

theorem ofSignificant_cons {t : Token} (ts : List Token) (h : t.isEof = false) :
    ofSignificant (t :: ts) = ofToken t :: ofSignificant ts := by
  simp [ofSignificant, h]

/-- A list in which no end of the input is hidden has the steps of its significant tokens. -/
theorem ofTokens_eq_ofSignificant {tokens : List Token}
    (h : ∀ t ∈ tokens, t.isEof = true → t.isSignificant = true) :
    ofTokens tokens = ofSignificant (significant tokens) := by
  rw [ofTokens_eq, if_pos (closed_of_shown h), List.append_nil, leading_eq_takeWhile h]
  rfl

theorem stuck_not_mem_ofSignificant (ts : List Token) : stuck ∉ ofSignificant ts := by
  rw [ofSignificant, List.mem_map]
  rintro ⟨t, -, ht⟩
  exact ofToken_ne_stuck t ht

end Step

namespace QueryType

/-- The next word, if the next step is one. -/
def nextWord? : List Step → Option String
  | .word text _ :: _ => some text
  | _ => none

theorem afterOptionalWord_eq {steps : List Step} (h : .stuck ∉ steps)
    (decide : Option String → List Step → Option QueryType) :
    afterOptionalWord steps decide = decide (nextWord? steps) steps.tail := by
  match steps with
  | [] => rfl
  | .word _ _ :: _ => rfl
  | .symbol _ :: _ => rfl
  | .stuck :: _ => simp at h

end QueryType

section Keywords

variable {d : Dialect} {text : String} {c : Context} {ahead : List Token}

/-- A keyword ahead is a token. -/
theorem getElem?_of_kindAt (he : c.Ended ahead) {n : Nat} {k : Keyword}
    (h : c.kindAt ahead n = .keyword k) : ∃ t, ahead[n]? = some t ∧ t.kind = .keyword k := by
  cases ht : ahead[n]? with
  | some t =>
      refine ⟨t, rfl, ?_⟩
      rwa [Context.kindAt, Context.peek, ht] at h
  | none =>
      rw [Context.kindAt, Context.peek, ht, Option.getD_none] at h
      have hending : c.ending.kind = .eof := beq_iff_eq.1 he.ending
      rw [hending] at h
      cases h

theorem Step.ofToken_keyword {t : Token} {k : Keyword} (ht : t ∈ tokenize d text)
    (h : t.kind = .keyword k) : ofToken t = ofKeyword k := by
  rw [ofToken, h, ofKeyword, ← tokenize_keyword_word ht h]

/-- The keywords that the tokens ahead start with are the first steps. -/
theorem Step.ofSignificant_keywords (ks : List Keyword) :
    ∀ ahead : List Token, c.Ended ahead → (∀ t ∈ ahead, t ∈ tokenize d text) →
      (∀ i k, ks[i]? = some k → c.kindAt ahead i = .keyword k) →
        ofSignificant ahead = ks.map ofKeyword ++ ofSignificant (ahead.drop ks.length) := by
  induction ks with
  | nil => exact fun ahead _ _ _ => rfl
  | cons k ks ih =>
      intro ahead he hmem hks
      obtain ⟨t, ht, hkind⟩ := getElem?_of_kindAt he (hks 0 k rfl)
      cases ahead with
      | nil => cases ht
      | cons u us =>
          cases ht
          have heof : t.isEof = false := by simp [Token.isEof, hkind]
          have he' : c.Ended ([t] ++ us) := he
          have hrest := ih us he'.of_suffix (fun v hv => hmem v (List.mem_cons_of_mem _ hv))
            fun i k' hk' => (Facts.kindAt_tail c (t :: us) i).trans (hks (i + 1) k' hk')
          rw [ofSignificant_cons us heof, hrest, ofToken_keyword (hmem t List.mem_cons_self) hkind]
          rfl

/-- A word that is a keyword of every server. -/
structure Keyword.Common (k : Keyword) : Prop where
  found : all.find? (·.word == k.word) = some k
  known : ∀ f, k.isAvailable f = true
  plain : k.word.toList.head? ≠ some '_'

theorem Keyword.common_to : Common .TO :=
  ⟨by decide +kernel, fun f => by cases f <;> rfl, by decide +kernel⟩

theorem Keyword.common_work : Common .WORK :=
  ⟨by decide +kernel, fun f => by cases f <;> rfl, by decide +kernel⟩

/-- A step that spells such a word comes from its keyword. -/
theorem Keyword.Common.kindAt {k : Keyword} (hk : k.Common)
    (hmem : ∀ t ∈ ahead, t ∈ tokenize d text) {n : Nat}
    (h : QueryType.nextWord? (Step.ofSignificant (ahead.drop n)) = some k.word) :
    c.kindAt ahead n = .keyword k := by
  have hhead : c.kindAt ahead n = c.kindAt (ahead.drop n) 0 := by
    simp [Context.kindAt, Context.peek]
  rw [hhead]
  cases hdrop : ahead.drop n with
  | nil =>
      rw [hdrop] at h
      cases h
  | cons t ts =>
      have ht : t ∈ ahead := List.mem_of_mem_drop (hdrop ▸ List.mem_cons_self)
      rw [hdrop] at h
      by_cases heof : t.isEof = true
      · simp [Step.ofSignificant, heof, QueryType.nextWord?] at h
      · rw [Step.ofSignificant_cons ts (by simpa using heof)] at h
        have hword : t.kind.isWord = true ∧ t.upperText = k.word := by
          cases hkind : t.kind <;> simp_all [Step.ofToken, QueryType.nextWord?, TokenKind.isWord]
        exact tokenize_kind_of_spelling (hmem t ht) hword.1 (hword.2 ▸ hk.found) (hk.known _)
          hk.plain

end Keywords

/-! ### Openings -/

section Openings

variable {d : Dialect} {text : String} {c : Context} {ahead : List Token}
  (he : c.Ended ahead) (hmem : ∀ t ∈ ahead, t ∈ tokenize d text)

theorem kindAt_of_wordAt {n : Nat} {ks : List Keyword}
    (h : Look.holds c ahead (.wordAt n ks) = true) :
    ∃ k ∈ ks, c.kindAt ahead n = .keyword k := by
  simp only [Look.wordAt, Look.holds, words, List.contains_iff_mem, List.mem_map] at h
  obtain ⟨k, hk, heq⟩ := h
  exact ⟨k, hk, heq.symm⟩

include he hmem

theorem ofSteps_of_verb {verb : Keyword} (h : c.kindAt ahead 0 = .keyword verb) :
    QueryType.ofSteps (Step.ofSignificant ahead) =
      QueryType.ofVerb verb.word (Step.ofSignificant (ahead.drop 1)) := by
  rw [Step.ofSignificant_keywords [verb] ahead he hmem]
  · rfl
  · intro i k hk
    match i with
    | 0 =>
        cases hk
        exact h
    | i + 1 => simp at hk

theorem ofSteps_of_object {verb object : Keyword} (h : c.kindAt ahead 0 = .keyword verb)
    (hobject : c.kindAt ahead 1 = .keyword object) :
    QueryType.ofSteps (Step.ofSignificant ahead) =
      QueryType.ofVerb verb.word (.ofKeyword object :: Step.ofSignificant (ahead.drop 2)) := by
  rw [Step.ofSignificant_keywords [verb, object] ahead he hmem]
  · rfl
  · intro i k hk
    match i with
    | 0 =>
        cases hk
        exact h
    | 1 =>
        cases hk
        exact hobject
    | i + 2 => simp at hk

/-- A rule that one word opens. -/
theorem Grammar.Opens.ofSteps_verb {rule : Rule} {verb : Keyword} {type : QueryType}
    (h : Opens c ahead rule) (hrule : openingOf? rule = some (.word [verb]))
    (htype : ∀ rest, QueryType.ofVerb verb.word rest = type) :
    QueryType.ofSteps (Step.ofSignificant ahead) = type := by
  obtain ⟨k, hk, hkind⟩ := kindAt_of_wordAt (n := 0) (h _ hrule)
  rw [List.mem_singleton.1 hk] at hkind
  rw [ofSteps_of_verb he hmem hkind, htype]

/-- A rule that two words open. -/
theorem Grammar.Opens.ofSteps_object {rule : Rule} {verb : Keyword} {objects : List Keyword}
    {type : QueryType} (h : Opens c ahead rule)
    (hrule : openingOf? rule = some (.both (.word [verb]) (.wordAt 1 objects)))
    (htype : ∀ k ∈ objects, ∀ rest, QueryType.ofVerb verb.word (.ofKeyword k :: rest) = type) :
    QueryType.ofSteps (Step.ofSignificant ahead) = type := by
  obtain ⟨hverb, hobject⟩ := Bool.and_eq_true_iff.1 (h _ hrule)
  obtain ⟨k, hk, hkind⟩ := kindAt_of_wordAt (n := 0) hverb
  obtain ⟨k', hk', hkind'⟩ := kindAt_of_wordAt hobject
  rw [List.mem_singleton.1 hk] at hkind
  rw [ofSteps_of_object he hmem hkind hkind', htype k' hk']

/-- A table that is changed, possibly after a few modifiers. -/
theorem Grammar.Opens.ofSteps_alterTable (h : Opens c ahead .alterTable) :
    QueryType.ofSteps (Step.ofSignificant ahead) = QueryType.alterTable := by
  obtain ⟨hverb, hbeyond⟩ := Bool.and_eq_true_iff.1 (h _ rfl)
  obtain ⟨k, hk, hkind⟩ := kindAt_of_wordAt (n := 0) hverb
  rw [List.mem_singleton.1 hk] at hkind
  have hobject : ∃ k' ∈ Keyword.TABLE :: alterModifiers, c.kindAt ahead 1 = .keyword k' := by
    rw [Look.holds, List.contains_iff_mem, List.mem_singleton] at hbeyond
    rw [← Facts.kindAt_tail, ← List.drop_one]
    cases hrest : ahead.drop 1 with
    | nil =>
        rw [hrest] at hbeyond
        cases hbeyond
    | cons t ts =>
        rw [hrest, kindBeyond] at hbeyond
        split at hbeyond
        case isTrue hmodifier =>
          obtain ⟨k', hk', heq⟩ := List.mem_map.1 (List.contains_iff_mem.1 hmodifier)
          exact ⟨k', List.mem_cons_of_mem _ hk', heq.symm⟩
        case isFalse => exact ⟨.TABLE, List.mem_cons_self, hbeyond⟩
  obtain ⟨k', hk', hkind'⟩ := hobject
  rw [ofSteps_of_object he hmem hkind hkind']
  simp only [alterModifiers, List.mem_cons, List.not_mem_nil, or_false] at hk'
  rcases hk' with rfl | rfl | rfl | rfl <;> rfl

/-- The classifier sees a return to a savepoint where the grammar does. -/
theorem ofSteps_rollback (h : c.kindAt ahead 0 = .keyword .ROLLBACK) :
    QueryType.ofSteps (Step.ofSignificant ahead) =
      some (if rollbackToAhead.holds c ahead then .rollbackSavePoint else .rollbackWork) := by
  have hword : ∀ n, .stuck ∉ Step.ofSignificant (ahead.drop n) := fun n =>
    Step.stuck_not_mem_ofSignificant _
  split
  case isTrue hback =>
    rcases Bool.or_eq_true_iff.1 hback with hback | hback
    · obtain ⟨hwork, hto⟩ := Bool.and_eq_true_iff.1 hback
      obtain ⟨k, hk, hkind⟩ := kindAt_of_wordAt hwork
      obtain ⟨k', hk', hkind'⟩ := kindAt_of_wordAt hto
      rw [List.mem_singleton.1 hk] at hkind
      rw [List.mem_singleton.1 hk'] at hkind'
      rw [Step.ofSignificant_keywords [.ROLLBACK, .WORK, .TO] ahead he hmem]
      · rfl
      · intro i k hk
        match i with
        | 0 => cases hk; exact h
        | 1 => cases hk; exact hkind
        | 2 => cases hk; exact hkind'
        | i + 3 => simp at hk
    · obtain ⟨k, hk, hkind⟩ := kindAt_of_wordAt hback
      rw [List.mem_singleton.1 hk] at hkind
      rw [ofSteps_of_object he hmem h hkind]
      rfl
  case isFalse hback =>
    -- the word after `ROLLBACK` or after `ROLLBACK WORK` is another one
    simp only [rollbackToAhead, Look.wordAt, words, Look.holds, List.map_cons, List.map_nil,
      List.contains_iff_mem, List.mem_singleton, Bool.or_eq_true, Bool.and_eq_true,
      not_or, not_and] at hback
    by_cases hwork : c.kindAt ahead 1 = .keyword .WORK
    · have hne : QueryType.nextWord? (Step.ofSignificant (ahead.drop 2)) ≠ some "TO" :=
        fun heq => hback.1 hwork (Keyword.common_to.kindAt hmem heq)
      rw [ofSteps_of_object he hmem h hwork]
      show QueryType.afterOptionalWord (Step.ofSignificant (ahead.drop 2))
        (fun word _ => QueryType.ofRollbackWord word) = _
      rw [QueryType.afterOptionalWord_eq (hword 2)]
      simp [QueryType.ofRollbackWord, hne]
    · have hne : QueryType.nextWord? (Step.ofSignificant (ahead.drop 1)) ≠ some "TO" :=
        fun heq => hback.2 (Keyword.common_to.kindAt hmem heq)
      have hne' : QueryType.nextWord? (Step.ofSignificant (ahead.drop 1)) ≠ some "WORK" :=
        fun heq => hwork (Keyword.common_work.kindAt hmem heq)
      rw [ofSteps_of_verb he hmem h]
      show QueryType.ofRollback (Step.ofSignificant (ahead.drop 1)) = _
      rw [QueryType.ofRollback, QueryType.afterOptionalWord_eq (hword 1)]
      generalize Step.ofSignificant (ahead.drop 1) = steps at hne hne' ⊢
      simp [QueryType.ofRollbackWord, hne, hne']

theorem Grammar.Opens.ofSteps_savepoint {k : Keyword} {type : QueryType}
    (h : Opens c ahead .savepointStatement) (hk : c.kindAt ahead 0 = .keyword k)
    (htype : QueryType.ofSavepoint? k = some type) :
    QueryType.ofSteps (Step.ofSignificant ahead) = type := by
  unfold QueryType.ofSavepoint? at htype
  split at htype
  · rw [ofSteps_of_verb he hmem hk, ← htype]
    rfl
  · rw [ofSteps_of_verb he hmem hk, ← htype]
    rfl
  · have hback : rollbackToAhead.holds c ahead = true := by
      rcases Bool.or_eq_true_iff.1 (h _ rfl) with hsave | hback
      · simp [Look.word, words, Look.holds, hk] at hsave
      · exact (Bool.and_eq_true_iff.1 hback).2
    rw [ofSteps_rollback he hmem hk, if_pos hback]
    exact htype
  · cases htype

theorem Grammar.Opens.ofSteps_transaction {k : Keyword} {type : QueryType}
    (h : Opens c ahead .transactionStatement) (hk : c.kindAt ahead 0 = .keyword k)
    (htype : QueryType.ofTransaction? k = some type) :
    QueryType.ofSteps (Step.ofSignificant ahead) = type := by
  have hopening := h _ rfl
  unfold QueryType.ofTransaction? at htype
  split at htype
  · rw [ofSteps_of_verb he hmem hk, ← htype]
    rfl
  · have hback : rollbackToAhead.holds c ahead = false := by
      simpa [Look.word, words, Look.holds, hk] using hopening
    rw [ofSteps_rollback he hmem hk, hback]
    exact htype
  · have hobject : c.kindAt ahead 1 = .keyword .TRANSACTION := by
      simpa [Look.word, Look.wordAt, words, Look.holds, hk] using hopening
    rw [ofSteps_of_object he hmem hk hobject, ← htype]
    rfl
  · cases htype

/-- Where the tokens open a rule, their words tell the kind that the rule stands for. -/
theorem Grammar.Opens.ofSteps {rule : Rule} {first : Option Keyword} {type : QueryType}
    (h : Opens c ahead rule) (hfirst : ∀ k, first = some k → c.kindAt ahead 0 = .keyword k)
    (htype : QueryType.ofRule? first rule = some type) :
    QueryType.ofSteps (Step.ofSignificant ahead) = type := by
  have hverb : ∀ {verb : Keyword} {type' : QueryType}, some type' = some type →
      openingOf? rule = some (.word [verb]) →
      (∀ rest, QueryType.ofVerb verb.word rest = type') →
        QueryType.ofSteps (Step.ofSignificant ahead) = type := by
    rintro verb _ ⟨⟩ hrule hword
    exact h.ofSteps_verb he hmem hrule hword
  have hobject : ∀ {verb : Keyword} {objects : List Keyword} {type' : QueryType},
      some type' = some type →
      openingOf? rule = some (.both (.word [verb]) (.wordAt 1 objects)) →
      (∀ rest, objects.map (fun k => QueryType.ofVerb verb.word (.ofKeyword k :: rest)) =
        objects.map fun _ => some type') →
        QueryType.ofSteps (Step.ofSignificant ahead) = type := by
    rintro verb objects _ ⟨⟩ hrule hwords
    exact h.ofSteps_object he hmem hrule fun k hk rest => List.map_inj_left.1 (hwords rest) k hk
  unfold QueryType.ofRule? at htype
  split at htype
  · exact hverb htype rfl fun _ => rfl
  · exact hverb htype rfl fun _ => rfl
  · exact hverb htype rfl fun _ => rfl
  · exact hverb htype rfl fun _ => rfl
  · exact hobject htype rfl fun _ => rfl
  · exact hobject htype rfl fun _ => rfl
  · exact hobject htype rfl fun _ => rfl
  · exact hobject htype rfl fun _ => rfl
  · exact hobject htype rfl fun _ => rfl
  · exact hobject htype rfl fun _ => rfl
  · exact hobject htype rfl fun _ => rfl
  · exact hobject htype rfl fun _ => rfl
  · exact hobject htype rfl fun _ => rfl
  · exact (h.ofSteps_alterTable he hmem).trans htype
  · exact hverb htype rfl fun _ => rfl
  · exact hobject htype rfl fun _ => rfl
  · exact hverb htype rfl fun _ => rfl
  · obtain ⟨k, hk, htype⟩ := Option.bind_eq_some_iff.1 htype
    exact h.ofSteps_savepoint he hmem (hfirst k hk) htype
  · obtain ⟨k, hk, htype⟩ := Option.bind_eq_some_iff.1 htype
    exact h.ofSteps_transaction he hmem (hfirst k hk) htype
  · cases htype

end Openings

/-! ### Analyses -/

/-- The classifier returns on the tokens of a text. -/
theorem Config.analyze_queryType (c : Config) (text : String) :
    some (c.analyze .query text).queryType =
      QueryType.ofSteps (Step.ofSignificant (significant (tokenize c.dialect text))) := by
  have htype : QueryType.classify? (tokenize c.dialect text) =
      QueryType.ofSteps (Step.ofSignificant (significant (tokenize c.dialect text))) := by
    rw [QueryType.classify?, Step.ofTokens_eq_ofSignificant (tokenize_listed c.dialect text).shown]
  obtain ⟨type, hreturns⟩ :=
    QueryType.ofSteps_readsInOrder.returns (Step.stuck_not_mem_ofSignificant _)
  rw [Analysis.queryType, analyze_tokens, QueryType.classify, htype, hreturns]
  rfl

/-- Where the tree of a text starts with a statement that has structure, the text is
classified as this statement, also when there are errors after its first words. -/
theorem Config.queryType_of_leadingRule (c : Config) (text : String) {rule : Rule}
    {type : QueryType}
    (hrule : (c.analyze .query text).document.leadingRule? = some rule)
    (htype : QueryType.ofRule? (c.analyze .query text).firstKeyword? rule = some type) :
    (c.analyze .query text).queryType = type := by
  have hlisted := tokenize_listed c.dialect text
  simp only [Document.leadingRule?, Option.bind_eq_bind, Option.bind_eq_some_iff] at hrule
  obtain ⟨root, hroot, statement, hhead, hrule⟩ := hrule
  have hparse : (parse c.exactOptions .query (tokenize c.dialect text)).root = some root := by
    rw [← Config.parseTokens_eq_exact hlisted]
    exact hroot
  split at hrule
  · next hstatement =>
    have hopens := parse_leading c.exactOptions hlisted hparse hhead hstatement hrule
    have hfirst : ∀ k, (c.analyze .query text).firstKeyword? = some k →
        (contextOf c.exactOptions (tokenize c.dialect text)).kindAt
          (significant (tokenize c.dialect text)) 0 = .keyword k := by
      intro k hk
      obtain ⟨t, ht, hkeyword⟩ := Option.bind_eq_some_iff.1 hk
      have htokens : (significant (tokenize c.dialect text))[0]? = some t := by
        rw [← List.head?_eq_getElem?]
        simpa [Analysis.tokens, Config.analyze] using ht
      rw [Context.kindAt, Context.peek, htokens, Option.getD_some]
      cases hkind : t.kind <;> simp_all [TokenKind.keyword?]
    refine Option.some.inj ((c.analyze_queryType text).trans ?_)
    exact hopens.ofSteps (contextOf_ended hlisted) (fun t ht => (List.mem_filter.1 ht).1) hfirst
      htype
  · cases hrule

/-- A definition that stops in its middle is still a definition of a table. -/
theorem Config.queryType_of_leadingRule_broken :
    (Config.standard.analyze .query "CREATE TEMPORARY t (").document.leadingRule? =
        some .createTable ∧
      (Config.standard.analyze .query "CREATE TEMPORARY t (").grammarEvents.isEmpty = false ∧
      (Config.standard.analyze .query "CREATE TEMPORARY t (").queryType = .createTable := by
  have hbroken :
      (Config.standard.analyze .query "CREATE TEMPORARY t (").document.leadingRule? =
          some .createTable ∧
        (Config.standard.analyze .query "CREATE TEMPORARY t (").grammarEvents.isEmpty = false := by
    decide +kernel
  exact ⟨hbroken.1, hbroken.2, Config.queryType_of_leadingRule _ _ hbroken.1 rfl⟩

end MySqlAnalysis
