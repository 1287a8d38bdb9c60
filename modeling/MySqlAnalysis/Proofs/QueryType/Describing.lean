import MySqlAnalysis.Proofs.QueryType.CleanStart

/-!
# Describing a table, explaining a statement

The same three words start a description of a table and an explanation of a statement.
The grammar looks two tokens ahead to tell them apart (`explainAhead`), the classifier
reads the words for options and for statements one after the other. On a statement
that was read without an error they agree (`Config.queryType_of_describing`), except
where the classifier takes the name of a table for an option: after `EXTENDED` or
`PARTITIONS` at the end of the input it is undecided.
-/

set_option autoImplicit false

namespace MySqlAnalysis

open Grammar

/-! ### The words that tell -/

namespace Keyword

/-- The words for options that also are names of tables. -/
def explainOptions : List Keyword := [.EXTENDED, .PARTITIONS, .FORMAT]

/-- The words that tell an explanation and are no names on any server. -/
def explainReserved : List Keyword :=
  [.ANALYZE, .FOR, .SELECT, .WITH, .TABLE, .INSERT, .REPLACE, .UPDATE, .DELETE]

theorem isCommon_of_explain {k : Keyword} (hk : k ∈ explainOptions ++ explainReserved) :
    k.isCommon = true := by
  have hwords : ∀ k ∈ explainOptions ++ explainReserved, k.isCommon = true := by decide +kernel
  exact hwords k hk

theorem isFirm_of_explain {k : Keyword} (hk : k ∈ explainReserved) : k.isFirm = true := by
  have hwords : ∀ k ∈ explainReserved, k.isFirm = true := by decide
  exact hwords k hk

end Keyword

namespace QueryType

open Keyword

/-- A word that tells nothing is the name of a table. -/
theorem ofExplain_word {text : String} (rest : List Step)
    (h : text ∉ (explainOptions ++ explainReserved).map word) :
    ofExplain (.word text true :: rest) = explainTable := by
  simp only [explainOptions, explainReserved, List.cons_append, List.nil_append, List.map_cons,
    List.map_nil, List.mem_cons, List.not_mem_nil, or_false, not_or] at h
  obtain ⟨hextended, hpartitions, hformat, hanalyze, hfor, hselect, hwith, htable, hinsert,
    hreplace, hupdate, hdelete⟩ := h
  have hno : isExplainable text = false := by
    simp only [isExplainable, List.contains_eq_mem, List.mem_cons, List.not_mem_nil, or_false,
      decide_eq_false_iff_not, not_or]
    exact ⟨hselect, hwith, htable, hinsert, hreplace, hupdate, hdelete⟩
  rw [ofExplain, hno]
  · rfl
  · exact hextended
  · exact hpartitions
  · exact hformat
  · exact hanalyze
  · exact hfor

/-- What follows an option word is the rest of a name unless a statement starts there. -/
theorem ofExplainMore_eq {steps : List Step} (hstuck : .stuck ∉ steps)
    (hparen : steps.head? ≠ some (.symbol .openParen))
    (hword : ∀ text, nextWord? steps = some text → text ∉ explainReserved.map word) :
    ofExplainMore steps = some (if steps = [] then ambiguous else explainTable) := by
  match steps with
  | [] => rfl
  | .stuck :: rest => simp at hstuck
  | .symbol kind :: rest =>
      cases kind <;> first | rfl | exact absurd rfl hparen
  | .word text b :: rest =>
      have hno : isExplainable text = false := by
        have h := hword text rfl
        simp only [explainReserved, List.map_cons, List.map_nil, List.mem_cons, List.not_mem_nil,
          or_false, not_or] at h
        simp only [isExplainable, List.contains_eq_mem, List.mem_cons, List.not_mem_nil,
          or_false, decide_eq_false_iff_not, not_or]
        exact h.2.2
      rw [ofExplainMore, hno]
      rfl

end QueryType

/-! ### What the grammar accepts -/

namespace Grammar

/-- The program of a description. -/
def describeProgram : Fragment :=
  Program.steps
    [.advance, tableRef,
     .cond .nextText textLiteral (Program.ifHolds .nextName (.node .columnRef identifier))]

variable {c : Context} {s u : State (List Tree)}

/-- A statement that starts with a word for descriptions, and not with an explanation, is
a description. -/
theorem resolve_describe {ahead : List Token} (h : Opens c ahead .describeStatement) :
    simpleStatementBody.body.resolve grammar c ahead 2 =
      .node .describeStatement describeProgram := by
  obtain ⟨hverb, hno⟩ := Bool.and_eq_true_iff.1 (h _ rfl)
  have hno' : explainAhead.holds c ahead = false := by simpa [Look.holds] using hno
  obtain ⟨k, hk, hkind⟩ := kindAt_of_wordAt (n := 0) hverb
  simp only [List.mem_cons, List.not_mem_nil, or_false] at hk
  rcases hk with rfl | rfl | rfl <;>
    simp [simpleStatementBody, Program.body, Program.choose, Program.resolve, Program.settle,
      Look.holds, Look.word, words, otherStatementStarts, hkind, grammar, describeStatementBody,
      hno', describeProgram]

/-- A table starts with a name, and more than the name is read only at a point. -/
theorem Accepts.tableRef (hc : c.ending.isEof = true) (h : Accepts c Grammar.tableRef s u) :
    ∃ t ahead, s.ahead = t :: ahead ∧ t.kind.isName c.family = true ∧
      (c.kindAt ahead 0 = .dot ∨ u.ahead = ahead) := by
  obtain ⟨v, hbody, rfl⟩ := h.node
  obtain ⟨w, hname, hqualified⟩ := hbody.seq
  obtain ⟨t, hahead, ht⟩ := hname.identifier hc
  refine ⟨t, w.ahead, hahead, ht, ?_⟩
  obtain ⟨answer, expected, heval, hbranch⟩ := hqualified.cond hc rfl
  cases answer with
  | true =>
      have hdot := (Bool.and_eq_true_iff.1 (congrArg Prod.fst heval)).1
      simp only [Look.is, Look.holds, List.contains_iff_mem, List.mem_singleton] at hdot
      exact .inl hdot
  | false =>
      right
      rw [hbranch.done]
      rfl

/-- A column of a description is a string or a name, or it is left out. -/
theorem Accepts.describedColumn (hc : c.ending.isEof = true)
    (h : Accepts c (.cond .nextText textLiteral
      (Program.ifHolds .nextName (.node .columnRef Grammar.identifier))) s u) :
    c.kindAt s.ahead 0 ∈ [.singleQuoted, .doubleQuoted] ∨
      (c.kindAt s.ahead 0).isName c.family = true ∨ u.ahead = s.ahead := by
  obtain ⟨answer, expected, heval, hbranch⟩ := h.cond hc rfl
  cases answer with
  | true =>
      left
      simpa [Test.eval] using congrArg Prod.fst heval
  | false =>
      right
      obtain ⟨answer, expected', heval', hbranch⟩ := hbranch.cond hc rfl
      cases answer with
      | true => exact .inl (congrArg Prod.fst heval')
      | false =>
          right
          rw [hbranch.done]

/-- A description reads a name, and after it a second name, a column or nothing. -/
theorem Accepts.describeStatement (hc : c.ending.isEof = true)
    (h : Accepts c simpleStatementBody s u)
    (hend : boundaryKinds.contains (c.kindAt u.ahead 0) = true)
    (hopens : Opens c s.ahead .describeStatement) :
    (c.kindAt s.ahead 1).isName c.family = true ∧
      ((c.kindAt s.ahead 2).isName c.family = true ∨
        c.kindAt s.ahead 2 ∈ [.dot, .singleQuoted, .doubleQuoted, .semicolon, .eof]) := by
  obtain ⟨u, hprogram, rfl⟩ := h.statement hc (resolve_describe hopens)
  obtain ⟨v, hadvance, hrest⟩ := hprogram.seq
  have hverb : c.kindAt s.ahead 0 ≠ .eof := by
    obtain ⟨k, -, hkind⟩ := kindAt_of_wordAt (n := 0) (Bool.and_eq_true_iff.1 (hopens _ rfl)).1
    simp [hkind]
  obtain ⟨verb, hs, -⟩ := advance
    (s := (s.enter c .simpleStatement).enter c .describeStatement) hc hverb hadvance
  obtain ⟨w, htable, hcolumn⟩ := hrest.seq
  obtain ⟨t, ahead, hv, ht, hdot⟩ := htable.tableRef hc
  replace hs : s.ahead = verb :: t :: ahead := by rw [← hv]; exact hs
  have hfirst : c.kindAt s.ahead 1 = t.kind := by rw [hs]; rfl
  have hsecond : c.kindAt s.ahead 2 = c.kindAt ahead 0 := by rw [hs]; rfl
  rw [hfirst, hsecond]
  refine ⟨ht, ?_⟩
  rcases hdot with hdot | rfl
  · rw [hdot]
    exact .inr (by simp)
  rcases hcolumn.describedColumn hc with htext | hname | hu
  · exact .inr ((by simp : [TokenKind.singleQuoted, .doubleQuoted] ⊆ _) htext)
  · exact .inl hname
  · replace hend : boundaryKinds.contains (c.kindAt u.ahead 0) = true := hend
    rw [hu] at hend
    exact .inr ((by simp [boundaryKinds] : boundaryKinds ⊆ _) (List.contains_iff_mem.1 hend))

end Grammar

/-! ### What the classifier finds -/

section Kinds

open Keyword QueryType

variable {d : Dialect} {text : String} {c : Context} {ahead : List Token}

variable (he : c.Ended ahead) (hmem : ∀ t ∈ ahead, t ∈ tokenize d text)

include hmem in
/-- A word that tells is spelled only by its keyword. -/
theorem nextWord?_not_mem {ks : List Keyword} (hks : ks ⊆ explainOptions ++ explainReserved)
    {n : Nat} (h : ∀ k ∈ ks, c.kindAt ahead n ≠ .keyword k) {spelled : String}
    (hword : nextWord? (Step.ofSignificant (ahead.drop n)) = some spelled) :
    spelled ∉ ks.map word := by
  intro hspelled
  obtain ⟨k, hk, rfl⟩ := List.mem_map.1 hspelled
  exact h k hk ((common_of_isCommon (isCommon_of_explain (hks hk))).kindAt hmem hword)

include he hmem

/-- The words for descriptions and explanations are read alike. -/
theorem ofSteps_of_describeVerb
    (h : Look.holds c ahead (.word [.DESCRIBE, .DESC, .EXPLAIN]) = true) :
    ofSteps (Step.ofSignificant ahead) = ofExplain (Step.ofSignificant (ahead.drop 1)) := by
  obtain ⟨k, hk, hkind⟩ := kindAt_of_wordAt (n := 0) h
  rw [ofSteps_of_verb he hmem hkind]
  simp only [List.mem_cons, List.not_mem_nil, or_false] at hk
  rcases hk with rfl | rfl | rfl <;> rfl

/-- What the classifier finds after an option word in a description. -/
theorem ofExplainMore_of_described {n : Nat}
    (h : (c.kindAt ahead n).isName c.family = true ∨
      c.kindAt ahead n ∈ [.dot, .singleQuoted, .doubleQuoted, .semicolon, .eof]) :
    ofExplainMore (Step.ofSignificant (ahead.drop n)) =
      some (if c.kindAt ahead n = .eof then ambiguous else explainTable) := by
  have hstuck := Step.stuck_not_mem_ofSignificant (ahead.drop n)
  have hparen : c.kindAt ahead n ≠ .openParen := by
    intro hkind
    rw [hkind] at h
    simp [TokenKind.isName] at h
  have hfree : ∀ k ∈ explainReserved, c.kindAt ahead n ≠ .keyword k := by
    intro k hk hkind
    rw [hkind, isName_of_isFirm (isFirm_of_explain hk)] at h
    simp at h
  have hword : ∀ spelled, nextWord? (Step.ofSignificant (ahead.drop n)) = some spelled →
      spelled ∉ explainReserved.map word :=
    fun _ => nextWord?_not_mem hmem (by simp) hfree
  rcases Step.ofSignificant_drop he n with ⟨heof, hsteps⟩ | ⟨t, -, hkind, hne, hsteps⟩
  · rw [hsteps, if_pos heof]
    rfl
  · rw [hsteps] at hword hstuck ⊢
    rw [ofExplainMore_eq hstuck ?_ hword, if_neg (List.cons_ne_nil _ _), if_neg (hkind ▸ hne)]
    rw [← hkind] at hparen
    rw [List.head?_cons, Step.ofToken]
    split
    case h_1 => simp
    case h_2 => simp
    case h_3 => simpa using hparen

/-- What the classifier finds where a description has its table. -/
theorem ofExplain_of_name {n : Nat} (h : (c.kindAt ahead n).isName c.family = true)
    (hformat : c.kindAt ahead n ≠ .keyword .FORMAT) :
    ofExplain (Step.ofSignificant (ahead.drop n)) =
      if c.kindAt ahead n ∈ words [.EXTENDED, .PARTITIONS] then
        ofExplainMore (Step.ofSignificant (ahead.drop (n + 1)))
      else explainTable := by
  rcases Step.ofSignificant_drop he n with ⟨heof, -⟩ | ⟨t, ht, hkind, hne, hsteps⟩
  · rw [heof] at h
    cases h
  cases hk : c.kindAt ahead n with
  | keyword k =>
      have hstep : Step.ofToken t = .word k.word true :=
        Step.ofToken_keyword (hmem t ht) (hkind.trans hk)
      rw [hstep] at hsteps
      split
      case isTrue hoption =>
        rw [hsteps]
        rcases List.mem_pair.1 hoption with hoption | hoption
        · cases hoption
          rfl
        · cases hoption
          rfl
      case isFalse hoption =>
        -- the word is no option, and the words that are no names are excluded
        have hfree : ∀ k' ∈ explainOptions ++ explainReserved,
            c.kindAt ahead n ≠ .keyword k' := by
          intro k' hk' heq
          rcases List.mem_append.1 hk' with hk' | hk'
          · rw [hk] at heq hformat
            cases heq
            simp only [explainOptions, List.mem_cons, List.not_mem_nil, or_false] at hk'
            rcases hk' with rfl | rfl | rfl
            · exact hoption (by simp [Grammar.words])
            · exact hoption (by simp [Grammar.words])
            · exact hformat rfl
          · rw [heq, isName_of_isFirm (isFirm_of_explain hk')] at h
            cases h
        rw [hsteps]
        refine ofExplain_word _ (nextWord?_not_mem hmem (List.Subset.refl _) hfree ?_)
        rw [hsteps]
        rfl
  | identifier =>
      rw [hsteps, Step.ofToken, hkind, hk]
      rfl
  | quotedIdentifier =>
      rw [hsteps, Step.ofToken, hkind, hk]
      rfl
  | _ =>
      rw [hk] at h
      cases h

/-- Where an explanation starts, the classifier sees one. -/
theorem Grammar.Opens.ofSteps_explain (h : Opens c ahead .explainStatement) :
    QueryType.ofSteps (Step.ofSignificant ahead) = explainStatement := by
  obtain ⟨hverb, hahead⟩ := Bool.and_eq_true_iff.1 (h _ rfl)
  rw [ofSteps_of_describeVerb he hmem hverb]
  rcases Bool.or_eq_true_iff.1 hahead with hstart | hoption
  · -- a statement comes right after the first word
    refine Step.apply_ofSignificant_of_mem he hmem (List.contains_iff_mem.1 hstart) ?_ fun _ => rfl
    simp [explainable, Grammar.words]
  rcases Bool.or_eq_true_iff.1 hoption with hformat | hmore
  · obtain ⟨k, hk, hkind⟩ := kindAt_of_wordAt (Bool.and_eq_true_iff.1 hformat).1
    rw [List.mem_singleton.1 hk] at hkind
    rw [Step.ofSignificant_of_kindAt he hmem hkind (by simp) (by simp)]
    rfl
  · -- an option comes first
    obtain ⟨hword, hstart⟩ := Bool.and_eq_true_iff.1 hmore
    obtain ⟨k, hk, hkind⟩ := kindAt_of_wordAt hword
    have hmore : ofExplainMore (Step.ofSignificant (ahead.drop 2)) = explainStatement := by
      refine Step.apply_ofSignificant_of_mem he hmem (List.contains_iff_mem.1 hstart) ?_
        fun _ => rfl
      simp [explainable, Grammar.words]
    rw [Step.ofSignificant_of_kindAt he hmem hkind (by simp) (by simp), ← hmore]
    simp only [List.mem_cons, List.not_mem_nil, or_false] at hk
    rcases hk with rfl | rfl <;> rfl

end Kinds

/-! ### Analyses -/

/-- A text without a parser error that starts with an explanation is classified as one. A
description of a table whose name does not start with `FORMAT` is classified as one, unless
the input ends after a name that also is an option. -/
theorem Config.queryType_of_describing (c : Config) (text : String)
    (herror : (c.analyze .query text).diagnostics.parser = none) :
    ((c.analyze .query text).document.leadingRule? = some .explainStatement →
      (c.analyze .query text).queryType = .explainStatement) ∧
    ((c.analyze .query text).document.leadingRule? = some .describeStatement →
      (c.analyze .query text).kindAt 1 ≠ .keyword .FORMAT →
        (c.analyze .query text).queryType =
          if (c.analyze .query text).kindAt 1 ∈ words [.EXTENDED, .PARTITIONS] ∧
              (c.analyze .query text).kindAt 2 = .eof then .ambiguous
          else .explainTable) := by
  have he := context_ended c text
  have hmem : ∀ t ∈ c.ahead text, t ∈ tokenize c.dialect text := fun t => mem_of_mem_ahead
  have htype : some (c.analyze .query text).queryType =
    QueryType.ofSteps (Step.ofSignificant (c.ahead text)) := c.analyze_queryType text
  rw [Document.leadingRule?_eq, analyze_kindAt, analyze_kindAt]
  constructor
  · intro hrule
    obtain ⟨statement, hfirst, hrule⟩ := Option.bind_eq_some_iff.1 hrule
    have hopens := (exists_clean_statement herror hfirst).2 _ hrule
    exact Option.some.inj (htype.trans (hopens.ofSteps_explain he hmem))
  · intro hrule hformat
    obtain ⟨statement, hfirst, hrule⟩ := Option.bind_eq_some_iff.1 hrule
    obtain ⟨⟨s, u, hs, -, haccepts, -, hend⟩, hopens⟩ := exists_clean_statement herror hfirst
    have hdescribe := hopens _ hrule
    obtain ⟨hname, hmore⟩ := haccepts.describeStatement he.ending hend (hs ▸ hdescribe)
    rw [hs] at hname hmore
    rw [ofSteps_of_describeVerb he hmem (Bool.and_eq_true_iff.1 (hdescribe _ rfl)).1,
      ofExplain_of_name he hmem hname hformat, ofExplainMore_of_described he hmem hmore] at htype
    refine Option.some.inj (htype.trans ?_)
    split
    case isTrue hoption => simp [hoption]
    case isFalse hoption => simp [hoption]

/-- A word that is the name of a table or an option, as what follows tells. -/
theorem Config.queryType_of_describing_extended :
    (Config.standard.analyze .query "DESC extended a").queryType = .explainTable ∧
      (Config.standard.analyze .query "DESC extended SELECT a").queryType = .explainStatement := by
  have htable : (Config.standard.analyze .query "DESC extended a").diagnostics.parser = none ∧
      (Config.standard.analyze .query "DESC extended a").document.leadingRule? =
        some .describeStatement ∧
      (Config.standard.analyze .query "DESC extended a").kindAt 1 = .keyword .EXTENDED ∧
      (Config.standard.analyze .query "DESC extended a").kindAt 2 = .identifier := by
    decide +kernel
  have hstatement :
      (Config.standard.analyze .query "DESC extended SELECT a").diagnostics.parser = none ∧
      (Config.standard.analyze .query "DESC extended SELECT a").document.leadingRule? =
        some .explainStatement := by
    decide +kernel
  obtain ⟨hclean, hrule, hoption, hnext⟩ := htable
  constructor
  · rw [(Config.queryType_of_describing _ _ hclean).2 hrule (by simp [hoption])]
    simp [hnext]
  · exact (Config.queryType_of_describing _ _ hstatement.1).1 hstatement.2

/-- A table with the name of an option, described at the end of the input, is not classified
as described. -/
theorem Config.queryType_of_describing_undecided :
    (Config.standard.analyze .query "DESCRIBE extended").diagnostics.lexer = none ∧
      (Config.standard.analyze .query "DESCRIBE extended").diagnostics.parser = none ∧
      (Config.standard.analyze .query "DESCRIBE extended").document.leadingRule? =
        some .describeStatement ∧
      (Config.standard.analyze .query "DESCRIBE extended").queryType ≠ .explainTable := by
  decide +kernel

end MySqlAnalysis
