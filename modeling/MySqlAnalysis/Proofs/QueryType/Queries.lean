import MySqlAnalysis.Proofs.QueryType.Skimming

/-!
# Queries and views

The classifier looks for the word of a query behind any number of parentheses or behind
common table expressions, and for the word of a view behind a definer. On a statement
that was read without an error it finds what the grammar found
(`Config.queryType_of_query`), with two exceptions. A query in parentheses after common
table expressions is skimmed over like a group inside them, so the search goes on behind
it. And the name of an account that is the word for an event or a function is taken for
what is defined.
-/

set_option autoImplicit false

namespace MySqlAnalysis

open Grammar

/-- The first token of a query in parentheses that comes right after common table
expressions, among the parts of a query. -/
def Tree.groupAfterWith? : List Tree → Option Nat
  | clause :: body :: _ =>
    if clause.isRule .withClause &&
        body.children.head?.any (·.isRule .queryExpressionParens) then some body.first
    else none
  | _ => none

/-- The first token of a query in parentheses that comes right after the common table
expressions of a statement. -/
def Tree.parenthesisAfterWith? (statement : Tree) : Option Nat := do
  let select ← statement.children.head?
  let query ← select.children.head?
  groupAfterWith? query.children

/-! ### The parts of a query -/

namespace Grammar.Accepts

variable {c : Context} {s u : State (List Tree)}

/-- A query starts with a parenthesis or with its word. -/
theorem queryPrimary (hc : c.ending.isEof = true) (h : Accepts c Grammar.queryPrimary s u) :
    ∃ primary, u.built = s.built ++ [primary] ∧
      ((primary.isRule .queryExpressionParens = true ∧ ∃ t v w, s.ahead = t :: v.ahead ∧
          t.kind = .openParen ∧ Accepts c queryExpressionBody v w) ∨
        (primary.isRule .queryExpressionParens = false ∧
          c.kindAt s.ahead 0 = .keyword .SELECT)) := by
  obtain ⟨answer, expected, -, hbranch⟩ := h.cond hc rfl
  cases answer with
  | true =>
      obtain ⟨x, hbody, rfl⟩ := hbranch.call.node
      obtain ⟨v, hopen, hbody⟩ := hbody.seq
      obtain ⟨w, hquery, -⟩ := hbody.seq
      obtain ⟨t, hs, ht⟩ := hopen.expect hc (by simp)
      exact ⟨_, rfl, .inl ⟨rfl, t, v, w, hs, ht, hquery.call⟩⟩
  | false =>
      obtain ⟨x, hbody, rfl⟩ := hbranch.call.node
      obtain ⟨v, hselect, -⟩ := hbody.seq
      obtain ⟨t, hs, ht⟩ := hselect.expect hc (by simp)
      refine ⟨_, rfl, .inr ⟨rfl, ?_⟩⟩
      rw [show s.ahead = t :: v.ahead from hs]
      exact ht

/-- The phrases that are read between the parts of a query leave earlier parts alone. -/
theorem appends_query (phrase : Phrase)
    (h : [Phrase.querySpecification, .queryParens, .orderClause, .lockingClauses].contains phrase =
      true) :
    (grammar phrase).appends
      [Phrase.querySpecification, .queryParens, .orderClause, .lockingClauses].contains = true := by
  simp only [List.contains_iff_mem, List.mem_cons, List.not_mem_nil, or_false] at h
  rcases h with rfl | rfl | rfl | rfl <;> rfl

/-- The parts of a query: common table expressions if their word comes first, and the body. -/
theorem queryExpression (hc : c.ending.isEof = true) (h : Accepts c queryExpressionBody s u) :
    ∃ v w query body rest more,
      ((c.kindAt s.ahead 0 ≠ .keyword .WITH ∧ v.ahead = s.ahead ∧ v.built = []) ∨
        (c.kindAt s.ahead 0 = .keyword .WITH ∧
          ∃ s' : State (List Tree), s'.ahead = s.ahead ∧ s'.built = [] ∧
            Accepts c withClause s' v)) ∧
      Accepts c Grammar.queryPrimary (v.enter c .queryExpressionBody) w ∧
      u.built = s.built ++ [query] ∧ query.children = v.built ++ body :: more ∧
      body.isRule .queryExpressionBody = true ∧ body.first = (v.current c).index ∧
      body.children = w.built ++ rest := by
  obtain ⟨z, hbody, rfl⟩ := h.node
  obtain ⟨v, hwith, hbody⟩ := hbody.seq
  obtain ⟨y, hnode, hclauses⟩ := hbody.seq
  obtain ⟨x, hquery, rfl⟩ := hnode.node
  obtain ⟨w, hprimary, hunions⟩ := hquery.seq
  obtain ⟨rest, hrest⟩ := hunions.appends appends_query rfl
  obtain ⟨more, hmore⟩ := hclauses.appends appends_query rfl
  have hparts : z.built = v.built ++
      Tree.closed .queryExpressionBody (v.current c).index x.last x.built :: more := by
    rw [← hmore, List.append_cons]
    rfl
  refine ⟨v, w, _, _, rest, more, ?_, hprimary, rfl, hparts, rfl, rfl, hrest.symm⟩
  obtain ⟨answer, expected, heval, hbranch⟩ := hwith.cond hc rfl
  have hanswer : (words [.WITH]).contains (c.kindAt s.ahead 0) = answer := congrArg Prod.fst heval
  cases answer with
  | true =>
      exact .inr ⟨by simpa [words] using hanswer, { s.enter c .queryExpression with expected },
        rfl, rfl, hbranch⟩
  | false =>
      refine .inl ⟨by simpa [words] using hanswer, ?_⟩
      rw [hbranch.done]
      exact ⟨rfl, rfl⟩

/-- A query starts with one of its words, or with a parenthesis and a query. -/
theorem queryStart (hc : c.ending.isEof = true) (h : Accepts c queryExpressionBody s u) :
    c.kindAt s.ahead 0 ∈ words [.SELECT, .WITH] ∨
      ∃ t v w, s.ahead = t :: v.ahead ∧ t.kind = .openParen ∧
        Accepts c queryExpressionBody v w := by
  obtain ⟨v, w, -, -, -, -, ⟨-, hv, -⟩ | ⟨hwith, -⟩, hprimary, -⟩ := h.queryExpression hc
  · obtain ⟨-, -, ⟨-, t, x, y, ht, hopen, hquery⟩ | ⟨-, hselect⟩⟩ := hprimary.queryPrimary hc
    · exact .inr ⟨t, x, y, hv ▸ ht, hopen, hquery⟩
    · left
      rw [← hv, show c.kindAt v.ahead 0 = _ from hselect]
      simp [words]
  · left
    rw [hwith]
    simp [words]

end Grammar.Accepts

/-! ### Queries in parentheses -/

section Queries

open QueryType

variable {d : Dialect} {text : String} {c : Context} {s u : State (List Tree)}

/-- The search behind parentheses finds the word of a query. -/
theorem ofParenthesised_of_accepts (ahead : List Token) :
    ∀ {s u : State (List Tree)}, s.ahead = ahead → c.Ended ahead →
      (∀ t ∈ ahead, t ∈ tokenize d text) → Accepts c queryExpressionBody s u →
        ofParenthesised (Step.ofSignificant ahead) = select := by
  have hword : ∀ {ahead : List Token}, c.Ended ahead → (∀ t ∈ ahead, t ∈ tokenize d text) →
      c.kindAt ahead 0 ∈ words [.SELECT, .WITH] →
        ofParenthesised (Step.ofSignificant ahead) = select := by
    intro ahead he hmem hkind
    refine Step.apply_ofSignificant_of_mem (n := 0) (f := ofParenthesised) he hmem hkind ?_
      fun _ => rfl
    simp [words]
  induction ahead with
  | nil =>
      intro s u hs he hmem h
      rcases h.queryStart he.ending with hkind | ⟨o, v, w, ho, -⟩
      · exact hword he hmem (hs ▸ hkind)
      · cases hs.symm.trans ho
  | cons t ts ih =>
      intro s u hs he hmem h
      rcases h.queryStart he.ending with hkind | ⟨o, v, w, ho, hopen, hquery⟩
      · exact hword he hmem (hs ▸ hkind)
      · cases hs.symm.trans ho
        -- the search drops the parenthesis, and the query inside starts behind it
        rw [Step.ofSignificant_of_head he hmem hopen (by simp) (by simp)]
        exact ih rfl (he.of_isSuffix (List.suffix_cons t _))
          (fun t ht => hmem t (List.mem_cons_of_mem _ ht)) hquery

/-- A statement that starts as queries do is read as one. -/
theorem Grammar.resolve_select {ahead : List Token} (h : Opens c ahead .selectStatement) :
    simpleStatementBody.body.resolve grammar c ahead 2 =
      .node .selectStatement
        (Program.steps [.call .queryExpression, .call .lockingClauses]) := by
  have hlook : Look.holds c ahead
    (.among 0 [.openParen, .keyword .SELECT, .keyword .WITH]) = true := h _ rfl
  simp only [simpleStatementBody, Program.body, Program.choose, List.foldr_cons,
    Program.resolve, Program.settle, hlook, if_true, grammar, selectStatementBody]

/-- The statement and its query, whatever locks the tables after it. -/
theorem Grammar.Accepts.selectStatement (hc : c.ending.isEof = true)
    (h : Accepts c simpleStatementBody s u) (hopens : Opens c s.ahead .selectStatement)
    (hs : s.built = []) {statement : Tree} (hu : u.built = [statement]) :
    ∃ (s' u' : State (List Tree)) (select : Tree) (more : List Tree), s'.ahead = s.ahead ∧
      s'.built = [] ∧ Accepts c queryExpressionBody s' u' ∧ statement.children = [select] ∧
      select.children = u'.built ++ more := by
  obtain ⟨v, hprogram, rfl⟩ := h.statement hc (resolve_select hopens)
  obtain ⟨w, hquery, hlocking⟩ := hprogram.seq
  obtain ⟨more, hmore⟩ := hlocking.appends appends_query rfl
  have hstatement : s.built ++ [Tree.closed .simpleStatement (s.current c).index v.last
      [Tree.closed .selectStatement ((s.enter c .simpleStatement).current c).index v.last
        v.built]] = [statement] := hu
  rw [hs] at hstatement
  cases hstatement
  exact ⟨(s.enter c .simpleStatement).enter c .selectStatement, w, _, more, rfl, rfl,
    hquery.call, rfl, hmore.symm⟩

/-- A query without common table expressions is found. -/
theorem ofSteps_of_primary {ahead : List Token} (he : c.Ended ahead)
    (hmem : ∀ t ∈ ahead, t ∈ tokenize d text) (hs : s.ahead = ahead)
    (h : Accepts c Grammar.queryPrimary s u) : ofSteps (Step.ofSignificant ahead) = select := by
  obtain ⟨-, -, ⟨-, t, v, w, ht, hopen, hquery⟩ | ⟨-, hkind⟩⟩ := h.queryPrimary he.ending
  · have hcons : ahead = t :: v.ahead := hs.symm.trans ht
    subst hcons
    rw [Step.ofSignificant_of_head he hmem hopen (by simp) (by simp)]
    exact ofParenthesised_of_accepts v.ahead rfl (he.of_isSuffix (List.suffix_cons t _))
      (fun t ht => hmem t (List.mem_cons_of_mem _ ht)) hquery
  · rw [hs] at hkind
    rw [Step.ofSignificant_of_head he hmem hkind (by simp) (by simp)]
    rfl

/-- Behind common table expressions the search goes on. -/
theorem ofSteps_of_withClause {ahead : List Token} (he : c.Ended ahead)
    (hmem : ∀ t ∈ ahead, t ∈ tokenize d text) (hs : s.ahead = ahead)
    (hwith : c.kindAt ahead 0 = .keyword .WITH) (h : Accepts c withClause s u) :
    u.ahead <:+ ahead ∧
      ofSteps (Step.ofSignificant ahead) = ofWith 0 (Step.ofSignificant u.ahead) := by
  have hskims : Skims d text (ofWith 0) ahead.tail u.ahead := by
    rw [← hs] at hwith ⊢
    exact h.withClause_skims he.ending hwith
  refine ⟨hskims.suffix.trans (List.tail_suffix _), ?_⟩
  rw [Step.ofSignificant_of_head he hmem hwith (by simp) (by simp),
    ← hskims.same fun t ht => hmem t (List.mem_of_mem_tail ht)]
  rfl

/-- What a query is classified as. -/
theorem ofSteps_of_query (he : c.Ended s.ahead) (hmem : ∀ t ∈ s.ahead, t ∈ tokenize d text)
    (h : Accepts c simpleStatementBody s u) (hopens : Opens c s.ahead .selectStatement)
    (hs : s.built = []) {statement : Tree} (hu : u.built = [statement]) :
    (statement.parenthesisAfterWith? = none ∧
        ofSteps (Step.ofSignificant s.ahead) = select) ∨
      ∃ t rest, statement.parenthesisAfterWith? = some t.index ∧ t :: rest <:+ s.ahead ∧
        ofSteps (Step.ofSignificant s.ahead) = ofWith 0 (Step.ofSignificant (t :: rest)) := by
  have hc := he.ending
  obtain ⟨s', u', selectNode, locks, hs', hbuilt, hquery, hchildren, hselect⟩ :=
    h.selectStatement hc hopens hs hu
  obtain ⟨v, w, query, body, rest, more, hstart, hprimary, hu', hparts, hbody, hfirst, hunion⟩ :=
    hquery.queryExpression hc
  have hgroup : statement.parenthesisAfterWith? =
      Tree.groupAfterWith? (v.built ++ body :: more) := by
    rw [← hparts]
    simp [Tree.parenthesisAfterWith?, hchildren, hselect, hu', hbuilt]
  rcases hstart with ⟨-, hv, hvbuilt⟩ | ⟨hwith, s'', hs'', hbuilt'', hclause⟩
  · refine .inl ⟨?_, ofSteps_of_primary (s := v.enter c .queryExpressionBody) he hmem
      (hv.trans hs') hprimary⟩
    have hrule : body.isRule .withClause = false := by
      rw [Tree.isRule, beq_iff_eq.1 hbody]
      rfl
    rw [hgroup, hvbuilt, List.nil_append]
    cases more with
    | nil => rfl
    | cons t ts => simp [Tree.groupAfterWith?, hrule]
  · rw [hs'] at hs'' hwith
    obtain ⟨hsuffix, hsteps⟩ := ofSteps_of_withClause he hmem hs'' hwith hclause
    obtain ⟨primary, hw, hprimary⟩ := hprimary.queryPrimary hc
    have hgroup : statement.parenthesisAfterWith? =
        if primary.isRule .queryExpressionParens then some body.first else none := by
      obtain ⟨x, -, hv⟩ := hclause.node
      have hvbuilt : v.built = s''.built ++
          [Tree.closed .withClause (s''.current c).index x.last x.built] := by rw [hv]; rfl
      have hhead : body.children.head? = some primary := by rw [hunion, hw]; rfl
      rw [hgroup, hvbuilt, hbuilt'']
      simp [Tree.groupAfterWith?, Tree.closed, Tree.isRule, Tree.rule?, hhead]
    rcases hprimary with ⟨hparens, t, y, -, ht, -, -⟩ | ⟨hparens, hkind⟩
    · -- the group is skimmed over, so the search is still open
      have hahead : v.ahead = t :: y.ahead := ht
      refine .inr ⟨t, y.ahead, ?_, hahead ▸ hsuffix, hahead ▸ hsteps⟩
      rw [hgroup, if_pos hparens, hfirst, State.current, hahead]
      rfl
    · refine .inl ⟨by rw [hgroup, hparens]; rfl, ?_⟩
      rw [hsteps, Step.ofSignificant_of_head (he.of_isSuffix hsuffix)
        (fun t ht => hmem t (hsuffix.subset ht)) hkind (by simp) (by simp)]
      rfl

end Queries

/-! ### Views with a definer -/

section Views

open QueryType

variable {d : Dialect} {text : String} {c : Context} {s u : State (List Tree)}

/-- A definition with a definer is that of a view, or is read without structure. -/
theorem Grammar.Accepts.createView (hc : c.ending.isEof = true)
    (h : Accepts c simpleStatementBody s u) (hcreate : c.kindAt s.ahead 0 = .keyword .CREATE)
    (hdefiner : c.kindAt s.ahead 1 = .keyword .DEFINER) (hs : s.built = []) {statement : Tree}
    (hu : u.built = [statement]) (hrule : statement.leadingRule? = some .createView) :
    ∃ v w : State (List Tree), v.ahead = s.ahead.tail ∧ Accepts c createViewBody v w := by
  have hnode : simpleStatementBody.body.resolve grammar c s.ahead 2 =
      .node .createStatement createStatementBody.body := by
    simp [simpleStatementBody, Program.body, Program.choose, Program.resolve, Program.settle,
      Look.holds, Look.word, words, hcreate, grammar, createStatementBody]
  obtain ⟨x, hbody, rfl⟩ := h.statement hc hnode
  obtain ⟨v, hverb, hchoice⟩ := hbody.seq
  obtain ⟨t, hahead, -⟩ := hverb.expect hc (by simp)
  have hv : v.ahead = s.ahead.tail := by
    rw [show s.ahead = t :: v.ahead from hahead]
    rfl
  have hkind : c.kindAt v.ahead 0 = .keyword .DEFINER := by
    rw [hv, Facts.kindAt_tail]
    exact hdefiner
  have hview : Program.resolve grammar c v.ahead 0 (grammar .createView) = createViewBody := rfl
  have hother : ∀ called, Program.settle c v.ahead called otherStatement = otherStatement :=
    fun _ => rfl
  have hresolved : Accepts c (if occursInStatement .VIEW v.ahead then createViewBody
      else otherStatement) v x := by
    have hresolved := hchoice.resolve hc 1 (by decide)
    rw [Program.resolve] at hresolved
    simpa [Program.steps, Program.choose, Program.settle, Look.word, words, hkind, Look.holds,
      hview, hother] using hresolved
  split at hresolved
  case isTrue => exact ⟨v, x, hv, hresolved⟩
  case isFalse =>
    -- the first node would be that of a statement without structure
    obtain ⟨y, -, rfl⟩ := hresolved.node
    obtain ⟨i, hi⟩ := hverb.expect_built
    have hstatement : s.built ++ [Tree.closed .simpleStatement (s.current c).index y.last
        [Tree.closed .createStatement ((s.enter c .simpleStatement).current c).index y.last
          (v.built ++ [Tree.closed .otherStatement (v.current c).index y.last y.built])]] =
        [statement] := hu
    rw [hs, hi] at hstatement
    cases hstatement
    cases hrule

/-- A view with a definer: the account is followed by a word for the view. -/
theorem Grammar.Accepts.definer (hc : c.ending.isEof = true) (h : Accepts c createViewBody s u)
    (hdefiner : c.kindAt s.ahead 0 = .keyword .DEFINER) :
    ∃ v w : State (List Tree), c.kindAt s.ahead 1 = .equal ∧ v.ahead = s.ahead.drop 2 ∧
      Accepts c user v w ∧ c.kindAt w.ahead 0 ∈ words [.SQL, .VIEW] := by
  obtain ⟨u, hbody, rfl⟩ := h.node
  obtain ⟨s₁, hreplace, hbody⟩ := hbody.seq
  obtain ⟨s₂, halgorithm, hbody⟩ := hbody.seq
  obtain ⟨s₃, haccount, hbody⟩ := hbody.seq
  obtain ⟨s₄, hsecurity, hbody⟩ := hbody.seq
  obtain ⟨s₅, hview, -⟩ := hbody.seq
  -- nothing is read in front of the definer
  have hs₁ : s₁.ahead = s.ahead := hreplace.after_of_not_mem (s := s.enter c .createView) hc
    (by simp) (by rw [show c.kindAt (s.enter c .createView).ahead 0 = _ from hdefiner]; simp)
  have hs₂ : s₂.ahead = s.ahead := (halgorithm.after_of_not_mem hc (by simp)
    (by rw [hs₁, hdefiner]; simp)).trans hs₁
  rcases haccount.after hc (by simp) with ⟨t, v, ht, hkind, huser⟩ | ⟨hne, -⟩
  · obtain ⟨w, hequal, huser⟩ := huser.seq
    obtain ⟨t', ht', hkind'⟩ := hequal.expect hc (by simp)
    rw [hs₂] at ht
    refine ⟨w, s₃, ?_, ?_, huser, ?_⟩
    · rw [ht, ht']
      exact hkind'
    · rw [ht, ht']
      rfl
    · rcases hsecurity.after hc (by simp) with ⟨t'', v'', ht'', hkind'', -⟩ | ⟨-, hs₄⟩
      · rw [ht'']
        show t''.kind ∈ _
        rw [List.mem_singleton.1 hkind'']
        simp [words]
      · obtain ⟨t'', ht'', hkind''⟩ := hview.expect hc (by simp)
        rw [← hs₄, ht'']
        show t''.kind ∈ _
        rw [hkind'']
        simp [words]
  · rw [hs₂, hdefiner] at hne
    simp at hne

/-- What a definition with a definer is classified by. -/
theorem exists_ofCreate_definer : ∃ decide : String → List Step → Option QueryType,
    (∀ steps, ofCreate (.ofKeyword .DEFINER :: steps) = afterDefiner steps decide) ∧
      (∀ k ∈ [Keyword.SQL, .VIEW], ∀ rest, decide k.word rest = createView) ∧
      (∀ rest, decide Keyword.EVENT.word rest = createEvent) ∧
      (∀ rest, decide Keyword.FUNCTION.word rest = ofCreateFunction rest) := by
  refine ⟨_, fun _ => rfl, ?_, fun _ => rfl, fun _ => rfl⟩
  intro k hk rest
  rcases List.mem_pair.1 hk with rfl | rfl
  · rfl
  · rfl

theorem afterDefiner_ofKeyword {decide : String → List Step → Option QueryType} {k : Keyword}
    (hk : k ∈ definedWords) (rest : List Step) :
    afterDefiner (.ofKeyword k :: rest) decide = decide k.word rest := by
  simp only [definedWords, List.mem_cons, List.not_mem_nil, or_false] at hk
  rcases hk with rfl | rfl | rfl | rfl | rfl | rfl <;> rfl

theorem ofCreateFunction_ne (steps : List Step) : ofCreateFunction steps ≠ createView := by
  have hword : ∀ word : Option String,
      (if word == some "RETURNS" then some createUdf else some createFunction) ≠
        some createView := by
    intro word
    split <;> simp
  unfold ofCreateFunction
  split
  · simp
  · simp
  · unfold afterOptionalWord
    split
    · simp
    · exact hword _
    · simp
    · simp

/-- What a view with a definer is classified as. -/
theorem ofSteps_of_definer (he : c.Ended s.ahead) (hmem : ∀ t ∈ s.ahead, t ∈ tokenize d text)
    (h : Accepts c simpleStatementBody s u) (hcreate : c.kindAt s.ahead 0 = .keyword .CREATE)
    (hdefiner : c.kindAt s.ahead 1 = .keyword .DEFINER) (hs : s.built = []) {statement : Tree}
    (hu : u.built = [statement]) (hrule : statement.leadingRule? = some .createView) :
    ofSteps (Step.ofSignificant s.ahead) = createView ↔
      c.kindAt s.ahead 3 ∉ words [.EVENT, .FUNCTION] := by
  have hc := he.ending
  obtain ⟨v, w, hv, hview⟩ := h.createView hc hcreate hdefiner hs hu hrule
  obtain ⟨x, y, hequal, hx, huser, hword⟩ :=
    hview.definer hc (by rw [hv, Facts.kindAt_tail]; exact hdefiner)
  rw [hv, Facts.kindAt_tail] at hequal
  obtain ⟨decide, hdecide, hviews, hevent, hfunction⟩ := exists_ofCreate_definer
  have hx : x.ahead = s.ahead.drop 3 := by rw [hx, hv, ← List.drop_one, List.drop_drop]
  have hkind : c.kindAt x.ahead 0 = c.kindAt s.ahead 3 := by
    rw [hx]
    simp [Context.kindAt, Context.peek]
  have hsteps : ofSteps (Step.ofSignificant s.ahead) =
      afterDefiner (Step.ofSignificant x.ahead) decide := by
    rw [ofSteps_of_object he hmem hcreate hdefiner, hx]
    show ofCreate _ = _
    rw [hdecide, Step.ofSignificant_of_kindAt he hmem hequal (by simp) (by simp)]
    rfl
  have hsuffix : x.ahead <:+ s.ahead := hx ▸ List.drop_suffix _ _
  have hfound : ∀ {ahead : List Token}, ahead <:+ s.ahead → ∀ {k : Keyword}, k ∈ definedWords →
      c.kindAt ahead 0 = .keyword k → afterDefiner (Step.ofSignificant ahead) decide =
        decide k.word (Step.ofSignificant ahead.tail) := by
    intro ahead hahead k hk hkind
    rw [Step.ofSignificant_of_head (he.of_isSuffix hahead)
      (fun t ht => hmem t (hahead.subset ht)) hkind (by simp) (by simp)]
    exact afterDefiner_ofKeyword hk _
  rw [hsteps, ← hkind]
  constructor
  · intro htype hname
    obtain ⟨k, hk, hname⟩ := List.mem_map.1 hname
    rcases List.mem_pair.1 hk with rfl | rfl
    · rw [hfound hsuffix (by decide) hname.symm, hevent] at htype
      cases htype
    · rw [hfound hsuffix (by decide) hname.symm, hfunction] at htype
      exact ofCreateFunction_ne _ htype
  · intro hname
    by_cases hviewed : c.kindAt x.ahead 0 = .keyword .VIEW
    · rw [hfound hsuffix (by decide) hviewed]
      exact hviews _ (by simp) _
    · have hskims : Skims d text (afterDefiner · decide) x.ahead y.ahead := by
        refine huser.user_skims hc ?_
        simp_all [words]
      obtain ⟨k, hk, hword⟩ := List.mem_map.1 hword
      rw [hskims.same fun t ht => hmem t (hsuffix.subset ht),
        hfound (hskims.suffix.trans hsuffix)
          ((by simp [definedWords] : [Keyword.SQL, .VIEW] ⊆ definedWords) hk) hword.symm]
      exact hviews k hk _

end Views

/-! ### Analyses -/

/-- The significant tokens from one of them on. -/
theorem Listed.significant_drop {tokens : List Token} (h : Listed tokens) {t : Token}
    {rest : List Token} (hsuffix : t :: rest <:+ significant tokens) :
    significant (tokens.drop t.index) = t :: rest := by
  obtain ⟨read, hread⟩ := hsuffix
  have ht : t ∈ significant tokens := hread ▸ by simp
  obtain ⟨hmem, hsignificant⟩ := List.mem_filter.1 ht
  obtain ⟨hlt, hget⟩ := List.getElem?_eq_some_iff.1 (h.getElem?_index hmem)
  have hdrop : significant (tokens.drop t.index) =
      t :: significant (tokens.drop (t.index + 1)) := by
    rw [List.drop_eq_getElem_cons hlt, hget]
    exact List.filter_cons_of_pos hsignificant
  have hsplit : read ++ t :: rest =
      significant (tokens.take t.index) ++ t :: significant (tokens.drop (t.index + 1)) := by
    rw [hread, ← hdrop]
    exact (congrArg significant (List.take_append_drop _ _).symm).trans (List.filter_append _ _)
  -- a token has its number to itself, so it is the same one in both
  have hfree : t ∉ read ++ rest := by
    have hnodup : (read ++ t :: rest).Nodup := by
      rw [hread]
      exact List.Nodup.of_map _ (h.pairwise_index.imp fun hlt => hlt.ne)
    exact (List.nodup_cons.1 (List.nodup_middle.1 hnodup)).1
  rw [List.mem_append, not_or] at hfree
  obtain ⟨-, -, hrest⟩ := (List.append_cons_inj_of_notMem hfree.1 hfree.2).1 hsplit
  rw [hdrop, hrest]

/-- A text without a parser error that starts with a query is classified as a query, unless
the query stands in parentheses after common table expressions; then the search goes on at
the parenthesis. One that starts with a view is classified as a view exactly if its definer
does not have the name `EVENT` or `FUNCTION`. -/
theorem Config.queryType_of_query (c : Config) (text : String)
    (herror : (c.analyze .query text).diagnostics.parser = none) :
    ((c.analyze .query text).document.leadingRule? = some .selectStatement →
      some (c.analyze .query text).queryType =
        match (c.analyze .query text).document.firstStatement?.bind
            Tree.parenthesisAfterWith? with
        | none => some .select
        | some n => QueryType.ofWith 0 (Step.ofTokens ((c.analyze .query text).tokens.drop n))) ∧
    ((c.analyze .query text).document.leadingRule? = some .createView →
      ((c.analyze .query text).queryType = .createView ↔
        ¬ ((c.analyze .query text).kindAt 1 = .keyword .DEFINER ∧
          (c.analyze .query text).kindAt 3 ∈ words [.EVENT, .FUNCTION]))) := by
  have he := context_ended c text
  have hmem : ∀ t ∈ c.ahead text, t ∈ tokenize c.dialect text := fun t => mem_of_mem_ahead
  have hlisted := tokenize_listed c.dialect text
  have htype : some (c.analyze .query text).queryType =
    QueryType.ofSteps (Step.ofSignificant (c.ahead text)) := c.analyze_queryType text
  rw [Document.leadingRule?_eq, analyze_kindAt, analyze_kindAt]
  constructor
  · intro hrule
    obtain ⟨statement, hfirst, hrule⟩ := Option.bind_eq_some_iff.1 hrule
    obtain ⟨⟨s, u, hs, hbuilt, haccepts, hu, -⟩, hopens⟩ :=
      exists_clean_statement herror hfirst
    rw [hfirst, Option.bind_some]
    rcases ofSteps_of_query (hs ▸ he) (hs ▸ hmem) haccepts (hs ▸ hopens _ hrule) hbuilt hu with
      ⟨hnone, hsteps⟩ | ⟨t, rest, hsome, hsuffix, hsteps⟩
    · rw [hnone, htype, ← hs, hsteps]
    · rw [hs] at hsuffix hsteps
      rw [hsome, htype, hsteps, analyze_tokens]
      show _ = QueryType.ofWith 0 (Step.ofTokens _)
      rw [Step.ofTokens_eq_ofSignificant fun u hu => hlisted.shown u (List.mem_of_mem_drop hu),
        hlisted.significant_drop hsuffix]
  · intro hrule
    obtain ⟨statement, hfirst, hrule⟩ := Option.bind_eq_some_iff.1 hrule
    obtain ⟨⟨s, u, hs, hbuilt, haccepts, hu, -⟩, hopens⟩ :=
      exists_clean_statement herror hfirst
    obtain ⟨hcreate, hobject⟩ := Bool.and_eq_true_iff.1 (hopens _ hrule _ rfl)
    obtain ⟨verb, hverb, hcreate⟩ := kindAt_of_wordAt (n := 0) hcreate
    obtain ⟨object, hobjects, hobject⟩ := kindAt_of_wordAt hobject
    rw [List.mem_singleton.1 hverb] at hcreate
    rw [← Option.some_inj, htype]
    by_cases hdefiner : object = .DEFINER
    · rw [hdefiner] at hobject
      rw [← hs] at he hmem hcreate hobject ⊢
      rw [ofSteps_of_definer he hmem haccepts hcreate hobject hbuilt hu hrule]
      simp [hobject]
    · rw [ofSteps_of_object he hmem hcreate hobject, hobject]
      simp only [List.mem_cons, List.not_mem_nil, or_false] at hobjects
      rcases hobjects with rfl | rfl | rfl | rfl | rfl
      · exact iff_of_true rfl (by simp)
      · exact iff_of_true rfl (by simp)
      · exact iff_of_true rfl (by simp)
      · exact absurd rfl hdefiner
      · exact iff_of_true rfl (by simp)

/-- A query after common table expressions, and a view with an account in front of it. -/
theorem Config.queryType_of_query_skimmed :
    (Config.standard.analyze .query "WITH c AS (SELECT a) SELECT b").queryType = .select ∧
      (Config.standard.analyze .query "CREATE DEFINER=u VIEW v AS SELECT a").queryType =
        .createView := by
  have hquery :
      (Config.standard.analyze .query "WITH c AS (SELECT a) SELECT b").diagnostics.parser = none ∧
      (Config.standard.analyze .query "WITH c AS (SELECT a) SELECT b").document.leadingRule? =
        some .selectStatement ∧
      (Config.standard.analyze .query "WITH c AS (SELECT a) SELECT b").document.firstStatement?.bind
        Tree.parenthesisAfterWith? = none := by
    decide +kernel
  have hview :
      (Config.standard.analyze .query "CREATE DEFINER=u VIEW v AS SELECT a").diagnostics.parser =
        none ∧
      (Config.standard.analyze .query "CREATE DEFINER=u VIEW v AS SELECT a").document.leadingRule? =
        some .createView ∧
      (Config.standard.analyze .query "CREATE DEFINER=u VIEW v AS SELECT a").kindAt 3 =
        .identifier := by
    decide +kernel
  obtain ⟨hclean, hrule, hnone⟩ := hquery
  obtain ⟨hclean', hrule', hname⟩ := hview
  constructor
  · have hselect := (Config.queryType_of_query _ _ hclean).1 hrule
    rw [hnone] at hselect
    exact Option.some.inj hselect
  · rw [(Config.queryType_of_query _ _ hclean').2 hrule', hname]
    simp [words]

/-- The search misses a query in parentheses after common table expressions, and stops at the
name of an account. -/
theorem Config.queryType_of_query_missed :
    ((Config.standard.analyze .query "WITH c AS (SELECT 1) (SELECT 2)").diagnostics.lexer = none ∧
      (Config.standard.analyze .query "WITH c AS (SELECT 1) (SELECT 2)").diagnostics.parser = none ∧
      (Config.standard.analyze .query "WITH c AS (SELECT 1) (SELECT 2)").document.leadingRule? =
        some .selectStatement ∧
      (Config.standard.analyze .query "WITH c AS (SELECT 1) (SELECT 2)").queryType ≠ .select) ∧
    (Config.standard.analyze .query "CREATE DEFINER=event VIEW v AS SELECT 1").diagnostics.lexer =
        none ∧
      (Config.standard.analyze .query
        "CREATE DEFINER=event VIEW v AS SELECT 1").diagnostics.parser = none ∧
      (Config.standard.analyze .query
        "CREATE DEFINER=event VIEW v AS SELECT 1").document.leadingRule? = some .createView ∧
      (Config.standard.analyze .query "CREATE DEFINER=event VIEW v AS SELECT 1").queryType ≠
        .createView := by
  decide +kernel

end MySqlAnalysis
