import MySqlAnalysis.Proofs.Grammar.Groups
import MySqlAnalysis.Proofs.QueryType.CleanStart

/-!
# Skimming over what the grammar reads

The classifier skims over tokens in search of a telling word: over the common table
expressions in front of a statement, counting parentheses, and over the account of a
definer. `Skims` says that such a search goes on from a second place as it went on from
a first one. What the grammar reads between the two places decides: the classifier
skims over common table expressions (`Accepts.withClause_skims`) because the queries in
them close their parentheses and their names are no telling words.
-/

set_option autoImplicit false

namespace MySqlAnalysis

open Grammar

/-- A search goes on from the second place of a text, which is behind the first one, as
from the first one. -/
structure Skims (d : Dialect) (text : String) (search : List Step → Option QueryType)
    (a b : List Token) : Prop where
  suffix : b <:+ a
  same : (∀ t ∈ a, t ∈ tokenize d text) →
    search (Step.ofSignificant a) = search (Step.ofSignificant b)

namespace Skims

variable {d : Dialect} {text : String} {search : List Step → Option QueryType} {a b e : List Token}

theorem refl (a : List Token) : Skims d text search a a :=
  ⟨List.suffix_rfl, fun _ => rfl⟩

theorem trans (h : Skims d text search a b) (h' : Skims d text search b e) :
    Skims d text search a e :=
  ⟨h'.suffix.trans h.suffix, fun ha =>
    (h.same ha).trans (h'.same fun t ht => ha t (h.suffix.subset ht))⟩

theorem of_cons {t : Token} (hkind : t.kind ≠ .eof)
    (h : t ∈ tokenize d text → ∀ rest, search (.ofToken t :: rest) = search rest) :
    Skims d text search (t :: b) b := by
  refine ⟨List.suffix_cons t b, fun hmem => ?_⟩
  rw [Step.ofSignificant_cons b (by simpa [Token.isEof] using hkind)]
  exact h (hmem t List.mem_cons_self) _

/-- A token of a kind that the search does not stop at. -/
theorem of_kind {t : Token} {kind : TokenKind} (ht : t.kind = kind) (heof : kind ≠ .eof)
    (hidentifier : kind ≠ .identifier)
    (h : ∀ rest, search (.ofKind kind :: rest) = search rest) : Skims d text search (t :: b) b := by
  refine of_cons (ht ▸ heof) fun hmem rest => ?_
  rw [Step.ofToken_eq_ofKind hmem (ht ▸ hidentifier), ht, h]

end Skims

/-! ### Groups -/

section Groups

variable {d : Dialect} {text : String} {c : Context} {a b e : List Token} {sure : Bool}

/-- Inside a group the search for a statement only counts parentheses. -/
theorem ofWith_of_depthAfter (rest : List Token) (read : List Token) :
    ∀ {depth depth' : Nat}, depthAfter depth read = some depth' →
      QueryType.ofWith (depth + 1) (Step.ofSignificant (read ++ rest)) =
        QueryType.ofWith (depth' + 1) (Step.ofSignificant rest) := by
  induction read with
  | nil =>
      rintro depth _ ⟨⟩
      rfl
  | cons t ts ih =>
      intro depth depth' h
      simp only [depthAfter, List.foldlM_cons, Option.bind_eq_bind, Option.bind_eq_some_iff] at h
      obtain ⟨next, hnext, h⟩ := h
      have heof : t.isEof = false := by
        rw [← Bool.not_eq_true]
        intro heof
        rw [beq_iff_eq.1 heof] at hnext
        cases hnext
      rw [List.cons_append, Step.ofSignificant_cons _ heof, ← ih h]
      cases hkind : t.kind with
      | openParen =>
          rw [hkind] at hnext
          cases hnext
          rw [Step.ofToken, hkind]
          rfl
      | closeParen =>
          rw [hkind, deepen] at hnext
          split at hnext
          case isTrue => cases hnext
          case isFalse hne =>
            cases hnext
            rw [Step.ofToken, hkind, Nat.sub_add_cancel (Nat.pos_of_ne_zero hne)]
            rfl
      | eof =>
          rw [hkind] at hnext
          cases hnext
      | semicolon =>
          rw [hkind] at hnext
          cases hnext
      | _ =>
          rw [hkind] at hnext
          cases hnext
          rw [Step.ofToken, hkind]
          rfl

/-- The search for a statement skims over a group. -/
theorem Skims.of_group {o cl : Token} (ho : o.kind = .openParen) (hcl : cl.kind = .closeParen)
    (h : Stretch c sure 0 0 b (cl :: e)) : Skims d text (QueryType.ofWith 0) (o :: b) e := by
  obtain ⟨read, rfl, -, hread⟩ := h
  have hdepth : depthAfter 0 read = some 0 := by
    refine hread.resolve_left fun hboundary => ?_
    have hclose : AtBoundary c (cl :: e) := hboundary.2
    rw [AtBoundary, show c.kindAt (cl :: e) 0 = .closeParen from hcl] at hclose
    cases hclose
  constructor
  · exact ⟨o :: read ++ [cl], by simp⟩
  · intro _
    rw [Step.ofSignificant_cons _ (by simp [Token.isEof, ho]), Step.ofToken, ho]
    show QueryType.ofWith 1 (Step.ofSignificant (read ++ cl :: e)) = _
    rw [ofWith_of_depthAfter _ read hdepth,
      Step.ofSignificant_cons _ (by simp [Token.isEof, hcl]), Step.ofToken, hcl]
    rfl

end Groups

/-! ### Common table expressions -/

section CommonTables

open QueryType

variable {d : Dialect} {text : String} {c : Context} {s u : State (List Tree)}

theorem ofWith_word {spelled : String} {isKeyword : Bool} (rest : List Step)
    (h : spelled ∉ [Keyword.SELECT, .UPDATE, .DELETE].map Keyword.word) :
    ofWith 0 (.word spelled isKeyword :: rest) = ofWith 0 rest := by
  simp only [List.map_cons, List.map_nil, List.mem_cons, List.not_mem_nil, or_false, not_or] at h
  obtain ⟨hselect, hupdate, hdelete⟩ := h
  rw [ofWith]
  · exact ite_self _
  · exact hselect
  · exact hupdate
  · exact hdelete

/-- A name is not the word of a statement. -/
theorem Skims.of_name {t : Token} {b : List Token} (h : t.kind.isName c.family = true) :
    Skims d text (ofWith 0) (t :: b) b := by
  have hwords : ∀ k ∈ [Keyword.SELECT, .UPDATE, .DELETE], k.isCommon = true ∧ k.isFirm = true := by
    decide +kernel
  have hword : t.kind.isWord = true → t ∈ tokenize d text →
      t.upperText ∉ [Keyword.SELECT, .UPDATE, .DELETE].map Keyword.word := by
    intro hword ht hmem
    obtain ⟨k, hk, heq⟩ := List.mem_map.1 hmem
    exact Keyword.upperText_ne_of_isName ht hword (hwords k hk).1 h (hwords k hk).2 heq.symm
  refine .of_cons ?_ fun ht rest => ?_
  · intro heof
    rw [heof] at h
    cases h
  · rw [Step.ofToken]
    cases hkind : t.kind with
    | identifier => exact ofWith_word rest (hword (by rw [hkind]; rfl) ht)
    | keyword k => exact ofWith_word rest (hword (by rw [hkind]; rfl) ht)
    | quotedIdentifier => rfl
    | _ =>
        rw [hkind] at h
        cases h

theorem Grammar.Accepts.identifierListInParens_skims (hc : c.ending.isEof = true)
    (h : Accepts c identifierListInParens s u) :
    Skims d text (ofWith 0) s.ahead u.ahead := by
  obtain ⟨v, hopen, h⟩ := h.seq
  obtain ⟨w, hnames, hclose⟩ := h.seq
  obtain ⟨o, hs, ho⟩ := hopen.expect hc (by simp)
  obtain ⟨cl, hw, hcl⟩ := hclose.expect hc (by simp)
  rw [hs]
  exact .of_group ho hcl (hw ▸ hnames.stretch hc rfl rfl)

theorem Grammar.Accepts.subquery_skims (hc : c.ending.isEof = true)
    (h : Accepts c (.call .subquery) s u) : Skims d text (ofWith 0) s.ahead u.ahead := by
  obtain ⟨u, hparens, rfl⟩ := h.call.node
  obtain ⟨u, hgroup, rfl⟩ := hparens.call.node
  obtain ⟨v, hopen, h⟩ := hgroup.seq
  obtain ⟨w, hquery, h⟩ := h.seq
  obtain ⟨x, hlocking, hclose⟩ := h.seq
  obtain ⟨o, hs, ho⟩ := hopen.expect hc (by simp)
  obtain ⟨cl, hx, hcl⟩ := hclose.expect hc (by simp)
  have hinside : Stretch c true 0 0 v.ahead x.ahead :=
    (hquery.stretch hc rfl rfl).trans (hlocking.stretch hc rfl rfl)
  rw [show s.ahead = o :: v.ahead from hs]
  exact .of_group ho hcl (hx ▸ hinside)

/-- The name of a common table, its columns and its query. -/
theorem Grammar.Accepts.commonTable_skims (hc : c.ending.isEof = true)
    (h : Accepts c (.node .commonTableExpression
      (Program.steps
        [Grammar.identifier, Program.ifHolds (.is .openParen) identifierListInParens,
         .expect (.keyword .AS), .call .subquery])) s u) :
    Skims d text (ofWith 0) s.ahead u.ahead := by
  obtain ⟨u, hbody, rfl⟩ := h.node
  obtain ⟨v, hname, hbody⟩ := hbody.seq
  obtain ⟨w, hcolumns, hbody⟩ := hbody.seq
  obtain ⟨x, has, hquery⟩ := hbody.seq
  have hname : Skims d text (ofWith 0) s.ahead v.ahead := by
    obtain ⟨t, hs, ht⟩ := hname.identifier hc
    rw [show s.ahead = t :: v.ahead from hs]
    exact .of_name ht
  have hcolumns : Skims d text (ofWith 0) v.ahead w.ahead := by
    obtain ⟨answer, expected, -, hbranch⟩ := hcolumns.cond hc rfl
    cases answer with
    | true => exact identifierListInParens_skims (s := { v with expected }) hc hbranch
    | false =>
        rw [hbranch.done]
        exact .refl _
  have has : Skims d text (ofWith 0) w.ahead x.ahead := by
    obtain ⟨t, hw, ht⟩ := has.expect hc (by simp)
    rw [hw]
    exact .of_kind ht (by simp) (by simp) fun _ => rfl
  have hquery : Skims d text (ofWith 0) x.ahead u.ahead := hquery.subquery_skims hc
  exact hname.trans (hcolumns.trans (has.trans hquery))

/-- The search for a statement skims over common table expressions. -/
theorem Grammar.Accepts.withClause_skims (hc : c.ending.isEof = true)
    (hwith : c.kindAt s.ahead 0 = .keyword .WITH) (h : Accepts c withClause s u) :
    Skims d text (ofWith 0) s.ahead.tail u.ahead := by
  obtain ⟨u, hbody, rfl⟩ := h.node
  obtain ⟨v, hadvance, hbody⟩ := hbody.seq
  obtain ⟨w, hrecursive, hbody⟩ := hbody.seq
  obtain ⟨x, hfirst, hmore⟩ := hbody.seq
  obtain ⟨t, hs, -⟩ := Accepts.advance (s := s.enter c .withClause) hc
    (by rw [show c.kindAt (s.enter c .withClause).ahead 0 = _ from hwith]; simp) hadvance
  -- one word may stand in front of the tables
  have hrecursive : Skims d text (ofWith 0) v.ahead w.ahead := by
    rcases hrecursive.opt hc (by simp) with ⟨t, hv, ht⟩ | hw
    · rw [hv]
      exact .of_kind (List.mem_singleton.1 ht) (by simp) (by simp) fun _ => rfl
    · rw [hw]
      exact .refl _
  -- every further table follows a comma
  have hmore : Skims d text (ofWith 0) x.ahead u.ahead := by
    refine Accepts.loop_induction (P := fun s u => Skims d text (ofWith 0) s.ahead u.ahead) hc rfl
      (fun s expected _ => .refl _) ?_ hmore
    intro s expected v u heval hround hrest
    have hcomma : c.kindAt s.ahead 0 = .comma := by
      simpa [Test.eval] using congrArg Prod.fst heval
    obtain ⟨w, hadvance, htable⟩ := hround.seq
    obtain ⟨t, hs, ht⟩ := Accepts.advance (s := { s with expected }) hc
      (by rw [show c.kindAt s.ahead 0 = _ from hcomma]; simp) hadvance
    rw [show s.ahead = t :: w.ahead from hs]
    have hskip : Skims d text (ofWith 0) (t :: w.ahead) w.ahead :=
      .of_kind (ht.trans hcomma) (by simp) (by simp) fun _ => rfl
    exact hskip.trans ((htable.commonTable_skims hc).trans hrest)
  rw [show s.ahead = t :: v.ahead from hs, List.tail_cons]
  exact hrecursive.trans ((hfirst.commonTable_skims hc).trans hmore)

end CommonTables

/-! ### Accounts -/

section Accounts

open QueryType

variable {d : Dialect} {text : String} {c : Context} {s u : State (List Tree)}
  {decide : String → List Step → Option QueryType}

/-- The words for what has a definer. -/
def definedWords : List Keyword := [.EVENT, .VIEW, .PROCEDURE, .FUNCTION, .TRIGGER, .SQL]

theorem mem_of_isDefined {spelled : String} (h : isDefined spelled = true) :
    spelled ∈ definedWords.map Keyword.word :=
  List.contains_iff_mem.1 h

theorem Skims.of_symbol {t : Token} {b : List Token} (hword : t.kind.isWord = false)
    (heof : t.kind ≠ .eof) : Skims d text (afterDefiner · decide) (t :: b) b := by
  refine .of_cons heof fun _ rest => ?_
  rw [Step.ofToken]
  cases hkind : t.kind with
  | identifier =>
      rw [hkind] at hword
      cases hword
  | keyword k =>
      rw [hkind] at hword
      cases hword
  | _ => rfl

/-- A string is no word. -/
theorem Grammar.Accepts.textLiteral_skims (hc : c.ending.isEof = true)
    (h : Accepts c textLiteral s u) : Skims d text (afterDefiner · decide) s.ahead u.ahead := by
  have hsymbol : ∀ {kinds : List TokenKind} {t : Token} {b : List Token}, t.kind ∈ kinds →
      (∀ kind ∈ kinds, kind.isWord = false ∧ kind ≠ .eof) →
        Skims d text (afterDefiner · decide) (t :: b) b :=
    fun ht hkinds => .of_symbol (hkinds _ ht).1 (hkinds _ ht).2
  obtain ⟨u, hbody, rfl⟩ := h.node
  obtain ⟨v, hfirst, hmore⟩ := hbody.seq
  have hfirst : Skims d text (afterDefiner · decide) s.ahead v.ahead := by
    obtain ⟨answer, expected, heval, hbranch⟩ := hfirst.cond hc rfl
    -- a national string, or one that may have an introducer
    cases answer with
    | true =>
        have hmem : c.kindAt (s.enter c .textLiteral).ahead 0 ∈ [.national] :=
          List.contains_iff_mem.1 (congrArg Prod.fst heval)
        obtain ⟨t, hs, ht⟩ := hbranch.advance_of_mem hc (by simp) hmem
        rw [show s.ahead = t :: v.ahead from hs]
        exact hsymbol ht (by decide)
    | false =>
        obtain ⟨w, hintroducer, hstring⟩ := hbranch.seq
        obtain ⟨t, hw, ht⟩ := hstring.oneOf hc (by simp)
        have hlast : Skims d text (afterDefiner · decide) w.ahead v.ahead := by
          rw [hw]
          exact hsymbol ht (by decide)
        rcases hintroducer.opt hc (by simp) with ⟨t', hs, ht'⟩ | hs
        · rw [show s.ahead = t' :: w.ahead from hs]
          exact (hsymbol ht' (by decide)).trans hlast
        · rw [← show w.ahead = s.ahead from hs]
          exact hlast
  have hmore : Skims d text (afterDefiner · decide) v.ahead u.ahead := by
    -- any number of further strings
    refine Accepts.loop_induction
      (P := fun s u => Skims d text (afterDefiner · decide) s.ahead u.ahead) hc rfl
      (fun s expected _ => .refl _) ?_ hmore
    intro s expected v u heval hround hrest
    obtain ⟨t, hs, ht⟩ := hround.advance_of_mem hc (by simp)
      (List.contains_iff_mem.1 (congrArg Prod.fst heval))
    rw [hs]
    exact (hsymbol ht (by decide)).trans hrest
  exact hfirst.trans hmore

/-- A name is no word for what is defined, apart from those that are names. -/
theorem Skims.of_account {t : Token} {b : List Token} (h : t.kind.isName c.family = true)
    (hfree : t.kind ∉ words [.EVENT, .VIEW, .FUNCTION]) :
    Skims d text (afterDefiner · decide) (t :: b) b := by
  have hwords : ∀ k ∈ definedWords, k.isCommon = true ∧
      (k ∈ [Keyword.EVENT, .VIEW, .FUNCTION] ∨ k.isFirm = true) := by
    decide +kernel
  have hword : t.kind.isWord = true → t ∈ tokenize d text → isDefined t.upperText = false := by
    intro hword ht
    rw [← Bool.not_eq_true]
    intro hdefined
    obtain ⟨k, hk, heq⟩ := List.mem_map.1 (mem_of_isDefined hdefined)
    obtain ⟨hcommon, hname | hfirm⟩ := hwords k hk
    · rw [Keyword.kind_of_upperText ht hword hcommon heq.symm] at hfree
      exact hfree (List.mem_map_of_mem hname)
    · exact Keyword.upperText_ne_of_isName ht hword hcommon h hfirm heq.symm
  refine .of_cons ?_ fun ht rest => ?_
  · intro heof
    rw [heof] at h
    cases h
  · rw [Step.ofToken]
    cases hkind : t.kind with
    | identifier => exact if_neg (by simp [hword (by rw [hkind]; rfl) ht])
    | keyword k => exact if_neg (by simp [hword (by rw [hkind]; rfl) ht])
    | quotedIdentifier => rfl
    | _ =>
        rw [hkind] at h
        cases h

/-- The search for what is defined skims over an account whose name is no word for it. -/
theorem Grammar.Accepts.user_skims (hc : c.ending.isEof = true) (h : Accepts c user s u)
    (hfree : c.kindAt s.ahead 0 ∉ words [.EVENT, .VIEW, .FUNCTION]) :
    Skims d text (afterDefiner · decide) s.ahead u.ahead := by
  obtain ⟨answer, expected, heval, hbranch⟩ := h.cond hc rfl
  cases answer with
  | true =>
      obtain ⟨v, hadvance, hparens⟩ := hbranch.seq
      have hmem : c.kindAt s.ahead 0 ∈ words [.CURRENT_USER] :=
        List.contains_iff_mem.1 (congrArg Prod.fst heval)
      obtain ⟨t, hs, ht⟩ := hadvance.advance_of_mem hc (by simp [words]) hmem
      have hfirst : Skims d text (afterDefiner · decide) s.ahead v.ahead := by
        rw [hs]
        exact .of_kind (List.mem_singleton.1 ht) (by simp) (by simp) fun _ => rfl
      rcases hparens.after hc (by simp) with ⟨o, w, hv, ho, hclose⟩ | ⟨-, hv⟩
      · obtain ⟨cl, hw, hcl⟩ := hclose.expect hc (by simp)
        rw [hw] at hv
        have hopen : o.kind = .openParen := List.mem_singleton.1 ho
        refine hfirst.trans ?_
        rw [hv]
        exact (Skims.of_symbol (by rw [hopen]; rfl) (by simp [hopen])).trans
          (.of_symbol (by rw [hcl]; rfl) (by simp [hcl]))
      · rw [hv]
        exact hfirst
  | false =>
      obtain ⟨v, hname, hhost⟩ := hbranch.seq
      have hname : Skims d text (afterDefiner · decide) s.ahead v.ahead := by
        obtain ⟨answer, expected', -, hbranch⟩ := hname.cond hc rfl
        cases answer with
        | true => exact Accepts.textLiteral_skims (s := { s with expected := expected' }) hc hbranch
        | false =>
            obtain ⟨t, hs, ht⟩ := hbranch.identifier hc
            have hs : s.ahead = t :: v.ahead := hs
            rw [hs] at hfree ⊢
            exact .of_account ht hfree
      have hhost : Skims d text (afterDefiner · decide) v.ahead u.ahead := by
        rcases hhost.opt hc (by simp) with ⟨t, hv, ht⟩ | hv
        · have hkind : t.kind = .userVariable := List.mem_singleton.1 ht
          rw [hv]
          exact .of_symbol (by rw [hkind]; rfl) (by simp [hkind])
        · rw [hv]
          exact .refl _
      exact hname.trans hhost

end Accounts

end MySqlAnalysis
