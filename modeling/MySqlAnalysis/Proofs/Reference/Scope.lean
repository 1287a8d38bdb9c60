import MySqlAnalysis.Proofs.Analysis.TwoPass
import MySqlAnalysis.Proofs.Grammar.Nesting
import MySqlAnalysis.Proofs.Reference.Waiting

/-!
# The scope of a column

A column of one identifier is linked to the table of the nearest scope around it.
Scopes are query specifications and statements, while a query expression has
clauses outside its query specification. Where the two disagree is told exactly:
the table lies in the nearest query expression or statement around the column,
unless the column stands in the order clause of a query expression, whose scope
is the next one outside (`Config.analyze_scopes`).
-/

set_option autoImplicit false

namespace MySqlAnalysis

open Grammar

/-! ### Queries around a node -/

/-- Whether a node is a query or a statement that reads from tables of its own. -/
def Located.isQuery (l : Located) : Bool :=
  l.tree.isRule .queryExpression || l.tree.isRule .updateStatement ||
    l.tree.isRule .deleteStatement || l.tree.isRule .insertStatement ||
    l.tree.isRule .replaceStatement

namespace Site

/-- The nearest query around the node. -/
def query? (s : Site) : Option Located :=
  s.ancestors.find? Located.isQuery

/-- The nodes between the node and the nearest query around it, nearest first. -/
def inQuery (s : Site) : List Located :=
  s.ancestors.takeWhile (!·.isQuery)

/-- Whether the node stands in the order clause of a query expression, and not in
a scope inside that clause. -/
def isOrdered (s : Site) : Bool :=
  s.query?.any (·.tree.isRule .queryExpression) &&
    s.inQuery.getLast?.any (·.tree.isRule .orderClause) && s.inQuery.all (!·.isScope)

end Site

theorem Tree.isRule_iff {t : Tree} {rule : Rule} : t.isRule rule = true ↔ t.rule? = some rule := by
  rw [Tree.isRule, beq_iff_eq]

theorem Located.isRule_of_isQuery {l : Located} (h : l.isQuery = true)
    (hscope : l.isScope = false) : l.tree.isRule .queryExpression = true := by
  simp only [isQuery, Bool.or_eq_true] at h
  simp only [isScope, Bool.or_eq_false_iff] at hscope
  simp_all

/-- The nodes up to the nearest query around a site. -/
theorem Site.query?_eq_some {s : Site} {q : Located} (h : s.query? = some q) :
    q.isQuery = true ∧ ∃ above, s.ancestors = s.inQuery ++ q :: above := by
  obtain ⟨hq, before, above, hancestors, hbefore⟩ := List.find?_eq_some_iff_append.1 h
  refine ⟨hq, above, ?_⟩
  rw [inQuery, hancestors, List.takeWhile_append_of_pos hbefore, List.takeWhile_cons_of_neg]
  · simp
  · simp [hq]

/-! ### The table of a scope -/

namespace Lineage

variable {root : Tree} {l part : Located} {above : List Located} {rule : Rule}

theorem find? (h : Lineage root l above) (hpart : l.find? rule = some part) :
    Lineage root part (l :: above) ∧ part.tree.isRule rule = true :=
  ⟨.part (List.mem_of_find?_eq_some hpart) h,
    List.find?_some (p := fun part : Located => part.tree.isRule rule) hpart⟩

theorem only? (h : Lineage root l above) (hpart : l.only? rule = some part) :
    Lineage root part (l :: above) ∧ part.tree.isRule rule = true := by
  obtain ⟨hmem, hrule⟩ := Located.of_only? hpart
  exact ⟨.part hmem h, hrule⟩

theorem length_address (h : Lineage root l above) : l.address.length = above.length := by
  induction h with
  | root => rfl
  | part hpart _ ih =>
      obtain ⟨i, haddress, -⟩ := Located.mem_children_iff.1 hpart
      rw [haddress, List.length_cons, List.length_cons, ih]

/-- The places above a place are those of the nodes of its lineage. -/
theorem suffix_cases {path : List Located} {a : Located} {address : Address}
    (h : Lineage root l (path ++ a :: above)) (haddress : address <:+ l.address) :
    address <:+ a.address ∨ ∃ b ∈ l :: path, b.address = address := by
  induction path generalizing l with
  | nil =>
      cases h with
      | part hpart _ =>
          obtain ⟨i, hi, -⟩ := Located.mem_children_iff.1 hpart
          rw [hi, List.suffix_cons_iff] at haddress
          rcases haddress with heq | hsuffix
          · exact .inr ⟨l, List.mem_cons_self, hi.trans heq.symm⟩
          · exact .inl hsuffix
  | cons p path ih =>
      cases h with
      | part hpart hp =>
          obtain ⟨i, hi, -⟩ := Located.mem_children_iff.1 hpart
          rw [hi, List.suffix_cons_iff] at haddress
          rcases haddress with heq | hsuffix
          · exact .inr ⟨l, List.mem_cons_self, hi.trans heq.symm⟩
          · refine (ih hp hsuffix).imp_right ?_
            rintro ⟨b, hb, heq⟩
            exact ⟨b, List.mem_cons_of_mem _ hb, heq⟩

/-- The table of a list of table references, below nodes that are no queries. -/
theorem singleTable? (h : Lineage root l above) (hpart : l.singleTable? = some part) :
    ∃ path, Lineage root part (path ++ l :: above) ∧ part.tree.isRule .tableRef = true ∧
      ∀ b ∈ part :: path, b.tree.isRule .queryExpression = false := by
  rw [Located.singleTable?] at hpart
  split at hpart
  · next reference hfilter =>
    simp only [Option.bind_eq_bind, Option.bind_eq_some_iff] at hpart
    obtain ⟨factor, hfactor, single, hsingle, htable⟩ := hpart
    have hmem : reference ∈ l.children.filter (·.tree.isRule .tableReference) := by
      rw [hfilter]
      exact List.mem_singleton_self reference
    obtain ⟨hmem, hreference⟩ := List.mem_filter.1 hmem
    obtain ⟨h₁, hrule₁⟩ := (Lineage.part hmem h).only? hfactor
    obtain ⟨h₂, hrule₂⟩ := h₁.only? hsingle
    obtain ⟨h₃, hrule₃⟩ := h₂.find? htable
    refine ⟨[single, factor, reference], h₃, hrule₃, ?_⟩
    rw [Tree.isRule_iff] at hreference hrule₁ hrule₂ hrule₃
    simp [Tree.isRule, hreference, hrule₁, hrule₂, hrule₃]
  · cases hpart

/-- The table of a scope, below nodes of the scope that are no queries. -/
theorem scopeTable? (h : Lineage root l above) (hpart : l.scopeTable? = some part) :
    ∃ path, Lineage root part (path ++ l :: above) ∧ part.tree.isRule .tableRef = true ∧
      ∀ b ∈ part :: path, b.tree.isRule .queryExpression = false := by
  rw [Located.scopeTable?] at hpart
  split_ifs at hpart
  · -- a query names its tables in a clause of their own
    simp only [Option.bind_eq_bind, Option.bind_eq_some_iff] at hpart
    obtain ⟨source, hsource, list, hlist, hpart⟩ := hpart
    obtain ⟨h₁, hrule₁⟩ := h.find? hsource
    obtain ⟨h₂, hrule₂⟩ := h₁.find? hlist
    obtain ⟨path, h₃, hrule₃, hpath⟩ := h₂.singleTable? hpart
    refine ⟨path ++ [list, source], by simpa using h₃, hrule₃, ?_⟩
    intro b hb
    rw [← List.cons_append, List.mem_append] at hb
    rcases hb with hb | hb
    · exact hpath b hb
    · rw [Tree.isRule_iff] at hrule₁ hrule₂
      rcases List.mem_pair.1 hb with rfl | rfl
      · simp [Tree.isRule, hrule₂]
      · simp [Tree.isRule, hrule₁]
  · -- an update names them in a list
    simp only [Option.bind_eq_bind, Option.bind_eq_some_iff] at hpart
    obtain ⟨list, hlist, hpart⟩ := hpart
    obtain ⟨h₁, hrule₁⟩ := h.find? hlist
    obtain ⟨path, h₂, hrule₂, hpath⟩ := h₁.singleTable? hpart
    refine ⟨path ++ [list], by simpa using h₂, hrule₂, ?_⟩
    intro b hb
    rw [← List.cons_append, List.mem_append, List.mem_singleton] at hb
    rcases hb with hb | rfl
    · exact hpath b hb
    · rw [Tree.isRule_iff] at hrule₁
      simp [Tree.isRule, hrule₁]
  · -- insertions and deletions name one table
    obtain ⟨h₁, hrule₁⟩ := h.find? hpart
    refine ⟨[], h₁, hrule₁, ?_⟩
    rw [Tree.isRule_iff] at hrule₁
    simp [Tree.isRule, hrule₁]

end Lineage

/-! ### Clauses of a query expression -/

section Clauses

variable {root : Tree} {l clause q : Located} {path above : List Located}

/-- Below the clauses of a query expression other than its order clause, and
outside the query expressions and query specifications in them, there are no other
nodes than their own. -/
theorem Lineage.rule_mem_queryParts (hroot : root.Every Nested)
    (h : Lineage root l (path ++ clause :: above))
    (hclause : ∀ rule ∈ clause.tree.rule?, rule ∈ queryParts)
    (hpath : ∀ b ∈ path, b.isQuery = false ∧ b.isScope = false) :
    ∀ rule ∈ l.tree.rule?, rule = .queryExpression ∨ rule = .querySpecification ∨
      rule ∈ queryParts := by
  -- the part just below a node of one of the rules, by the bound for that node
  have hstep : ∀ {p part : Located} {rest : List Located}, Lineage root part (p :: rest) →
      (∀ rule ∈ p.tree.rule?, rule ∈ queryParts) → ∀ rule ∈ part.tree.rule?,
        rule = .queryExpression ∨ rule = .querySpecification ∨ rule ∈ queryParts := by
    intro p part rest hpart hp rule hrule
    cases hpart with
    | part hmem hlineage =>
        have hnests : p.tree.Every Nested := hlineage.every hroot
        have hchild := Located.mem_of_mem_children hmem
        cases ht : p.tree.rule? with
        | none =>
            cases htree : p.tree <;> simp_all [Tree.rule?, Tree.children]
        | some r =>
            have hr : r ∈ queryParts := hp r ht
            have hbound : queryBounds r =
                some (.queryExpression :: .querySpecification :: queryParts) := by
              rw [queryBounds, if_neg, if_pos hr]
              rintro rfl
              revert hr
              decide
            simpa using hnests.children ht _ hbound part.tree hchild rule hrule
  induction path generalizing l with
  | nil => exact hstep h hclause
  | cons b path ih =>
      have hb : ∀ rule ∈ b.tree.rule?, rule ∈ queryParts := by
        intro rule hrule
        cases h with
        | part hmem hlineage =>
            obtain ⟨hquery, hscope⟩ := hpath b List.mem_cons_self
            rcases ih hlineage (fun b hb => hpath b (List.mem_cons_of_mem _ hb)) rule hrule with
              rfl | rfl | hmem
            · simp [Located.isQuery, Tree.isRule_iff.2 hrule] at hquery
            · simp [Located.isScope, Tree.isRule_iff.2 hrule] at hscope
            · exact hmem
      exact hstep h hb

/-- A column in a query expression, outside the query specifications and queries in
it, stands in the order clause. -/
theorem Site.isOrdered_of_outside {s : Site} (hroot : root.Every Nested)
    (h : Lineage root s.here s.ancestors) (hcolumn : s.here.tree.isRule .columnRef = true)
    (hq : s.query? = some q) (hquery : q.tree.isRule .queryExpression = true)
    (hscope : ∀ b ∈ s.inQuery, b.isScope = false) : s.isOrdered = true := by
  obtain ⟨-, above, hancestors⟩ := Site.query?_eq_some hq
  have hinside : ∀ b ∈ s.inQuery, b.isQuery = false := fun b hb => by
    simpa using List.all_eq_true.1 List.all_takeWhile b hb
  rw [hancestors] at h
  have hall : s.inQuery.all (!·.isScope) = true := by
    simpa using hscope
  -- the rules of the parts of the query expression itself
  have hclause : ∀ {l : Located} {rest : List Located}, Lineage root l (q :: rest) →
      ∀ rule ∈ l.tree.rule?, rule ∈ Rule.orderClause :: queryParts := by
    intro l rest hl rule hrule
    cases hl with
    | part hmem hlineage =>
        exact (hlineage.every hroot).children (Tree.isRule_iff.1 hquery) _ rfl l.tree
          (Located.mem_of_mem_children hmem) rule hrule
  rcases List.eq_nil_or_concat s.inQuery with hnil | ⟨path, clause, hpath⟩
  · rw [hnil] at h
    exact absurd (hclause h _ (Tree.isRule_iff.1 hcolumn)) (by decide)
  · rw [List.concat_eq_append] at hpath
    rw [hpath, List.append_assoc, List.singleton_append] at h
    have hlast : clause.tree.isRule .orderClause = true := by
      by_contra hne
      have hparts : ∀ rule ∈ clause.tree.rule?, rule ∈ queryParts := by
        intro rule hrule
        rcases List.mem_cons.1 (hclause h.of_append rule hrule) with rfl | hmem
        · exact absurd (Tree.isRule_iff.2 hrule) hne
        · exact hmem
      have hpath' : ∀ b ∈ path, b.isQuery = false ∧ b.isScope = false := fun b hb =>
        ⟨hinside b (by simp [hpath, hb]), hscope b (by simp [hpath, hb])⟩
      exact absurd (h.rule_mem_queryParts hroot hparts hpath' _ (Tree.isRule_iff.1 hcolumn))
        (by decide)
    rw [Site.isOrdered, hq, hall, hpath]
    simp [hquery, hlast]

end Clauses

/-! ### Where the table of a column lies -/

/-- The nearest scope around a node lies in the nearest query, is that query, or
lies outside of it. -/
theorem Site.scope_cases {s : Site} {scope q : Located} {above : List Located}
    (hscope : s.ancestors.find? Located.isScope = some scope)
    (hancestors : s.ancestors = s.inQuery ++ q :: above) :
    (∃ inner outer, s.inQuery = inner ++ scope :: outer) ∨
      (∀ b ∈ s.inQuery, b.isScope = false) ∧
        (scope = q ∨
          q.isScope = false ∧ ∃ between outside, above = between ++ scope :: outside) := by
  rw [hancestors, List.find?_append] at hscope
  cases hinner : s.inQuery.find? Located.isScope with
  | some b =>
      rw [hinner, Option.some_or, Option.some.injEq] at hscope
      obtain ⟨-, inner, outer, hsplit, -⟩ := List.find?_eq_some_iff_append.1 hinner
      exact .inl ⟨inner, outer, hscope ▸ hsplit⟩
  | none =>
      rw [hinner, Option.none_or] at hscope
      refine .inr ⟨fun b hb => by simpa using List.find?_eq_none.1 hinner b hb, ?_⟩
      cases hq : q.isScope with
      | true =>
          rw [List.find?_cons_of_pos hq] at hscope
          exact .inl (Option.some.inj hscope).symm
      | false =>
          rw [List.find?_cons_of_neg (by simp [hq])] at hscope
          obtain ⟨-, between, outside, hsplit, -⟩ := List.find?_eq_some_iff_append.1 hscope
          exact .inr ⟨rfl, between, outside, hsplit⟩

/-- A query expression below a scope does not hold the table of the scope. -/
theorem Lineage.not_suffix_scopeTable? {root : Tree} {scope q table : Located}
    {between outside : List Located} (h : Lineage root q (between ++ scope :: outside))
    (htable : scope.scopeTable? = some table)
    (hq : q.tree.isRule .queryExpression = true) : ¬ q.address <:+ table.address := by
  intro hsuffix
  have hscope : Lineage root scope outside := h.of_append
  obtain ⟨path, hlineage, -, hpath⟩ := hscope.scopeTable? htable
  rcases hlineage.suffix_cases hsuffix with hsuffix | ⟨b, hb, haddress⟩
  · -- the query expression is deeper in the tree than the scope
    have hlength := hsuffix.length_le
    rw [h.length_address, hscope.length_address, List.length_append, List.length_cons] at hlength
    omega
  · -- no node on the way from the scope to its table is a query expression
    have hat : root.at? b.address = some b.tree := by
      rcases List.mem_cons.1 hb with rfl | hb
      · exact hlineage.at?
      · obtain ⟨below, rest, rfl⟩ := List.append_of_mem hb
        rw [List.append_assoc, List.cons_append] at hlineage
        exact hlineage.of_append.at?
    rw [haddress, h.at?, Option.some.injEq] at hat
    have hnot := hpath b hb
    rw [← hat, hq] at hnot
    cases hnot

/-- The table of the scope of a column lies in the nearest query around the column
exactly if the column does not stand in the order clause of a query expression. -/
theorem Site.suffix_scopeTable?_iff {root : Tree} {s : Site} {q scope table : Located}
    (hroot : root.Every Nested) (h : Lineage root s.here s.ancestors)
    (hcolumn : s.here.tree.isRule .columnRef = true) (hq : s.query? = some q)
    (hscope : s.ancestors.find? Located.isScope = some scope)
    (htable : scope.scopeTable? = some table) (hbelow : scope.address <:+ table.address) :
    q.address <:+ table.address ↔ s.isOrdered = false := by
  obtain ⟨hquery, above, hancestors⟩ := Site.query?_eq_some hq
  have hlineage := hancestors ▸ h
  rcases Site.scope_cases hscope hancestors with
    ⟨inner, outer, hinner⟩ | ⟨houter, rfl | ⟨hqscope, between, outside, habove⟩⟩
  · rw [hinner, List.append_assoc, List.cons_append] at hlineage
    refine iff_of_true ((hlineage.of_append.suffix q (by simp)).trans hbelow) ?_
    simp [Site.isOrdered, hinner, List.find?_some hscope]
  · refine iff_of_true hbelow ?_
    have hrule : scope.tree.isRule .queryExpression = false := by
      have := List.find?_some hscope
      simp only [Located.isScope, Bool.or_eq_true, Tree.isRule_iff] at this
      rcases this with (((hr | hr) | hr) | hr) | hr <;> simp [Tree.isRule, hr]
    simp [Site.isOrdered, hq, hrule]
  · have hexpression := Located.isRule_of_isQuery hquery hqscope
    have hordered := Site.isOrdered_of_outside hroot h hcolumn hq hexpression houter
    refine iff_of_false ?_ (by simp [hordered])
    exact (habove ▸ hlineage.of_append).not_suffix_scopeTable? htable hexpression

/-! ### Analyses -/

/-- The table that a column is linked to. -/
def Mention.table? : Mention → Option Nat
  | .column m => m.table
  | _ => none

/-- The nodes of columns with one identifier, with the table that each is linked to. -/
def Analysis.bindings (a : Analysis) : List (Site × Nat) :=
  let columns := (Collector.ofDocument a.document).columns
  let plain := a.document.sites.filter fun s =>
    s.here.tree.isRule .columnRef && (a.document.identifiers s.here).length == 1
  plain.filterMap fun s => do
    let column ← columns.lookup s.here.address
    let reference ← a.references[column]?
    return (s, ← reference.mention.table?)

theorem Analysis.mem_bindings {a : Analysis} {b : Site × Nat} (h : b ∈ a.bindings) :
    b.1 ∈ a.document.sites ∧ b.1.here.tree.isRule .columnRef = true ∧
      (a.document.identifiers b.1.here).length = 1 ∧
      ∃ (i : Nat) (m : ColumnMention),
        (b.1.here.address, i) ∈ (Collector.ofDocument a.document).columns ∧
          (a.references.map Reference.mention)[i]? = some (.column m) ∧ m.table = some b.2 := by
  obtain ⟨s, hs, hb⟩ := List.mem_filterMap.1 h
  obtain ⟨hs, hplain⟩ := List.mem_filter.1 hs
  rw [Bool.and_eq_true, beq_iff_eq] at hplain
  simp only [Option.bind_eq_bind, Option.bind_eq_some_iff, Option.pure_def] at hb
  obtain ⟨i, hlookup, r, hr, t, ht, hb⟩ := hb
  cases hb
  refine ⟨hs, hplain.1, hplain.2, i, ?_⟩
  cases hm : r.mention with
  | column m =>
      rw [hm] at ht
      refine ⟨m, Collected.mem_of_lookup hlookup, ?_, ht⟩
      rw [List.getElem?_map, hr, Option.map_some, hm]
  | _ =>
      rw [hm] at ht
      cases ht

/-- In a text with several tables, the table that a column of one identifier is
linked to was recorded for one table node, and that node lies in the nearest query
around the column, except for a column in the order clause of a query expression,
where it never does. -/
theorem Config.analyze_scopes (c : Config) (start : StartRule) (text : String)
    (htables : 2 ≤ (c.analyze start text).references.countP (·.mention.isTableProper))
    {s : Site} {t : Nat} (hbinds : (s, t) ∈ (c.analyze start text).bindings) {q : Located}
    (hq : s.query? = some q) :
    ∃ (root : Tree) (table : Located), (c.analyze start text).document.root = some root ∧
      root.at? table.address = some table.tree ∧ table.tree.isRule .tableRef = true ∧
      (∀ node, (node, t) ∈ (Collector.ofDocument (c.analyze start text).document).tables ↔
        node = table.address) ∧
      (q.address <:+ table.address ↔ s.isOrdered = false) := by
  obtain ⟨hs, hcolumnRef, hplain, i, m, hcolumn, hm, ht⟩ := Analysis.mem_bindings hbinds
  obtain ⟨done, hcollected⟩ := Collector.ofDocument_collected (c.analyze start text).document
    (c.parseTokens_aliases start _)
  obtain ⟨table, htable, hlookup⟩ := Document.linked_scope htables hs hplain hcolumn
    (fun p hp hpi => hcollected.columns.once p hp _ hcolumn hpi) hm ht
  obtain ⟨root, hroot, hlineage⟩ := Document.sites_lineage hs
  have hnests : root.Every Nested := by
    have hmem : root ∈ (c.parseTokens start (tokenize c.dialect text)).root := hroot
    rw [Config.parseTokens_eq_exact (tokenize_listed c.dialect text)] at hmem
    exact parse_nests c.exactOptions start _ root hmem
  obtain ⟨scope, hscope, htable⟩ := Option.bind_eq_some_iff.1 htable
  obtain ⟨-, before, beyond, hsplit, -⟩ := List.find?_eq_some_iff_append.1 hscope
  obtain ⟨path, htableLineage, hrule, -⟩ := (hsplit ▸ hlineage).of_append.scopeTable? htable
  have hbelow : scope.address <:+ table.address := htableLineage.suffix scope (by simp)
  have hiff := Site.suffix_scopeTable?_iff hnests hlineage hcolumnRef hq hscope htable hbelow
  have hmark := Collected.mem_of_lookup hlookup
  refine ⟨root, table, hroot, htableLineage.at?, hrule, fun node => ⟨fun hnode => ?_, ?_⟩, hiff⟩
  · exact hcollected.tables.once _ hnode _ hmark rfl
  · rintro rfl
    exact hmark

/-- The item of an inserted query is linked to the table of that query. -/
theorem Config.analyze_scopes_item :
    ∃ b ∈ (Config.standard.analyze .query "INSERT INTO t SELECT a FROM s ORDER BY b").bindings,
      ∃ q, b.1.query? = some q ∧ ∃ table : Located,
        table.tree.isRule .tableRef = true ∧ q.address <:+ table.address := by
  have hbinding :
      2 ≤ (Config.standard.analyze .query
        "INSERT INTO t SELECT a FROM s ORDER BY b").references.countP (·.mention.isTableProper) ∧
      ∃ b ∈ (Config.standard.analyze .query "INSERT INTO t SELECT a FROM s ORDER BY b").bindings,
        b.1.query?.isSome = true ∧ b.1.isOrdered = false := by
    decide +kernel
  obtain ⟨htables, b, hb, hquery, hordered⟩ := hbinding
  obtain ⟨q, hq⟩ := Option.isSome_iff_exists.1 hquery
  obtain ⟨_, table, -, -, hrule, -, hiff⟩ :=
    Config.analyze_scopes Config.standard .query _ htables hb hq
  exact ⟨b, hb, q, hq, table, hrule, hiff.2 hordered⟩

/-- The order of an inserted query is linked to the table that the rows go to, in a
text without errors. -/
theorem Config.analyze_scopes_foreign :
    ∃ a, a = Config.standard.analyze .query "INSERT INTO t SELECT a FROM s ORDER BY b" ∧
      a.tokenEvents.isEmpty = true ∧ a.grammarEvents.isEmpty = true ∧
      2 ≤ a.references.countP (·.mention.isTableProper) ∧
      ∃ b ∈ a.bindings, ∃ entry ∈ (Collector.ofDocument a.document).tables,
        entry.2 = b.2 ∧ ∃ q ∈ b.1.query?, ¬ q.address <:+ entry.1 := by
  have hforeign :
      let a := Config.standard.analyze .query "INSERT INTO t SELECT a FROM s ORDER BY b"
      a.tokenEvents.isEmpty = true ∧ a.grammarEvents.isEmpty = true ∧
        2 ≤ a.references.countP (·.mention.isTableProper) ∧
        ∃ b ∈ a.bindings, ∃ entry ∈ (Collector.ofDocument a.document).tables,
          entry.2 = b.2 ∧ (b.1.query?.any fun q => ¬ q.address <:+ entry.1) = true := by
    decide +kernel
  obtain ⟨htoken, hgrammar, htables, b, hb, entry, hentry, ht, hq⟩ := hforeign
  obtain ⟨q, hq, hnot⟩ := (Option.any_eq_true _ _).1 hq
  exact ⟨_, rfl, htoken, hgrammar, htables, b, hb, entry, hentry, ht, q, hq,
    of_decide_eq_true hnot⟩

end MySqlAnalysis
