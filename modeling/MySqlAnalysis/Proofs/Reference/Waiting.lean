import MySqlAnalysis.Proofs.Reference.WellFormed
import MySqlAnalysis.Proofs.Tree.Lineage

/-!
# Columns that wait for a table

A column without a qualifier gets no table while the tree is walked; it waits for
the table of the scope that its node stands in (`Waiting`). After the walk it can
only be linked to that table (`Document.linked_scope`), unless the text names a
single table and every column is linked to it (`Reference.infer_eq_self`).
-/

set_option autoImplicit false

namespace MySqlAnalysis

/-! ### What leaving a node does -/

namespace Collector

/-- The second collector comes from the first one by adding mentions, giving aliases to
mentions and recording tables. -/
inductive Extends (d : Document) (c : Collector) : Collector → Prop
  | refl : Extends d c c
  | add {c' : Collector} (place : Tree) (m : Mention) :
      Extends d c c' → Extends d c (c'.add d place m)
  | withAlias {c' : Collector} (i a : Nat) :
      Extends d c c' → Extends d c (c'.modify i (·.withAlias a))
  | tables {c' : Collector} (tables : List (Address × Nat)) :
      Extends d c c' → Extends d c { c' with tables }

variable (d : Document) (c : Collector) (s : Site)

theorem addTable_extends (schema : Option Located) (name : Located) (qualifier : Bool) :
    c.Extends d (c.addTable d schema name qualifier) := by
  cases schema with
  | none => exact .add _ _ .refl
  | some l => exact .add _ _ (.add _ _ .refl)

theorem leaveTable_extends : c.Extends d (c.leaveTable d s) := by
  rw [leaveTable]
  split
  · exact .tables _ (c.addTable_extends d none _ false)
  · exact .tables _ (c.addTable_extends d (some _) _ false)
  · exact .refl

theorem leaveSchema_extends : c.Extends d (c.leaveSchema d s) := by
  rw [leaveSchema]
  split
  · exact .add _ _ .refl
  · exact .refl

theorem leaveTableAlias_extends : c.Extends d (c.leaveTableAlias d s) := by
  rw [leaveTableAlias]
  split
  · exact .withAlias _ _ (.add _ _ .refl)
  · exact .refl

theorem leaveSelectAlias_extends : c.Extends d (c.leaveSelectAlias d s) := by
  rw [leaveSelectAlias]
  split
  · dsimp only
    split
    · exact .withAlias _ _ (.add _ _ .refl)
    · exact .add _ _ .refl
  · exact .refl

theorem leavePredicate_extends : c.Extends d (c.leavePredicate d s) := by
  rw [leavePredicate]
  split
  · exact .refl
  · split
    · exact .refl
    · exact .add _ _ .refl

theorem leaveFunction_extends : c.Extends d (c.leaveFunction d s) := by
  rw [leaveFunction]
  split
  · split
    · split
      · exact .add _ _ .refl
      · exact .refl
    · exact .refl
  · exact .refl

/-- A node becomes a column after its table was added; with one identifier it has none. -/
theorem leaveColumn_cases : c.Extends d (c.leaveColumn d s) ∨
    ∃ (c' : Collector) (table : Option Nat) (name : Located), c.Extends d c' ∧
      ((d.identifiers s.here).length = 1 → table = none) ∧
        c.leaveColumn d s = c'.addColumn d s table name := by
  rw [leaveColumn]
  split
  · exact .inr ⟨c, none, _, .refl, fun _ => rfl, rfl⟩
  · next table _ hids =>
    exact .inr ⟨_, some _, _, c.addTable_extends d none table true, by simp [hids], rfl⟩
  · next schema table _ hids =>
    exact .inr ⟨_, some _, _, c.addTable_extends d (some schema) table true, by simp [hids], rfl⟩
  · exact .inl .refl

/-- Leaving a node extends the collector, and may add a column for the node. -/
theorem leave_cases : c.Extends d (c.leave d s) ∨
    ∃ (c' : Collector) (table : Option Nat) (name : Located), c.Extends d c' ∧
      ((d.identifiers s.here).length = 1 → table = none) ∧
        c.leave d s = c'.addColumn d s table name := by
  rw [leave]
  split
  · exact .inl (c.leaveTable_extends d s)
  · exact .inl (c.leaveTable_extends d s)
  · exact .inl (c.leaveSchema_extends d s)
  · exact .inl (c.leaveSchema_extends d s)
  · exact .inl (c.leaveTableAlias_extends d s)
  · exact c.leaveColumn_cases d s
  · exact .inl (c.leaveSelectAlias_extends d s)
  · exact .inl (c.leavePredicate_extends d s)
  · exact .inl (c.leaveFunction_extends d s)
  · exact .inl .refl

end Collector

/-! ### Collectors that grow -/

/-- The second collector has the columns of the first, with the same tables. -/
structure Collector.Grows (c c' : Collector) : Prop where
  columns : c'.columns = c.columns
  pending : c'.pending = c.pending
  next : c.next ≤ c'.next
  same : ∀ i < c.next, ∀ m, c'.mentions[i]? = some (.column m) →
    ∃ m', c.mentions[i]? = some (.column m') ∧ m'.table = m.table

namespace Collector.Grows

variable {c c' c'' : Collector} (d : Document)

theorem refl (c : Collector) : c.Grows c :=
  ⟨rfl, rfl, Nat.le_refl _, fun _ _ m hm => ⟨m, hm, rfl⟩⟩

theorem trans (h : c.Grows c') (h' : c'.Grows c'') : c.Grows c'' where
  columns := h'.columns.trans h.columns
  pending := h'.pending.trans h.pending
  next := Nat.le_trans h.next h'.next
  same i hi m hm := by
    obtain ⟨m', hm', htable'⟩ := h'.same i (Nat.lt_of_lt_of_le hi h.next) m hm
    obtain ⟨m'', hm'', htable''⟩ := h.same i hi m' hm'
    exact ⟨m'', hm'', htable''.trans htable'⟩

theorem add (c : Collector) (place : Tree) (m : Mention) : c.Grows (c.add d place m) where
  columns := rfl
  pending := rfl
  next := by simp [Collector.next, Collector.add]
  same i hi x hx := by
    rw [Collector.mentions_add, List.getElem?_append_left (by simpa using hi)] at hx
    exact ⟨x, hx, rfl⟩

theorem withAlias (c : Collector) (i a : Nat) : c.Grows (c.modify i (·.withAlias a)) where
  columns := rfl
  pending := rfl
  next := by simp [Collector.next, Collector.modify]
  same j hj m hm := by
    rw [Collector.mentions_modify, List.getElem?_modify] at hm
    obtain ⟨x, hx, hm⟩ := Option.map_eq_some_iff.1 hm
    split at hm
    · -- an alias is all that changes, so the mention was a column before
      cases x with
      | column m' =>
          cases hm
          exact ⟨m', hx, rfl⟩
      | _ => cases hm
    · exact ⟨m, hx.trans (congrArg some hm), rfl⟩

theorem tables (c : Collector) (tables : List (Address × Nat)) : c.Grows { c with tables } :=
  ⟨rfl, rfl, Nat.le_refl _, fun _ _ m hm => ⟨m, hm, rfl⟩⟩

theorem of_extends (h : c.Extends d c') : c.Grows c' := by
  induction h with
  | refl => exact .refl c
  | add place m _ ih => exact ih.trans (.add d _ place m)
  | withAlias i a _ ih => exact ih.trans (.withAlias _ i a)
  | tables tables _ ih => exact ih.trans (.tables _ tables)

end Collector.Grows

/-! ### What waits -/

/-- The columns of a collector come from nodes that were left, those with one
identifier have no table, and what waits does so for the table of its scope. -/
structure Waiting (d : Document) (done : List Site) (c : Collector) : Prop where
  left : ∀ p ∈ c.columns, p.2 < c.next ∧ ∃ s ∈ done, s.here.address = p.1
  plain : ∀ s ∈ done, (d.identifiers s.here).length = 1 → ∀ (i : Nat) (m : ColumnMention),
    (s.here.address, i) ∈ c.columns → c.mentions[i]? = some (.column m) → m.table = none
  scope : ∀ p ∈ c.pending, ∃ s ∈ done, (s.here.address, p.1) ∈ c.columns ∧
    ∃ l, s.scopeTable? = some l ∧ l.address = p.2

namespace Waiting

variable {d : Document} {done : List Site} {c c' : Collector} {s : Site}

theorem empty (d : Document) : Waiting d [] .empty where
  left _ h := absurd h List.not_mem_nil
  plain _ h := absurd h List.not_mem_nil
  scope _ h := absurd h List.not_mem_nil

theorem grow (h : Waiting d done c) (hgrows : c.Grows c') : Waiting d done c' where
  left p hp := by
    rw [hgrows.columns] at hp
    exact ⟨Nat.lt_of_lt_of_le (h.left p hp).1 hgrows.next, (h.left p hp).2⟩
  plain s hs hone i m hi hm := by
    rw [hgrows.columns] at hi
    obtain ⟨m', hm', htable⟩ := hgrows.same i (h.left _ hi).1 m hm
    rw [← htable]
    exact h.plain s hs hone i m' hi hm'
  scope p hp := by
    rw [hgrows.pending] at hp
    rw [hgrows.columns]
    exact h.scope p hp

/-- A node at a new place has no column. -/
theorem append_done (h : Waiting d done c)
    (hfresh : ∀ s' ∈ done, s'.here.address ≠ s.here.address) : Waiting d (done ++ [s]) c where
  left p hp := by
    obtain ⟨hlt, s', hs', haddress⟩ := h.left p hp
    exact ⟨hlt, s', List.mem_append_left _ hs', haddress⟩
  plain s' hs' hone i m hi hm := by
    rcases List.mem_append.1 hs' with hs' | hs'
    · exact h.plain s' hs' hone i m hi hm
    · rw [List.mem_singleton.1 hs'] at hi
      obtain ⟨-, s'', hs'', haddress⟩ := h.left _ hi
      exact absurd haddress (hfresh s'' hs'')
  scope p hp := by
    obtain ⟨s', hs', hrest⟩ := h.scope p hp
    exact ⟨s', List.mem_append_left _ hs', hrest⟩

/-- The node that was left last becomes a column; with one identifier it has no table. -/
theorem addColumn (h : Waiting d (done ++ [s]) c)
    (hfresh : ∀ s' ∈ done, s'.here.address ≠ s.here.address) {table : Option Nat}
    (htable : (d.identifiers s.here).length = 1 → table = none) (name : Located) :
    Waiting d (done ++ [s]) (c.addColumn d s table name) := by
  have hms : (c.addColumn d s table name).mentions =
      c.mentions ++ [.column ⟨d.name name.tree, table, none, s.clause?⟩] := by
    simp [Collector.addColumn, Collector.mentions, Collector.add]
  have hnext : (c.addColumn d s table name).next = c.next + 1 := by
    rw [← Collector.length_mentions, hms]
    simp
  refine ⟨fun p hp => ?_, fun s' hs' hone i m hi hm => ?_, fun p hp => ?_⟩
  · rcases List.mem_cons.1 hp with rfl | hp
    · exact ⟨by omega, s, by simp, rfl⟩
    · exact ⟨by have := (h.left p hp).1; omega, (h.left p hp).2⟩
  · rw [hms] at hm
    rcases List.mem_cons.1 hi with heq | hi
    · -- the new column
      obtain ⟨haddress, rfl⟩ := Prod.mk.inj heq
      rw [← Collector.length_mentions, List.getElem?_concat_length] at hm
      cases hm
      rcases List.mem_append.1 hs' with hs' | hs'
      · exact absurd haddress (hfresh s' hs')
      · rw [List.mem_singleton.1 hs'] at hone
        exact htable hone
    · have hlt := (h.left _ hi).1
      rw [List.getElem?_append_left (by simpa using hlt)] at hm
      exact h.plain s' hs' hone i m hi hm
  · rcases List.mem_append.1 hp with hp | hp
    · obtain ⟨s', hs', hcolumn, hl⟩ := h.scope p hp
      exact ⟨s', hs', List.mem_cons_of_mem _ hcolumn, hl⟩
    · obtain ⟨l, hl, rfl⟩ := List.mem_map.1 hp
      split at hl
      · exact ⟨s, by simp, List.mem_cons_self, l, Option.mem_toList.1 hl, rfl⟩
      · cases hl

/-- Leaving one more node. -/
theorem leave (h : Waiting d done c)
    (hfresh : ∀ s' ∈ done, s'.here.address ≠ s.here.address) :
    Waiting d (done ++ [s]) (c.leave d s) := by
  have hdone := h.append_done hfresh
  rcases c.leave_cases d s with hextends | ⟨c', table, name, hextends, htable, heq⟩
  · exact hdone.grow (.of_extends d hextends)
  · rw [heq]
    exact (hdone.grow (.of_extends d hextends)).addColumn hfresh htable name

/-- A run over nodes at different places. -/
theorem foldl_leave (d : Document) (sites : List Site)
    (hdistinct : sites.Pairwise fun s s' => s.here.address ≠ s'.here.address) :
    Waiting d sites (sites.foldl (·.leave d ·) .empty) := by
  induction sites using List.reverseRecOn with
  | nil => exact empty d
  | append_singleton sites s ih =>
      rw [List.pairwise_append] at hdistinct
      rw [List.foldl_append]
      exact (ih hdistinct.1).leave fun s' hs' => hdistinct.2.2 s' hs' s (by simp)

end Waiting

theorem Collector.ofDocument_waiting (d : Document) :
    Waiting d d.sites (Collector.ofDocument d) := by
  rw [Collector.ofDocument, Collector.foldl_visit]
  exact Waiting.foldl_leave d d.sites d.sites_distinct

/-! ### Links that are set after the walk -/

namespace Reference

/-- A table that linking gives to a column is one that the column waited for. -/
theorem link_table (tables : List (Address × Nat)) (pending : List (Nat × Address)) :
    ∀ (rs : List Reference) (i : Nat) (m : ColumnMention),
      ((pending.foldl (fun references waiting =>
        match tables.lookup waiting.2 with
        | some table => references.modify waiting.1 (·.mapMention (·.withTable table))
        | none => references) rs).map mention)[i]? = some (.column m) →
      ∃ m' : ColumnMention, (rs.map mention)[i]? = some (.column m') ∧
        (m.table = m'.table ∨
          ∃ node t, (i, node) ∈ pending ∧ tables.lookup node = some t ∧ m.table = some t) := by
  induction pending with
  | nil => exact fun rs i m hm => ⟨m, hm, .inl rfl⟩
  | cons waiting pending ih =>
      intro rs i m hm
      rw [List.foldl_cons] at hm
      cases hlookup : tables.lookup waiting.2 with
      | none =>
          rw [hlookup] at hm
          obtain ⟨m', hm', htable⟩ := ih rs i m hm
          refine ⟨m', hm', htable.imp_right ?_⟩
          rintro ⟨node, t, hmem, hrest⟩
          exact ⟨node, t, List.mem_cons_of_mem _ hmem, hrest⟩
      | some t =>
          rw [hlookup] at hm
          obtain ⟨m', hm', htable⟩ := ih _ i m hm
          rw [map_mention_modify, List.getElem?_modify] at hm'
          obtain ⟨x, hx, hm'⟩ := Option.map_eq_some_iff.1 hm'
          -- what the later links leave alone comes from this one or from before
          have hlater : ∀ m'' : ColumnMention, m'.table = m''.table ∨
              (i = waiting.1 ∧ m'.table = some t) →
              m.table = m''.table ∨ ∃ node t, (i, node) ∈ waiting :: pending ∧
                tables.lookup node = some t ∧ m.table = some t := by
            intro m'' hstep
            rcases htable with hsame | ⟨node, t', hmem, hrest⟩
            · rcases hstep with hstep | ⟨rfl, hstep⟩
              · exact .inl (hsame.trans hstep)
              · exact .inr ⟨waiting.2, t, List.mem_cons_self, hlookup, hsame.trans hstep⟩
            · exact .inr ⟨node, t', List.mem_cons_of_mem _ hmem, hrest⟩
          split at hm'
          · next hi =>
            cases x with
            | column m'' =>
                cases hm'
                exact ⟨m'', hx, hlater m'' (.inr ⟨hi.symm, rfl⟩)⟩
            | _ => cases hm'
          · cases hm'
            exact ⟨m', hx, hlater m' (.inl rfl)⟩

theorem map_isTableProper_bindColumns (t : Nat) (rs : List Reference) :
    (bindColumns t rs).map (·.mention.isTableProper) = rs.map (·.mention.isTableProper) := by
  rw [bindColumns, List.map_map]
  apply List.map_congr_left
  intro r _
  cases hm : r.mention <;> simp [mapMention, Mention.withTable, Mention.isTableProper, hm]

theorem map_isTableProper_bindValues (columns : List Nat) (rs : List Reference) :
    (bindValues columns rs).map (·.mention.isTableProper) = rs.map (·.mention.isTableProper) := by
  fun_induction bindValues columns rs with
  | case1 => rfl
  | case2 r rs v column more hv ih =>
      rw [List.map_cons, List.map_cons, ih, hv]
      rfl
  | case3 columns r rs hne ih => simp [ih]

/-- Single table inference changes nothing in a text with several tables. -/
theorem infer_eq_self {rs : List Reference}
    (h : 2 ≤ (infer rs).countP (·.mention.isTableProper)) : infer rs = rs := by
  rw [infer] at h ⊢
  cases ht : soleTable? rs with
  | none => rfl
  | some t =>
      rw [ht] at h
      -- with a sole table there is one table before and after
      have hsame : (bindValues (columnIds rs) (bindColumns t rs)).map (·.mention.isTableProper) =
          rs.map (·.mention.isTableProper) := by
        rw [map_isTableProper_bindValues, map_isTableProper_bindColumns]
      have hcount : rs.countP (·.mention.isTableProper) = 1 := by
        rw [soleTable?] at ht
        split at ht
        · next table hfilter => rw [List.countP_eq_length_filter, hfilter, List.length_singleton]
        · cases ht
      have hcounts := congrArg (List.countP fun b => b) hsame
      rw [List.countP_map, List.countP_map] at hcounts
      exact absurd (hcount ▸ hcounts ▸ h : (2 : Nat) ≤ 1) (by decide)

end Reference

/-- In a document with several tables, a column of one identifier is linked to no
table but the one of the scope that its node stands in. -/
theorem Document.linked_scope {d : Document}
    (htables : 2 ≤ d.references.countP (·.mention.isTableProper)) {s : Site} (hs : s ∈ d.sites)
    (hone : (d.identifiers s.here).length = 1) {i t : Nat} {m : ColumnMention}
    (hcolumn : (s.here.address, i) ∈ (Collector.ofDocument d).columns)
    (honce : ∀ p ∈ (Collector.ofDocument d).columns, p.2 = i → p.1 = s.here.address)
    (hm : (d.references.map Reference.mention)[i]? = some (.column m)) (ht : m.table = some t) :
    ∃ table, s.scopeTable? = some table ∧
      (Collector.ofDocument d).tables.lookup table.address = some t := by
  have hwaiting := Collector.ofDocument_waiting d
  have hself : d.references = (Collector.ofDocument d).linked := Reference.infer_eq_self htables
  rw [hself] at hm
  obtain ⟨m', hm', hnone | ⟨node, t', hmem, hlookup, ht'⟩⟩ := Reference.link_table _ _ _ i m hm
  · -- the walk gave the column no table
    rw [ht, hwaiting.plain s hs hone i m' hcolumn hm'] at hnone
    cases hnone
  · obtain ⟨s', hs', hcolumn', table, htable, haddress⟩ := hwaiting.scope _ hmem
    have hsite : s' = s := Document.sites_eq_of_address hs' hs (honce _ hcolumn' rfl)
    rw [ht] at ht'
    cases ht'
    exact ⟨table, hsite ▸ htable, haddress ▸ hlookup⟩

end MySqlAnalysis
