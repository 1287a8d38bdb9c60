import MySqlAnalysis.Analysis
import MySqlAnalysis.Proofs.Grammar.Siblings
import MySqlAnalysis.Proofs.Reference.Collected

/-!
# Well-formed references

The references of every analysis are numbered by their places and linked
(`Config.analyze_references_wellFormed`). The links that are set after the walk lead to
tables and columns of the list: those of the columns that waited for the table of
their scope (`Collected.linked_wellFormed`), and those of a text with a single table
(`Reference.infer_wellFormed`).
-/

set_option autoImplicit false

namespace MySqlAnalysis

/-! ### Relinking lists of mentions -/

namespace Linked

variable {ms ms' : List Mention} {t : Nat}

theorem Relinks.withTable (ht : ∃ m, ms[t]? = some (.table m)) (x : Mention) :
    Relinks ms x (x.withTable t) := by
  cases x with
  | column m => exact .column m t ht
  | _ => exact .same _

theorem Relinked.modify_withTable (ht : ∃ m, ms[t]? = some (.table m)) (i : Nat) :
    Relinked ms (ms.modify i (·.withTable t)) := by
  intro j
  rw [List.getElem?_modify]
  cases ms[j]? with
  | none => exact .none
  | some x =>
      refine .some ?_
      dsimp only
      split
      · exact .withTable ht x
      · exact .same x

theorem Relinked.map_withTable (ht : ∃ m, ms[t]? = some (.table m)) :
    Relinked ms (ms.map (·.withTable t)) := by
  intro j
  rw [List.getElem?_map]
  cases ms[j]? with
  | none => exact .none
  | some x => exact .some (.withTable ht x)

end Linked

/-! ### Waiting columns -/

/-- Linking columns to tables keeps references in order; the tables stay what they are. -/
theorem Reference.WellFormed.link (tables : List (Address × Nat)) (pending : List (Nat × Address)) :
    ∀ rs : List Reference, WellFormed rs →
      (∀ p ∈ tables, ∃ m, (rs.map mention)[p.2]? = some (.table m)) →
      WellFormed (pending.foldl (fun references waiting =>
        match tables.lookup waiting.2 with
        | some table => references.modify waiting.1 (·.mapMention (·.withTable table))
        | none => references) rs) := by
  induction pending with
  | nil => exact fun rs h _ => h
  | cons waiting pending ih =>
      intro rs h htables
      rw [List.foldl_cons]
      cases hlookup : tables.lookup waiting.2 with
      | none => exact ih rs h htables
      | some t =>
          have hms := Linked.Relinked.modify_withTable
            (htables _ (Collected.mem_of_lookup hlookup)) waiting.1
          rw [← map_mention_modify] at hms
          apply ih
          · constructor
            · rw [map_id_modify, List.length_modify]
              exact h.numbered
            · exact h.linked.relink hms
          · intro p hp
            obtain ⟨m, hm⟩ := htables p hp
            exact ⟨m, (hms.same_iff (by simp) (by simp)).2 hm⟩

theorem Collected.linked_wellFormed {done : List Site} {c : Collector} (h : Collected done c) :
    Reference.WellFormed c.linked := by
  apply Reference.WellFormed.link c.tables c.pending c.references ⟨h.numbered, h.linked⟩
  intro p hp
  obtain ⟨x, hx, hk⟩ := h.tables.kept p hp
  cases x with
  | table m => exact ⟨m, hx⟩
  | _ => cases hk

/-! ### Single table inference -/

namespace Reference

variable {rs : List Reference}

/-- A reference stands where its number says. -/
theorem getElem?_id (hnumbered : rs.map id = List.range rs.length) {r : Reference} (hr : r ∈ rs) :
    rs[r.id]? = some r := by
  obtain ⟨i, hi⟩ := List.mem_iff_getElem?.1 hr
  have hid : (rs.map id)[i]? = some r.id := by
    rw [List.getElem?_map, hi]
    rfl
  rw [hnumbered, List.getElem?_range (List.getElem?_eq_some_iff.1 hi).1] at hid
  cases hid
  exact hi

theorem soleTable?_table (h : rs.map id = List.range rs.length) {t : Nat}
    (ht : soleTable? rs = some t) : ∃ m, (rs.map mention)[t]? = some (.table m) := by
  rw [soleTable?] at ht
  split at ht
  · next r hfilter =>
    cases ht
    have hr : r ∈ rs.filter (·.mention.isTableProper) := by
      rw [hfilter]
      exact List.mem_singleton_self r
    obtain ⟨hmem, hproper⟩ := List.mem_filter.1 hr
    have hget := getElem?_id h hmem
    cases hm : r.mention with
    | table m => exact ⟨m, by rw [List.getElem?_map, hget, Option.map_some, hm]⟩
    | _ => simp [hm, Mention.isTableProper] at hproper
  · cases ht

theorem columnIds_column (h : rs.map id = List.range rs.length) :
    ∀ i ∈ columnIds rs, ∃ m, (rs.map mention)[i]? = some (.column m) := by
  intro i hi
  obtain ⟨r, hr, rfl⟩ := List.mem_map.1 hi
  obtain ⟨hmem, hcolumn⟩ := List.mem_filter.1 hr
  have hget := getElem?_id h hmem
  cases hm : r.mention with
  | column m => exact ⟨m, by rw [List.getElem?_map, hget, Option.map_some, hm]⟩
  | _ => simp [hm, Mention.isColumn] at hcolumn

theorem map_id_bindColumns (t : Nat) : (bindColumns t rs).map id = rs.map id := by
  simp [bindColumns, mapMention]

theorem map_mention_bindColumns (t : Nat) :
    (bindColumns t rs).map mention = (rs.map mention).map (·.withTable t) := by
  simp [bindColumns, mapMention]

theorem map_id_bindValues (columns : List Nat) (rs : List Reference) :
    (bindValues columns rs).map id = rs.map id := by
  fun_induction bindValues columns rs with
  | case1 => rfl
  | case2 r rs v column more hv ih => simp [ih]
  | case3 columns r rs hne ih => simp [ih]

theorem bindValues_relinks {ms : List Mention} (columns : List Nat) (rs : List Reference)
    (h : ∀ i ∈ columns, ∃ m, ms[i]? = some (.column m)) :
    ∀ j : Nat, Option.Rel (Linked.Relinks ms) (rs.map mention)[j]?
      ((bindValues columns rs).map mention)[j]? := by
  fun_induction bindValues columns rs with
  | case1 => exact fun j => .none
  | case2 r rs v column more hv ih =>
      intro j
      cases j with
      | zero =>
          rw [List.map_cons, hv]
          exact .some (.value v column (h column List.mem_cons_self))
      | succ j => exact ih (fun i hi => h i (List.mem_cons_of_mem _ hi)) j
  | case3 columns r rs hne ih =>
      intro j
      cases j with
      | zero => exact .some (.same _)
      | succ j => exact ih h j

/-- Single table inference keeps references in order. -/
theorem infer_wellFormed (h : WellFormed rs) : WellFormed (infer rs) := by
  rw [infer]
  cases ht : soleTable? rs with
  | none => exact h
  | some t =>
      have htable := soleTable?_table h.numbered ht
      have hbind : Linked.Relinked (rs.map mention) ((bindColumns t rs).map mention) := by
        rw [map_mention_bindColumns]
        exact .map_withTable htable
      have hcolumns : ∀ i ∈ columnIds rs, ∃ m,
          ((bindColumns t rs).map mention)[i]? = some (.column m) := by
        intro i hi
        obtain ⟨m, hm⟩ := columnIds_column h.numbered i hi
        exact hbind.column_after hm
      have hids : (bindValues (columnIds rs) (bindColumns t rs)).map id = rs.map id := by
        rw [map_id_bindValues, map_id_bindColumns]
      have hlength := congrArg List.length hids
      rw [List.length_map, List.length_map] at hlength
      constructor
      · rw [hids, h.numbered, hlength]
      · exact (h.linked.relink hbind).relink (bindValues_relinks _ _ hcolumns)

end Reference

/-! ### Analyses -/

/-- The references of a document whose tree has no two aliases below one node. -/
theorem Document.references_wellFormed (d : Document)
    (hroot : ∀ t ∈ d.root, t.Single .tableAlias ∧ t.Single .selectAlias) :
    Reference.WellFormed d.references := by
  obtain ⟨done, h⟩ := Collector.ofDocument_collected d hroot
  exact Reference.infer_wellFormed h.linked_wellFormed

theorem Config.parseTokens_single (c : Config) (start : Grammar.StartRule) (tokens : List Token)
    {rule : Rule} (h : rule ∈ Grammar.aliasRules) :
    ∀ t ∈ (c.parseTokens start tokens).root, t.Single rule := by
  rw [Config.parseTokens]
  split
  · exact Grammar.parse_single c.exactOptions start tokens h
  · exact Grammar.parse_single c.fastOptions start tokens h

/-- No node has two aliases below it. -/
theorem Config.parseTokens_aliases (c : Config) (start : Grammar.StartRule)
    (tokens : List Token) :
    ∀ t ∈ (c.parseTokens start tokens).root, t.Single .tableAlias ∧ t.Single .selectAlias :=
  fun t ht => ⟨c.parseTokens_single start tokens (by simp [Grammar.aliasRules]) t ht,
    c.parseTokens_single start tokens (by simp [Grammar.aliasRules]) t ht⟩

/-- The references of every analysis, errors in the text included, are numbered
by their places, and their links lead to the right kinds of mentions, aliases and
their targets naming each other. -/
theorem Config.analyze_references_wellFormed (c : Config) (start : Grammar.StartRule)
    (text : String) :
    Reference.WellFormed (c.analyze start text).references :=
  Document.references_wellFormed _ (c.parseTokens_aliases start _)

end MySqlAnalysis
