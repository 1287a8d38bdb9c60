import MySqlAnalysis.Proofs.Reference.WellFormed

/-!
# What inference changes

The references of a document are those that its walk collects, in the same order and at
the same places; only links are added. A column that waited gets the table that was
recorded for it last (`Collector.getElem?_linked`). In a text with one table every column
gets that table and the values without a column get the columns, place by place
(`Reference.getElem?_infer`); in any other text nothing more changes.
-/

set_option autoImplicit false

namespace MySqlAnalysis

namespace Mention

/-- Whether this is a value. -/
def isValue : Mention → Bool
  | value _ => true
  | _ => false

/-- The mention with its table set, if there is one to set. -/
def linkedTo (table : Option Nat) (m : Mention) : Mention :=
  table.elim m m.withTable

/-- The mention with its column set, if it is a value without one. -/
def completedBy (column : Option Nat) : Mention → Mention
  | value m => value { m with column := m.column.or column }
  | other => other

/-- The mention as inference leaves it, when `table` is the only table and `column` comes
at the same place among the columns as the mention does among the values. -/
def inferred (table : Nat) (column : Option Nat) : Mention → Mention
  | .column m => .column { m with table := some table }
  | value m => value { m with column := m.column.or column }
  | other => other

variable (m : Mention)

theorem linkedTo_some (t : Nat) : m.linkedTo (some t) = m.withTable t := rfl

theorem linkedTo_none : m.linkedTo none = m := rfl

theorem completedBy_none : m.completedBy none = m := by
  cases m <;> simp [completedBy]

theorem completedBy_of_not_value (column : Option Nat) (h : ∀ v, m ≠ value v) :
    m.completedBy column = m := by
  cases m with
  | value v => exact absurd rfl (h v)
  | _ => rfl

theorem withTable_linkedTo (t : Nat) (table : Option Nat) :
    (m.linkedTo table).withTable t = m.withTable t := by
  cases table <;> cases m <;> rfl

theorem completedBy_withTable (t : Nat) (column : Option Nat) :
    (m.withTable t).completedBy column = m.inferred t column := by
  cases m <;> rfl

theorem isValue_withTable (t : Nat) : (m.withTable t).isValue = m.isValue := by
  cases m <;> rfl

end Mention

/-! ### Columns that waited -/

namespace Collector

/-- The table that a column waited for: the last one that was recorded. -/
def dueTable? (c : Collector) (column : Nat) : Option Nat :=
  c.pending.reverse.findSome? fun waiting =>
    if waiting.1 = column then c.tables.lookup waiting.2 else none

/-- Linking the columns that waited changes their tables and nothing else. -/
theorem getElem?_linked (c : Collector) (i : Nat) :
    c.linked[i]? = c.references[i]?.map (·.mapMention (·.linkedTo (c.dueTable? i))) := by
  rw [linked, dueTable?]
  induction c.pending using List.reverseRecOn with
  | nil => simp [Reference.mapMention, Mention.linkedTo_none]
  | append_singleton pending waiting ih =>
      rw [List.foldl_append, List.foldl_cons, List.foldl_nil, List.reverse_append,
        List.reverse_singleton, List.singleton_append, List.findSome?_cons]
      cases ht : c.tables.lookup waiting.2 with
      | none => simp [ih]
      | some t =>
          dsimp only
          rw [List.getElem?_modify, ih]
          by_cases hi : waiting.1 = i
          · -- the pair that comes last decides
            subst hi
            cases c.references[waiting.1]? <;>
              simp [Reference.mapMention, Mention.withTable_linkedTo, Mention.linkedTo_some]
          · simp [hi]

end Collector

/-! ### A text with one table -/

namespace Reference

theorem getElem?_bindValues (columns : List Nat) (rs : List Reference) (i : Nat) :
    (bindValues columns rs)[i]? = rs[i]?.map
      (·.mapMention (·.completedBy columns[(rs.take i).countP (·.mention.isValue)]?)) := by
  fun_induction bindValues columns rs generalizing i with
  | case1 => rfl
  | case2 r rs v column more hv ih =>
      cases i with
      | zero => simp [mapMention, Mention.completedBy, hv]
      | succ i => simp [ih, hv, Mention.isValue]
  | case3 r rs columns hne ih =>
      -- the head is no value, or there is no column left
      have hcases : (∀ v, r.mention ≠ .value v) ∨ columns = [] := by
        cases columns with
        | nil => exact .inr rfl
        | cons column more => exact .inl fun v hv => hne v column more hv rfl
      cases i with
      | zero =>
          rcases hcases with hvalue | rfl
          · simp [mapMention, Mention.completedBy_of_not_value _ _ hvalue]
          · simp [mapMention, Mention.completedBy_none]
      | succ i =>
          rcases hcases with hvalue | rfl
          · have hcount : r.mention.isValue = false := by
              cases hm : r.mention with
              | value v => exact absurd hm (hvalue v)
              | _ => rfl
            simp [ih, hcount]
          · simp [ih]

/-- Inference for one table sets the tables of columns and the columns of values that have
none, and changes nothing else. -/
theorem getElem?_infer {rs : List Reference} {table : Reference}
    (h : rs.filter (·.mention.isTableProper) = [table]) (i : Nat) :
    (infer rs)[i]? = rs[i]?.map (·.mapMention
      (·.inferred table.id (columnIds rs)[(rs.take i).countP (·.mention.isValue)]?)) := by
  have hsole : soleTable? rs = some table.id := by
    rw [soleTable?, h]
  have hcount : ((bindColumns table.id rs).take i).countP (·.mention.isValue) =
      (rs.take i).countP (·.mention.isValue) := by
    rw [bindColumns, ← List.map_take, List.countP_map]
    refine List.countP_congr fun r _ => ?_
    simp [mapMention, Mention.isValue_withTable]
  rw [infer, hsole]
  dsimp only
  rw [getElem?_bindValues, hcount, bindColumns, List.getElem?_map, Option.map_map]
  congr 1
  funext r
  simp [mapMention, Mention.completedBy_withTable]

theorem infer_of_length_ne {rs : List Reference}
    (h : (rs.filter (·.mention.isTableProper)).length ≠ 1) : infer rs = rs := by
  have hnone : soleTable? rs = none := by
    rw [soleTable?]
    split
    · next table hfilter =>
      rw [hfilter] at h
      exact absurd rfl h
    · rfl
  rw [infer, hnone]

end Reference

/-! ### Documents -/

/-- The references of a document are those that the walk collects: the columns that waited
are linked, and where these name one table, each column gets it and the value at a place
among the values gets the column at that place, if it has none. Nothing else changes. -/
theorem Document.references_inferred (d : Document) :
    let collected := Collector.ofDocument d
    let tables := collected.linked.filter (·.mention.isTableProper)
    let columns := (collected.linked.filter (·.mention.isColumn)).map Reference.id
    (∀ i : Nat, collected.linked[i]? = collected.references[i]?.map fun r =>
      r.mapMention (·.linkedTo (collected.dueTable? i))) ∧
    (∀ table, tables = [table] → ∀ i : Nat, d.references[i]? = collected.linked[i]?.map fun r =>
      r.mapMention (·.inferred table.id
        columns[(collected.linked.take i).countP (·.mention.isValue)]?)) ∧
    (tables.length ≠ 1 → d.references = collected.linked) :=
  ⟨Collector.getElem?_linked _, fun _ h => Reference.getElem?_infer h,
    Reference.infer_of_length_ne⟩

/-- The second value of a text with one table gets the second column, which the first
value is compared with; a text without a table is left alone. -/
theorem Document.references_inferred_second :
    (∃ d, d = (Config.standard.analyze .query
        "SELECT s.x FROM t WHERE a = 'u' AND 7 = 8").document ∧
      ∃ table, (Collector.ofDocument d).linked.filter (·.mention.isTableProper) = [table] ∧
        d.references[5]?.map Reference.mention =
          some (.value ⟨"7", .number, some .condition, some 3⟩)) ∧
    ∃ d, d = (Config.standard.analyze .query "SELECT a = 7").document ∧
      ((Collector.ofDocument d).linked.filter (·.mention.isTableProper)).length ≠ 1 ∧
        d.references = (Collector.ofDocument d).linked := by
  have hone : ∃ d, d = (Config.standard.analyze .query
      "SELECT s.x FROM t WHERE a = 'u' AND 7 = 8").document ∧
      ((Collector.ofDocument d).linked.filter (·.mention.isTableProper)).length = 1 ∧
      (Collector.ofDocument d).linked[5]?.map Reference.mention =
        some (.value ⟨"7", .number, some .condition, none⟩) ∧
      ((Collector.ofDocument d).linked.filter (·.mention.isColumn)).map Reference.id = [1, 3] ∧
      ((Collector.ofDocument d).linked.take 5).countP (·.mention.isValue) = 1 :=
    ⟨_, rfl, by decide +kernel⟩
  have hnone : ∃ d, d = (Config.standard.analyze .query "SELECT a = 7").document ∧
      ((Collector.ofDocument d).linked.filter (·.mention.isTableProper)).length ≠ 1 :=
    ⟨_, rfl, by decide +kernel⟩
  obtain ⟨d, hd, hlength, hvalue, hcolumns, hcount⟩ := hone
  obtain ⟨d', hd', htables⟩ := hnone
  obtain ⟨table, htable⟩ := List.length_eq_one_iff.1 hlength
  refine ⟨⟨d, hd, table, htable, ?_⟩, d', hd', htables, (references_inferred d').2.2 htables⟩
  rw [(references_inferred d).2.1 table htable 5, hcolumns, hcount, Option.map_map]
  obtain ⟨r, hr, hmention⟩ := Option.map_eq_some_iff.1 hvalue
  rw [hr]
  simp [Reference.mapMention, hmention, Mention.inferred]

end MySqlAnalysis
