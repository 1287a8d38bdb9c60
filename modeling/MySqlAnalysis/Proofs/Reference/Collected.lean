import Mathlib.Data.List.Induction
import MySqlAnalysis.Proofs.Reference.Linked
import MySqlAnalysis.Proofs.Tree.Places

/-!
# What a walk collects

While the nodes of a tree are left one after another, the references found so
far are linked, and every alias comes from a node that was left before
(`Collected`). An alias names what stands at a fixed place next to it, so that in
a tree where no node has two aliases nothing is given an alias twice
(`Marked.unaliased`).
-/

set_option autoImplicit false

namespace MySqlAnalysis

/-- The alias of a table or column. -/
def Mention.alias? : Mention → Option Nat
  | .table m => m.aliasName
  | .column m => m.aliasName
  | _ => none

/-! ### Places around a node -/

namespace Located

variable {l part : Located} {i : Nat} {rule : Rule}

theorem tail_of_mem_children (h : part ∈ l.children) : part.address.tail = l.address := by
  obtain ⟨i, hi, rfl⟩ := List.mem_mapIdx.1 h
  rfl

theorem tail_of_child? (h : l.child? i = some part) : part.address.tail = l.address := by
  obtain ⟨t, -, rfl⟩ := Option.map_eq_some_iff.1 h
  rfl

theorem tail_of_find? (h : l.find? rule = some part) : part.address.tail = l.address :=
  tail_of_mem_children (List.mem_of_find?_eq_some h)

theorem tail_of_only? (h : l.only? rule = some part) : part.address.tail = l.address := by
  rw [only?] at h
  split at h
  · split at h
    · cases h
      rfl
    · cases h
  · cases h

end Located

/-- The nodes that a lookup around a site finds are `n` levels below the parent. -/
def Beside (n : Nat) (named? : Site → Option Located) : Prop :=
  ∀ s l, named? s = some l → ∃ p, s.parent? = some p ∧ l.address.drop n = p.address

theorem tableBefore?_beside : Beside 1 Site.tableBefore? := by
  intro s l h
  simp only [Site.tableBefore?, Option.bind_eq_bind, Option.bind_eq_some_iff] at h
  obtain ⟨parent, hparent, position, -, hfind⟩ := h
  have hmem : l ∈ parent.children :=
    List.mem_of_mem_take (List.mem_reverse.1 (List.mem_of_find?_eq_some hfind))
  refine ⟨parent, hparent, ?_⟩
  rw [List.drop_one]
  exact Located.tail_of_mem_children hmem

theorem itemColumn?_beside : Beside 6 Site.itemColumn? := by
  intro s l h
  simp only [Site.itemColumn?, Option.bind_eq_bind, Option.bind_eq_some_iff] at h
  obtain ⟨item, hitem, expression, hexpression, primary, hprimary, predicate, hpredicate, h⟩ := h
  split at h
  · simp only [Located.plainColumn?, Option.bind_eq_bind, Option.bind_eq_some_iff] at h
    obtain ⟨bits, hbits, simple, hsimple, hcolumn⟩ := h
    refine ⟨item, hitem, ?_⟩
    calc l.address.drop 6
        = l.address.tail.tail.tail.tail.tail.tail := by
          simp only [← List.drop_one, List.drop_drop]
      _ = item.address := by
          rw [Located.tail_of_find? hcolumn, Located.tail_of_only? hsimple,
            Located.tail_of_only? hbits, Located.tail_of_child? hpredicate,
            Located.tail_of_child? hprimary, Located.tail_of_child? hexpression]
  · cases h

/-! ### Marks -/

/-- Nodes are marked with the positions of mentions of a kind, each position with
one node, and where such a mention has an alias, that comes from a node of the
rule that was left, next to the marked node. -/
structure Marked (rule : Rule) (kind : Mention → Bool) (named? : Site → Option Located)
    (done : List Site) (ms : List Mention) (marks : List (Address × Nat)) : Prop where
  kept : ∀ p ∈ marks, ∃ x, ms[p.2]? = some x ∧ kind x = true
  once : ∀ p ∈ marks, ∀ q ∈ marks, p.2 = q.2 → p.1 = q.1
  aliased : ∀ (i : Nat) (x : Mention), ms[i]? = some x → kind x = true → x.alias? ≠ none →
    ∃ s ∈ done, s.here.tree.isRule rule = true ∧ ∃ l ∈ named? s, (l.address, i) ∈ marks

namespace Marked

variable {rule : Rule} {kind : Mention → Bool} {named? : Site → Option Located}
  {done : List Site} {ms : List Mention} {marks : List (Address × Nat)} {m x₀ : Mention} {t : Nat}

theorem nil : Marked rule kind named? [] [] [] where
  kept p h := absurd h List.not_mem_nil
  once p h := absurd h List.not_mem_nil
  aliased i x h := by cases h

theorem lt_length (h : Marked rule kind named? done ms marks) {p : Address × Nat}
    (hp : p ∈ marks) : p.2 < ms.length := by
  obtain ⟨x, hx, -⟩ := h.kept p hp
  exact (List.getElem?_eq_some_iff.1 hx).1

theorem append_done (h : Marked rule kind named? done ms marks) (s : Site) :
    Marked rule kind named? (done ++ [s]) ms marks where
  kept := h.kept
  once := h.once
  aliased i x hx hk ha := by
    obtain ⟨s', hs', hrest⟩ := h.aliased i x hx hk ha
    exact ⟨s', List.mem_append_left _ hs', hrest⟩

theorem concat (h : Marked rule kind named? done ms marks) (hm : m.alias? = none) :
    Marked rule kind named? done (ms ++ [m]) marks where
  kept p hp := by
    obtain ⟨x, hx, hk⟩ := h.kept p hp
    exact ⟨x, Linked.getElem?_concat_left hx, hk⟩
  once := h.once
  aliased i x hx hk ha := by
    rcases Linked.getElem?_concat_eq_some.1 hx with hx | ⟨-, rfl⟩
    · exact h.aliased i x hx hk ha
    · exact absurd hm ha

/-- The mention added last is marked with a node. -/
theorem mark (h : Marked rule kind named? done ms marks) (hm : m.alias? = none)
    (hk : kind m = true) (address : Address) :
    Marked rule kind named? done (ms ++ [m]) ((address, ms.length) :: marks) where
  kept := by
    refine List.forall_mem_cons.2 ⟨⟨m, ?_, hk⟩, (h.concat hm).kept⟩
    exact Linked.getElem?_concat_eq_some.2 (.inr ⟨rfl, rfl⟩)
  once := by
    -- no mark was there for a place behind the list
    have hfresh : ∀ p ∈ marks, p.2 ≠ ms.length := fun p hp => Nat.ne_of_lt (h.lt_length hp)
    intro p hp q hq heq
    rcases List.mem_cons.1 hp with rfl | hp <;> rcases List.mem_cons.1 hq with rfl | hq
    · rfl
    · exact absurd heq.symm (hfresh q hq)
    · exact absurd heq (hfresh p hp)
    · exact h.once p hp q hq heq
  aliased i x hx hk' ha := by
    obtain ⟨s, hs, hrule, l, hl, hmark⟩ := (h.concat hm).aliased i x hx hk' ha
    exact ⟨s, hs, hrule, l, hl, List.mem_cons_of_mem _ hmark⟩

/-- A marked mention gets an alias from a node next to it. -/
theorem addAlias (h : Marked rule kind named? done ms marks)
    (hkind : ∀ x i, kind (x.withAlias i) = kind x) (hm : m.alias? = none)
    (hx₀ : ms[t]? = some x₀) {s : Site} {l : Located}
    (hs : kind x₀ = true → s.here.tree.isRule rule = true ∧ l ∈ named? s ∧ (l.address, t) ∈ marks) :
    Marked rule kind named? (done ++ [s]) ((ms ++ [m]).modify t (·.withAlias ms.length)) marks where
  kept p hp := by
    obtain ⟨x, hx, hk⟩ := h.kept p hp
    by_cases hpt : p.2 = t
    · refine ⟨_, (Linked.getElem?_modify_concat hx₀).2 (.inl ⟨hpt, rfl⟩), ?_⟩
      rw [hkind]
      rw [hpt, hx₀] at hx
      cases hx
      exact hk
    · exact ⟨x, (Linked.getElem?_modify_concat hx₀).2 (.inr ⟨hpt, .inl hx⟩), hk⟩
  once := h.once
  aliased i x hx hk ha := by
    rcases (Linked.getElem?_modify_concat hx₀).1 hx with ⟨rfl, rfl⟩ | ⟨-, hx | ⟨-, rfl⟩⟩
    · -- the alias that was just given comes from `s`
      rw [hkind] at hk
      obtain ⟨hrule, hl, hmark⟩ := hs hk
      exact ⟨s, by simp, hrule, l, hl, hmark⟩
    · exact (h.append_done s).aliased i x hx hk ha
    · exact absurd hm ha

/-- What a new node of the rule names has no alias so far. -/
theorem unaliased (h : Marked rule kind named? done ms marks) {n : Nat} (hbeside : Beside n named?)
    {root : Tree} (hroot : root.Single rule) (hdone : ∀ s ∈ done, s.Placed root) {s : Site}
    (hs : s.Placed root) (hfresh : ∀ s' ∈ done, s'.here.address ≠ s.here.address)
    (hrule : s.here.tree.isRule rule = true) {l : Located} (hl : named? s = some l)
    (hmark : (l.address, t) ∈ marks) :
    ∃ x, ms[t]? = some x ∧ kind x = true ∧ x.alias? = none := by
  obtain ⟨x, hx, hk⟩ := h.kept _ hmark
  refine ⟨x, hx, hk, ?_⟩
  by_contra ha
  obtain ⟨s', hs', hrule', l', hl', hmark'⟩ := h.aliased t x hx hk ha
  -- an earlier alias of the same mention would have the same parent
  have haddress : l.address = l'.address := h.once _ hmark _ hmark' rfl
  obtain ⟨p, hp, hlp⟩ := hbeside s l hl
  obtain ⟨p', hp', hlp'⟩ := hbeside s' l' hl'
  have hparent : p'.address = p.address := by
    rw [← hlp, ← hlp', haddress]
  exact hfresh s' hs' (hroot.address_eq (hdone s' hs') hs hrule' hrule hp' hp hparent)

end Marked

theorem Linked.Fits.alias?_eq_none {ms : List Mention} {m : Mention} (h : Linked.Fits ms m) :
    m.alias? = none := by
  cases h with
  | table _ halias _ => exact halias
  | column _ halias _ => exact halias
  | _ => rfl

/-! ### Collectors -/

namespace Reference

variable {rs : List Reference}

theorem map_id_modify (i : Nat) (f : Mention → Mention) :
    (rs.modify i (·.mapMention f)).map id = rs.map id := by
  apply List.ext_getElem?
  intro j
  rw [List.getElem?_map, List.getElem?_map, List.getElem?_modify]
  by_cases hij : i = j
  · subst hij
    cases rs[i]? <;> simp [mapMention]
  · simp [hij]

theorem map_mention_modify (i : Nat) (f : Mention → Mention) :
    (rs.modify i (·.mapMention f)).map mention = (rs.map mention).modify i f := by
  apply List.ext_getElem?
  intro j
  rw [List.getElem?_map, List.getElem?_modify, List.getElem?_modify, List.getElem?_map]
  by_cases hij : i = j
  · subst hij
    cases rs[i]? <;> simp [mapMention]
  · simp [hij]

end Reference

/-- The mentions found so far. -/
def Collector.mentions (c : Collector) : List Mention :=
  c.references.map Reference.mention

namespace Collector

variable (c : Collector) (d : Document)

@[simp]
theorem length_mentions : c.mentions.length = c.next := by
  simp [mentions, next]

@[simp]
theorem mentions_add (place : Tree) (m : Mention) :
    (c.add d place m).mentions = c.mentions ++ [m] := by
  simp [mentions, add]

@[simp]
theorem mentions_modify (i : Nat) (f : Mention → Mention) :
    (c.modify i f).mentions = c.mentions.modify i f :=
  Reference.map_mention_modify i f

end Collector

/-- What a collector holds after the given nodes were left. -/
structure Collected (done : List Site) (c : Collector) : Prop where
  numbered : c.references.map Reference.id = List.range c.next
  linked : Linked c.mentions
  tables : Marked .tableAlias Mention.isTableProper Site.tableBefore? done c.mentions c.tables
  columns : Marked .selectAlias Mention.isColumn Site.itemColumn? done c.mentions c.columns

namespace Collected

variable {done : List Site} {c : Collector} (d : Document)

theorem empty : Collected [] .empty :=
  ⟨rfl, .nil, .nil, .nil⟩

theorem append_done (h : Collected done c) (s : Site) : Collected (done ++ [s]) c :=
  ⟨h.numbered, h.linked, h.tables.append_done s, h.columns.append_done s⟩

theorem numbered_add (h : Collected done c) (place : Tree) (m : Mention) :
    (c.add d place m).references.map Reference.id = List.range (c.add d place m).next := by
  simp [Collector.add, Collector.next, List.range_succ, h.numbered]

/-- A mention is added that no node is marked with. -/
theorem add (h : Collected done c) (place : Tree) {m : Mention} (hm : Linked.Fits c.mentions m) :
    Collected done (c.add d place m) where
  numbered := h.numbered_add d place m
  linked := by
    rw [Collector.mentions_add]
    exact h.linked.concat hm
  tables := by
    rw [Collector.mentions_add]
    exact h.tables.concat hm.alias?_eq_none
  columns := by
    rw [Collector.mentions_add]
    exact h.columns.concat hm.alias?_eq_none

/-- The collector to which a table is added: the schema that qualifies it comes first. -/
theorem addSchema? (h : Collected done c) (schema : Option Located) :
    Collected done ((schema.map (c.addSchema d)).getD c) := by
  cases schema with
  | none => exact h
  | some name => exact h.add d _ (.schema _)

theorem fits_table (schema : Option Located) (name : String) (qualifier : Bool) :
    Linked.Fits ((schema.map (c.addSchema d)).getD c).mentions
      (.table ⟨name, schema.map fun _ => c.next, none, qualifier⟩) := by
  refine .table _ rfl ?_
  cases schema with
  | none => exact fun i hi => nomatch hi
  | some l =>
      rintro i ⟨⟩
      exact ⟨d.name l.tree, by simp [Collector.addSchema]⟩

theorem addTable (h : Collected done c) (schema : Option Located) (name : Located)
    (qualifier : Bool) : Collected done (c.addTable d schema name qualifier) :=
  (h.addSchema? d schema).add d _ (fits_table d schema _ qualifier)

theorem addTable_remember (h : Collected done c) (schema : Option Located) (name node : Located) :
    Collected done ((c.addTable d schema name false).rememberTable node) := by
  have hadd := h.addTable d schema name false
  refine ⟨hadd.numbered, hadd.linked, ?_, hadd.columns⟩
  have hmark := (h.addSchema? d schema).tables.mark (m := .table
    ⟨d.name name.tree, schema.map fun _ => c.next, none, false⟩) rfl rfl node.address
  have hnext : (c.addTable d schema name false).next - 1 =
      ((schema.map (c.addSchema d)).getD c).mentions.length := by
    simp [Collector.addTable, Collector.add, Collector.next, Collector.mentions]
  rw [← hnext] at hmark
  simpa [Collector.addTable, Collector.rememberTable, Collector.mentions, Collector.add] using hmark

theorem addColumn (h : Collected done c) (s : Site) {table : Option Nat}
    (htable : ∀ i ∈ table, ∃ m, c.mentions[i]? = some (.table m)) (name : Located) :
    Collected done (c.addColumn d s table name) := by
  have hadd := h.add d name.tree
    (.column ⟨d.name name.tree, table, none, s.clause?⟩ rfl htable)
  refine ⟨hadd.numbered, hadd.linked, hadd.tables, ?_⟩
  have hmark := h.columns.mark (m := .column ⟨d.name name.tree, table, none, s.clause?⟩) rfl rfl
    s.here.address
  rw [Collector.length_mentions] at hmark
  simpa [Collector.addColumn, Collector.mentions, Collector.add] using hmark

theorem addQualifiedColumn (h : Collected done c) (s : Site) (schema : Option Located)
    (table name : Located) : Collected done (c.addQualifiedColumn d s schema table name) := by
  refine (h.addTable d schema table true).addColumn d s ?_ name
  rintro i ⟨⟩
  -- the qualifier is the mention added last
  refine ⟨⟨d.name table.tree, schema.map fun _ => c.next, none, true⟩, ?_⟩
  simp [Collector.addTable]
  simp [Collector.add, Collector.next, Collector.mentions]

theorem mem_of_lookup {marks : List (Address × Nat)} {address : Address} {i : Nat}
    (h : marks.lookup address = some i) : (address, i) ∈ marks := by
  obtain ⟨l₁, l₂, rfl, -⟩ := List.lookup_eq_some_iff.1 h
  simp

/-! ### Leaving a node -/

section Leave

variable {root : Tree} {s : Site}

theorem leaveTable (h : Collected done c) : Collected done (c.leaveTable d s) := by
  rw [Collector.leaveTable]
  split
  · exact h.addTable_remember d none _ _
  · exact h.addTable_remember d (some _) _ _
  · exact h

theorem leaveSchema (h : Collected done c) : Collected done (c.leaveSchema d s) := by
  rw [Collector.leaveSchema]
  split
  · exact h.add d _ (.schema _)
  · exact h

theorem leaveColumn (h : Collected done c) : Collected done (c.leaveColumn d s) := by
  rw [Collector.leaveColumn]
  split
  · exact h.addColumn d s (by simp) _
  · exact h.addQualifiedColumn d s none _ _
  · exact h.addQualifiedColumn d s (some _) _ _
  · exact h

theorem leaveFunction (h : Collected done c) : Collected done (c.leaveFunction d s) := by
  rw [Collector.leaveFunction]
  split
  · split
    · split
      · exact h.add d _ (.function _)
      · exact h
    · exact h
  · exact h

/-- What a value is compared with is a column. -/
theorem comparedColumn? (h : Collected done c) :
    ∀ (ancestors : List Located) (operand : Address) (i : Nat),
      c.comparedColumn? operand ancestors = some i → ∃ m, c.mentions[i]? = some (.column m) := by
  have hlookup : ∀ {address : Address} {i : Nat}, c.columns.lookup address = some i →
      ∃ m, c.mentions[i]? = some (.column m) := by
    intro address i hi
    obtain ⟨x, hx, hk⟩ := h.columns.kept _ (mem_of_lookup hi)
    cases x with
    | column m => exact ⟨m, hx⟩
    | _ => cases hk
  intro ancestors
  induction ancestors with
  | nil => simp [Collector.comparedColumn?]
  | cons a ancestors ih =>
      intro operand i hi
      rw [Collector.comparedColumn?] at hi
      split at hi
      · exact ih _ i hi
      · exact ih _ i hi
      · obtain ⟨left, -, hi⟩ := Option.bind_eq_some_iff.1 hi
        split at hi
        · cases hi
        · obtain ⟨column, -, hi⟩ := Option.bind_eq_some_iff.1 hi
          exact hlookup hi
      · obtain ⟨column, -, hi⟩ := Option.bind_eq_some_iff.1 hi
        exact hlookup hi
      · cases hi

theorem leavePredicate (h : Collected done c) : Collected done (c.leavePredicate d s) := by
  rw [Collector.leavePredicate]
  split
  · exact h
  · split
    · exact h
    · exact h.add d _ (.value _ (h.comparedColumn? s.ancestors s.here.address))

/-- A mention marked with a node gets its first alias. -/
theorem addAlias (h : Collected done c) (place : Tree) (name : String) {t : Nat} {x₀ : Mention}
    {target : AliasTarget} (hx₀ : c.mentions[t]? = some x₀) (hun : Linked.Unaliased t x₀ target)
    {l : Located}
    (htable : x₀.isTableProper = true → s.here.tree.isRule .tableAlias = true ∧
      l ∈ s.tableBefore? ∧ (l.address, t) ∈ c.tables)
    (hcolumn : x₀.isColumn = true → s.here.tree.isRule .selectAlias = true ∧
      l ∈ s.itemColumn? ∧ (l.address, t) ∈ c.columns) :
    Collected (done ++ [s])
      ((c.add d place (.aliasName name target)).modify t (·.withAlias c.next)) where
  numbered := by
    have hadd := h.numbered_add d place (.aliasName name target)
    simpa [Collector.modify, Collector.next, Reference.map_id_modify] using hadd
  linked := by
    rw [Collector.mentions_modify, Collector.mentions_add, ← Collector.length_mentions]
    exact h.linked.addAlias name hx₀ hun
  tables := by
    rw [Collector.mentions_modify, Collector.mentions_add, ← Collector.length_mentions]
    exact h.tables.addAlias (fun x i => by cases x <;> rfl) rfl hx₀ htable
  columns := by
    rw [Collector.mentions_modify, Collector.mentions_add, ← Collector.length_mentions]
    exact h.columns.addAlias (fun x i => by cases x <;> rfl) rfl hx₀ hcolumn

theorem leaveTableAlias (h : Collected done c) (hroot : root.Single .tableAlias)
    (hdone : ∀ s ∈ done, s.Placed root) (hs : s.Placed root)
    (hfresh : ∀ s' ∈ done, s'.here.address ≠ s.here.address)
    (hrule : s.here.tree.isRule .tableAlias = true) :
    Collected (done ++ [s]) (c.leaveTableAlias d s) := by
  rw [Collector.leaveTableAlias]
  split
  · next t name rest hbefore hnames =>
    obtain ⟨l, hl, hlookup⟩ := Option.bind_eq_some_iff.1 hbefore
    have hmark := mem_of_lookup hlookup
    obtain ⟨x, hx, hk, ha⟩ :=
      h.tables.unaliased tableBefore?_beside hroot hdone hs hfresh hrule hl hmark
    cases x with
    | table m =>
        have hproper : m.qualifier = false := by
          simpa [Mention.isTableProper] using hk
        exact h.addAlias d _ _ hx (.table m ha hproper) (fun _ => ⟨hrule, hl, hmark⟩)
          (fun hcolumn => nomatch hcolumn)
    | _ => cases hk
  · exact h.append_done s

theorem leaveSelectAlias (h : Collected done c) (hroot : root.Single .selectAlias)
    (hdone : ∀ s ∈ done, s.Placed root) (hs : s.Placed root)
    (hfresh : ∀ s' ∈ done, s'.here.address ≠ s.here.address)
    (hrule : s.here.tree.isRule .selectAlias = true) :
    Collected (done ++ [s]) (c.leaveSelectAlias d s) := by
  rw [Collector.leaveSelectAlias]
  split
  · next parent name hparent hname =>
    dsimp only
    cases hitem : s.itemColumn?.bind (c.columns.lookup ·.address) with
    | none => exact (h.add d _ (.aliasName _)).append_done s
    | some t =>
        obtain ⟨l, hl, hlookup⟩ := Option.bind_eq_some_iff.1 hitem
        have hmark := mem_of_lookup hlookup
        obtain ⟨x, hx, hk, ha⟩ :=
          h.columns.unaliased itemColumn?_beside hroot hdone hs hfresh hrule hl hmark
        cases x with
        | column m =>
            exact h.addAlias d _ _ hx (.column m ha) (fun htable => nomatch htable)
              (fun _ => ⟨hrule, hl, hmark⟩)
        | _ => cases hk
  · exact h.append_done s

/-- Leaving one more node keeps the references in order. -/
theorem leave (h : Collected done c) (htable : root.Single .tableAlias)
    (hselect : root.Single .selectAlias) (hdone : ∀ s ∈ done, s.Placed root) (hs : s.Placed root)
    (hfresh : ∀ s' ∈ done, s'.here.address ≠ s.here.address) :
    Collected (done ++ [s]) (c.leave d s) := by
  have hisRule : ∀ {rule : Rule}, s.here.tree.rule? = some rule →
      s.here.tree.isRule rule = true := by
    intro rule hrule
    simp [Tree.isRule, hrule]
  rw [Collector.leave]
  split
  · exact (h.leaveTable d).append_done s
  · exact (h.leaveTable d).append_done s
  · exact (h.leaveSchema d).append_done s
  · exact (h.leaveSchema d).append_done s
  · next hrule => exact h.leaveTableAlias d htable hdone hs hfresh (hisRule hrule)
  · exact (h.leaveColumn d).append_done s
  · next hrule => exact h.leaveSelectAlias d hselect hdone hs hfresh (hisRule hrule)
  · exact (h.leavePredicate d).append_done s
  · exact (h.leaveFunction d).append_done s
  · exact h.append_done s

end Leave

/-! ### The walk -/

/-- A run over nodes at different places of a tree. -/
theorem foldl_leave {root : Tree} (htable : root.Single .tableAlias)
    (hselect : root.Single .selectAlias) (sites : List Site) (hplaced : ∀ s ∈ sites, s.Placed root)
    (hdistinct : sites.Pairwise fun s s' => s.here.address ≠ s'.here.address) :
    Collected sites (sites.foldl (·.leave d ·) .empty) := by
  induction sites using List.reverseRecOn with
  | nil => exact empty
  | append_singleton sites s ih =>
      rw [List.pairwise_append] at hdistinct
      obtain ⟨hdistinct, -, hfresh⟩ := hdistinct
      have hdone : ∀ s ∈ sites, s.Placed root := fun s' hs' =>
        hplaced s' (List.mem_append_left _ hs')
      rw [List.foldl_append]
      exact (ih hdone hdistinct).leave d htable hselect hdone (hplaced s (by simp))
        (fun s' hs' => hfresh s' hs' s (by simp))

end Collected

theorem Collector.foldl_visit (d : Document) (visits : List Visit) (c : Collector) :
    visits.foldl (Collector.visit d) c = (visits.filterMap Visit.left?).foldl (·.leave d ·) c := by
  induction visits generalizing c with
  | nil => rfl
  | cons v visits ih =>
      rw [List.foldl_cons, ih]
      cases v <;> rfl

/-- The references of a tree without two aliases below one node are in order. -/
theorem Collector.ofDocument_collected (d : Document)
    (hroot : ∀ t ∈ d.root, t.Single .tableAlias ∧ t.Single .selectAlias) :
    ∃ done, Collected done (Collector.ofDocument d) := by
  rw [Collector.ofDocument, Document.walk]
  cases ht : d.root with
  | none => exact ⟨[], .empty⟩
  | some t =>
      obtain ⟨htable, hselect⟩ := hroot t ht
      refine ⟨Tree.sitesAt d [] [] t, ?_⟩
      rw [Collector.foldl_visit]
      exact Collected.foldl_leave d htable hselect (Tree.sitesAt d [] [] t)
        (Tree.sitesAt_placed [] [] t rfl (fun p hp => nomatch hp)) (Tree.sitesAt_distinct [] [] t)

end MySqlAnalysis
