import Mathlib.Data.List.Forall2
import MySqlAnalysis.Reference.Infer

/-!
# Links between references

In a linked list of mentions every link is a position of the list and leads to
the right kind of mention, and a table or column and its alias name each other
(`Linked`). Lists stay linked when a mention is added whose links lead into the
list (`Linked.concat`), when a table or column without an alias gets one
(`Linked.addAlias`), and when columns are given tables and values are given
columns (`Linked.relink`).
-/

set_option autoImplicit false

namespace MySqlAnalysis

/-- The links of a list of mentions are in order. -/
structure Linked (ms : List Mention) : Prop where
  noKeyword : ∀ word, Mention.keyword word ∉ ms
  schema : ∀ (t : Nat) (m : TableMention) (i : Nat),
    ms[t]? = some (.table m) → m.schema = some i → ∃ name, ms[i]? = some (.schema name)
  table : ∀ (c : Nat) (m : ColumnMention) (i : Nat),
    ms[c]? = some (.column m) → m.table = some i → ∃ m', ms[i]? = some (.table m')
  column : ∀ (v : Nat) (m : ValueMention) (i : Nat),
    ms[v]? = some (.value m) → m.column = some i → ∃ m', ms[i]? = some (.column m')
  /-- A table has an alias exactly if that is an alias of the table. -/
  tableAlias : ∀ t a : Nat,
    (∃ m : TableMention, ms[t]? = some (.table m) ∧ m.aliasName = some a) ↔
      ∃ name, ms[a]? = some (.aliasName name (.table t))
  /-- A column has an alias exactly if that is an alias of the column. -/
  columnAlias : ∀ c a : Nat,
    (∃ m : ColumnMention, ms[c]? = some (.column m) ∧ m.aliasName = some a) ↔
      ∃ name, ms[a]? = some (.aliasName name (.column (some c)))
  /-- A table that only qualifies a column has no alias. -/
  proper : ∀ (t : Nat) (m : TableMention) (a : Nat),
    ms[t]? = some (.table m) → m.aliasName = some a → m.qualifier = false

/-- References that are numbered by their places and whose links are in order. -/
structure Reference.WellFormed (rs : List Reference) : Prop where
  numbered : rs.map Reference.id = List.range rs.length
  linked : Linked (rs.map Reference.mention)

namespace Linked

variable {ms : List Mention}

theorem nil : Linked [] where
  noKeyword word h := absurd h List.not_mem_nil
  schema := by simp
  table := by simp
  column := by simp
  tableAlias := by simp
  columnAlias := by simp
  proper := by simp

/-! ### Aliases of tables and columns -/

/-- What the mention at a place is to its alias, and the place of that alias. -/
def aliasLink? (place : Nat) : Mention → Option (AliasTarget × Nat)
  | .table m => m.aliasName.map (.table place, ·)
  | .column m => m.aliasName.map (.column (some place), ·)
  | _ => none

/-- A table or column of the list has the alias at a place. -/
def HasAlias (ms : List Mention) (target : AliasTarget) (a : Nat) : Prop :=
  ∃ (i : Nat) (x : Mention), ms[i]? = some x ∧ aliasLink? i x = some (target, a)

/-- An alias of a table or column stands at a place. -/
def StandsFor (ms : List Mention) (a : Nat) (target : AliasTarget) : Prop :=
  ∃ name, ms[a]? = some (.aliasName name target)

theorem hasAlias_table {t a : Nat} : HasAlias ms (.table t) a ↔
    ∃ m : TableMention, ms[t]? = some (.table m) ∧ m.aliasName = some a := by
  constructor
  · rintro ⟨i, x, hx, hlink⟩
    cases x with
    | table m =>
        obtain ⟨_, ha, ⟨⟩⟩ := Option.map_eq_some_iff.1 hlink
        exact ⟨m, hx, ha⟩
    | column m => obtain ⟨_, _, ⟨⟩⟩ := Option.map_eq_some_iff.1 hlink
    | _ => cases hlink
  · rintro ⟨m, hm, ha⟩
    exact ⟨t, .table m, hm, Option.map_eq_some_iff.2 ⟨a, ha, rfl⟩⟩

theorem hasAlias_column {c a : Nat} : HasAlias ms (.column (some c)) a ↔
    ∃ m : ColumnMention, ms[c]? = some (.column m) ∧ m.aliasName = some a := by
  constructor
  · rintro ⟨i, x, hx, hlink⟩
    cases x with
    | table m => obtain ⟨_, _, ⟨⟩⟩ := Option.map_eq_some_iff.1 hlink
    | column m =>
        obtain ⟨_, ha, ⟨⟩⟩ := Option.map_eq_some_iff.1 hlink
        exact ⟨m, hx, ha⟩
    | _ => cases hlink
  · rintro ⟨m, hm, ha⟩
    exact ⟨c, .column m, hm, Option.map_eq_some_iff.2 ⟨a, ha, rfl⟩⟩

theorem hasAlias_table_iff (h : Linked ms) (t a : Nat) :
    HasAlias ms (.table t) a ↔ StandsFor ms a (.table t) :=
  hasAlias_table.trans (h.tableAlias t a)

theorem hasAlias_column_iff (h : Linked ms) (c a : Nat) :
    HasAlias ms (.column (some c)) a ↔ StandsFor ms a (.column (some c)) :=
  hasAlias_column.trans (h.columnAlias c a)

/-! ### Adding a mention -/

/-- Whether a mention without an alias, and not itself one of a table or column,
has only links into the list. -/
inductive Fits (ms : List Mention) : Mention → Prop
  | function (name : String) : Fits ms (.function name)
  | schema (name : String) : Fits ms (.schema name)
  | table (m : TableMention) : m.aliasName = none →
      (∀ i ∈ m.schema, ∃ name, ms[i]? = some (.schema name)) → Fits ms (.table m)
  | column (m : ColumnMention) : m.aliasName = none →
      (∀ i ∈ m.table, ∃ m', ms[i]? = some (.table m')) → Fits ms (.column m)
  | value (m : ValueMention) :
      (∀ i ∈ m.column, ∃ m', ms[i]? = some (.column m')) → Fits ms (.value m)
  | aliasName (name : String) : Fits ms (.aliasName name (.column none))

theorem getElem?_concat_eq_some {m x : Mention} {i : Nat} :
    (ms ++ [m])[i]? = some x ↔ ms[i]? = some x ∨ (i = ms.length ∧ x = m) := by
  rcases Nat.lt_trichotomy i ms.length with hi | hi | hi
  · rw [List.getElem?_append_left hi]
    simp [Nat.ne_of_lt hi]
  · subst hi
    simp [eq_comm]
  · rw [List.getElem?_eq_none (by simp; omega), List.getElem?_eq_none (by omega)]
    simp
    omega

theorem getElem?_concat_left {m x : Mention} {i : Nat} (h : ms[i]? = some x) :
    (ms ++ [m])[i]? = some x :=
  getElem?_concat_eq_some.2 (.inl h)

/-- A mention of the longer list is one of before or has its links into the list. -/
theorem of_getElem?_concat {m x : Mention} {i : Nat} (hm : Fits ms m)
    (h : (ms ++ [m])[i]? = some x) : ms[i]? = some x ∨ Fits ms x := by
  rcases getElem?_concat_eq_some.1 h with h | ⟨-, rfl⟩
  · exact .inl h
  · exact .inr hm

theorem Fits.hasAlias_iff {m : Mention} (hm : Fits ms m) {target : AliasTarget} {a : Nat} :
    HasAlias (ms ++ [m]) target a ↔ HasAlias ms target a := by
  constructor
  · rintro ⟨i, x, hx, hlink⟩
    rcases of_getElem?_concat hm hx with hx | hfits
    · exact ⟨i, x, hx, hlink⟩
    · cases hfits with
      | table m halias =>
          rw [aliasLink?, halias] at hlink
          cases hlink
      | column m halias =>
          rw [aliasLink?, halias] at hlink
          cases hlink
      | _ => cases hlink
  · rintro ⟨i, x, hx, hlink⟩
    exact ⟨i, x, getElem?_concat_left hx, hlink⟩

theorem Fits.standsFor_iff {m : Mention} (hm : Fits ms m) {target : AliasTarget} {a : Nat}
    (htarget : target ≠ .column none) :
    StandsFor (ms ++ [m]) a target ↔ StandsFor ms a target := by
  constructor
  · rintro ⟨name, hname⟩
    rcases of_getElem?_concat hm hname with hname | hfits
    · exact ⟨name, hname⟩
    · cases hfits
      exact absurd rfl htarget
  · exact fun hstands => hstands.imp fun name => getElem?_concat_left

theorem concat (h : Linked ms) {m : Mention} (hm : Fits ms m) : Linked (ms ++ [m]) where
  noKeyword word hmem := by
    rcases List.mem_append.1 hmem with hmem | hmem
    · exact h.noKeyword word hmem
    · rw [← List.mem_singleton.1 hmem] at hm
      cases hm
  schema t x i hx hi := by
    rcases of_getElem?_concat hm hx with hx | hfits
    · exact (h.schema t x i hx hi).imp fun name => getElem?_concat_left
    · cases hfits with
      | table _ _ hschema => exact (hschema i hi).imp fun name => getElem?_concat_left
  table c x i hx hi := by
    rcases of_getElem?_concat hm hx with hx | hfits
    · exact (h.table c x i hx hi).imp fun t => getElem?_concat_left
    · cases hfits with
      | column _ _ htable => exact (htable i hi).imp fun t => getElem?_concat_left
  column v x i hx hi := by
    rcases of_getElem?_concat hm hx with hx | hfits
    · exact (h.column v x i hx hi).imp fun c => getElem?_concat_left
    · cases hfits with
      | value _ hcolumn => exact (hcolumn i hi).imp fun c => getElem?_concat_left
  tableAlias t a := by
    rw [← hasAlias_table, hm.hasAlias_iff, h.hasAlias_table_iff, ← hm.standsFor_iff (by simp)]
    rfl
  columnAlias c a := by
    rw [← hasAlias_column, hm.hasAlias_iff, h.hasAlias_column_iff, ← hm.standsFor_iff (by simp)]
    rfl
  proper t x a hx ha := by
    rcases of_getElem?_concat hm hx with hx | hfits
    · exact h.proper t x a hx ha
    · cases hfits with
      | table _ halias => cases halias.symm.trans ha

/-! ### Giving a table or column its alias -/

/-- What an alias of the mention at a place stands for: a table proper or a
column, without an alias so far. -/
inductive Unaliased (i : Nat) : Mention → AliasTarget → Prop
  | table (m : TableMention) : m.aliasName = none → m.qualifier = false →
      Unaliased i (.table m) (.table i)
  | column (m : ColumnMention) : m.aliasName = none → Unaliased i (.column m) (.column (some i))

theorem getElem?_modify_concat {x₀ m x : Mention} {t i : Nat} {f : Mention → Mention}
    (h : ms[t]? = some x₀) :
    ((ms ++ [m]).modify t f)[i]? = some x ↔
      (i = t ∧ x = f x₀) ∨ (i ≠ t ∧ (ms[i]? = some x ∨ (i = ms.length ∧ x = m))) := by
  rw [List.getElem?_modify]
  by_cases hi : i = t
  · subst hi
    have hfirst : (ms ++ [m])[i]? = some x₀ := getElem?_concat_left h
    simp [hfirst, eq_comm]
  · have hi' : t ≠ i := fun heq => hi heq.symm
    simp only [hi', if_false, hi, false_and, ne_eq, not_false_eq_true, true_and, false_or]
    rw [id_map']
    exact getElem?_concat_eq_some

/-- A mention may become another that differs at most in its alias: a table proper or a
column gets the one at a place. -/
inductive Aliases (n : Nat) : Mention → Mention → Prop
  | same (x : Mention) : Aliases n x x
  | table (m : TableMention) : m.qualifier = false →
      Aliases n (.table m) (.table { m with aliasName := some n })
  | column (m : ColumnMention) : Aliases n (.column m) (.column { m with aliasName := some n })

namespace Unaliased

variable {t i a : Nat} {x₀ x x' : Mention} {target stands : AliasTarget} {name : String}

theorem aliases (ht : Unaliased t x₀ target) (n : Nat) : Aliases n x₀ (x₀.withAlias n) := by
  cases ht with
  | table m _ hproper => exact .table m hproper
  | column m _ => exact .column m

theorem aliasLink?_eq_none (ht : Unaliased t x₀ target) : aliasLink? t x₀ = none := by
  cases ht with
  | table m hnone _ => exact Option.map_eq_none_iff.2 hnone
  | column m hnone => exact Option.map_eq_none_iff.2 hnone

theorem aliasLink?_withAlias (ht : Unaliased t x₀ target) (n : Nat) :
    aliasLink? t (x₀.withAlias n) = some (target, n) := by
  cases ht <;> rfl

/-- A mention of the new list is the alias or one of before, apart from its alias. -/
theorem before (ht : Unaliased t x₀ target) (hx₀ : ms[t]? = some x₀)
    (hx : ((ms ++ [Mention.aliasName name target]).modify t
      (·.withAlias ms.length))[i]? = some x') :
    (i = ms.length ∧ x' = .aliasName name target) ∨
      ∃ x, ms[i]? = some x ∧ Aliases ms.length x x' := by
  rcases (getElem?_modify_concat hx₀).1 hx with ⟨rfl, rfl⟩ | ⟨-, hold | hnew⟩
  · exact .inr ⟨x₀, hx₀, ht.aliases _⟩
  · exact .inr ⟨x', hold, .same x'⟩
  · exact .inl hnew

theorem after (ht : Unaliased t x₀ target) (name : String) (hx₀ : ms[t]? = some x₀)
    (hx : ms[i]? = some x) :
    ∃ x', ((ms ++ [Mention.aliasName name target]).modify t (·.withAlias ms.length))[i]? = some x' ∧
      Aliases ms.length x x' := by
  by_cases hi : i = t
  · subst hi
    cases hx₀.symm.trans hx
    exact ⟨_, (getElem?_modify_concat hx₀).2 (.inl ⟨rfl, rfl⟩), ht.aliases _⟩
  · exact ⟨x, (getElem?_modify_concat hx₀).2 (.inr ⟨hi, .inl hx⟩), .same x⟩

/-- The mention that the alias stands for has it, the others have those of before. -/
theorem hasAlias_iff (ht : Unaliased t x₀ target) (hx₀ : ms[t]? = some x₀) :
    HasAlias ((ms ++ [Mention.aliasName name target]).modify t (·.withAlias ms.length)) stands a ↔
      (stands = target ∧ a = ms.length) ∨ HasAlias ms stands a := by
  constructor
  · rintro ⟨i, x, hx, hlink⟩
    rcases (getElem?_modify_concat hx₀).1 hx with ⟨rfl, rfl⟩ | ⟨-, hold | ⟨-, rfl⟩⟩
    · rw [ht.aliasLink?_withAlias] at hlink
      cases hlink
      exact .inl ⟨rfl, rfl⟩
    · exact .inr ⟨i, x, hold, hlink⟩
    · cases hlink
  · rintro (⟨rfl, rfl⟩ | ⟨i, x, hx, hlink⟩)
    · exact ⟨t, _, (getElem?_modify_concat hx₀).2 (.inl ⟨rfl, rfl⟩), ht.aliasLink?_withAlias _⟩
    · refine ⟨i, x, (getElem?_modify_concat hx₀).2 (.inr ⟨?_, .inl hx⟩), hlink⟩
      rintro rfl
      cases hx₀.symm.trans hx
      cases ht.aliasLink?_eq_none.symm.trans hlink

/-- The aliases of the new list are those of before and the new one. -/
theorem standsFor_iff (ht : Unaliased t x₀ target) (hx₀ : ms[t]? = some x₀) :
    StandsFor ((ms ++ [Mention.aliasName name target]).modify t (·.withAlias ms.length)) a stands ↔
      (stands = target ∧ a = ms.length) ∨ StandsFor ms a stands := by
  constructor
  · rintro ⟨name', hname⟩
    rcases ht.before hx₀ hname with ⟨ha, ⟨⟩⟩ | ⟨x, hx, ⟨⟩⟩
    · exact .inl ⟨rfl, ha⟩
    · exact .inr ⟨name', hx⟩
  · rintro (⟨rfl, rfl⟩ | ⟨name', hname⟩)
    · have hlt : t < ms.length := (List.getElem?_eq_some_iff.1 hx₀).1
      exact ⟨name, (getElem?_modify_concat hx₀).2 (.inr ⟨Nat.ne_of_gt hlt, .inr ⟨rfl, rfl⟩⟩)⟩
    · obtain ⟨x', hx', ⟨⟩⟩ := ht.after name hx₀ hname
      exact ⟨name', hx'⟩

end Unaliased

theorem addAlias (h : Linked ms) {t : Nat} {x₀ : Mention} {target : AliasTarget} (name : String)
    (hx₀ : ms[t]? = some x₀) (ht : Unaliased t x₀ target) :
    Linked ((ms ++ [Mention.aliasName name target]).modify t (·.withAlias ms.length)) where
  noKeyword word hmem := by
    obtain ⟨i, hi⟩ := List.mem_iff_getElem?.1 hmem
    rcases ht.before hx₀ hi with ⟨-, ⟨⟩⟩ | ⟨x, hx, ⟨⟩⟩
    exact h.noKeyword word (List.mem_of_getElem? hx)
  schema i m j hm hj := by
    rcases ht.before hx₀ hm with ⟨-, ⟨⟩⟩ | ⟨x, hx, hsame⟩
    have hschema : ∃ name', ms[j]? = some (.schema name') := by
      cases hsame with
      | same => exact h.schema i m j hx hj
      | table m₀ => exact h.schema i m₀ j hx hj
    obtain ⟨name', hname'⟩ := hschema
    obtain ⟨x', hx', ⟨⟩⟩ := ht.after name hx₀ hname'
    exact ⟨name', hx'⟩
  table i m j hm hj := by
    rcases ht.before hx₀ hm with ⟨-, ⟨⟩⟩ | ⟨x, hx, hsame⟩
    have htable : ∃ m', ms[j]? = some (.table m') := by
      cases hsame with
      | same => exact h.table i m j hx hj
      | column m₀ => exact h.table i m₀ j hx hj
    obtain ⟨m', hm'⟩ := htable
    obtain ⟨x', hx', hafter⟩ := ht.after name hx₀ hm'
    cases hafter with
    | same => exact ⟨m', hx'⟩
    | table => exact ⟨_, hx'⟩
  column i m j hm hj := by
    rcases ht.before hx₀ hm with ⟨-, ⟨⟩⟩ | ⟨x, hx, ⟨⟩⟩
    obtain ⟨m', hm'⟩ := h.column i m j hx hj
    obtain ⟨x', hx', hafter⟩ := ht.after name hx₀ hm'
    cases hafter with
    | same => exact ⟨m', hx'⟩
    | column => exact ⟨_, hx'⟩
  tableAlias i a := by
    rw [← hasAlias_table, ht.hasAlias_iff hx₀, h.hasAlias_table_iff, ← ht.standsFor_iff hx₀]
    rfl
  columnAlias i a := by
    rw [← hasAlias_column, ht.hasAlias_iff hx₀, h.hasAlias_column_iff, ← ht.standsFor_iff hx₀]
    rfl
  proper i m a hm ha := by
    rcases ht.before hx₀ hm with ⟨-, ⟨⟩⟩ | ⟨x, hx, hsame⟩
    cases hsame with
    | same => exact h.proper i m a hx ha
    | table m₀ hproper => exact hproper

/-! ### Setting tables and columns -/

/-- A mention may become another that differs at most in a link: a column gets a
table of the list, or a value a column of the list. -/
inductive Relinks (ms : List Mention) : Mention → Mention → Prop
  | same (x : Mention) : Relinks ms x x
  | column (m : ColumnMention) (i : Nat) : (∃ m', ms[i]? = some (.table m')) →
      Relinks ms (.column m) (.column { m with table := some i })
  | value (m : ValueMention) (i : Nat) : (∃ m', ms[i]? = some (.column m')) →
      Relinks ms (.value m) (.value { m with column := m.column.or (some i) })

theorem Relinks.aliasLink?_eq {x x' : Mention} (h : Relinks ms x x') (i : Nat) :
    aliasLink? i x' = aliasLink? i x := by
  cases h <;> rfl

/-- Two lists whose mentions differ at most in the tables of columns and the
columns of values, links into the first list being added. -/
def Relinked (ms ms' : List Mention) : Prop :=
  ∀ i : Nat, Option.Rel (Relinks ms) ms[i]? ms'[i]?

variable {ms' : List Mention}

namespace Relinked

theorem before (h : Relinked ms ms') {i : Nat} {x' : Mention} (hx : ms'[i]? = some x') :
    ∃ x, ms[i]? = some x ∧ Relinks ms x x' := by
  have hi := h i
  rw [hx] at hi
  cases hms : ms[i]? with
  | none =>
      rw [hms] at hi
      cases hi
  | some x =>
      rw [hms] at hi
      cases hi with
      | some hrel => exact ⟨x, rfl, hrel⟩

theorem after (h : Relinked ms ms') {i : Nat} {x : Mention} (hx : ms[i]? = some x) :
    ∃ x', ms'[i]? = some x' ∧ Relinks ms x x' := by
  have hi := h i
  rw [hx] at hi
  cases hms : ms'[i]? with
  | none =>
      rw [hms] at hi
      cases hi
  | some x' =>
      rw [hms] at hi
      cases hi with
      | some hrel => exact ⟨x', rfl, hrel⟩

/-- What is neither a column nor a value stays the same. -/
theorem same_iff (h : Relinked ms ms') {i : Nat} {x : Mention} (hcolumn : ∀ m, x ≠ .column m)
    (hvalue : ∀ m, x ≠ .value m) : ms'[i]? = some x ↔ ms[i]? = some x := by
  constructor
  · intro hx
    obtain ⟨x₀, hx₀, hrel⟩ := h.before hx
    cases hrel with
    | same => exact hx₀
    | column m i hi => exact absurd rfl (hcolumn _)
    | value m i hi => exact absurd rfl (hvalue _)
  · intro hx
    obtain ⟨x', hx', hrel⟩ := h.after hx
    cases hrel with
    | same => exact hx'
    | column m i hi => exact absurd rfl (hcolumn _)
    | value m i hi => exact absurd rfl (hvalue _)

/-- A column stays a column. -/
theorem column_after (h : Relinked ms ms') {i : Nat} {m : ColumnMention}
    (hm : ms[i]? = some (.column m)) : ∃ m' : ColumnMention, ms'[i]? = some (.column m') := by
  obtain ⟨x', hx', hrel⟩ := h.after hm
  cases hrel with
  | same => exact ⟨m, hx'⟩
  | column _ j hj => exact ⟨_, hx'⟩

theorem column_before (h : Relinked ms ms') {i : Nat} {m' : ColumnMention}
    (hm : ms'[i]? = some (.column m')) :
    ∃ m : ColumnMention, ms[i]? = some (.column m) ∧
      ∀ j, m'.table = some j → m.table = some j ∨ ∃ t, ms[j]? = some (.table t) := by
  obtain ⟨x, hx, hrel⟩ := h.before hm
  cases hrel with
  | same => exact ⟨m', hx, fun j hj => .inl hj⟩
  | column m k hk =>
      refine ⟨m, hx, fun j hj => .inr ?_⟩
      cases hj
      exact hk

theorem hasAlias_iff (h : Relinked ms ms') {target : AliasTarget} {a : Nat} :
    HasAlias ms' target a ↔ HasAlias ms target a := by
  constructor
  · rintro ⟨i, x', hx', hlink⟩
    obtain ⟨x, hx, hrel⟩ := h.before hx'
    exact ⟨i, x, hx, hrel.aliasLink?_eq i ▸ hlink⟩
  · rintro ⟨i, x, hx, hlink⟩
    obtain ⟨x', hx', hrel⟩ := h.after hx
    exact ⟨i, x', hx', (hrel.aliasLink?_eq i).trans hlink⟩

theorem standsFor_iff (h : Relinked ms ms') {target : AliasTarget} {a : Nat} :
    StandsFor ms' a target ↔ StandsFor ms a target :=
  exists_congr fun _ => h.same_iff nofun nofun

end Relinked

theorem relink (h : Linked ms) (hms : Relinked ms ms') : Linked ms' where
  noKeyword word hmem := by
    obtain ⟨i, hi⟩ := List.mem_iff_getElem?.1 hmem
    have hword := (hms.same_iff (by simp) (by simp)).1 hi
    exact h.noKeyword word (List.mem_of_getElem? hword)
  schema t m i hm hi := by
    have hm₀ := (hms.same_iff (by simp) (by simp)).1 hm
    obtain ⟨name, hname⟩ := h.schema t m i hm₀ hi
    exact ⟨name, (hms.same_iff (by simp) (by simp)).2 hname⟩
  table c m i hm hi := by
    obtain ⟨m₀, hm₀, hnew⟩ := hms.column_before hm
    -- the table was there before or is one that the change added
    have htable : ∃ t, ms[i]? = some (.table t) := by
      rcases hnew i hi with hold | hnew
      · exact h.table c m₀ i hm₀ hold
      · exact hnew
    obtain ⟨t, ht⟩ := htable
    exact ⟨t, (hms.same_iff (by simp) (by simp)).2 ht⟩
  column v m i hm hi := by
    have hcolumn : ∃ m', ms[i]? = some (.column m') := by
      obtain ⟨x, hx, hrel⟩ := hms.before hm
      cases hrel with
      | same => exact h.column v m i hx hi
      | value m₀ k hk =>
          -- a value that had a column keeps it
          cases hm₀ : m₀.column with
          | none =>
              rw [hm₀] at hi
              cases hi
              exact hk
          | some j =>
              rw [hm₀] at hi
              cases hi
              exact h.column v m₀ i hx hm₀
    obtain ⟨m₀, hm₀⟩ := hcolumn
    exact hms.column_after hm₀
  tableAlias t a := by
    rw [← hasAlias_table, hms.hasAlias_iff, h.hasAlias_table_iff, ← hms.standsFor_iff]
    rfl
  columnAlias c a := by
    rw [← hasAlias_column, hms.hasAlias_iff, h.hasAlias_column_iff, ← hms.standsFor_iff]
    rfl
  proper t m a hm ha := h.proper t m a ((hms.same_iff (by simp) (by simp)).1 hm) ha

end Linked

end MySqlAnalysis
