import MySqlAnalysis.Reference.Collect

/-!
# Inferring links

After a walk the columns that waited are linked to the table of their scope.
When a text names exactly one table, every column belongs to it, and a value
without a column belongs to the column that comes at the same place among the
columns.
-/

set_option autoImplicit false

namespace MySqlAnalysis

/-- The references of a collector with the waiting columns linked to their tables. -/
def Collector.linked (c : Collector) : List Reference :=
  c.pending.foldl
    (fun references waiting =>
      match c.tables.lookup waiting.2 with
      | some table => references.modify waiting.1 (·.mapMention (·.withTable table))
      | none => references)
    c.references

namespace Reference

/-- The only table that references name, apart from qualifiers of columns. -/
def soleTable? (references : List Reference) : Option Nat :=
  match references.filter (·.mention.isTableProper) with
  | [table] => some table.id
  | _ => none

/-- Links every column to a table. -/
def bindColumns (table : Nat) (references : List Reference) : List Reference :=
  references.map (·.mapMention (·.withTable table))

/-- Positions of the columns. -/
def columnIds (references : List Reference) : List Nat :=
  (references.filter (·.mention.isColumn)).map id

/-- Links the values that have no column to the column at the same place in `columns`. -/
def bindValues : (columns : List Nat) → List Reference → List Reference
  | _, [] => []
  | columns, r :: rs =>
    match r.mention, columns with
    | .value v, column :: more =>
      { r with mention := .value { v with column := v.column.or (some column) } } ::
        bindValues more rs
    | _, columns => r :: bindValues columns rs

/-- Single table inference: nothing changes unless there is exactly one table. -/
def infer (references : List Reference) : List Reference :=
  match soleTable? references with
  | some table => bindValues (columnIds references) (bindColumns table references)
  | none => references

end Reference

/-- The references of a document. -/
def Document.references (d : Document) : List Reference :=
  Reference.infer (Collector.ofDocument d).linked

end MySqlAnalysis
