/-!
# References

A reference is a mention of a schema, table, column, alias, literal value or
function in a text. The references of a text form one list, and links between
them are positions in that list.
-/

set_option autoImplicit false

namespace MySqlAnalysis

/-- The clause that a column or value stands in. -/
inductive Clause where
  /-- The condition of a statement. -/
  | condition
  /-- The rows of an insertion. -/
  | values
  /-- The column list of an insertion. -/
  | fields
  deriving DecidableEq

/-- The coarse type of a literal value. -/
inductive DataType where
  | string
  | number
  | boolean
  | date
  | null
  deriving DecidableEq

/-- What an alias stands for. -/
inductive AliasTarget where
  | table (id : Nat)
  /-- An item of a select list; the column is absent when the item is not a plain column. -/
  | column (id : Option Nat)
  deriving DecidableEq

/-- A mention of a table. -/
structure TableMention where
  name : String
  schema : Option Nat
  aliasName : Option Nat
  /-- Whether the table is named only to qualify a column. -/
  qualifier : Bool
  deriving DecidableEq

/-- A mention of a column. -/
structure ColumnMention where
  name : String
  table : Option Nat
  aliasName : Option Nat
  clause : Option Clause
  deriving DecidableEq

/-- A literal value, without its quotes. -/
structure ValueMention where
  text : String
  dataType : DataType
  clause : Option Clause
  column : Option Nat
  deriving DecidableEq

/-- What a reference mentions. -/
inductive Mention where
  | function (name : String)
  | keyword (word : String)
  | schema (name : String)
  | table (mention : TableMention)
  | column (mention : ColumnMention)
  | aliasName (name : String) (target : AliasTarget)
  | value (mention : ValueMention)
  deriving DecidableEq

namespace Mention

/-- The name, word or literal text that is mentioned. -/
def text : Mention → String
  | function name => name
  | keyword word => word
  | schema name => name
  | table mention => mention.name
  | column mention => mention.name
  | aliasName name _ => name
  | value mention => mention.text

/-- The mention with its alias set; only tables and columns have one. -/
def withAlias (id : Nat) : Mention → Mention
  | table mention => table { mention with aliasName := some id }
  | column mention => column { mention with aliasName := some id }
  | other => other

/-- The mention with its table set; only columns have one. -/
def withTable (id : Nat) : Mention → Mention
  | column mention => column { mention with table := some id }
  | other => other

/-- Whether this is a table that is not just the qualifier of a column. -/
def isTableProper : Mention → Bool
  | table mention => !mention.qualifier
  | _ => false

/-- Whether this is a column. -/
def isColumn : Mention → Bool
  | column _ => true
  | _ => false

end Mention

/-- A mention with its place in the text, `stop` being the offset of its last
byte, and its position in the list of references. -/
structure Reference where
  id : Nat
  start : Nat
  stop : Nat
  mention : Mention
  deriving DecidableEq

namespace Reference

/-- Whether an offset lies on the reference, both ends included. -/
def contains (r : Reference) (offset : Nat) : Bool :=
  r.start ≤ offset && offset ≤ r.stop

/-- The name, word or literal text that is mentioned. -/
def text (r : Reference) : String := r.mention.text

/-- The reference with a changed mention. -/
def mapMention (r : Reference) (f : Mention → Mention) : Reference :=
  { r with mention := f r.mention }

end Reference

end MySqlAnalysis
