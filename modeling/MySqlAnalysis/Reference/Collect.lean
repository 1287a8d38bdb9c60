import MySqlAnalysis.Reference.Basic
import MySqlAnalysis.Text.Search
import MySqlAnalysis.Tree.Walk

/-!
# Collecting references

References are collected while a tree is walked, each when its node is left, so
that they come in the order in which nodes are completed. The collector
remembers which nodes became tables and columns, and which columns wait for the
only table of their query, which may be completed later than they are.
-/

set_option autoImplicit false

namespace MySqlAnalysis

/-- What was found so far. -/
structure Collector where
  references : List Reference
  /-- The nodes that became a table, with its position. -/
  tables : List (Address × Nat)
  /-- The nodes that became a column, with its position. -/
  columns : List (Address × Nat)
  /-- The columns that belong to the table at a node. -/
  pending : List (Nat × Address)

namespace Collector

/-- Nothing found. -/
def empty : Collector := ⟨[], [], [], []⟩

/-- Position of the next reference. -/
def next (c : Collector) : Nat := c.references.length

/-- Adds a reference at the place of a tree. -/
def add (c : Collector) (d : Document) (place : Tree) (mention : Mention) : Collector :=
  { c with references := c.references ++ [⟨c.next, d.start place, d.stop place, mention⟩] }

/-- Changes the mention of a reference. -/
def modify (c : Collector) (id : Nat) (f : Mention → Mention) : Collector :=
  { c with references := c.references.modify id (·.mapMention f) }

end Collector

/-- The source text of a tree without its quotes. -/
def Document.name (d : Document) (t : Tree) : String :=
  String.ofList (Text.unquote (d.text t).toList)

/-- The identifiers among the parts of a node that were read. -/
def Document.identifiers (d : Document) (l : Located) : List Located :=
  l.children.filter fun part => part.tree.isRule .identifier && (d.lastToken? part.tree).isSome

/-! ## What surrounds a node -/

namespace Located

/-- The column of a predicate that is nothing but a column. -/
def plainColumn? (predicate : Located) : Option Located := do
  let bits ← predicate.only? .bitExpr
  let simple ← bits.only? .simpleExprColumnRef
  simple.find? .columnRef

/-- The literal of a predicate that is nothing but a literal. -/
def plainLiteral? (predicate : Located) : Option Located := do
  let bits ← predicate.only? .bitExpr
  let simple ← bits.only? .simpleExprLiteral
  simple.find? .literal

/-- The table of a list of table references that names just one table. -/
def singleTable? (list : Located) : Option Located :=
  match list.children.filter (·.tree.isRule .tableReference) with
  | [reference] => do
    let factor ← reference.only? .tableFactor
    let single ← factor.only? .singleTable
    single.find? .tableRef
  | _ => none

/-- Whether the names of columns are looked up in this node. -/
def isScope (l : Located) : Bool :=
  l.tree.isRule .querySpecification || l.tree.isRule .updateStatement ||
    l.tree.isRule .deleteStatement || l.tree.isRule .insertStatement ||
    l.tree.isRule .replaceStatement

/-- The table of a scope that has just one. -/
def scopeTable? (scope : Located) : Option Located :=
  if scope.tree.isRule .querySpecification then do
    let source ← scope.find? .fromClause
    let list ← source.find? .tableReferenceList
    list.singleTable?
  else if scope.tree.isRule .updateStatement then do
    let list ← scope.find? .tableReferenceList
    list.singleTable?
  else scope.find? .tableRef

/-- The clause that a node opens. -/
def clause? (l : Located) : Option Clause :=
  match l.tree.rule? with
  | some .whereClause => some .condition
  | some .insertValues => some .values
  | some .fields => some .fields
  | _ => none

end Located

namespace Site

/-- The clause that the node stands in. -/
def clause? (s : Site) : Option Clause :=
  s.ancestors.findSome? Located.clause?

/-- The only table of the scope that the node stands in. -/
def scopeTable? (s : Site) : Option Located :=
  (s.ancestors.find? Located.isScope).bind Located.scopeTable?

/-- The nearest table before the node among the parts of its parent. -/
def tableBefore? (s : Site) : Option Located := do
  let parent ← s.parent?
  let position ← s.here.address.head?
  (parent.children.take position).reverse.find? (·.tree.isRule .tableRef)

/-- The column of a select item that is nothing but a column. -/
def itemColumn? (s : Site) : Option Located := do
  let item ← s.parent?
  let expression ← item.child? 0
  let primary ← expression.child? 0
  let predicate ← primary.child? 0
  if predicate.tree.isRule .predicate then predicate.plainColumn? else none

end Site

namespace Collector

/-! ## Names -/

/-- Adds a schema. -/
def addSchema (c : Collector) (d : Document) (name : Located) : Collector :=
  c.add d name.tree (.schema (d.name name.tree))

/-- Adds a table after the schema that qualifies it, if any. -/
def addTable (c : Collector) (d : Document) (schema : Option Located) (name : Located)
    (qualifier : Bool) : Collector :=
  let before := (schema.map (c.addSchema d)).getD c
  before.add d name.tree
    (.table ⟨d.name name.tree, schema.map fun _ => c.next, none, qualifier⟩)

/-- Remembers that a node became the table that was added last. -/
def rememberTable (c : Collector) (node : Located) : Collector :=
  { c with tables := (node.address, c.next - 1) :: c.tables }

/-- A table that is named. -/
def leaveTable (c : Collector) (d : Document) (s : Site) : Collector :=
  match d.identifiers s.here with
  | [name] => (c.addTable d none name false).rememberTable s.here
  | [schema, name] => (c.addTable d (some schema) name false).rememberTable s.here
  | _ => c

/-- A schema that is named. -/
def leaveSchema (c : Collector) (d : Document) (s : Site) : Collector :=
  match d.identifiers s.here with
  | name :: _ => c.addSchema d name
  | [] => c

/-- An alias of the table in front of it. -/
def leaveTableAlias (c : Collector) (d : Document) (s : Site) : Collector :=
  match s.tableBefore?.bind (c.tables.lookup ·.address), d.identifiers s.here with
  | some table, name :: _ =>
    (c.add d name.tree (.aliasName (d.name name.tree) (.table table))).modify table
      (·.withAlias c.next)
  | _, _ => c

/-! ## Columns -/

/-- Adds a column. Without a qualifier it waits for the only table of its scope. -/
def addColumn (c : Collector) (d : Document) (s : Site) (table : Option Nat) (name : Located) :
    Collector :=
  let added := c.add d name.tree (.column ⟨d.name name.tree, table, none, s.clause?⟩)
  let waits := if table.isNone then s.scopeTable?.toList else []
  { added with
    columns := (s.here.address, c.next) :: added.columns
    pending := added.pending ++ waits.map fun node => (c.next, node.address) }

/-- Adds a column after the table that qualifies it. -/
def addQualifiedColumn (c : Collector) (d : Document) (s : Site) (schema : Option Located)
    (table name : Located) : Collector :=
  let qualified := c.addTable d schema table true
  qualified.addColumn d s (some (qualified.next - 1)) name

/-- A column that is named. -/
def leaveColumn (c : Collector) (d : Document) (s : Site) : Collector :=
  match d.identifiers s.here with
  | [name] => c.addColumn d s none name
  | [table, name] => c.addQualifiedColumn d s none table name
  | [schema, table, name] => c.addQualifiedColumn d s (some schema) table name
  | _ => c

/-- An alias of the select item in front of it. -/
def leaveSelectAlias (c : Collector) (d : Document) (s : Site) : Collector :=
  match s.parent?, s.here.lastChild? with
  | some _, some name =>
    let column := s.itemColumn?.bind (c.columns.lookup ·.address)
    let added := c.add d name.tree (.aliasName (d.name name.tree) (.column column))
    match column with
    | some column => added.modify column (·.withAlias c.next)
    | none => added
  | _, _ => c

/-! ## Values -/

/-- The column that an operand is compared with or assigned to. `operand` is the
address of the part of the first ancestor that holds the operand and nothing else. -/
def comparedColumn? (c : Collector) (operand : Address) : List Located → Option Nat
  | [] => none
  | a :: ancestors =>
    match a.tree.rule? with
    | some .primaryExprPredicate => c.comparedColumn? a.address ancestors
    | some .exprIs => c.comparedColumn? a.address ancestors
    | some .primaryExprCompare => do
      let left ← a.child? 0
      if left.address == operand || !left.tree.isRule .primaryExprPredicate then none
      else
        let column ← (left.child? 0).bind Located.plainColumn?
        c.columns.lookup column.address
    | some .updateElement => do
      let column ← a.find? .columnRef
      c.columns.lookup column.address
    | _ => none

end Collector

/-- The text of one string of a text literal without its quotes and its mark. -/
def stringValue? (t : Token) : Option (List Char) :=
  match t.kind with
  | .singleQuoted => some (Text.unquote t.text.toList)
  | .doubleQuoted => some (Text.unquote t.text.toList)
  | .national => some (Text.unquote t.text.toList.tail)
  | _ => none

/-- The strings of a text literal, joined. -/
def Document.textValue (d : Document) (t : Tree) : String :=
  String.ofList ((t.children.filterMap fun part => (d.token? part).bind stringValue?).flatten)

/-- The type and the value of a literal. -/
def Document.literalValue? (d : Document) (literal : Located) : Option (DataType × String) := do
  let kind ← literal.child? 0
  match kind.tree.rule? with
  | some .textLiteral => some (.string, d.textValue kind.tree)
  | some .numLiteral => some (.number, d.text kind.tree)
  | some .boolLiteral => some (.boolean, d.text kind.tree)
  | some .nullLiteral => some (.null, d.text kind.tree)
  | some .temporalLiteral => kind.lastChild?.map fun text => (.date, d.name text.tree)
  | _ => none

namespace Collector

/-- A predicate that is nothing but a literal. -/
def leavePredicate (c : Collector) (d : Document) (s : Site) : Collector :=
  match s.here.plainLiteral? with
  | none => c
  | some literal =>
    match d.literalValue? literal with
    | none => c
    | some (dataType, text) =>
      c.add d literal.tree
        (.value ⟨text, dataType, s.clause?, c.comparedColumn? s.here.address s.ancestors⟩)

/-! ## Functions -/

/-- A call of a function that is named by an unquoted identifier. -/
def leaveFunction (c : Collector) (d : Document) (s : Site) : Collector :=
  match s.here.tree.children with
  | callee :: parenthesis :: _ =>
    match d.firstToken? callee, d.token? parenthesis with
    | some name, some opening =>
      if callee.isRule .identifier && opening.kind == .openParen && name.kind == .identifier then
        c.add d callee (.function name.text)
      else c
    | _, _ => c
  | _ => c

/-! ## The walk -/

/-- What leaving a node adds. -/
def leave (c : Collector) (d : Document) (s : Site) : Collector :=
  match s.here.tree.rule? with
  | some .tableRef => c.leaveTable d s
  | some .tableName => c.leaveTable d s
  | some .schemaRef => c.leaveSchema d s
  | some .schemaName => c.leaveSchema d s
  | some .tableAlias => c.leaveTableAlias d s
  | some .columnRef => c.leaveColumn d s
  | some .selectAlias => c.leaveSelectAlias d s
  | some .predicate => c.leavePredicate d s
  | some .functionCall => c.leaveFunction d s
  | _ => c

/-- What a visit adds. -/
def visit (d : Document) (c : Collector) : Visit → Collector
  | .leave s => c.leave d s
  | _ => c

/-- What a walk over a document finds. -/
def ofDocument (d : Document) : Collector :=
  d.walk.foldl (visit d) empty

end Collector

end MySqlAnalysis
