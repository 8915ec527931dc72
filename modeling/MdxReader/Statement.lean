import MdxReader.Expr

/-!
# Statements

`SELECT` queries with their definitions, axes, sub-selects and slicers, and the statements around
them.
-/

namespace MdxReader

/-- An axis of a query. -/
inductive Axis where
  | columns
  | rows
  | pages
  | chapters
  | sections
  | ordinal (n : Nat)
  deriving DecidableEq

namespace Axis

/-- The axis with a number; the first five have names. -/
def ofOrdinal : Nat → Axis
  | 0 => columns
  | 1 => rows
  | 2 => pages
  | 3 => chapters
  | 4 => sections
  | n => ordinal n

/-- The number of an axis. -/
def toOrdinal : Axis → Nat
  | columns => 0
  | rows => 1
  | pages => 2
  | chapters => 3
  | sections => 4
  | ordinal n => n

/-- Axis numbers have 32 bits. -/
def bound : Nat := Nat.pow 2 32

theorem toOrdinal_ofOrdinal (n : Nat) : (ofOrdinal n).toOrdinal = n := by
  unfold ofOrdinal
  split <;> rfl

end Axis

/-- `[NON EMPTY] expr [DIMENSION PROPERTIES ..] ON axis` -/
structure AxisClause where
  nonEmpty : Bool
  expr : Expr
  properties : List Identifier
  axis : Axis

/-- What stands between `SELECT` and `FROM`. -/
inductive Projection where
  | empty
  | asterisk
  | axes (clauses : List AxisClause)

/-- What stands behind `FROM`. -/
inductive Source where
  | cube (name : Name)
  /-- `(SELECT .. FROM .. [WHERE ..])` -/
  | subselect (projection : Projection) (source : Source) (slicer : Option Expr)

/-- `SOLVE_ORDER = 1` in the definition of a member. -/
structure MemberProperty where
  name : Name
  value : Expr

/-- What `WITH` defines. -/
inductive Definition where
  | member (name : Identifier) (formula : Expr) (properties : List MemberProperty)
  | set (name : Identifier) (formula : Expr)

/-- A `SELECT` query. -/
structure Select where
  definitions : List Definition
  projection : Projection
  source : Source
  slicer : Option Expr
  cellProperties : List Identifier

/-- `SELECT .. FROM $SYSTEM.table`; without columns it asks for all of them. -/
structure RowsetQuery where
  columns : List Identifier
  table : Name
  slicer : Option Expr

/-- `DRILLTHROUGH [MAXROWS n] [FIRSTROWSET n] select [RETURN ..]` -/
structure Drillthrough where
  maxRows : Option Nat
  firstRowSet : Option Nat
  select : Select
  returned : List Identifier

/-- A statement. -/
inductive Statement where
  | select (query : Select)
  | drillthrough (query : Drillthrough)
  | explain (statement : Statement)
  | rowset (query : RowsetQuery)

/-! ### Equality by value

As for expressions, numbers count by value. -/

/-- Two lists have as many items, and each pair of them is related. -/
def sameList {α : Type} (same : α → α → Bool) : List α → List α → Bool
  | [], [] => true
  | a :: as, b :: bs => same a b && sameList same as bs
  | _, _ => false

/-- `same` for the clauses of an axis. -/
def AxisClause.same (a b : AxisClause) : Bool :=
  a.nonEmpty == b.nonEmpty && a.expr.same b.expr && a.properties == b.properties && a.axis == b.axis

/-- `same` for what is selected. -/
def Projection.same : Projection → Projection → Bool
  | empty, empty => true
  | asterisk, asterisk => true
  | axes as, axes bs => sameList AxisClause.same as bs
  | _, _ => false

/-- `same` for what is selected from. -/
def Source.same : Source → Source → Bool
  | cube a, cube b => a == b
  | subselect p source slicer, subselect p' source' slicer' =>
    p.same p' && source.same source' && Expr.sameOption slicer slicer'
  | _, _ => false

/-- `same` for properties of members. -/
def MemberProperty.same (a b : MemberProperty) : Bool :=
  a.name == b.name && a.value.same b.value

/-- `same` for definitions. -/
def Definition.same : Definition → Definition → Bool
  | member name formula properties, member name' formula' properties' =>
    name == name' && formula.same formula' && sameList MemberProperty.same properties properties'
  | set name formula, set name' formula' => name == name' && formula.same formula'
  | _, _ => false

/-- `same` for queries. -/
def Select.same (a b : Select) : Bool :=
  sameList Definition.same a.definitions b.definitions && a.projection.same b.projection &&
    a.source.same b.source && Expr.sameOption a.slicer b.slicer &&
    a.cellProperties == b.cellProperties

/-- `same` for queries of system tables. -/
def RowsetQuery.same (a b : RowsetQuery) : Bool :=
  a.columns == b.columns && a.table == b.table && Expr.sameOption a.slicer b.slicer

/-- `same` for drillthroughs. -/
def Drillthrough.same (a b : Drillthrough) : Bool :=
  a.maxRows == b.maxRows && a.firstRowSet == b.firstRowSet && a.select.same b.select &&
    a.returned == b.returned

/-- `same` for statements. -/
def Statement.same : Statement → Statement → Bool
  | select a, select b => a.same b
  | drillthrough a, drillthrough b => a.same b
  | explain a, explain b => a.same b
  | rowset a, rowset b => a.same b
  | _, _ => false

end MdxReader
