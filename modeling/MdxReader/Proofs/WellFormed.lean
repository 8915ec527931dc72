import MdxReader.Proofs.Words
import MdxReader.Reading.Whole

/-!
# Well-formed trees

What the trees that are read look like.  `Expr.WellFormed` has one constructor for each way to build
an expression, with what its name and its parts have to be; an argument that was left out is no
expression of its own, and only functions and methods have such arguments.

Identifiers come in two kinds.  Behind `AS`, in lists and in definitions every segment is a name or
a key (`Identifier.Valid`).  In an operand a bare name behind a dot would be a property, so the
segments behind the first are bracketed names and keys (`Identifier.WellFormed`).
-/

namespace MdxReader

open Text

/-! ### Names and identifiers -/

/-- A bare name that is no reserved word. -/
def BareName (text : String) : Prop := isWord text = true ∧ Keyword.isReservedWord text = false

namespace Name

/-- A name is a bare one, or anything but nothing in brackets. -/
def Valid (name : Name) : Prop :=
  match name.quoting with
  | .bare => BareName name.text
  | .quoted => name.text ≠ ""

/-- A part of a key may be a reserved word. -/
def ValidPart (name : Name) : Prop :=
  match name.quoting with
  | .bare => isWord name.text = true
  | .quoted => name.text ≠ ""

end Name

/-- A key has valid parts. -/
def Key.Valid (key : Key) : Prop := ∀ part ∈ key.parts, part.ValidPart

/-- The text would be taken for a key property in brackets behind a dot. -/
def StartsWithAmpersand (text : String) : Prop := ∃ rest, text.toList = '&' :: rest

namespace Segment

/-- A segment is a valid name or key. -/
def Valid : Segment → Prop
  | name found => found.Valid
  | key found => found.Valid

/-- A segment that is part of the identifier behind a dot of an operand. -/
def Attachable : Segment → Prop
  | name found => found.quoting = .quoted ∧ found.text ≠ "" ∧ ¬ StartsWithAmpersand found.text
  | key found => found.Valid ∧ (found.more = [] → found.first.quoting = .quoted)

end Segment

namespace Identifier

/-- An identifier of valid segments. -/
def Valid : Identifier → Prop
  | single segment => segment.Valid
  | dotted qualifier segment => qualifier.Valid ∧ segment.Valid

/-- An identifier that is an operand. -/
def WellFormed : Identifier → Prop
  | single segment => segment.Valid
  | dotted qualifier segment => qualifier.WellFormed ∧ segment.Attachable

end Identifier

/-! ### Expressions -/

/-- **An expression as it is read.** -/
inductive Expr.WellFormed : Expr → Prop where
  | number (value : Decimal) : WellFormed (.number value)
  | string (value : String) : WellFormed (.string value)
  | null : WellFormed .null
  | identifier {id : Identifier} : id.WellFormed → WellFormed (.identifier id)
  /-- An empty argument list has no argument, so a single one is never left out. -/
  | function {name : String} {args : List Expr} : BareName name →
      (∀ x ∈ args, x ≠ elided → WellFormed x) → args ≠ [elided] →
      WellFormed (.call .function name args)
  | method {name : String} {receiver : Expr} {args : List Expr} : name ≠ "" →
      WellFormed receiver → args ≠ [] → (∀ x ∈ args, x ≠ elided → WellFormed x) →
      WellFormed (.call .method name (receiver :: args))
  | property {name : String} {x : Expr} : BareName name → WellFormed x →
      WellFormed (.call .property name [x])
  /-- `x.&Name` -/
  | wordProperty {name : String} {x : Expr} : isWord name = true → WellFormed x →
      WellFormed (.call .quotedProperty name [x])
  /-- `x.[Name]` where `x` is no identifier. -/
  | quotedProperty {name : String} {x : Expr} : name ≠ "" → ¬ StartsWithAmpersand name →
      (∀ id, x ≠ .identifier id) → WellFormed x → WellFormed (.call .quotedProperty name [x])
  | keyProperty {name : String} {x : Expr} : name ≠ "" → WellFormed x →
      WellFormed (.call .keyProperty name [x])
  | leading {operator : Operator} {x : Expr} : operator.fixity = .before → WellFormed x →
      WellFormed (.call .leading operator.symbol [x])
  | trailing {operator : Operator} {x : Expr} : operator.fixity = .after → WellFormed x →
      WellFormed (.call .trailing operator.symbol [x])
  | binary {operator : Operator} {x y : Expr} : operator.fixity = .between →
      operator ≠ .named → WellFormed x → WellFormed y →
      WellFormed (.call .binary operator.symbol [x, y])
  /-- `x AS name` -/
  | named {x : Expr} {id : Identifier} : WellFormed x → id.Valid →
      WellFormed (.call .binary Operator.named.symbol [x, .identifier id])
  | braces {items : List Expr} : (∀ x ∈ items, WellFormed x) → WellFormed (.braces items)
  | tuple {items : List Expr} : 2 ≤ items.length → (∀ x ∈ items, WellFormed x) →
      WellFormed (.tuple items)
  | cast {x : Expr} {type : String} : WellFormed x → type ≠ "" →
      WellFormed (.call .cast "CAST" [x, .typeName type])
  | choice {operand : Option Expr} {branches : List (Expr × Expr)} {otherwise : Option Expr} :
      (∀ x ∈ operand, WellFormed x) → branches ≠ [] →
      (∀ branch ∈ branches, WellFormed branch.1) → (∀ branch ∈ branches, WellFormed branch.2) →
      (∀ x ∈ otherwise, WellFormed x) → WellFormed (.choice operand branches otherwise)

/-- What was left out is no expression. -/
theorem Expr.WellFormed.ne_elided {x : Expr} (h : x.WellFormed) : x ≠ elided := by
  rintro rfl
  nomatch h

/-! ### Statements -/

/-- The axes with names are not written as numbers, and numbers have 32 bits. -/
def Axis.Valid : Axis → Prop
  | ordinal n => 5 ≤ n ∧ n < bound
  | _ => True

/-- A clause has a well-formed expression, valid properties and a valid axis. -/
def AxisClause.WellFormed (clause : AxisClause) : Prop :=
  clause.expr.WellFormed ∧ (∀ id ∈ clause.properties, id.Valid) ∧ clause.axis.Valid

/-- Axes are at least one. -/
def Projection.WellFormed : Projection → Prop
  | empty | asterisk => True
  | axes clauses => clauses ≠ [] ∧ ∀ clause ∈ clauses, clause.WellFormed

/-- A source has well-formed parts and ends in the name of a cube. -/
def Source.WellFormed : Source → Prop
  | cube name => name.Valid
  | subselect projection source slicer =>
    projection.WellFormed ∧ source.WellFormed ∧ ∀ x ∈ slicer, x.WellFormed

/-- A property of a member has a valid name and a well-formed value. -/
def MemberProperty.WellFormed (property : MemberProperty) : Prop :=
  property.name.Valid ∧ property.value.WellFormed

/-- A definition has a valid name and a well-formed formula. -/
def Definition.WellFormed : Definition → Prop
  | member name formula properties =>
    name.Valid ∧ formula.WellFormed ∧ ∀ property ∈ properties, property.WellFormed
  | set name formula => name.Valid ∧ formula.WellFormed

/-- A query has well-formed parts. -/
def Select.WellFormed (query : Select) : Prop :=
  (∀ definition ∈ query.definitions, definition.WellFormed) ∧ query.projection.WellFormed ∧
    query.source.WellFormed ∧ (∀ x ∈ query.slicer, x.WellFormed) ∧
    ∀ id ∈ query.cellProperties, id.Valid

/-- A query of a rowset names its columns as operands do. -/
def RowsetQuery.WellFormed (query : RowsetQuery) : Prop :=
  (∀ id ∈ query.columns, id.WellFormed) ∧ query.table.Valid ∧ ∀ x ∈ query.slicer, x.WellFormed

/-- A drillthrough has a well-formed query, and counts of 64 bits. -/
def Drillthrough.WellFormed (query : Drillthrough) : Prop :=
  (∀ n ∈ query.maxRows, n < ReadM.countBound) ∧ (∀ n ∈ query.firstRowSet, n < ReadM.countBound) ∧
    query.select.WellFormed ∧ ∀ id ∈ query.returned, id.Valid

/-- A statement has well-formed parts. -/
def Statement.WellFormed : Statement → Prop
  | select query => query.WellFormed
  | drillthrough query => query.WellFormed
  | explain statement => statement.WellFormed
  | rowset query => query.WellFormed

/-- **What a text is read as is well formed.** -/
def Tree.WellFormed : Tree → Prop
  | expression x => x.WellFormed
  | select query => query.WellFormed
  | statement found => found.WellFormed
  | cubeName name => name.Valid

end MdxReader
