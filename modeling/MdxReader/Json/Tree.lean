import MdxReader.Json
import MdxReader.Statement

/-!
# Trees as JSON

Expressions and statements as JSON values, fields in ascending order of their keys.  Numbers are
written as strings, so that their places are kept.
-/

namespace MdxReader

open Json

/-- A name and whether it was in brackets. -/
def Name.toJson (name : Name) : Json :=
  object [("name", string name.text), ("quoted", bool (name.quoting == .quoted))]

/-- A name stands for itself, a key is a list of its parts. -/
def Segment.toJson : Segment → Json
  | name n => n.toJson
  | key k => object [("key", array (k.parts.map Name.toJson))]

/-- An identifier as the list of its segments. -/
def Identifier.toJson (id : Identifier) : Json :=
  object [("segments", array (id.segments.map Segment.toJson)), ("type", string "identifier")]

/-- A list of identifiers. -/
def Identifier.listToJson (ids : List Identifier) : Json :=
  array (ids.map Identifier.toJson)

/-- The name of a form of call. -/
def CallForm.name : CallForm → String
  | function => "function"
  | method => "method"
  | property => "property"
  | quotedProperty => "property_quoted"
  | keyProperty => "property_ampers_and_quoted"
  | binary => "infix"
  | leading => "prefix"
  | trailing => "postfix"
  | braces => "braces"
  | parentheses => "parentheses"
  | cast => "cast"
  | cases => "case"
  | elided => "empty"

namespace Expr

/-- A literal with the kind it has. -/
def literalToJson (kind value : String) : Json :=
  object [("type", Json.string kind), ("value", Json.string value)]

mutual

/-- An expression with the kind it has. -/
def toJson : Expr → Json
  | number value => literalToJson "numeric" value.text
  | string value => literalToJson "string" value
  | typeName name => literalToJson "symbol" name
  | null => object [("type", Json.string "null")]
  | identifier id => id.toJson
  | call form name args =>
    object [
      ("args", array (listToJson [] args)),
      ("call_type", Json.string form.name),
      ("name", Json.string name),
      ("type", Json.string "call")]
  | choice operand branches otherwise =>
    object [
      ("branches", array (branchesToJson [] branches)),
      ("else", optionToJson otherwise),
      ("operand", optionToJson operand),
      ("type", Json.string "case")]

/-- The values of expressions behind `done`, which is newest first. -/
def listToJson (done : List Json) : List Expr → List Json
  | [] => done.reverse
  | e :: es => listToJson (toJson e :: done) es

/-- The values of branches behind `done`, which is newest first. -/
def branchesToJson (done : List Json) : List (Expr × Expr) → List Json
  | [] => done.reverse
  | (condition, result) :: later =>
    branchesToJson (object [("then", toJson result), ("when", toJson condition)] :: done) later

/-- `null` for an expression that is absent. -/
def optionToJson : Option Expr → Json
  | none => Json.null
  | some e => toJson e

end

end Expr

/-- A named axis by its name, any other by its number. -/
def Axis.toJson : Axis → Json
  | columns => string "COLUMNS"
  | rows => string "ROWS"
  | pages => string "PAGES"
  | chapters => string "CHAPTERS"
  | sections => string "SECTIONS"
  | ordinal n => number n

/-- The clause of one axis. -/
def AxisClause.toJson (clause : AxisClause) : Json :=
  object [
    ("axis", clause.axis.toJson),
    ("dimension_properties", Identifier.listToJson clause.properties),
    ("expression", clause.expr.toJson),
    ("non_empty", bool clause.nonEmpty)]

/-- Nothing, an asterisk, or the clauses of the axes. -/
def Projection.toJson : Projection → Json
  | empty => null
  | asterisk => string "*"
  | axes clauses => array (clauses.map AxisClause.toJson)

/-- A cube, or a query in its place. -/
def Source.toJson : Source → Json
  | cube name => object [("cube", name.toJson)]
  | subselect projection source slicer =>
    object [("select", object [
      ("from", source.toJson),
      ("query", projection.toJson),
      ("where", Expr.optionToJson slicer)])]

/-- A property of a member that is defined. -/
def MemberProperty.toJson (property : MemberProperty) : Json :=
  object [("name", property.name.toJson), ("value", property.value.toJson)]

/-- A definition, told apart by the key of its name. -/
def Definition.toJson : Definition → Json
  | member name formula properties =>
    object [
      ("expression", formula.toJson),
      ("member", name.toJson),
      ("properties", array (properties.map MemberProperty.toJson))]
  | set name formula => object [("expression", formula.toJson), ("set", name.toJson)]

/-- A query with all its clauses, also those that are empty. -/
def Select.toJson (query : Select) : Json :=
  object [
    ("cell_properties", Identifier.listToJson query.cellProperties),
    ("from", query.source.toJson),
    ("query", query.projection.toJson),
    ("type", string "select"),
    ("where", Expr.optionToJson query.slicer),
    ("with", array (query.definitions.map Definition.toJson))]

/-- A drillthrough around its query. -/
def Drillthrough.toJson (query : Drillthrough) : Json :=
  object [
    ("first_row_set", ofOption number query.firstRowSet),
    ("max_rows", ofOption number query.maxRows),
    ("return", Identifier.listToJson query.returned),
    ("select", query.select.toJson),
    ("type", string "drillthrough")]

/-- A query of a system table. -/
def RowsetQuery.toJson (query : RowsetQuery) : Json :=
  object [
    ("columns", Identifier.listToJson query.columns),
    ("table", query.table.toJson),
    ("type", string "dmv"),
    ("where", Expr.optionToJson query.slicer)]

/-- A statement with the kind it has. -/
def Statement.toJson : Statement → Json
  | select query => query.toJson
  | drillthrough query => query.toJson
  | explain statement => object [("statement", statement.toJson), ("type", string "explain")]
  | rowset query => query.toJson

end MdxReader
