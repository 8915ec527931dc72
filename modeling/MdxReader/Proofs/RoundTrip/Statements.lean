import MdxReader.Proofs.Parsing.Statements
import MdxReader.Proofs.RoundTrip
import MdxReader.Proofs.Statements
import MdxReader.Proofs.Writing.Statements

/-!
# Queries that are written and read

Every query with proper parts can be written (`read_select_text`).  What is asked of the parts is
said of all of them at once, wherever in the query they stand (`Select.Writable`): the identifiers,
the names, what is selected at every level, the axes and the expressions, which only have to be what
some text was read as.  From there to the form of the query as a tree, and from that to its text, is
a step for each kind of part.
-/

namespace MdxReader

open Text

/-! ### The parts of a query -/

/-- What a definition defines. -/
def Definition.name : Definition → Identifier
  | member name _ _ | set name _ => name

/-- The properties of a member that is defined. -/
def Definition.properties : Definition → List MemberProperty
  | member _ _ properties => properties
  | set _ _ => []

/-- The formula of a definition, and the values of its properties. -/
def Definition.exprs : Definition → List Expr
  | member _ formula properties => formula :: properties.map MemberProperty.value
  | set _ formula => [formula]

/-- The clauses for axes in what is selected. -/
def Projection.clauses : Projection → List AxisClause
  | axes clauses => clauses
  | empty | asterisk => []

namespace Source

/-- The cube that a source ends in. -/
def cubeName : Source → Name
  | cube name => name
  | subselect _ source _ => source.cubeName

/-- What is selected in the sub-selects, from the outermost on. -/
def projections : Source → List Projection
  | cube _ => []
  | subselect projection source _ => projection :: source.projections

/-- The conditions of the sub-selects. -/
def slicers : Source → List Expr
  | cube _ => []
  | subselect _ source slicer => slicer.toList ++ source.slicers

end Source

namespace Select

/-- What is selected at every level. -/
def projections (query : Select) : List Projection := query.projection :: query.source.projections

/-- The clauses for axes at every level. -/
def clauses (query : Select) : List AxisClause := query.projections.flatMap Projection.clauses

/-- The identifiers that are defined, and those in lists of properties. -/
def identifiers (query : Select) : List Identifier :=
  query.definitions.map Definition.name ++ query.clauses.flatMap AxisClause.properties ++
    query.cellProperties

/-- The name of the cube, and those of properties of members. -/
def names (query : Select) : List Name :=
  query.source.cubeName ::
    (query.definitions.flatMap Definition.properties).map MemberProperty.name

/-- The expressions: formulas, values of properties, axes and conditions. -/
def exprs (query : Select) : List Expr :=
  query.definitions.flatMap Definition.exprs ++ query.clauses.map AxisClause.expr ++
    query.source.slicers ++ query.slicer.toList

variable {query : Select}

/-- The identifiers of a query are names of definitions and properties. -/
theorem mem_identifiers {id : Identifier} : id ∈ query.identifiers ↔
    (∃ found ∈ query.definitions, found.name = id) ∨
      (∃ clause ∈ query.clauses, id ∈ clause.properties) ∨ id ∈ query.cellProperties := by
  simp only [identifiers, List.mem_append, List.mem_map, List.mem_flatMap, or_assoc]

/-- The expressions of a query stand in definitions, on axes and in conditions. -/
theorem mem_exprs {x : Expr} : x ∈ query.exprs ↔
    (∃ found ∈ query.definitions, x ∈ found.exprs) ∨
      (∃ clause ∈ query.clauses, clause.expr = x) ∨ x ∈ query.source.slicers ∨
        x ∈ query.slicer := by
  simp only [exprs, List.mem_append, List.mem_map, List.mem_flatMap, Option.mem_toList,
    Option.mem_def, or_assoc]

end Select

/-- Some text is read as this expression. -/
def Expr.Readable (x : Expr) : Prop :=
  ∃ text limit, read .expression text limit = .ok (.expression x)

/-- **What a query has to be to be written**: its identifiers and names are valid, a list of axes is
not empty, no axis that has a name is given by its number, and its expressions are readable. -/
structure Select.Writable (query : Select) : Prop where
  identifiers : ∀ id ∈ query.identifiers, id.Valid
  names : ∀ name ∈ query.names, name.Valid
  projections : ∀ projection ∈ query.projections, projection ≠ .axes []
  axes : ∀ clause ∈ query.clauses, clause.axis.Valid
  exprs : ∀ x ∈ query.exprs, x.Readable

/-! ### Expressions that are read -/

/-- **The readable expressions are the well-formed ones.** -/
theorem Expr.readable_iff {x : Expr} : x.Readable ↔ x.WellFormed := by
  constructor
  · rintro ⟨text, limit, h⟩
    obtain ⟨r, after, here, found⟩ := exists_reading_of_read h
    exact (Goal.good_reading here found).1
  · intro wellFormed
    obtain ⟨tokens, scanned, spelled⟩ := exists_tokensOf_spaced wellFormed.writable
    refine ⟨x.text, x.text.length, (read_ok_iff .expression scanned (Nat.le_refl _) _).mpr ?_⟩
    have parsed : Grammar.expression (x.tokens ++ [.endOfText]) = some (x, [.endOfText]) :=
      expr?_tokens wellFormed ⟨⟨⟨rfl, rfl⟩, rfl⟩, rfl⟩
    have whole : Grammar.wholeExpression (x.tokens ++ [.endOfText]) =
        some (x, [.endOfText]) := by
      unfold Grammar.wholeExpression
      rw [Parser.bind_of_some parsed]
      rfl
    unfold Goal.parser
    rw [Parser.run'_map, spelled]
    exact congrArg (Option.map Tree.expression) (congrArg (Option.map Prod.fst) whole)

/-! ### The form of a query -/

/-- The induction is on the sub-selects of the source. -/
theorem Source.wellFormed_of_parts {source : Source} (named : source.cubeName.Valid)
    (selected : ∀ projection ∈ source.projections, projection.WellFormed)
    (conditions : ∀ x ∈ source.slicers, x.WellFormed) : source.WellFormed := by
  induction source with
  | cube name => exact named
  | subselect projection source slicer ih =>
    obtain ⟨here, inside⟩ := List.forall_mem_cons.mp selected
    obtain ⟨condition, others⟩ := List.forall_mem_append.mp conditions
    exact ⟨here, ih named inside others, fun x given => condition x (Option.mem_toList.mpr given)⟩

namespace Select.Writable

variable {query : Select} (writable : query.Writable)

include writable

/-- An expression of the query is well formed. -/
theorem expr {x : Expr} (mem : x ∈ query.exprs) : x.WellFormed :=
  Expr.readable_iff.mp (writable.exprs x mem)

theorem definition {found : Definition} (mem : found ∈ query.definitions) :
    found.WellFormed := by
  have named : found.name.Valid :=
    writable.identifiers _ (mem_identifiers.mpr (.inl ⟨found, mem, rfl⟩))
  have inner {x : Expr} (part : x ∈ found.exprs) : x.WellFormed :=
    writable.expr (mem_exprs.mpr (.inl ⟨found, mem, part⟩))
  have property {p : MemberProperty} (part : p ∈ found.properties) : p.name.Valid := by
    refine writable.names _ (List.mem_cons_of_mem _ (List.mem_map_of_mem ?_))
    exact List.mem_flatMap.mpr ⟨found, mem, part⟩
  cases found with
  | member name formula properties =>
    refine ⟨named, inner List.mem_cons_self, fun p part => ⟨property part, ?_⟩⟩
    exact inner (List.mem_cons_of_mem _ (List.mem_map_of_mem part))
  | set name formula => exact ⟨named, inner (List.mem_singleton.mpr rfl)⟩

theorem projection {found : Projection} (mem : found ∈ query.projections) :
    found.WellFormed := by
  cases found with
  | empty | asterisk => trivial
  | axes clauses =>
    refine ⟨fun none => writable.projections _ mem (congrArg Projection.axes none), ?_⟩
    intro clause part
    have listed : clause ∈ query.clauses := List.mem_flatMap.mpr ⟨_, mem, part⟩
    refine ⟨writable.expr (mem_exprs.mpr (.inr (.inl ⟨clause, listed, rfl⟩))), ?_,
      writable.axes clause listed⟩
    intro id property
    exact writable.identifiers id (mem_identifiers.mpr (.inr (.inl ⟨clause, listed, property⟩)))

theorem source : query.source.WellFormed := by
  refine Source.wellFormed_of_parts (writable.names _ List.mem_cons_self) ?_ ?_
  · exact fun _ mem => writable.projection (List.mem_cons_of_mem _ mem)
  · exact fun _ mem => writable.expr (mem_exprs.mpr (.inr (.inr (.inl mem))))

/-- **A query with proper parts has a proper form.** -/
theorem wellFormed : query.WellFormed := by
  refine ⟨fun _ => writable.definition, writable.projection List.mem_cons_self, writable.source,
    ?_, ?_⟩
  · exact fun _ given => writable.expr (mem_exprs.mpr (.inr (.inr (.inr given))))
  · exact fun id mem => writable.identifiers id (mem_identifiers.mpr (.inr (.inr mem)))

end Select.Writable

/-! ### The tokens of a query can be written -/

/-- The keywords in front of properties are written as words. -/
theorem writable_propertyTokens (noun : Keyword) {ids : List Identifier}
    (valid : ∀ id ∈ ids, id.Valid) : AllWritable (propertyTokens noun ids) := by
  cases ids with
  | nil => exact .nil
  | cons id more =>
    refine .cons (writable_ofKeyword _) (.cons (writable_ofKeyword _) (writable_commas ?_))
    exact List.forall_mem_map.mpr fun id mem => (valid id mem).writable

theorem Expr.WellFormed.writable_enclosed {x : Expr} (wellFormed : x.WellFormed) :
    AllWritable x.enclosed := Expr.writable_enclosed wellFormed.writable

theorem Axis.writable (axis : Axis) : AllWritable axis.tokens := by
  unfold Axis.tokens
  cases Decimal.ofParts? axis.toOrdinal 0 with
  | none => exact .nil
  | some d => exact .single ⟨trivial, nofun⟩

theorem AxisClause.WellFormed.writable {clause : AxisClause} (wellFormed : clause.WellFormed) :
    AllWritable clause.tokens := by
  have mark : AllWritable (if clause.nonEmpty then [.ofKeyword .NON, .ofKeyword .EMPTY] else []) := by
    split
    · exact .cons (writable_ofKeyword _) (.single (writable_ofKeyword _))
    · exact .nil
  exact ((mark.append wellFormed.1.writable_enclosed).append
    (writable_propertyTokens _ wellFormed.2.1)).append
      (.cons (writable_ofKeyword _) clause.axis.writable)

theorem Projection.WellFormed.writable {projection : Projection}
    (wellFormed : projection.WellFormed) : AllWritable projection.tokens := by
  cases projection with
  | empty => exact .nil
  | asterisk => exact .single (writable_symbol _)
  | axes clauses =>
    exact writable_commas (List.forall_mem_map.mpr fun clause mem =>
      (wellFormed.2 clause mem).writable)

/-- `WHERE` is written only in front of a condition. -/
theorem writable_slicerTokens {slicer : Option Expr} (wellFormed : ∀ x ∈ slicer, x.WellFormed) :
    AllWritable (slicerTokens slicer) := by
  cases slicer with
  | none => exact .nil
  | some x => exact .cons (writable_ofKeyword _) (wellFormed x rfl).writable_enclosed

theorem Source.WellFormed.writable {source : Source} (wellFormed : source.WellFormed) :
    AllWritable source.tokens := by
  induction source with
  | cube name => exact .single (Name.Valid.writable wellFormed)
  | subselect projection source slicer ih =>
    obtain ⟨selected, inner, condition⟩ := wellFormed
    have front : AllWritable (.symbol .openParen :: .ofKeyword .SELECT :: projection.tokens) :=
      .cons (writable_symbol _) (.cons (writable_ofKeyword _) selected.writable)
    have back : AllWritable (.ofKeyword .FROM :: source.tokens) :=
      .cons (writable_ofKeyword _) (ih inner)
    exact ((front.append back).append (writable_slicerTokens condition)).append
      (.single (writable_symbol _))

theorem MemberProperty.WellFormed.writable {property : MemberProperty}
    (wellFormed : property.WellFormed) : AllWritable property.tokens :=
  .cons (Name.Valid.writable wellFormed.1)
    (.cons (writable_symbol _) wellFormed.2.writable_enclosed)

theorem Definition.WellFormed.writable {definition : Definition}
    (wellFormed : definition.WellFormed) : AllWritable definition.tokens := by
  cases definition with
  | member name formula properties =>
    obtain ⟨named, inner, each⟩ := wellFormed
    have front : AllWritable (.ofKeyword .MEMBER :: name.tokens) :=
      .cons (writable_ofKeyword _) (Identifier.Valid.writable named)
    have back : AllWritable (.ofKeyword .AS :: formula.enclosed) :=
      .cons (writable_ofKeyword _) inner.writable_enclosed
    refine (front.append back).append (.flatMap fun property mem => ?_)
    exact .cons (writable_symbol _) (each property mem).writable
  | set name formula =>
    obtain ⟨named, inner⟩ := wellFormed
    have front : AllWritable (.ofKeyword .SET :: name.tokens) :=
      .cons (writable_ofKeyword _) (Identifier.Valid.writable named)
    exact front.append (.cons (writable_ofKeyword _) inner.writable_enclosed)

theorem writable_withTokens {definitions : List Definition}
    (wellFormed : ∀ definition ∈ definitions, definition.WellFormed) :
    AllWritable (withTokens definitions) := by
  cases definitions with
  | nil => exact .nil
  | cons definition more =>
    obtain ⟨first, others⟩ := List.forall_mem_cons.mp wellFormed
    have front : AllWritable (.ofKeyword .WITH :: definition.tokens) :=
      .cons (writable_ofKeyword _) first.writable
    exact front.append (.flatMap fun next mem => (others next mem).writable)

/-- All the tokens of a query can be written. -/
theorem Select.WellFormed.writable {query : Select} (wellFormed : query.WellFormed) :
    AllWritable query.tokens := by
  obtain ⟨defined, selected, inner, condition, valid⟩ := wellFormed
  have middle : AllWritable (.ofKeyword .SELECT :: query.projection.tokens) :=
    .cons (writable_ofKeyword _) selected.writable
  have from' : AllWritable (.ofKeyword .FROM :: query.source.tokens) :=
    .cons (writable_ofKeyword _) inner.writable
  exact ((((writable_withTokens defined).append middle).append from').append
    (writable_slicerTokens condition)).append (writable_propertyTokens _ valid)

/-! ### Texts -/

/-- **Every query with proper parts can be written**: its text is read as this query, under every
limit that is as great as the text is long. -/
theorem read_select_text {query : Select} (writable : query.Writable) {limit : Nat}
    (long : query.text.length ≤ limit) :
    read .select query.text limit = .ok (.select query) := by
  have wellFormed := writable.wellFormed
  obtain ⟨tokens, scanned, spelled⟩ := exists_tokensOf_spaced wellFormed.writable
  have closed : Grammar.Closed [.endOfText] := by
    refine ⟨⟨⟨⟨rfl, rfl⟩, rfl⟩, rfl⟩, rfl, fun k mem => ?_⟩
    rfl
  have whole : Grammar.wholeSelect (query.tokens ++ [.endOfText]) =
      some (query, [.endOfText]) := by
    unfold Grammar.wholeSelect
    rw [Parser.bind_of_some (Grammar.select_tokens wellFormed closed)]
    rfl
  refine (read_ok_iff .select scanned long _).mpr ?_
  unfold Goal.parser
  rw [Parser.run'_map, spelled]
  exact congrArg (Option.map Tree.select) (congrArg (Option.map Prod.fst) whole)

/-- Keywords as names next to the clauses they begin, an axis beyond the named ones, sub-selects
with and without a condition, and a property of a member. -/
theorem read_select_text_nested : ∃ query : Select, query.Writable ∧
    query.text = "WITH MEMBER [m] AS ( 1 ) , RETURN = ( 2 ) " ++
      "SET properties AS ( \x7b ( NULL ) \x7d ) " ++
      "SELECT NON EMPTY x DIMENSION PROPERTIES PROPERTIES , [a] . &select ON 7 " ++
      "FROM ( SELECT * FROM ( SELECT FROM for WHERE ( NULL ) ) ) WHERE ( \"a\" ) " ++
      "CELL PROPERTIES RETURN" ∧
    read .select query.text query.text.length = .ok (.select query) := by
  have bare : Name.Valid ⟨"x", .bare⟩ ∧ Name.Valid ⟨"for", .bare⟩ ∧ Name.Valid ⟨"RETURN", .bare⟩ ∧
      Name.Valid ⟨"properties", .bare⟩ ∧ Name.Valid ⟨"PROPERTIES", .bare⟩ := by
    simp only [Name.Valid, BareName]
    decide +kernel
  obtain ⟨x, free, returned, properties, capitals⟩ := bare
  have member : Name.Valid ⟨"m", .quoted⟩ := show "m" ≠ "" by decide
  have table : Name.Valid ⟨"a", .quoted⟩ := show "a" ≠ "" by decide
  have part : Name.ValidPart ⟨"select", .bare⟩ := show isWord "select" = true by decide +kernel
  let query : Select := ⟨
    [.member (.ofName ⟨"m", .quoted⟩) (.number ⟨1, 0, by decide, by decide⟩)
        [⟨⟨"RETURN", .bare⟩, .number ⟨2, 0, by decide, by decide⟩⟩],
      .set (.ofName ⟨"properties", .bare⟩) (.braces [.null])],
    .axes [⟨true, .identifier (.ofName ⟨"x", .bare⟩), [.ofName ⟨"PROPERTIES", .bare⟩,
      .dotted (.ofName ⟨"a", .quoted⟩) (.key ⟨⟨"select", .bare⟩, []⟩)], .ordinal 7⟩],
    .subselect .asterisk (.subselect .empty (.cube ⟨"for", .bare⟩) (some .null)) none,
    some (.string "a"), [.ofName ⟨"RETURN", .bare⟩]⟩
  have all {α : Type} {good : α → Prop} {a : α} {more : List α} (first : good a)
      (others : ∀ b ∈ more, good b) : ∀ b ∈ a :: more, good b :=
    List.forall_mem_cons.mpr ⟨first, others⟩
  have done {α : Type} {good : α → Prop} : ∀ b ∈ ([] : List α), good b := List.forall_mem_nil good
  have writable : query.Writable := by
    constructor
    · exact all member (all properties (all capitals (all ⟨table, all part done⟩
        (all returned done))))
    · exact all free (all returned done)
    · exact all nofun (all nofun (all nofun done))
    · exact all ⟨by decide, by decide⟩ done
    · simp only [Expr.readable_iff]
      exact all (.number _) (all (.number _) (all (.braces (all .null done))
        (all (.identifier x) (all .null (all (.string _) done)))))
  exact ⟨query, writable, by decide +kernel, read_select_text writable (Nat.le_refl _)⟩

end MdxReader
