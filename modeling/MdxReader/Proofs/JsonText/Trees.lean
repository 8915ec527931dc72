import Mathlib.Data.List.Basic
import MdxReader.Json.Tree
import MdxReader.Proofs.JsonText

/-!
# What the JSON of a tree keeps

No two trees have the same JSON value.  Each kind of node has fields of its own or a `type` of its
own, what is absent is `null`, which no node is, and numbers are written with all their places
(`Decimal.text_inj`).  One lemma for each kind of node, in the order of the definitions; expressions
are nested and go by a mutual induction over the tree.
-/

namespace MdxReader

open Json

/-- Whether a name was quoted is written down with it. -/
theorem Name.toJson_injective : Function.Injective Name.toJson := by
  intro a b same
  obtain ⟨text, quoting⟩ := a
  obtain ⟨text', quoting'⟩ := b
  cases quoting <;> cases quoting' <;> simp_all [Name.toJson]

/-- A name and a key are written with different fields. -/
theorem Segment.toJson_injective : Function.Injective Segment.toJson := by
  intro a b same
  cases a with
  | name n =>
    cases b with
    | name m => exact congrArg name (Name.toJson_injective same)
    | key k => simp [Segment.toJson, Name.toJson] at same
  | key k =>
    cases b with
    | name m => simp [Segment.toJson, Name.toJson] at same
    | key l =>
      obtain ⟨first, more⟩ := k
      obtain ⟨first', more'⟩ := l
      simp only [Segment.toJson, Key.parts, object.injEq, array.injEq, List.map_cons,
        List.cons.injEq, Prod.mk.injEq, true_and, and_true] at same
      have firsts := Name.toJson_injective same.1
      have others := List.map_injective_iff.mpr Name.toJson_injective same.2
      rw [firsts, others]

/-- An identifier has at least one segment. -/
theorem Identifier.segments_ne_nil (id : Identifier) : id.segments ≠ [] := by
  cases id with
  | single segment => simp
  | dotted qualifier segment => simp

/-- An identifier is determined by its segments. -/
theorem Identifier.segments_injective : Function.Injective Identifier.segments := by
  intro a b same
  -- One segment is not as many as one more than some.
  have apart : ∀ segment qualifier segment',
      (single segment).segments ≠ (dotted qualifier segment').segments := by
    intro segment qualifier segment' same
    rw [segments_single, segments_dotted] at same
    have ends : [] ++ [segment] = qualifier.segments ++ [segment'] := same
    have none := List.append_inj_left' ends rfl
    exact qualifier.segments_ne_nil none.symm
  induction a generalizing b with
  | single segment =>
    cases b with
    | single segment' => simpa using same
    | dotted qualifier segment' => exact absurd same (apart _ _ _)
  | dotted qualifier segment ih =>
    cases b with
    | single segment' => exact absurd same.symm (apart _ _ _)
    | dotted qualifier' segment' =>
      rw [segments_dotted, segments_dotted] at same
      obtain ⟨qualifiers, last⟩ := List.append_inj' same rfl
      rw [ih qualifiers, List.singleton_inj.mp last]

/-- An identifier is written as the list of its segments. -/
theorem Identifier.toJson_injective : Function.Injective Identifier.toJson := by
  intro a b same
  simp only [Identifier.toJson, object.injEq, array.injEq, List.cons.injEq, Prod.mk.injEq, true_and,
    and_true] at same
  exact Identifier.segments_injective (List.map_injective_iff.mpr Segment.toJson_injective same)

theorem Identifier.listToJson_injective : Function.Injective Identifier.listToJson := by
  intro as bs same
  exact List.map_injective_iff.mpr Identifier.toJson_injective (Json.array.inj same)

/-- The names of the forms are all different. -/
theorem CallForm.name_injective : Function.Injective CallForm.name := by
  intro a b same
  cases a <;> cases b <;> first | rfl | simp [CallForm.name] at same

/-- A decimal is determined by its text, places included. -/
theorem Decimal.text_injective : Function.Injective Decimal.text := by
  intro a b same
  -- Both are what is read off the front of the one text.
  have alone : Apart [] := .inl rfl
  have first := (readNumber_text a alone .start).1
  have second := (readNumber_text b alone .start).1
  rw [same, second] at first
  simpa using first.symm

namespace Expr

/-- The list that collects what was written is reversed only at the end. -/
theorem listToJson_eq (done : List Json) (es : List Expr) :
    listToJson done es = done.reverse ++ es.map toJson := by
  induction es generalizing done with
  | nil => simp [listToJson]
  | cons e es ih => simp [listToJson, ih]

/-- The value of a branch. -/
def branchToJson (branch : Expr × Expr) : Json :=
  object [("then", toJson branch.2), ("when", toJson branch.1)]

theorem branchesToJson_eq (done : List Json) (branches : List (Expr × Expr)) :
    branchesToJson done branches = done.reverse ++ branches.map branchToJson := by
  induction branches generalizing done with
  | nil => simp [branchesToJson]
  | cons branch branches ih =>
    obtain ⟨condition, result⟩ := branch
    simp [branchesToJson, branchToJson, ih]

/-- No expression is written as one that is absent. -/
theorem toJson_ne_null (e : Expr) : e.toJson ≠ Json.null := by
  cases e <;> simp [toJson, literalToJson, Identifier.toJson]

mutual

/-- The induction is on the first expression, whose kind and parts are read off what was written. -/
theorem eq_of_toJson (e f : Expr) (same : e.toJson = f.toJson) : e = f := by
  cases e with
  | number value =>
    cases f with
    | number value' =>
      have texts : value.text = value'.text := by simpa [toJson, literalToJson] using same
      rw [Decimal.text_injective texts]
    | _ => simp [toJson, literalToJson, Identifier.toJson] at same
  | string value =>
    cases f with
    | string value' => simpa [toJson, literalToJson] using same
    | _ => simp [toJson, literalToJson, Identifier.toJson] at same
  | typeName name =>
    cases f with
    | typeName name' => simpa [toJson, literalToJson] using same
    | _ => simp [toJson, literalToJson, Identifier.toJson] at same
  | null =>
    cases f with
    | null => rfl
    | _ => simp [toJson, literalToJson, Identifier.toJson] at same
  | identifier id =>
    cases f with
    | identifier id' => exact congrArg identifier (Identifier.toJson_injective same)
    | _ => simp [toJson, literalToJson, Identifier.toJson] at same
  | call form name args =>
    cases f with
    | call form' name' args' =>
      simp only [toJson, listToJson_eq, List.reverse_nil, List.nil_append, object.injEq,
        array.injEq, Json.string.injEq, List.cons.injEq, Prod.mk.injEq, true_and, and_true] at same
      obtain ⟨each, forms, names⟩ := same
      rw [CallForm.name_injective forms, names, eq_of_map_toJson args args' each]
    | _ => simp [toJson, literalToJson, Identifier.toJson] at same
  | choice operand branches otherwise =>
    cases f with
    | choice operand' branches' otherwise' =>
      simp only [toJson, branchesToJson_eq, List.reverse_nil, List.nil_append, object.injEq,
        array.injEq, List.cons.injEq, Prod.mk.injEq, true_and, and_true] at same
      obtain ⟨each, last, first⟩ := same
      rw [eq_of_optionToJson operand operand' first, eq_of_map_branchToJson branches branches' each,
        eq_of_optionToJson otherwise otherwise' last]
    | _ => simp [toJson, literalToJson, Identifier.toJson] at same

/-- Arguments are written in order, so they are equal one by one. -/
theorem eq_of_map_toJson : (es fs : List Expr) → es.map toJson = fs.map toJson → es = fs
  | [], fs, same => (List.map_eq_nil_iff.mp same.symm).symm
  | e :: es, [], same => by cases same
  | e :: es, f :: fs, same => by
    rw [List.map_cons, List.map_cons, List.cons.injEq] at same
    rw [eq_of_toJson e f same.1, eq_of_map_toJson es fs same.2]

/-- Branches are written in order, with their conditions and results. -/
theorem eq_of_map_branchToJson : (branches others : List (Expr × Expr)) →
    branches.map branchToJson = others.map branchToJson → branches = others
  | [], others, same => (List.map_eq_nil_iff.mp same.symm).symm
  | _ :: _, [], same => by cases same
  | (condition, result) :: branches, (condition', result') :: others, same => by
    simp only [List.map_cons, branchToJson, List.cons.injEq, object.injEq, Prod.mk.injEq, true_and,
      and_true] at same
    obtain ⟨⟨results, conditions⟩, later⟩ := same
    rw [eq_of_toJson condition condition' conditions, eq_of_toJson result result' results,
      eq_of_map_branchToJson branches others later]

/-- What is missing is written as `null`, which no expression is written as. -/
theorem eq_of_optionToJson : (e f : Option Expr) → optionToJson e = optionToJson f → e = f
  | none, none, _ => rfl
  | none, some f, same => absurd same.symm f.toJson_ne_null
  | some e, none, same => absurd same e.toJson_ne_null
  | some e, some f, same => congrArg some (eq_of_toJson e f same)

end

theorem toJson_injective : Function.Injective toJson := eq_of_toJson

theorem optionToJson_injective : Function.Injective optionToJson := eq_of_optionToJson

end Expr

/-! ### Statements -/

/-- Axes with names are written differently from those with numbers. -/
theorem Axis.toJson_injective : Function.Injective Axis.toJson := by
  intro a b same
  cases a <;> cases b <;> simp_all [Axis.toJson]

theorem AxisClause.toJson_injective : Function.Injective AxisClause.toJson := by
  intro a b same
  obtain ⟨nonEmpty, expr, properties, axis⟩ := a
  obtain ⟨nonEmpty', expr', properties', axis'⟩ := b
  simp only [AxisClause.toJson, object.injEq, bool.injEq, List.cons.injEq, Prod.mk.injEq, true_and,
    and_true] at same
  obtain ⟨axes, ids, exprs, rfl⟩ := same
  rw [Axis.toJson_injective axes, Identifier.listToJson_injective ids, Expr.toJson_injective exprs]

/-- Nothing, the asterisk and the clauses of axes are written as values of different kinds. -/
theorem Projection.toJson_injective : Function.Injective Projection.toJson := by
  intro a b same
  cases a with
  | axes clauses =>
    cases b with
    | axes clauses' =>
      have each := Json.array.inj same
      rw [List.map_injective_iff.mpr AxisClause.toJson_injective each]
    | empty | asterisk => cases same
  | empty | asterisk => cases b <;> first | rfl | cases same

/-- The induction is on the sub-selects; the innermost source is a name. -/
theorem Source.toJson_injective : Function.Injective Source.toJson := by
  intro a b same
  induction a generalizing b with
  | cube name =>
    cases b with
    | cube name' =>
      simp only [Source.toJson, object.injEq, List.cons.injEq, Prod.mk.injEq, true_and,
        and_true] at same
      rw [Name.toJson_injective same]
    | subselect projection source slicer => simp [Source.toJson] at same
  | subselect projection source slicer ih =>
    cases b with
    | cube name => simp [Source.toJson] at same
    | subselect projection' source' slicer' =>
      simp only [Source.toJson, object.injEq, List.cons.injEq, Prod.mk.injEq, true_and,
        and_true] at same
      obtain ⟨sources, projections, slicers⟩ := same
      rw [ih sources, Projection.toJson_injective projections, Expr.optionToJson_injective slicers]

theorem MemberProperty.toJson_injective : Function.Injective MemberProperty.toJson := by
  intro a b same
  obtain ⟨name, value⟩ := a
  obtain ⟨name', value'⟩ := b
  simp only [MemberProperty.toJson, object.injEq, List.cons.injEq, Prod.mk.injEq, true_and,
    and_true] at same
  rw [Name.toJson_injective same.1, Expr.toJson_injective same.2]

/-- Members and sets are told apart by the key that their name has. -/
theorem Definition.toJson_injective : Function.Injective Definition.toJson := by
  intro a b same
  cases a with
  | member name formula properties =>
    cases b with
    | member name' formula' properties' =>
      simp only [Definition.toJson, object.injEq, array.injEq, List.cons.injEq, Prod.mk.injEq,
        true_and, and_true] at same
      obtain ⟨formulas, names, each⟩ := same
      rw [Identifier.toJson_injective names, Expr.toJson_injective formulas,
        List.map_injective_iff.mpr MemberProperty.toJson_injective each]
    | set name' formula' => simp [Definition.toJson] at same
  | set name formula =>
    cases b with
    | member name' formula' properties' => simp [Definition.toJson] at same
    | set name' formula' =>
      simp only [Definition.toJson, object.injEq, List.cons.injEq, Prod.mk.injEq, true_and,
        and_true] at same
      rw [Identifier.toJson_injective same.2, Expr.toJson_injective same.1]

/-- All the parts of a query are written. -/
theorem Select.toJson_injective : Function.Injective Select.toJson := by
  intro a b same
  obtain ⟨definitions, projection, source, slicer, cellProperties⟩ := a
  obtain ⟨definitions', projection', source', slicer', cellProperties'⟩ := b
  simp only [Select.toJson, object.injEq, array.injEq, List.cons.injEq, Prod.mk.injEq, true_and,
    and_true] at same
  obtain ⟨ids, sources, projections, slicers, each⟩ := same
  rw [Identifier.listToJson_injective ids, Source.toJson_injective sources,
    Projection.toJson_injective projections, Expr.optionToJson_injective slicers,
    List.map_injective_iff.mpr Definition.toJson_injective each]

/-- A number that is missing is not written as a number. -/
theorem ofOption_number_injective : Function.Injective (ofOption number) := by
  intro a b same
  cases a <;> cases b <;> simp_all [ofOption]

theorem Drillthrough.toJson_injective : Function.Injective Drillthrough.toJson := by
  intro a b same
  obtain ⟨maxRows, firstRowSet, select, returned⟩ := a
  obtain ⟨maxRows', firstRowSet', select', returned'⟩ := b
  simp only [Drillthrough.toJson, object.injEq, List.cons.injEq, Prod.mk.injEq, true_and,
    and_true] at same
  obtain ⟨firsts, rows, ids, selects⟩ := same
  rw [ofOption_number_injective rows, ofOption_number_injective firsts,
    Select.toJson_injective selects, Identifier.listToJson_injective ids]

theorem RowsetQuery.toJson_injective : Function.Injective RowsetQuery.toJson := by
  intro a b same
  obtain ⟨columns, table, slicer⟩ := a
  obtain ⟨columns', table', slicer'⟩ := b
  simp only [RowsetQuery.toJson, object.injEq, List.cons.injEq, Prod.mk.injEq, true_and,
    and_true] at same
  obtain ⟨ids, tables, slicers⟩ := same
  rw [Identifier.listToJson_injective ids, Name.toJson_injective tables,
    Expr.optionToJson_injective slicers]

/-- The induction is on the marks in front of the statement. -/
theorem Statement.toJson_injective : Function.Injective Statement.toJson := by
  intro a b same
  induction a generalizing b with
  | select query =>
    cases b with
    | select query' => exact congrArg select (Select.toJson_injective same)
    | drillthrough _ | explain _ | rowset _ =>
      simp [Statement.toJson, Select.toJson, Drillthrough.toJson, RowsetQuery.toJson] at same
  | drillthrough query =>
    cases b with
    | drillthrough query' => exact congrArg drillthrough (Drillthrough.toJson_injective same)
    | select _ | explain _ | rowset _ =>
      simp [Statement.toJson, Select.toJson, Drillthrough.toJson, RowsetQuery.toJson] at same
  | explain statement ih =>
    cases b with
    | explain statement' =>
      simp only [Statement.toJson, object.injEq, List.cons.injEq, Prod.mk.injEq, true_and,
        and_true] at same
      rw [ih same]
    | select _ | drillthrough _ | rowset _ =>
      simp [Statement.toJson, Select.toJson, Drillthrough.toJson, RowsetQuery.toJson] at same
  | rowset query =>
    cases b with
    | rowset query' => exact congrArg rowset (RowsetQuery.toJson_injective same)
    | select _ | drillthrough _ | explain _ =>
      simp [Statement.toJson, Select.toJson, Drillthrough.toJson, RowsetQuery.toJson] at same

/-! ### Texts of trees -/

/-- **The text of a tree loses nothing.**  In either layout, two statements have the same text only
if they are equal, places of numbers included, and so have two expressions; and the indented text
without the white space outside its string literals is the text on one line. -/
theorem tree_text_lossless :
    (∀ (layout : Layout) (a b : Statement),
      render layout a.toJson = render layout b.toJson ↔ a = b) ∧
    (∀ (layout : Layout) (e f : Expr),
      render layout e.toJson = render layout f.toJson ↔ e = f) ∧
    (∀ a : Statement, stripped (render .indented a.toJson) = render .compact a.toJson) ∧
    ∀ e : Expr, stripped (render .indented e.toJson) = render .compact e.toJson := by
  refine ⟨?_, ?_, ?_, ?_⟩
  · intro layout a b
    rw [render_inj, Statement.toJson_injective.eq_iff]
  · intro layout e f
    rw [render_inj, Expr.toJson_injective.eq_iff]
  · intro a
    exact stripped_render .indented a.toJson
  · intro e
    exact stripped_render .indented e.toJson

/-- A quotation mark in a name ends no literal, and the spaces of the name are kept. -/
example : stripped (render .indented (Name.toJson ⟨"a \"b", .quoted⟩)) =
    "\x7b\"name\":\"a \\\"b\",\"quoted\":true\x7d" := by
  decide +kernel

end MdxReader
