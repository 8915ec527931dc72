import MdxReader.Proofs.Likeness.Expressions
import MdxReader.Reading.Whole

/-!
# Statements side by side

Statements are alike if they are equal but for their numbers, which are alike, and so are all their
parts.  The readings of statements match, as those of expressions do
(`MdxReader.Proofs.Likeness.Expressions`).  Items between `SELECT` and `FROM` remember where they
end, so they are only alike even where their numbers are the same.  A text inside a text is the same
on both sides, and so is what is ahead in it.

`read_like` is what follows for whole texts, once the readers at their beginnings are alike.
-/

namespace MdxReader

open ReadM

variable {L : Likeness}

/-! ### What is alike -/

/-- Properties are alike if they have one name and their values are alike. -/
structure MemberProperty.Like (L : Likeness) (a b : MemberProperty) : Prop where
  name : a.name = b.name
  value : a.value.Like L b.value

/-- Definitions are alike if they define the same name by formulas that are alike, with properties
that are. -/
inductive Definition.Like (L : Likeness) : Definition → Definition → Prop
  | member (name : Identifier) {x x' : Expr} {properties properties' : List MemberProperty}
      (formula : x.Like L x') (each : List.Forall₂ (MemberProperty.Like L) properties properties') :
      Like L (.member name x properties) (.member name x' properties')
  | set (name : Identifier) {x x' : Expr} (formula : x.Like L x') :
      Like L (.set name x) (.set name x')

/-- Clauses are alike if their expressions are and all else is equal. -/
structure AxisClause.Like (L : Likeness) (a b : AxisClause) : Prop where
  nonEmpty : a.nonEmpty = b.nonEmpty
  expr : a.expr.Like L b.expr
  properties : a.properties = b.properties
  axis : a.axis = b.axis

/-- Projections are alike if both are empty, both are the asterisk, or their axes are alike one by
one. -/
inductive Projection.Like (L : Likeness) : Projection → Projection → Prop
  | empty : Like L .empty .empty
  | asterisk : Like L .asterisk .asterisk
  | axes {clauses clauses' : List AxisClause}
      (each : List.Forall₂ (AxisClause.Like L) clauses clauses') :
      Like L (.axes clauses) (.axes clauses')

/-- Sources are alike if they are the same cube, or sub-selects of which all parts are alike. -/
inductive Source.Like (L : Likeness) : Source → Source → Prop
  | cube (name : Name) : Like L (.cube name) (.cube name)
  | subselect {p p' : Projection} {source source' : Source} {slicer slicer' : Option Expr}
      (projection : p.Like L p') (inner : Like L source source')
      (condition : Option.Rel (Expr.Like L) slicer slicer') :
      Like L (.subselect p source slicer) (.subselect p' source' slicer')

/-- Queries are alike if their parts are. -/
structure Select.Like (L : Likeness) (a b : Select) : Prop where
  definitions : List.Forall₂ (Definition.Like L) a.definitions b.definitions
  projection : a.projection.Like L b.projection
  source : a.source.Like L b.source
  slicer : Option.Rel (Expr.Like L) a.slicer b.slicer
  cellProperties : a.cellProperties = b.cellProperties

/-- Queries of one table for the same columns are alike if their conditions are. -/
structure RowsetQuery.Like (L : Likeness) (a b : RowsetQuery) : Prop where
  columns : a.columns = b.columns
  table : a.table = b.table
  slicer : Option.Rel (Expr.Like L) a.slicer b.slicer

/-- Drillthroughs with the same options are alike if their queries are. -/
structure Drillthrough.Like (L : Likeness) (a b : Drillthrough) : Prop where
  maxRows : a.maxRows = b.maxRows
  firstRowSet : a.firstRowSet = b.firstRowSet
  select : a.select.Like L b.select
  returned : a.returned = b.returned

/-- Statements are alike if they are of the same kind and what they hold is alike. -/
inductive Statement.Like (L : Likeness) : Statement → Statement → Prop
  | select {a b : Select} (query : a.Like L b) : Like L (.select a) (.select b)
  | drillthrough {a b : Drillthrough} (query : a.Like L b) :
      Like L (.drillthrough a) (.drillthrough b)
  | explain {a b : Statement} (statement : Like L a b) : Like L (.explain a) (.explain b)
  | rowset {a b : RowsetQuery} (query : a.Like L b) : Like L (.rowset a) (.rowset b)

/-- Queries of the two kinds are alike within their kind. -/
inductive ReadM.Query.Like (L : Likeness) : Query → Query → Prop
  | select {a b : Select} (query : a.Like L b) : Query.Like L (.select a) (.select b)
  | rowset {a b : RowsetQuery} (query : a.Like L b) : Query.Like L (.rowset a) (.rowset b)

/-- Trees are alike if they were read for the same goal and are alike as such. -/
inductive Tree.Like (L : Likeness) : Tree → Tree → Prop
  | expression {x x' : Expr} (expr : x.Like L x') : Like L (.expression x) (.expression x')
  | select {a b : Select} (query : a.Like L b) : Like L (.select a) (.select b)
  | statement {a b : Statement} (found : a.Like L b) : Like L (.statement a) (.statement b)
  | cubeName (name : Name) : Like L (.cubeName name) (.cubeName name)

/-! ### Starting alike -/

theorem Located.like_refl (a : Located) : a.Like L a := ⟨.same _, L.place_refl _⟩

/-- Every answer is like itself, be it a token or an error. -/
theorem Answer.like_refl {α : Type} {rel : α → α → Prop} (refl : ∀ a, rel a a)
    (answer : Except ScanError α) : Answer.Like rel answer answer := by
  cases answer with
  | ok a => exact .ok (refl a)
  | error e => exact .error e

theorem Feed.like_refl (feed : Feed) : feed.Like L feed :=
  ⟨List.forall₂_same.mpr fun lexeme _ => Answer.like_refl Located.like_refl lexeme,
    Answer.like_refl L.place_refl feed.ending⟩

/-- Texts with feeds that are alike are read alike under limits that are. -/
theorem Reader.like_ofText {text text' : String}
    (feeds : (Feed.ofText text).Like L (Feed.ofText text')) {l l' : Nat} (le : l ≤ l')
    (eq : L.lenient ∨ l = l') :
    Judgement.Like L (Reader.Like L) (ofText text l) (ofText text' l') := by
  have first := feeds.pull
  unfold ofText
  generalize (Feed.ofText text).pull = pulled at first ⊢
  generalize (Feed.ofText text').pull = pulled' at first ⊢
  obtain ⟨answer, feed⟩ := pulled
  obtain ⟨answer', feed'⟩ := pulled'
  obtain ⟨answers, behind⟩ := first
  cases answers with
  | ok held => exact .ok ⟨held.token, held.place, behind, rfl, le, eq⟩
  | error e => exact .error (.scan e)

/-! ### What a query selects -/

/-- Items are alike if their expressions are and all else is equal but for where they end. -/
inductive Item.Like (L : Likeness) : Item → Item → Prop
  | mk (nonEmpty : Bool) {x x' : Expr} (expr : x.Like L x') (properties : List Identifier)
      (axis : Option Axis) {p p' : Position} (stop : L.place p p') :
      Like L ⟨nonEmpty, x, properties, axis, p⟩ ⟨nonEmpty, x', properties, axis, p'⟩

/-- Selections are alike if their items are. -/
inductive Selection.Like (L : Likeness) : Selection → Selection → Prop
  | asterisk : Like L .asterisk .asterisk
  | items {all all' : List Item} (each : List.Forall₂ (Item.Like L) all all') :
      Like L (.items all) (.items all')

namespace Selection

variable {all all' : List Item}

/-- Of items that are alike both lists have one without `ON`, at places that are alike, or neither
has. -/
theorem like_axisClauses {clauses clauses' : List AxisClause}
    (before : List.Forall₂ (AxisClause.Like L) clauses clauses')
    (h : List.Forall₂ (Item.Like L) all all') :
    Judgement.Like L (List.Forall₂ (AxisClause.Like L)) (axisClauses clauses all)
      (axisClauses clauses' all') := by
  induction h generalizing clauses clauses' with
  | nil => exact .ok (List.rel_reverse before)
  | cons first _ ih =>
    cases first with
    | mk nonEmpty expr properties axis stop =>
      cases axis with
      | some axis => exact ih (.cons ⟨rfl, expr, rfl, rfl⟩ before)
      | none => exact .error (.endOfAxis .axis stop)

/-- The columns are identifiers, which hold no numbers, so they are equal. -/
theorem like_columnNames (found : List Identifier) (h : List.Forall₂ (Item.Like L) all all') :
    Judgement.Like L Eq (columnNames found all) (columnNames found all') := by
  induction h generalizing found with
  | nil => exact .ok rfl
  | cons first _ ih =>
    cases first with
    | @mk nonEmpty x x' expr properties axis p p' stop =>
      have same : column? ⟨nonEmpty, x, properties, axis, p⟩ =
          column? ⟨nonEmpty, x', properties, axis, p'⟩ := by
        cases nonEmpty <;> cases expr <;> cases properties <;> cases axis <;> rfl
      unfold columnNames
      rw [same]
      cases column? ⟨nonEmpty, x', properties, axis, p'⟩ with
      | some id => exact ih _
      | none => exact .error (.broken .plainColumns stop)

variable {selected selected' : Selection}

/-- What axes are made of the items is judged alike. -/
theorem like_projection (h : selected.Like L selected') :
    Judgement.Like L (Projection.Like L) selected.projection selected'.projection := by
  cases h with
  | asterisk => exact .ok .asterisk
  | items each =>
    cases each with
    | nil => exact .ok .empty
    | @cons item item' more more' first later =>
      have clauses := like_axisClauses .nil (.cons first later)
      change Judgement.Like L (Projection.Like L)
        ((axisClauses [] (item :: more)).map .axes) ((axisClauses [] (item' :: more')).map .axes)
      generalize axisClauses [] (item :: more) = judged at clauses ⊢
      generalize axisClauses [] (item' :: more') = judged' at clauses ⊢
      cases clauses with
      | ok values => exact .ok (.axes values)
      | error errors => exact .error errors

theorem like_columns (h : selected.Like L selected') :
    Judgement.Like L Eq selected.columns selected'.columns := by
  cases h with
  | asterisk => exact .ok rfl
  | items each => exact like_columnNames [] each

end Selection

namespace ReadM

/-! ### Formulas and definitions -/

theorem matches_wholeExpression : Matches L (Expr.Like L) wholeExpression wholeExpression :=
  matches_expression.bind fun _ _ expr => Stable.expectEnd.bind fun _ => Matches.pure expr

/-- A text inside a text starts alike one level deeper. -/
theorem Matches.inside {α : Type} {rel : α → α → Prop} (text : String) {reading : ReadM α}
    (h : Matches L rel reading reading) :
    Matches L rel (inside text reading) (inside text reading) := by
  intro r r' like
  have start := Reader.like_ofText (Feed.like_refl (Feed.ofText text)) like.limit_le like.limit_eq
  have depth := like.depth
  have limits := like.limit_le
  have same (events events' : List LevelEvent) :
      Reader.Like L { r with events := events } { r' with events := events' } :=
    ⟨like.token, like.place, like.feed, like.depth, like.limit_le, like.limit_eq⟩
  unfold ReadM.inside
  generalize Reader.ofText text r.limit = inner at start ⊢
  generalize Reader.ofText text r'.limit = inner' at start ⊢
  cases start with
  | error errors => exact .error errors
  | @ok inner inner' readers =>
    by_cases reached : r.limit < r.depth + 1
    · simp only [if_pos reached]
      rcases like.limit_eq with lenient | equal
      · exact .excused lenient
      · rw [if_pos (by omega), equal]
        exact .error (.tooDeep _)
    · simp only [if_neg reached, if_neg (show ¬ r'.limit < r'.depth + 1 by omega)]
      have deeper : Reader.Like L { inner with depth := r.depth + 1, events := r.events }
          { inner' with depth := r'.depth + 1, events := r'.events } :=
        ⟨readers.token, readers.place, readers.feed, congrArg (· + 1) like.depth, readers.limit_le,
          readers.limit_eq⟩
      have agree := h _ _ deeper
      generalize reading _ = result at agree ⊢
      generalize reading _ = result' at agree ⊢
      cases agree with
      | ok values _ => exact .ok values (same _ _)
      | error errors => exact .error errors
      | excused lenient => exact .excused lenient

/-- A formula in quotes is the same text on both sides, read under limits that are equal. -/
theorem matches_formula : Matches L (Expr.Like L) formula formula := by
  refine Matches.get fun r r' like => ?_
  have token := like.token
  generalize r.token = t at token ⊢
  generalize r'.token = t' at token ⊢
  cases token with
  | same =>
    split
    · refine (Matches.inside _ matches_wholeExpression).bind fun _ _ expr => ?_
      exact Stable.advance.bind fun _ => Matches.pure expr
    · exact matches_expression
  | respelled reserved spelling => exact matches_expression
  | number value => exact matches_expression

theorem matches_memberProperty :
    Matches L (MemberProperty.Like L) memberProperty memberProperty := by
  refine stable_name.bind fun _ => (Stable.expect _).bind fun _ => ?_
  exact matches_expression.bind fun _ _ value => Matches.pure ⟨rfl, value⟩

theorem matches_moreDefinitions {definitions definitions' : List Definition}
    (before : List.Forall₂ (Definition.Like L) definitions definitions') :
    Matches L (List.Forall₂ (Definition.Like L)) (moreDefinitions definitions)
      (moreDefinitions definitions') := by
  refine Matches.get fun r r' like => Stable.advance.bind fun _ => ?_
  refine stable_identifier.bind fun name => (Stable.expectKeyword _).bind fun _ => ?_
  rw [like.token.isKeyword]
  refine matches_formula.bind fun _ _ formula => Matches.ite ?_ ?_
  · exact (Matches.itemsAfter matches_memberProperty .nil).bind fun _ _ each =>
      Matches.pure (.cons (.member name formula each) before)
  · exact Matches.pure (.cons (.set name formula) before)

/-- What begins a definition is told by keywords. -/
theorem like_beginsDefinition {t t' : Token} (h : t.Like L t') :
    beginsDefinition t = beginsDefinition t' := by
  unfold beginsDefinition
  rw [h.isKeyword, h.isKeyword]

theorem matches_withClause :
    Matches L (List.Forall₂ (Definition.Like L)) withClause withClause := by
  refine (Stable.atKeyword _).bind fun _ => Matches.ite ?_ (Matches.pure .nil)
  refine Stable.advance.bind fun _ => Matches.get fun r r' like => ?_
  rw [like_beginsDefinition like.token]
  refine Matches.ite ?_ (Matches.failExpecting _)
  have loop : Matches L (List.Forall₂ (Definition.Like L))
      (whileToken beginsDefinition moreDefinitions (fun _ _ => Spends.moreDefinitions) [])
      (whileToken beginsDefinition moreDefinitions (fun _ _ => Spends.moreDefinitions) []) :=
    Matches.whileToken (fun _ _ => like_beginsDefinition) (fun _ _ => matches_moreDefinitions) .nil
  exact loop.bind fun _ _ each => Matches.pure (List.rel_reverse each)

/-! ### Axes -/

theorem stable_axisNumber : Stable L axisNumber := by
  refine (Stable.atKeyword _).bind fun _ => Matches.ite ?_ (stable_count _)
  refine Stable.advance.bind fun _ => (Stable.expect _).bind fun _ => ?_
  exact (stable_count _).bind fun _ => (Stable.expect _).bind fun _ => Stable.pure _

theorem stable_axis : Stable L axis := by
  refine Matches.get fun r r' like => ?_
  have same : namedAxis? r.token = namedAxis? r'.token :=
    like.token.congr namedAxis? (fun k _ _ => by cases k <;> rfl) fun _ _ => rfl
  rw [same]
  split
  · exact Stable.advance.bind fun _ => Stable.pure _
  · exact stable_axisNumber.bind fun _ => Matches.ite (Stable.pure _) (Matches.failBreaking _)

theorem stable_nonEmpty : Stable L nonEmpty := by
  refine (Stable.atKeyword _).bind fun _ => Matches.ite ?_ (Stable.pure _)
  exact Stable.advance.bind fun _ => (Stable.expectKeyword _).bind fun _ => Stable.pure _

theorem stable_propertyList (noun : Keyword) : Stable L (propertyList noun) := by
  refine (Stable.atKeyword _).bind fun _ => Matches.ite ?_ ?_
  · refine Stable.advance.bind fun _ => (Stable.expectKeyword _).bind fun _ => ?_
    exact stable_identifiers
  · refine (Stable.atKeyword _).bind fun _ => Matches.ite ?_ (Stable.pure _)
    exact Stable.advance.bind fun _ => stable_identifiers

theorem matches_item : Matches L (Item.Like L) item item := by
  refine stable_nonEmpty.bind fun _ => matches_expression.bind fun _ _ expr => ?_
  refine (stable_propertyList _).bind fun _ => Matches.get fun r r' like => ?_
  rw [like.token.isKeyword]
  refine Matches.ite ?_ (Matches.pure (.mk _ expr _ _ like.place))
  refine Stable.advance.bind fun _ => stable_axis.bind fun _ => ?_
  exact Matches.pure (.mk _ expr _ _ like.place)

theorem matches_selection : Matches L (Selection.Like L) selection selection := by
  refine (Stable.atKeyword _).bind fun _ => Matches.ite (Matches.pure (.items .nil)) ?_
  refine (Stable.atSymbol _).bind fun _ => Matches.ite ?_ ?_
  · exact Stable.advance.bind fun _ => Matches.pure .asterisk
  · exact (Matches.separated matches_item).bind fun _ _ each => Matches.pure (.items each)

/-! ### Sources -/

theorem matches_slicer : Matches L (Option.Rel (Expr.Like L)) slicer slicer := by
  refine (Stable.atKeyword _).bind fun _ => Matches.ite ?_ (Matches.pure .none)
  exact Stable.advance.bind fun _ =>
    matches_expression.bind fun _ _ condition => Matches.pure (.some condition)

/-- Readers that are alike stay so when both change to one depth. -/
theorem Stable.atDepth (change : Nat → Nat) :
    Stable L (modify fun r => { r with depth := change r.depth }) := by
  intro r r' like
  exact .ok rfl ⟨like.token, like.place, like.feed, congrArg change like.depth, like.limit_le,
    like.limit_eq⟩

theorem Stable.descend : Stable L descend :=
  (Stable.checkHeight 1).bind fun _ => Stable.atDepth (· + 1)

/-- Both readers go back to their own depth, which is the same. -/
theorem Matches.keepingDepth {α : Type} {rel : α → α → Prop} {reading : ReadM α}
    (h : Matches L rel reading reading) :
    Matches L rel (keepingDepth reading) (keepingDepth reading) := by
  intro r r' like
  have agree := h r r' like
  unfold ReadM.keepingDepth
  generalize reading r = result at agree ⊢
  generalize reading r' = result' at agree ⊢
  cases agree with
  | ok values readers =>
    exact .ok values ⟨readers.token, readers.place, readers.feed, like.depth, readers.limit_le,
      readers.limit_eq⟩
  | error errors => exact .error errors
  | excused lenient => exact .excused lenient

theorem matches_openSubselect {opened opened' : List Projection}
    (around : List.Forall₂ (Projection.Like L) opened opened') :
    Matches L (List.Forall₂ (Projection.Like L)) (openSubselect opened)
      (openSubselect opened') := by
  refine Stable.descend.bind fun _ => Stable.advance.bind fun _ => ?_
  refine (Stable.expectKeyword _).bind fun _ => matches_selection.bind fun _ _ selected => ?_
  refine (Matches.judge (Selection.like_projection selected)).bind fun _ _ projection => ?_
  exact (Stable.expectKeyword _).bind fun _ => Matches.pure (.cons projection around)

/-- Sub-selects are closed from the inside out, around sources that are alike. -/
theorem matches_closeSubselects (base : Nat) {opened opened' : List Projection}
    (around : List.Forall₂ (Projection.Like L) opened opened') {source source' : Source}
    (inner : source.Like L source') :
    Matches L (Source.Like L) (closeSubselects base opened source)
      (closeSubselects base opened' source') := by
  induction around generalizing source source' with
  | nil => exact Matches.pure inner
  | @cons _ _ opened opened' projection around ih =>
    unfold closeSubselects
    rw [around.length_eq]
    refine (Stable.atDepth fun _ => base + opened'.length + 1).bind fun _ => ?_
    refine matches_slicer.bind fun _ _ condition => (Stable.expect _).bind fun _ => ?_
    exact ih (.subselect projection inner condition)

theorem matches_source : Matches L (Source.Like L) source source := by
  refine Matches.keepingDepth (Matches.get fun r r' like => ?_)
  have opening : Matches L (List.Forall₂ (Projection.Like L))
      (whileToken (·.isSymbol .openParen) openSubselect (fun _ _ => Spends.openSubselect) [])
      (whileToken (·.isSymbol .openParen) openSubselect (fun _ _ => Spends.openSubselect) []) :=
    Matches.whileToken (fun _ _ token => token.isSymbol .openParen)
      (fun _ _ => matches_openSubselect) .nil
  refine opening.bind fun _ _ opened => stable_cubeName.bind fun cube => ?_
  rw [like.depth]
  exact matches_closeSubselects _ opened (.cube cube)

theorem stable_systemTable : Stable L systemTable := by
  refine Matches.get fun r r' like => ?_
  have same : isSystem r.token = isSystem r'.token :=
    like.token.congr isSystem (fun _ _ _ => rfl) fun _ _ => rfl
  rw [same]
  refine Matches.ite (Stable.advance.bind fun _ => ?_) (Stable.pure _)
  exact (Stable.expect _).bind fun _ => stable_name.bind fun _ => Stable.pure _

/-! ### Queries and statements -/

/-- The definitions and the selection were read before; the rest of the query follows. -/
theorem matches_cubeQuery {definitions definitions' : List Definition}
    (each : List.Forall₂ (Definition.Like L) definitions definitions')
    {selected selected' : Selection} (h : selected.Like L selected') :
    Matches L (Query.Like L) (cubeQuery definitions selected)
      (cubeQuery definitions' selected') := by
  refine (Matches.judge (Selection.like_projection h)).bind fun _ _ projection => ?_
  refine matches_source.bind fun _ _ source => matches_slicer.bind fun _ _ condition => ?_
  exact (stable_propertyList _).bind fun _ =>
    Matches.pure (.select ⟨each, projection, source, condition, rfl⟩)

/-- A query of a table has columns instead of axes. -/
theorem matches_rowsetQuery {selected selected' : Selection} (h : selected.Like L selected')
    (table : Name) :
    Matches L (Query.Like L) (rowsetQuery selected table) (rowsetQuery selected' table) := by
  refine matches_slicer.bind fun _ _ condition => ?_
  exact (Matches.judge (Selection.like_columns h)).andThen fun _ =>
    Matches.pure (.rowset ⟨rfl, rfl, condition⟩)

/-- Which kind of query it is shows behind `FROM`, and is the same for both. -/
theorem matches_query (rowsets : Bool) :
    Matches L (Query.Like L) (query rowsets) (query rowsets) := by
  refine matches_withClause.bind fun definitions definitions' each => ?_
  have same : definitions.isEmpty = definitions'.isEmpty := by
    cases each <;> rfl
  refine (Stable.expectKeyword _).bind fun _ => ?_
  refine matches_selection.bind fun _ _ selected => (Stable.expectKeyword _).bind fun _ => ?_
  rw [same]
  refine Matches.ite (stable_systemTable.bind fun table => ?_) (matches_cubeQuery each selected)
  cases table with
  | none => exact matches_cubeQuery each selected
  | some table => exact matches_rowsetQuery selected table

theorem matches_select : Matches L (Select.Like L) select select := by
  refine (matches_query false).bind fun _ _ alike => ?_
  cases alike with
  | select query => exact Matches.pure query
  | rowset query => exact Matches.failBreaking _

theorem stable_drillOption (found : Option Nat × Option Nat) : Stable L (drillOption found) := by
  refine Matches.get fun r r' like => ?_
  rw [like.token.isKeyword, like.token.isKeyword]
  refine Matches.ite ?_ (Matches.ite ?_ (Stable.pure _))
  · exact Stable.advance.bind fun _ => (stable_count _).bind fun _ => Stable.pure _
  · exact Stable.advance.bind fun _ => (stable_count _).bind fun _ => Stable.pure _

theorem matches_drillthrough : Matches L (Drillthrough.Like L) drillthrough drillthrough := by
  have returns : Stable L returned :=
    (Stable.atKeyword _).bind fun _ =>
      Matches.ite (Stable.advance.bind fun _ => stable_identifiers) (Stable.pure _)
  refine (Stable.expectKeyword _).bind fun _ => (stable_drillOption _).bind fun first => ?_
  refine (stable_drillOption first).bind fun _ => matches_select.bind fun _ _ query => ?_
  exact returns.bind fun _ => Matches.pure ⟨rfl, rfl, query, rfl⟩

theorem matches_plainStatement :
    Matches L (Statement.Like L) plainStatement plainStatement := by
  refine (Stable.atKeyword _).bind fun _ => Matches.ite ?_ ?_
  · exact matches_drillthrough.bind fun _ _ query => Matches.pure (.drillthrough query)
  · refine (matches_query true).bind fun _ _ alike => ?_
    cases alike with
    | select query => exact Matches.pure (.select query)
    | rowset query => exact Matches.pure (.rowset query)

theorem matches_statement : Matches L (Statement.Like L) statement statement := by
  have mark (count : Nat) : Stable L (explainMark count) := by
    refine Stable.descend.bind fun _ => Stable.advance.bind fun _ => ?_
    exact (Stable.expectKeyword _).bind fun _ => (Stable.expectKeyword _).bind fun _ =>
      Stable.pure _
  have marking : Stable L (whileToken (·.isKeyword .EXPLAIN) explainMark
      (fun _ _ => Spends.explainMark) 0) :=
    Stable.whileToken (fun _ _ token => token.isKeyword .EXPLAIN) mark 0
  have under (marks : Nat) {a b : Statement} (alike : a.Like L b) :
      (Nat.repeat .explain marks a).Like L (Nat.repeat .explain marks b) := by
    induction marks with
    | zero => exact alike
    | succ marks ih => exact .explain ih
  refine Matches.keepingDepth (marking.bind fun marks => ?_)
  exact matches_plainStatement.bind fun _ _ alike => Matches.pure (under marks alike)

theorem stable_endStatement : Stable L endStatement := by
  refine (Stable.atSymbol _).bind fun _ => Matches.ite ?_ Stable.expectEnd
  exact Stable.advance.bind fun _ => Stable.expectEnd

end ReadM

/-! ### Whole texts -/

/-- **Whatever is asked of two readers that are alike**, they give what is alike. -/
theorem Goal.matches_reading (goal : Goal) : Matches L (Tree.Like L) goal.reading goal.reading := by
  cases goal with
  | expression =>
    exact matches_wholeExpression.bind fun _ _ expr => Matches.pure (.expression expr)
  | select =>
    have whole : Matches L (Select.Like L) wholeSelect wholeSelect :=
      matches_select.bind fun _ _ query => stable_endStatement.bind fun _ => Matches.pure query
    exact whole.bind fun _ _ query => Matches.pure (.select query)
  | statement =>
    have whole : Matches L (Statement.Like L) wholeStatement wholeStatement :=
      matches_statement.bind fun _ _ found => stable_endStatement.bind fun _ => Matches.pure found
    exact whole.bind fun _ _ found => Matches.pure (.statement found)
  | cubeName =>
    have whole : Stable L wholeCubeName :=
      stable_cubeName.bind fun _ => Stable.expectEnd.bind fun _ => Stable.pure _
    exact whole.bind fun name => Matches.pure (.cubeName name)

/-- **Two texts that start alike are read alike**, but for an excused complaint about the limit on
the left side. -/
theorem read_like {text text' : String} {l l' : Nat} (goal : Goal)
    (start : Judgement.Like L (Reader.Like L) (Reader.ofText text l) (Reader.ofText text' l')) :
    Judgement.Like L (Tree.Like L) (read goal text l) (read goal text' l') ∨
      L.lenient ∧ ∃ limit, read goal text l = .error (.tooDeep limit) := by
  unfold read readWithEvents
  generalize Reader.ofText text l = first at start ⊢
  generalize Reader.ofText text' l' = first' at start ⊢
  cases start with
  | error errors => exact .inl (.error errors)
  | @ok r r' readers =>
    have agree := goal.matches_reading r r' readers
    simp only [Reader.attempt]
    generalize goal.reading r = result at agree ⊢
    generalize goal.reading r' = result' at agree ⊢
    cases agree with
    | ok values _ => exact .inl (.ok values)
    | error errors => exact .inl (.error errors)
    | excused lenient => exact .inr ⟨lenient, _, rfl⟩

end MdxReader
