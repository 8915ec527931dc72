import MdxReader.Proofs.Trees

/-!
# The trees of statements

Statements are made of expressions, names and nesting of their own.  At a reader that uses up `d`
levels of a limit `l`, everything that is read is well formed and at most `l - d` high: expressions
by `ReadM.good_expression`, and the rest by going through the readings one by one.  Where a reading
goes one level deeper (`EXPLAIN`, sub-selects, a formula in quotes) its part is one lower.

The results are about every way to read a text: the limit bounds the height of the tree
(`height_le_of_read`), and the tree is well formed (`wellFormed_of_read`).
-/

namespace MdxReader

open ReadM

/-- A sound reader with `depth` levels around it and a limit that has room for them. -/
structure Reader.At (r : Reader) (depth limit : Nat) : Prop where
  sound : r.Sound
  depth_eq : r.depth = depth
  limit_eq : r.limit = limit
  within : depth ≤ limit

/-- Where a reader got to, it is as deep and under the same limit. -/
theorem Reader.At.after {r after : Reader} {d l : Nat} (here : r.At d l)
    (reached : r.Reaches after) : after.At d l where
  sound := reached.sound here.sound
  depth_eq := reached.depth.trans here.depth_eq
  limit_eq := reached.limit.trans here.limit_eq
  within := here.within

/-! ### What is judged after reading -/

/-- The parts of an item are well formed and within the limit. -/
def Item.Good (d l : Nat) (item : Item) : Prop :=
  item.expr.WellFormed ∧ d + item.expr.height ≤ l ∧ (∀ id ∈ item.properties, id.Valid) ∧
    ∀ axis ∈ item.axis, axis.Valid

namespace Selection

/-- All items are good. -/
def Good (d l : Nat) : Selection → Prop
  | asterisk => True
  | items all => ∀ item ∈ all, item.Good d l

theorem good_axisClauses {d l : Nat} {clauses all : List AxisClause} {items : List Item}
    (before : ∀ clause ∈ clauses, clause.WellFormed ∧ d + clause.height ≤ l)
    (good : ∀ item ∈ items, item.Good d l) (h : axisClauses clauses items = .ok all) :
    all.length = clauses.length + items.length ∧
      ∀ clause ∈ all, clause.WellFormed ∧ d + clause.height ≤ l := by
  induction items generalizing clauses with
  | nil =>
    cases h
    exact ⟨by simp, fun clause mem => before clause (List.mem_reverse.mp mem)⟩
  | cons item later ih =>
    unfold axisClauses at h
    split at h
    · rename_i axis found
      obtain ⟨⟨wellFormed, low, properties, axes⟩, others⟩ := List.forall_mem_cons.mp good
      have clause : AxisClause.WellFormed ⟨item.nonEmpty, item.expr, item.properties, axis⟩ :=
        ⟨wellFormed, properties, axes axis found⟩
      obtain ⟨length, fine⟩ :=
        ih (List.forall_mem_cons.mpr ⟨⟨clause, low⟩, before⟩) others h
      rw [List.length_cons] at length ⊢
      exact ⟨by omega, fine⟩
    · cases h

/-- The clauses are as high as the items they are made of. -/
theorem good_projection {d l : Nat} {selection : Selection} {projection : Projection}
    (within : d ≤ l) (good : selection.Good d l) (h : selection.projection = .ok projection) :
    projection.WellFormed ∧ d + projection.height ≤ l := by
  unfold Selection.projection at h
  split at h
  · cases h
    exact ⟨trivial, within⟩
  · cases h
    exact ⟨trivial, within⟩
  · rename_i item more
    cases clauses : axisClauses [] (item :: more) with
    | error e =>
      rw [clauses] at h
      cases h
    | ok all =>
      rw [clauses] at h
      cases h
      obtain ⟨length, fine⟩ := good_axisClauses (by nofun) good clauses
      refine ⟨⟨?_, fun clause mem => (fine clause mem).1⟩, ?_⟩
      · -- There was an item, and every item becomes an axis.
        rintro rfl
        simp at length
      · have low : highest AxisClause.height all ≤ l - d :=
          highest_le_iff.mpr fun clause mem => by
            have := (fine clause mem).2
            omega
        simp only [Projection.height]
        omega

/-- Columns are identifiers that were read as expressions. -/
theorem wellFormed_columnNames {d l : Nat} {found columns : List Identifier} {items : List Item}
    (before : ∀ id ∈ found, id.WellFormed) (good : ∀ item ∈ items, item.Good d l)
    (h : columnNames found items = .ok columns) : ∀ id ∈ columns, id.WellFormed := by
  induction items generalizing found with
  | nil =>
    cases h
    exact fun id mem => before id (List.mem_reverse.mp mem)
  | cons item later ih =>
    unfold columnNames at h
    obtain ⟨first, others⟩ := List.forall_mem_cons.mp good
    split at h
    · rename_i id column
      refine ih (List.forall_mem_cons.mpr ⟨?_, before⟩) others h
      unfold column? at column
      split at column
      · cases column
        exact wellFormed_of_identifier first.1
      · cases column
    · cases h

theorem wellFormed_columns {d l : Nat} {selection : Selection} {columns : List Identifier}
    (good : selection.Good d l) (h : selection.columns = .ok columns) :
    ∀ id ∈ columns, id.WellFormed := by
  unfold Selection.columns at h
  split at h
  · cases h
    nofun
  · exact wellFormed_columnNames (by nofun) good h

end Selection

namespace ReadM

variable {r : Reader} {d l : Nat} (here : r.At d l)

include here

/-! ### Expressions -/

/-- An expression is well formed and within the limit. -/
theorem good_expression_at :
    Leads expression (fun x _ => x.WellFormed ∧ d + x.height ≤ l) True r := by
  refine (good_expression here.sound).mono fun x _ _ ⟨wellFormed, low⟩ => ⟨wellFormed, ?_⟩
  rw [here.depth_eq, here.limit_eq] at low
  exact low

omit here in
theorem calm_expectEnd : Calm expectEnd := fun _ =>
  Leads.get (Leads.ite (fun _ => Leads.pure trivial) fun _ => Leads.failExpecting)

theorem good_wholeExpression :
    Leads wholeExpression (fun x _ => x.WellFormed ∧ d + x.height ≤ l) True r :=
  (good_expression_at here).bind fun _ _ _ good =>
    (calm_expectEnd.leads fun _ _ _ => trivial).bind fun _ _ _ (_ : True) => Leads.pure good

/-- A formula in quotes is read one level deeper. -/
theorem good_inside (text : String) :
    Leads (inside text wholeExpression) (fun x _ => x.WellFormed ∧ d + x.height ≤ l) True r := by
  refine Leads.of_ok fun x after h => ?_
  unfold inside at h
  split at h
  · cases h
  · rename_i inner start
    split at h
    · cases h
    · rename_i deeper
      -- The text in quotes has a reader of its own, with the same limit and one level more.
      rw [here.depth_eq, here.limit_eq] at deeper
      have sound := Reader.sound_of_ofText start
      have inside : Reader.At { inner with depth := r.depth + 1, events := r.events } (d + 1) l :=
        ⟨sound, congrArg (· + 1) here.depth_eq,
          (Reader.limit_of_ofText start).trans here.limit_eq, Nat.le_of_not_lt deeper⟩
      split at h
      · rename_i y last read
        obtain ⟨-, wellFormed, low⟩ := (good_wholeExpression inside).ok read
        cases h
        exact ⟨⟨rfl, rfl, Nat.le_refl _, id⟩, wellFormed, by omega⟩
      · cases h

theorem good_formula : Leads formula (fun x _ => x.WellFormed ∧ d + x.height ≤ l) True r := by
  refine Leads.get ?_
  split
  · refine (good_inside here _).bind fun x after _ good => ?_
    exact Leads.advance.bind fun _ _ _ _ => Leads.pure good
  · exact good_expression_at here

/-- `[WHERE expr]` -/
theorem good_slicer :
    Leads slicer (fun x _ => (∀ y ∈ x, y.WellFormed) ∧ d + Expr.heightOption x ≤ l) True r := by
  refine Leads.atKeyword (fun _ => ?_) (Leads.pure ⟨by nofun, here.within⟩)
  refine Leads.advance.bind fun _ after moved _ => ?_
  refine (good_expression_at (here.after moved)).bind fun x _ _ good => Leads.pure ⟨?_, good.2⟩
  rintro _ ⟨⟩
  exact good.1

/-! ### Definitions -/

theorem good_memberProperty :
    Leads memberProperty (fun p _ => p.WellFormed ∧ d + p.height ≤ l) True r := by
  refine (leads_name here.sound).bind fun name after moved valid => ?_
  refine Leads.expectClosing.bind fun _ last left _ => ?_
  exact (good_expression_at ((here.after moved).after left)).bind fun x _ _ good =>
    Leads.pure ⟨⟨valid, good.1⟩, good.2⟩

/-- The new definition is within the limit, and those before it were. -/
theorem good_moreDefinitions {definitions : List Definition}
    (before : ∀ definition ∈ definitions, definition.WellFormed ∧ d + definition.height ≤ l) :
    Leads (moreDefinitions definitions)
      (fun all _ => ∀ definition ∈ all, definition.WellFormed ∧ d + definition.height ≤ l) True
      r := by
  refine Leads.get (Leads.advance.bind fun _ after moved _ => ?_)
  have here := here.after moved
  refine (leads_identifier here.sound).bind fun name last moved valid => ?_
  have here := here.after moved
  refine Leads.expectKeyword.bind fun _ last moved _ => ?_
  have here := here.after moved
  refine (good_formula here).bind fun formula last moved ⟨wellFormed, low⟩ => ?_
  have here := here.after moved
  refine Leads.ite (fun _ => ?_) fun _ => Leads.pure ?_
  · -- A member may have properties, each with an expression of its own; a set has none.
    refine (Leads.itemsAfter (fun between reached => good_memberProperty (here.after reached))
      Keeps.memberProperty (by nofun)).bind fun properties _ _ fine => Leads.pure ?_
    refine List.forall_mem_cons.mpr ⟨⟨⟨valid, wellFormed, fun p mem => (fine p mem).1⟩, ?_⟩, before⟩
    have values : highest MemberProperty.height properties ≤ l - d :=
      highest_le_iff.mpr fun p mem => by
        have := (fine p mem).2
        omega
    simp only [Definition.height]
    omega
  · exact List.forall_mem_cons.mpr ⟨⟨⟨valid, wellFormed⟩, low⟩, before⟩

/-- `[WITH definitions]` -/
theorem good_withClause : Leads withClause
    (fun all _ => (∀ definition ∈ all, definition.WellFormed) ∧
      d + highest Definition.height all ≤ l) True r := by
  refine Leads.atKeyword (fun _ => ?_) (Leads.pure ⟨by nofun, here.within⟩)
  refine Leads.advance.bind fun _ after moved _ => ?_
  have here := here.after moved
  refine Leads.get (Leads.ite (fun _ => ?_) fun _ => Leads.failExpecting)
  have loop : Leads (whileToken beginsDefinition moreDefinitions
      (fun _ _ => Spends.moreDefinitions) []) (fun all _ => ∀ definition ∈ all,
        definition.WellFormed ∧ d + definition.height ≤ l) True after :=
    Leads.whileToken (by nofun) fun found between reached _ fine =>
      good_moreDefinitions (here.after reached) fine
  refine loop.bind fun all _ _ fine => Leads.pure ⟨?_, ?_⟩
  · exact fun definition mem => (fine definition (List.mem_reverse.mp mem)).1
  · have low : highest Definition.height all.reverse ≤ l - d :=
      highest_le_iff.mpr fun definition mem => by
        have := (fine definition (List.mem_reverse.mp mem)).2
        omega
    have within := here.within
    omega

/-! ### Axes -/

omit here in
theorem leads_count {deep : Prop} (expected : Expected) (r : Reader) :
    Leads (count expected) (fun n _ => n < countBound) deep r := by
  refine Leads.get ?_
  split
  · rename_i n found
    refine Leads.advance.bind fun _ _ _ _ => Leads.pure ?_
    unfold countOf? at found
    split at found
    · exact of_decide_eq_true (Option.filter_eq_some_iff.mp found).2
    · cases found
  · exact Leads.failExpecting

omit here in
theorem calm_count (expected : Expected) : Calm (count expected) := fun r =>
  (leads_count expected r).mono fun _ _ _ _ => trivial

omit here in
/-- A number within the bound names an axis. -/
theorem valid_ofOrdinal : ∀ {n : Nat}, n < Axis.bound → (Axis.ofOrdinal n).Valid
  | 0, _ | 1, _ | 2, _ | 3, _ | 4, _ => trivial
  | n + 5, h => ⟨Nat.le_add_left 5 n, h⟩

omit here in
theorem leads_axis {deep : Prop} (r : Reader) :
    Leads axis (fun found _ => found.Valid) deep r := by
  refine Leads.get ?_
  split
  · rename_i found named
    refine Leads.advance.bind fun _ _ _ _ => Leads.pure ?_
    unfold namedAxis? at named
    split at named <;> cases named <;> trivial
  · have number : Leads axisNumber (fun _ _ => True) deep r := by
      refine Leads.atKeyword (fun _ => ?_) ((leads_count _ r).mono fun _ _ _ _ => trivial)
      refine Leads.advance.bind fun _ after _ _ => ?_
      refine Leads.expectClosing.bind fun _ last _ _ => ?_
      refine (leads_count _ last).bind fun n _ _ _ => ?_
      exact Leads.expectClosing.bind fun _ _ _ _ => Leads.pure trivial
    refine number.bind fun n _ _ _ => ?_
    exact Leads.ite (fun small => Leads.pure (valid_ofOrdinal small)) fun _ => Leads.failBreaking

omit here in
theorem calm_axis : Calm axis := fun r => (leads_axis r).mono fun _ _ _ _ => trivial

theorem leads_identifiers : Leads identifiers (fun all _ => ∀ id ∈ all, id.Valid) True r :=
  Leads.separated (fun _ reached => leads_identifier (reached.sound here.sound)) Keeps.identifier

theorem leads_propertyList (noun : Keyword) :
    Leads (propertyList noun) (fun all _ => ∀ id ∈ all, id.Valid) True r := by
  refine Leads.atKeyword (fun _ => ?_) (Leads.atKeyword (fun _ => ?_) (Leads.pure (by nofun)))
  · refine Leads.advance.bind fun _ after moved _ => ?_
    exact Leads.expectKeyword.bind fun _ _ left _ =>
      leads_identifiers ((here.after moved).after left)
  · exact Leads.advance.bind fun _ _ moved _ => leads_identifiers (here.after moved)

theorem good_item : Leads item (fun found _ => found.Good d l) True r := by
  have marked : Leads nonEmpty (fun _ _ => True) True r := by
    refine Leads.atKeyword (fun _ => ?_) (Leads.pure trivial)
    refine Leads.advance.bind fun _ _ _ _ => ?_
    exact Leads.expectKeyword.bind fun _ _ _ _ => Leads.pure trivial
  refine marked.bind fun _ _ moved _ => ?_
  have here := here.after moved
  refine (good_expression_at here).bind fun x _ moved ⟨wellFormed, low⟩ => ?_
  have here := here.after moved
  refine (leads_propertyList here .DIMENSION).bind fun properties last moved valid => ?_
  refine Leads.get (Leads.ite (fun _ => ?_) fun _ => Leads.pure ⟨wellFormed, low, valid, by nofun⟩)
  refine Leads.advance.bind fun _ after _ _ => ?_
  refine (leads_axis after).bind fun axis _ _ validAxis => Leads.pure ⟨wellFormed, low, valid, ?_⟩
  rintro _ ⟨⟩
  exact validAxis

theorem good_selection : Leads selection (fun found _ => found.Good d l) True r := by
  refine Leads.atKeyword (fun _ => Leads.pure (by nofun)) (Leads.atSymbol (fun _ => ?_) ?_)
  · exact Leads.advance.bind fun _ _ _ _ => Leads.pure trivial
  · exact (Leads.separated (fun _ reached => good_item (here.after reached)) Keeps.item).bind
      fun all _ _ fine => Leads.pure fine

end ReadM

/-! ### Sources -/

/-- The sub-selects that are open, innermost first: each is one level deeper than the next. -/
def Nested (d l : Nat) : List Projection → Prop
  | [] => True
  | projection :: around =>
    projection.WellFormed ∧ d + around.length + 1 + projection.height ≤ l ∧ Nested d l around

namespace ReadM

variable {r : Reader} {d l : Nat}

/-- Going one statement deeper. -/
theorem at_of_descend {u : Unit} {after : Reader} (here : r.At d l)
    (h : descend r = .ok u after) : after.At (d + 1) l ∧ after.remaining = r.remaining := by
  obtain ⟨_, between, checked, modified⟩ := bind_eq_ok h
  have fits : r.depth + 1 ≤ r.limit := by
    change (if r.limit < r.depth + 1 then _ else _ : ReadM Unit) r = _ at checked
    split at checked
    · cases checked
    · rename_i within
      exact Nat.le_of_not_lt within
  rw [eq_of_checkHeight checked] at modified
  cases modified
  rw [here.depth_eq, here.limit_eq] at fits
  exact ⟨⟨here.sound, congrArg (· + 1) here.depth_eq, here.limit_eq, fits⟩, rfl⟩

/-- What every round of a loop preserves, the loop preserves; the reader may go deeper. -/
theorem invariant_of_whileToken {σ : Type} {test : Token → Bool} {round : σ → ReadM σ}
    {spends : ∀ acc r, test r.token = true → Spends (round acc) r}
    {invariant : σ → Reader → Prop}
    (kept : ∀ acc r next after, test r.token = true → invariant acc r →
      round acc r = .ok next after → invariant next after)
    {acc last : σ} {after : Reader} (start : invariant acc r)
    (h : whileToken test round spends acc r = .ok last after) : invariant last after := by
  -- `Leads.whileToken` does not do here: it is for rounds that leave the depth as it is.
  induction left : r.remaining using Nat.strongRecOn generalizing r acc with
  | _ n ih =>
    rw [whileToken_apply] at h
    by_cases passes : test r.token = true
    · rw [if_pos passes] at h
      obtain ⟨next, between, first, later⟩ := bind_eq_ok h
      have spent := spends acc r passes next between first
      exact ih _ (left ▸ spent) (kept acc r next between passes start first) later rfl
    · rw [if_neg passes] at h
      cases h
      exact start

/-- Each sub-select that is opened is one level deeper, with its projection within the limit. -/
theorem good_openSubselect {opened opened' : List Projection} {after : Reader}
    (here : r.At (d + opened.length) l) (nested : Nested d l opened)
    (h : openSubselect opened r = .ok opened' after) :
    after.At (d + opened'.length) l ∧ Nested d l opened' := by
  obtain ⟨_, between, descended, read⟩ := bind_eq_ok h
  obtain ⟨deeper, -⟩ := at_of_descend here descended
  have rest : Leads (do
      advance
      expectKeyword .SELECT
      let selected ← selection
      let projection ← judge selected.projection
      expectKeyword .FROM
      return projection :: opened) (fun all _ => ∃ projection, all = projection :: opened ∧
        projection.WellFormed ∧ d + opened.length + 1 + projection.height ≤ l) True between := by
    refine Leads.advance.bind fun _ _ moved _ => ?_
    have deeper := deeper.after moved
    refine Leads.expectKeyword.bind fun _ _ moved _ => ?_
    have deeper := deeper.after moved
    refine (good_selection deeper).bind fun selected last moved good => ?_
    have judged : Leads (judge selected.projection) (fun projection _ =>
        projection.WellFormed ∧ d + opened.length + 1 + projection.height ≤ l) True last :=
      Leads.judge (fun _ found => Selection.good_projection deeper.within good found)
        fun _ _ _ => trivial
    refine judged.bind fun projection _ _ fine => ?_
    exact Leads.expectKeyword.bind fun _ _ _ _ => Leads.pure ⟨projection, rfl, fine⟩
  obtain ⟨reached, projection, rfl, wellFormed, low⟩ := rest.ok read
  exact ⟨deeper.after reached, wellFormed, low, nested⟩

/-- Closing a sub-select puts one level around its source. -/
theorem good_closeSubselects {opened : List Projection} {source found : Source} {after : Reader}
    (sound : r.Sound) (limit : r.limit = l) (nested : Nested d l opened)
    (wellFormed : source.WellFormed) (low : d + opened.length + source.height ≤ l)
    (h : closeSubselects d opened source r = .ok found after) :
    after.Sound ∧ after.limit = l ∧ found.WellFormed ∧ d + found.height ≤ l := by
  induction opened generalizing source r with
  | nil =>
    cases h
    exact ⟨sound, limit, wellFormed, low⟩
  | cons projection around ih =>
    obtain ⟨_, between, modified, read⟩ := bind_eq_ok h
    cases modified
    obtain ⟨projectionFormed, projectionLow, outer⟩ := nested
    rw [List.length_cons] at low
    -- The depth goes back by one for each sub-select, to where its `SELECT` was read.
    have here : Reader.At { r with depth := d + around.length + 1 } (d + around.length + 1) l :=
      ⟨sound, rfl, limit, by omega⟩
    obtain ⟨slicer, second, sliced, read⟩ := bind_eq_ok read
    obtain ⟨reached, slicerFormed, slicerLow⟩ := (good_slicer here).ok sliced
    obtain ⟨_, third, closed, read⟩ := bind_eq_ok read
    have closes : Leads (expect .closeParen) _ True second := Leads.expectClosing
    have here := (here.after reached).after (closes.ok closed).1
    have formed : (Source.subselect projection source slicer).WellFormed :=
      ⟨projectionFormed, wellFormed, slicerFormed⟩
    refine ih here.sound here.limit_eq outer formed ?_ read
    simp only [Source.height]
    omega

variable (here : r.At d l)

include here

theorem leads_cubeName : Leads cubeName (fun name _ => name.Valid) True r := by
  refine (leads_name here.sound).bind fun name _ _ valid => ?_
  exact Leads.get (Leads.ite (fun _ => Leads.throw nofun) fun _ => Leads.pure valid)

/-- **A source is well formed and within the limit**, however deep its sub-selects are nested. -/
theorem good_source :
    Leads source (fun found _ => found.WellFormed ∧ d + found.height ≤ l) True r := by
  refine Leads.of_ok fun found after h => ?_
  have fewer := Keeps.source r found after h
  unfold source keepingDepth at h
  split at h
  · rename_i inner last read
    cases h
    -- First all sub-selects are opened, then the cube is named, then they are closed from within.
    obtain ⟨base, _, got, read⟩ := bind_eq_ok read
    cases got
    obtain ⟨opened, between, entered, read⟩ := bind_eq_ok read
    have start : r.At (d + ([] : List Projection).length) l ∧ Nested d l [] := ⟨here, trivial⟩
    obtain ⟨deeper, nested⟩ := invariant_of_whileToken
      (fun acc r next after _ held opened => good_openSubselect held.1 held.2 opened) start entered
    obtain ⟨cube, named, taken, closed⟩ := bind_eq_ok read
    obtain ⟨reached, valid⟩ := (leads_cubeName deeper).ok taken
    have deeper := deeper.after reached
    rw [here.depth_eq] at closed
    have formed : (Source.cube cube).WellFormed := valid
    obtain ⟨sound, limit, wellFormed, low⟩ :=
      good_closeSubselects deeper.sound deeper.limit_eq nested formed deeper.within closed
    exact ⟨⟨limit.trans here.limit_eq.symm, rfl, fewer, fun _ => sound⟩, wellFormed, low⟩
  · cases h

/-! ### Queries -/

/-- What a query turns out to be is well formed and within the limit. -/
def Query.Good (d l : Nat) : Query → Prop
  | .select query => query.WellFormed ∧ d + query.height ≤ l
  | .rowset query => query.WellFormed ∧ d + Expr.heightOption query.slicer ≤ l

theorem good_cubeQuery {definitions : List Definition} {selected : Selection}
    (defined : ∀ definition ∈ definitions, definition.WellFormed)
    (low : d + highest Definition.height definitions ≤ l) (good : selected.Good d l) :
    Leads (cubeQuery definitions selected) (fun query _ => query.Good d l) True r := by
  have judged : Leads (judge selected.projection) (fun projection _ =>
      projection.WellFormed ∧ d + projection.height ≤ l) True r :=
    Leads.judge (fun _ found => Selection.good_projection here.within good found)
      fun _ _ _ => trivial
  refine judged.bind fun projection _ moved ⟨projected, projectionLow⟩ => ?_
  have here := here.after moved
  refine (good_source here).bind fun source _ moved ⟨sourced, sourceLow⟩ => ?_
  have here := here.after moved
  refine (good_slicer here).bind fun slicer _ moved ⟨sliced, slicerLow⟩ => ?_
  have here := here.after moved
  refine (leads_propertyList here .CELL).bind fun properties _ _ valid => Leads.pure ?_
  refine ⟨⟨defined, projected, sourced, sliced, valid⟩, ?_⟩
  simp only [Select.height]
  omega

theorem good_rowsetQuery {selected : Selection} {table : Name} (good : selected.Good d l)
    (valid : table.Valid) :
    Leads (rowsetQuery selected table) (fun query _ => query.Good d l) True r := by
  refine (good_slicer here).bind fun slicer after _ ⟨sliced, slicerLow⟩ => ?_
  have judged : Leads (judge selected.columns) (fun columns _ => ∀ id ∈ columns, id.WellFormed)
      True after :=
    Leads.judge (fun _ found => Selection.wellFormed_columns good found) fun _ _ _ => trivial
  exact judged.bind fun columns _ _ fine => Leads.pure ⟨⟨fine, valid, sliced⟩, slicerLow⟩

theorem good_query (rowsets : Bool) :
    Leads (query rowsets) (fun query _ => query.Good d l) True r := by
  refine (good_withClause here).bind fun definitions _ moved ⟨defined, low⟩ => ?_
  have here := here.after moved
  refine Leads.expectKeyword.bind fun _ _ moved _ => ?_
  have here := here.after moved
  refine (good_selection here).bind fun selected _ moved good => ?_
  have here := here.after moved
  refine Leads.expectKeyword.bind fun _ last moved _ => ?_
  have here := here.after moved
  -- Only a statement without definitions can be a query of a system table.
  refine Leads.ite (fun _ => ?_) fun _ => good_cubeQuery here defined low good
  have table : Leads systemTable (fun name _ => ∀ found ∈ name, found.Valid) True last := by
    refine Leads.get (Leads.ite (fun _ => ?_) fun _ => Leads.pure (by nofun))
    refine Leads.advance.bind fun _ _ moved _ => ?_
    refine Leads.expectClosing.bind fun _ _ left _ => ?_
    refine (leads_name ((here.after moved).after left).sound).bind fun name _ _ valid =>
      Leads.pure ?_
    rintro _ ⟨⟩
    exact valid
  refine table.bind fun name _ moved valid => ?_
  have here := here.after moved
  cases name with
  | some found => exact good_rowsetQuery here good (valid found rfl)
  | none => exact good_cubeQuery here defined low good

theorem good_select :
    Leads select (fun query _ => query.WellFormed ∧ d + query.height ≤ l) True r := by
  refine (good_query here false).bind fun query _ _ good => ?_
  cases query with
  | select found => exact Leads.pure good
  | rowset found => exact Leads.failBreaking

/-! ### Statements -/

omit here in
/-- Options are counts, so they are within the bound of counts. -/
theorem leads_drillOption {found : Option Nat × Option Nat} (r : Reader)
    (before : (∀ n ∈ found.1, n < countBound) ∧ ∀ n ∈ found.2, n < countBound) :
    Leads (drillOption found)
      (fun next _ => (∀ n ∈ next.1, n < countBound) ∧ ∀ n ∈ next.2, n < countBound) True r := by
  refine Leads.get (Leads.ite (fun _ => ?_) fun _ => Leads.ite (fun _ => ?_) fun _ =>
    Leads.pure before)
  · refine Leads.advance.bind fun _ after _ _ => ?_
    refine (leads_count _ after).bind fun n _ _ small => Leads.pure ⟨?_, before.2⟩
    rintro _ ⟨⟩
    exact small
  · refine Leads.advance.bind fun _ after _ _ => ?_
    refine (leads_count _ after).bind fun n _ _ small => Leads.pure ⟨before.1, ?_⟩
    rintro _ ⟨⟩
    exact small

theorem good_drillthrough :
    Leads drillthrough (fun query _ => query.WellFormed ∧ d + query.select.height ≤ l) True r := by
  refine Leads.expectKeyword.bind fun _ after moved _ => ?_
  have here := here.after moved
  -- The two counts may come in either order, and each may be absent.
  refine (leads_drillOption after ⟨by nofun, by nofun⟩).bind fun first between moved counts => ?_
  have here := here.after moved
  refine (leads_drillOption between counts).bind fun options _ moved counts => ?_
  have here := here.after moved
  refine (good_select here).bind fun select last moved ⟨wellFormed, low⟩ => ?_
  have here := here.after moved
  have returns : Leads returned (fun all _ => ∀ id ∈ all, id.Valid) True last := by
    refine Leads.atKeyword (fun _ => ?_) (Leads.pure (by nofun))
    exact Leads.advance.bind fun _ _ moved _ => leads_identifiers (here.after moved)
  exact returns.bind fun all _ _ valid =>
    Leads.pure ⟨⟨counts.1, counts.2, wellFormed, valid⟩, low⟩

theorem good_plainStatement :
    Leads plainStatement (fun found _ => found.WellFormed ∧ d + found.height ≤ l) True r := by
  refine Leads.atKeyword (fun _ => ?_) ?_
  · exact (good_drillthrough here).bind fun query _ _ good => Leads.pure good
  · refine (good_query here true).bind fun query _ _ good => ?_
    cases query with
    | select found => exact Leads.pure good
    | rowset found => exact Leads.pure good

omit here in
/-- Each `EXPLAIN` that was read is one level of the tree. -/
theorem good_explained {found : Statement} (wellFormed : found.WellFormed) (marks : Nat) :
    (Nat.repeat Statement.explain marks found).WellFormed ∧
      (Nat.repeat Statement.explain marks found).height = marks + found.height := by
  induction marks with
  | zero => exact ⟨wellFormed, (Nat.zero_add _).symm⟩
  | succ marks ih =>
    refine ⟨ih.1, ?_⟩
    change (Nat.repeat Statement.explain marks found).height + 1 = _
    rw [ih.2]
    omega

omit here in
/-- Each mark goes one level deeper. -/
theorem at_of_explainMark {marks next : Nat} {after : Reader} (here : r.At (d + marks) l)
    (h : explainMark marks r = .ok next after) : after.At (d + next) l := by
  obtain ⟨_, between, descended, read⟩ := bind_eq_ok h
  obtain ⟨deeper, -⟩ := at_of_descend here descended
  have words : Leads (do advance; expectKeyword .PLAN; expectKeyword .FOR; return marks + 1)
      (fun n _ => n = marks + 1) True between :=
    Leads.advance.bind fun _ _ _ _ => Leads.expectKeyword.bind fun _ _ _ _ =>
      Leads.expectKeyword.bind fun _ _ _ _ => Leads.pure rfl
  obtain ⟨reached, rfl⟩ := words.ok read
  exact deeper.after reached

/-- **A statement is well formed and within the limit**, under any number of `EXPLAIN`. -/
theorem good_statement {found : Statement} {after : Reader} (h : statement r = .ok found after) :
    found.WellFormed ∧ d + found.height ≤ l := by
  unfold statement keepingDepth at h
  split at h
  · rename_i inner last read
    cases h
    obtain ⟨marks, between, marked, read⟩ := bind_eq_ok read
    -- The loop invariant: as many levels around the reader as `EXPLAIN` was read.
    have deeper : between.At (d + marks) l :=
      invariant_of_whileToken (fun _ _ _ _ _ held mark => at_of_explainMark held mark)
        (show r.At (d + 0) l from here) marked
    obtain ⟨plain, next, taken, made⟩ := bind_eq_ok read
    obtain ⟨-, wellFormed, low⟩ := (good_plainStatement deeper).ok taken
    cases made
    obtain ⟨formed, height⟩ := good_explained wellFormed marks
    exact ⟨formed, by omega⟩
  · cases h

end ReadM

/-! ### Whole texts -/

/-- What a goal reads is well formed and within the limit. -/
theorem Goal.good_reading {goal : Goal} {r after : Reader} {d l : Nat} {tree : Tree}
    (here : r.At d l) (h : goal.reading r = .ok tree after) :
    tree.WellFormed ∧ d + tree.height ≤ l := by
  cases goal with
  | expression =>
    obtain ⟨x, between, read, made⟩ := bind_eq_ok h
    cases made
    exact ((good_wholeExpression here).ok read).2
  | select =>
    obtain ⟨query, between, read, made⟩ := bind_eq_ok h
    cases made
    obtain ⟨found, _, selected, ended⟩ := bind_eq_ok read
    obtain ⟨_, _, _, made⟩ := bind_eq_ok ended
    cases made
    exact ((good_select here).ok selected).2
  | statement =>
    obtain ⟨query, between, read, made⟩ := bind_eq_ok h
    cases made
    obtain ⟨found, _, stated, ended⟩ := bind_eq_ok read
    obtain ⟨_, _, _, made⟩ := bind_eq_ok ended
    cases made
    exact good_statement here stated
  | cubeName =>
    obtain ⟨name, between, read, made⟩ := bind_eq_ok h
    cases made
    obtain ⟨found, _, named, ended⟩ := bind_eq_ok read
    obtain ⟨_, _, _, made⟩ := bind_eq_ok ended
    cases made
    exact ⟨((leads_cubeName here).ok named).2, here.within⟩

/-- A text that is read is read by its goal, from a reader at its beginning. -/
theorem exists_ofText_of_read {goal : Goal} {text : String} {limit : Nat} {tree : Tree}
    (h : read goal text limit = .ok tree) :
    ∃ r after, Reader.ofText text limit = .ok r ∧ goal.reading r = .ok tree after := by
  unfold read readWithEvents at h
  cases start : Reader.ofText text limit with
  | error e =>
    rw [start] at h
    cases h
  | ok r =>
    rw [start] at h
    simp only [Reader.attempt] at h
    split at h
    · rename_i tree' after found
      cases h
      exact ⟨r, after, rfl, found⟩
    · cases h

/-- No level is open at the beginning of a text. -/
theorem Reader.at_of_ofText {text : String} {limit : Nat} {r : Reader}
    (start : Reader.ofText text limit = .ok r) : r.At 0 limit :=
  ⟨Reader.sound_of_ofText start, Reader.depth_of_ofText start, Reader.limit_of_ofText start,
    Nat.zero_le _⟩

/-- A text that is read is read from its beginning, at depth 0. -/
theorem exists_reading_of_read {goal : Goal} {text : String} {limit : Nat} {tree : Tree}
    (h : read goal text limit = .ok tree) :
    ∃ r after, r.At 0 limit ∧ goal.reading r = .ok tree after := by
  obtain ⟨r, after, start, found⟩ := exists_ofText_of_read h
  exact ⟨r, after, Reader.at_of_ofText start, found⟩

/-- What a text is read as, in terms of a reader at its beginning. -/
theorem read_of_ok {goal : Goal} {text : String} {limit : Nat} {r after : Reader} {tree : Tree}
    (start : Reader.ofText text limit = .ok r) (h : goal.reading r = .ok tree after) :
    read goal text limit = .ok tree := by
  unfold read readWithEvents
  simp only [start, Reader.attempt, h]

/-- An error of a reading is the error of the text. -/
theorem read_of_error {goal : Goal} {text : String} {limit : Nat} {r after : Reader}
    {e : ReadError} (start : Reader.ofText text limit = .ok r)
    (h : goal.reading r = .error e after) : read goal text limit = .error e := by
  unfold read readWithEvents
  simp only [start, Reader.attempt, h]

/-- The end of a text is only looked at. -/
theorem eq_of_expectEnd {u : Unit} {r after : Reader} (h : expectEnd r = .ok u after) :
    after = r ∧ r.token = .endOfText := by
  change (if r.token = .endOfText then _ else _ : ReadM Unit) r = _ at h
  split at h
  · rename_i ended
    cases h
    exact ⟨rfl, ended⟩
  · cases h

/-- An expression that makes up a text is read up to its end. -/
theorem exists_expression_of_read {text : String} {limit : Nat} {tree : Tree}
    (h : read .expression text limit = .ok tree) :
    ∃ r x after, Reader.ofText text limit = .ok r ∧ expression r = .ok x after ∧
      after.token = .endOfText ∧ tree = .expression x := by
  obtain ⟨r, _, start, found⟩ := exists_ofText_of_read h
  obtain ⟨x, _, whole, returned⟩ := bind_eq_ok found
  obtain ⟨y, after, read, ends⟩ := bind_eq_ok whole
  obtain ⟨_, _, ended, same⟩ := bind_eq_ok ends
  cases same
  cases returned
  exact ⟨r, x, after, start, read, (eq_of_expectEnd ended).2, rfl⟩

theorem exists_of_isOk {ε α : Type} {x : Except ε α} (h : x.isOk = true) : ∃ a, x = .ok a := by
  cases x with
  | error e => cases h
  | ok a => exact ⟨a, rfl⟩

theorem exists_expression_of_isOk {text : String} {limit : Nat}
    (h : (read .expression text limit).isOk = true) :
    ∃ x, read .expression text limit = .ok (.expression x) := by
  cases found : read .expression text limit with
  | ok tree =>
    obtain ⟨_, x, _, _, _, _, rfl⟩ := exists_expression_of_read found
    exact ⟨x, rfl⟩
  | error e =>
    rw [found] at h
    cases h

/-- **The limit on nesting bounds the height of every tree**, whatever a text is read as. -/
theorem height_le_of_read {goal : Goal} {text : String} {limit : Nat} {tree : Tree}
    (h : read goal text limit = .ok tree) : tree.height ≤ limit := by
  obtain ⟨r, after, here, found⟩ := exists_reading_of_read h
  have low := (Goal.good_reading here found).2
  omega

/-- An `EXPLAIN`, a formula in quotes and a sub-select, under the least limit that has room. -/
theorem height_le_of_read_explain : ∃ tree,
    read .statement
      "EXPLAIN PLAN FOR WITH MEMBER m AS '-1 + x.y(,2)' SELECT \x7ba\x7d ON 0 FROM (SELECT FROM c)" 4 =
        .ok tree ∧ tree.height ≤ 4 := by
  obtain ⟨tree, found⟩ := exists_of_isOk (x := read .statement
    "EXPLAIN PLAN FOR WITH MEMBER m AS '-1 + x.y(,2)' SELECT \x7ba\x7d ON 0 FROM (SELECT FROM c)" 4)
    (by decide +kernel)
  exact ⟨tree, found, height_le_of_read found⟩

/-- **Every tree is well formed**, whatever a text is read as and under every limit. -/
theorem wellFormed_of_read {goal : Goal} {text : String} {limit : Nat} {tree : Tree}
    (h : read goal text limit = .ok tree) : tree.WellFormed := by
  obtain ⟨r, after, here, found⟩ := exists_reading_of_read h
  exact (Goal.good_reading here found).1

/-- Methods, arguments that were left out, accesses of all kinds, `AS`, `CASE` and `CAST`. -/
theorem wellFormed_of_read_accesses : ∃ tree,
    read .expression "f(,[a].&k.&[b], CASE WHEN x.y(,) THEN (CAST(1 AS t)).[n] END AS z)" 9 =
      .ok tree ∧ tree.WellFormed := by
  obtain ⟨tree, found⟩ := exists_of_isOk (x := read .expression
    "f(,[a].&k.&[b], CASE WHEN x.y(,) THEN (CAST(1 AS t)).[n] END AS z)" 9) (by decide +kernel)
  exact ⟨tree, found, wellFormed_of_read found⟩

end MdxReader
