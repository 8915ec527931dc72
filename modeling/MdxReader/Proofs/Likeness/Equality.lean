import MdxReader.Proofs.Likeness.Statements

/-!
# From alike to equal

Trees that are alike are equal where only equal numbers are (`Tree.Like.eq`), and they are the same
by value where only numbers of one value are (`Tree.Like.same`).  Both go down the trees, with one
lemma for each kind of part.
-/

namespace MdxReader

variable {L : Likeness}

/-! ### Equality -/

/-- Only equal numbers are alike. -/
def Likeness.IsExact (L : Likeness) : Prop := ∀ d d', L.number d d' → d = d'

/-- Lists are equal if their members are, one by one. -/
theorem eq_of_forall₂ {α : Type} {rel : α → α → Prop} (equal : ∀ a b, rel a b → a = b)
    {xs xs' : List α} (h : List.Forall₂ rel xs xs') : xs = xs' := by
  have all : List.Forall₂ Eq xs xs' := h.imp equal
  rwa [List.forall₂_eq_eq_eq] at all

mutual

/-- Expressions that are alike are equal where only equal numbers are. -/
theorem Expr.Like.eq (exact : L.IsExact) {x x' : Expr} (h : x.Like L x') : x = x' := by
  cases h with
  | number value => rw [exact _ _ value]
  | call form name each => rw [Expr.eq_of_each exact each]
  | choice first each last =>
    rw [Expr.eq_of_option exact first, Expr.eq_of_branches exact each,
      Expr.eq_of_option exact last]
  | _ => rfl

/-- The arguments of calls that are alike, from the first on. -/
theorem Expr.eq_of_each (exact : L.IsExact) {xs xs' : List Expr}
    (h : List.Forall₂ (Expr.Like L) xs xs') : xs = xs' := by
  cases h with
  | nil => rfl
  | cons first later => rw [first.eq exact, Expr.eq_of_each exact later]

/-- The operand of a `CASE` or what stands behind `ELSE`, if there is one. -/
theorem Expr.eq_of_option (exact : L.IsExact) {x x' : Option Expr}
    (h : Option.Rel (Expr.Like L) x x') : x = x' := by
  cases h with
  | none => rfl
  | some expr => rw [expr.eq exact]

/-- The branches of a `CASE`, each with its condition and its result. -/
theorem Expr.eq_of_branches (exact : L.IsExact) {branches branches' : List (Expr × Expr)}
    (h : List.Forall₂ (Expr.BranchLike L) branches branches') : branches = branches' := by
  cases h with
  | nil => rfl
  | cons first later =>
    cases first with
    | mk condition result =>
      rw [condition.eq exact, result.eq exact, Expr.eq_of_branches exact later]

end

theorem MemberProperty.Like.eq (exact : L.IsExact) {a b : MemberProperty} (h : a.Like L b) :
    a = b := by
  cases a
  cases b
  rw [MemberProperty.mk.injEq]
  exact ⟨h.name, h.value.eq exact⟩

/-- A definition is its name, its formula and its properties. -/
theorem Definition.Like.eq (exact : L.IsExact) {a b : Definition} (h : a.Like L b) : a = b := by
  cases h with
  | member name formula each =>
    rw [formula.eq exact, eq_of_forall₂ (fun _ _ => MemberProperty.Like.eq exact) each]
  | set name formula => rw [formula.eq exact]

theorem AxisClause.Like.eq (exact : L.IsExact) {a b : AxisClause} (h : a.Like L b) : a = b := by
  cases a
  cases b
  rw [AxisClause.mk.injEq]
  exact ⟨h.nonEmpty, h.expr.eq exact, h.properties, h.axis⟩

theorem Projection.Like.eq (exact : L.IsExact) {a b : Projection} (h : a.Like L b) : a = b := by
  cases h with
  | axes each => rw [eq_of_forall₂ (fun _ _ => AxisClause.Like.eq exact) each]
  | _ => rfl

/-- The induction is on the sub-selects that are one inside the other. -/
theorem Source.Like.eq (exact : L.IsExact) {a b : Source} (h : a.Like L b) : a = b := by
  induction h with
  | cube name => rfl
  | subselect projection inner condition ih =>
    rw [projection.eq exact, ih, Expr.eq_of_option exact condition]

theorem Select.Like.eq (exact : L.IsExact) {a b : Select} (h : a.Like L b) : a = b := by
  cases a
  cases b
  have definitions := eq_of_forall₂ (fun _ _ => Definition.Like.eq exact) h.definitions
  rw [Select.mk.injEq]
  exact ⟨definitions, h.projection.eq exact, h.source.eq exact, Expr.eq_of_option exact h.slicer,
    h.cellProperties⟩

theorem RowsetQuery.Like.eq (exact : L.IsExact) {a b : RowsetQuery} (h : a.Like L b) : a = b := by
  cases a
  cases b
  rw [RowsetQuery.mk.injEq]
  exact ⟨h.columns, h.table, Expr.eq_of_option exact h.slicer⟩

theorem Drillthrough.Like.eq (exact : L.IsExact) {a b : Drillthrough} (h : a.Like L b) :
    a = b := by
  cases a
  cases b
  rw [Drillthrough.mk.injEq]
  exact ⟨h.maxRows, h.firstRowSet, h.select.eq exact, h.returned⟩

theorem Statement.Like.eq (exact : L.IsExact) {a b : Statement} (h : a.Like L b) : a = b := by
  induction h with
  | select query => rw [query.eq exact]
  | drillthrough query => rw [query.eq exact]
  | explain _ ih => rw [ih]
  | rowset query => rw [query.eq exact]

/-- **Trees that are alike are equal** where only equal numbers are alike. -/
theorem Tree.Like.eq (exact : L.IsExact) {a b : Tree} (h : a.Like L b) : a = b := by
  cases h with
  | expression expr => rw [expr.eq exact]
  | select query => rw [query.eq exact]
  | statement found => rw [found.eq exact]
  | cubeName name => rfl

/-! ### Equality by value -/

/-- Only numbers of one value are alike. -/
def Likeness.IsByValue (L : Likeness) : Prop := ∀ d d', L.number d d' → d.sameValue d' = true

/-- Lists are equal by value if their members are, one by one. -/
theorem sameList_of_forall₂ {α : Type} {rel : α → α → Prop} {same : α → α → Bool}
    (values : ∀ a b, rel a b → same a b = true) {xs xs' : List α} (h : List.Forall₂ rel xs xs') :
    sameList same xs xs' = true := by
  induction h with
  | nil => rfl
  | cons first _ ih => rw [sameList, values _ _ first, ih, Bool.and_self]

mutual

/-- Expressions that are alike are equal by value where numbers that are alike are. -/
theorem Expr.Like.same (values : L.IsByValue) {x x' : Expr} (h : x.Like L x') :
    x.same x' = true := by
  cases h with
  | number value => simp [Expr.same, values _ _ value]
  | call form name each => simp [Expr.same, Expr.same_of_each values each]
  | choice first each last =>
    simp [Expr.same, Expr.same_of_option values first, Expr.same_of_branches values each,
      Expr.same_of_option values last]
  | _ => simp [Expr.same]

/-- The arguments of calls are compared one by one, as the expressions are. -/
theorem Expr.same_of_each (values : L.IsByValue) {xs xs' : List Expr}
    (h : List.Forall₂ (Expr.Like L) xs xs') : Expr.sameAll xs xs' = true := by
  cases h with
  | nil => simp [Expr.sameAll]
  | cons first later =>
    simp [Expr.sameAll, first.same values, Expr.same_of_each values later]

/-- Either both are missing, or both are there and equal by value. -/
theorem Expr.same_of_option (values : L.IsByValue) {x x' : Option Expr}
    (h : Option.Rel (Expr.Like L) x x') : Expr.sameOption x x' = true := by
  cases h with
  | none => simp [Expr.sameOption]
  | some expr => simp [Expr.sameOption, expr.same values]

/-- Branches are compared by their conditions and by their results. -/
theorem Expr.same_of_branches (values : L.IsByValue) {branches branches' : List (Expr × Expr)}
    (h : List.Forall₂ (Expr.BranchLike L) branches branches') :
    Expr.sameBranches branches branches' = true := by
  cases h with
  | nil => simp [Expr.sameBranches]
  | cons first later =>
    cases first with
    | mk condition result =>
      simp [Expr.sameBranches, condition.same values, result.same values,
        Expr.same_of_branches values later]

end

theorem MemberProperty.Like.same (values : L.IsByValue) {a b : MemberProperty} (h : a.Like L b) :
    a.same b = true := by
  simp [MemberProperty.same, h.name, h.value.same values]

/-- The names of definitions are compared as they are. -/
theorem Definition.Like.same (values : L.IsByValue) {a b : Definition} (h : a.Like L b) :
    a.same b = true := by
  cases h with
  | member name formula each =>
    have properties := sameList_of_forall₂ (fun _ _ => MemberProperty.Like.same values) each
    simp [Definition.same, formula.same values, properties]
  | set name formula => simp [Definition.same, formula.same values]

theorem AxisClause.Like.same (values : L.IsByValue) {a b : AxisClause} (h : a.Like L b) :
    a.same b = true := by
  simp [AxisClause.same, h.nonEmpty, h.expr.same values, h.properties, h.axis]

theorem Projection.Like.same (values : L.IsByValue) {a b : Projection} (h : a.Like L b) :
    a.same b = true := by
  cases h with
  | axes each => exact sameList_of_forall₂ (fun _ _ => AxisClause.Like.same values) each
  | _ => rfl

/-- Cubes have equal names, and sub-selects equal parts by value. -/
theorem Source.Like.same (values : L.IsByValue) {a b : Source} (h : a.Like L b) :
    a.same b = true := by
  induction h with
  | cube name => simp [Source.same]
  | subselect projection inner condition ih =>
    simp [Source.same, projection.same values, ih, Expr.same_of_option values condition]

theorem Select.Like.same (values : L.IsByValue) {a b : Select} (h : a.Like L b) :
    a.same b = true := by
  have definitions := sameList_of_forall₂ (fun _ _ => Definition.Like.same values) h.definitions
  simp [Select.same, definitions, h.projection.same values, h.source.same values,
    Expr.same_of_option values h.slicer, h.cellProperties]

theorem RowsetQuery.Like.same (values : L.IsByValue) {a b : RowsetQuery} (h : a.Like L b) :
    a.same b = true := by
  simp [RowsetQuery.same, h.columns, h.table, Expr.same_of_option values h.slicer]

theorem Drillthrough.Like.same (values : L.IsByValue) {a b : Drillthrough} (h : a.Like L b) :
    a.same b = true := by
  simp [Drillthrough.same, h.maxRows, h.firstRowSet, h.select.same values, h.returned]

theorem Statement.Like.same (values : L.IsByValue) {a b : Statement} (h : a.Like L b) :
    a.same b = true := by
  induction h with
  | select query => exact query.same values
  | drillthrough query => exact query.same values
  | explain _ ih => exact ih
  | rowset query => exact query.same values

/-- **Trees that are alike are the same by value** where only numbers of one value are alike. -/
theorem Tree.Like.same (values : L.IsByValue) {a b : Tree} (h : a.Like L b) : a.same b = true := by
  cases h with
  | expression expr => exact expr.same values
  | select query => exact query.same values
  | statement found => exact found.same values
  | cubeName name => simp [Tree.same]

end MdxReader
