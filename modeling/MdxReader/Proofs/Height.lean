import MdxReader.Reading.Whole

/-!
# The height of a tree

How deep the parts of a tree are nested, which is what the limit on nesting is about.  Literals,
identifiers and arguments that were left out have height 0, and every other expression stands one
above its highest part.  Of the statements, `EXPLAIN` and sub-selects count.
-/

namespace MdxReader

/-- The greatest of the heights of some things. -/
def highest {α : Type} (height : α → Nat) : List α → Nat
  | [] => 0
  | a :: as => max (height a) (highest height as)

theorem highest_le_iff {α : Type} {height : α → Nat} {as : List α} {bound : Nat} :
    highest height as ≤ bound ↔ ∀ a ∈ as, height a ≤ bound := by
  induction as with
  | nil => simp [highest]
  | cons a as ih => simp only [highest, Nat.max_le, ih, List.forall_mem_cons]

/-! ### Expressions -/

namespace Expr

mutual

/-- The height of an expression. -/
def height : Expr → Nat
  | number _ | string _ | typeName _ | null | identifier _ => 0
  | call form _ args => if form = .elided then 0 else heightAll args + 1
  | choice operand branches otherwise =>
    max (heightOption operand) (max (heightBranches branches) (heightOption otherwise)) + 1

/-- The height of the highest argument. -/
def heightAll : List Expr → Nat
  | [] => 0
  | x :: xs => max (height x) (heightAll xs)

/-- The height of the highest condition or result. -/
def heightBranches : List (Expr × Expr) → Nat
  | [] => 0
  | (condition, result) :: branches =>
    max (max (height condition) (height result)) (heightBranches branches)

/-- The height of an expression that may be absent. -/
def heightOption : Option Expr → Nat
  | none => 0
  | some x => height x

end

/-- The bound on a list is the bound on each of its members. -/
theorem heightAll_le_iff {xs : List Expr} {bound : Nat} :
    heightAll xs ≤ bound ↔ ∀ x ∈ xs, x.height ≤ bound := by
  induction xs with
  | nil => simp [heightAll]
  | cons x xs ih => simp only [heightAll, Nat.max_le, ih, List.forall_mem_cons]

/-- Both parts of every branch count. -/
theorem heightBranches_le_iff {branches : List (Expr × Expr)} {bound : Nat} :
    heightBranches branches ≤ bound ↔
      ∀ branch ∈ branches, branch.1.height ≤ bound ∧ branch.2.height ≤ bound := by
  induction branches with
  | nil => simp [heightBranches]
  | cons branch branches ih => simp only [heightBranches, Nat.max_le, ih, List.forall_mem_cons]

/-- What is missing has no height. -/
theorem heightOption_le_iff {x : Option Expr} {bound : Nat} :
    heightOption x ≤ bound ↔ ∀ y ∈ x, y.height ≤ bound := by
  cases x <;> simp [heightOption]

/-- A call is at most one higher than its arguments. -/
theorem height_call_le {form : CallForm} {name : String} {args : List Expr} {bound : Nat}
    (below : ∀ x ∈ args, x.height ≤ bound) : (call form name args).height ≤ bound + 1 := by
  have all := heightAll_le_iff.mpr below
  unfold height
  split
  · exact Nat.zero_le _
  · exact Nat.succ_le_succ all

end Expr

/-! ### Statements -/

namespace MemberProperty

/-- The height of the value. -/
def height (property : MemberProperty) : Nat := property.value.height

end MemberProperty

/-- The height of the formula and of the values that come with it. -/
def Definition.height : Definition → Nat
  | member _ formula properties => max formula.height (highest MemberProperty.height properties)
  | set _ formula => formula.height

/-- The height of the expression on an axis. -/
def AxisClause.height (clause : AxisClause) : Nat := clause.expr.height

/-- The height of the highest axis. -/
def Projection.height : Projection → Nat
  | empty | asterisk => 0
  | axes clauses => highest AxisClause.height clauses

/-- A sub-select stands one above what it holds. -/
def Source.height : Source → Nat
  | cube _ => 0
  | subselect projection source slicer =>
    max projection.height (max (Expr.heightOption slicer) source.height) + 1

/-- The height of the highest definition, axis, slicer or source. -/
def Select.height (query : Select) : Nat :=
  max (highest Definition.height query.definitions)
    (max query.projection.height (max (Expr.heightOption query.slicer) query.source.height))

/-- The height of a statement: `EXPLAIN` stands one above what it explains. -/
def Statement.height : Statement → Nat
  | select query => query.height
  | drillthrough query => query.select.height
  | explain statement => statement.height + 1
  | rowset query => Expr.heightOption query.slicer

/-- The height of what a text was read as. -/
def Tree.height : Tree → Nat
  | expression x => x.height
  | select query => query.height
  | statement found => found.height
  | cubeName _ => 0

end MdxReader
