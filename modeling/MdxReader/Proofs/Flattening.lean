import MdxReader.Expr

/-!
# Flattened `CASE`s

A `CASE` that is laid out as one call (`Expr.flatCase`) has all its parts behind one another, with
nothing between them to say what they are.  They can be told apart all the same.  The name says
whether there is an operand; behind it conditions and results take turns, and a last argument that
has no partner is the result of `ELSE`.  `Expr.unflatten` reads the parts off the name and the
arguments alone, so two calls are the same exactly if the `CASE`s they were made of are
(`Expr.flatCase_lossless`).
-/

namespace MdxReader

namespace Expr

/-- Conditions and results that take turns, and what is left over at the end. -/
def turns : List Expr → List (Expr × Expr) × Option Expr
  | condition :: result :: later => ((condition, result) :: (turns later).1, (turns later).2)
  | [otherwise] => ([], some otherwise)
  | [] => ([], none)

/-- The operand, the branches and the result of `ELSE` that a flattened `CASE` was made of. -/
def unflatten (name : String) (args : List Expr) :
    Option Expr × List (Expr × Expr) × Option Expr :=
  if name = "_CaseMatch" then (args.head?, turns args.tail) else (none, turns args)

/-- The branches of a `CASE` and the result of its `ELSE`, one behind the other. -/
def laidOut (branches : List (Expr × Expr)) (otherwise : Option Expr) : List Expr :=
  branches.flatMap (fun (condition, result) => [condition, result]) ++ otherwise.toList

theorem laidOut_cons (condition result : Expr) (branches : List (Expr × Expr))
    (otherwise : Option Expr) :
    laidOut ((condition, result) :: branches) otherwise =
      condition :: result :: laidOut branches otherwise := rfl

/-- The arguments of a flattened `CASE`, with its name. -/
theorem flatCase_eq (operand : Option Expr) (branches : List (Expr × Expr))
    (otherwise : Option Expr) :
    flatCase operand branches otherwise =
      call .cases (if operand.isSome then "_CaseMatch" else "_CaseTest")
        (operand.toList ++ laidOut branches otherwise) := by
  unfold flatCase laidOut
  rw [List.append_assoc]

/-! ### Telling the parts apart -/

/-- Conditions and results take turns, and an odd one at the end stands behind `ELSE`. -/
theorem turns_laidOut (branches : List (Expr × Expr)) (otherwise : Option Expr) :
    turns (laidOut branches otherwise) = (branches, otherwise) := by
  induction branches with
  | nil => cases otherwise <;> rfl
  | cons branch branches ih =>
    obtain ⟨condition, result⟩ := branch
    rw [laidOut_cons, turns, ih]

/-- The name tells whether there is an operand in front of the branches. -/
theorem unflatten_flatCase (operand : Option Expr) (branches : List (Expr × Expr))
    (otherwise : Option Expr) :
    unflatten (if operand.isSome then "_CaseMatch" else "_CaseTest")
      (operand.toList ++ laidOut branches otherwise) = (operand, branches, otherwise) := by
  have parts := turns_laidOut branches otherwise
  cases operand with
  | none =>
    -- A searched `CASE` begins with its first condition.
    have searched : ¬ "_CaseTest" = "_CaseMatch" := by decide
    rw [unflatten, Option.isSome_none, if_neg (by decide : ¬ false = true), if_neg searched,
      Option.toList_none, List.nil_append, parts]
  | some operand =>
    rw [unflatten, Option.isSome_some, if_pos rfl, if_pos rfl, Option.toList_some,
      List.singleton_append, List.head?_cons, List.tail_cons, parts]

/-! ### Equality by value -/

/-- What is laid out is the same, argument by argument, exactly if the parts are. -/
theorem sameAll_laidOut (branches branches' : List (Expr × Expr))
    (otherwise otherwise' : Option Expr) :
    sameAll (laidOut branches otherwise) (laidOut branches' otherwise') =
      (sameBranches branches branches' && sameOption otherwise otherwise') := by
  induction branches generalizing branches' with
  | nil =>
    cases branches' with
    | nil =>
      cases otherwise <;> cases otherwise' <;>
        simp [laidOut, sameAll, sameBranches, sameOption]
    | cons branch branches' =>
      -- At most one argument on the left, and at least two on the right.
      obtain ⟨condition, result⟩ := branch
      cases otherwise <;> simp [laidOut, sameAll, sameBranches]
  | cons branch branches ih =>
    obtain ⟨condition, result⟩ := branch
    cases branches' with
    | nil => cases otherwise' <;> simp [laidOut, sameAll, sameBranches]
    | cons branch' branches' =>
      obtain ⟨condition', result'⟩ := branch'
      rw [laidOut_cons, laidOut_cons, sameAll, sameAll, ih, sameBranches]
      simp only [Bool.and_assoc]

/-- Equality by value sees as much of the flat form as of the tree. -/
theorem same_flatCase (operand operand' : Option Expr) (branches branches' : List (Expr × Expr))
    (otherwise otherwise' : Option Expr) :
    (flatCase operand branches otherwise).same (flatCase operand' branches' otherwise') =
      (choice operand branches otherwise).same (choice operand' branches' otherwise') := by
  have parts := sameAll_laidOut branches branches' otherwise otherwise'
  rw [flatCase_eq, flatCase_eq, same, same]
  cases operand <;> cases operand' <;> simp [sameAll, sameOption, parts, Bool.and_assoc]

/-- **Flattening a `CASE` loses nothing.**  Its operand, its branches in order and the result of its
`ELSE` are read off the name and the arguments of the call.  So two calls are equal exactly if the
`CASE`s are, part by part; and likewise if numbers count by value. -/
theorem flatCase_lossless (operand operand' : Option Expr) (branches branches' : List (Expr × Expr))
    (otherwise otherwise' : Option Expr) :
    (∃ name args, flatCase operand branches otherwise = call .cases name args ∧
      unflatten name args = (operand, branches, otherwise)) ∧
    (flatCase operand branches otherwise = flatCase operand' branches' otherwise' ↔
      choice operand branches otherwise = choice operand' branches' otherwise') ∧
    (flatCase operand branches otherwise).same (flatCase operand' branches' otherwise') =
      (choice operand branches otherwise).same (choice operand' branches' otherwise') := by
  refine ⟨⟨_, _, flatCase_eq _ _ _, unflatten_flatCase _ _ _⟩, ⟨fun equal => ?_, fun equal => ?_⟩,
    same_flatCase _ _ _ _ _ _⟩
  · -- Equal calls have equal parts, since the parts are a function of the call.
    rw [flatCase_eq, flatCase_eq, call.injEq] at equal
    obtain ⟨-, names, arguments⟩ := equal
    have parts := unflatten_flatCase operand branches otherwise
    rw [names, arguments, unflatten_flatCase] at parts
    obtain ⟨rfl, rfl, rfl⟩ : operand' = operand ∧ branches' = branches ∧
        otherwise' = otherwise := by
      simpa using parts
    rfl
  · obtain ⟨rfl, rfl, rfl⟩ := choice.inj equal
    rfl

end Expr

end MdxReader
