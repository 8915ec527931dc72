import MdxReader.Decimal
import MdxReader.Identifier

/-!
# Expressions

The tree of an MDX expression.  Functions, methods, properties, operators, sets and tuples are all
*calls*: a name and arguments, with a `CallForm` that says how the call was written.
-/

namespace MdxReader

/-- How a call is written. -/
inductive CallForm where
  /-- `Name(a, b)` -/
  | function
  /-- `x.Name(a)`; the receiver is the first argument. -/
  | method
  /-- `x.Name` -/
  | property
  /-- `x.&Name`, and `x.[Name]` where `x` is no identifier. -/
  | quotedProperty
  /-- `x.[&Name]`, and `x.&[Name]` where `x` is no identifier. -/
  | keyProperty
  /-- An operator between two operands. -/
  | binary
  /-- An operator in front of its operand. -/
  | leading
  /-- An operator behind its operand. -/
  | trailing
  /-- A set in braces. -/
  | braces
  /-- A tuple in parentheses. -/
  | parentheses
  /-- `CAST(x AS Type)` -/
  | cast
  /-- A `CASE` laid out as one call, see `Expr.flatCase`. -/
  | cases
  /-- An argument that was left out. -/
  | elided
  deriving DecidableEq

/-- An expression. -/
inductive Expr where
  | number (value : Decimal)
  | string (value : String)
  /-- The type in `CAST(x AS Type)`. -/
  | typeName (name : String)
  | null
  | identifier (id : Identifier)
  | call (form : CallForm) (name : String) (args : List Expr)
  /-- `CASE [operand] WHEN .. THEN .. [ELSE ..] END`; a branch is a condition and a result. -/
  | choice (operand : Option Expr) (branches : List (Expr × Expr)) (otherwise : Option Expr)

namespace Expr

/-- What stands for an argument that was left out. -/
def elided : Expr := call .elided "" []

/-- The set of the given items. -/
def braces (items : List Expr) : Expr := call .braces "\x7b\x7d" items

/-- The tuple of the given items. -/
def tuple (items : List Expr) : Expr := call .parentheses "()" items

/-- A `CASE` as one call: the operand if there is one, then condition and result of each branch,
then the result of `ELSE` if there is one.  The name tells whether there is an operand. -/
def flatCase (operand : Option Expr) (branches : List (Expr × Expr)) (otherwise : Option Expr) :
    Expr :=
  let name := if operand.isSome then "_CaseMatch" else "_CaseTest"
  call .cases name
    (operand.toList ++ branches.flatMap (fun (condition, result) => [condition, result]) ++
      otherwise.toList)

/-! ### Equality by value -/

mutual

/-- Equality of expressions, where numbers count by value: `1.50` is the same as `1.5`. -/
def same : Expr → Expr → Bool
  | number a, number b => a.sameValue b
  | string a, string b => a == b
  | typeName a, typeName b => a == b
  | null, null => true
  | identifier a, identifier b => a == b
  | call form name args, call form' name' args' =>
    form == form' && name == name' && sameAll args args'
  | choice operand branches otherwise, choice operand' branches' otherwise' =>
    sameOption operand operand' && sameBranches branches branches' &&
      sameOption otherwise otherwise'
  | _, _ => false

/-- `same` for each pair of arguments. -/
def sameAll : List Expr → List Expr → Bool
  | [], [] => true
  | a :: as, b :: bs => same a b && sameAll as bs
  | _, _ => false

/-- `same` for each pair of branches. -/
def sameBranches : List (Expr × Expr) → List (Expr × Expr) → Bool
  | [], [] => true
  | (a, b) :: as, (a', b') :: bs => same a a' && same b b' && sameBranches as bs
  | _, _ => false

/-- `same` where an expression may be absent. -/
def sameOption : Option Expr → Option Expr → Bool
  | none, none => true
  | some a, some b => same a b
  | _, _ => false

end

end Expr

end MdxReader
