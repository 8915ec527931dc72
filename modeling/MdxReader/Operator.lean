import MdxReader.Token

/-!
# Operators

The operators of MDX expressions with their binding strength, loosest first, and the tokens that
denote them.  A token before an operand and the same token after one can be different operators:
`-` negates or subtracts.
-/

namespace MdxReader

/-- An operator. -/
inductive Operator where
  /-- `x AS name` -/
  | named
  | or
  | xor
  /-- `a : b`, the members from `a` to `b`. -/
  | range
  | and
  | not
  | equal
  | notEqual
  | less
  | greater
  | lessEqual
  | greaterEqual
  /-- `a IS b`, the same object. -/
  | identical
  /-- `a IN b` -/
  | within
  /-- `a MATCHES b` -/
  | matching
  /-- `a NOT IN b` -/
  | notWithin
  /-- `a NOT MATCHES b` -/
  | notMatching
  | isNull
  | isNotNull
  | isEmpty
  | isNotEmpty
  | add
  | subtract
  | concat
  | multiply
  | divide
  | negate
  /-- `+a` -/
  | positive
  /-- `EXISTING a` -/
  | existing
  deriving DecidableEq

/-- Where an operator stands. -/
inductive Fixity where
  /-- In front of its operand. -/
  | before
  /-- Between its operands. -/
  | between
  /-- Behind its operand. -/
  | after
  deriving DecidableEq

/-- How operators of equal strength group. -/
inductive Associativity where
  | left
  | right
  deriving DecidableEq

namespace Operator

/-- Every operator, loosest first. -/
def all : List Operator := [
  named, or, xor, range, and, not, equal, notEqual, less, greater, lessEqual, greaterEqual,
  identical, within, matching, notWithin, notMatching, isNull, isNotNull, isEmpty, isNotEmpty,
  add, subtract, concat, multiply, divide, negate, positive, existing]

/-- The strength of comparisons and of the tests for null and empty. -/
def comparison : Nat := 5

/-- The strength of the signs and of `EXISTING`. -/
def unary : Nat := 8

/-- How strongly an operator binds. -/
def strength : Operator → Nat
  | named => 1
  | or | xor | range => 2
  | and => 3
  | not => 4
  | add | subtract | concat => 6
  | multiply | divide => 7
  | negate | positive | existing => unary
  | _ => comparison

theorem strength_pos (operator : Operator) : 0 < operator.strength := by
  cases operator <;> decide

/-- Where an operator stands: tests for null and empty come last, signs and negation first. -/
def fixity : Operator → Fixity
  | not | negate | positive | existing => .before
  | isNull | isNotNull | isEmpty | isNotEmpty => .after
  | _ => .between

/-- Operators in front of their operand group to the right, all others to the left. -/
def associativity (operator : Operator) : Associativity :=
  match operator.fixity with
  | .before => .right
  | _ => .left

/-- The name an operator has in a tree.  The negated ones have the name of what they negate. -/
def symbol : Operator → String
  | named => "AS" | or => "OR" | xor => "XOR" | range => ":" | and => "AND" | not => "NOT"
  | equal => "=" | notEqual => "<>" | less => "<" | greater => ">"
  | lessEqual => "<=" | greaterEqual => ">=" | identical => "IS"
  | within | notWithin => "IN"
  | matching | notMatching => "MATCHES"
  | isNull => "IS NULL" | isNotNull => "IS NOT NULL"
  | isEmpty => "IS EMPTY" | isNotEmpty => "IS NOT EMPTY"
  | add => "+" | subtract => "-" | concat => "||" | multiply => "*" | divide => "/"
  | negate => "-" | positive => "+" | existing => "EXISTING"

/-- The operators that a tree shows as `NOT` around their positive form. -/
def isNegated : Operator → Bool
  | notWithin | notMatching => true
  | _ => false

/-- The operator that a token denotes in front of an operand. -/
def leading? : Token → Option Operator
  | .symbol .minus => some negate
  | .symbol .plus => some positive
  | .keyword .NOT _ => some not
  | .keyword .EXISTING _ => some existing
  | _ => none

/-- The operator that a single token denotes behind an operand.  `IS` and `NOT` need one more token
and are not among them. -/
def following? : Token → Option Operator
  | .symbol .plus => some add
  | .symbol .minus => some subtract
  | .symbol .star => some multiply
  | .symbol .slash => some divide
  | .symbol .concat => some concat
  | .symbol .equal => some equal
  | .symbol .notEqual => some notEqual
  | .symbol .less => some less
  | .symbol .greater => some greater
  | .symbol .lessEqual => some lessEqual
  | .symbol .greaterEqual => some greaterEqual
  | .symbol .colon => some range
  | .keyword .OR _ => some or
  | .keyword .XOR _ => some xor
  | .keyword .AND _ => some and
  | .keyword .IN _ => some within
  | .keyword .MATCHES _ => some matching
  | .keyword .AS _ => some named
  | _ => none

end Operator

end MdxReader
