import MdxReader.Expr
import MdxReader.Operator
import MdxReader.Reading.Reader

/-!
# Levels of an expression

Every bracket, argument list, `CASE` and `CAST` opens a `Level`.  Inside a level, operands and the
operators that wait for their right operand are kept on two stacks, and an operator is applied once
one arrives that binds no tighter.  With each operand goes the height of its tree.
-/

namespace MdxReader

/-- An operand and the height of its tree.  Leaves have height 0. -/
structure Node where
  expr : Expr
  height : Nat

namespace Node

/-- A tree without branches. -/
def leaf (expr : Expr) : Node := ⟨expr, 0⟩

/-- A tree whose branches are at most `below` high. -/
def above (expr : Expr) (below : Nat) : Node := ⟨expr, below + 1⟩

@[simp] theorem height_leaf (expr : Expr) : (leaf expr).height = 0 := rfl

@[simp] theorem height_above (expr : Expr) (below : Nat) :
    (above expr below).height = below + 1 := rfl

end Node

/-- What is being read inside a `CASE`. -/
inductive CaseStage where
  | operand
  /-- The condition behind `WHEN`. -/
  | condition
  /-- The result behind `THEN`. -/
  | result (condition : Expr)
  /-- The result behind `ELSE`. -/
  | otherwise

/-- What holds items with commas between them. -/
inductive Bracket where
  /-- `( .. )`: one item is grouping, more are a tuple. -/
  | parens
  | braces
  | function (name : String)
  | method (receiver : Expr) (name : String)

namespace Bracket

/-- The kind of level that a bracket makes. -/
def kind : Bracket → LevelKind
  | parens => .parens
  | braces => .braces
  | function _ => .function
  | method _ _ => .method

/-- The symbol that ends the items. -/
def closing : Bracket → Symbol
  | braces => .closeBrace
  | _ => .closeParen

/-- Items may be left out. -/
def hasArguments : Bracket → Bool
  | function _ | method _ _ => true
  | _ => false

/-- The expression that a bracket and its items make; `height` is that of the tallest item. -/
def node (bracket : Bracket) (items : List Expr) (height : Nat) : Node :=
  match bracket, items with
  | parens, [item] => ⟨item, height⟩
  | parens, items => .above (.tuple items) height
  | braces, items => .above (.braces items) height
  | function name, args => .above (.call .function name args) height
  | method receiver name, args => .above (.call .method name (receiver :: args)) height

end Bracket

/-- What a level is part of. -/
inductive Frame where
  /-- The whole expression. -/
  | whole
  /-- The items that were read are kept newest first. -/
  | items (bracket : Bracket) (items : List Expr)
  | cast
  | case (operand : Option Expr) (branches : List (Expr × Expr)) (stage : CaseStage)

/-- The kind of level that a frame makes. -/
def Frame.kind : Frame → LevelKind
  | whole => .whole
  | items bracket _ => bracket.kind
  | cast => .cast
  | case _ _ _ => .case

/-- The next item of the frame may be left out. -/
def Frame.hasArguments : Frame → Bool
  | items bracket _ => bracket.hasArguments
  | _ => false

/-- An expression under construction.  Both stacks have the newest entry first. -/
structure Level where
  frame : Frame
  operands : List Node
  operators : List Operator
  /-- The height of the tallest item the frame holds. -/
  height : Nat

namespace Level

/-- A level without operands. -/
def start (frame : Frame) (height : Nat) : Level := ⟨frame, [], [], height⟩

/-- Nothing was read yet, and the argument may be left out. -/
def acceptsGap (level : Level) : Bool :=
  level.frame.hasArguments && level.operands.isEmpty && level.operators.isEmpty

/-- The level with one more operand. -/
def push (level : Level) (node : Node) : Level :=
  { level with operands := node :: level.operands }

/-- The level with one more operator that waits. -/
def pushOperator (level : Level) (operator : Operator) : Level :=
  { level with operators := operator :: level.operators }

/-- The height of the newest operand. -/
def newestHeight (level : Level) : Nat :=
  match level.operands with
  | node :: _ => node.height
  | [] => 0

end Level

/-- Replaces the newest operands by the call of an operator on them. -/
def Operator.applied? (operator : Operator) (operands : List Node) : Option (List Node) :=
  match operator.fixity, operands with
  | .before, node :: rest =>
    some (.above (.call .leading operator.symbol [node.expr]) node.height :: rest)
  | .after, node :: rest =>
    some (.above (.call .trailing operator.symbol [node.expr]) node.height :: rest)
  | .between, right :: left :: rest =>
    let joined : Node :=
      .above (.call .binary operator.symbol [left.expr, right.expr]) (max left.height right.height)
    if operator.isNegated then
      some (.above (.call .leading Operator.not.symbol [joined.expr]) joined.height :: rest)
    else some (joined :: rest)
  | _, _ => none

/-- A waiting operator is applied before one of the given strength is read. -/
def Operator.yields (waiting : Operator) (strength : Nat) : Associativity → Bool
  | .left => strength ≤ waiting.strength
  | .right => strength < waiting.strength

/-- Applies the waiting operators, newest first, as long as they yield. -/
def reduce? (strength : Nat) (associativity : Associativity) :
    List Operator → List Node → Option (List Operator × List Node)
  | [], operands => some ([], operands)
  | operator :: waiting, operands =>
    if operator.yields strength associativity then
      match operator.applied? operands with
      | some reduced => reduce? strength associativity waiting reduced
      | none => none
    else some (operator :: waiting, operands)

namespace Level

/-- The level after the waiting operators that yield were applied. -/
def reduce? (level : Level) (strength : Nat) (associativity : Associativity) : Option Level :=
  (MdxReader.reduce? strength associativity level.operators level.operands).map
    fun (operators, operands) => { level with operators, operands }

/-- The single operand that is left once all operators are applied. -/
def finish? (level : Level) : Option Node :=
  match level.reduce? 0 .left with
  | some ⟨_, [node], _, _⟩ => some node
  | _ => none

end Level

end MdxReader
