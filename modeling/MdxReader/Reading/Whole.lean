import MdxReader.Json.Tree
import MdxReader.Reading.Statement

/-!
# Reading whole texts

A text can be read as four things (`Goal`), each with its own kind of tree.  `read` reads a text
once; `Reader.attempts` lets one reader try several goals in turn, going on where the last one
stopped.
-/

namespace MdxReader

/-- What a text is read as. -/
inductive Goal where
  | expression
  | select
  | statement
  | cubeName
  deriving DecidableEq

/-- What reading yields. -/
inductive Tree where
  | expression (expr : Expr)
  | select (query : Select)
  | statement (statement : Statement)
  | cubeName (name : Name)

namespace Tree

/-- A tree as JSON, whatever it was read as. -/
def toJson : Tree → Json
  | expression expr => expr.toJson
  | select query => query.toJson
  | statement found => found.toJson
  | cubeName name => name.toJson

/-- Equality of trees, where numbers count by value. -/
def same : Tree → Tree → Bool
  | expression a, expression b => a.same b
  | select a, select b => a.same b
  | statement a, statement b => a.same b
  | cubeName a, cubeName b => a == b
  | _, _ => false

end Tree

/-- The reading that a goal asks for. -/
def Goal.reading [ExprReading] : Goal → ReadM Tree
  | expression => do return .expression (← ReadM.wholeExpression)
  | select => do return .select (← ReadM.wholeSelect)
  | statement => do return .statement (← ReadM.wholeStatement)
  | cubeName => do return .cubeName (← ReadM.wholeCubeName)

/-- The limit on nesting unless another one is asked for. -/
def defaultLimit : Nat := 256

namespace Reader

/-- Reads from where the reader stands. -/
def attempt (r : Reader) (goal : Goal) : Except ReadError Tree × Reader :=
  match goal.reading r with
  | .ok tree after => (.ok tree, after)
  | .error e after => (.error e, after)

/-- Reads one goal after another, going on after errors. -/
def attempts (r : Reader) : List Goal → List (Except ReadError Tree)
  | [] => []
  | goal :: goals =>
    let (result, after) := r.attempt goal
    result :: after.attempts goals

end Reader

/-- Reads a text from its beginning; what happened to the levels comes along in order. -/
def readWithEvents (goal : Goal) (text : String) (limit : Nat) :
    Except ReadError Tree × List LevelEvent :=
  match Reader.ofText text limit with
  | .error e => (.error e, [])
  | .ok r =>
    let (result, after) := r.attempt goal
    (result, after.events.reverse)

/-- Reads a text from its beginning. -/
def read (goal : Goal) (text : String) (limit : Nat) : Except ReadError Tree :=
  (readWithEvents goal text limit).1

end MdxReader
