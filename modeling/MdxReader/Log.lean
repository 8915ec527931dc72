import MdxReader.Reading.Whole

/-!
# What is logged

Reading a text under the default limit is logged from beginning to end; under another limit only
what happens to the levels is.
-/

namespace MdxReader

/-- An event worth logging. -/
inductive LogEvent where
  /-- A text of so many bytes is about to be read. -/
  | started (goal : Goal) (bytes : Nat)
  | finished (goal : Goal)
  | failed (goal : Goal) (error : ReadError)
  /-- A text is about to be checked, as a statement or as an expression. -/
  | checking (statement : Bool)
  | level (event : LevelEvent)

/-- How a goal is called in the log. -/
def Goal.name : Goal → String
  | expression => "expression"
  | select => "select"
  | statement => "statement"
  | cubeName => "cube name"

namespace LogEvent

/-- The message of an event. -/
def message : LogEvent → String
  | started _ _ => "parsing MDX"
  | finished _ => "parsed MDX"
  | failed _ _ => "MDX parse failed"
  | checking _ => "checking MDX"
  | level (.opened _ _) => "open"
  | level (.closed _) => "close"

/-- How much an event matters. -/
def severity : LogEvent → String
  | level _ => "TRACE"
  | _ => "DEBUG"

/-- The details of an event, with their names. -/
def details : LogEvent → List (String × Json)
  | started goal bytes => [("kind", .string goal.name), ("len", .number bytes)]
  | finished goal => [("kind", .string goal.name)]
  | failed goal error => [("error", .string error.message), ("kind", .string goal.name)]
  | checking statement => [("statement", .bool statement)]
  | level (.opened kind depth) => [("depth", .number depth), ("frame", .string kind.name)]
  | level (.closed depth) => [("depth", .number depth)]

end LogEvent

/-- Reads a text under a limit, with what is logged meanwhile. -/
def readLogged (goal : Goal) (text : String) (limit : Nat) :
    Except ReadError Tree × List LogEvent :=
  let (result, events) := readWithEvents goal text limit
  (result, events.map .level)

/-- Reads a text under the default limit, with what is logged. -/
def readFullyLogged (goal : Goal) (text : String) : Except ReadError Tree × List LogEvent :=
  let (result, events) := readLogged goal text defaultLimit
  let last := match result with
    | .ok _ => LogEvent.finished goal
    | .error e => .failed goal e
  (result, LogEvent.started goal text.utf8ByteSize :: events ++ [last])

end MdxReader
