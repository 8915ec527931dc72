import MdxReader.Log
import MdxReader.Text.CharClass

/-!
# Checking texts

`check` reads a text as a statement or as an expression.  If it is not told which, it looks at the
first word: a text that begins with `WITH`, `SELECT`, `DRILLTHROUGH` or `EXPLAIN` is taken for a
statement.
-/

namespace MdxReader

open Text

/-- What a text is checked as. -/
inductive CheckMode where
  /-- Let the first word decide. -/
  | auto
  | expression
  | statement
  deriving DecidableEq

/-- What is to be checked, and how. -/
structure CheckRequest where
  text : String
  mode : CheckMode
  /-- Whether the tree is wanted, or only a verdict. -/
  wantsTree : Bool
  /-- The limit on nesting, if it is not the default. -/
  limit : Option Nat

/-- What a check yields. -/
inductive Verdict where
  | valid
  | tree (tree : Json)

/-- Why a command fails. -/
inductive CommandError where
  | unreadable (error : ReadError)
  /-- The input is not text. -/
  | notText
  | noInput
  | unknownTopic (name : String)

namespace CommandError

/-- The cause behind an error, in words. -/
def cause? : CommandError → Option String
  | unreadable e => some e.message
  | notText => some "stream did not contain valid UTF-8"
  | noInput | unknownTopic _ => none

/-- The message for the user. -/
def message : CommandError → String
  | unreadable e => "Parse error: " ++ e.message
  | notText => "IO error: stream did not contain valid UTF-8"
  | noInput => "No input provided. Pass MDX as an argument or pipe it to stdin."
  | unknownTopic name =>
    "Unknown category: '" ++ name ++ "'\nRun 'mdx docs' to see available categories."

end CommandError

/-! ### The first word -/

/-- A character is a capital letter of ASCII up to case.  The long s is a lower case of `S`. -/
def isLetter (capital c : Char) : Bool :=
  c.toUpper == capital || (capital == 'S' && c == 'ſ')

/-- The text behind a word, if it begins with that word up to case. -/
def afterWord? : List Char → List Char → Option (List Char)
  | [], text => some text
  | _ :: _, [] => none
  | capital :: word, c :: text => if isLetter capital c then afterWord? word text else none

/-- The text begins with the word, and the word ends there. -/
def beginsWith (text : List Char) (word : String) : Bool :=
  match afterWord? word.toList text with
  | none => false
  | some [] => true
  | some (c :: _) => !isWordPart c

/-- The first word is one that begins a statement. -/
def looksLikeStatement (text : String) : Bool :=
  let start := text.toList.dropWhile isBlank
  ["WITH", "SELECT", "DRILLTHROUGH", "EXPLAIN"].any (beginsWith start)

/-! ### Checking -/

/-- What the text of a request is read as. -/
def CheckRequest.isStatement (request : CheckRequest) : Bool :=
  match request.mode with
  | .auto => looksLikeStatement request.text
  | .expression => false
  | .statement => true

/-- Checks a text, with what is logged meanwhile.  A text of white space is no input. -/
def checkLogged (request : CheckRequest) : Except CommandError Verdict × List LogEvent :=
  if request.text.toList.all isBlank then (.error .noInput, [])
  else
    let statement := request.isStatement
    let goal := if statement then Goal.statement else .expression
    let (result, events) := readLogged goal request.text (request.limit.getD defaultLimit)
    let verdict := match result with
      | .error e => .error (.unreadable e)
      | .ok tree => .ok (if request.wantsTree then Verdict.tree tree.toJson else .valid)
    (verdict, .checking statement :: events)

/-- Checks a text. -/
def check (request : CheckRequest) : Except CommandError Verdict :=
  (checkLogged request).1

end MdxReader
