import MdxReader.Token.Scan

/-!
# What can go wrong while reading

`ReadError` lists the causes; `ReadError.message` is the text for the user.
-/

namespace MdxReader

/-- What would have been right in place of an unexpected token. -/
inductive Expected where
  | expression
  | identifier
  | identifierAfterDot
  | key
  | symbol (symbol : Symbol)
  | keyword (keyword : Keyword)
  | commaOr (closing : Symbol)
  | nullOrEmpty
  | inOrMatches
  | whenElseOrEnd
  | memberOrSet
  | axis
  | axisNumber
  | countAfter (keyword : Keyword)
  | endOfText
  deriving DecidableEq

/-- What was expected, in words. -/
def Expected.describe : Expected → String
  | expression => "expression"
  | identifier => "identifier"
  | identifierAfterDot => "identifier after '.'"
  | key => "key"
  | symbol s => (Token.symbol s).describe
  | keyword k => "keyword " ++ k.spelling
  | commaOr closing => "',' or " ++ (Token.symbol closing).describe
  | nullOrEmpty => "NULL or EMPTY after IS NOT"
  | inOrMatches => "IN or MATCHES after NOT"
  | whenElseOrEnd => "WHEN, ELSE or END"
  | memberOrSet => "MEMBER or SET"
  | axis => "ON <axis>"
  | axisNumber => "non-negative integer axis number"
  | countAfter k => "non-negative integer after " ++ k.spelling
  | endOfText => "end of input"

/-- What was found in place of what was expected. -/
inductive Found where
  | token (token : Token)
  /-- The expression of an axis is over and no `ON` follows. -/
  | endOfAxis
  deriving DecidableEq

/-- How what was found is named in a message. -/
def Found.describe : Found → String
  | token t => t.describe
  | endOfAxis => "end of axis expression"

/-- Rules that a text can break although each of its tokens is in place. -/
inductive Rule where
  /-- Operators and operands fit together. -/
  | wellFormed
  /-- The statement is a `SELECT`. -/
  | selectOnly
  /-- A key of several parts follows an identifier. -/
  | keyAfterIdentifier
  /-- `CAST` has one expression. -/
  | singleCast
  /-- The number of an axis has 32 bits. -/
  | axisInRange (n : Nat)
  /-- A query of a schema rowset selects columns. -/
  | plainColumns
  deriving DecidableEq

/-- What is wrong where a rule is broken. -/
def Rule.complaint : Rule → String
  | wellFormed => "Malformed expression"
  | selectOnly => "Expected a SELECT statement"
  | keyAfterIdentifier => "A multi-part key can only follow an identifier"
  | singleCast => "CAST takes a single expression before AS"
  | axisInRange n => "Axis number " ++ toString n ++ " is out of range"
  | plainColumns => "Schema rowset queries select plain column names"

/-- Why a text cannot be read. -/
inductive ReadError where
  | scan (error : ScanError)
  | unexpected (expected : Expected) (found : Found) (place : Position)
  /-- A reserved word where a name is needed. -/
  | reservedWord (word : String) (place : Position)
  /-- `[]` where a name is needed. -/
  | emptyName (place : Position)
  /-- A cube name with a dot behind it. -/
  | dottedCubeName (place : Position)
  | broken (rule : Rule) (place : Position)
  /-- The nesting of the text, or of its tree, is over the limit. -/
  | tooDeep (limit : Nat)
  deriving DecidableEq

namespace ReadError

/-- Where the fault is, if it has a place. -/
def place? : ReadError → Option Position
  | scan e => some e.place
  | unexpected _ _ p | reservedWord _ p | emptyName p | dottedCubeName p | broken _ p => some p
  | tooDeep _ => none

/-- The message for the user. -/
def message : ReadError → String
  | scan e => e.message
  | unexpected expected found p =>
    "Expected " ++ expected.describe ++ ", got " ++ found.describe ++ " at " ++ p.describe
  | reservedWord word p =>
    "Reserved word '" ++ word ++ "' cannot be used as an identifier at " ++ p.describe ++
      "; write it as [" ++ word ++ "]"
  | emptyName p => "Empty bracketed identifier '[]' at " ++ p.describe
  | dottedCubeName p => "Cube name must be a single identifier segment at " ++ p.describe
  | broken rule p => rule.complaint ++ " at " ++ p.describe
  | tooDeep limit => "Nesting depth exceeds the limit of " ++ toString limit

end ReadError

end MdxReader
