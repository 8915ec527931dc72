import MdxReader.Text.Case

/-!
# Keywords

The words with a meaning of their own in MDX.  Letter case does not matter.  Some of them are
*reserved*: they can only be used as a name in brackets.
-/

namespace MdxReader

/-- A keyword, named by its canonical spelling. -/
inductive Keyword where
  | AND | AS | AXIS | CASE | CAST | CELL | CHAPTERS | COLUMNS | CUBE | CURRENTCUBE | DIMENSION
  | DRILLTHROUGH | ELSE | EMPTY | END | EXISTING | EXPLAIN | FIRSTROWSET | FOR | FROM | IN | IS
  | MATCHES | MAXROWS | MEMBER | NON | NOT | NULL | ON | OR | PAGES | PLAN | PROPERTIES | RETURN
  | ROWS | SECTIONS | SELECT | SET | THEN | WHEN | WHERE | WITH | XOR
  deriving DecidableEq

namespace Keyword

/-- Every keyword, in alphabetical order. -/
def all : List Keyword := [
  AND, AS, AXIS, CASE, CAST, CELL, CHAPTERS, COLUMNS, CUBE, CURRENTCUBE, DIMENSION,
  DRILLTHROUGH, ELSE, EMPTY, END, EXISTING, EXPLAIN, FIRSTROWSET, FOR, FROM, IN, IS,
  MATCHES, MAXROWS, MEMBER, NON, NOT, NULL, ON, OR, PAGES, PLAN, PROPERTIES, RETURN,
  ROWS, SECTIONS, SELECT, SET, THEN, WHEN, WHERE, WITH, XOR]

/-- The canonical spelling. -/
def spelling : Keyword → String
  | AND => "AND" | AS => "AS" | AXIS => "AXIS" | CASE => "CASE" | CAST => "CAST"
  | CELL => "CELL" | CHAPTERS => "CHAPTERS" | COLUMNS => "COLUMNS" | CUBE => "CUBE"
  | CURRENTCUBE => "CURRENTCUBE" | DIMENSION => "DIMENSION" | DRILLTHROUGH => "DRILLTHROUGH"
  | ELSE => "ELSE" | EMPTY => "EMPTY" | END => "END" | EXISTING => "EXISTING"
  | EXPLAIN => "EXPLAIN" | FIRSTROWSET => "FIRSTROWSET" | FOR => "FOR" | FROM => "FROM"
  | IN => "IN" | IS => "IS" | MATCHES => "MATCHES" | MAXROWS => "MAXROWS" | MEMBER => "MEMBER"
  | NON => "NON" | NOT => "NOT" | NULL => "NULL" | ON => "ON" | OR => "OR" | PAGES => "PAGES"
  | PLAN => "PLAN" | PROPERTIES => "PROPERTIES" | RETURN => "RETURN" | ROWS => "ROWS"
  | SECTIONS => "SECTIONS" | SELECT => "SELECT" | SET => "SET" | THEN => "THEN" | WHEN => "WHEN"
  | WHERE => "WHERE" | WITH => "WITH" | XOR => "XOR"

/-- A reserved keyword is never a bare name. -/
def isReserved : Keyword → Bool
  | DIMENSION | EXPLAIN | FIRSTROWSET | FOR | MAXROWS | PLAN | PROPERTIES | RETURN => false
  | _ => true

/-- The keyword that a word spells, in any letter case of ASCII. -/
def ofWord? (word : String) : Option Keyword :=
  let canonical := Text.upperCase word
  all.find? fun keyword => keyword.spelling == canonical

/-- The reserved words in alphabetical order. -/
def reserved : List Keyword := all.filter isReserved

/-- A word that cannot be used as a bare name. -/
def isReservedWord (word : String) : Bool :=
  (ofWord? word).any isReserved

/-- The list of keywords is complete. -/
theorem mem_all (keyword : Keyword) : keyword ∈ all := by
  cases keyword <;> decide

theorem mem_reserved {keyword : Keyword} : keyword ∈ reserved ↔ keyword.isReserved = true := by
  simp [reserved, mem_all]

end Keyword

end MdxReader
