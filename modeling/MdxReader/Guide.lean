import MdxReader.Text.Case

/-!
# The guide

Help texts on the language: an overview and four topics.
-/

namespace MdxReader

/-- A topic of the guide. -/
inductive Topic where
  | lexical
  | identifiers
  | operators
  | statements
  deriving DecidableEq

namespace Guide

/-- A text of several lines, each with its end. -/
def textOf (lines : List String) : String :=
  String.join (lines.map (·.push '\n'))

/-- The overview of all topics. -/
def overview : String :=
  textOf [
    "MDX DOCUMENTATION",
    "",
    "MDX (Multidimensional Expressions) queries OLAP cubes. A query picks sets of",
    "members for each axis, names the cube, and optionally slices it with a",
    "WHERE tuple.",
    "",
    "DOCUMENTATION CATEGORIES",
    "",
    "  syntax            Comments, literals, keywords, and reserved words",
    "  identifiers       Bracketed names, member keys, and compound identifiers",
    "  operators         Operator precedence, CASE, CAST, and calls",
    "  statements        SELECT, WITH, sub-selects, DRILLTHROUGH, EXPLAIN, DMV",
    "",
    "QUICK REFERENCE",
    "",
    "  [Measures].[Sales]          Compound identifier",
    "  [Time].&[2024]              Member by key",
    "  \x7b a, b \x7d                    Set",
    "  ( a, b )                    Tuple",
    "  x.Children  x.Lag(1)        Property and method",
    "  a : b                       Range",
    "",
    "Run 'mdx doc <category>' for detailed documentation.",
    "Run 'mdx check \"<mdx>\"' to validate a query or expression."]

/-- Comments, literals and keywords. -/
def lexicalText : String :=
  textOf [
    "SYNTAX - Lexical Rules",
    "",
    "COMMENTS",
    "  // to end of line",
    "  -- to end of line",
    "  /* block */",
    "    Block comments must be closed before the end of input.",
    "",
    "KEYWORDS",
    "  Keywords are case-insensitive: select, SELECT and Select are the same.",
    "",
    "  Reserved words cannot be used as bare identifiers. Write them in brackets",
    "  instead, for example [Cube] or [Set]:",
    "",
    "    AND AS AXIS CASE CAST CELL CHAPTERS COLUMNS CUBE CURRENTCUBE",
    "    DRILLTHROUGH ELSE EMPTY END EXISTING FROM IN IS MATCHES MEMBER NON",
    "    NOT NULL ON OR PAGES ROWS SECTIONS SELECT SET THEN WHEN WHERE WITH XOR",
    "",
    "  Other keywords (DIMENSION, PROPERTIES, EXPLAIN, PLAN, FOR, MAXROWS,",
    "  FIRSTROWSET, RETURN) are also valid identifiers.",
    "",
    "NUMBERS",
    "  42   10.25   1e6   10e-5",
    "    Numbers are exact decimals. A leading minus sign is the negation",
    "    operator, not part of the literal: -10.25 is NEGATE(10.25).",
    "",
    "STRINGS",
    "  \"double quoted\"   'single quoted'",
    "    A doubled quote inside a string stands for one quote: \"say \"\"hi\"\"\".",
    "",
    "NULL",
    "  NULL",
    "    The null literal, in any letter case."]

/-- Names, keys and what follows a dot. -/
def identifierText : String :=
  textOf [
    "IDENTIFIERS - Names and Keys",
    "",
    "NAMES",
    "  Sales           Unquoted name",
    "  [Unit Sales]    Bracketed name; may contain spaces and punctuation",
    "  [a]]b]          A doubled ] inside brackets stands for one ]",
    "",
    "    Constraints:",
    "      - [] is not a valid name",
    "      - Reserved words must be bracketed",
    "",
    "COMPOUND IDENTIFIERS",
    "  [Time].[2024].[Q1]",
    "    Dot-separated segments form one identifier.",
    "",
    "MEMBER KEYS",
    "  [Time].&[2024]",
    "  [Time].&[2024]&[Q1]",
    "    An ampersand introduces a member key. Adjacent key parts make up a",
    "    composite key and form a single segment.",
    "",
    "PROPERTIES AND METHODS",
    "  [Product].Children            Property",
    "  [Time].[2024].Lag(1)          Method; the receiver is the first argument",
    "  [Time].[2024].Lag()           Method with an empty argument",
    "  x.&Caption                    Quoted property",
    "  ([a], [b]).[Caption]          Bracketed property of a non-identifier",
    "",
    "CUBE NAMES",
    "  FROM [Sales]",
    "    A cube name is a single segment. [Sales].[Cube] is rejected."]

/-- Precedence, sets, calls, `CASE` and `CAST`. -/
def operatorText : String :=
  textOf [
    "OPERATORS - Precedence and Forms",
    "",
    "PRECEDENCE (loosest first)",
    "  AS                                    Alias",
    "  OR  XOR  :                            Disjunction, range",
    "  AND                                   Conjunction",
    "  NOT                                   Prefix negation",
    "  =  <>  <  >  <=  >=  IS  IN  MATCHES  Comparison",
    "  NOT IN  NOT MATCHES",
    "  IS NULL  IS NOT NULL  IS EMPTY  IS NOT EMPTY",
    "  +  -  ||                              Additive, concatenation",
    "  *  /                                  Multiplicative",
    "  -  +  EXISTING                        Unary prefix",
    "",
    "    Operators of equal precedence group to the left:",
    "      a - b - c   is   (a - b) - c",
    "",
    "SETS AND TUPLES",
    "  \x7b a, b, c \x7d     Set",
    "  \x7b\x7d              Empty set",
    "  ( a, b )        Tuple",
    "  ( a )           Grouping only",
    "",
    "CALLS",
    "  Filter([Customers].Members, [Measures].[Sales] > 0)",
    "  IIf(a, , c)",
    "    Function arguments may be left out; the gap becomes an empty argument.",
    "",
    "CASE",
    "  CASE x WHEN 1 THEN \"one\" WHEN 2 THEN \"two\" ELSE \"many\" END",
    "  CASE WHEN a > 0 THEN \"pos\" ELSE \"neg\" END",
    "",
    "CAST",
    "  CAST(expression AS TYPE)",
    "    TYPE is an identifier such as Integer or String."]

/-- Queries and the statements around them. -/
def statementText : String :=
  textOf [
    "STATEMENTS - Queries",
    "",
    "SELECT",
    "  SELECT",
    "    NON EMPTY \x7b[Measures].[Unit Sales]\x7d ON COLUMNS,",
    "    [Product].Children DIMENSION PROPERTIES [Product].[Name] ON ROWS",
    "  FROM [Sales]",
    "  WHERE ([Time].[2024])",
    "  CELL PROPERTIES VALUE, FORMATTED_VALUE",
    "",
    "  Axes: COLUMNS, ROWS, PAGES, CHAPTERS, SECTIONS, a number, or AXIS(n).",
    "  Axis numbers 0 to 4 are the same as the named axes.",
    "",
    "  SELECT * FROM [Sales]       All measures",
    "  SELECT FROM [Sales]         Default member only",
    "",
    "CALCULATED MEMBERS AND NAMED SETS",
    "  WITH",
    "    MEMBER [Measures].[Profit] AS [Measures].[Sales] - [Measures].[Cost],",
    "      FORMAT_STRING = \"#,##0.00\", SOLVE_ORDER = 1",
    "    SET [Top10] AS TopCount([Product].Members, 10, [Measures].[Sales])",
    "  SELECT ...",
    "",
    "    A formula written as a single-quoted string is parsed as MDX:",
    "      MEMBER [Measures].[X] AS '[Measures].[Sales] * 2'",
    "",
    "SUB-SELECTS",
    "  SELECT ... FROM (SELECT \x7b[Time].[2024]\x7d ON COLUMNS FROM [Sales])",
    "",
    "DRILLTHROUGH",
    "  DRILLTHROUGH MAXROWS 100 FIRSTROWSET 1",
    "  SELECT ... FROM [Sales]",
    "  RETURN [Measures].[Unit Sales], [Customer].[Name]",
    "",
    "EXPLAIN",
    "  EXPLAIN PLAN FOR SELECT ... FROM [Sales]",
    "",
    "SCHEMA ROWSETS",
    "  SELECT * FROM $SYSTEM.MDSCHEMA_CUBES WHERE CUBE_NAME = 'Sales'",
    "  SELECT CUBE_NAME, LAST_DATA_UPDATE FROM $SYSTEM.MDSCHEMA_CUBES",
    "",
    "A trailing semicolon is allowed after any statement."]

end Guide

namespace Topic

/-- The topic of a name, in any letter case.  Lowering the letters of ASCII is enough: the only
other character that becomes one of them is the Kelvin sign, and no name has a `k`. -/
def ofName? (name : String) : Option Topic :=
  let lowered := Text.lowerCase name
  if ["syntax", "lexical"].contains lowered then some lexical
  else if ["identifiers", "identifier", "names"].contains lowered then some identifiers
  else if ["operators", "ops"].contains lowered then some operators
  else if ["statements", "statement", "select"].contains lowered then some statements
  else none

/-- What the guide says on a topic. -/
def text : Topic → String
  | lexical => Guide.lexicalText
  | identifiers => Guide.identifierText
  | operators => Guide.operatorText
  | statements => Guide.statementText

end Topic

end MdxReader
