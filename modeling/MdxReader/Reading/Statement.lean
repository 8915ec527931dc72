import MdxReader.Reading.Expression
import MdxReader.Statement

/-!
# Reading statements

`EXPLAIN` marks are counted and put around the statement afterwards.  Sub-selects are read inward,
each `(SELECT .. FROM` onto a stack, down to the name of a cube, and closed outward.  So nesting
costs no recursion; `Reader.depth` keeps count of it.

What a query selects is judged only after `FROM`: the items are axes for a cube, and columns for a
schema rowset.

A statement has many expressions in it, quoted formulas among them.  All readings here leave open
how those are read (`ExprReading`), and the one that is applied where nothing else is said is
`ReadM.expression` (`ExprReading.plain`).
-/

namespace MdxReader

/-- An axis or a column; which of them is not known before `FROM`. -/
structure Item where
  nonEmpty : Bool
  expr : Expr
  properties : List Identifier
  axis : Option Axis
  /-- Where the item ends, its axis not counted. -/
  stop : Position

/-- What a query selects. -/
inductive Selection where
  | asterisk
  | items (items : List Item)

namespace Selection

/-- The axes of items, each of which needs one; `clauses` are those before, newest first. -/
def axisClauses (clauses : List AxisClause) : List Item → Except ReadError (List AxisClause)
  | [] => .ok clauses.reverse
  | item :: later =>
    match item.axis with
    | some axis =>
      axisClauses (⟨item.nonEmpty, item.expr, item.properties, axis⟩ :: clauses) later
    | none => .error (.unexpected .axis .endOfAxis item.stop)

/-- What a query of a cube selects. -/
def projection : Selection → Except ReadError Projection
  | asterisk => .ok .asterisk
  | items [] => .ok .empty
  | items (item :: more) => (axisClauses [] (item :: more)).map .axes

/-- The column that an item names, if it is nothing but an identifier. -/
def column? (item : Item) : Option Identifier :=
  match item with
  | ⟨false, .identifier id, [], none, _⟩ => some id
  | _ => none

/-- The columns that items name; `found` are those before, newest first. -/
def columnNames (found : List Identifier) : List Item → Except ReadError (List Identifier)
  | [] => .ok found.reverse
  | item :: later =>
    match column? item with
    | some id => columnNames (id :: found) later
    | none => .error (.broken .plainColumns item.stop)

/-- What a query of a rowset selects. -/
def columns : Selection → Except ReadError (List Identifier)
  | asterisk => .ok []
  | items all => columnNames [] all

end Selection

/-- A way to read the expressions of a statement. -/
class ExprReading where
  /-- Reads one expression. -/
  reading : ReadM Expr
  keeps : ReadM.Keeps reading

/-- The way in which they are read. -/
instance ExprReading.plain : ExprReading := ⟨ReadM.expression, .expression⟩

/-- Where nothing else is said an expression is read by the engine. -/
theorem ExprReading.reading_plain : ExprReading.reading = ReadM.expression := rfl

namespace ReadM

variable {α : Type}

/-! ### Whole texts inside a text -/

/-- One expression and nothing behind it. -/
def wholeExpression [ExprReading] : ReadM Expr := do
  let expr ← ExprReading.reading
  expectEnd
  return expr

/-- Reads another text, one level deeper and under the same limit. -/
def inside (text : String) (reading : ReadM α) : ReadM α := fun r =>
  match Reader.ofText text r.limit with
  | .error e => .error e r
  | .ok inner =>
    if r.limit < r.depth + 1 then .error (.tooDeep r.limit) r
    else match reading { inner with depth := r.depth + 1, events := r.events } with
      | .ok a after => .ok a { r with events := after.events }
      | .error e after => .error e { r with events := after.events }

/-- The reader that goes on is the one of the text around the formula. -/
theorem Keeps.inside (text : String) (reading : ReadM α) : Keeps (inside text reading) := by
  intro r a after h
  unfold ReadM.inside at h
  split at h
  · cases h
  · split at h
    · cases h
    · split at h
      · cases h
        exact Nat.le_refl _
      · cases h

/-- The formula of a member or set: an expression, or a string in single quotes that holds one. -/
def formula [ExprReading] : ReadM Expr := do
  let r ← get
  match r.token with
  | .string text .single =>
    let expr ← inside text wholeExpression
    advance
    return expr
  | _ => ExprReading.reading

theorem Keeps.formula [ExprReading] : Keeps formula := by
  refine .bind .get fun r => ?_
  split
  · exact .bind (.inside _ _) fun _ => .bind .advance fun _ => .pure _
  · exact ExprReading.keeps

/-! ### Definitions -/

/-- `name = value` -/
def memberProperty [ExprReading] : ReadM MemberProperty := do
  let property ← name
  expect .equal
  return ⟨property, ← ExprReading.reading⟩

theorem Keeps.memberProperty [ExprReading] : Keeps memberProperty :=
  .bind .name fun _ => .bind (.expect _) fun _ => .bind ExprReading.keeps fun _ => .pure _

/-- The token begins a definition. -/
def beginsDefinition (token : Token) : Bool :=
  token.isKeyword .MEMBER || token.isKeyword .SET

/-- A definition begins with a keyword, so there is a token to move on from. -/
theorem ne_endOfText_of_beginsDefinition {token : Token} (h : beginsDefinition token = true) :
    token ≠ .endOfText := by
  rintro rfl
  simp [beginsDefinition, Token.isKeyword] at h

/-- Reads a definition; `definitions` are those before, newest first. -/
def moreDefinitions [ExprReading] (definitions : List Definition) : ReadM (List Definition) := do
  let r ← get
  advance
  let defined ← identifier
  expectKeyword .AS
  let formula ← formula
  if r.token.isKeyword .MEMBER then
    let properties ← itemsAfter memberProperty .memberProperty []
    return .member defined formula properties :: definitions
  else return .set defined formula :: definitions

/-- The keyword of the definition is taken. -/
theorem Spends.moreDefinitions [ExprReading] {definitions : List Definition} {r : Reader}
    (h : beginsDefinition r.token = true) : Spends (moreDefinitions definitions) r :=
  .of_get <| .bind (.advance (ne_endOfText_of_beginsDefinition h)) fun _ =>
    .bind .identifier fun _ => .bind (.expectKeyword _) fun _ => .bind .formula fun _ =>
      .ite (.bind (.itemsAfter _ _ _) fun _ => .pure _) (.pure _)

/-- The definitions behind `WITH`, at least one. -/
def definitions [ExprReading] : ReadM (List Definition) := do
  if beginsDefinition (← get).token then
    let found ← whileToken beginsDefinition moreDefinitions (fun _ _ => Spends.moreDefinitions) []
    return found.reverse
  else failExpecting .memberOrSet

/-- `[WITH definitions]` -/
def withClause [ExprReading] : ReadM (List Definition) := do
  if ← atKeyword .WITH then
    advance
    definitions
  else return []

/-! ### Axes -/

/-- The axis that a keyword names. -/
def namedAxis? : Token → Option Axis
  | .keyword .COLUMNS _ => some .columns
  | .keyword .ROWS _ => some .rows
  | .keyword .PAGES _ => some .pages
  | .keyword .CHAPTERS _ => some .chapters
  | .keyword .SECTIONS _ => some .sections
  | _ => none

/-- `n` or `AXIS(n)` -/
def axisNumber : ReadM Nat := do
  if ← atKeyword .AXIS then
    advance
    expect .openParen
    let n ← count .axisNumber
    expect .closeParen
    return n
  else count .axisNumber

theorem Keeps.axisNumber : Keeps axisNumber :=
  .bind (.atKeyword _) fun _ => .ite
    (.bind .advance fun _ => .bind (.expect _) fun _ => .bind (.count _) fun _ =>
      .bind (.expect _) fun _ => .pure _)
    (.count _)

/-- What follows `ON`. -/
def axis : ReadM Axis := do
  match namedAxis? (← get).token with
  | some axis =>
    advance
    return axis
  | none =>
    let n ← axisNumber
    if n < Axis.bound then return .ofOrdinal n else failBreaking (.axisInRange n)

theorem Keeps.axis : Keeps axis := by
  refine .bind .get fun r => ?_
  split
  · exact .bind .advance fun _ => .pure _
  · exact .bind .axisNumber fun _ => .ite (.pure _) (.failBreaking _)

/-- `[NON EMPTY]` -/
def nonEmpty : ReadM Bool := do
  if ← atKeyword .NON then
    advance
    expectKeyword .EMPTY
    return true
  else return false

theorem Keeps.nonEmpty : Keeps nonEmpty :=
  .bind (.atKeyword _) fun _ => .ite
    (.bind .advance fun _ => .bind (.expectKeyword _) fun _ => .pure _) (.pure _)

/-- `[[noun] PROPERTIES ids]`, where the noun is `DIMENSION` or `CELL`. -/
def propertyList (noun : Keyword) : ReadM (List Identifier) := do
  if ← atKeyword noun then
    advance
    expectKeyword .PROPERTIES
    identifiers
  else if ← atKeyword .PROPERTIES then
    advance
    identifiers
  else return []

theorem Keeps.propertyList (noun : Keyword) : Keeps (propertyList noun) :=
  .bind (.atKeyword _) fun _ => .ite
    (.bind .advance fun _ => .bind (.expectKeyword _) fun _ => .identifiers) <|
    .bind (.atKeyword _) fun _ => .ite (.bind .advance fun _ => .identifiers) (.pure _)

/-- One item between `SELECT` and `FROM`. -/
def item [ExprReading] : ReadM Item := do
  let nonEmpty ← nonEmpty
  let expr ← ExprReading.reading
  let properties ← propertyList .DIMENSION
  let r ← get
  if r.token.isKeyword .ON then
    advance
    return ⟨nonEmpty, expr, properties, some (← axis), r.place⟩
  else return ⟨nonEmpty, expr, properties, none, r.place⟩

theorem Keeps.item [ExprReading] : Keeps item :=
  .bind .nonEmpty fun _ => .bind ExprReading.keeps fun _ => .bind (.propertyList _) fun _ =>
    .bind .get fun _ => .ite (.bind .advance fun _ => .bind .axis fun _ => .pure _) (.pure _)

/-- What stands between `SELECT` and `FROM`. -/
def selection [ExprReading] : ReadM Selection := do
  if ← atKeyword .FROM then return .items []
  else if ← atSymbol .star then
    advance
    return .asterisk
  else return .items (← separated item .item)

theorem Keeps.selection [ExprReading] : Keeps selection :=
  .bind (.atKeyword _) fun _ => .ite (.pure _) <|
    .bind (.atSymbol _) fun _ => .ite (.bind .advance fun _ => .pure _)
      (.bind (.separated _ _) fun _ => .pure _)

/-! ### Sources -/

/-- `[WHERE expr]` -/
def slicer [ExprReading] : ReadM (Option Expr) := do
  if ← atKeyword .WHERE then
    advance
    return some (← ExprReading.reading)
  else return none

theorem Keeps.slicer [ExprReading] : Keeps slicer :=
  .bind (.atKeyword _) fun _ =>
    .ite (.bind .advance fun _ => .bind ExprReading.keeps fun _ => .pure _) (.pure _)

/-- Reads `( SELECT .. FROM`; `opened` are the sub-selects around, innermost first. -/
def openSubselect [ExprReading] (opened : List Projection) : ReadM (List Projection) := do
  descend
  advance
  expectKeyword .SELECT
  let selected ← selection
  let projection ← judge selected.projection
  expectKeyword .FROM
  return projection :: opened

/-- Going deeper leaves the token alone. -/
theorem token_of_descend {u : Unit} {r after : Reader} (h : descend r = .ok u after) :
    after.token = r.token := by
  obtain ⟨_, between, checked, modified⟩ := bind_eq_ok h
  rw [eq_of_checkHeight checked] at modified
  cases modified
  rfl

/-- The opening parenthesis is taken. -/
theorem Spends.openSubselect [ExprReading] {opened : List Projection} {r : Reader}
    (h : r.token.isSymbol .openParen = true) : Spends (openSubselect opened) r :=
  .after .descend fun _ _ gone =>
    .bind (.advance (token_of_descend gone ▸ Token.ne_endOfText_of_isSymbol h)) fun _ =>
      .bind (.expectKeyword _) fun _ => .bind .selection fun _ => .bind (.judge _) fun _ =>
        .bind (.expectKeyword _) fun _ => .pure _

/-- Reads `[WHERE ..] )` of each sub-select, from the innermost to the outermost. -/
def closeSubselects [ExprReading] (base : Nat) : List Projection → Source → ReadM Source
  | [], source => return source
  | projection :: around, source => do
    modify fun r => { r with depth := base + around.length + 1 }
    let slicer ← slicer
    expect .closeParen
    closeSubselects base around (.subselect projection source slicer)

/-- The induction is on the sub-selects that are open. -/
theorem Keeps.closeSubselects [ExprReading] (base : Nat) (opened : List Projection) (source : Source) :
    Keeps (closeSubselects base opened source) := by
  induction opened generalizing source with
  | nil => exact .pure _
  | cons projection around ih =>
    exact .bind (.modifying fun _ => rfl) fun _ => .bind .slicer fun _ =>
      .bind (.expect _) fun _ => ih _

/-- What stands behind `FROM`: the name of a cube, or sub-selects around one. -/
def source [ExprReading] : ReadM Source := keepingDepth do
  let base ← get
  let opened ←
    whileToken (·.isSymbol .openParen) openSubselect (fun _ _ => Spends.openSubselect) []
  let cube ← cubeName
  closeSubselects base.depth opened (.cube cube)

theorem Keeps.source [ExprReading] : Keeps source :=
  .keepingDepth <| .bind .get fun _ => .bind (.whileToken _ _ _ _) fun _ => .bind .cubeName fun _ =>
    .closeSubselects _ _ _

/-- The token is `$SYSTEM`, where the schema rowsets are. -/
def isSystem : Token → Bool
  | .word spelling => Text.lowerCase spelling == "$system"
  | _ => false

/-- `$SYSTEM.table`, if `FROM` is followed by that. -/
def systemTable : ReadM (Option Name) := do
  if isSystem (← get).token then
    advance
    expect .dot
    return some (← name)
  else return none

/-! ### Queries -/

/-- What a query turns out to be. -/
inductive Query where
  | select (query : Select)
  | rowset (query : RowsetQuery)

/-- A query of a cube, from behind `FROM` on. -/
def cubeQuery [ExprReading] (definitions : List Definition) (selected : Selection) : ReadM Query := do
  let projection ← judge selected.projection
  let source ← source
  let slicer ← slicer
  let cellProperties ← propertyList .CELL
  return .select ⟨definitions, projection, source, slicer, cellProperties⟩

/-- A query of a rowset, from behind its table on. -/
def rowsetQuery [ExprReading] (selected : Selection) (table : Name) : ReadM Query := do
  let slicer ← slicer
  let columns ← judge selected.columns
  return .rowset ⟨columns, table, slicer⟩

/-- `[WITH ..] SELECT .. FROM ..`.  With `rowsets`, a query that defines nothing may be of a rowset,
else its source is a cube. -/
def query [ExprReading] (rowsets : Bool) : ReadM Query := do
  let definitions ← withClause
  expectKeyword .SELECT
  let selected ← selection
  expectKeyword .FROM
  if rowsets && definitions.isEmpty then
    match ← systemTable with
    | some table => rowsetQuery selected table
    | none => cubeQuery definitions selected
  else cubeQuery definitions selected

/-- A `SELECT` query of a cube. -/
def select [ExprReading] : ReadM Select := do
  match ← query false with
  | .select found => return found
  | .rowset _ => failBreaking .selectOnly

/-! ### Statements -/

/-- `MAXROWS n` or `FIRSTROWSET n`, if the one that is there is new. -/
def drillOption (found : Option Nat × Option Nat) : ReadM (Option Nat × Option Nat) := do
  let r ← get
  if found.1.isNone && r.token.isKeyword .MAXROWS then
    advance
    return (some (← count (.countAfter .MAXROWS)), found.2)
  else if found.2.isNone && r.token.isKeyword .FIRSTROWSET then
    advance
    return (found.1, some (← count (.countAfter .FIRSTROWSET)))
  else return found

/-- `[RETURN ids]` -/
def returned : ReadM (List Identifier) := do
  if ← atKeyword .RETURN then
    advance
    identifiers
  else return []

/-- `DRILLTHROUGH` with each of its two options at most once, in any order. -/
def drillthrough [ExprReading] : ReadM Drillthrough := do
  expectKeyword .DRILLTHROUGH
  let (maxRows, firstRowSet) ← drillOption (← drillOption (none, none))
  let select ← select
  return ⟨maxRows, firstRowSet, select, ← returned⟩

/-- A statement that is not under `EXPLAIN`. -/
def plainStatement [ExprReading] : ReadM Statement := do
  if ← atKeyword .DRILLTHROUGH then return .drillthrough (← drillthrough)
  else
    match ← query true with
    | .select found => return .select found
    | .rowset found => return .rowset found

/-- Reads `EXPLAIN PLAN FOR`, and counts it. -/
def explainMark (count : Nat) : ReadM Nat := do
  descend
  advance
  expectKeyword .PLAN
  expectKeyword .FOR
  return count + 1

/-- Each `EXPLAIN` is taken. -/
theorem Spends.explainMark {count : Nat} {r : Reader} (h : r.token.isKeyword .EXPLAIN = true) :
    Spends (explainMark count) r :=
  .after .descend fun _ _ gone =>
    .bind (.advance (token_of_descend gone ▸ Token.ne_endOfText_of_isKeyword h)) fun _ =>
      .bind (.expectKeyword _) fun _ => .bind (.expectKeyword _) fun _ => .pure _

/-- A statement under any number of `EXPLAIN PLAN FOR`. -/
def statement [ExprReading] : ReadM Statement := keepingDepth do
  let marks ←
    whileToken (·.isKeyword .EXPLAIN) explainMark (fun _ _ => Spends.explainMark) 0
  let found ← plainStatement
  return Nat.repeat .explain marks found

/-- The end of a statement: a semicolon may stand there. -/
def endStatement : ReadM Unit := do
  if ← atSymbol .semicolon then
    advance
    expectEnd
  else expectEnd

/-- One `SELECT` query and nothing behind it. -/
def wholeSelect [ExprReading] : ReadM Select := do
  let found ← select
  endStatement
  return found

/-- One statement and nothing behind it. -/
def wholeStatement [ExprReading] : ReadM Statement := do
  let found ← statement
  endStatement
  return found

/-- The name of a cube and nothing behind it. -/
def wholeCubeName : ReadM Name := do
  let found ← cubeName
  expectEnd
  return found

end ReadM

end MdxReader
