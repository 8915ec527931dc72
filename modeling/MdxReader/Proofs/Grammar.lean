import MdxReader.Proofs.Descent.Equations
import MdxReader.Reading.Statement

/-!
# The grammar of statements

A second reader of statements, on a plain list of tokens and above the one of expressions
(`MdxReader.Proofs.Descent`).  It is again a textbook one: every rule of the grammar is a `Parser`
that takes tokens off the front of the list, `source` calls itself inside the parentheses of a
sub-select, and `statement` behind `EXPLAIN PLAN FOR`.  There is no stack, no depth and no limit.

Its tables are its own as well: what a count is, which tokens name axes and which numbers they have,
what a definition begins with, and how `$SYSTEM` is spelled.  The program has the same entries
(`Grammar.count?_eq` and what follows it).

What a query is of shows behind its `FROM` only.  `targetsSystem` looks ahead to that token first,
so axes and columns have rules of their own, and nothing that was read is judged afterwards.

Loops and recursive rules end because parsers take tokens: one that `Keeps` never leaves more than
there were, one that `Spends` leaves fewer.
-/

namespace MdxReader

open Descent

/-- Takes tokens off the front of a list and yields a value, or fails. -/
abbrev Parser := StateT (List Token) Option

namespace Parser

variable {α β : Type}

/-! ### Building blocks -/

/-- Takes the next token if it holds something, and yields that. -/
def take (holds : Token → Option α) : Parser α := fun ts =>
  (holds (look ts)).map fun a => (a, ts.drop 1)

/-- Takes a symbol. -/
def symbol (s : Symbol) : Parser Unit :=
  take fun t => if t.isSymbol s then some () else none

/-- Takes a keyword. -/
def keyword (k : Keyword) : Parser Unit :=
  take fun t => if t.isKeyword k then some () else none

/-- Goes on with `p` behind the symbol if it comes next, and with `q` if it does not. -/
def ifSymbol (s : Symbol) (p q : Parser α) : Parser α := fun ts =>
  if (look ts).isSymbol s then p (ts.drop 1) else q ts

/-- Goes on with `p` behind the keyword if it comes next, and with `q` if it does not. -/
def ifKeyword (k : Keyword) (p q : Parser α) : Parser α := fun ts =>
  if (look ts).isKeyword k then p (ts.drop 1) else q ts

/-- Demands that the text is over. -/
def ended : Parser Unit := fun ts =>
  if look ts = .endOfText then some ((), ts) else none

/-- Yields a value that is there already, or fails. -/
def ofOption (x : Option α) : Parser α := fun ts => x.map fun a => (a, ts)

theorem bind_apply (p : Parser α) (f : α → Parser β) (ts : List Token) :
    (p >>= f) ts = (p ts).bind fun (a, rest) => f a rest := rfl

/-- What the first parser yields is passed on, with the tokens left. -/
theorem bind_of_some {p : Parser α} {f : α → Parser β} {ts rest : List Token} {a : α}
    (h : p ts = some (a, rest)) : (p >>= f) ts = f a rest := by
  rw [bind_apply, h, Option.bind_some]

/-- Where the first parser fails there is nothing to go on with. -/
theorem bind_of_none {p : Parser α} {f : α → Parser β} {ts : List Token} (h : p ts = none) :
    (p >>= f) ts = none := by
  rw [bind_apply, h, Option.bind_none]

/-- A parser that cannot go on fails, whatever was yielded before. -/
theorem bind_of_fails {p : Parser α} {f : α → Parser β} {ts : List Token}
    (h : ∀ a rest, f a rest = none) : (p >>= f) ts = none := by
  cases found : p ts with
  | none => exact bind_of_none found
  | some pair => rw [bind_of_some found, h]

/-- Only what the first parsers yield from their tokens counts. -/
theorem bind_congr_at {p q : Parser α} {f : α → Parser β} {ts ts' : List Token}
    (h : p ts = q ts') : (p >>= f) ts = (q >>= f) ts' := by
  rw [bind_apply, bind_apply, h]

theorem run'_map (f : α → β) (p : Parser α) (ts : List Token) :
    (f <$> p).run' ts = (p.run' ts).map f := by
  change Option.map Prod.fst ((p ts).bind fun (a, rest) => some (f a, rest)) =
    (Option.map Prod.fst (p ts)).map f
  cases p ts <;> rfl

/-- What is made of an optional value is made of what it yields. -/
theorem ofOption_map (x : Option α) (f : α → β) : ofOption (x.map f) = f <$> ofOption x := by
  cases x <;> rfl

/-- A value that is there already can be taken later. -/
theorem ofOption_bind_comm (x : Option α) (p : Parser β) {γ : Type} (f : α → β → Parser γ) :
    (do
      let a ← ofOption x
      let b ← p
      f a b) =
    (do
      let b ← p
      let a ← ofOption x
      f a b) := by
  funext ts
  cases x with
  | none => exact (bind_of_fails fun _ _ => rfl).symm
  | some a => rfl

/-- A symbol that comes next is taken. -/
theorem symbol_of_look {s : Symbol} {ts : List Token} (h : (look ts).isSymbol s = true) :
    symbol s ts = some ((), ts.drop 1) := by
  simp [symbol, take, h]

/-- A keyword that comes next is taken. -/
theorem keyword_of_look {k : Keyword} {ts : List Token} (h : (look ts).isKeyword k = true) :
    keyword k ts = some ((), ts.drop 1) := by
  simp [keyword, take, h]

theorem symbol_eq_none {s : Symbol} {ts : List Token} (h : (look ts).isSymbol s = false) :
    symbol s ts = none := by
  simp [symbol, take, h]

theorem keyword_eq_none {k : Keyword} {ts : List Token} (h : (look ts).isKeyword k = false) :
    keyword k ts = none := by
  simp [keyword, take, h]

/-- What is taken is the keyword, and nothing besides. -/
theorem keyword_eq_some {k : Keyword} {u : Unit} {ts rest : List Token}
    (h : keyword k ts = some (u, rest)) : (look ts).isKeyword k = true ∧ rest = ts.drop 1 := by
  cases comes : (look ts).isKeyword k with
  | true =>
    rw [keyword_of_look comes] at h
    cases h
    exact ⟨rfl, rfl⟩
  | false =>
    rw [keyword_eq_none comes] at h
    cases h

/-- The keyword is taken before the first branch goes on. -/
theorem ifKeyword_of_look {k : Keyword} {p q : Parser α} {ts : List Token}
    (h : (look ts).isKeyword k = true) : ifKeyword k p q ts = p (ts.drop 1) := if_pos h

/-- The second branch starts at the token that was looked at. -/
theorem ifKeyword_of_ne {k : Keyword} {p q : Parser α} {ts : List Token}
    (h : (look ts).isKeyword k = false) : ifKeyword k p q ts = q ts := by
  unfold ifKeyword
  rw [h, if_neg Bool.false_ne_true]

/-! ### How many tokens are left -/

/-- The parser never leaves more tokens than there were. -/
def Keeps (p : Parser α) : Prop :=
  ∀ ts a rest, p ts = some (a, rest) → rest.length ≤ ts.length

/-- The parser takes at least one token. -/
def Spends (p : Parser α) : Prop :=
  ∀ ts a rest, p ts = some (a, rest) → rest.length < ts.length

theorem Spends.keeps {p : Parser α} (h : Spends p) : Keeps p :=
  fun ts a rest found => Nat.le_of_lt (h ts a rest found)

/-- Two parsers that succeed together do so one after the other. -/
theorem bind_eq_some {p : Parser α} {f : α → Parser β} {ts rest : List Token} {b : β}
    (h : (p >>= f) ts = some (b, rest)) :
    ∃ a between, p ts = some (a, between) ∧ f a between = some (b, rest) := by
  obtain ⟨⟨a, between⟩, first, second⟩ := Option.bind_eq_some_iff.mp h
  exact ⟨a, between, first, second⟩

/-- What a parser with another one behind it made of all the tokens. -/
theorem run'_map_bind_eq_some {γ : Type} {f : β → γ} {p : Parser α} {g : α → Parser β}
    {ts : List Token} {c : γ} (h : (f <$> (p >>= g)).run' ts = some c) :
    ∃ a rest b last, p ts = some (a, rest) ∧ g a rest = some (b, last) ∧ f b = c := by
  rw [run'_map] at h
  obtain ⟨b, ran, made⟩ := Option.map_eq_some_iff.mp h
  obtain ⟨⟨_, last⟩, whole, rfl⟩ := Option.map_eq_some_iff.mp ran
  obtain ⟨a, rest, first, second⟩ := bind_eq_some whole
  exact ⟨a, rest, _, last, first, second, made⟩

theorem Keeps.pure (a : α) : Keeps (Pure.pure a : Parser α) := by
  rintro ts b rest ⟨⟩
  exact Nat.le_refl _

/-- Two parsers that never leave more tokens do not do so together. -/
theorem Keeps.bind {p : Parser α} {f : α → Parser β} (hp : Keeps p) (hf : ∀ a, Keeps (f a)) :
    Keeps (p >>= f) := by
  intro ts b rest h
  obtain ⟨a, between, first, second⟩ := bind_eq_some h
  exact Nat.le_trans (hf a _ _ _ second) (hp _ _ _ first)

/-- It is enough that the first of two parsers takes a token. -/
theorem Spends.bind {p : Parser α} {f : α → Parser β} (hp : Spends p) (hf : ∀ a, Keeps (f a)) :
    Spends (p >>= f) := by
  intro ts b rest h
  obtain ⟨a, between, first, second⟩ := bind_eq_some h
  exact Nat.lt_of_le_of_lt (hf a _ _ _ second) (hp _ _ _ first)

theorem Keeps.map {p : Parser α} (hp : Keeps p) (f : α → β) : Keeps (f <$> p) :=
  hp.bind fun _ => .pure _

/-- At the end of the tokens there is nothing to take. -/
theorem Spends.take {holds : Token → Option α} (none : holds .endOfText = none) :
    Spends (take holds) := by
  intro ts a rest h
  obtain ⟨value, held, made⟩ := Option.map_eq_some_iff.mp h
  cases made
  cases ts with
  | nil => exact absurd held (by rw [show look [] = .endOfText from rfl, none]; nofun)
  | cons t ts => exact Nat.lt_succ_self _

theorem Spends.symbol (s : Symbol) : Spends (symbol s) := .take rfl

theorem Spends.keyword (k : Keyword) : Spends (keyword k) := .take rfl

theorem length_drop_le (ts : List Token) : (ts.drop 1).length ≤ ts.length := by
  rw [List.length_drop]
  omega

theorem Keeps.ifSymbol {s : Symbol} {p q : Parser α} (hp : Keeps p) (hq : Keeps q) :
    Keeps (ifSymbol s p q) := by
  intro ts a rest h
  unfold Parser.ifSymbol at h
  split at h
  · exact Nat.le_trans (hp _ _ _ h) (length_drop_le ts)
  · exact hq _ _ _ h

theorem Keeps.ifKeyword {k : Keyword} {p q : Parser α} (hp : Keeps p) (hq : Keeps q) :
    Keeps (ifKeyword k p q) := by
  intro ts a rest h
  unfold Parser.ifKeyword at h
  split at h
  · exact Nat.le_trans (hp _ _ _ h) (length_drop_le ts)
  · exact hq _ _ _ h

/-- The first branch has its keyword, so it need not take another token. -/
theorem Spends.ifKeyword {k : Keyword} {p q : Parser α} (hp : Keeps p) (hq : Spends q) :
    Spends (ifKeyword k p q) := by
  intro ts a rest h
  unfold Parser.ifKeyword at h
  split at h
  · rename_i there
    cases ts with
    | nil => cases there
    | cons t ts => exact Nat.lt_succ_of_le (hp _ _ _ h)
  · exact hq _ _ _ h

/-! ### Repetition -/

/-- Repeats a parser while the token that comes next passes a test. -/
def repeated (test : Token → Bool) (p : Parser α) (spends : Spends p) : Parser (List α) := fun ts =>
  if test (look ts) then
    match found : p ts with
    | some (a, rest) =>
      have := spends ts a rest found
      (repeated test p spends rest).map fun (more, last) => (a :: more, last)
    | none => none
  else some ([], ts)
termination_by ts => ts.length

/-- A repetition goes on with one more, or is over. -/
theorem repeated_apply (test : Token → Bool) (p : Parser α) (spends : Spends p) (ts : List Token) :
    repeated test p spends ts =
      if test (look ts) then
        (do return (← p) :: (← repeated test p spends) : Parser (List α)) ts
      else some ([], ts) := by
  rw [repeated]
  by_cases passes : test (look ts) = true
  · rw [if_pos passes, if_pos passes, bind_apply]
    split
    · rename_i a rest found
      simp only [found, Option.bind_some, Option.map_eq_bind]
      rfl
    · rename_i found
      rw [found, Option.bind_none]
  · rw [if_neg passes, if_neg passes]

/-- A repetition goes on where the test holds, and then once more. -/
theorem repeated_of_look {test : Token → Bool} {p : Parser α} {spends : Spends p}
    {ts : List Token} (h : test (look ts) = true) : repeated test p spends ts =
      (do return (← p) :: (← repeated test p spends) : Parser (List α)) ts := by
  rw [repeated_apply, if_pos h]

/-- A repetition takes nothing where the test fails. -/
theorem repeated_of_ne {test : Token → Bool} {p : Parser α} {spends : Spends p} {ts : List Token}
    (h : test (look ts) = false) : repeated test p spends ts = some ([], ts) := by
  rw [repeated_apply, h, if_neg Bool.false_ne_true]

/-- The induction is on how many tokens there are: each round takes one. -/
theorem Keeps.repeated {test : Token → Bool} {p : Parser α} (spends : Spends p) :
    Keeps (repeated test p spends) := by
  intro ts
  induction size : ts.length using Nat.strongRecOn generalizing ts with
  | _ n ih =>
    intro all rest h
    rw [repeated_apply] at h
    split at h
    · obtain ⟨a, between, first, later⟩ := bind_eq_some h
      obtain ⟨more, last, again, made⟩ := bind_eq_some later
      cases made
      have fewer := spends ts a between first
      have kept := ih _ (size ▸ fewer) between rfl more rest again
      omega
    · cases h
      exact Nat.le_of_eq size

/-- The items that follow behind commas. -/
def further (item : Parser α) (keeps : Keeps item) : Parser (List α) :=
  repeated (·.isSymbol .comma) (do symbol .comma; item) (.bind (.symbol _) fun _ => keeps)

theorem Keeps.further {item : Parser α} (keeps : Keeps item) : Keeps (further item keeps) :=
  .repeated _

/-- One or more items with commas between them. -/
def separated (item : Parser α) (keeps : Keeps item) : Parser (List α) := do
  return (← item) :: (← further item keeps)

theorem Keeps.separated {item : Parser α} (keeps : Keeps item) : Keeps (separated item keeps) :=
  .bind keeps fun _ => .bind (.further keeps) fun _ => .pure _

/-- Behind a comma there must be an item. -/
theorem further_of_comma {item : Parser α} {keeps : Keeps item} {ts : List Token}
    (h : (look ts).isSymbol .comma = true) :
    further item keeps ts = separated item keeps (ts.drop 1) := by
  unfold further
  rw [repeated_of_look h, bind_assoc, bind_of_some (symbol_of_look h)]
  rfl

theorem further_of_no_comma {item : Parser α} {keeps : Keeps item} {ts : List Token}
    (h : (look ts).isSymbol .comma = false) : further item keeps ts = some ([], ts) :=
  repeated_of_ne h

end Parser

namespace Grammar

open MdxReader.Parser

/-! ### Names and expressions -/

/-- An expression: precedence climbing from the weakest operator on. -/
def expression : Parser Expr := expr? false 0

theorem keeps_expression : Keeps expression := by
  intro ts x rest h
  obtain ⟨taken, -, made⟩ := Option.map_eq_some_iff.mp h
  cases made
  exact Nat.le_of_lt taken.short

/-- A bare or bracketed name. -/
def name : Parser Name := take name?

theorem keeps_name : Keeps name := (Spends.take rfl).keeps

/-- An identifier, all of whose segments are part of the name. -/
def identifier : Parser Identifier := identifier?

theorem keeps_identifier : Keeps identifier :=
  fun _ _ _ h => Nat.le_of_lt (length_identifier h)

/-- One or more identifiers. -/
def identifiers : Parser (List Identifier) := separated identifier keeps_identifier

/-- The count that a token holds: a number without fraction, of 64 bits. -/
def count? : Token → Option Nat
  | .number value =>
    let unit := Nat.pow 10 value.scale
    if value.mantissa % unit = 0 ∧ value.mantissa / unit < Nat.pow 2 64 then
      some (value.mantissa / unit)
    else none
  | _ => none

/-- A count. -/
def count : Parser Nat := take count?

theorem keeps_count : Keeps count := (Spends.take rfl).keeps

/-- The name of a cube, which has a single segment. -/
def cubeName : Parser Name := do
  let found ← name
  fun ts => if (look ts).isSymbol .dot then none else some (found, ts)

/-! ### Definitions -/

/-- One expression and nothing behind it. -/
def wholeExpression : Parser Expr := do
  let x ← expression
  ended
  return x

/-- The expression that makes up a whole text. -/
def quoted? (text : String) : Option Expr :=
  match tokensOf text with
  | .ok tokens => wholeExpression.run' (tokens.map Located.token)
  | .error _ => none

/-- The formula of a member or set: an expression, or a string in single quotes that holds one. -/
def formula : Parser Expr := fun ts =>
  match look ts with
  | .string text .single => (quoted? text).map fun x => (x, ts.drop 1)
  | _ => expression ts

theorem keeps_formula : Keeps formula := by
  intro ts x rest h
  unfold formula at h
  split at h
  · obtain ⟨y, -, made⟩ := Option.map_eq_some_iff.mp h
    cases made
    exact length_drop_le ts
  · exact keeps_expression _ _ _ h

/-- `name = value` -/
def memberProperty : Parser MemberProperty := do
  let property ← name
  symbol .equal
  return ⟨property, ← expression⟩

theorem keeps_memberProperty : Keeps memberProperty :=
  .bind keeps_name fun _ => .bind (Spends.symbol _).keeps fun _ =>
    .bind keeps_expression fun _ => .pure _

/-- `MEMBER id AS formula (, name = value)*` or `SET id AS formula`. -/
def definition : Parser Definition :=
  ifKeyword .MEMBER
    (do
      let defined ← identifier
      keyword .AS
      let formula ← formula
      return .member defined formula (← further memberProperty keeps_memberProperty))
    (do
      keyword .SET
      let defined ← identifier
      keyword .AS
      return .set defined (← formula))

theorem spends_definition : Spends definition :=
  .ifKeyword
    (.bind keeps_identifier fun _ => .bind (Spends.keyword _).keeps fun _ =>
      .bind keeps_formula fun _ => .bind (.further _) fun _ => .pure _)
    (.bind (.keyword _) fun _ => .bind keeps_identifier fun _ =>
      .bind (Spends.keyword _).keeps fun _ => .bind keeps_formula fun _ => .pure _)

/-- The token is `MEMBER` or `SET`. -/
def opensDefinition : Token → Bool
  | .keyword .MEMBER _ => true
  | .keyword .SET _ => true
  | _ => false

/-- `[WITH definition+]` -/
def withClause : Parser (List Definition) :=
  ifKeyword .WITH
    (do return (← definition) :: (← repeated opensDefinition definition spends_definition))
    (return [])

/-! ### Axes and columns -/

/-- `[NON EMPTY]` -/
def nonEmpty : Parser Bool :=
  ifKeyword .NON (do keyword .EMPTY; return true) (return false)

theorem keeps_nonEmpty : Keeps nonEmpty :=
  .ifKeyword (.bind (Spends.keyword _).keeps fun _ => .pure _) (.pure _)

/-- `[[noun] PROPERTIES ids]`, where the noun is `DIMENSION` or `CELL`. -/
def propertyList (noun : Keyword) : Parser (List Identifier) :=
  ifKeyword noun (do keyword .PROPERTIES; identifiers)
    (ifKeyword .PROPERTIES identifiers (return []))

theorem keeps_propertyList (noun : Keyword) : Keeps (propertyList noun) :=
  .ifKeyword (.bind (Spends.keyword _).keeps fun _ => .separated _)
    (.ifKeyword (.separated _) (.pure _))

/-- `n` or `AXIS(n)` -/
def axisNumber : Parser Nat :=
  ifKeyword .AXIS
    (do
      symbol .openParen
      let n ← count
      symbol .closeParen
      return n)
    count

/-- The axes with names, from the one with the number 0 on. -/
def namedAxes : List Axis := [.columns, .rows, .pages, .chapters, .sections]

/-- The axis with a number, which has 32 bits. -/
def axisOf? (n : Nat) : Option Axis :=
  if n < Nat.pow 2 32 then some (namedAxes.getD n (.ordinal n)) else none

/-- An axis by its number. -/
def numberedAxis : Parser Axis := do
  let n ← axisNumber
  ofOption (axisOf? n)

/-- The axis that a token names. -/
def axisName? : Token → Option Axis
  | .keyword .COLUMNS _ => some .columns
  | .keyword .ROWS _ => some .rows
  | .keyword .PAGES _ => some .pages
  | .keyword .CHAPTERS _ => some .chapters
  | .keyword .SECTIONS _ => some .sections
  | _ => none

/-- An axis, by its name or number. -/
def axis : Parser Axis := fun ts =>
  match axisName? (look ts) with
  | some axis => some (axis, ts.drop 1)
  | none => numberedAxis ts

theorem keeps_ofOption {α : Type} (x : Option α) : Keeps (ofOption x) := by
  intro ts a rest h
  obtain ⟨b, -, made⟩ := Option.map_eq_some_iff.mp h
  cases made
  exact Nat.le_refl _

theorem keeps_axis : Keeps axis := by
  have number : Keeps numberedAxis := by
    refine .bind ?_ fun _ => keeps_ofOption _
    refine .ifKeyword (.bind (Spends.symbol _).keeps fun _ => ?_) keeps_count
    exact .bind keeps_count fun _ => .bind (Spends.symbol _).keeps fun _ => .pure _
  intro ts a rest h
  unfold axis at h
  split at h
  · cases h
    exact length_drop_le ts
  · exact number _ _ _ h

/-- `[NON EMPTY] expr [[DIMENSION] PROPERTIES ids] ON axis` -/
def axisClause : Parser AxisClause := do
  let nonEmpty ← nonEmpty
  let expr ← expression
  let properties ← propertyList .DIMENSION
  keyword .ON
  return ⟨nonEmpty, expr, properties, ← axis⟩

theorem keeps_axisClause : Keeps axisClause :=
  .bind keeps_nonEmpty fun _ => .bind keeps_expression fun _ => .bind (keeps_propertyList _)
    fun _ => .bind (Spends.keyword _).keeps fun _ => .bind keeps_axis fun _ => .pure _

/-- The column that an expression names, if it is an identifier. -/
def columnOf? : Expr → Option Identifier
  | .identifier id => some id
  | _ => none

/-- A column of a schema rowset: an expression that is an identifier. -/
def column : Parser Identifier := do
  let expr ← expression
  ofOption (columnOf? expr)

theorem keeps_column : Keeps column := .bind keeps_expression fun _ => keeps_ofOption _

/-- What may stand between `SELECT` and `FROM`: nothing, a lone `*` (no list at all), or items. -/
def selected {α : Type} (item : Parser α) (keeps : Keeps item) : Parser (Option (List α)) :=
  fun ts => if (look ts).isKeyword .FROM then some (some [], ts)
  else ifSymbol .star (return none) (some <$> separated item keeps) ts

section Selected

variable {α : Type} {item : Parser α} {keeps : Keeps item} {ts : List Token}

/-- Nothing is selected if `FROM` comes at once. -/
theorem selected_of_from (comes : (look ts).isKeyword .FROM = true) :
    selected item keeps ts = some (some [], ts) := by
  unfold selected
  rw [if_pos comes]

theorem selected_of_no_from (noFrom : (look ts).isKeyword .FROM = false) :
    selected item keeps ts = ifSymbol .star (return none) (some <$> separated item keeps) ts := by
  unfold selected
  rw [noFrom, if_neg Bool.false_ne_true]

/-- The asterisk selects everything, and is told apart from a list. -/
theorem selected_of_star (star : (look ts).isSymbol .star = true) :
    selected item keeps ts = some (none, ts.drop 1) := by
  have noFrom : (look ts).isKeyword .FROM = false := by
    rw [Token.isSymbol_iff.mp star]
    rfl
  rw [selected_of_no_from noFrom, ifSymbol, if_pos star]
  rfl

/-- Otherwise there is at least one item. -/
theorem selected_of_items (noFrom : (look ts).isKeyword .FROM = false)
    (noStar : (look ts).isSymbol .star = false) :
    selected item keeps ts = (some <$> separated item keeps : Parser (Option (List α))) ts := by
  rw [selected_of_no_from noFrom, ifSymbol, noStar, if_neg Bool.false_ne_true]

end Selected

theorem keeps_selected {α : Type} {item : Parser α} (keeps : Keeps item) :
    Keeps (selected item keeps) := by
  intro ts a rest h
  unfold selected at h
  split at h
  · cases h
    exact Nat.le_refl _
  · exact Keeps.ifSymbol (.pure _) (.map (.separated keeps) _) _ _ _ h

/-- What is selected of a cube. -/
def projectionOf : Option (List AxisClause) → Projection
  | none => .asterisk
  | some [] => .empty
  | some clauses => .axes clauses

/-- What a query of a cube selects. -/
def projection : Parser Projection := projectionOf <$> selected axisClause keeps_axisClause

/-- What a query of a schema rowset selects; no columns are all of them. -/
def columns : Parser (List Identifier) := (·.getD []) <$> selected column keeps_column

/-! ### Sources -/

/-- `[WHERE expr]` -/
def slicer : Parser (Option Expr) :=
  ifKeyword .WHERE (some <$> expression) (return none)

/-- `( SELECT projection FROM` -/
def opening : Parser Projection := do
  symbol .openParen
  keyword .SELECT
  let projection ← projection
  keyword .FROM
  return projection

theorem spends_opening : Spends opening :=
  .bind (.symbol _) fun _ => .bind (Spends.keyword _).keeps fun _ =>
    .bind (.map (keeps_selected keeps_axisClause) _) fun _ =>
      .bind (Spends.keyword _).keeps fun _ => .pure _

/-- `[WHERE expr] )` -/
def closing (projection : Projection) (source : Source) : Parser Source := do
  let slicer ← slicer
  symbol .closeParen
  return .subselect projection source slicer

/-- The name of a cube, or a sub-select with a source of its own. -/
def source : Parser Source := fun ts =>
  if (look ts).isSymbol .openParen then
    match found : opening ts with
    | some (projection, rest) =>
      have := spends_opening ts projection rest found
      (source rest).bind fun (inner, last) => closing projection inner last
    | none => none
  else (.cube <$> cubeName : Parser Source) ts
termination_by ts => ts.length

/-- A sub-select has its own projection, and its source may be a sub-select again. -/
theorem source_of_paren {ts : List Token} (h : (look ts).isSymbol .openParen = true) :
    source ts = (do
      let projection ← opening
      closing projection (← source) : Parser Source) ts := by
  rw [source, if_pos h, bind_apply]
  split
  · rename_i projection rest found
    simp only [found, Option.bind_some, bind_apply]
  · rename_i found
    rw [found, Option.bind_none]

/-- The innermost source is a cube. -/
theorem source_of_name {ts : List Token} (h : (look ts).isSymbol .openParen = false) :
    source ts = (.cube <$> cubeName : Parser Source) ts := by
  rw [source, h, if_neg Bool.false_ne_true]

/-- The token is the bare word `$SYSTEM`, in any letter case of ASCII. -/
def namesSystem : Token → Bool
  | .word spelling => spelling.toList.map Char.toLower == "$system".toList
  | _ => false

/-- `$SYSTEM` -/
def system : Parser Unit :=
  take fun t => if namesSystem t then some () else none

/-! ### Queries -/

/-- `[WITH ..] SELECT .. FROM source [WHERE ..] [[CELL] PROPERTIES ids]` -/
def select : Parser Select := do
  let definitions ← withClause
  keyword .SELECT
  let projection ← projection
  keyword .FROM
  let source ← source
  let slicer ← slicer
  return ⟨definitions, projection, source, slicer, ← propertyList .CELL⟩

/-- `SELECT .. FROM $SYSTEM.table [WHERE ..]` -/
def rowsetQuery : Parser RowsetQuery := do
  keyword .SELECT
  let columns ← columns
  keyword .FROM
  system
  symbol .dot
  let table ← name
  return ⟨columns, table, ← slicer⟩

/-- An item of a query whose source is not known yet, be it an axis or a column. -/
structure Entry where
  nonEmpty : Bool
  expr : Expr
  properties : List Identifier
  axis : Option Axis

/-- `[NON EMPTY] expr [[DIMENSION] PROPERTIES ids] [ON axis]` -/
def entry : Parser Entry := do
  let nonEmpty ← nonEmpty
  let expr ← expression
  let properties ← propertyList .DIMENSION
  return ⟨nonEmpty, expr, properties, ← ifKeyword .ON (some <$> axis) (return none)⟩

theorem keeps_entry : Keeps entry :=
  .bind keeps_nonEmpty fun _ => .bind keeps_expression fun _ => .bind (keeps_propertyList _)
    fun _ => .bind (.ifKeyword (.map keeps_axis _) (.pure _)) fun _ => .pure _

/-- `SELECT .. FROM`, whatever the query is of. -/
def heading : Parser (Option (List Entry)) := do
  keyword .SELECT
  let found ← selected entry keeps_entry
  keyword .FROM
  return found

/-- The query has no `WITH`, and the token behind its `FROM` is `$SYSTEM`. -/
def targetsSystem (ts : List Token) : Bool :=
  (heading ts).any fun (_, rest) => namesSystem (look rest)

/-! ### Statements -/

/-- `MAXROWS n` and `FIRSTROWSET n`, each at most once and in any order. -/
def drillOptions : Parser (Option Nat × Option Nat) :=
  ifKeyword .MAXROWS
    (do
      let maxRows ← count
      ifKeyword .FIRSTROWSET (do return (some maxRows, some (← count)))
        (return (some maxRows, none)))
    (ifKeyword .FIRSTROWSET
      (do
        let firstRowSet ← count
        ifKeyword .MAXROWS (do return (some (← count), some firstRowSet))
          (return (none, some firstRowSet)))
      (return (none, none)))

/-- `DRILLTHROUGH options select [RETURN ids]` -/
def drillthrough : Parser Drillthrough := do
  keyword .DRILLTHROUGH
  let (maxRows, firstRowSet) ← drillOptions
  let select ← select
  return ⟨maxRows, firstRowSet, select, ← ifKeyword .RETURN identifiers (return [])⟩

/-- A query of a schema rowset or of a cube. -/
def query : Parser Statement := fun ts =>
  if targetsSystem ts then (.rowset <$> rowsetQuery : Parser Statement) ts
  else (.select <$> select : Parser Statement) ts

/-- A statement that is not under `EXPLAIN`. -/
def plainStatement : Parser Statement := fun ts =>
  if (look ts).isKeyword .DRILLTHROUGH then (.drillthrough <$> drillthrough : Parser Statement) ts
  else query ts

/-- `EXPLAIN PLAN FOR` -/
def explainMark : Parser Unit := do
  keyword .EXPLAIN
  keyword .PLAN
  keyword .FOR

theorem spends_explainMark : Spends explainMark :=
  .bind (.keyword _) fun _ => .bind (Spends.keyword _).keeps fun _ => (Spends.keyword _).keeps

/-- A statement, perhaps under `EXPLAIN PLAN FOR`. -/
def statement : Parser Statement := fun ts =>
  if (look ts).isKeyword .EXPLAIN then
    match found : explainMark ts with
    | some (_, rest) =>
      have := spends_explainMark ts () rest found
      (statement rest).map fun (inner, last) => (.explain inner, last)
    | none => none
  else plainStatement ts
termination_by ts => ts.length

/-- Each `EXPLAIN` stands in front of a statement. -/
theorem statement_of_explain {ts : List Token} (h : (look ts).isKeyword .EXPLAIN = true) :
    statement ts = (do
      explainMark
      return .explain (← statement) : Parser Statement) ts := by
  rw [statement, if_pos h, bind_apply]
  split
  · rename_i rest found
    simp only [found, Option.bind_some, Option.map_eq_bind]
    rfl
  · rename_i found
    rw [found, Option.bind_none]

theorem statement_of_plain {ts : List Token} (h : (look ts).isKeyword .EXPLAIN = false) :
    statement ts = plainStatement ts := by
  rw [statement, h, if_neg Bool.false_ne_true]

/-- The end of a statement: a semicolon may stand there. -/
def endStatement : Parser Unit := ifSymbol .semicolon ended ended

/-- One `SELECT` query of a cube and nothing behind it. -/
def wholeSelect : Parser Select := do
  let found ← select
  endStatement
  return found

/-- One statement and nothing behind it. -/
def wholeStatement : Parser Statement := do
  let found ← statement
  endStatement
  return found

/-- The name of a cube and nothing behind it. -/
def wholeCubeName : Parser Name := do
  let found ← cubeName
  ended
  return found

/-- The statement that a list of tokens makes up. -/
def statement? (tokens : List Token) : Option Statement := wholeStatement.run' tokens

/-! ### The tables of the program -/

/-- A token is a count of the grammar exactly if it is one of the program. -/
theorem count?_eq (t : Token) : count? t = ReadM.countOf? t := by
  cases t with
  | number value =>
    simp only [count?, ReadM.countOf?, Decimal.toNat?, ReadM.countBound]
    by_cases whole : value.mantissa % Nat.pow 10 value.scale = 0
    · by_cases small : value.mantissa / Nat.pow 10 value.scale < Nat.pow 2 64 <;>
        simp only [whole, small, and_self, and_false, if_true, if_false, Option.filter_some,
          decide_true, decide_false, Bool.false_eq_true]
    · simp only [whole, false_and, if_false, Option.filter_none]
  | _ => rfl

/-- A count is the token that comes next. -/
theorem count_cons (t : Token) (ts : List Token) :
    count (t :: ts) = (ReadM.countOf? t).map fun n => (n, ts) := by
  rw [← count?_eq]
  rfl

/-- The program tells by the same keywords that a definition begins. -/
theorem opensDefinition_eq (t : Token) : opensDefinition t = ReadM.beginsDefinition t := by
  cases t with
  | keyword k spelling => cases k <;> rfl
  | _ => rfl

/-- The program has the same names for axes. -/
theorem axisName?_eq (t : Token) : axisName? t = ReadM.namedAxis? t := by
  cases t with
  | keyword k spelling => cases k <;> rfl
  | _ => rfl

/-- The axes have the numbers that the program gives them, and the same bound. -/
theorem axisOf?_eq (n : Nat) :
    axisOf? n = if n < Axis.bound then some (.ofOrdinal n) else none := by
  have named : namedAxes.getD n (.ordinal n) = .ofOrdinal n := by
    match n with
    | 0 | 1 | 2 | 3 | 4 => rfl
    | n + 5 => rfl
  rw [axisOf?, named]
  rfl

/-- The program takes the same word for the schema of tables. -/
theorem namesSystem_eq (t : Token) : namesSystem t = ReadM.isSystem t := by
  cases t with
  | word spelling =>
    rw [Bool.eq_iff_iff]
    simp only [namesSystem, ReadM.isSystem, Text.lowerCase, beq_iff_eq]
    exact ⟨fun same => by rw [same, String.ofList_toList], fun same => by
      rw [← same, String.toList_ofList]⟩
  | _ => rfl

end Grammar

end MdxReader
