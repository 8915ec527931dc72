import MdxReader.Proofs.Grammar
import MdxReader.Proofs.Writing

/-!
# Writing queries

`Select.tokens` writes a query.  Axes are written as numbers, expressions as parts of expressions are
(`Expr.enclosed`), and every list of properties that is not empty with its noun.

A well-formed query is parsed back from its tokens (`Grammar.select_tokens`), clause by clause: each
clause is taken whole where the tokens behind it do not go on with it.  For lists this is said once
(`Parser.repeated_flatMap`), and for sub-selects it is an induction on the source.
-/

namespace MdxReader

open Descent

/-! ### The tokens of a query -/

/-- A list of properties with its noun; an empty one is not written. -/
def propertyTokens (noun : Keyword) : List Identifier → List Token
  | [] => []
  | id :: more =>
    .ofKeyword noun :: .ofKeyword .PROPERTIES :: commas ((id :: more).map Identifier.tokens)

/-- An axis is written as its number. -/
def Axis.tokens (axis : Axis) : List Token :=
  (Decimal.ofParts? axis.toOrdinal 0).toList.map .number

/-- The tokens of a clause for an axis. -/
def AxisClause.tokens (clause : AxisClause) : List Token :=
  (if clause.nonEmpty then [.ofKeyword .NON, .ofKeyword .EMPTY] else []) ++ clause.expr.enclosed ++
    propertyTokens .DIMENSION clause.properties ++ .ofKeyword .ON :: clause.axis.tokens

/-- The tokens of what is selected. -/
def Projection.tokens : Projection → List Token
  | empty => []
  | asterisk => [.symbol .star]
  | axes clauses => commas (clauses.map AxisClause.tokens)

/-- The tokens of a condition, if there is one. -/
def slicerTokens : Option Expr → List Token
  | none => []
  | some x => .ofKeyword .WHERE :: x.enclosed

/-- The tokens of what is selected from. -/
def Source.tokens : Source → List Token
  | cube name => [name.token]
  | subselect projection source slicer =>
    .symbol .openParen :: .ofKeyword .SELECT :: projection.tokens ++
      .ofKeyword .FROM :: source.tokens ++ slicerTokens slicer ++ [.symbol .closeParen]

/-- The tokens of a property of a member. -/
def MemberProperty.tokens (property : MemberProperty) : List Token :=
  property.name.token :: .symbol .equal :: property.value.enclosed

/-- The tokens of a definition. -/
def Definition.tokens : Definition → List Token
  | member name formula properties =>
    .ofKeyword .MEMBER :: name.tokens ++ .ofKeyword .AS :: formula.enclosed ++
      properties.flatMap fun property => .symbol .comma :: property.tokens
  | set name formula => .ofKeyword .SET :: name.tokens ++ .ofKeyword .AS :: formula.enclosed

/-- The tokens of all definitions. -/
def withTokens : List Definition → List Token
  | [] => []
  | definition :: more =>
    .ofKeyword .WITH :: definition.tokens ++ more.flatMap Definition.tokens

/-- **The tokens of a query.** -/
def Select.tokens (query : Select) : List Token :=
  withTokens query.definitions ++ .ofKeyword .SELECT :: query.projection.tokens ++
    .ofKeyword .FROM :: query.source.tokens ++ slicerTokens query.slicer ++
    propertyTokens .CELL query.cellProperties

/-- The text of a query. -/
def Select.text (query : Select) : String := spaced query.tokens

/-! ### Axis numbers -/

theorem Axis.Valid.toOrdinal_lt {axis : Axis} (valid : axis.Valid) : axis.toOrdinal < bound := by
  cases axis with
  | ordinal n => exact valid.2
  | _ => decide

/-- Axes with names are the ones with the first numbers. -/
theorem Axis.Valid.ofOrdinal_toOrdinal {axis : Axis} (valid : axis.Valid) :
    ofOrdinal axis.toOrdinal = axis := by
  cases axis with
  | ordinal n =>
    obtain ⟨m, rfl⟩ := Nat.exists_eq_add_of_le' valid.1
    rfl
  | _ => rfl

/-! ### Lists -/

theorem commas_cons (ts : List Token) (more : List (List Token)) :
    commas (ts :: more) = ts ++ more.flatMap (.symbol .comma :: ·) := by
  induction more generalizing ts with
  | nil => simp [commas]
  | cons us more ih =>
    have step : commas (ts :: us :: more) = ts ++ .symbol .comma :: commas (us :: more) := rfl
    rw [step, ih, List.flatMap_cons, List.cons_append]

namespace Parser

variable {α : Type} {p : Parser α} {write : α → List Token} (stop : List Token → Prop)
  {items : List α} {rest : List Token}

/-- A repetition takes as many items as there are, if every one is taken where another one or the
rest follows. -/
theorem repeated_flatMap {test : Token → Bool} {spends : Spends p}
    (each : ∀ a ∈ items, ∀ rest, stop rest → p (write a ++ rest) = some (a, rest))
    (opens : ∀ a ∈ items, ∀ rest, test (look (write a ++ rest)) = true ∧ stop (write a ++ rest))
    (stops : stop rest) (done : test (look rest) = false) :
    repeated test p spends (items.flatMap write ++ rest) = some (items, rest) := by
  induction items with
  | nil => exact repeated_of_ne done
  | cons a items ih =>
    obtain ⟨first, others⟩ := List.forall_mem_cons.mp each
    obtain ⟨begins, more⟩ := List.forall_mem_cons.mp opens
    have behind : stop (items.flatMap write ++ rest) := by
      cases items with
      | nil => exact stops
      | cons b items =>
        rw [List.flatMap_cons, List.append_assoc]
        exact (more b List.mem_cons_self _).2
    rw [List.flatMap_cons, List.append_assoc, repeated_of_look (begins _).1,
      bind_of_some (first _ behind), bind_of_some (ih others more)]
    rfl

variable {keeps : Keeps p}

/-- Items behind commas. -/
theorem further_flatMap
    (each : ∀ a ∈ items, ∀ rest, stop rest → p (write a ++ rest) = some (a, rest))
    (comma : ∀ rest, stop (.symbol .comma :: rest)) (stops : stop rest)
    (done : (look rest).isSymbol .comma = false) :
    further p keeps (items.flatMap (fun a => .symbol .comma :: write a) ++ rest) =
      some (items, rest) :=
  repeated_flatMap stop each (fun _ _ _ => ⟨rfl, comma _⟩) stops done

/-- Items with commas between them. -/
theorem separated_commas (some' : items ≠ [])
    (each : ∀ a ∈ items, ∀ rest, stop rest → p (write a ++ rest) = some (a, rest))
    (comma : ∀ rest, stop (.symbol .comma :: rest)) (stops : stop rest)
    (done : (look rest).isSymbol .comma = false) :
    separated p keeps (commas (items.map write) ++ rest) = some (items, rest) := by
  obtain ⟨a, items, rfl⟩ := List.exists_cons_of_ne_nil some'
  obtain ⟨first, others⟩ := List.forall_mem_cons.mp each
  have behind : stop (items.flatMap (fun a => .symbol .comma :: write a) ++ rest) := by
    cases items with
    | nil => exact stops
    | cons b items => exact comma _
  rw [List.map_cons, commas_cons, List.flatMap_map, List.append_assoc]
  unfold separated
  rw [bind_of_some (first _ behind), bind_of_some (further_flatMap stop others comma stops done)]
  rfl

end Parser

/-! ### Expressions and properties -/

namespace Grammar

open MdxReader.Parser

/-- Neither an expression nor a list or a clause goes on with these tokens. -/
structure Closed (rest : List Token) : Prop extends Ended false rest where
  noComma : (look rest).isSymbol .comma = false
  noClause : ∀ k ∈ [Keyword.WHERE, .DIMENSION, .CELL, .PROPERTIES], (look rest).isKeyword k = false

/-- A keyword that is neither an operator nor begins a clause ends whatever stands in front of it.
-/
theorem closed_ofKeyword {k : Keyword} (other : k ∉ operatorKeywords)
    (noClause : k ∉ [Keyword.WHERE, .DIMENSION, .CELL, .PROPERTIES]) (rest : List Token) :
    Closed (.ofKeyword k :: rest) := by
  refine ⟨ended_ofKeyword other rest, rfl, fun clause mem => ?_⟩
  simp only [look, List.headD_cons, Token.ofKeyword, Token.isKeyword, beq_eq_false_iff_ne]
  rintro rfl
  exact noClause mem

/-- An expression that was written in parentheses is read back in front of whatever ends one. -/
theorem expression_enclosed {x : Expr} (wellFormed : x.WellFormed) {rest : List Token}
    (ended : Ended false rest) : expression (x.enclosed ++ rest) = some (x, rest) :=
  (wellFormed.readBack fun _ => expr?_tokens wellFormed).expr? ended

/-- What an expression begins with is told from keywords and from most symbols. -/
theorem exists_begins_enclosed {x : Expr} (wellFormed : x.WellFormed) :
    ∃ t later, x.enclosed = t :: later ∧ t.Begins :=
  (wellFormed.readBack fun _ => expr?_tokens wellFormed).begins

/-- What an identifier begins with is no string, so it is no formula in quotes. -/
theorem look_identifier_ne_string (id : Identifier) (rest : List Token) (text : String)
    (quote : Quote) : look (id.tokens ++ rest) ≠ .string text quote := by
  induction id generalizing rest with
  | single segment =>
    match segment with
    | .name ⟨_, .quoted⟩ | .key ⟨⟨_, .bare⟩, _⟩ | .key ⟨⟨_, .quoted⟩, _⟩ => nofun
    | .name ⟨word, .bare⟩ =>
      change Token.ofWord word ≠ _
      unfold Token.ofWord
      split <;> nofun
  | dotted qualifier segment ih =>
    rw [Identifier.tokens, List.append_assoc]
    exact ih _

/-- A part of an expression never begins with a string. -/
theorem look_enclosed_ne_string {x : Expr} (wellFormed : x.WellFormed) (rest : List Token)
    (text : String) (quote : Quote) : look (x.enclosed ++ rest) ≠ .string text quote := by
  cases wellFormed with
  | identifier valid => exact look_identifier_ne_string _ rest text quote
  | _ => nofun

/-- An identifier is read back where no dot follows. -/
theorem identifier_tokens {id : Identifier} (valid : id.Valid) {rest : List Token}
    (detached : Detached rest) : identifier (id.tokens ++ rest) = some (id, rest) := by
  unfold identifier
  rw [identifier?_tokens valid detached.noKey, moreSegments_of_no_dot id rest detached.noDot]

/-- A list of identifiers is read back where no comma follows. -/
theorem identifiers_tokens {ids : List Identifier} (some' : ids ≠ [])
    (valid : ∀ id ∈ ids, id.Valid) {rest : List Token} (detached : Detached rest)
    (noComma : (look rest).isSymbol .comma = false) :
    identifiers (commas (ids.map Identifier.tokens) ++ rest) = some (ids, rest) :=
  separated_commas Detached some' (fun id mem _ => identifier_tokens (valid id mem))
    (fun _ => ⟨⟨rfl, rfl⟩, rfl⟩) detached noComma

/-- A list of properties is written only if it has any, and read back either way. -/
theorem propertyList_tokens {noun : Keyword} (known : noun ∈ [Keyword.DIMENSION, .CELL])
    {ids : List Identifier} (valid : ∀ id ∈ ids, id.Valid) {rest : List Token}
    (closed : Closed rest) :
    propertyList noun (propertyTokens noun ids ++ rest) = some (ids, rest) := by
  unfold propertyList
  cases ids with
  | nil =>
    have noNoun : (look rest).isKeyword noun = false := closed.noClause noun (by
      revert known
      cases noun <;> decide)
    have noList := closed.noClause .PROPERTIES (by decide)
    exact (ifKeyword_of_ne noNoun).trans (ifKeyword_of_ne noList)
  | cons id more =>
    have begins : (look (propertyTokens noun (id :: more) ++ rest)).isKeyword noun = true := by
      simp [propertyTokens, Token.ofKeyword, look, Token.isKeyword]
    rw [ifKeyword_of_look begins]
    exact identifiers_tokens (List.cons_ne_nil _ _) valid closed.toDetached closed.noComma

/-- Properties end the expression in front of them, be there any or not. -/
theorem ended_propertyTokens (noun : Keyword) (known : noun ∈ [Keyword.DIMENSION, .CELL])
    (ids : List Identifier) {rest : List Token} (ended : Ended false rest) :
    Ended false (propertyTokens noun ids ++ rest) := by
  have others : ∀ noun ∈ [Keyword.DIMENSION, .CELL], noun ∉ operatorKeywords := by decide
  cases ids with
  | nil => exact ended
  | cons id more => exact ended_ofKeyword (others noun known) _

/-! ### Axes -/

/-- A count is written as its digits, which are a number without a fraction. -/
theorem countOf?_ofParts? {n : Nat} (small : n < ReadM.countBound) {d : Decimal}
    (made : Decimal.ofParts? n 0 = some d) : ReadM.countOf? (.number d) = some n := by
  obtain ⟨mantissa, scale⟩ := Decimal.parts_of_ofParts? made
  have whole : d.toNat? = some n := by
    unfold Decimal.toNat?
    simp [mantissa, scale, Nat.mod_one]
  simp only [ReadM.countOf?, whole, Option.filter_some, small, decide_true, if_true]

/-- An axis is written as its number, and read back as the one that it was. -/
theorem axis_tokens {found : Axis} (valid : found.Valid) (rest : List Token) :
    axis (found.tokens ++ rest) = some (found, rest) := by
  have small := valid.toOrdinal_lt
  obtain ⟨d, made⟩ : ∃ d, Decimal.ofParts? found.toOrdinal 0 = some d :=
    ⟨_, dif_pos ⟨Nat.lt_trans small (by decide), Nat.zero_le _⟩⟩
  have written : found.tokens = [.number d] := by
    rw [Axis.tokens, made]
    rfl
  have counted := countOf?_ofParts? (Nat.lt_trans small (by decide)) made
  have number : axisNumber (.number d :: rest) = some (found.toOrdinal, rest) := by
    refine (ifKeyword_of_ne rfl).trans ?_
    rw [count_cons, counted]
    rfl
  rw [written]
  change numberedAxis (.number d :: rest) = _
  unfold numberedAxis
  rw [bind_of_some number, axisOf?_eq, if_pos small, valid.ofOrdinal_toOrdinal]
  rfl

/-- An expression in parentheses does not begin with `NON`. -/
theorem nonEmpty_tokens (marked : Bool) {x : Expr} (wellFormed : x.WellFormed)
    (rest : List Token) :
    nonEmpty ((if marked then [.ofKeyword .NON, .ofKeyword .EMPTY] else []) ++
      (x.enclosed ++ rest)) = some (marked, x.enclosed ++ rest) := by
  cases marked with
  | true => rfl
  | false =>
    obtain ⟨t, later, starts, -, noKeyword⟩ := exists_begins_enclosed wellFormed
    rw [starts]
    exact ifKeyword_of_ne (noKeyword .NON rfl)

theorem axisClause_tokens {clause : AxisClause} (wellFormed : clause.WellFormed)
    (rest : List Token) : axisClause (clause.tokens ++ rest) = some (clause, rest) := by
  obtain ⟨marked, x, properties, found⟩ := clause
  obtain ⟨inner, valid, onAxis⟩ := wellFormed
  have closed : Closed (.ofKeyword .ON :: (found.tokens ++ rest)) :=
    closed_ofKeyword (by decide) (by decide) _
  have ended := ended_propertyTokens .DIMENSION (by decide) properties closed.toEnded
  simp only [AxisClause.tokens, List.append_assoc, List.cons_append]
  unfold axisClause
  rw [bind_of_some (nonEmpty_tokens marked inner _), bind_of_some (expression_enclosed inner ended),
    bind_of_some (propertyList_tokens (by decide) valid closed), bind_of_some (keyword_of_look rfl)]
  exact bind_of_some (axis_tokens onAxis rest)

/-- A clause begins neither like the end of the axes nor like all of them. -/
theorem look_axisClause {clause : AxisClause} (wellFormed : clause.WellFormed)
    (rest : List Token) : (look (clause.tokens ++ rest)).isKeyword .FROM = false ∧
      (look (clause.tokens ++ rest)).isSymbol .star = false := by
  obtain ⟨marked, x, properties, found⟩ := clause
  obtain ⟨t, later, starts, noSymbol, noKeyword⟩ := exists_begins_enclosed wellFormed.1
  cases marked with
  | true => exact ⟨rfl, rfl⟩
  | false =>
    simp only [AxisClause.tokens, starts, Bool.false_eq_true, if_false]
    exact ⟨noKeyword .FROM rfl, noSymbol .star (by decide)⟩

/-- What is selected is read back in front of `FROM`. -/
theorem projection_tokens {found : Projection} (wellFormed : found.WellFormed)
    (rest : List Token) :
    projection (found.tokens ++ .ofKeyword .FROM :: rest) =
      some (found, .ofKeyword .FROM :: rest) := by
  unfold projection
  rw [map_eq_pure_bind]
  cases found with
  | empty => exact bind_of_some (selected_of_from rfl)
  | asterisk => exact bind_of_some (selected_of_star rfl)
  | axes clauses =>
    obtain ⟨some', each⟩ := wellFormed
    obtain ⟨clause, more, rfl⟩ := List.exists_cons_of_ne_nil some'
    let behind := (more.map AxisClause.tokens).flatMap (.symbol .comma :: ·) ++
      .ofKeyword .FROM :: rest
    have tokens : commas ((clause :: more).map AxisClause.tokens) ++ .ofKeyword .FROM :: rest =
        clause.tokens ++ behind := by
      rw [List.map_cons, commas_cons, List.append_assoc]
    have items : separated axisClause keeps_axisClause (clause.tokens ++ behind) =
        some (clause :: more, .ofKeyword .FROM :: rest) := by
      rw [← tokens]
      exact separated_commas (fun _ => True) some'
        (fun clause mem rest _ => axisClause_tokens (each clause mem) rest) (fun _ => trivial)
        trivial rfl
    obtain ⟨noFrom, noStar⟩ := look_axisClause (each clause List.mem_cons_self) behind
    have read : selected axisClause keeps_axisClause (clause.tokens ++ behind) =
        some (some (clause :: more), .ofKeyword .FROM :: rest) := by
      rw [selected_of_items noFrom noStar, map_eq_pure_bind]
      exact bind_of_some items
    rw [Projection.tokens, tokens]
    exact bind_of_some read

/-! ### Sources -/

/-- A condition is written only if there is one. -/
theorem slicer_tokens {condition : Option Expr} (wellFormed : ∀ x ∈ condition, x.WellFormed)
    {rest : List Token} (ended : Ended false rest)
    (noWhere : (look rest).isKeyword .WHERE = false) :
    slicer (slicerTokens condition ++ rest) = some (condition, rest) := by
  cases condition with
  | none => exact ifKeyword_of_ne noWhere
  | some x =>
    refine (ifKeyword_of_look rfl).trans ?_
    rw [map_eq_pure_bind]
    exact bind_of_some (expression_enclosed (wellFormed x rfl) ended)

theorem name_token {found : Name} (valid : found.Valid) (rest : List Token) :
    name (found.token :: rest) = some (found, rest) :=
  congrArg (Option.map fun a => (a, rest)) (name?_token valid)

theorem cubeName_token {found : Name} (valid : found.Valid) {rest : List Token}
    (noDot : (look rest).isSymbol .dot = false) :
    cubeName (found.token :: rest) = some (found, rest) := by
  unfold cubeName
  rw [bind_of_some (name_token valid rest)]
  exact if_neg (Bool.eq_false_iff.mp noDot)

theorem isSymbol_token (found : Name) (s : Symbol) : found.token.isSymbol s = false := by
  obtain ⟨text, quoting⟩ := found
  cases quoting with
  | bare =>
    simp only [Name.token, Token.ofWord]
    split <;> rfl
  | quoted => rfl

/-- The induction is on the sub-selects; the name of the cube must not be followed by a dot. -/
theorem source_tokens {found : Source} (wellFormed : found.WellFormed) {rest : List Token}
    (noDot : (look rest).isSymbol .dot = false) :
    source (found.tokens ++ rest) = some (found, rest) := by
  -- Behind a source within a sub-select its condition follows, so the induction is for every rest.
  induction found generalizing rest with
  | cube found =>
    have noParen : (look (found.token :: rest)).isSymbol .openParen = false :=
      isSymbol_token found .openParen
    refine (source_of_name noParen).trans ?_
    rw [map_eq_pure_bind]
    exact bind_of_some (cubeName_token wellFormed noDot)
  | subselect selected inner condition ih =>
    obtain ⟨clauses, nested, conditions⟩ := wellFormed
    have behind : (look (slicerTokens condition ++ .symbol .closeParen :: rest)).isSymbol .dot =
        false := by
      cases condition <;> rfl
    have opened : opening (.symbol .openParen :: .ofKeyword .SELECT :: (selected.tokens ++
        .ofKeyword .FROM :: (inner.tokens ++ (slicerTokens condition ++
          .symbol .closeParen :: rest)))) =
        some (selected, inner.tokens ++ (slicerTokens condition ++
          .symbol .closeParen :: rest)) := by
      unfold opening
      rw [bind_of_some (symbol_of_look rfl), bind_of_some (keyword_of_look rfl)]
      exact (bind_of_some (projection_tokens clauses _)).trans
        (bind_of_some (keyword_of_look rfl))
    simp only [Source.tokens, List.append_assoc, List.cons_append, List.nil_append]
    rw [source_of_paren rfl, bind_of_some opened, bind_of_some (ih nested behind)]
    unfold closing
    rw [bind_of_some (slicer_tokens conditions ⟨⟨⟨rfl, rfl⟩, rfl⟩, rfl⟩ rfl)]
    exact bind_of_some (symbol_of_look rfl)

/-! ### Definitions -/

theorem memberProperty_tokens {property : MemberProperty} (wellFormed : property.WellFormed)
    {rest : List Token} (ended : Ended false rest) :
    memberProperty (property.tokens ++ rest) = some (property, rest) := by
  obtain ⟨found, x⟩ := property
  obtain ⟨valid, inner⟩ := wellFormed
  simp only [MemberProperty.tokens, List.cons_append]
  unfold memberProperty
  rw [bind_of_some (name_token valid _), bind_of_some (symbol_of_look rfl)]
  exact bind_of_some (expression_enclosed inner ended)

/-- A formula is written in parentheses, so it is never taken for one in quotes. -/
theorem formula_enclosed {x : Expr} (wellFormed : x.WellFormed) {rest : List Token}
    (ended : Ended false rest) : formula (x.enclosed ++ rest) = some (x, rest) := by
  unfold formula
  split
  · rename_i text quoted
    exact absurd quoted (look_enclosed_ne_string wellFormed rest text .single)
  · exact expression_enclosed wellFormed ended

/-- Neither the formula nor the properties of a definition go on with these tokens. -/
def Defined (rest : List Token) : Prop :=
  Ended false rest ∧ (look rest).isSymbol .comma = false

/-- A definition is read back in front of another one or of `SELECT`. -/
theorem definition_tokens {found : Definition} (wellFormed : found.WellFormed)
    {rest : List Token} (defined : Defined rest) :
    definition (found.tokens ++ rest) = some (found, rest) := by
  obtain ⟨ended, noComma⟩ := defined
  have detached (later : List Token) : Detached (.ofKeyword .AS :: later) := ⟨⟨rfl, rfl⟩, rfl⟩
  cases found with
  | member named x properties =>
    obtain ⟨valid, inner, each⟩ := wellFormed
    have behind : Ended false (properties.flatMap
        (fun property => .symbol .comma :: property.tokens) ++ rest) := by
      cases properties with
      | nil => exact ended
      | cons property more => exact ⟨⟨⟨rfl, rfl⟩, rfl⟩, rfl⟩
    simp only [Definition.tokens, List.append_assoc, List.cons_append]
    refine (ifKeyword_of_look rfl).trans ?_
    refine (bind_of_some (identifier_tokens valid (detached _))).trans ?_
    rw [bind_of_some (keyword_of_look rfl)]
    refine (bind_of_some (formula_enclosed inner behind)).trans ?_
    exact bind_of_some (further_flatMap (Ended false)
      (fun property mem _ => memberProperty_tokens (each property mem))
      (fun _ => ⟨⟨⟨rfl, rfl⟩, rfl⟩, rfl⟩) ended noComma)
  | set named x =>
    obtain ⟨valid, inner⟩ := wellFormed
    simp only [Definition.tokens, List.append_assoc, List.cons_append]
    refine (ifKeyword_of_ne rfl).trans ?_
    rw [bind_of_some (keyword_of_look rfl)]
    refine (bind_of_some (identifier_tokens valid (detached _))).trans ?_
    rw [bind_of_some (keyword_of_look rfl)]
    exact bind_of_some (formula_enclosed inner ended)

/-- A definition goes on with the list of definitions and ends the one before. -/
theorem look_definition (found : Definition) (rest : List Token) :
    opensDefinition (look (found.tokens ++ rest)) = true ∧
      Defined (found.tokens ++ rest) := by
  cases found <;> exact ⟨rfl, ended_ofKeyword (by decide) _, rfl⟩

theorem withClause_tokens {definitions : List Definition}
    (wellFormed : ∀ found ∈ definitions, found.WellFormed) (rest : List Token) :
    withClause (withTokens definitions ++ .ofKeyword .SELECT :: rest) =
      some (definitions, .ofKeyword .SELECT :: rest) := by
  have last : Defined (.ofKeyword .SELECT :: rest) := ⟨ended_ofKeyword (by decide) _, rfl⟩
  cases definitions with
  | nil => exact ifKeyword_of_ne rfl
  | cons found more =>
    obtain ⟨first, others⟩ := List.forall_mem_cons.mp wellFormed
    have behind : Defined (more.flatMap Definition.tokens ++ .ofKeyword .SELECT :: rest) := by
      cases more with
      | nil => exact last
      | cons next more =>
        rw [List.flatMap_cons, List.append_assoc]
        exact (look_definition next _).2
    simp only [withTokens, List.append_assoc, List.cons_append]
    refine (ifKeyword_of_look rfl).trans ?_
    refine (bind_of_some (definition_tokens first behind)).trans ?_
    exact bind_of_some (repeated_flatMap Defined
      (fun found mem _ => definition_tokens (others found mem))
      (fun found _ => look_definition found) last rfl)

/-! ### Queries -/

/-- **A query is parsed back from its tokens**, up to where they end. -/
theorem select_tokens {query : Select} (wellFormed : query.WellFormed) {rest : List Token}
    (closed : Closed rest) : select (query.tokens ++ rest) = some (query, rest) := by
  obtain ⟨definitions, selected, found, condition, properties⟩ := query
  obtain ⟨defined, clauses, nested, conditions, valid⟩ := wellFormed
  have ended := ended_propertyTokens .CELL (by decide) properties closed.toEnded
  have noWhere : (look (propertyTokens .CELL properties ++ rest)).isKeyword .WHERE = false := by
    cases properties with
    | nil => exact closed.noClause .WHERE (by decide)
    | cons id more => rfl
  have noDot : (look (slicerTokens condition ++ (propertyTokens .CELL properties ++ rest))).isSymbol
      .dot = false := by
    cases condition with
    | none => exact ended.noDot
    | some x => rfl
  simp only [Select.tokens, List.append_assoc, List.cons_append]
  unfold select
  rw [bind_of_some (withClause_tokens defined _), bind_of_some (keyword_of_look rfl)]
  refine (bind_of_some (projection_tokens clauses _)).trans ?_
  rw [bind_of_some (keyword_of_look rfl)]
  refine (bind_of_some (source_tokens nested noDot)).trans ?_
  rw [bind_of_some (slicer_tokens conditions ended noWhere)]
  exact bind_of_some (propertyList_tokens (by decide) valid closed)

end Grammar

end MdxReader
