import Mathlib
import MdxReader.Proofs.Grammar.Delayed
import MdxReader.Proofs.Parsing
import MdxReader.Proofs.Precedence
import MdxReader.Proofs.Room

/-!
# The reading of statements is recursive descent

Every reading that statements are made of parses what the grammar has for it.  Most of that follows
the readings line by line, with the rules of `MdxReader.Proofs.Parsing`.  Three things do not:

* Items are read as what may be an axis or a column, and judged behind `FROM`
  (`MdxReader.Proofs.Grammar.Delayed`).
* Sub-selects are read inward onto a stack and closed outward.  With sub-selects open, what is still
  to come off the tokens is a source and the ends of all of them (`sourceIn`).
* Marks of `EXPLAIN` are counted and put around the statement afterwards (`statementUnder`).

With the limit out of the way (`Goal.shallow_of_length_le`) it follows that a text is read as a
statement exactly if the grammar makes one of its tokens (`read_statement_iff`).
-/

namespace MdxReader

open Descent

namespace ReadM

/-! ### Names and formulas -/

theorem parses_expression : Parses id expression Grammar.expression :=
  fun r => yields_expression r

theorem parses_name : Parses id name Grammar.name := fun r => yields_name r

theorem parses_identifier : Parses id identifier Grammar.identifier := fun r => yields_identifier r

theorem parses_identifiers : Parses id identifiers Grammar.identifiers := by
  have all : Parses (List.map id) identifiers Grammar.identifiers :=
    Parses.separated parses_identifier
  rwa [List.map_id_fun] at all

theorem parses_count (expected : Expected) : Parses id (count expected) Grammar.count := by
  intro r
  refine Means.get ?_
  unfold Grammar.count Parser.take
  rw [r.look_tokens, Grammar.count?_eq]
  cases held : countOf? r.token with
  | some n =>
    have more : r.token ≠ .endOfText := by
      intro reached
      rw [reached] at held
      cases held
    have value : Parses id (Pure.pure n : ReadM Nat) (Pure.pure n) := Parses.pure n
    exact Means.past (f := fun _ => Pure.pure n) more value
  | none => exact Means.failExpecting rfl

/-- The dot behind a name of a cube is an error in both. -/
theorem parses_cubeName : Parses id cubeName Grammar.cubeName := by
  refine Parses.andThen parses_name fun found r => Means.get ?_
  rw [r.look_tokens]
  by_cases dot : r.token.isSymbol .dot = true
  · rw [if_pos dot, if_pos dot]
    exact Means.throw rfl
  · rw [if_neg dot, if_neg dot]
    exact Means.pure rfl

theorem parses_wholeExpression : Parses id wholeExpression Grammar.wholeExpression :=
  Parses.andThen parses_expression fun x => Parses.andThen parses_expectEnd fun _ => Parses.pure x

/-- A reading that demands the end of the text comes to a reader that sees it. -/
theorem clean_of_expectEnd {u : Unit} {r after : Reader} (h : expectEnd r = .ok u after) :
    after.Clean := by
  change (if r.token = .endOfText then _ else _ : ReadM Unit) r = _ at h
  by_cases reached : r.token = .endOfText
  · rw [if_pos reached] at h
    cases h
    unfold Reader.Clean
    rw [r.tokens_eq, reached]
    exact List.mem_cons_self
  · rw [if_neg reached] at h
    cases h

/-- Where the end is ahead later, it was ahead before. -/
theorem clean_of_passes {r after : Reader} (h : r.Passes after)
    (clean : after.Clean) : r.Clean :=
  (h.suffix.map Located.token).subset clean

/-- A formula in quotes is parsed from all the tokens of its text. -/
theorem quoted?_of_tokens {text : String} {tokens : List Located}
    (scanned : tokensOf text = .ok tokens) :
    Grammar.quoted? text = Grammar.wholeExpression.run' (tokens.map Located.token) := by
  unfold Grammar.quoted?
  rw [scanned]

/-- The expression in quotes makes up the whole text there, or there is none. -/
theorem means_inside (text : String) (r : Reader) :
    Means (inside text wholeExpression) (fun x ts => some (x, ts))
      ((Grammar.quoted? text).map fun x => (x, r.tokens)) r := by
  -- A text that cannot be scanned holds no expression.
  have unscanned {e : ScanError} (scanned : tokensOf text = .error e) :
      (Grammar.quoted? text).map (fun x => (x, r.tokens)) = none := by
    unfold Grammar.quoted?
    rw [scanned]
    rfl
  unfold Means inside
  cases start : Reader.ofText text r.limit with
  | error e =>
    intro _
    left
    cases scanned : tokensOf text with
    | error e => exact unscanned scanned
    | ok tokens =>
      obtain ⟨inner, started, -⟩ := Reader.exists_ofText r.limit scanned
      rw [started] at start
      cases start
  | ok inner =>
    by_cases reached : r.limit < r.depth + 1
    · simp only [if_pos reached]
      exact fun _ => .inr ⟨_, rfl⟩
    simp only [if_neg reached]
    let below : Reader := { inner with depth := r.depth + 1, events := r.events }
    have means := parses_wholeExpression below
    have same (events : List LevelEvent) : r.Passes { r with events } := ⟨List.suffix_refl _, id⟩
    unfold Means at means
    cases found : wholeExpression below with
    | ok x after =>
      rw [found] at means
      refine ⟨?_, same _⟩
      -- The reader has seen the end of the inner text, so all of that was scanned.
      obtain ⟨_, _, _, ended⟩ := bind_eq_ok found
      obtain ⟨_, _, last, made⟩ := bind_eq_ok ended
      cases made
      have clean : below.Clean := clean_of_passes means.2 (clean_of_expectEnd last)
      obtain ⟨tokens, scanned⟩ := Reader.exists_tokensOf_of_clean start clean
      have ahead : below.tokens = tokens.map Located.token :=
        congrArg _ ((Reader.ahead_of_ofText start).trans (Feed.ahead_ofText scanned))
      rw [quoted?_of_tokens scanned, ← ahead]
      exact congrArg (Option.map fun x => (x, r.tokens)) (congrArg (Option.map Prod.fst) means.1)
    | error e after =>
      rw [found] at means
      intro _
      cases scanned : tokensOf text with
      | error e => exact .inl (unscanned scanned)
      | ok tokens =>
        obtain ⟨_, started, ahead, clean⟩ := Reader.exists_ofText r.limit scanned
        rw [started] at start
        cases start
        refine (means clean).imp ?_ id
        intro none
        have tokens : below.tokens = tokens.map Located.token := congrArg _ ahead
        rw [quoted?_of_tokens scanned, ← tokens]
        exact congrArg (Option.map fun x => (x, r.tokens)) (congrArg (Option.map Prod.fst) none)

/-- A string in single quotes is a text of its own; anything else is an expression in place. -/
theorem parses_formula : Parses id formula Grammar.formula := by
  intro r
  refine Means.get ?_
  unfold Grammar.formula
  rw [r.look_tokens]
  cases token : r.token with
  | string text quote =>
    cases quote with
    | double => exact parses_expression r
    | single =>
      change Means _ _ ((Grammar.quoted? text).map fun x => (x, r.tokens.drop 1)) r
      refine Means.bind (means_inside text r) (fun x after found => ?_) fun none => ?_
      · obtain ⟨y, quoted, made⟩ := Option.map_eq_some_iff.mp found
        obtain ⟨rfl, tokens⟩ := Prod.mk.inj made
        have here : after.token = r.token := by
          rw [← after.look_tokens, ← tokens, r.look_tokens]
        have more : after.token ≠ .endOfText := by
          rw [here, token]
          nofun
        have value : Parses id (Pure.pure y : ReadM Expr) (Pure.pure y) := Parses.pure y
        rw [quoted, tokens]
        exact Means.past (f := fun _ => Pure.pure y) more value
      · rw [Option.map_eq_none_iff] at none
        rw [none]
        rfl
  | _ => exact parses_expression r

/-! ### Definitions -/

theorem parses_memberProperty : Parses id memberProperty Grammar.memberProperty := by
  refine Parses.andThen parses_name fun _ => Parses.andThen (Parses.expect _) fun _ => ?_
  exact Parses.andThen parses_expression fun _ => Parses.pure _

/-- A round of definitions reads one. -/
theorem means_moreDefinitions (definitions : List Definition) (r : Reader)
    (begins : beginsDefinition r.token = true) :
    Means (moreDefinitions definitions) (fun all ts => some (all.map id, ts))
      ((Grammar.definition >>= fun found => pure (found :: definitions.map id)) r.tokens) r := by
  rw [List.map_id_fun]
  refine Means.get ?_
  unfold beginsDefinition at begins
  by_cases member : r.token.isKeyword .MEMBER = true
  · have comes : (look r.tokens).isKeyword .MEMBER = true := member
    unfold Grammar.definition
    rw [Parser.bind_congr_at (Parser.ifKeyword_of_look comes)]
    simp only [member, if_true]
    refine Means.past (Token.ne_endOfText_of_isKeyword member) ?_
    simp only [bind_assoc, pure_bind]
    refine Parses.andThen parses_identifier fun defined => ?_
    refine Parses.andThen (Parses.expectKeyword _) fun _ => ?_
    refine Parses.andThen parses_formula fun formula => ?_
    exact Parses.andThen (Parses.further parses_memberProperty) fun _ => Parses.pure _
  · have set : r.token.isKeyword .SET = true := by simpa [member] using begins
    have misses : (look r.tokens).isKeyword .MEMBER = false := Bool.eq_false_iff.mpr member
    have comes : (look r.tokens).isKeyword .SET = true := set
    unfold Grammar.definition
    rw [Parser.bind_congr_at (Parser.ifKeyword_of_ne misses), bind_assoc,
      Parser.bind_of_some (Parser.keyword_of_look comes)]
    simp only [member]
    refine Means.past (Token.ne_endOfText_of_isKeyword set) ?_
    simp only [bind_assoc, pure_bind]
    refine Parses.andThen parses_identifier fun defined => ?_
    refine Parses.andThen (Parses.expectKeyword _) fun _ => ?_
    exact Parses.andThen parses_formula fun formula => Parses.pure _

/-- The loop collects definitions newest first, and the list is reversed behind it. -/
theorem parses_withClause : Parses id withClause Grammar.withClause := by
  refine Parses.ifKeyword ?_ (Parses.pure _)
  intro r
  refine Means.get ?_
  rw [show Grammar.opensDefinition = beginsDefinition from funext Grammar.opensDefinition_eq]
  by_cases begins : beginsDefinition r.token = true
  · have comes : beginsDefinition (look r.tokens) = true := begins
    have loop : Parses (List.map id)
        (whileToken beginsDefinition moreDefinitions (fun _ _ => Spends.moreDefinitions) [])
        (do return (← Parser.repeated beginsDefinition Grammar.definition
          Grammar.spends_definition).reverse ++ [].map id) :=
      Parses.whileToken means_moreDefinitions []
    rw [List.map_id_fun] at loop
    have turned : Parses id
        (do return (← whileToken beginsDefinition moreDefinitions
          (fun _ _ => Spends.moreDefinitions) []).reverse)
        ((do return (← Parser.repeated beginsDefinition Grammar.definition
          Grammar.spends_definition).reverse ++ [] : Parser (List Definition)) >>=
            fun all => Pure.pure all.reverse) :=
      Parses.andThen loop fun all => Parses.pure all.reverse
    simp only [List.append_nil, bind_assoc, pure_bind, List.reverse_reverse, bind_pure] at turned
    have means := turned r
    rw [Parser.repeated_of_look comes] at means
    rw [if_pos begins]
    exact means
  · rw [if_neg begins]
    refine Means.failExpecting (Parser.bind_of_none ?_)
    -- Neither kind of definition begins here.
    have neither : r.token.isKeyword .MEMBER = false ∧ r.token.isKeyword .SET = false := by
      simpa [beginsDefinition] using begins
    have noMember : (look r.tokens).isKeyword .MEMBER = false := neither.1
    have noSet : (look r.tokens).isKeyword .SET = false := neither.2
    unfold Grammar.definition
    rw [Parser.ifKeyword_of_ne noMember, Parser.bind_of_none (Parser.keyword_eq_none noSet)]

/-! ### Axes and columns -/

theorem parses_nonEmpty : Parses id nonEmpty Grammar.nonEmpty :=
  Parses.ifKeyword (Parses.andThen (Parses.expectKeyword _) fun _ => Parses.pure _) (Parses.pure _)

theorem parses_propertyList (noun : Keyword) :
    Parses id (propertyList noun) (Grammar.propertyList noun) :=
  Parses.ifKeyword (Parses.andThen (Parses.expectKeyword _) fun _ => parses_identifiers)
    (Parses.ifKeyword parses_identifiers (Parses.pure _))

theorem parses_axisNumber : Parses id axisNumber Grammar.axisNumber := by
  refine Parses.ifKeyword ?_ (parses_count _)
  refine Parses.andThen (Parses.expect _) fun _ => Parses.andThen (parses_count _) fun _ => ?_
  exact Parses.andThen (Parses.expect _) fun _ => Parses.pure _

/-- The bound on axes is judged behind the number. -/
theorem parses_axis : Parses id axis Grammar.axis := by
  have numbered : Parses id (do
      let n ← axisNumber
      if n < Axis.bound then return .ofOrdinal n else failBreaking (.axisInRange n))
      Grammar.numberedAxis := by
    refine Parses.andThen parses_axisNumber fun n => ?_
    rw [Grammar.axisOf?_eq]
    by_cases small : n < Axis.bound
    · rw [if_pos small, if_pos small]
      exact Parses.pure _
    · rw [if_neg small, if_neg small]
      exact Parses.failBreaking
  intro r
  refine Means.get ?_
  unfold Grammar.axis
  rw [r.look_tokens, Grammar.axisName?_eq]
  cases named : namedAxis? r.token with
  | some axis =>
    have more : r.token ≠ .endOfText := by
      intro reached
      rw [reached] at named
      cases named
    have value : Parses id (Pure.pure axis : ReadM Axis) (Pure.pure axis) := Parses.pure axis
    exact Means.past (f := fun _ => Pure.pure axis) more value
  | none => exact numbered r

/-- An item as an entry, without the place where it ends. -/
def entryOf (item : Item) : Grammar.Entry :=
  ⟨item.nonEmpty, item.expr, item.properties, item.axis⟩

/-- An item is an entry of the grammar, with the place where it ends left out. -/
theorem parses_item : Parses entryOf item Grammar.entry := by
  refine Parses.andThen parses_nonEmpty fun nonEmpty => ?_
  refine Parses.andThen parses_expression fun expr => ?_
  refine Parses.andThen (parses_propertyList _) fun properties r => Means.get ?_
  by_cases on : r.token.isKeyword .ON = true
  · have comes : (look r.tokens).isKeyword .ON = true := on
    rw [if_pos on, Parser.bind_congr_at (Parser.ifKeyword_of_look comes), map_eq_pure_bind,
      bind_assoc]
    refine Means.past (Token.ne_endOfText_of_isKeyword on) ?_
    simp only [pure_bind]
    exact Parses.andThen parses_axis fun found =>
      Parses.pure (⟨nonEmpty, expr, properties, some found, r.place⟩ : Item)
  · have misses : (look r.tokens).isKeyword .ON = false := Bool.eq_false_iff.mpr on
    rw [if_neg on, Parser.bind_congr_at (Parser.ifKeyword_of_ne misses)]
    exact Means.pure rfl

/-- The entries of what is selected; a lone `*` has no list of them. -/
def entriesOf : Selection → Option (List Grammar.Entry)
  | .asterisk => none
  | .items all => some (all.map entryOf)

/-- What is selected is not judged before `FROM`, so the items are entries of either kind. -/
theorem parses_selection :
    Parses entriesOf selection (Grammar.selected Grammar.entry Grammar.keeps_entry) := by
  have items : Parses entriesOf (do return Selection.items (← separated item .item))
      (some <$> Parser.separated Grammar.entry Grammar.keeps_entry) := by
    rw [map_eq_pure_bind]
    have all : Parses (List.map entryOf) (separated item .item)
        (Parser.separated Grammar.entry Grammar.keeps_entry) := Parses.separated parses_item
    exact Parses.bind all fun all => Parses.pure (Selection.items all)
  intro r
  refine Means.atKeyword (fun here => ?_) fun other => ?_
  · have comes : (look r.tokens).isKeyword .FROM = true := here
    rw [Grammar.selected_of_from comes]
    exact Means.pure rfl
  · have misses : (look r.tokens).isKeyword .FROM = false := other
    rw [Grammar.selected_of_no_from misses]
    exact Parses.ifSymbol (Parses.pure Selection.asterisk) items r

/-- Judging the items is finding the clause of each, if all of them have an axis. -/
theorem toOption_axisClauses (clauses : List AxisClause) (items : List Item) :
    (Selection.axisClauses clauses items).toOption =
      ((items.map entryOf).mapM Grammar.clauseOf?).map (clauses.reverse ++ ·) := by
  induction items generalizing clauses with
  | nil => simp [Selection.axisClauses, Except.toOption]
  | cons item later ih =>
    unfold Selection.axisClauses
    rw [List.map_cons, List.mapM_cons]
    cases axis : item.axis with
    | none => simp [Grammar.clauseOf?, entryOf, axis, Except.toOption]
    | some found =>
      rw [ih]
      cases (later.map entryOf).mapM Grammar.clauseOf? with
      | none => simp [Grammar.clauseOf?, entryOf, axis]
      | some all => simp [Grammar.clauseOf?, entryOf, axis]

theorem toOption_projection (selected : Selection) :
    selected.projection.toOption = Grammar.projection? (entriesOf selected) := by
  cases selected with
  | asterisk => rfl
  | items all =>
    cases all with
    | nil => rfl
    | cons item more =>
      have clauses := toOption_axisClauses [] (item :: more)
      have mapped (x : Except ReadError (List AxisClause)) :
          (x.map Projection.axes).toOption = x.toOption.map Projection.axes := by
        cases x <;> rfl
      change ((Selection.axisClauses [] (item :: more)).map Projection.axes).toOption =
        ((((item :: more).map entryOf).mapM Grammar.clauseOf?).map some).map Grammar.projectionOf
      rw [mapped, clauses]
      cases judged : ((item :: more).map entryOf).mapM Grammar.clauseOf? with
      | none => rfl
      | some all =>
        cases all with
        | nil => simp [Option.bind_eq_some_iff] at judged
        | cons first later => rfl

/-- Judging the items is finding the column of each, if all of them are plain. -/
theorem toOption_columnNames (found : List Identifier) (items : List Item) :
    (Selection.columnNames found items).toOption =
      ((items.map entryOf).mapM Grammar.plainColumn?).map (found.reverse ++ ·) := by
  induction items generalizing found with
  | nil => simp [Selection.columnNames, Except.toOption]
  | cons item later ih =>
    have same : Grammar.plainColumn? (entryOf item) = Selection.column? item := by
      obtain ⟨nonEmpty, expr, properties, axis, stop⟩ := item
      cases nonEmpty <;> cases expr <;> cases properties <;> cases axis <;> rfl
    unfold Selection.columnNames
    rw [List.map_cons, List.mapM_cons, same]
    cases Selection.column? item with
    | none => simp [Except.toOption]
    | some id =>
      simp only
      rw [ih]
      cases (later.map entryOf).mapM Grammar.plainColumn? with
      | none => simp
      | some all => simp

theorem toOption_columns (selected : Selection) :
    selected.columns.toOption = Grammar.columns? (entriesOf selected) := by
  cases selected with
  | asterisk => rfl
  | items all =>
    change (Selection.columnNames [] all).toOption =
      (((all.map entryOf).mapM Grammar.plainColumn?).map some).map (·.getD [])
    rw [toOption_columnNames]
    cases (all.map entryOf).mapM Grammar.plainColumn? with
    | none => rfl
    | some found => rfl

/-! ### Sources -/

theorem parses_slicer : Parses id slicer Grammar.slicer := by
  refine Parses.ifKeyword ?_ (Parses.pure _)
  rw [map_eq_pure_bind]
  exact Parses.andThen parses_expression fun x => Parses.pure (some x)

/-- Closes sub-selects, from the innermost to the outermost. -/
def closeAll : List Projection → Source → Parser Source
  | [], source => return source
  | projection :: around, source => Grammar.closing projection source >>= closeAll around

/-- The sub-selects are closed from the inside out, each with its condition. -/
theorem parses_closeSubselects (base : Nat) (opened : List Projection) (source : Source) :
    Parses id (closeSubselects base opened source) (closeAll opened source) := by
  induction opened generalizing source with
  | nil => exact Parses.pure source
  | cons projection around ih =>
    refine Parses.changing (fun _ => rfl) ?_
    unfold closeAll Grammar.closing
    simp only [bind_assoc, pure_bind]
    exact Parses.andThen parses_slicer fun _ => Parses.andThen (Parses.expect _) fun _ => ih _

/-- With these sub-selects open, a source comes off the tokens, and then their ends. -/
def sourceIn (opened : List Projection) : Parser Source := Grammar.source >>= closeAll opened

theorem sourceIn_nil : sourceIn [] = Grammar.source := bind_pure Grammar.source

/-- Another sub-select is opened before any of them is closed. -/
theorem sourceIn_of_paren (opened : List Projection) {ts : List Token}
    (h : (look ts).isSymbol .openParen = true) :
    sourceIn opened ts = (do sourceIn ((← Grammar.opening) :: opened) : Parser Source) ts := by
  unfold sourceIn
  rw [Parser.bind_congr_at (Grammar.source_of_paren h)]
  simp only [bind_assoc, closeAll]

/-- Behind the name of the cube all that was opened is closed. -/
theorem sourceIn_of_name (opened : List Projection) {ts : List Token}
    (h : (look ts).isSymbol .openParen = false) :
    sourceIn opened ts =
      (do closeAll opened (.cube (← Grammar.cubeName)) : Parser Source) ts := by
  unfold sourceIn
  rw [Parser.bind_congr_at (Grammar.source_of_name h), bind_map_left]

/-- What is selected in a sub-select can be judged before its `FROM` as well. -/
theorem projection_from {α : Type} (f : Projection → Parser α) :
    (do
      let projection ← Grammar.projection
      Parser.keyword .FROM
      f projection) =
    (do
      let found ← Grammar.selected Grammar.entry Grammar.keeps_entry
      let projection ← Parser.ofOption (Grammar.projection? found)
      Parser.keyword .FROM
      f projection) := by
  simp only [Parser.ofOption_bind_comm]
  exact Grammar.from_judged Grammar.judges_axisClause Grammar.keeps_entry
    Grammar.keeps_axisClause Grammar.projectionOf f

/-- Another sub-select opens. -/
theorem means_openSubselect (opened : List Projection) (r : Reader)
    (paren : r.token.isSymbol .openParen = true) :
    Means (openSubselect opened) sourceIn (sourceIn opened r.tokens) r := by
  have comes : (look r.tokens).isSymbol .openParen = true := paren
  have opens : Means (openSubselect opened) (fun all ts => some (id all, ts))
      ((do return (← Grammar.opening) :: opened : Parser (List Projection)) r.tokens) r := by
    unfold Grammar.opening
    simp only [bind_assoc, pure_bind]
    rw [projection_from, Parser.bind_of_some (Parser.symbol_of_look comes)]
    refine Means.descend fun deeper same => ?_
    have here : deeper.token = r.token := congrArg look same
    rw [← same]
    refine Means.past (here ▸ Token.ne_endOfText_of_isSymbol paren) ?_
    refine Parses.andThen (Parses.expectKeyword _) fun _ => ?_
    refine Parses.bind parses_selection fun selected => ?_
    refine Parses.andThen (Parses.judge (toOption_projection selected)) fun projection => ?_
    exact Parses.andThen (Parses.expectKeyword _) fun _ => Parses.pure _
  have around := opens.into (g := sourceIn)
  rw [sourceIn_of_paren opened comes]
  simp only [bind_assoc, pure_bind] at around
  exact around

/-- Opening all sub-selects first and closing them afterwards is the recursion of the grammar. -/
theorem parses_source : Parses id source Grammar.source := by
  intro r
  refine Means.keepingDepth (Means.get ?_)
  rw [← sourceIn_nil]
  refine means_whileToken_bind means_openSubselect (fun opened after other => ?_) [] r
  have misses : (look after.tokens).isSymbol .openParen = false := other
  rw [sourceIn_of_name opened misses]
  exact Parses.andThen parses_cubeName (fun cube => parses_closeSubselects r.depth opened _) after

/-! ### Queries -/

theorem parses_systemTable : Parses id systemTable Grammar.systemTable := by
  intro r
  refine Means.get ?_
  unfold Grammar.systemTable
  rw [r.look_tokens, Grammar.namesSystem_eq]
  by_cases here : isSystem r.token = true
  · have more : r.token ≠ .endOfText := by
      intro reached
      rw [reached] at here
      cases here
    rw [if_pos here, if_pos here]
    refine Means.past more ?_
    refine Parses.andThen (Parses.expect _) fun _ => ?_
    exact Parses.andThen parses_name fun table => Parses.pure (some table)
  · rw [if_neg here, if_neg here]
    exact Means.pure rfl

/-- The items become axes only here. -/
theorem parses_cubeQuery (definitions : List Definition) (selected : Selection) :
    Parses id (cubeQuery definitions selected)
      (.select <$> Grammar.cubeQuery definitions (entriesOf selected)) := by
  unfold Grammar.cubeQuery
  simp only [map_eq_pure_bind, bind_assoc, pure_bind]
  refine Parses.andThen (Parses.judge (toOption_projection selected)) fun projection => ?_
  refine Parses.andThen parses_source fun source => ?_
  refine Parses.andThen parses_slicer fun slicer => ?_
  exact Parses.andThen (parses_propertyList _) fun cellProperties => Parses.pure _

/-- The items become columns only here. -/
theorem parses_rowsetQuery (selected : Selection) (table : Name) :
    Parses id (rowsetQuery selected table)
      (.rowset <$> Grammar.rowsetTail (entriesOf selected) table) := by
  unfold Grammar.rowsetTail
  simp only [map_eq_pure_bind, bind_assoc, pure_bind]
  refine Parses.andThen parses_slicer fun slicer => ?_
  exact Parses.andThen (Parses.judge (toOption_columns selected)) fun columns => Parses.pure _

/-- The kind of the query is decided where the program decides it. -/
theorem parses_query (rowsets : Bool) :
    Parses id (query rowsets) (Grammar.delayedQuery rowsets) := by
  refine Parses.andThen parses_withClause fun definitions => ?_
  refine Parses.andThen (Parses.expectKeyword _) fun _ => ?_
  refine Parses.bind parses_selection fun selected => ?_
  refine Parses.andThen (Parses.expectKeyword _) fun _ => ?_
  split
  · refine Parses.andThen parses_systemTable fun table => ?_
    cases table with
    | some table => exact parses_rowsetQuery selected table
    | none => exact parses_cubeQuery definitions selected
  · exact parses_cubeQuery definitions selected

/-- A query of a table is no result here, as it is none in the grammar. -/
theorem parses_select : Parses id select Grammar.select := by
  have judged : Parses id select (Grammar.delayedQuery false >>= Grammar.selectOf) := by
    refine Parses.andThen (parses_query false) fun found => ?_
    cases found with
    | select found => exact Parses.pure found
    | rowset _ => exact Parses.failBreaking
  rw [Grammar.delayedQuery_eq_select, bind_map_left] at judged
  exact bind_pure Grammar.select ▸ judged

/-! ### Statements -/

/-- The option of `DRILLTHROUGH` that comes next, if it is new. -/
def newOption (found : Option Nat × Option Nat) : Parser (Option Nat × Option Nat) := fun ts =>
  if found.1.isNone && (look ts).isKeyword .MAXROWS then
    (do return (some (← Grammar.count), found.2) : Parser (Option Nat × Option Nat)) (ts.drop 1)
  else if found.2.isNone && (look ts).isKeyword .FIRSTROWSET then
    (do return (found.1, some (← Grammar.count)) : Parser (Option Nat × Option Nat)) (ts.drop 1)
  else some (found, ts)

/-- An option is taken only if it was not given before. -/
theorem parses_drillOption (found : Option Nat × Option Nat) :
    Parses id (drillOption found) (newOption found) := by
  intro r
  refine Means.get ?_
  unfold newOption
  rw [r.look_tokens]
  by_cases maxRows : (found.1.isNone && r.token.isKeyword .MAXROWS) = true
  · have here : r.token.isKeyword .MAXROWS = true := (Bool.and_eq_true_iff.mp maxRows).2
    rw [if_pos maxRows, if_pos maxRows]
    refine Means.past (Token.ne_endOfText_of_isKeyword here) ?_
    exact Parses.andThen (parses_count _) fun n => Parses.pure (some n, found.2)
  rw [if_neg maxRows, if_neg maxRows]
  by_cases firstRowSet : (found.2.isNone && r.token.isKeyword .FIRSTROWSET) = true
  · have here : r.token.isKeyword .FIRSTROWSET = true := (Bool.and_eq_true_iff.mp firstRowSet).2
    rw [if_pos firstRowSet, if_pos firstRowSet]
    refine Means.past (Token.ne_endOfText_of_isKeyword here) ?_
    exact Parses.andThen (parses_count _) fun n => Parses.pure (found.1, some n)
  · rw [if_neg firstRowSet, if_neg firstRowSet]
    exact Means.pure rfl

/-- Two new options in a row are options in any order. -/
theorem drillOptions_eq :
    Grammar.drillOptions = (do newOption (← newOption (none, none))) := by
  have behindMaxRows (n : Nat) : newOption (some n, none) =
      Parser.ifKeyword .FIRSTROWSET (do return (some n, some (← Grammar.count)))
        (return (some n, none)) := by
    funext ts
    simp [newOption, Parser.ifKeyword]
    rfl
  have behindFirstRowSet (n : Nat) : newOption (none, some n) =
      Parser.ifKeyword .MAXROWS (do return (some (← Grammar.count), some n))
        (return (none, some n)) := by
    funext ts
    simp [newOption, Parser.ifKeyword]
    rfl
  funext ts
  unfold Grammar.drillOptions
  by_cases maxRows : (look ts).isKeyword .MAXROWS = true
  · have first : newOption (none, none) ts =
        (do return (some (← Grammar.count), none) : Parser (Option Nat × Option Nat))
          (ts.drop 1) := by
      unfold newOption
      simp [maxRows]
    rw [Parser.ifKeyword_of_look maxRows, Parser.bind_congr_at first]
    simp only [bind_assoc, pure_bind, behindMaxRows]
  have noMaxRows := Bool.eq_false_iff.mpr maxRows
  rw [Parser.ifKeyword_of_ne noMaxRows]
  by_cases firstRowSet : (look ts).isKeyword .FIRSTROWSET = true
  · have first : newOption (none, none) ts =
        (do return (none, some (← Grammar.count)) : Parser (Option Nat × Option Nat))
          (ts.drop 1) := by
      unfold newOption
      simp [noMaxRows, firstRowSet]
    rw [Parser.ifKeyword_of_look firstRowSet, Parser.bind_congr_at first]
    simp only [bind_assoc, pure_bind, behindFirstRowSet]
  · have noFirstRowSet := Bool.eq_false_iff.mpr firstRowSet
    have neither : newOption (none, none) ts = some ((none, none), ts) := by
      unfold newOption
      simp [noMaxRows, noFirstRowSet]
    rw [Parser.ifKeyword_of_ne noFirstRowSet, Parser.bind_of_some neither, neither]
    rfl

theorem parses_returned :
    Parses id returned (Parser.ifKeyword .RETURN Grammar.identifiers (return [])) :=
  Parses.ifKeyword parses_identifiers (Parses.pure _)

theorem parses_drillthrough : Parses id drillthrough Grammar.drillthrough := by
  unfold Grammar.drillthrough
  rw [drillOptions_eq]
  simp only [bind_assoc]
  refine Parses.andThen (Parses.expectKeyword _) fun _ => ?_
  refine Parses.andThen (parses_drillOption _) fun found => ?_
  refine Parses.andThen (parses_drillOption found) fun options => ?_
  refine Parses.andThen parses_select fun select => ?_
  exact Parses.andThen parses_returned fun ids => Parses.pure _

theorem parses_plainStatement : Parses id plainStatement Grammar.plainStatement := by
  intro r
  unfold Grammar.plainStatement
  refine Means.atKeyword (fun here => ?_) fun other => ?_
  · rw [if_pos (show (look r.tokens).isKeyword .DRILLTHROUGH = true from here), map_eq_pure_bind]
    have through : Parses id (do return Statement.drillthrough (← drillthrough))
        (do return Statement.drillthrough (← Grammar.drillthrough)) :=
      Parses.andThen parses_drillthrough fun found => Parses.pure (Statement.drillthrough found)
    exact through r
  · rw [r.look_tokens, other, if_neg Bool.false_ne_true, ← Grammar.delayedQuery_eq_query,
      map_eq_pure_bind]
    refine Parses.andThen (parses_query true) (fun found => ?_) r
    cases found with
    | select found => exact Parses.pure (Statement.select found)
    | rowset found => exact Parses.pure (Statement.rowset found)

/-- Behind this number of marks, a statement comes off the tokens and is put under all of them. -/
def statementUnder (marks : Nat) : Parser Statement :=
  Nat.repeat .explain marks <$> Grammar.statement

/-- The marks are counted on the way down. -/
theorem statementUnder_of_explain (marks : Nat) {ts : List Token}
    (h : (look ts).isKeyword .EXPLAIN = true) :
    statementUnder marks ts =
      (do Grammar.explainMark; statementUnder (marks + 1) : Parser Statement) ts := by
  have inner (count : Nat) (s : Statement) :
      Nat.repeat .explain count (.explain s) = Nat.repeat .explain (count + 1) s := by
    induction count with
    | zero => rfl
    | succ count ih => exact congrArg Statement.explain ih
  unfold statementUnder
  rw [map_eq_pure_bind, Parser.bind_congr_at (Grammar.statement_of_explain h)]
  simp only [bind_assoc, pure_bind, inner, map_eq_pure_bind]

/-- The statement is put under as many marks as were counted. -/
theorem statementUnder_of_plain (marks : Nat) {ts : List Token}
    (h : (look ts).isKeyword .EXPLAIN = false) :
    statementUnder marks ts =
      (Nat.repeat .explain marks <$> Grammar.plainStatement : Parser Statement) ts := by
  unfold statementUnder
  rw [map_eq_pure_bind, map_eq_pure_bind, Parser.bind_congr_at (Grammar.statement_of_plain h)]

/-- Another mark of `EXPLAIN` is counted. -/
theorem means_explainMark (marks : Nat) (r : Reader) (mark : r.token.isKeyword .EXPLAIN = true) :
    Means (explainMark marks) statementUnder (statementUnder marks r.tokens) r := by
  have comes : (look r.tokens).isKeyword .EXPLAIN = true := mark
  have counts : Means (explainMark marks) (fun count ts => some (id count, ts))
      ((do Grammar.explainMark; return marks + 1 : Parser Nat) r.tokens) r := by
    unfold Grammar.explainMark
    rw [bind_assoc, Parser.bind_of_some (Parser.keyword_of_look comes), bind_assoc]
    refine Means.descend fun deeper same => ?_
    have here : deeper.token = r.token := congrArg look same
    rw [← same]
    refine Means.past (here ▸ Token.ne_endOfText_of_isKeyword mark) ?_
    refine Parses.andThen (Parses.expectKeyword _) fun _ => ?_
    exact Parses.andThen (Parses.expectKeyword _) fun _ => Parses.pure _
  have around := counts.into (g := statementUnder)
  rw [statementUnder_of_explain marks comes]
  simp only [bind_assoc, pure_bind] at around
  exact around

/-- Counting the marks and putting the statement under them is the recursion of the grammar. -/
theorem parses_statement : Parses id statement Grammar.statement := by
  intro r
  refine Means.keepingDepth ?_
  have none : Grammar.statement = statementUnder 0 := (id_map Grammar.statement).symm
  rw [none]
  refine means_whileToken_bind means_explainMark (fun marks after other => ?_) 0 r
  have misses : (look after.tokens).isKeyword .EXPLAIN = false := other
  rw [statementUnder_of_plain marks misses, map_eq_pure_bind]
  exact Parses.andThen parses_plainStatement (fun found => Parses.pure _) after

theorem parses_endStatement : Parses id endStatement Grammar.endStatement :=
  Parses.ifSymbol parses_expectEnd parses_expectEnd

theorem parses_wholeSelect : Parses id wholeSelect Grammar.wholeSelect :=
  Parses.andThen parses_select fun _ => Parses.andThen parses_endStatement fun _ => Parses.pure _

theorem parses_wholeStatement : Parses id wholeStatement Grammar.wholeStatement :=
  Parses.andThen parses_statement fun _ => Parses.andThen parses_endStatement fun _ => Parses.pure _

theorem parses_wholeCubeName : Parses id wholeCubeName Grammar.wholeCubeName :=
  Parses.andThen parses_cubeName fun _ => Parses.andThen parses_expectEnd fun _ => Parses.pure _

/-- A statement that ended stands in front of the end of its text. -/
theorem clean_of_endStatement {u : Unit} {r after : Reader} (h : endStatement r = .ok u after) :
    after.Clean := by
  change (if r.token.isSymbol .semicolon = true then advance >>= fun _ => expectEnd
    else expectEnd) r = _ at h
  split at h
  · obtain ⟨_, between, _, last⟩ := bind_eq_ok h
    exact clean_of_expectEnd last
  · exact clean_of_expectEnd h

end ReadM

/-! ### Whole texts -/

/-- What a goal asks of the tokens of a text. -/
def Goal.parser : Goal → Parser Tree
  | expression => .expression <$> Grammar.wholeExpression
  | select => .select <$> Grammar.wholeSelect
  | statement => .statement <$> Grammar.wholeStatement
  | cubeName => .cubeName <$> Grammar.wholeCubeName

/-- For every goal there is one parser that the reading follows. -/
theorem Goal.parses_reading (goal : Goal) : ReadM.Parses id goal.reading goal.parser := by
  unfold Goal.parser
  cases goal <;> simp only [map_eq_pure_bind]
  case expression =>
    exact ReadM.Parses.andThen ReadM.parses_wholeExpression fun _ => ReadM.Parses.pure _
  case select =>
    exact ReadM.Parses.andThen ReadM.parses_wholeSelect fun _ => ReadM.Parses.pure _
  case statement =>
    exact ReadM.Parses.andThen ReadM.parses_wholeStatement fun _ => ReadM.Parses.pure _
  case cubeName =>
    exact ReadM.Parses.andThen ReadM.parses_wholeCubeName fun _ => ReadM.Parses.pure _

/-- **A text is read** exactly if the parser for the goal makes the tree of its tokens. -/
theorem read_ok_iff (goal : Goal) {text : String} {limit : Nat} {tokens : List Located}
    (scanned : tokensOf text = .ok tokens) (long : text.length ≤ limit) (tree : Tree) :
    read goal text limit = .ok tree ↔
      goal.parser.run' (tokens.map Located.token) = some tree := by
  obtain ⟨r, start, ahead, clean⟩ := Reader.exists_ofText limit scanned
  have tokens : r.tokens = tokens.map Located.token := congrArg _ ahead
  have means := goal.parses_reading r
  unfold read readWithEvents
  rw [start, ← tokens]
  simp only [Reader.attempt]
  unfold ReadM.Means at means
  cases found : goal.reading r with
  | ok made after =>
    rw [found] at means
    have yields : goal.parser.run' r.tokens = some made :=
      congrArg (Option.map Prod.fst) means.1.symm
    rw [yields]
    simp only [Except.ok.injEq, Option.some.injEq]
  | error e after =>
    rw [found] at means
    -- The limit is great enough for the text, so only the grammar can be to blame.
    have shallow := Goal.shallow_of_length_le start long found
    rcases means clean with none | ⟨l, deep⟩
    · have fails : goal.parser.run' r.tokens = Option.none := congrArg (Option.map Prod.fst) none
      rw [fails]
      exact ⟨nofun, nofun⟩
    · exact absurd deep (shallow l)

/-- A tree that is read is the one that the parser makes of the tokens, whatever the limit is. -/
theorem run'_parser_of_read {goal : Goal} {text : String} {limit : Nat} {tree : Tree}
    {tokens : List Located} (h : read goal text limit = .ok tree)
    (scanned : tokensOf text = .ok tokens) :
    goal.parser.run' (tokens.map Located.token) = some tree := by
  obtain ⟨r, start, ahead, -⟩ := Reader.exists_ofText limit scanned
  have tokens : r.tokens = tokens.map Located.token := congrArg _ ahead
  have means := goal.parses_reading r
  unfold ReadM.Means at means
  unfold read readWithEvents at h
  rw [start] at h
  simp only [Reader.attempt] at h
  cases found : goal.reading r with
  | ok made after =>
    rw [found] at means h
    cases h
    rw [← tokens]
    exact congrArg (Option.map Prod.fst) means.1.symm
  | error e after =>
    rw [found] at h
    cases h

/-- The expression that a text is read as, and nothing behind it. -/
theorem exists_expr_of_read {text : String} {limit : Nat} {tree : Tree} {tokens : List Located}
    (h : read .expression text limit = .ok tree) (scanned : tokensOf text = .ok tokens) :
    ∃ x rest, tree = .expression x ∧
      expr? false 0 (tokens.map Located.token) = some (x, rest) ∧ look rest = .endOfText := by
  obtain ⟨x, rest, _, _, found, behind, rfl⟩ :=
    Parser.run'_map_bind_eq_some (run'_parser_of_read h scanned)
  obtain ⟨_, _, ended, made⟩ := Parser.bind_eq_some behind
  cases made
  refine ⟨_, rest, rfl, found, ?_⟩
  unfold Parser.ended at ended
  split at ended
  · assumption
  · cases ended

/-- **The reading of statements accepts exactly the grammar.**  Where a text can be scanned and the
limit is as great as the text is long, it is read as a statement exactly if recursive descent makes
that statement of its tokens. -/
theorem read_statement_iff {text : String} {limit : Nat} {tokens : List Located}
    (scanned : tokensOf text = .ok tokens) (long : text.length ≤ limit) (s : Statement) :
    read .statement text limit = .ok (.statement s) ↔
      Grammar.statement? (tokens.map Located.token) = some s := by
  rw [read_ok_iff .statement scanned long]
  unfold Goal.parser Grammar.statement?
  rw [Parser.run'_map]
  simp only [Option.map_eq_some_iff, Tree.statement.injEq, exists_eq_right]

/-- Under a mark, a query with a named axis and two conditions, the first of which belongs to the
sub-select; and a query of a schema rowset. -/
theorem read_statement_iff_kinds :
    read .statement "EXPLAIN PLAN FOR SELECT a ON ROWS FROM (SELECT FROM c WHERE x) WHERE y" 70 =
        .ok (.statement (.explain (.select ⟨[],
          .axes [⟨false, .identifier (.ofName ⟨"a", .bare⟩), [], .rows⟩],
          .subselect .empty (.cube ⟨"c", .bare⟩) (some (.identifier (.ofName ⟨"x", .bare⟩))),
          some (.identifier (.ofName ⟨"y", .bare⟩)), []⟩))) ∧
      read .statement "SELECT a FROM $System.t WHERE x" 31 =
        .ok (.statement (.rowset ⟨[.ofName ⟨"a", .bare⟩], ⟨"t", .bare⟩,
          some (.identifier (.ofName ⟨"x", .bare⟩))⟩)) := by
  have scanned : tokensOf
      "EXPLAIN PLAN FOR SELECT a ON ROWS FROM (SELECT FROM c WHERE x) WHERE y" = .ok [
      ⟨.keyword .EXPLAIN "EXPLAIN", ⟨0, 1, 1⟩⟩, ⟨.keyword .PLAN "PLAN", ⟨8, 1, 9⟩⟩,
      ⟨.keyword .FOR "FOR", ⟨13, 1, 14⟩⟩, ⟨.keyword .SELECT "SELECT", ⟨17, 1, 18⟩⟩,
      ⟨.word "a", ⟨24, 1, 25⟩⟩, ⟨.keyword .ON "ON", ⟨26, 1, 27⟩⟩,
      ⟨.keyword .ROWS "ROWS", ⟨29, 1, 30⟩⟩, ⟨.keyword .FROM "FROM", ⟨34, 1, 35⟩⟩,
      ⟨.symbol .openParen, ⟨39, 1, 40⟩⟩, ⟨.keyword .SELECT "SELECT", ⟨40, 1, 41⟩⟩,
      ⟨.keyword .FROM "FROM", ⟨47, 1, 48⟩⟩, ⟨.word "c", ⟨52, 1, 53⟩⟩,
      ⟨.keyword .WHERE "WHERE", ⟨54, 1, 55⟩⟩, ⟨.word "x", ⟨60, 1, 61⟩⟩,
      ⟨.symbol .closeParen, ⟨61, 1, 62⟩⟩, ⟨.keyword .WHERE "WHERE", ⟨63, 1, 64⟩⟩,
      ⟨.word "y", ⟨69, 1, 70⟩⟩, ⟨.endOfText, ⟨70, 1, 71⟩⟩] := by
    decide +kernel
  have scannedRowset : tokensOf "SELECT a FROM $System.t WHERE x" = .ok [
      ⟨.keyword .SELECT "SELECT", ⟨0, 1, 1⟩⟩, ⟨.word "a", ⟨7, 1, 8⟩⟩,
      ⟨.keyword .FROM "FROM", ⟨9, 1, 10⟩⟩, ⟨.word "$System", ⟨14, 1, 15⟩⟩,
      ⟨.symbol .dot, ⟨21, 1, 22⟩⟩, ⟨.word "t", ⟨22, 1, 23⟩⟩,
      ⟨.keyword .WHERE "WHERE", ⟨24, 1, 25⟩⟩, ⟨.word "x", ⟨30, 1, 31⟩⟩,
      ⟨.endOfText, ⟨31, 1, 32⟩⟩] := by
    decide +kernel
  exact ⟨(read_statement_iff scanned (by decide) _).mpr (by cbv),
    (read_statement_iff scannedRowset (by decide) _).mpr (by cbv)⟩

end MdxReader
