import MdxReader.Proofs.Grammar

/-!
# Judging behind `FROM`

The grammar looks ahead to the token behind `FROM` and then has rules for axes and for columns.  The
other way is to read what may be either (`Grammar.entry`), and to judge it once `FROM` is behind it.
Both come to the same: `delayedQuery_eq_select` and `delayedQuery_eq_query`.

Axes are entries that have an axis.  A column is an entry that is nothing but an identifier; where
the rule for columns stops in front of `PROPERTIES` or `ON`, the entry goes on and is judged to be
none, but then no `FROM` follows the column either (`from_separated`).
-/

namespace MdxReader.Grammar

open Descent MdxReader.Parser

/-! ### Judgements -/

/-- The axis that an entry is. -/
def clauseOf? (found : Entry) : Option AxisClause :=
  found.axis.map fun axis => ⟨found.nonEmpty, found.expr, found.properties, axis⟩

/-- The column that an entry names, if it is nothing but an identifier. -/
def plainColumn? : Entry → Option Identifier
  | ⟨false, .identifier id, [], none⟩ => some id
  | _ => none

/-- Judges all that is selected. -/
def judged {α β : Type} (judge : α → Option β) : Option (List α) → Option (Option (List β))
  | none => some none
  | some all => (all.mapM judge).map some

/-- What entries select of a cube. -/
def projection? (found : Option (List Entry)) : Option Projection :=
  (judged clauseOf? found).map projectionOf

/-- What entries select of a schema rowset. -/
def columns? (found : Option (List Entry)) : Option (List Identifier) :=
  (judged plainColumn? found).map (·.getD [])

section Judged

variable {α β γ : Type} {item : Parser α} {strict : Parser β} {judge : α → Option β}

/-- A strict rule is a lenient one with a judgement, or else it stops in front of a token that
neither goes on with the items nor ends them. -/
def Judges (item : Parser α) (judge : α → Option β) (strict : Parser β) : Prop :=
  ∀ ts, strict ts = (do ofOption (judge (← item)) : Parser β) ts ∨
    (do ofOption (judge (← item)) : Parser β) ts = none ∧
      ∃ b rest, strict ts = some (b, rest) ∧ (look rest).isSymbol .comma = false ∧
        (look rest).isKeyword .FROM = false

/-- `SELECT` has its items up to `FROM`. -/
def upToFrom (items : Parser α) : Parser α := do
  let found ← items
  keyword .FROM
  return found

theorem upToFrom_separated (keeps : Keeps item) :
    upToFrom (separated item keeps) =
      (do return (← item) :: (← upToFrom (further item keeps))) := by
  unfold upToFrom separated
  simp only [bind_assoc, pure_bind]

/-- The judgements on items, the first of them apart. -/
theorem judge_first (items : Parser (List α)) (a : α) :
    (do ofOption ((a :: (← items)).mapM judge) : Parser (List β)) =
      (do
        let b ← ofOption (judge a)
        return b :: (← do ofOption ((← items).mapM judge)) : Parser (List β)) := by
  funext ts
  rw [bind_apply, bind_apply]
  simp only [List.mapM_cons, ofOption]
  cases judge a with
  | none => cases items ts <;> rfl
  | some b =>
    simp only [Option.map_some, Option.bind_some, bind_apply]
    cases items ts with
    | none => rfl
    | some found =>
      obtain ⟨more, rest⟩ := found
      cases judged : more.mapM judge with
      | none => simp [judged, ofOption]
      | some bs => simp [judged, ofOption]; rfl

/-- Items are judged one by one or all behind `FROM`, if that is so of those behind the first. -/
theorem from_separated_of_later (judges : Judges item judge strict) (keeps : Keeps item)
    (keeps' : Keeps strict) (ts : List Token)
    (later : ∀ a rest, item ts = some (a, rest) → upToFrom (further strict keeps') rest =
      (do ofOption ((← upToFrom (further item keeps)).mapM judge) : Parser (List β)) rest) :
    upToFrom (separated strict keeps') ts =
      (do ofOption ((← upToFrom (separated item keeps)).mapM judge) : Parser (List β)) ts := by
  rw [upToFrom_separated, upToFrom_separated]
  simp only [bind_assoc, pure_bind]
  have lenient (a : α) (rest : List Token) (found : item ts = some (a, rest)) :
      (do ofOption ((a :: (← upToFrom (further item keeps))).mapM judge) : Parser (List β)) rest =
        (do
          let b ← ofOption (judge a)
          return b :: (← upToFrom (further strict keeps')) : Parser (List β)) rest := by
    rw [judge_first]
    cases judge a with
    | none => rfl
    | some b =>
      rw [bind_of_some (show ofOption (some b) rest = some (b, rest) from rfl),
        bind_of_some (show ofOption (some b) rest = some (b, rest) from rfl), ← bind_assoc]
      exact bind_congr_at (later a rest found).symm
  -- A strict rule that stops too early is not followed by `FROM`.
  have early {b : β} {rest : List Token} (taken : strict ts = some (b, rest))
      (noComma : (look rest).isSymbol .comma = false)
      (noFrom : (look rest).isKeyword .FROM = false) :
      (do return (← strict) :: (← upToFrom (further strict keeps')) : Parser (List β)) ts =
        none := by
    have ends : upToFrom (further strict keeps') rest = none := by
      unfold upToFrom
      rw [bind_of_some (further_of_no_comma noComma), bind_of_none (keyword_eq_none noFrom)]
    rw [bind_of_some taken, bind_of_none ends]
  cases first : item ts with
  | none =>
    rw [bind_of_none first]
    rcases judges ts with same | ⟨-, b, rest, taken, noComma, noFrom⟩
    · rw [bind_of_none first] at same
      exact bind_of_none same
    · exact early taken noComma noFrom
  | some found =>
    obtain ⟨a, rest⟩ := found
    rw [bind_of_some first, lenient a rest first]
    rcases judges ts with same | ⟨rejected, b, rest', taken, noComma, noFrom⟩
    · rw [bind_of_some first] at same
      rw [bind_apply, bind_apply, same]
    · rw [bind_of_some first] at rejected
      rw [early taken noComma noFrom, bind_of_none rejected]

theorem from_further (judges : Judges item judge strict) (keeps : Keeps item)
    (keeps' : Keeps strict) (ts : List Token) :
    upToFrom (further strict keeps') ts =
      (do ofOption ((← upToFrom (further item keeps)).mapM judge) : Parser (List β)) ts := by
  -- The induction is on the tokens: behind a comma there are fewer of them.
  induction size : ts.length using Nat.strongRecOn generalizing ts with
  | _ n ih =>
    by_cases comma : (look ts).isSymbol .comma = true
    · have behind := from_separated_of_later judges keeps keeps' (ts.drop 1) fun a rest found => ?_
      · unfold upToFrom at behind ⊢
        rw [bind_congr_at (further_of_comma comma), behind]
        simp only [bind_assoc]
        exact (bind_congr_at (further_of_comma comma)).symm
      · have fewer := Spends.symbol .comma ts () (ts.drop 1) (symbol_of_look comma)
        have kept := keeps _ _ _ found
        exact ih _ (by omega) rest rfl
    · have noComma : (look ts).isSymbol .comma = false := Bool.eq_false_iff.mpr comma
      unfold upToFrom
      rw [bind_of_some (further_of_no_comma noComma), bind_assoc,
        bind_of_some (further_of_no_comma noComma), bind_assoc]
      rfl

/-- **Items between `SELECT` and `FROM`** can be judged one by one, or all behind `FROM`. -/
theorem from_separated (judges : Judges item judge strict) (keeps : Keeps item)
    (keeps' : Keeps strict) :
    upToFrom (separated strict keeps') =
      (do ofOption ((← upToFrom (separated item keeps)).mapM judge) : Parser (List β)) := by
  funext ts
  exact from_separated_of_later judges keeps keeps' ts fun _ rest _ =>
    from_further judges keeps keeps' rest

theorem from_selected (judges : Judges item judge strict) (keeps : Keeps item)
    (keeps' : Keeps strict) :
    upToFrom (selected strict keeps') =
      (do ofOption (judged judge (← upToFrom (selected item keeps))) :
        Parser (Option (List β))) := by
  funext ts
  by_cases comes : (look ts).isKeyword .FROM = true
  · unfold upToFrom
    rw [bind_of_some (selected_of_from comes), bind_assoc, bind_of_some (selected_of_from comes),
      bind_of_some (keyword_of_look comes), bind_assoc, bind_of_some (keyword_of_look comes)]
    rfl
  by_cases star : (look ts).isSymbol .star = true
  · unfold upToFrom
    rw [bind_of_some (selected_of_star star), bind_assoc, bind_of_some (selected_of_star star),
      bind_assoc]
    rfl
  have noFrom := Bool.eq_false_iff.mpr comes
  have noStar := Bool.eq_false_iff.mpr star
  have listed {δ : Type} (p : Parser (List δ)) : upToFrom (some <$> p) = some <$> upToFrom p := by
    simp [upToFrom]
  calc upToFrom (selected strict keeps') ts
      = upToFrom (some <$> separated strict keeps') ts :=
        bind_congr_at (selected_of_items noFrom noStar)
    _ = (some <$> upToFrom (separated strict keeps')) ts := by rw [listed]
    _ = (do ofOption (judged judge (← some <$> upToFrom (separated item keeps))) :
          Parser (Option (List β))) ts := by
        rw [from_separated judges keeps keeps']
        simp [judged, ofOption_map]
    _ = (do ofOption (judged judge (← upToFrom (selected item keeps))) :
          Parser (Option (List β))) ts := by
        rw [← listed]
        exact bind_congr_at (bind_congr_at (selected_of_items noFrom noStar).symm)

/-- What is selected can be judged behind `FROM` only. -/
theorem from_judged (judges : Judges item judge strict) (keeps : Keeps item)
    (keeps' : Keeps strict) (view : Option (List β) → γ) {δ : Type} (f : γ → Parser δ) :
    (do
      let found ← view <$> selected strict keeps'
      keyword .FROM
      f found) =
    (do
      let found ← selected item keeps
      keyword .FROM
      let judged ← ofOption ((judged judge found).map view)
      f judged) := by
  have all := congrArg (· >>= fun found => f (view found)) (from_selected judges keeps keeps')
  simp only [upToFrom, bind_assoc, pure_bind] at all
  simp only [map_eq_pure_bind, bind_assoc, pure_bind, ofOption_map]
  exact all

end Judged

/-! ### Axes and columns -/

/-- An axis is an entry that has an axis. -/
theorem judges_axisClause : Judges entry clauseOf? axisClause := by
  intro ts
  left
  have ending (nonEmpty : Bool) (expr : Expr) (properties : List Identifier) :
      (do
        keyword .ON
        return ⟨nonEmpty, expr, properties, ← axis⟩ : Parser AxisClause) =
      (do
        let axis ← ifKeyword .ON (some <$> axis) (return none)
        ofOption (clauseOf? ⟨nonEmpty, expr, properties, axis⟩)) := by
    funext rest
    by_cases on : (look rest).isKeyword .ON = true
    · rw [bind_of_some (keyword_of_look on), bind_congr_at (ifKeyword_of_look on), bind_map_left]
      rfl
    · have absent := Bool.eq_false_iff.mpr on
      rw [bind_of_none (keyword_eq_none absent), bind_congr_at (ifKeyword_of_ne absent)]
      rfl
  unfold axisClause entry
  simp only [bind_assoc, pure_bind, ending]

/-- No expression begins with `NON`. -/
theorem expression_of_non {ts : List Token} (h : (look ts).isKeyword .NON = true) :
    expression ts = none := by
  cases ts with
  | nil => cases h
  | cons t rest =>
    obtain ⟨spelling, rfl⟩ := Token.isKeyword_iff.mp h
    unfold expression
    rw [expr?_eq, operand?_of_primary rest rfl, primary?_keyword]
    rfl

/-- With this token an entry goes on behind its expression. -/
def goesOn (t : Token) : Bool :=
  t.isKeyword .DIMENSION || t.isKeyword .PROPERTIES || t.isKeyword .ON

theorem not_goesOn_iff {t : Token} : goesOn t = false ↔
    t.isKeyword .DIMENSION = false ∧ t.isKeyword .PROPERTIES = false ∧ t.isKeyword .ON = false := by
  simp [goesOn, and_assoc]

/-- A list of properties is empty only if there is none. -/
theorem propertyList_eq_nil {ts rest : List Token}
    (h : propertyList .DIMENSION ts = some ([], rest)) :
    (look ts).isKeyword .DIMENSION = false ∧ (look ts).isKeyword .PROPERTIES = false ∧
      rest = ts := by
  have listed (ts : List Token) : identifiers ts ≠ some ([], rest) := by
    intro found
    obtain ⟨_, between, _, later⟩ := bind_eq_some found
    obtain ⟨_, _, _, made⟩ := bind_eq_some later
    cases made
  unfold propertyList at h
  by_cases noun : (look ts).isKeyword .DIMENSION = true
  · rw [ifKeyword_of_look noun] at h
    obtain ⟨_, between, _, later⟩ := bind_eq_some h
    exact absurd later (listed between)
  have noNoun := Bool.eq_false_iff.mpr noun
  rw [ifKeyword_of_ne noNoun] at h
  by_cases bare : (look ts).isKeyword .PROPERTIES = true
  · rw [ifKeyword_of_look bare] at h
    exact absurd h (listed _)
  · rw [ifKeyword_of_ne (Bool.eq_false_iff.mpr bare)] at h
    cases h
    exact ⟨noNoun, Bool.eq_false_iff.mpr bare, rfl⟩

/-- An optional axis is missing only if there is no `ON`. -/
theorem axis_eq_none {ts rest : List Token}
    (h : ifKeyword .ON (some <$> axis) (return none) ts = some (none, rest)) :
    (look ts).isKeyword .ON = false ∧ rest = ts := by
  by_cases on : (look ts).isKeyword .ON = true
  · rw [ifKeyword_of_look on, map_eq_pure_bind] at h
    obtain ⟨_, _, _, made⟩ := bind_eq_some h
    cases made
  · rw [ifKeyword_of_ne (Bool.eq_false_iff.mpr on)] at h
    cases h
    exact ⟨Bool.eq_false_iff.mpr on, rfl⟩

theorem plainColumn_eq_some {found : Entry} {id : Identifier} (h : plainColumn? found = some id) :
    found = ⟨false, .identifier id, [], none⟩ := by
  unfold plainColumn? at h
  split at h
  · cases h
    rfl
  · cases h

/-- An entry is a column if it is an identifier and does not go on behind it. -/
theorem plain_entry_iff {ts rest : List Token} {id : Identifier} :
    (do ofOption (plainColumn? (← entry)) : Parser Identifier) ts = some (id, rest) ↔
      expression ts = some (.identifier id, rest) ∧ goesOn (look rest) = false := by
  rw [not_goesOn_iff]
  constructor
  · intro h
    obtain ⟨found, last, read, judged⟩ := bind_eq_some h
    obtain ⟨_, plain, made⟩ := Option.map_eq_some_iff.mp judged
    cases made
    have shape := plainColumn_eq_some plain
    obtain ⟨first, afterNon, non, read⟩ := bind_eq_some read
    obtain ⟨x, afterExpr, expr, read⟩ := bind_eq_some read
    obtain ⟨properties, afterList, list, read⟩ := bind_eq_some read
    obtain ⟨axis, afterAxis, clause, made⟩ := bind_eq_some read
    cases made
    cases shape
    obtain ⟨noNoun, noList, rfl⟩ := propertyList_eq_nil list
    obtain ⟨noAxis, rfl⟩ := axis_eq_none clause
    refine ⟨?_, noNoun, noList, noAxis⟩
    -- An entry without `NON EMPTY` begins with its expression.
    by_cases there : (look ts).isKeyword .NON = true
    · unfold nonEmpty at non
      rw [ifKeyword_of_look there] at non
      obtain ⟨_, _, _, made⟩ := bind_eq_some non
      cases made
    · unfold nonEmpty at non
      rw [ifKeyword_of_ne (Bool.eq_false_iff.mpr there)] at non
      cases non
      exact expr
  · rintro ⟨expr, noNoun, noList, noAxis⟩
    have noNon : (look ts).isKeyword .NON = false := by
      apply Bool.eq_false_iff.mpr
      intro there
      rw [expression_of_non there] at expr
      cases expr
    have first : nonEmpty ts = some (false, ts) := ifKeyword_of_ne noNon
    have list : propertyList .DIMENSION rest = some ([], rest) := by
      unfold propertyList
      rw [ifKeyword_of_ne noNoun, ifKeyword_of_ne noList]
      rfl
    have clause : ifKeyword .ON (some <$> axis) (return none) rest = some (none, rest) :=
      ifKeyword_of_ne noAxis
    unfold entry
    rw [bind_assoc, bind_of_some first, bind_assoc, bind_of_some expr, bind_assoc,
      bind_of_some list, bind_assoc, bind_of_some clause]
    rfl

/-- A column is an entry that is nothing but an identifier, or else it stops where the entry goes
on. -/
theorem judges_column : Judges entry plainColumn? column := by
  intro ts
  cases judgement : (do ofOption (plainColumn? (← entry)) : Parser Identifier) ts with
  | some found =>
    obtain ⟨id, rest⟩ := found
    obtain ⟨expr, -⟩ := plain_entry_iff.mp judgement
    left
    unfold column
    rw [bind_of_some expr]
    rfl
  | none =>
    cases named : column ts with
    | none => exact .inl rfl
    | some found =>
      obtain ⟨id, rest⟩ := found
      obtain ⟨x, last, expr, judged⟩ := bind_eq_some named
      obtain ⟨_, isName, made⟩ := Option.map_eq_some_iff.mp judged
      cases made
      have same : x = .identifier id := by
        unfold columnOf? at isName
        split at isName
        · cases isName
          rfl
        · cases isName
      rw [same] at expr
      right
      have more : goesOn (look rest) = true := by
        cases stops : goesOn (look rest) with
        | true => rfl
        | false =>
          rw [plain_entry_iff.mpr ⟨expr, stops⟩] at judgement
          cases judgement
      refine ⟨rfl, id, rest, rfl, ?_⟩
      simp only [goesOn, Bool.or_eq_true, Token.isKeyword_iff] at more
      rcases more with (⟨_, token⟩ | ⟨_, token⟩) | ⟨_, token⟩ <;> rw [token] <;> exact ⟨rfl, rfl⟩

/-! ### Queries -/

/-- The table, if `FROM` is followed by `$SYSTEM`. -/
def systemTable : Parser (Option Name) := fun ts =>
  if namesSystem (look ts) then
    (do
      symbol .dot
      return some (← name) : Parser (Option Name)) (ts.drop 1)
  else some (none, ts)

/-- A query of a cube, from behind `FROM` on. -/
def cubeQuery (definitions : List Definition) (found : Option (List Entry)) : Parser Select := do
  let projection ← ofOption (projection? found)
  let source ← source
  let slicer ← slicer
  return ⟨definitions, projection, source, slicer, ← propertyList .CELL⟩

/-- A query of a rowset, from behind its table on. -/
def rowsetTail (found : Option (List Entry)) (table : Name) : Parser RowsetQuery := do
  let slicer ← slicer
  let columns ← ofOption (columns? found)
  return ⟨columns, table, slicer⟩

/-- A query whose items are judged behind `FROM`. -/
def delayedQuery (rowsets : Bool) : Parser ReadM.Query := do
  let definitions ← withClause
  keyword .SELECT
  let found ← selected entry keeps_entry
  keyword .FROM
  if rowsets && definitions.isEmpty then
    match ← systemTable with
    | some table => .rowset <$> rowsetTail found table
    | none => .select <$> cubeQuery definitions found
  else .select <$> cubeQuery definitions found

/-- A query of a cube can be judged behind `FROM`. -/
theorem select_eq :
    select = (do
      let definitions ← withClause
      keyword .SELECT
      let found ← selected entry keeps_entry
      keyword .FROM
      cubeQuery definitions found) := by
  unfold select projection cubeQuery projection?
  refine congrArg _ (funext fun definitions => congrArg _ (funext fun _ => ?_))
  exact from_judged judges_axisClause keeps_entry keeps_axisClause projectionOf _

/-- **A query without rowsets** is the one of the grammar. -/
theorem delayedQuery_eq_select : delayedQuery false = .select <$> select := by
  rw [select_eq]
  unfold delayedQuery
  simp only [Bool.false_and, Bool.false_eq_true, if_false, map_eq_pure_bind, bind_assoc]

/-- The query of a cube, if it is one. -/
def selectOf : ReadM.Query → Parser Select
  | .select found => pure found
  | .rowset _ => failure

/-- The statement that a query makes. -/
def statementOf : ReadM.Query → Statement
  | .select found => .select found
  | .rowset found => .rowset found

theorem withClause_of_ne {ts : List Token} (h : (look ts).isKeyword .WITH = false) :
    withClause ts = some ([], ts) := ifKeyword_of_ne h

/-- Behind `WITH` there is at least one definition. -/
theorem ne_nil_of_withClause {ts rest : List Token} {definitions : List Definition}
    (h : (look ts).isKeyword .WITH = true) (found : withClause ts = some (definitions, rest)) :
    definitions ≠ [] := by
  unfold withClause at found
  rw [ifKeyword_of_look h] at found
  obtain ⟨first, _, _, later⟩ := bind_eq_some found
  obtain ⟨more, _, _, made⟩ := bind_eq_some later
  cases made
  nofun

/-- A query that defines something is one of a cube. -/
theorem delayedQuery_of_with {ts : List Token} (h : (look ts).isKeyword .WITH = true) :
    delayedQuery true ts = delayedQuery false ts := by
  unfold delayedQuery
  cases found : withClause ts with
  | none => rw [bind_of_none found, bind_of_none found]
  | some pair =>
    obtain ⟨definitions, rest⟩ := pair
    rw [bind_of_some found, bind_of_some found]
    cases definitions with
    | nil => exact absurd rfl (ne_nil_of_withClause h found)
    | cons first more => rfl

theorem rowsetQuery_of_heading {ts rest : List Token} {found : Option (List Entry)}
    (head : heading ts = some (found, rest)) (isSystem : namesSystem (look rest) = true) :
    rowsetQuery ts =
      (do
        symbol .dot
        rowsetTail found (← name) : Parser RowsetQuery) (rest.drop 1) := by
  let tail (columns : List Identifier) : Parser RowsetQuery := do
    system
    symbol .dot
    let table ← name
    return ⟨columns, table, ← slicer⟩
  have delayed : rowsetQuery = (do
      keyword .SELECT
      let found ← selected entry keeps_entry
      keyword .FROM
      let columns ← ofOption (columns? found)
      tail columns) := by
    unfold rowsetQuery columns columns?
    refine congrArg _ (funext fun _ => ?_)
    exact from_judged judges_column keeps_entry keeps_column (·.getD []) tail
  have behind : (heading >>= fun found => ofOption (columns? found) >>= tail) ts =
      (ofOption (columns? found) >>= tail) rest := bind_of_some head
  unfold heading at behind
  simp only [bind_assoc, pure_bind] at behind
  rw [delayed, behind]
  have taken : system rest = some ((), rest.drop 1) := by simp [system, take, isSystem]
  unfold rowsetTail
  cases columns? found with
  | some columns =>
    change tail columns rest = _
    unfold tail
    rw [bind_of_some taken]
    rfl
  | none =>
    -- Without columns there is no query, whatever follows.
    refine Eq.symm (bind_of_fails fun _ _ => bind_of_fails fun _ _ => bind_of_fails fun _ _ => rfl)

theorem delayedQuery_of_heading {ts : List Token} (noWith : (look ts).isKeyword .WITH = false)
    (rowsets : Bool) :
    delayedQuery rowsets ts = (do
      let found ← heading
      if rowsets then
        match ← systemTable with
        | some table => .rowset <$> rowsetTail found table
        | none => .select <$> cubeQuery [] found
      else .select <$> cubeQuery [] found : Parser ReadM.Query) ts := by
  unfold delayedQuery heading
  rw [bind_of_some (withClause_of_ne noWith)]
  simp only [List.isEmpty_nil, Bool.and_true, bind_assoc, pure_bind]

/-- **A query that may be of a rowset** is the one of the grammar, which looks ahead. -/
theorem delayedQuery_eq_query : statementOf <$> delayedQuery true = query := by
  funext ts
  have ofCube (same : delayedQuery true ts = delayedQuery false ts)
      (other : targetsSystem ts = false) : (statementOf <$> delayedQuery true) ts = query ts := by
    unfold query
    rw [other, if_neg Bool.false_ne_true, map_eq_pure_bind, bind_congr_at same,
      ← map_eq_pure_bind, delayedQuery_eq_select, Functor.map_map]
    rfl
  by_cases there : (look ts).isKeyword .WITH = true
  · refine ofCube (delayedQuery_of_with there) ?_
    obtain ⟨spelling, token⟩ := Token.isKeyword_iff.mp there
    have none : keyword .SELECT ts = none := keyword_eq_none (by rw [token]; rfl)
    unfold targetsSystem heading
    rw [bind_of_none none]
    rfl
  have noWith := Bool.eq_false_iff.mpr there
  cases head : heading ts with
  | none =>
    refine ofCube ?_ (by unfold targetsSystem; rw [head]; rfl)
    rw [delayedQuery_of_heading noWith, delayedQuery_of_heading noWith, bind_of_none head,
      bind_of_none head]
  | some pair =>
    obtain ⟨found, rest⟩ := pair
    cases isSystem : namesSystem (look rest) with
    | false =>
      have table : systemTable rest = some (none, rest) := by
        unfold systemTable
        rw [isSystem, if_neg Bool.false_ne_true]
      refine ofCube ?_ (by unfold targetsSystem; rw [head]; exact isSystem)
      rw [delayedQuery_of_heading noWith, delayedQuery_of_heading noWith, bind_of_some head,
        bind_of_some head, if_pos rfl, bind_of_some table]
      rfl
    | true =>
      have targets : targetsSystem ts = true := by
        unfold targetsSystem
        rw [head]
        exact isSystem
      unfold query
      rw [targets, if_pos rfl, map_eq_pure_bind, map_eq_pure_bind,
        bind_congr_at (rowsetQuery_of_heading head isSystem),
        bind_congr_at (delayedQuery_of_heading noWith true), bind_assoc, bind_of_some head,
        if_pos rfl]
      have table : systemTable rest = (do
          symbol .dot
          return some (← name) : Parser (Option Name)) (rest.drop 1) := by
        unfold systemTable
        rw [isSystem, if_pos rfl]
      rw [bind_assoc, bind_congr_at table]
      simp only [bind_assoc, pure_bind, map_eq_pure_bind, statementOf]

end MdxReader.Grammar
