import MdxReader.Proofs.Complaints
import MdxReader.Proofs.Parsing
import MdxReader.Proofs.Statements

/-!
# What a complaint about a statement is about

Errors in statements point into the statement as well, with two exceptions (`ReadError.PlacedIn`).
An axis without `ON` is missed only behind `FROM`, and the error has the place where the axis ended;
it names no token, but one begins there.  The formula of a definition, if it is in quotes, is a text
of its own: what is wrong in it points into that text, and its place is counted from the beginning
of the formula (`exists_misplaced_error`).

The items of a query remember where they ended, so the places of tokens are carried in them.  Which
string is the formula of a definition is told by the tokens in front of it, so what the reader takes
between `MEMBER` or `SET` and the formula is compared with the grammar (`gives_moreDefinitions`).
-/

namespace MdxReader

open ReadM

/-- `(MEMBER | SET) id AS`, which stands in front of a formula. -/
def Grammar.defining : Parser Identifier := do
  Parser.ifKeyword .MEMBER (pure ()) (Parser.keyword .SET)
  let defined ← identifier
  Parser.keyword .AS
  return defined

/-- The string at a place of the text is **the formula of a definition**: `MEMBER` or `SET`, an
identifier and `AS` stand right in front of it. -/
def FormulaAt (text formula : String) (place : Position) : Prop :=
  ∃ (definition behind : List Located) (defined : Identifier),
    definition <:+ (Feed.ofText text).ahead ∧
    ⟨.string formula .single, place⟩ :: behind <:+ definition ∧
    Grammar.defining (definition.map Located.token) =
      some (defined, .string formula .single :: behind.map Located.token)

/-- **The error is placed in the text**: it points into it, or tells where an axis without `ON`
ended, or it points into a string that is the formula of a definition. -/
def ReadError.PlacedIn (text : String) (limit : Nat) (e : ReadError) : Prop :=
  e.PointsInto text limit ∨
    (∃ t place, e = .unexpected .axis .endOfAxis place ∧ StandsAt text t place) ∨
    ∃ formula place, FormulaAt text formula place ∧ e.PointsInto formula limit

/-- Errors that are placed in the text. -/
def Standard.placed (text : String) (limit : Nat) : Standard text limit where
  accepts := ReadError.PlacedIn text limit
  pointing _ := .inl

/-! ### Places where no token is -/

/-- At the end of a text it ends again. -/
theorem Scanner.next_of_ended {s : Scanner} (h : s.next.1 = .ok .endOfText) :
    s.next.2.next = s.next := by
  have step := s.step_next
  have whole : s.next = (.ok .endOfText, s.next.2) := by rw [← h]
  rw [whole]
  rw [h] at step
  generalize s.next.2 = after at step ⊢
  cases step with
  | @ended _ after _ _ empty =>
    obtain ⟨rest, place⟩ := after
    rw [show rest = [] from empty]
    simp [next, skipGap, readToken]
  | token _ _ _ spelled some _ => exact absurd spelled some

/-- However often it is called again, a scanner at the end stays there. -/
theorem Scanner.next_after_of_ended {s : Scanner} (h : s.next.1 = .ok .endOfText) (n : Nat) :
    (s.after n).next = s.next := by
  induction n generalizing s with
  | zero => rfl
  | succ n ih =>
    have again := next_of_ended h
    exact (ih ((congrArg Prod.fst again).trans h)).trans again

/-- **The tokens of a text are all that its scanner ever returns.** -/
theorem Scans.mem_of_returns {s : Scanner} {found : List Located} (scans : Scans s found)
    {t : Token} {place : Position} (returned : s.Returns t place) : ⟨t, place⟩ ∈ found := by
  obtain ⟨n, answer, mark⟩ := returned
  induction scans generalizing n with
  | @ended s last =>
    rw [Scanner.next_after_of_ended last] at answer mark
    rw [last] at answer
    cases answer
    exact List.mem_singleton.mpr (mark ▸ rfl)
  | @token s first later answer' _ _ ih =>
    cases n with
    | zero =>
      rw [show (s.after 0).next.1 = _ from answer'] at answer
      cases answer
      exact mark ▸ List.mem_cons_self
    | succ n => exact List.mem_cons_of_mem _ (ih n answer mark)

/-! ### Places of items -/

/-- A token begins where the item ends. -/
def Item.StopsIn (text : String) (item : Item) : Prop := ∃ t, StandsAt text t item.stop

/-- Every item ends where a token begins. -/
def Selection.StopIn (text : String) : Selection → Prop
  | asterisk => True
  | items all => ∀ item ∈ all, item.StopsIn text

namespace Selection

variable {text : String} {limit : Nat}

/-- What is wrong with axes is that one has no `ON`. -/
theorem placedIn_of_axisClauses {clauses : List AxisClause} {items : List Item} {e : ReadError}
    (stops : ∀ item ∈ items, item.StopsIn text) (h : axisClauses clauses items = .error e) :
    e.PlacedIn text limit := by
  induction items generalizing clauses with
  | nil => cases h
  | cons item later ih =>
    unfold axisClauses at h
    split at h
    · exact ih (fun next mem => stops next (List.mem_cons_of_mem _ mem)) h
    · cases h
      obtain ⟨t, stands⟩ := stops item List.mem_cons_self
      exact .inr (.inl ⟨t, item.stop, rfl, stands⟩)

/-- What is wrong with columns is that one is no identifier; the place is where it ended. -/
theorem placedIn_of_columnNames {names : List Identifier} {items : List Item} {e : ReadError}
    (stops : ∀ item ∈ items, item.StopsIn text) (h : columnNames names items = .error e) :
    e.PlacedIn text limit := by
  induction items generalizing names with
  | nil => cases h
  | cons item later ih =>
    unfold columnNames at h
    split at h
    · exact ih (fun next mem => stops next (List.mem_cons_of_mem _ mem)) h
    · cases h
      obtain ⟨t, stands⟩ := stops item List.mem_cons_self
      exact .inl ⟨t, item.stop, rfl, stands, trivial⟩

end Selection

/-! ### The depth of a reader -/

/-- Depth and events are not in the text. -/
theorem Reader.Follows.same_place {text : String} {limit : Nat} {r : Reader}
    (follows : r.Follows text limit) (depth : Nat) (events : List LevelEvent) :
    ({ r with depth, events } : Reader).Follows text limit :=
  ⟨follows.suffix, follows.inner, follows.last, follows.fault, follows.limit⟩

namespace ReadM

section Depth

variable {α : Type} {text : String} {limit : Nat} {v : Standard text limit} {good : α → Prop}

/-- Going deeper may be too deep, and moves nowhere. -/
theorem Points.descend : Points v ReadM.descend Anything :=
  (Points.checkHeight 1).bind fun _ _ r follows =>
    ⟨trivial, follows.same_place (r.depth + 1) r.events⟩

/-- The reader keeps the depth it had, wherever in the text it got to. -/
theorem Points.keepingDepth {reading : ReadM α} (h : Points v reading good) :
    Points v (ReadM.keepingDepth reading) good := by
  intro r follows
  have inner := h r follows
  unfold Gives ReadM.keepingDepth
  cases found : reading r with
  | ok a after =>
    obtain ⟨fine, still⟩ := inner.ok found
    exact ⟨fine, still.same_place r.depth after.events⟩
  | error e after => exact inner.error found

/-! ### Lists and counts -/

/-- What is known of each item is known of all in the list. -/
theorem points_itemsAfter {item : ReadM α} (each : Points v item good) (keeps : Keeps item)
    {items : List α} (start : ∀ a ∈ items, good a) :
    Points v (itemsAfter item keeps items) (fun all => ∀ a ∈ all, good a) := by
  have loop : Points v (ReadM.whileToken (·.isSymbol .comma) (moreItems item)
      (fun _ _ => Spends.moreItems keeps) items) (fun all => ∀ a ∈ all, good a) := by
    refine Points.whileToken start fun found fine => ?_
    refine Points.advance.bind fun _ _ => each.bind fun a goodA => Points.pure ?_
    exact List.forall_mem_cons.mpr ⟨goodA, fine⟩
  refine loop.bind fun all fine => Points.pure fun a mem => fine a ?_
  exact List.mem_reverse.mp mem

theorem points_separated {item : ReadM α} (each : Points v item good) (keeps : Keeps item) :
    Points v (separated item keeps) (fun all => ∀ a ∈ all, good a) :=
  each.bind fun _ fine => points_itemsAfter each keeps (List.forall_mem_singleton.mpr fine)

theorem points_identifiers : Points v identifiers Anything :=
  (points_separated points_identifier Keeps.identifier).mono fun _ _ => trivial

theorem points_count (expected : Expected) : Points v (count expected) Anything := by
  refine Points.get fun r _ _ => ?_
  split
  · exact Points.advance.bind fun _ _ => Points.pure trivial
  · exact Points.failExpecting

end Depth

variable {text : String} {limit : Nat}

/-! ### Definitions -/

/-- **What is wrong in a formula in quotes points into the formula.** -/
theorem gives_formula_inside {formula : String} {r : Reader} (follows : r.Follows text limit)
    (defines : FormulaAt text formula r.place) :
    Gives (inside formula wholeExpression) (fun _ after => after.Follows text limit)
      (fun e _ => e.PlacedIn text limit) r := by
  obtain rfl := follows.limit
  have within {e : ReadError} (h : e.PointsInto formula r.limit) : e.PlacedIn text r.limit :=
    .inr (.inr ⟨formula, r.place, defines, h⟩)
  unfold Gives inside
  cases start : Reader.ofText formula r.limit with
  | error e => exact within (Reader.pointsInto_of_ofText start)
  | ok inner =>
    simp only
    by_cases reached : r.limit < r.depth + 1
    · rw [if_pos reached]
      exact .inl rfl
    · rw [if_neg reached]
      have below := (Reader.follows_of_ofText start).same_place (r.depth + 1) r.events
      have points : Points (.exact formula r.limit) wholeExpression Anything :=
        points_wholeExpression
      have read := points _ below
      cases found : wholeExpression { inner with depth := r.depth + 1, events := r.events } with
      | ok x after => exact follows.same_place r.depth after.events
      | error e after => exact within (read.error found)

/-- A formula is placed in the text if the string that may come next is one of a definition. -/
theorem gives_formula {r : Reader} (follows : r.Follows text limit)
    (defines : ∀ formula, r.token = .string formula .single → FormulaAt text formula r.place) :
    Gives formula (fun _ after => after.Follows text limit) (fun e _ => e.PlacedIn text limit)
      r := by
  refine Gives.get ?_
  split
  · rename_i found quoted
    refine (gives_formula_inside follows (defines found quoted)).bind fun x after still => ?_
    have last : Points (.placed text limit) (do advance; return x) Anything :=
      Points.advance.bind fun _ _ => Points.pure trivial
    exact (last after still).mono (fun _ _ fine => fine.2) fun _ _ => id
  · have read : Points (.placed text limit) expression Anything := points_expression
    exact (read r follows).mono (fun _ _ fine => fine.2) fun _ _ => id

theorem points_memberProperty : Points (.placed text limit) memberProperty Anything :=
  points_name.bind fun _ _ => Points.expect.bind fun _ _ =>
    points_expression.bind fun _ _ => Points.pure trivial

/-- A reading that points at what it complains of, and that is known to parse, leaves the last of
the tokens that were ahead. -/
theorem Points.parsing {α : Type} {v : Standard text limit} {x : ReadM α} {p : Parser α}
    {good : α → Prop} (points : Points v x good) (parses : Parses id x p) {r : Reader}
    (follows : r.Follows text limit) :
    Gives x (fun a after => after.Follows text limit ∧ p r.tokens = some (a, after.tokens) ∧
      after.ahead <:+ r.ahead) (fun e _ => v.accepts e) r := by
  refine Gives.of_cases (fun a after found => ?_) fun e after found => (points r follows).error found
  have means := parses r
  unfold Means at means
  rw [found] at means
  exact ⟨((points r follows).ok found).2, means.1.symm, means.2.suffix⟩

/-- The token that begins a definition is all that stands in front of the name. -/
theorem parses_opening {r : Reader} (begins : beginsDefinition r.token = true) :
    Parser.ifKeyword .MEMBER (pure ()) (Parser.keyword .SET) r.tokens =
      some ((), r.tokens.drop 1) := by
  by_cases member : r.token.isKeyword .MEMBER = true
  · have comes : (Descent.look r.tokens).isKeyword .MEMBER = true := member
    exact Parser.ifKeyword_of_look comes
  · have misses : (Descent.look r.tokens).isKeyword .MEMBER = false := Bool.eq_false_iff.mpr member
    have set : r.token.isKeyword .SET = true := by simpa [beginsDefinition, member] using begins
    have comes : (Descent.look r.tokens).isKeyword .SET = true := set
    rw [Parser.ifKeyword_of_ne misses]
    exact Parser.keyword_of_look comes

/-- Where the name and `AS` were taken behind the beginning of a definition, a string that comes next
is its formula. -/
theorem formulaAt_of_taken {r named assigned body : Reader} {defined : Identifier}
    (follows : r.Follows text limit) (begins : beginsDefinition r.token = true)
    (opened : r.ahead = ⟨r.token, r.place⟩ :: named.ahead)
    (identified : Grammar.identifier named.tokens = some (defined, assigned.tokens))
    (expected : Parser.keyword .AS assigned.tokens = some ((), body.tokens))
    (left : body.ahead <:+ named.ahead) {formula : String}
    (quoted : body.token = .string formula .single) : FormulaAt text formula body.place := by
  have next : r.tokens.drop 1 = named.tokens := by
    unfold Reader.tokens
    rw [opened]
    rfl
  have whole : body.ahead = ⟨.string formula .single, body.place⟩ :: body.ahead.tail := by
    rw [← quoted]
    rfl
  refine ⟨r.ahead, body.ahead.tail, defined, follows.suffix, ?_, ?_⟩
  · rw [← whole, opened]
    exact left.trans (List.suffix_cons _ _)
  · have tokens : body.tokens = .string formula .single :: body.ahead.tail.map Located.token :=
      congrArg (List.map Located.token) whole
    change Grammar.defining r.tokens = _
    unfold Grammar.defining
    rw [Parser.bind_of_some (parses_opening begins), next, Parser.bind_of_some identified,
      Parser.bind_of_some expected, ← tokens]
    rfl

/-- **A definition is placed in the text.**  What the reader takes in front of the formula is what
the grammar has there. -/
theorem gives_moreDefinitions (definitions : List Definition) {r : Reader}
    (follows : r.Follows text limit) (begins : beginsDefinition r.token = true) :
    Gives (moreDefinitions definitions) (fun _ after => after.Follows text limit)
      (fun e _ => e.PlacedIn text limit) r := by
  have more := ne_endOfText_of_beginsDefinition begins
  have advances : Points (.placed text limit) advance Anything := Points.advance
  have identifies : Points (.placed text limit) identifier Anything := points_identifier
  have expects : Points (.placed text limit) (expectKeyword .AS) Anything := Points.expectKeyword
  have moves : Gives advance (fun _ after => after.Follows text limit ∧
      r.ahead = ⟨r.token, r.place⟩ :: after.ahead) (fun e _ => e.PlacedIn text limit) r :=
    Gives.of_cases (fun _ _ moved => ⟨follows.advance moved, ahead_of_advance more moved⟩)
      fun e after failed => (advances r follows).error failed
  refine Gives.get (moves.bind fun _ named ⟨still, opened⟩ => ?_)
  refine (identifies.parsing yields_identifier still).bind
    fun defined assigned ⟨still, identified, left⟩ => ?_
  refine (expects.parsing (Parses.expectKeyword .AS) still).bind
    fun _ body ⟨still, expected, fewer⟩ => ?_
  have defines : ∀ formula, body.token = .string formula .single →
      FormulaAt text formula body.place := fun formula quoted =>
    formulaAt_of_taken follows begins opened identified expected (fewer.trans left) quoted
  refine (gives_formula still defines).bind fun formula last still => ?_
  have properties : Points (.placed text limit) (do
      if r.token.isKeyword .MEMBER then
        let properties ← itemsAfter memberProperty .memberProperty []
        return Definition.member defined formula properties :: definitions
      else return Definition.set defined formula :: definitions) Anything := by
    refine Points.ite (fun _ => ?_) fun _ => Points.pure trivial
    exact (points_itemsAfter points_memberProperty Keeps.memberProperty (by nofun)).bind
      fun _ _ => Points.pure trivial
  exact (properties last still).mono (fun _ _ fine => fine.2) fun _ _ => id

/-- Each round of the loop starts at `MEMBER` or `SET`, which the formula is told by. -/
theorem points_withClause : Points (.placed text limit) withClause Anything := by
  refine Points.atKeyword (Points.advance.bind fun _ _ => ?_) (Points.pure trivial)
  refine Points.get fun r _ _ => Points.ite (fun _ => ?_) fun _ => Points.failExpecting
  have loop : Points (.placed text limit) (whileToken beginsDefinition moreDefinitions
      (fun _ _ => Spends.moreDefinitions) []) Anything := fun r follows =>
    Gives.whileToken ⟨trivial, follows⟩ fun definitions r begins ⟨_, still⟩ =>
      (gives_moreDefinitions definitions still begins).mono (fun _ _ fine => ⟨trivial, fine⟩)
        fun _ _ => id
  exact loop.bind fun _ _ => Points.pure trivial

/-! ### Items -/

theorem points_axis : Points (.placed text limit) axis Anything := by
  refine Points.get fun r _ _ => ?_
  split
  · exact Points.advance.bind fun _ _ => Points.pure trivial
  have number : Points (.placed text limit) axisNumber Anything := by
    refine Points.atKeyword ?_ (points_count _)
    refine Points.advance.bind fun _ _ => Points.expect.bind fun _ _ => ?_
    exact (points_count _).bind fun _ _ => Points.expect.bind fun _ _ => Points.pure trivial
  refine number.bind fun n _ => Points.ite (fun _ => Points.pure trivial) fun _ => ?_
  exact Points.failBreaking fun _ _ => trivial

theorem points_propertyList (noun : Keyword) :
    Points (.placed text limit) (propertyList noun) Anything := by
  refine Points.atKeyword ?_ (Points.atKeyword ?_ (Points.pure trivial))
  · exact Points.advance.bind fun _ _ => Points.expectKeyword.bind fun _ _ => points_identifiers
  · exact Points.advance.bind fun _ _ => points_identifiers

/-- An item remembers the place of the token behind it. -/
theorem points_item : Points (.placed text limit) item (Item.StopsIn text) := by
  have marked : Points (.placed text limit) nonEmpty Anything := by
    refine Points.atKeyword (Points.advance.bind fun _ _ => ?_) (Points.pure trivial)
    exact Points.expectKeyword.bind fun _ _ => Points.pure trivial
  refine marked.bind fun _ _ => points_expression.bind fun _ _ => ?_
  refine (points_propertyList .DIMENSION).bind fun _ _ => Points.get fun r stands _ => ?_
  refine Points.ite (fun _ => Points.advance.bind fun _ _ => ?_) fun _ =>
    Points.pure ⟨r.token, stands⟩
  exact points_axis.bind fun _ _ => Points.pure ⟨r.token, stands⟩

/-- The items keep where they ended, for what is found out behind `FROM`. -/
theorem points_selection : Points (.placed text limit) selection (Selection.StopIn text) := by
  refine Points.atKeyword (Points.pure (by nofun)) (Points.atSymbol ?_ ?_)
  · exact Points.advance.bind fun _ _ => Points.pure trivial
  · exact (points_separated points_item Keeps.item).bind fun _ stops => Points.pure stops

/-- Axes are judged behind the source, at places that were kept. -/
theorem points_projection {selected : Selection} (stops : selected.StopIn text) :
    Points (.placed text limit) (judge selected.projection) Anything := by
  refine Points.judge (fun _ _ => trivial) fun e found => ?_
  unfold Selection.projection at found
  split at found
  · cases found
  · cases found
  · rename_i item more
    cases clauses : Selection.axisClauses [] (item :: more) with
    | ok all =>
      rw [clauses] at found
      cases found
    | error error =>
      rw [clauses] at found
      cases found
      exact Selection.placedIn_of_axisClauses stops clauses

/-- Columns are judged behind the condition, at places that were kept. -/
theorem points_columns {selected : Selection} (stops : selected.StopIn text) :
    Points (.placed text limit) (judge selected.columns) Anything := by
  refine Points.judge (fun _ _ => trivial) fun e found => ?_
  unfold Selection.columns at found
  split at found
  · cases found
  · exact Selection.placedIn_of_columnNames stops found

/-! ### Sources -/

theorem points_slicer : Points (.placed text limit) slicer Anything := by
  refine Points.atKeyword ?_ (Points.pure trivial)
  exact Points.advance.bind fun _ _ => points_expression.bind fun _ _ => Points.pure trivial

theorem points_openSubselect (opened : List Projection) :
    Points (.placed text limit) (openSubselect opened) Anything := by
  refine Points.descend.bind fun _ _ => Points.advance.bind fun _ _ => ?_
  refine Points.expectKeyword.bind fun _ _ => points_selection.bind fun _ stops => ?_
  refine (points_projection stops).bind fun _ _ => Points.expectKeyword.bind fun _ _ => ?_
  exact Points.pure trivial

/-- The induction is on the sub-selects that are open; each goes back to its depth. -/
theorem points_closeSubselects (base : Nat) (opened : List Projection) (source : Source) :
    Points (.placed text limit) (closeSubselects base opened source) Anything := by
  induction opened generalizing source with
  | nil => exact Points.pure trivial
  | cons projection around ih =>
    intro r follows
    have rest : Points (.placed text limit) (do
        let slicer ← slicer
        expect .closeParen
        closeSubselects base around (.subselect projection source slicer)) Anything :=
      points_slicer.bind fun _ _ => Points.expect.bind fun _ _ => ih _
    exact rest _ (follows.same_place (base + around.length + 1) r.events)

theorem points_source : Points (.placed text limit) source Anything := by
  refine Points.keepingDepth (Points.get fun base _ _ => ?_)
  have opening : Points (.placed text limit) (whileToken (·.isSymbol .openParen) openSubselect
      (fun _ _ => Spends.openSubselect) []) Anything :=
    Points.whileToken trivial fun opened _ => points_openSubselect opened
  refine opening.bind fun opened _ => points_cubeName.bind fun cube _ => ?_
  exact points_closeSubselects base.depth opened _

/-! ### Queries and statements -/

theorem points_cubeQuery (definitions : List Definition) {selected : Selection}
    (stops : selected.StopIn text) :
    Points (.placed text limit) (cubeQuery definitions selected) Anything := by
  refine (points_projection stops).bind fun _ _ => points_source.bind fun _ _ => ?_
  refine points_slicer.bind fun _ _ => (points_propertyList .CELL).bind fun _ _ => ?_
  exact Points.pure trivial

theorem points_query (rowsets : Bool) : Points (.placed text limit) (query rowsets) Anything := by
  refine points_withClause.bind fun definitions _ => Points.expectKeyword.bind fun _ _ => ?_
  refine points_selection.bind fun selected stops => Points.expectKeyword.bind fun _ _ => ?_
  refine Points.ite (fun _ => ?_) fun _ => points_cubeQuery definitions stops
  have table : Points (.placed text limit) systemTable Anything := by
    refine Points.get fun r _ _ => Points.ite (fun _ => Points.advance.bind fun _ _ => ?_) fun _ =>
      Points.pure trivial
    exact Points.expect.bind fun _ _ => points_name.bind fun _ _ => Points.pure trivial
  refine table.bind fun name _ => ?_
  cases name with
  | none => exact points_cubeQuery definitions stops
  | some found =>
    exact points_slicer.bind fun _ _ => (points_columns stops).bind fun _ _ => Points.pure trivial

theorem points_select : Points (.placed text limit) select Anything := by
  refine (points_query false).bind fun found _ => ?_
  cases found with
  | select found => exact Points.pure trivial
  | rowset found => exact Points.failBreaking fun _ _ => trivial

theorem points_drillOption (found : Option Nat × Option Nat) :
    Points (.placed text limit) (drillOption found) Anything := by
  refine Points.get fun r _ _ => Points.ite (fun _ => ?_) fun _ => Points.ite (fun _ => ?_) fun _ =>
    Points.pure trivial
  · exact Points.advance.bind fun _ _ => (points_count _).bind fun _ _ => Points.pure trivial
  · exact Points.advance.bind fun _ _ => (points_count _).bind fun _ _ => Points.pure trivial

theorem points_drillthrough : Points (.placed text limit) drillthrough Anything := by
  refine Points.expectKeyword.bind fun _ _ => (points_drillOption _).bind fun first _ => ?_
  refine (points_drillOption first).bind fun _ _ => points_select.bind fun _ _ => ?_
  have returns : Points (.placed text limit) returned Anything :=
    Points.atKeyword (Points.advance.bind fun _ _ => points_identifiers) (Points.pure trivial)
  exact returns.bind fun _ _ => Points.pure trivial

theorem points_plainStatement : Points (.placed text limit) plainStatement Anything := by
  refine Points.atKeyword ?_ ?_
  · exact points_drillthrough.bind fun _ _ => Points.pure trivial
  · refine (points_query true).bind fun found _ => ?_
    cases found with
    | select found => exact Points.pure trivial
    | rowset found => exact Points.pure trivial

theorem points_explainMark (marks : Nat) :
    Points (.placed text limit) (explainMark marks) Anything :=
  Points.descend.bind fun _ _ => Points.advance.bind fun _ _ => Points.expectKeyword.bind fun _ _ =>
    Points.expectKeyword.bind fun _ _ => Points.pure trivial

theorem points_statement : Points (.placed text limit) statement Anything := by
  have marking : Points (.placed text limit) (whileToken (·.isKeyword .EXPLAIN) explainMark
      (fun _ _ => Spends.explainMark) 0) Anything :=
    Points.whileToken trivial fun marks _ => points_explainMark marks
  exact Points.keepingDepth (marking.bind fun _ _ => points_plainStatement.bind fun _ _ =>
    Points.pure trivial)

theorem points_endStatement : Points (.placed text limit) endStatement Anything :=
  Points.atSymbol (Points.advance.bind fun _ _ => Points.expectEnd) Points.expectEnd

end ReadM

/-- **Errors in statements are placed in the statement**, or in a formula in quotes that it has. -/
theorem placedIn_of_read {goal : Goal} (long : goal = .select ∨ goal = .statement) {text : String}
    {limit : Nat} {e : ReadError} (h : read goal text limit = .error e) :
    e.PlacedIn text limit := by
  have points : Points (.placed text limit) goal.reading Anything := by
    rcases long with rfl | rfl
    · have whole : Points (.placed text limit) wholeSelect Anything :=
        points_select.bind fun _ _ => points_endStatement.bind fun _ _ => Points.pure trivial
      exact whole.bind fun _ _ => Points.pure trivial
    · have whole : Points (.placed text limit) wholeStatement Anything :=
        points_statement.bind fun _ _ => points_endStatement.bind fun _ _ => Points.pure trivial
      exact whole.bind fun _ _ => Points.pure trivial
  exact points.accepts_of_read h

/-- That the first item has no `ON` turns out behind `FROM`; the item ended at the comma. -/
theorem placedIn_of_read_axis :
    read .select "SELECT a, b ON 0 FROM c" 9 = .error (.unexpected .axis .endOfAxis ⟨8, 1, 9⟩) ∧
      (ReadError.unexpected .axis .endOfAxis ⟨8, 1, 9⟩).PlacedIn "SELECT a, b ON 0 FROM c" 9 := by
  have failed : read .select "SELECT a, b ON 0 FROM c" 9 =
      .error (.unexpected .axis .endOfAxis ⟨8, 1, 9⟩) :=
    eq_error_of_fault? (by decide +kernel)
  exact ⟨failed, placedIn_of_read (.inl rfl) failed⟩

/-- **Not every error in a statement points into the statement.**  The formula in quotes is
incomplete.  The error tells where, but counts from the beginning of the formula; in the statement
no token begins there, and nothing is wrong with its tokens. -/
theorem exists_misplaced_error :
    read .statement "WITH MEMBER m AS '1 +' SELECT FROM c" 256 =
        .error (.unexpected .expression (.token .endOfText) ⟨3, 1, 4⟩) ∧
      (∀ t, ¬ StandsAt "WITH MEMBER m AS '1 +' SELECT FROM c" t ⟨3, 1, 4⟩) ∧
      ∀ fault, tokensOf "WITH MEMBER m AS '1 +' SELECT FROM c" ≠ .error fault := by
  obtain ⟨tokens, scanned⟩ := exists_of_isOk
    (x := tokensOf "WITH MEMBER m AS '1 +' SELECT FROM c") (by decide +kernel)
  have none : (tokensOf "WITH MEMBER m AS '1 +' SELECT FROM c").toOption.all
      (fun all => all.all fun next => next.place ≠ ⟨3, 1, 4⟩) = true := by
    decide +kernel
  refine ⟨eq_error_of_fault? (by decide +kernel), fun t stands => ?_, fun fault failed => ?_⟩
  · rw [scanned] at none
    have listed := (scans_of_tokensOf scanned).mem_of_returns stands
    have other := List.all_eq_true.mp none _ listed
    exact absurd rfl (of_decide_eq_true other)
  · rw [scanned] at failed
    cases failed

end MdxReader
