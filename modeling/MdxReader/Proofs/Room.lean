import MdxReader.Proofs.Balance
import MdxReader.Proofs.Nesting
import MdxReader.Proofs.Spans
import MdxReader.Reading.Whole

/-!
# Room for nesting

Inside an expression every level is paid for by a token (`MdxReader.Proofs.Nesting`).  A statement
goes deeper with `EXPLAIN`, with the parenthesis of a sub-select and with a formula in quotes.  The
last of these is a single token with a whole text in it, so here tokens count by their *bulk*: the
characters they take at least.  The bulk of all tokens is at most the length of the text
(`Reader.bulk_of_ofText`), and `ReadM.room` is the invariant that the limit leaves room for the
depth of a reader and the bulk that is still ahead.

All readings of statements are safe with this invariant.  There are two uses of it.  Without any
demand on the room, no reader ever fails with an internal error, whatever is asked of it
(`not_internal_of_attempts`).  And with room for the whole text the limit is never hit
(`Goal.shallow_of_length_le`).
-/

namespace MdxReader

open ReadM

/-! ### The characters that tokens take -/

/-- How many characters a token takes at least: a string has its contents and two quotes. -/
def Token.bulk : Token → Nat
  | string text _ => text.length + 2
  | _ => 1

/-- How many characters are gone after an answer, at least. -/
def Lexeme.bulk : Lexeme → Nat
  | .ok next => next.token.bulk
  | .error _ => 1

/-- Every token has at least one character. -/
theorem Token.bulk_pos (t : Token) : 1 ≤ t.bulk := by
  cases t <;> simp [bulk]

theorem Lexeme.bulk_pos (lexeme : Lexeme) : 1 ≤ Lexeme.bulk lexeme := by
  cases lexeme with
  | ok next => exact next.token.bulk_pos
  | error e => exact Nat.le_refl 1

/-- Doubling delimiters leaves no character out. -/
theorem length_le_doubled (delimiter : Char) (text : String) :
    text.length ≤ (doubled delimiter text).length := by
  unfold doubled
  rw [← String.length_toList]
  induction text.toList with
  | nil => exact Nat.le_refl 0
  | cons c rest ih =>
    rw [List.flatMap_cons, List.length_append, List.length_cons]
    split
    · simp only [List.length_cons, List.length_nil]
      omega
    · simp only [List.length_cons, List.length_nil]
      omega

/-- A token is found in no less text than its bulk. -/
theorem Token.Spelled.bulk_le {t : Token} {span : List Char} (spelled : t.Spelled span)
    (some : span ≠ []) : t.bulk ≤ span.length := by
  cases t with
  | string text quote =>
    have form : span = (Token.string text quote).text.toList := spelled
    have contents := length_le_doubled quote.mark text
    rw [form, Token.text, String.toList_ofList, List.length_append, List.length_cons,
      List.length_singleton, Token.bulk]
    omega
  | _ => exact List.length_pos_iff.mpr some

/-- Every answer that is not final takes the characters of its token. -/
theorem Scanner.bulk_next {s : Scanner} (goesOn : isFinal s.next.1 = false) :
    Lexeme.bulk (s.next.1.map (⟨·, s.next.2.mark⟩)) + s.next.2.cursor.rest.length ≤
      s.cursor.rest.length := by
  have shorter := length_rest_next_lt goesOn
  have step := s.step_next
  generalize s.next = next at *
  obtain ⟨answer, after⟩ := next
  cases step with
  | @token t _ _ _ last gap _ taken spelled some _ =>
    have bulk := spelled.bulk_le some
    rw [gap.text, taken.text, List.length_append, List.length_append]
    change t.bulk + last.rest.length ≤ _
    omega
  | ended => cases goesOn
  | endless | fault =>
    change 1 + _ ≤ _
    omega

/-- All answers together take no more characters than there are. -/
theorem Scanner.Answers.bulk_le {s : Scanner} {lexemes : List Lexeme}
    {ending : Except ScanError Position} (h : s.Answers lexemes ending) :
    (lexemes.map Lexeme.bulk).sum ≤ s.cursor.rest.length := by
  induction h with
  | final => exact Nat.zero_le _
  | more goesOn _ ih =>
    rw [List.map_cons, List.sum_cons]
    exact Nat.le_trans (Nat.add_le_add_left ih _) (Scanner.bulk_next goesOn)

/-! ### Readers and what is ahead of them -/

namespace Reader

/-- The bulk of the tokens that are left. -/
def bulk (r : Reader) : Nat :=
  (r.feed.upcoming.map Lexeme.bulk).sum + if r.token = .endOfText then 0 else r.token.bulk

/-- The tokens of a text have no more characters than the text. -/
theorem bulk_of_ofText {text : String} {limit : Nat} {r : Reader}
    (h : ofText text limit = .ok r) : r.bulk ≤ text.length := by
  have all : ((Feed.ofText text).upcoming.map Lexeme.bulk).sum ≤ text.length := by
    rw [← String.length_toList]
    exact (Feed.answers_ofText text).bulk_le
  unfold bulk
  obtain ⟨first, later, upcoming, rfl⟩ | ⟨place, upcoming, -, rfl⟩ := ofText_cases h
  · rw [upcoming, List.map_cons, List.sum_cons] at all
    change first.token.bulk + _ ≤ _ at all
    simp only
    split <;> omega
  · rw [upcoming]
    simp

/-- There are no more tokens than characters. -/
theorem remaining_le_bulk (r : Reader) : r.remaining ≤ r.bulk := by
  have each : r.feed.upcoming.length ≤ (r.feed.upcoming.map Lexeme.bulk).sum := by
    induction r.feed.upcoming with
    | nil => exact Nat.le_refl _
    | cons lexeme later ih =>
      have one := Lexeme.bulk_pos lexeme
      rw [List.length_cons, List.map_cons, List.sum_cons]
      omega
  have one := r.token.bulk_pos
  unfold remaining bulk
  split <;> omega

/-- Moving on leaves the token behind, with its bulk. -/
theorem bulk_of_advance {r after : Reader} (h : advance r = .ok () after) :
    after.bulk + (if r.token = .endOfText then 0 else r.token.bulk) ≤ r.bulk := by
  unfold advance Feed.pull at h
  unfold bulk
  cases upcoming : r.feed.upcoming with
  | nil =>
    cases ending : r.feed.ending with
    | ok place =>
      simp only [upcoming, ending, Except.map] at h
      cases h
      simp [upcoming]
    | error e =>
      simp only [upcoming, ending, Except.map] at h
      cases h
  | cons lexeme later =>
    cases lexeme with
    | ok next =>
      simp only [upcoming] at h
      cases h
      have counted : Lexeme.bulk (.ok next) = next.token.bulk := rfl
      rw [List.map_cons, List.sum_cons, counted]
      simp only
      split <;> split <;> omega
    | error e =>
      simp only [upcoming] at h
      cases h

/-- The reader has room for what is ahead: under the limit `l`, with `d` levels around it. -/
structure Has (r : Reader) (d l : Nat) : Prop where
  depth : r.depth = d
  limit : r.limit = l
  room : d + r.bulk ≤ l

/-- Taking a token leaves as much room, counted with what was taken. -/
theorem Has.advance {r after : Reader} {d l : Nat} (h : r.Has d l)
    (moved : ReadM.advance r = .ok () after) : after.Has d l := by
  have reached := reaches_of_advance moved
  have fewer := bulk_of_advance moved
  have room := h.room
  exact ⟨reached.depth.trans h.depth, reached.limit.trans h.limit, by omega⟩

/-- A token that is there is room for one more level, once it is taken. -/
theorem Has.bulk_pos {r : Reader} {d l : Nat} (h : r.Has d l) (more : r.token ≠ .endOfText) :
    d + 1 ≤ l := by
  have room := h.room
  have one := r.token.bulk_pos
  unfold bulk at room
  rw [if_neg more] at room
  omega

end Reader

namespace ReadM

/-- There is room for what is ahead of a reader, or else the limit may be hit. -/
def room (deep : Prop) (d l : Nat) : Invariant where
  holds r := deep ∨ r.Has d l
  advance h moved := h.imp id fun has => has.advance moved
  note _ h := h.imp id fun has => ⟨has.depth, has.limit, has.room⟩

variable {deep : Prop} {d l : Nat}

/-! ### Expressions -/

/-- **An expression fails with regular errors only**, and hits the limit only without room. -/
theorem safe_expression_of_room : Safe (room deep d l) deep expression Anything := by
  intro r holds
  have safe : Safe (room deep d l) True expression Anything := safe_expression
  have regular := safe r holds
  refine Gives.of_cases (fun x after found => regular.ok found) fun e after found => ?_
  refine ⟨(regular.error found).1, ?_⟩
  rintro limit rfl
  rcases holds with isDeep | ⟨depth, fixed, enough⟩
  · exact isDeep
  · -- With room for the tokens that remain, the weight of the engine never reaches the limit.
    have fewer := r.remaining_le_bulk
    have fits : Engine.start.Fits r := by
      change r.depth + 0 + r.remaining ≤ r.limit
      omega
    have ran := Engine.leads_run (fun e r room => Engine.leads_step room) Engine.start r fits
    have shallow : Leads expression (fun _ _ => True) False r :=
      ran.bind fun _ _ _ _ => Leads.pure trivial
    unfold Leads at shallow
    rw [found] at shallow
    exact absurd ⟨limit, rfl⟩ shallow

theorem safe_wholeExpression : Safe (room deep d l) deep wholeExpression Anything :=
  safe_expression_of_room.bind fun _ _ => Safe.expectEnd.bind fun _ _ => Safe.pure trivial

/-- A text inside a text is one level deeper, and its quotes are room for that. -/
theorem gives_inside {text : String} {r : Reader} (holds : (room deep d l).holds r)
    (enough : deep ∨ d + 1 + text.length ≤ l) :
    Gives (inside text wholeExpression) (fun _ after => (room deep d l).holds after)
      (fun e _ => e.Regular deep) r := by
  have same (events : List LevelEvent) : (room deep d l).holds { r with events } :=
    holds.imp id fun has => ⟨has.depth, has.limit, has.room⟩
  unfold Gives inside
  cases start : Reader.ofText text r.limit with
  | error e =>
    unfold Reader.ofText at start
    split at start <;> cases start
    exact ⟨id, nofun⟩
  | ok inner =>
    simp only
    by_cases reached : r.limit < r.depth + 1
    · rw [if_pos reached]
      refine ⟨id, fun _ _ => ?_⟩
      rcases holds with isDeep | ⟨depth, limit, -⟩
      · exact isDeep
      · exact enough.resolve_right (by omega)
    · rw [if_neg reached]
      have below : (room deep (d + 1) l).holds
          { inner with depth := r.depth + 1, events := r.events } := by
        rcases holds with isDeep | ⟨depth, limit, -⟩
        · exact .inl isDeep
        refine enough.imp id fun enough => ?_
        have short := Reader.bulk_of_ofText start
        refine ⟨congrArg (· + 1) depth, (Reader.limit_of_ofText start).trans limit, ?_⟩
        change d + 1 + inner.bulk ≤ l
        omega
      have read := safe_wholeExpression _ below
      split
      · rename_i found
        split at found
        · cases found
          exact same _
        · cases found
      · rename_i found
        split at found
        · cases found
        · rename_i failed
          cases found
          exact read.error failed

theorem safe_formula : Safe (room deep d l) deep formula Anything := by
  intro r holds
  refine Gives.get ?_
  split
  · rename_i text token
    have enough : deep ∨ d + 1 + text.length ≤ l := by
      refine holds.imp id fun has => ?_
      have room := has.room
      unfold Reader.bulk at room
      rw [token, if_neg (by nofun)] at room
      simp only [Token.bulk] at room
      omega
    refine (gives_inside holds enough).bind fun x after still => ?_
    have last : Safe (room deep d l) deep (do advance; return x) Anything :=
      Safe.advance.bind fun _ _ => Safe.pure trivial
    exact last after still
  · exact safe_expression_of_room r holds

theorem safe_slicer : Safe (room deep d l) deep slicer Anything := by
  refine Safe.atKeyword ?_ (Safe.pure trivial)
  exact Safe.advance.bind fun _ _ => safe_expression_of_room.bind fun _ _ => Safe.pure trivial

/-! ### Definitions and axes -/

theorem safe_identifiers : Safe (room deep d l) deep identifiers Anything :=
  safe_separated safe_identifier Keeps.identifier

theorem safe_memberProperty : Safe (room deep d l) deep memberProperty Anything := by
  refine safe_name.bind fun _ _ => Safe.expect.bind fun _ _ => ?_
  exact safe_expression_of_room.bind fun _ _ => Safe.pure trivial

theorem safe_moreDefinitions (definitions : List Definition) :
    Safe (room deep d l) deep (moreDefinitions definitions) Anything := by
  refine Safe.get fun r => Safe.advance.bind fun _ _ => safe_identifier.bind fun _ _ => ?_
  refine Safe.expectKeyword.bind fun _ _ => safe_formula.bind fun _ _ => ?_
  refine Safe.ite (fun _ => ?_) fun _ => Safe.pure trivial
  exact (safe_itemsAfter safe_memberProperty Keeps.memberProperty []).bind fun _ _ =>
    Safe.pure trivial

theorem safe_withClause : Safe (room deep d l) deep withClause Anything := by
  refine Safe.atKeyword (Safe.advance.bind fun _ _ => ?_) (Safe.pure trivial)
  refine Safe.get fun r => Safe.ite (fun _ => ?_) fun _ => Safe.failExpecting nofun
  have loop : Safe (room deep d l) deep (whileToken beginsDefinition moreDefinitions
      (fun _ _ => Spends.moreDefinitions) []) Anything :=
    Safe.whileToken trivial fun definitions _ => safe_moreDefinitions definitions
  exact loop.bind fun _ _ => Safe.pure trivial

theorem safe_axis : Safe (room deep d l) deep axis Anything := by
  refine Safe.get fun r => ?_
  split
  · exact Safe.advance.bind fun _ _ => Safe.pure trivial
  have number : Safe (room deep d l) deep axisNumber Anything := by
    refine Safe.atKeyword ?_ (safe_count nofun)
    refine Safe.advance.bind fun _ _ => Safe.expect.bind fun _ _ => ?_
    exact (safe_count (by nofun)).bind fun _ _ => Safe.expect.bind fun _ _ => Safe.pure trivial
  refine number.bind fun n _ => Safe.ite (fun _ => Safe.pure trivial) fun _ => ?_
  exact Safe.failBreaking nofun nofun

theorem safe_propertyList (noun : Keyword) :
    Safe (room deep d l) deep (propertyList noun) Anything := by
  refine Safe.atKeyword ?_ (Safe.atKeyword ?_ (Safe.pure trivial))
  · exact Safe.advance.bind fun _ _ => Safe.expectKeyword.bind fun _ _ => safe_identifiers
  · exact Safe.advance.bind fun _ _ => safe_identifiers

theorem safe_item : Safe (room deep d l) deep item Anything := by
  have marked : Safe (room deep d l) deep nonEmpty Anything := by
    refine Safe.atKeyword (Safe.advance.bind fun _ _ => ?_) (Safe.pure trivial)
    exact Safe.expectKeyword.bind fun _ _ => Safe.pure trivial
  refine marked.bind fun _ _ => safe_expression_of_room.bind fun _ _ => ?_
  refine (safe_propertyList .DIMENSION).bind fun _ _ => Safe.get fun r => ?_
  refine Safe.ite (fun _ => Safe.advance.bind fun _ _ => ?_) fun _ => Safe.pure trivial
  exact safe_axis.bind fun _ _ => Safe.pure trivial

theorem safe_selection : Safe (room deep d l) deep selection Anything := by
  refine Safe.atKeyword (Safe.pure trivial) (Safe.atSymbol ?_ ?_)
  · exact Safe.advance.bind fun _ _ => Safe.pure trivial
  · exact (safe_separated safe_item Keeps.item).bind fun _ _ => Safe.pure trivial

/-- What is wrong with axes is that one has no `ON`. -/
theorem regular_axisClauses {clauses : List AxisClause} {items : List Item} {e : ReadError}
    (h : Selection.axisClauses clauses items = .error e) : e.Regular deep := by
  induction items generalizing clauses with
  | nil => cases h
  | cons item later ih =>
    unfold Selection.axisClauses at h
    split at h
    · exact ih h
    · cases h
      exact ReadError.regular_unexpected _ _ nofun

theorem safe_projection (selected : Selection) :
    Safe (room deep d l) deep (judge selected.projection) Anything := by
  refine Safe.judge (fun _ _ => trivial) fun e found => ?_
  unfold Selection.projection at found
  split at found
  · cases found
  · cases found
  · rename_i item more
    cases clauses : Selection.axisClauses [] (item :: more) with
    | ok all =>
      rw [clauses] at found
      cases found
    | error error =>
      rw [clauses] at found
      cases found
      exact regular_axisClauses clauses

theorem regular_columnNames {names : List Identifier} {items : List Item} {e : ReadError}
    (h : Selection.columnNames names items = .error e) : e.Regular deep := by
  induction items generalizing names with
  | nil => cases h
  | cons item later ih =>
    unfold Selection.columnNames at h
    split at h
    · exact ih h
    · cases h
      exact ReadError.regular_broken _ nofun nofun

theorem safe_columns (selected : Selection) :
    Safe (room deep d l) deep (judge selected.columns) Anything := by
  refine Safe.judge (fun _ _ => trivial) fun e found => ?_
  unfold Selection.columns at found
  split at found
  · cases found
  · exact regular_columnNames found

/-! ### Going deeper -/

/-- **Going one statement deeper** is paid for by the token that is taken. -/
theorem gives_deeper {α : Type} {r : Reader} {f : Unit → ReadM α} {good : α → Prop}
    (more : r.token ≠ .endOfText) (holds : (room deep d l).holds r)
    (next : Safe (room deep (d + 1) l) deep (f ()) good) :
    Gives (descend >>= fun _ => advance >>= f)
      (fun a after => good a ∧ (room deep (d + 1) l).holds after) (fun e _ => e.Regular deep)
      r := by
  have down : Gives descend (fun _ after => after = { r with depth := r.depth + 1 })
      (fun e _ => e.Regular deep) r := by
    unfold Gives
    rw [descend_apply]
    by_cases reached : r.limit < r.depth + 1
    · rw [if_pos reached]
      refine ⟨id, fun _ _ => ?_⟩
      rcases holds with isDeep | has
      · exact isDeep
      · have depth := has.depth
        have limit := has.limit
        have enough := has.bulk_pos more
        omega
    · rw [if_neg reached]
  refine down.bind fun _ between same => ?_
  subst same
  have moved : Gives advance (fun _ after => (room deep (d + 1) l).holds after)
      (fun e _ => e.Regular deep) { r with depth := r.depth + 1 } := by
    refine Gives.of_cases (fun u after found => holds.imp id fun has => ?_) fun e after found => ?_
    · have reached := reaches_of_advance found
      have fewer := Reader.bulk_of_advance found
      have one := r.token.bulk_pos
      have enough := has.room
      simp only [if_neg more] at fewer
      refine ⟨reached.depth.trans (congrArg (· + 1) has.depth), reached.limit.trans has.limit, ?_⟩
      change _ ≤ r.bulk at fewer
      omega
    · unfold advance at found
      split at found <;> cases found
      exact ⟨id, nofun⟩
  exact moved.bind fun _ after still => next after still

/-- Somewhere no less deep than `d` there is room. -/
def Within (deep : Prop) (d l : Nat) (r : Reader) : Prop := deep ∨ ∃ d', d ≤ d' ∧ r.Has d' l

/-- With room for what is left the reader is within the limit. -/
theorem within_of_room {r : Reader} (holds : (room deep d l).holds r) : Within deep d l r :=
  holds.imp id fun has => ⟨d, Nat.le_refl d, has⟩

/-- Coming up again leaves room. -/
theorem room_of_within {r : Reader} {depth : Nat} (h : Within deep d l r)
    (up : deep ∨ depth = d) : (room deep d l).holds { r with depth } := by
  rcases h with isDeep | ⟨d', less, has⟩
  · exact .inl isDeep
  · refine up.imp id fun up => ⟨up, has.limit, ?_⟩
    have enough := has.room
    change d + r.bulk ≤ l
    omega

/-- The depth from before is put back, after a failure too. -/
theorem safe_keepingDepth {α : Type} {reading : ReadM α}
    (h : ∀ r, (room deep d l).holds r →
      Gives reading (fun _ after => Within deep d l after) (fun e _ => e.Regular deep) r) :
    Safe (room deep d l) deep (keepingDepth reading) Anything := by
  intro r holds
  have inner := h r holds
  have back : deep ∨ r.depth = d := holds.imp id fun has => has.depth
  unfold Gives keepingDepth
  cases found : reading r with
  | ok a after => exact ⟨trivial, room_of_within (inner.ok found) back⟩
  | error e after => exact inner.error found

/-! ### Sources -/

/-- The parenthesis that was taken pays for going one level deeper. -/
theorem gives_openSubselect {opened : List Projection} {r : Reader}
    (opens : r.token.isSymbol .openParen = true)
    (holds : (room deep (d + opened.length) l).holds r) :
    Gives (openSubselect opened) (fun next after => (room deep (d + next.length) l).holds after)
      (fun e _ => e.Regular deep) r := by
  have rest : Safe (room deep (d + opened.length + 1) l) deep (do
      expectKeyword .SELECT
      let selected ← selection
      let projection ← judge selected.projection
      expectKeyword .FROM
      return projection :: opened) (fun next => next.length = opened.length + 1) := by
    refine Safe.expectKeyword.bind fun _ _ => safe_selection.bind fun selected _ => ?_
    refine (safe_projection selected).bind fun _ _ => Safe.expectKeyword.bind fun _ _ => ?_
    exact Safe.pure rfl
  refine (gives_deeper (Token.ne_endOfText_of_isSymbol opens) holds rest).mono ?_ fun _ _ => id
  rintro next after ⟨length, still⟩
  rw [length]
  exact still

/-- The depth goes back by one for each sub-select that is closed. -/
theorem gives_closeSubselects {base : Nat} (same : deep ∨ base = d) (opened : List Projection)
    (source : Source) {r : Reader} (within : Within deep (d + opened.length) l r) :
    Gives (closeSubselects base opened source) (fun _ after => Within deep d l after)
      (fun e _ => e.Regular deep) r := by
  induction opened generalizing source r with
  | nil => exact within
  | cons projection around ih =>
    have here : (room deep (d + around.length + 1) l).holds
        { r with depth := base + around.length + 1 } :=
      room_of_within within (same.imp id fun same => by rw [same])
    change Gives (slicer >>= fun slicer => expect .closeParen >>= fun _ =>
      closeSubselects base around (.subselect projection source slicer)) _ _
        { r with depth := base + around.length + 1 }
    refine (safe_slicer _ here).bind fun slicer between ⟨_, still⟩ => ?_
    refine (Safe.expect _ still).bind fun _ after ⟨_, still⟩ => ih _ ?_
    exact (within_of_room still).imp id fun ⟨d', less, has⟩ => ⟨d', by omega, has⟩

theorem safe_source : Safe (room deep d l) deep source Anything := by
  refine safe_keepingDepth fun r holds => Gives.get ?_
  have opening : Gives (whileToken (·.isSymbol .openParen) openSubselect
      (fun _ _ => Spends.openSubselect) [])
      (fun opened after => (room deep (d + opened.length) l).holds after)
      (fun e _ => e.Regular deep) r :=
    Gives.whileToken holds fun opened r opens still => gives_openSubselect opens still
  refine opening.bind fun opened between still => ?_
  refine (safe_cubeName between still).bind fun cube after ⟨_, still⟩ => ?_
  exact gives_closeSubselects (holds.imp id fun has => has.depth) opened _ (within_of_room still)

/-! ### Queries and statements -/

theorem safe_cubeQuery (definitions : List Definition) (selected : Selection) :
    Safe (room deep d l) deep (cubeQuery definitions selected) (fun query => ∃ found,
      query = .select found) := by
  refine (safe_projection selected).bind fun _ _ => safe_source.bind fun _ _ => ?_
  refine safe_slicer.bind fun _ _ => (safe_propertyList .CELL).bind fun _ _ => ?_
  exact Safe.pure ⟨_, rfl⟩

/-- A query turns out to be one of a rowset only where that is allowed. -/
theorem safe_query (rowsets : Bool) : Safe (room deep d l) deep (query rowsets)
    (fun query => rowsets = false → ∃ found, query = .select found) := by
  refine safe_withClause.bind fun definitions _ => Safe.expectKeyword.bind fun _ _ => ?_
  refine safe_selection.bind fun selected _ => Safe.expectKeyword.bind fun _ _ => ?_
  have ofCube : Safe (room deep d l) deep (cubeQuery definitions selected)
      (fun query => rowsets = false → ∃ found, query = .select found) :=
    (safe_cubeQuery definitions selected).mono fun query found _ => found
  refine Safe.ite (fun allowed => ?_) fun _ => ofCube
  have rowset : rowsets = true := (Bool.and_eq_true_iff.mp allowed).1
  have table : Safe (room deep d l) deep systemTable Anything := by
    refine Safe.get fun r => Safe.ite (fun _ => Safe.advance.bind fun _ _ => ?_) fun _ =>
      Safe.pure trivial
    exact Safe.expect.bind fun _ _ => safe_name.bind fun _ _ => Safe.pure trivial
  refine table.bind fun name _ => ?_
  cases name with
  | none => exact ofCube
  | some found =>
    refine safe_slicer.bind fun _ _ => (safe_columns selected).bind fun _ _ => Safe.pure ?_
    intro restricted
    rw [restricted] at rowset
    cases rowset

theorem safe_select : Safe (room deep d l) deep select Anything := by
  refine (safe_query false).bind fun query found => ?_
  obtain ⟨found, rfl⟩ := found rfl
  exact Safe.pure trivial

theorem safe_drillOption (found : Option Nat × Option Nat) :
    Safe (room deep d l) deep (drillOption found) Anything := by
  refine Safe.get fun r => Safe.ite (fun _ => ?_) fun _ => Safe.ite (fun _ => ?_) fun _ =>
    Safe.pure trivial
  · exact Safe.advance.bind fun _ _ => (safe_count (by nofun)).bind fun _ _ => Safe.pure trivial
  · exact Safe.advance.bind fun _ _ => (safe_count (by nofun)).bind fun _ _ => Safe.pure trivial

theorem safe_drillthrough : Safe (room deep d l) deep drillthrough Anything := by
  refine Safe.expectKeyword.bind fun _ _ => (safe_drillOption _).bind fun first _ => ?_
  refine (safe_drillOption first).bind fun _ _ => safe_select.bind fun _ _ => ?_
  have returns : Safe (room deep d l) deep returned Anything :=
    Safe.atKeyword (Safe.advance.bind fun _ _ => safe_identifiers) (Safe.pure trivial)
  exact returns.bind fun _ _ => Safe.pure trivial

theorem safe_plainStatement : Safe (room deep d l) deep plainStatement Anything := by
  refine Safe.atKeyword ?_ ?_
  · exact safe_drillthrough.bind fun _ _ => Safe.pure trivial
  · refine (safe_query true).bind fun query _ => ?_
    cases query with
    | select found => exact Safe.pure trivial
    | rowset found => exact Safe.pure trivial

/-- The words of the mark pay for going one level deeper. -/
theorem gives_explainMark {marks : Nat} {r : Reader} (explains : r.token.isKeyword .EXPLAIN = true)
    (holds : (room deep (d + marks) l).holds r) :
    Gives (explainMark marks) (fun next after => (room deep (d + next) l).holds after)
      (fun e _ => e.Regular deep) r := by
  have rest : Safe (room deep (d + marks + 1) l) deep
      (do expectKeyword .PLAN; expectKeyword .FOR; return marks + 1)
      (fun next => next = marks + 1) :=
    Safe.expectKeyword.bind fun _ _ => Safe.expectKeyword.bind fun _ _ => Safe.pure rfl
  refine (gives_deeper (Token.ne_endOfText_of_isKeyword explains) holds rest).mono ?_ fun _ _ => id
  rintro next after ⟨rfl, still⟩
  exact still

theorem safe_statement : Safe (room deep d l) deep statement Anything := by
  refine safe_keepingDepth fun r holds => ?_
  have marking : Gives (whileToken (·.isKeyword .EXPLAIN) explainMark
      (fun _ _ => Spends.explainMark) 0) (fun marks after => (room deep (d + marks) l).holds after)
      (fun e _ => e.Regular deep) r :=
    Gives.whileToken holds fun marks r explains still => gives_explainMark explains still
  refine marking.bind fun marks between still => ?_
  refine (safe_plainStatement between still).bind fun found after ⟨_, still⟩ => ?_
  exact (within_of_room still).imp id fun ⟨d', less, has⟩ => ⟨d', by omega, has⟩

/-! ### Whole texts -/

theorem safe_endStatement : Safe (room deep d l) deep endStatement Anything :=
  Safe.atSymbol (Safe.advance.bind fun _ _ => Safe.expectEnd) Safe.expectEnd

end ReadM

/-- **Whatever is asked of a reader**, it fails with regular errors only. -/
theorem Goal.safe_reading (goal : Goal) {deep : Prop} {d l : Nat} :
    Safe (room deep d l) deep goal.reading Anything := by
  cases goal with
  | expression => exact safe_wholeExpression.bind fun _ _ => Safe.pure trivial
  | select =>
    have whole : Safe (room deep d l) deep wholeSelect Anything :=
      safe_select.bind fun _ _ => safe_endStatement.bind fun _ _ => Safe.pure trivial
    exact whole.bind fun _ _ => Safe.pure trivial
  | statement =>
    have whole : Safe (room deep d l) deep wholeStatement Anything :=
      safe_statement.bind fun _ _ => safe_endStatement.bind fun _ _ => Safe.pure trivial
    exact whole.bind fun _ _ => Safe.pure trivial
  | cubeName =>
    have whole : Safe (room deep d l) deep wholeCubeName Anything :=
      safe_cubeName.bind fun _ _ => Safe.expectEnd.bind fun _ _ => Safe.pure trivial
    exact whole.bind fun _ _ => Safe.pure trivial

/-- **A limit as great as the text is long is never hit**, whatever the text is read as. -/
theorem Goal.shallow_of_length_le {goal : Goal} {text : String} {limit : Nat} {r after : Reader}
    {e : ReadError} (start : Reader.ofText text limit = .ok r) (long : text.length ≤ limit)
    (h : goal.reading r = .error e after) : ∀ l, e ≠ .tooDeep l := by
  have short := Reader.bulk_of_ofText start
  have has : r.Has 0 limit :=
    ⟨Reader.depth_of_ofText start, Reader.limit_of_ofText start, by omega⟩
  have regular := (goal.safe_reading r (.inr has : (room False 0 limit).holds r)).error h
  exact regular.2

/-- **No reader fails with an internal error**, whatever text it reads under whatever limit,
wherever in the text it stands, and whatever was asked of it before, with or without success. -/
theorem not_internal_of_attempts {r : Reader} {goals : List Goal} {e : ReadError}
    (h : .error e ∈ r.attempts goals) : ¬ e.Internal := by
  induction goals generalizing r with
  | nil => cases h
  | cons goal goals ih =>
    have regular := goal.safe_reading r (.inl trivial : (room True 0 0).holds r)
    unfold Reader.attempts Reader.attempt at h
    cases found : goal.reading r with
    | ok tree after =>
      simp only [found, List.mem_cons, reduceCtorEq, false_or] at h
      exact ih h
    | error error after =>
      simp only [found, List.mem_cons, Except.error.injEq] at h
      rcases h with rfl | later
      · exact (regular.error found).1
      · exact ih later

/-- An operand is missing; the later attempts go on from there. -/
theorem not_internal_of_attempts_again : ∃ r e,
    Reader.ofText "a + ) CASE b.&1&[2]" 3 = .ok r ∧
      .error e ∈ r.attempts [.expression, .statement, .cubeName, .expression] ∧ ¬ e.Internal := by
  have failing : (match Reader.ofText "a + ) CASE b.&1&[2]" 3 with
      | .ok r =>
        (r.attempts [.expression, .statement, .cubeName, .expression]).any fun x => !x.isOk
      | .error _ => false) = true := by
    decide +kernel
  cases start : Reader.ofText "a + ) CASE b.&1&[2]" 3 with
  | error e =>
    rw [start] at failing
    cases failing
  | ok r =>
    rw [start] at failing
    obtain ⟨result, member, failed⟩ := List.any_eq_true.mp failing
    cases result with
    | ok tree => cases failed
    | error e => exact ⟨r, e, rfl, member, not_internal_of_attempts member⟩

end MdxReader
