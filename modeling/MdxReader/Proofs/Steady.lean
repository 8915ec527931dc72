import MdxReader.Proofs.Calls
import MdxReader.Proofs.Events

/-!
# Between expressions

A reader that comes to an expression stands within its limit, and of what was noted before no level
is left open (`Reader.Stands`).  All readings of statements keep it so, down into quoted formulas
and sub-selects, and after a failure the depth is back where it was (`Steady`).

So another way to read expressions makes no difference if it does the same as `ReadM.expression`
where such a reader comes to one (`Goal.steady_reading`).  And the events of a text are well nested,
whatever the text is read as (`nested_readWithEvents`).
-/

namespace MdxReader

open ReadM

variable {α β : Type} {r after : Reader} {old : List LevelEvent} {d l n : Nat}

/-! ### Readings that agree -/

section Agrees

variable {x y : ReadM α} {good : α → Reader → Prop} {bad : Reader → Prop}

/-- Two readings do the same from `r`, and give something `good` or leave something `bad`. -/
structure Agrees (x y : ReadM α) (good : α → Reader → Prop) (bad : Reader → Prop) (r : Reader) :
    Prop where
  same : x r = y r
  gives : Gives y good (fun _ after => bad after) r

/-- A reading agrees with itself in all that is known of it. -/
theorem Agrees.of_gives (h : Gives y good (fun _ after => bad after) r) : Agrees y y good bad r :=
  ⟨rfl, h⟩

/-- Less may be said of what readings agree in. -/
theorem Agrees.mono {better : α → Reader → Prop} {worse : Reader → Prop}
    (h : Agrees x y better worse r) (ok : ∀ a after, better a after → good a after)
    (error : ∀ after, worse after → bad after) : Agrees x y good bad r :=
  ⟨h.same, h.gives.mono ok fun _ => error⟩

/-- The second readings agree wherever the first ones may leave a reader. -/
theorem Agrees.bind {x y : ReadM β} {f g : β → ReadM α} {between : β → Reader → Prop}
    (first : Agrees x y between bad r)
    (next : ∀ b after, between b after → Agrees (f b) (g b) good bad after) :
    Agrees (x >>= f) (y >>= g) good bad r where
  same := bind_congr_apply first.same fun b after found =>
    (next b after (first.gives.ok found)).same
  gives := first.gives.bind fun b after holds => (next b after holds).gives

/-- Loops agree if their rounds do. -/
theorem Agrees.whileToken {test : Token → Bool} {round round' : α → ReadM α}
    {spends : ∀ acc r, test r.token = true → Spends (round acc) r}
    {spends' : ∀ acc r, test r.token = true → Spends (round' acc) r} {acc : α}
    (start : good acc r)
    (kept : ∀ acc r, test r.token = true → good acc r →
      Agrees (round acc) (round' acc) good bad r) :
    Agrees (ReadM.whileToken test round spends acc) (ReadM.whileToken test round' spends' acc)
      good bad r := by
  refine ⟨?_, Gives.whileToken start fun acc r passes holds => (kept acc r passes holds).gives⟩
  -- The induction is on the tokens that remain.
  induction left : r.remaining using Nat.strongRecOn generalizing r acc with
  | _ n ih =>
    rw [whileToken_apply, whileToken_apply]
    by_cases passes : test r.token = true
    · rw [if_pos passes, if_pos passes]
      have once := kept acc r passes start
      refine bind_congr_apply once.same fun next after found => ?_
      exact ih _ (left ▸ spends' acc r passes next after found) (once.gives.ok found) rfl
    · rw [if_neg passes, if_neg passes]

end Agrees

/-! ### Steady readings -/

/-- **Two readings agree from every reader that stands `d` levels deep**, and it stands there again
afterwards.  Where they fail, levels of the last expression may be left open. -/
def Steady (old : List LevelEvent) (l d : Nat) (x y : ReadM α) : Prop :=
  ∀ r, r.Stands old d l 0 →
    Agrees x y (fun _ after => after.Stands old d l 0) (fun after => ∃ n, after.Stands old d l n) r

namespace Steady

/-- What reads no expression is the same in both ways and leaves the reader standing. -/
theorem quiet {x : ReadM α} (h : Quiet x) : Steady old l d x x := fun r stands =>
  .of_gives ((h r).mono (fun _ _ => stands.same) fun _ _ same => ⟨0, stands.same same⟩)

theorem pure (a : α) : Steady old l d (Pure.pure a) (Pure.pure a) := .quiet (.pure a)

theorem bind {x y : ReadM β} {f g : β → ReadM α} (first : Steady old l d x y)
    (next : ∀ b, Steady old l d (f b) (g b)) : Steady old l d (x >>= f) (y >>= g) :=
  fun r stands => (first r stands).bind fun b => next b

/-- Both ways look at the same reader. -/
theorem get {f g : Reader → ReadM α} (h : ∀ r, Steady old l d (f r) (g r)) :
    Steady old l d (MonadState.get >>= f) (MonadState.get >>= g) := fun r stands =>
  ⟨(h r r stands).same, (h r r stands).gives⟩

theorem ite {c : Prop} [Decidable c] {x x' y y' : ReadM α} (yes : Steady old l d x x')
    (no : Steady old l d y y') :
    Steady old l d (if c then x else y) (if c then x' else y') := by
  split
  · exact yes
  · exact no

theorem atSymbol {s : Symbol} {x x' y y' : ReadM α} (there : Steady old l d x x')
    (absent : Steady old l d y y') :
    Steady old l d (do if ← ReadM.atSymbol s then x else y)
      (do if ← ReadM.atSymbol s then x' else y') := .get fun _ => .ite there absent

theorem atKeyword {k : Keyword} {x x' y y' : ReadM α} (there : Steady old l d x x')
    (absent : Steady old l d y y') :
    Steady old l d (do if ← ReadM.atKeyword k then x else y)
      (do if ← ReadM.atKeyword k then x' else y') := .get fun _ => .ite there absent

/-- The loops do the same rounds, as each leaves the same reader. -/
theorem whileToken {test : Token → Bool} {round round' : α → ReadM α}
    {spends : ∀ acc r, test r.token = true → Spends (round acc) r}
    {spends' : ∀ acc r, test r.token = true → Spends (round' acc) r}
    (rounds : ∀ acc, Steady old l d (round acc) (round' acc)) (acc : α) :
    Steady old l d (ReadM.whileToken test round spends acc)
      (ReadM.whileToken test round' spends' acc) := fun _ stands =>
  Agrees.whileToken stands fun acc r _ => rounds acc r

theorem itemsAfter {item item' : ReadM α} (each : Steady old l d item item')
    (keeps : Keeps item) (keeps' : Keeps item') (items : List α) :
    Steady old l d (ReadM.itemsAfter item keeps items) (ReadM.itemsAfter item' keeps' items) :=
  .bind (.whileToken (fun _ => .bind (.quiet .advance) fun _ => .bind each fun _ => .pure _) _)
    fun _ => .pure _

theorem separated {item item' : ReadM α} (each : Steady old l d item item')
    (keeps : Keeps item) (keeps' : Keeps item') :
    Steady old l d (ReadM.separated item keeps) (ReadM.separated item' keeps') :=
  .bind each fun _ => .itemsAfter each keeps keeps' _

/-- The depth from before is put back, wherever the reading has gone. -/
theorem keepingDepth {x y : ReadM α}
    (h : ∀ r, r.Stands old d l 0 → Agrees x y (fun _ after => ∃ d', after.Stands old d' l 0)
      (fun after => ∃ d' n, after.Stands old d' l n) r) :
    Steady old l d (ReadM.keepingDepth x) (ReadM.keepingDepth y) := by
  intro r stands
  obtain ⟨same, gives⟩ := h r stands
  have back {after : Reader} {d' n : Nat} (there : after.Stands old d' l n) :
      { after with depth := r.depth }.Stands old d l n :=
    ⟨stands.depth, there.limit, stands.within, there.noted⟩
  refine ⟨?_, ?_⟩
  · unfold ReadM.keepingDepth
    rw [same]
  · unfold Gives ReadM.keepingDepth
    cases found : y r with
    | ok a after =>
      obtain ⟨d', there⟩ := gives.ok found
      exact back there
    | error e after =>
      obtain ⟨d', n, there⟩ := gives.error found
      exact ⟨n, back there⟩

/-- A text inside a text is read one level deeper, where there is room for that. -/
theorem inside {x y : ReadM α} (text : String) (h : Steady old l (d + 1) x y) :
    Steady old l d (ReadM.inside text x) (ReadM.inside text y) := by
  intro r stands
  have back {after : Reader} {n : Nat} (there : after.Stands old (d + 1) l n) :
      { r with events := after.events }.Stands old d l n :=
    ⟨stands.depth, stands.limit, stands.within, there.noted⟩
  unfold ReadM.inside
  cases start : Reader.ofText text r.limit with
  | error e =>
    refine ⟨by simp only [start], ?_⟩
    unfold Gives
    simp only [start]
    exact ⟨0, stands⟩
  | ok inner =>
    by_cases reached : r.limit < r.depth + 1
    · refine ⟨by simp only [start, if_pos reached], ?_⟩
      unfold Gives
      simp only [start, if_pos reached]
      exact ⟨0, stands⟩
    · have below : { inner with depth := r.depth + 1, events := r.events }.Stands old (d + 1) l 0 :=
        have depth := stands.depth
        have limit := stands.limit
        ⟨congrArg (· + 1) depth, (Reader.limit_of_ofText start).trans limit, by omega,
          stands.noted⟩
      obtain ⟨same, gives⟩ := h _ below
      refine ⟨by simp only [start, if_neg reached, same], ?_⟩
      unfold Gives
      simp only [start, if_neg reached]
      split
      · rename_i found
        split at found
        · rename_i read
          cases found
          exact back (gives.ok read)
        · cases found
      · rename_i found
        split at found
        · cases found
        · rename_i failed
          cases found
          obtain ⟨n, there⟩ := gives.error failed
          exact ⟨n, back there⟩

end Steady

/-! ### Statements -/

namespace ExprReading

/-- The way does the same as `ReadM.expression` wherever a reader comes to an expression. -/
def Faithful (way : ExprReading) (old : List LevelEvent) (l : Nat) : Prop :=
  ∀ r d, r.Stands old d l 0 → way.reading r = expression r

variable {way : ExprReading} (faithful : way.Faithful old l)

include faithful

/-- Here the two ways differ: one is taken as it is given, and is faithful where the reader stands.
-/
theorem steady_reading : Steady old l d way.reading expression := fun r stands =>
  ⟨faithful r d stands, stands_expression stands⟩

theorem steady_wholeExpression : Steady old l d (@wholeExpression way) (@wholeExpression .plain) :=
  .bind (steady_reading faithful) fun _ => .bind (.quiet .expectEnd) fun _ => .pure _

/-- A formula in quotes is read one level deeper, from where the reader stands. -/
theorem steady_formula : Steady old l d (@formula way) (@formula .plain) := by
  refine .get fun r => ?_
  split
  · exact .bind (.inside _ (steady_wholeExpression faithful)) fun _ =>
      .bind (.quiet .advance) fun _ => .pure _
  · exact steady_reading faithful

theorem steady_memberProperty : Steady old l d (@memberProperty way) (@memberProperty .plain) :=
  .bind (.quiet quiet_name) fun _ => .bind (.quiet (.expect _)) fun _ =>
    .bind (steady_reading faithful) fun _ => .pure _

theorem steady_moreDefinitions (definitions : List Definition) :
    Steady old l d (@moreDefinitions way definitions) (@moreDefinitions .plain definitions) := by
  refine .get fun r => .bind (.quiet .advance) fun _ => .bind (.quiet quiet_identifier) fun _ => ?_
  refine .bind (.quiet (.expectKeyword _)) fun _ => .bind (steady_formula faithful) fun _ => ?_
  refine .ite (.bind ?_ fun _ => .pure _) (.pure _)
  exact .itemsAfter (steady_memberProperty faithful) _ _ []

theorem steady_withClause : Steady old l d (@withClause way) (@withClause .plain) := by
  refine .atKeyword (.bind (.quiet .advance) fun _ => .get fun r => .ite ?_ ?_) (.pure _)
  · exact .bind (.whileToken (steady_moreDefinitions faithful) []) fun _ => .pure _
  · exact .quiet (.failExpecting _)

theorem steady_item : Steady old l d (@item way) (@item .plain) := by
  refine .bind (.quiet quiet_nonEmpty) fun _ => .bind (steady_reading faithful) fun _ => ?_
  refine .bind (.quiet (quiet_propertyList _)) fun _ => .get fun r => .ite ?_ (.pure _)
  exact .bind (.quiet .advance) fun _ => .bind (.quiet quiet_axis) fun _ => .pure _

theorem steady_selection : Steady old l d (@selection way) (@selection .plain) := by
  refine .atKeyword (.pure _) (.atSymbol (.bind (.quiet .advance) fun _ => .pure _) ?_)
  exact .bind (.separated (steady_item faithful) _ _) fun _ => .pure _

theorem steady_slicer : Steady old l d (@slicer way) (@slicer .plain) :=
  .atKeyword (.bind (.quiet .advance) fun _ => .bind (steady_reading faithful) fun _ => .pure _)
    (.pure _)

end ExprReading

/-! ### Going deeper -/

/-- A reading that is steady at its own depth, as part of one that goes deeper. -/
theorem Steady.deeper {x y : ReadM α} (h : Steady old l d x y) (stands : r.Stands old d l 0) :
    Agrees x y (fun _ after => after.Stands old d l 0)
      (fun after => ∃ d' n, after.Stands old d' l n) r :=
  (h r stands).mono (fun _ _ => id) fun _ failed => ⟨d, failed⟩

/-- Going one statement deeper needs room for it. -/
theorem agrees_descend (stands : r.Stands old d l 0) :
    Agrees descend descend (fun _ after => after.Stands old (d + 1) l 0)
      (fun after => ∃ d' n, after.Stands old d' l n) r := by
  refine ⟨rfl, ?_⟩
  unfold Gives
  rw [descend_apply]
  by_cases reached : r.limit < r.depth + 1
  · rw [if_pos reached]
    exact ⟨d, 0, stands⟩
  · have depth := stands.depth
    have limit := stands.limit
    rw [if_neg reached]
    exact ⟨congrArg (· + 1) depth, limit, by omega, stands.noted⟩

namespace ExprReading

variable {way : ExprReading} (faithful : way.Faithful old l)

include faithful

/-! ### Sources -/

/-- Each sub-select that is open is one level of depth. -/
theorem agrees_openSubselect (opened : List Projection)
    (stands : r.Stands old (d + opened.length) l 0) :
    Agrees (@openSubselect way opened) (@openSubselect .plain opened)
      (fun next after => after.Stands old (d + next.length) l 0)
      (fun after => ∃ d' n, after.Stands old d' l n) r := by
  refine (agrees_descend stands).bind fun _ _ below => ?_
  refine ((Steady.quiet .advance).deeper below).bind fun _ _ below => ?_
  refine ((Steady.quiet (.expectKeyword _)).deeper below).bind fun _ _ below => ?_
  refine ((steady_selection faithful).deeper below).bind fun selected _ below => ?_
  refine ((Steady.quiet (.judge _)).deeper below).bind fun projection _ below => ?_
  refine ((Steady.quiet (.expectKeyword _)).deeper below).bind fun _ _ below => ?_
  exact ⟨rfl, below⟩

/-- The depth is set anew for each sub-select that is closed, so where the reader stands before does
not matter. -/
theorem agrees_closeSubselects (opened : List Projection) (source : Source) {deep : Nat}
    (stands : r.Stands old deep l 0) (within : d + opened.length ≤ l) :
    Agrees (@closeSubselects way d opened source) (@closeSubselects .plain d opened source)
      (fun _ after => ∃ d', after.Stands old d' l 0)
      (fun after => ∃ d' n, after.Stands old d' l n) r := by
  induction opened generalizing source r deep with
  | nil => exact ⟨rfl, deep, stands⟩
  | cons projection around ih =>
    rw [List.length_cons] at within
    have here : { r with depth := d + around.length + 1 }.Stands old (d + around.length + 1) l 0 :=
      ⟨rfl, stands.limit, within, stands.noted⟩
    have rest : Agrees
        (@slicer way >>= fun slicer => expect .closeParen >>= fun _ =>
          @closeSubselects way d around (.subselect projection source slicer))
        (@slicer .plain >>= fun slicer => expect .closeParen >>= fun _ =>
          @closeSubselects .plain d around (.subselect projection source slicer))
        (fun _ after => ∃ d', after.Stands old d' l 0)
        (fun after => ∃ d' n, after.Stands old d' l n)
        { r with depth := d + around.length + 1 } := by
      refine ((steady_slicer faithful).deeper here).bind fun slicer _ here => ?_
      refine ((Steady.quiet (.expect _)).deeper here).bind fun _ after here => ?_
      exact ih _ here (by omega)
    exact ⟨rest.same, rest.gives⟩

/-- The sub-selects go one level deeper each, and come back. -/
theorem steady_source : Steady old l d (@source way) (@source .plain) := by
  refine .keepingDepth fun r stands => ?_
  obtain rfl := stands.depth
  have opening : Agrees
      (whileToken (·.isSymbol .openParen) (@openSubselect way)
        (fun _ _ => Spends.openSubselect) [])
      (whileToken (·.isSymbol .openParen) (@openSubselect .plain)
        (fun _ _ => @Spends.openSubselect .plain _ _) [])
      (fun opened after => after.Stands old (r.depth + opened.length) l 0)
      (fun after => ∃ d' n, after.Stands old d' l n) r :=
    Agrees.whileToken stands fun opened _ _ => agrees_openSubselect faithful opened
  have rest := opening.bind fun opened between below =>
    ((Steady.quiet quiet_cubeName).deeper below).bind fun cube after below =>
      agrees_closeSubselects faithful opened (.cube cube) below below.within
  exact ⟨rest.same, rest.gives⟩

/-! ### Queries and statements -/

theorem steady_cubeQuery (definitions : List Definition) (selected : Selection) :
    Steady old l d (@cubeQuery way definitions selected) (@cubeQuery .plain definitions selected) := by
  refine .bind (.quiet (.judge _)) fun _ => .bind (steady_source faithful) fun _ => ?_
  refine .bind (steady_slicer faithful) fun _ => .bind (.quiet (quiet_propertyList _)) fun _ => ?_
  exact .pure _

theorem steady_rowsetQuery (selected : Selection) (table : Name) :
    Steady old l d (@rowsetQuery way selected table) (@rowsetQuery .plain selected table) :=
  .bind (steady_slicer faithful) fun _ => .bind (.quiet (.judge _)) fun _ => .pure _

theorem steady_query (rowsets : Bool) :
    Steady old l d (@query way rowsets) (@query .plain rowsets) := by
  refine .bind (steady_withClause faithful) fun definitions => ?_
  refine .bind (.quiet (.expectKeyword _)) fun _ => ?_
  refine .bind (steady_selection faithful) fun selected => ?_
  refine .bind (.quiet (.expectKeyword _)) fun _ => .ite ?_ (steady_cubeQuery faithful _ _)
  refine .bind (.quiet quiet_systemTable) fun table => ?_
  cases table with
  | some table => exact steady_rowsetQuery faithful _ _
  | none => exact steady_cubeQuery faithful _ _

theorem steady_select : Steady old l d (@select way) (@select .plain) := by
  refine .bind (steady_query faithful false) fun query => ?_
  cases query with
  | select found => exact .pure _
  | rowset found => exact .quiet (.failBreaking _)

theorem steady_drillthrough : Steady old l d (@drillthrough way) (@drillthrough .plain) := by
  refine .bind (.quiet (.expectKeyword _)) fun _ => .bind (.quiet (quiet_drillOption _)) fun _ => ?_
  refine .bind (.quiet (quiet_drillOption _)) fun _ => .bind (steady_select faithful) fun _ => ?_
  exact .bind (.quiet quiet_returned) fun _ => .pure _

theorem steady_plainStatement : Steady old l d (@plainStatement way) (@plainStatement .plain) := by
  refine .atKeyword (.bind (steady_drillthrough faithful) fun _ => .pure _) ?_
  refine .bind (steady_query faithful true) fun query => ?_
  cases query with
  | select found => exact .pure _
  | rowset found => exact .pure _

omit faithful in
/-- Each mark goes one level deeper. -/
theorem agrees_explainMark (marks : Nat) (stands : r.Stands old (d + marks) l 0) :
    Agrees (explainMark marks) (explainMark marks)
      (fun next after => after.Stands old (d + next) l 0)
      (fun after => ∃ d' n, after.Stands old d' l n) r := by
  refine (agrees_descend stands).bind fun _ _ below => ?_
  refine ((Steady.quiet .advance).deeper below).bind fun _ _ below => ?_
  refine ((Steady.quiet (.expectKeyword _)).deeper below).bind fun _ _ below => ?_
  refine ((Steady.quiet (.expectKeyword _)).deeper below).bind fun _ _ below => ?_
  exact ⟨rfl, below⟩

/-- The marks are undone when the statement is complete. -/
theorem steady_statement : Steady old l d (@statement way) (@statement .plain) := by
  refine .keepingDepth fun r stands => ?_
  have marking : Agrees
      (whileToken (·.isKeyword .EXPLAIN) explainMark (fun _ _ => Spends.explainMark) 0)
      (whileToken (·.isKeyword .EXPLAIN) explainMark (fun _ _ => Spends.explainMark) 0)
      (fun marks after => after.Stands old (d + marks) l 0)
      (fun after => ∃ d' n, after.Stands old d' l n) r :=
    Agrees.whileToken stands fun marks _ _ => agrees_explainMark marks
  refine marking.bind fun marks between below => ?_
  refine ((steady_plainStatement faithful).deeper below).bind fun found after below => ?_
  exact ⟨rfl, _, below⟩

end ExprReading

/-- **A way that is faithful makes no difference**, whatever is asked of a reader, and the reader
stands as deep as before afterwards, also after a failure. -/
theorem Goal.steady_reading {way : ExprReading} (faithful : way.Faithful old l) (goal : Goal) :
    Steady old l d (goal.readingWith way) (@Goal.reading .plain goal) := by
  cases goal with
  | expression => exact .bind (ExprReading.steady_wholeExpression faithful) fun _ => .pure _
  | select =>
    refine .bind (.bind (ExprReading.steady_select faithful) fun _ => ?_) fun _ => .pure _
    exact .bind (.quiet quiet_endStatement) fun _ => .pure _
  | statement =>
    refine .bind (.bind (ExprReading.steady_statement faithful) fun _ => ?_) fun _ => .pure _
    exact .bind (.quiet quiet_endStatement) fun _ => .pure _
  | cubeName =>
    refine .bind (.bind (.quiet quiet_cubeName) fun _ => ?_) fun _ => .pure _
    exact .bind (.quiet .expectEnd) fun _ => .pure _

/-- Whatever is asked of a reader that is in no statement, it is in none afterwards. -/
theorem Goal.gives_reading (goal : Goal) (depth : r.depth = 0) (limit : r.limit = l) :
    Gives goal.reading (fun _ after => after.Stands r.events 0 l 0)
      (fun _ after => ∃ n, after.Stands r.events 0 l n) r := by
  have same : ExprReading.plain.Faithful r.events l := fun _ _ _ => rfl
  exact (goal.steady_reading same r ⟨depth, limit, Nat.zero_le l, [], rfl, .nil⟩).gives

/-! ### Whole texts -/

/-- What is noted of a text, newest first, leaves some levels open, and none after a success. -/
theorem exists_leaves (goal : Goal) (text : String) (limit : Nat) :
    ∃ n, LevelEvent.Leaves n (readWithEvents goal text limit).2.reverse ∧
      ((readWithEvents goal text limit).1.isOk = true → n = 0) := by
  unfold readWithEvents
  cases start : Reader.ofText text limit with
  | error e => exact ⟨0, .nil, fun ok => Bool.noConfusion ok⟩
  | ok r =>
    have none : r.events = [] := Reader.events_of_ofText start
    have given := goal.gives_reading (Reader.depth_of_ofText start) (Reader.limit_of_ofText start)
    rw [none] at given
    simp only [Reader.attempt]
    cases found : goal.reading r with
    | ok tree after =>
      obtain ⟨events, noted, leaves⟩ := (given.ok found).noted
      rw [List.append_nil] at noted
      exact ⟨0, by simpa [noted] using leaves, fun _ => rfl⟩
    | error e after =>
      obtain ⟨n, _, _, _, events, noted, leaves⟩ := given.error found
      rw [List.append_nil] at noted
      exact ⟨n, by simpa [noted] using leaves, fun ok => Bool.noConfusion ok⟩

/-- A watch that has nothing to say where the events tell which levels are open. -/
theorem ExprReading.faithful_of_leaves {watch : Engine → Reader → Option ReadError}
    (silent : ∀ e s, LevelEvent.Leaves e.below.length s.events → watch e s = none) (limit : Nat) :
    (ExprReading.watched watch).Faithful [] limit := by
  intro r depth stands
  refine reading_watched (fun _ _ _ _ tracked found => (Engine.tracked_step tracked).ok found)
    (fun e s tracked => ?_) (Engine.tracked_start stands)
  obtain ⟨events, noted, leaves⟩ := tracked.2.noted
  rw [List.append_nil] at noted
  exact silent e s (noted ▸ leaves)

/-- **The events of a text are well nested**, whatever the text is read as and under whatever limit.
Nothing is missing behind them but what closes the levels in which the text failed, and nothing at
all is missing if there is a tree.  All the while they tell which levels are open: a watch over the
state of each expression is never heard, if it says nothing where as many levels were opened and not
closed as there are around the innermost one. -/
theorem nested_readWithEvents (goal : Goal) (text : String) (limit : Nat) :
    (∃ rest, LevelEvent.Nested 0 ((readWithEvents goal text limit).2 ++ rest)) ∧
      ((readWithEvents goal text limit).1.isOk = true →
        LevelEvent.Nested 0 (readWithEvents goal text limit).2) ∧
      ∀ (r : Reader) (watch : Engine → Reader → Option ReadError),
        Reader.ofText text limit = .ok r →
        (∀ e s, LevelEvent.Leaves e.below.length s.events → watch e s = none) →
          goal.readingWith (.watched watch) r = goal.reading r := by
  obtain ⟨n, leaves, success⟩ := exists_leaves goal text limit
  refine ⟨?_, ?_, ?_⟩
  · obtain ⟨rest, closes⟩ := LevelEvent.exists_closes n
    exact ⟨rest, by simpa using leaves.nested closes⟩
  · intro ok
    obtain rfl := success ok
    simpa using leaves.nested (.nested .nil)
  · intro r watch start silent
    have stands : r.Stands [] 0 limit 0 :=
      ⟨Reader.depth_of_ofText start, Reader.limit_of_ofText start, Nat.zero_le _, [],
        Reader.events_of_ofText start, .nil⟩
    exact (goal.steady_reading (ExprReading.faithful_of_leaves silent limit) r stands).same

/-- A formula in quotes comes first; of the two levels in the axis one is inside the other. -/
theorem nested_readWithEvents_quoted : ∃ r,
    Reader.ofText "WITH SET s AS '(a)' SELECT f(b, {c}) ON 0 FROM d" 3 = .ok r ∧
      (readWithEvents .statement
        "WITH SET s AS '(a)' SELECT f(b, {c}) ON 0 FROM d" 3).1.isOk = true ∧
      LevelEvent.Nested 0
        [.opened .parens 1, .closed 1, .opened .function 1, .opened .braces 2, .closed 2,
          .closed 1] ∧
      Goal.statement.readingWith (.watched fun e s =>
          if e.below.length = 0 ∨ s.events ≠ [] then none else some (.tooDeep 0)) r =
        Goal.statement.reading r := by
  have ok : (readWithEvents .statement
      "WITH SET s AS '(a)' SELECT f(b, {c}) ON 0 FROM d" 3).1.isOk = true := by
    decide +kernel
  have events : (readWithEvents .statement
      "WITH SET s AS '(a)' SELECT f(b, {c}) ON 0 FROM d" 3).2 =
        [.opened .parens 1, .closed 1, .opened .function 1, .opened .braces 2, .closed 2,
          .closed 1] := by
    decide +kernel
  obtain ⟨-, nested, unalarmed⟩ := nested_readWithEvents .statement
    "WITH SET s AS '(a)' SELECT f(b, {c}) ON 0 FROM d" 3
  cases start : Reader.ofText "WITH SET s AS '(a)' SELECT f(b, {c}) ON 0 FROM d" 3 with
  | error e =>
    unfold readWithEvents at ok
    rw [start] at ok
    cases ok
  | ok r =>
    refine ⟨r, rfl, ok, events ▸ nested ok, unalarmed r _ start fun e s leaves => if_pos ?_⟩
    -- Events that leave a level open are not none.
    generalize e.below.length = n, s.events = events at leaves ⊢
    cases leaves with
    | nil => exact .inl rfl
    | opened _ _ => exact .inr nofun
    | closed _ => exact .inr nofun

end MdxReader
