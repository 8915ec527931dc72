import MdxReader.Proofs.Exactness
import MdxReader.Proofs.Quiet

/-!
# Levels are opened and closed in turn

The events of a text are well nested (`LevelEvent.Nested`): a level that is opened tells how many
levels are open then, and one that is closed tells the same number as it did when it was opened.

`Engine.Tells` is what one step does to the levels and what it notes of that.  A step that goes on
with the next item of a level notes nothing, and one that fails has noted nothing either
(`Engine.tells_step`).  Over a run the events noted so far leave as many levels open as the engine
has around its innermost one (`LevelEvent.Leaves`), so none is left open where an expression ends
(`ReadM.stands_expression`).
-/

namespace MdxReader

open ReadM

/-! ### Nested events -/

namespace LevelEvent

/-- **Well nested events**, with `depth` levels open around them.  A level that is opened counts
itself among the open ones, and it tells the same depth when it is closed; what is nested in it
stands in between. -/
inductive Nested : Nat → List LevelEvent → Prop
  | nil {depth : Nat} : Nested depth []
  | level {depth : Nat} {inside later : List LevelEvent} (kind : LevelKind) :
    Nested (depth + 1) inside → Nested depth later →
      Nested depth (.opened kind (depth + 1) :: (inside ++ .closed (depth + 1) :: later))

/-- Events, newest first, that leave `n` levels open. -/
inductive Leaves : Nat → List LevelEvent → Prop
  | nil : Leaves 0 []
  | opened {n : Nat} {events : List LevelEvent} (kind : LevelKind) :
    Leaves n events → Leaves (n + 1) (.opened kind (n + 1) :: events)
  | closed {n : Nat} {events : List LevelEvent} :
    Leaves (n + 1) events → Leaves n (.closed (n + 1) :: events)

/-- Events that close `n` levels, each behind whatever is still nested in it. -/
inductive Closes : Nat → List LevelEvent → Prop
  | nested {events : List LevelEvent} : Nested 0 events → Closes 0 events
  | closed {n : Nat} {inside later : List LevelEvent} : Nested (n + 1) inside → Closes n later →
    Closes (n + 1) (inside ++ .closed (n + 1) :: later)

/-- A level that is opened and closed again is nested in those around it. -/
theorem Closes.opened {n : Nat} {rest : List LevelEvent} (kind : LevelKind)
    (h : Closes (n + 1) rest) : Closes n (.opened kind (n + 1) :: rest) := by
  cases h with
  | closed inside later =>
    cases later with
    | nested later => exact .nested (.level kind inside later)
    | @closed m between further nested later =>
      have whole := Closes.closed (Nested.level kind inside nested) later
      simpa using whole

/-- Whatever is open can be closed. -/
theorem exists_closes (n : Nat) : ∃ rest, Closes n rest := by
  induction n with
  | zero => exact ⟨[], .nested .nil⟩
  | succ n ih =>
    obtain ⟨rest, closes⟩ := ih
    exact ⟨_, .closed .nil closes⟩

/-- What closes the levels that are left open makes all of the events well nested. -/
theorem Leaves.nested {n : Nat} {events rest : List LevelEvent} (h : Leaves n events)
    (closes : Closes n rest) : Nested 0 (events.reverse ++ rest) := by
  induction h generalizing rest with
  | nil =>
    cases closes with
    | nested whole => exact whole
  | opened kind _ ih =>
    rw [List.reverse_cons, List.append_assoc, List.singleton_append]
    exact ih (closes.opened kind)
  | closed _ ih =>
    rw [List.reverse_cons, List.append_assoc, List.singleton_append]
    exact ih (.closed .nil closes)

end LevelEvent

/-! ### What a step tells -/

namespace Engine

/-- **What a step does to the levels, and what it notes of it.** -/
inductive Tells (e : Engine) (r : Reader) : Outcome → Reader → Prop
  /-- The levels around the innermost one stay. -/
  | stays {next : Engine} {after : Reader} : next.below = e.below → r.Same after →
    Tells e r (.more next) after
  /-- A level is opened inside the innermost one. -/
  | opens {next : Engine} {after : Reader} (kind : LevelKind) : next.below = e.top :: e.below →
    { r with events := .opened kind e.levels :: r.events }.Same after →
    Tells e r (.more next) after
  /-- The innermost level is closed for good. -/
  | closes {next : Engine} {after : Reader} : e.below = next.top :: next.below →
    { r with events := .closed (e.levels - 1) :: r.events }.Same after →
    Tells e r (.more next) after
  /-- The expression ends with its outermost level. -/
  | ends {node : Node} {after : Reader} : e.top.frame = .whole → r.Same after →
    Tells e r (.done node) after

/-- What happens before the levels change makes no difference. -/
theorem Tells.behind {e : Engine} {r between after : Reader} {outcome : Outcome}
    (h : e.Tells between outcome after) (same : r.Same between) : e.Tells r outcome after := by
  cases h with
  | stays levels moved => exact .stays levels (same.trans moved)
  | opens kind levels moved =>
    refine .opens kind levels ⟨moved.depth.trans same.depth, moved.limit.trans same.limit, ?_⟩
    rw [moved.events, ← same.events]
  | closes levels moved =>
    refine .closes levels ⟨moved.depth.trans same.depth, moved.limit.trans same.limit, ?_⟩
    rw [moved.events, ← same.events]
  | ends whole moved => exact .ends whole (same.trans moved)

section Rules

variable {α β : Type} {e : Engine} {out : α → Outcome}

/-- A part of a step that tells what it does, and notes nothing if it fails. -/
def Telling (e : Engine) (out : α → Outcome) (reading : ReadM α) : Prop :=
  ∀ r, Gives reading (fun a after => e.Tells r (out a) after) (fun _ after => r.Same after) r

/-- What is quiet in front does not change what is told. -/
theorem Telling.bind {x : ReadM β} {f : β → ReadM α} (first : Quiet x)
    (next : ∀ b, e.Telling out (f b)) : e.Telling out (x >>= f) := by
  intro r
  refine (first r).bind fun b between same => ?_
  exact (next b between).mono (fun _ _ tells => tells.behind same) fun _ _ => same.trans

theorem Telling.get {f : Reader → ReadM α} (h : ∀ r, e.Telling out (f r)) :
    e.Telling out (MonadState.get >>= f) := fun r => h r r

theorem Telling.ite {c : Prop} [Decidable c] {x y : ReadM α} (yes : e.Telling out x)
    (no : e.Telling out y) : e.Telling out (if c then x else y) := by
  split
  · exact yes
  · exact no

theorem Telling.atSymbol {s : Symbol} {x y : ReadM α} (there : e.Telling out x)
    (absent : e.Telling out y) : e.Telling out (do if ← ReadM.atSymbol s then x else y) :=
  .get fun _ => .ite there absent

theorem Telling.atKeyword {k : Keyword} {x y : ReadM α} (there : e.Telling out x)
    (absent : e.Telling out y) : e.Telling out (do if ← ReadM.atKeyword k then x else y) :=
  .get fun _ => .ite there absent

/-- The levels around the innermost one stay. -/
theorem Telling.stays {a : α} {next : Engine} (same : out a = .more next)
    (levels : next.below = e.below) : e.Telling out (Pure.pure a) := by
  intro r
  change e.Tells r (out a) r
  rw [same]
  exact .stays levels (.refl r)

/-- A failure has noted nothing. -/
theorem Telling.throw (error : ReadError) : e.Telling out (MonadExcept.throw error) :=
  fun r => .refl r

theorem Telling.failExpecting (expected : Expected) :
    e.Telling out (ReadM.failExpecting expected) := .get fun _ => .throw _

theorem Telling.failBreaking (rule : Rule) : e.Telling out (ReadM.failBreaking rule) :=
  .get fun _ => .throw _

end Rules

variable (e : Engine)

/-! ### Operands -/

/-- A level that is entered is noted with the depth it is at. -/
theorem telling_enter (frame : Frame) (height : Nat) :
    e.Telling Outcome.more (e.enter frame height) :=
  .bind (.checkHeight _) fun _ _ => .opens frame.kind rfl (.refl _)

theorem telling_nameOrFunction (name : String) :
    e.Telling Outcome.more (e.nameOrFunction name) := by
  refine .atSymbol (.bind .advance fun _ => .atSymbol ?_ (e.telling_enter _ _)) (.stays rfl rfl)
  exact .bind .advance fun _ => .stays rfl rfl

theorem telling_atom : e.Telling Outcome.more e.atom := by
  refine .get fun r => .bind .advance fun _ => ?_
  split
  · exact .stays rfl rfl
  · exact .stays rfl rfl
  · exact e.telling_nameOrFunction _
  · exact .ite (.stays rfl rfl) (.ite (.throw _) (e.telling_nameOrFunction _))
  · exact .ite (.throw _) (.stays rfl rfl)
  · exact .bind (quiet_keyFrom _ _) fun _ => .stays rfl rfl
  · exact .bind (quiet_keyFrom _ _) fun _ => .stays rfl rfl
  all_goals exact .throw _

/-- An operand opens one level or none. -/
theorem telling_operandStep : e.Telling Outcome.more e.operandStep := by
  refine .get fun r => ?_
  split
  · exact .bind (.checkHeight _) fun _ => .bind .advance fun _ => .stays rfl rfl
  refine .ite (.bind .advance fun _ => e.telling_enter _ _) (.ite ?_ (.ite ?_ (.ite ?_ ?_)))
  · refine .bind .advance fun _ => .atSymbol ?_ (e.telling_enter _ _)
    exact .bind .advance fun _ => .stays rfl rfl
  · refine .bind .advance fun _ => .atKeyword ?_ (e.telling_enter _ _)
    exact .bind .advance fun _ => e.telling_enter _ _
  · exact .bind .advance fun _ => .bind (.expect _) fun _ => e.telling_enter _ _
  · exact .ite (.stays rfl rfl) e.telling_atom

/-! ### Accesses -/

theorem telling_accessStep (node : Node) : e.Telling Outcome.more (e.accessStep node) := by
  refine .atSymbol (.bind .advance fun _ => .bind (quiet_memberAccess _) fun access => ?_) ?_
  · cases access with
    | reached next => exact .bind (.checkHeight _) fun _ => .stays rfl rfl
    | method name => exact e.telling_enter _ _
  · exact .bind (.checkHeight _) fun _ => .stays rfl rfl

/-! ### Operators -/

/-- An operator opens no level and closes none. -/
theorem telling_pushBinary (operator : Operator) : e.Telling id (e.pushBinary operator) := by
  unfold pushBinary
  split
  · exact .bind (.checkHeight _) fun _ => .bind (.checkHeight _) fun _ => .stays rfl rfl
  · exact .failBreaking _

theorem telling_pushTrailing (operator : Operator) : e.Telling id (e.pushTrailing operator) := by
  unfold pushTrailing
  split
  · split
    · exact .bind (.checkHeight _) fun _ => .stays rfl rfl
    · exact .failBreaking _
  · exact .failBreaking _

theorem telling_pushName : e.Telling id e.pushName := by
  refine .bind quiet_identifier fun name => ?_
  split
  · exact .bind (.checkHeight _) fun _ => .stays rfl rfl
  · exact .failBreaking _

theorem telling_identityStep : e.Telling id e.identityStep := by
  refine .bind quiet_nullTest fun test => ?_
  cases test with
  | some operator => exact .bind .advance fun _ => e.telling_pushTrailing _
  | none => exact e.telling_pushBinary _

theorem telling_negationStep : e.Telling id e.negationStep :=
  .atKeyword (.bind .advance fun _ => e.telling_pushBinary _) <|
    .atKeyword (.bind .advance fun _ => e.telling_pushBinary _) (.failExpecting _)

/-! ### The end of a level -/

/-- The height of what was closed is checked before the end of the level is noted. -/
theorem telling_leave (node : Node) : e.Telling id (e.leave node) := by
  refine .bind (.checkHeight _) fun _ => ?_
  split
  · rename_i outer below levels
    exact fun r => .closes levels (.refl _)
  · exact .failBreaking _

/-- The closing symbol closes one level, and a comma none. -/
theorem telling_closeItems (bracket : Bracket) (items : List Expr) (height : Nat) :
    e.Telling id (e.closeItems bracket items height) :=
  .atSymbol (.bind .advance fun _ => .stays rfl rfl)
    (.bind (.expectClosing _ _) fun _ => e.telling_leave _)

theorem telling_closeCast (x : Expr) (height : Nat) : e.Telling id (e.closeCast x height) :=
  .atSymbol (.failBreaking _) <|
    .bind (.expectKeyword _) fun _ => .bind quiet_name fun _ => .bind (.expect _) fun _ =>
      e.telling_leave _

/-- Only `END` closes the level of a `CASE`. -/
theorem telling_closeCase (operand : Option Expr) (branches : List (Expr × Expr))
    (stage : CaseStage) (x : Expr) (height : Nat) :
    e.Telling id (e.closeCase operand branches stage x height) := by
  cases stage with
  | operand => exact .bind (.expectKeyword _) fun _ => .stays rfl rfl
  | condition => exact .bind (.expectKeyword _) fun _ => .stays rfl rfl
  | result condition =>
    refine .atKeyword ?_ (.atKeyword ?_ (.atKeyword ?_ (.failExpecting _)))
    · exact .bind .advance fun _ => .stays rfl rfl
    · exact .bind .advance fun _ => .stays rfl rfl
    · exact .bind .advance fun _ => e.telling_leave _
  | otherwise => exact .bind (.expectKeyword _) fun _ => e.telling_leave _

/-- The level of the whole expression is closed without an event. -/
theorem telling_closeLevel : e.Telling id e.closeLevel := by
  unfold closeLevel
  split
  · refine .bind (.checkHeight _) fun _ => ?_
    unfold closeFrame
    split
    · rename_i whole
      exact fun r => .ends whole (.refl r)
    · exact e.telling_closeItems _ _ _
    · exact e.telling_closeCast _ _
    · exact e.telling_closeCase _ _ _ _ _
  · exact .failBreaking _

theorem telling_operatorStep : e.Telling id e.operatorStep := by
  refine .get fun r => .ite (.bind .advance fun _ => e.telling_identityStep)
    (.ite (.bind .advance fun _ => e.telling_negationStep) ?_)
  split
  · exact .ite e.telling_closeLevel (.bind .advance fun _ => e.telling_pushName)
  · exact .bind .advance fun _ => e.telling_pushBinary _
  · exact e.telling_closeLevel

/-- **Every step tells what it does to the levels**, and one that fails has noted nothing. -/
theorem tells_step : e.Telling id e.step := by
  have goesOn {reading : ReadM Engine} (telling : e.Telling Outcome.more reading) :
      e.Telling id (do return Outcome.more (← reading) : ReadM Outcome) := by
    intro r
    exact (telling r).bind fun next after tells => tells
  unfold step
  cases e.phase with
  | operand => exact goesOn e.telling_operandStep
  | access node => exact goesOn (e.telling_accessStep node)
  | operator => exact e.telling_operatorStep

end Engine

/-! ### Runs -/

/-- Where a reader stands: `d` levels of statements are around it, of the `l` that are allowed, and
what was noted since `old` leaves `n` levels of an expression open. -/
structure Reader.Stands (r : Reader) (old : List LevelEvent) (d l n : Nat) : Prop where
  depth : r.depth = d
  limit : r.limit = l
  within : d ≤ l
  noted : ∃ events, r.events = events ++ old ∧ LevelEvent.Leaves n events

variable {r after : Reader} {old : List LevelEvent} {d l n : Nat}

/-- A reader that only moved on stands where it did. -/
theorem Reader.Stands.same (h : r.Stands old d l n) (moved : r.Same after) :
    after.Stands old d l n where
  depth := moved.depth.trans h.depth
  limit := moved.limit.trans h.limit
  within := h.within
  noted := by
    rw [moved.events]
    exact h.noted

/-- An engine in balance, with a level open for each of those around its innermost one. -/
def Engine.Tracked (old : List LevelEvent) (d l : Nat) (e : Engine) (r : Reader) : Prop :=
  e.Balanced ∧ r.Stands old d l e.below.length

/-- What a step notes keeps the count right. -/
theorem Engine.Tells.tracked {e : Engine} {outcome : Outcome} (h : e.Tells r outcome after)
    (tracked : e.Tracked old d l r) (balanced : outcome.Balanced) :
    outcome.Holds (Tracked old d l) (fun _ after => after.Stands old d l 0) after := by
  obtain ⟨before, stands⟩ := tracked
  obtain ⟨events, noted, leaves⟩ := stands.noted
  have counted := e.levels_eq
  cases h with
  | stays levels moved =>
    refine ⟨balanced, ?_⟩
    rw [levels]
    exact stands.same moved
  | opens kind levels moved =>
    refine ⟨balanced, moved.depth.trans stands.depth, moved.limit.trans stands.limit,
      stands.within, .opened kind (e.below.length + 1) :: events, ?_, ?_⟩
    · rw [moved.events, noted, counted, List.cons_append]
    · rw [levels, List.length_cons]
      exact .opened kind leaves
  | @closes next _ levels moved =>
    refine ⟨balanced, moved.depth.trans stands.depth, moved.limit.trans stands.limit,
      stands.within, .closed (next.below.length + 1) :: events, ?_, ?_⟩
    · rw [moved.events, noted, counted, levels, List.length_cons, Nat.add_sub_cancel,
        List.cons_append]
    · rw [levels, List.length_cons] at leaves
      exact .closed leaves
  | ends whole moved =>
    -- In balance, the whole expression has no levels around it.
    have alone := before.enclosed
    rw [whole] at alone
    have none : e.below = [] := by
      cases levels : e.below with
      | nil => rfl
      | cons outer further =>
        rw [levels] at alone
        cases alone
    rw [none] at stands
    exact stands.same moved

/-- **Every step keeps track** of the levels that are open. -/
theorem Engine.tracked_step {e : Engine} (tracked : e.Tracked old d l r) :
    Gives e.step
      (fun outcome after => outcome.Holds (Tracked old d l) (fun _ after => after.Stands old d l 0)
        after)
      (fun _ after => ∃ n, after.Stands old d l n) r := by
  have safe : Safe anywhere True e.step Outcome.Balanced := safe_step tracked.1
  have balanced := safe r trivial
  have tells := e.tells_step r
  refine Gives.of_cases (fun outcome after found => ?_) fun error after found => ?_
  · exact (tells.ok found).tracked tracked (balanced.ok found).1
  · exact ⟨_, tracked.2.same (tells.error found)⟩

/-- **An expression closes every level that it opens**, and leaves depth and limit alone.  Where it
fails, the levels are left open in which it failed. -/
theorem Engine.stands_run {e : Engine} (tracked : e.Tracked old d l r) :
    Gives e.run (fun _ after => after.Stands old d l 0)
      (fun _ after => ∃ n, after.Stands old d l n) r :=
  gives_run (fun _ _ => tracked_step) e r tracked

/-- In front of an expression no level of it is open. -/
theorem Engine.tracked_start (stands : r.Stands old d l 0) : start.Tracked old d l r :=
  ⟨balanced_start, stands⟩

/-- An expression that is complete has closed all levels that it opened. -/
theorem ReadM.stands_expression (stands : r.Stands old d l 0) :
    Gives expression (fun _ after => after.Stands old d l 0)
      (fun _ after => ∃ n, after.Stands old d l n) r :=
  (Engine.stands_run (Engine.tracked_start stands)).bind fun _ _ closed => closed

end MdxReader
