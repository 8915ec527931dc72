import MdxReader.Proofs.Bounds
import MdxReader.Proofs.Steady

/-!
# The state of an engine

`Engine.InOrder` says all that is known of the state in which an expression is read, at some depth
of statements and under some limit: how the levels are stacked, how many operands and operators
each of them holds, and that every height that is recorded is exact and within the limit.  Every
step keeps it so (`Engine.Upheld.step`).

So a watch that has nothing to say of engines in order (`ExprReading.watched`) is never heard,
whatever a reader is asked for, in whatever order, with or without success
(`Reader.unalarmed_past`).
-/

namespace MdxReader

open ReadM

/-! ### Engines in order -/

namespace Engine

/-- The engine expects an operator. -/
def expectsOperator (e : Engine) : Bool :=
  match e.phase with
  | .operator => true
  | _ => false

/-- **An engine in order**, with `depth` levels of statements around the expression and so many
levels allowed. -/
structure InOrder (e : Engine) (depth limit : Nat) : Prop where
  within : depth ≤ limit
  /-- The whole expression is the outermost level, and no other one. -/
  outermost : ∃ inner last, e.top :: e.below = inner ++ [last] ∧ last.frame = .whole ∧
    ∀ level ∈ inner, level.frame ≠ .whole
  levels : (e.top :: e.below).length ≤ limit - depth + 1
  /-- A level records the height of the tallest part that its frame has collected. -/
  collected : ∀ level ∈ e.top :: e.below,
    level.frame.height = level.height ∧ level.height ≤ limit - depth
  /-- With an operand goes the height of its tree. -/
  operands : ∀ level ∈ e.top :: e.below, ∀ node ∈ level.operands,
    node.expr.height = node.height ∧ node.height ≤ limit - depth
  /-- The operand behind which accesses may follow can be one higher. -/
  carried : ∀ node, e.phase = .access node →
    node.expr.height = node.height ∧ node.height ≤ limit - depth + 1
  operators : ∀ level ∈ e.top :: e.below, level.operators.length ≤ limit - depth
  /-- Each operator between operands has its left one. -/
  waiting : ∀ level ∈ e.below, level.operands.length = leftOperands level.operators
  ready : e.top.operands.length =
    leftOperands e.top.operators + if e.expectsOperator then 1 else 0

/-! ### What every step upholds -/

/-- The levels around a frame end with the whole expression. -/
theorem outermost_of_enclosed {top : Level} {around : List Level}
    (enclosed : Enclosed top.frame around) :
    ∃ inner last, top :: around = inner ++ [last] ∧ last.frame = .whole ∧
      ∀ level ∈ inner, level.frame ≠ .whole := by
  induction around generalizing top with
  | nil =>
    refine ⟨[], top, rfl, ?_, nofun⟩
    by_contra inner
    obtain ⟨_, _, levels, _⟩ := (enclosed_iff inner).mp enclosed
    cases levels
  | cons outer further ih =>
    have inner : top.frame ≠ .whole := by
      intro whole
      rw [whole] at enclosed
      cases enclosed
    obtain ⟨_, _, ⟨⟩, _, enclosed⟩ := (enclosed_iff inner).mp enclosed
    obtain ⟨levels, last, same, whole, others⟩ := ih enclosed
    exact ⟨top :: levels, last, by rw [same, List.cons_append], whole,
      List.forall_mem_cons.mpr ⟨inner, others⟩⟩

/-- All levels around a frame wait for an operand. -/
theorem waiting_of_enclosed {frame : Frame} {around : List Level}
    (enclosed : Enclosed frame around) : ∀ level ∈ around, level.Waiting := by
  induction around generalizing frame with
  | nil => nofun
  | cons outer further ih =>
    have inner : frame ≠ .whole := by
      rintro rfl
      cases enclosed
    obtain ⟨_, _, ⟨⟩, waits, enclosed⟩ := (enclosed_iff inner).mp enclosed
    exact List.forall_mem_cons.mpr ⟨waits, ih enclosed⟩

/-- What every step keeps, from `depth` levels of statements on and under the limit `limit`. -/
structure Upheld (depth limit : Nat) (e : Engine) (r : Reader) : Prop where
  place : r.depth = depth
  allowed : r.limit = limit
  within : depth ≤ limit
  balanced : e.Balanced
  measured : e.Measured
  bounded : e.Bounded (limit - depth)

variable {e : Engine} {r : Reader} {depth limit : Nat}

theorem upheld_start (place : r.depth = depth) (allowed : r.limit = limit)
    (within : depth ≤ limit) : Upheld depth limit start r :=
  ⟨place, allowed, within, balanced_start, measured_start, bounded_start _⟩

/-- **Every step upholds the order.** -/
theorem Upheld.step (h : Upheld depth limit e r) {next : Engine} {after : Reader}
    (found : e.step r = .ok (.more next) after) : Upheld depth limit next after := by
  obtain ⟨place, allowed, within, balanced, measured, bounded⟩ := h
  have safe : Safe anywhere True e.step Outcome.Balanced := safe_step balanced
  obtain ⟨reached, recorded⟩ := (measured_step measured).ok found
  have room : r.depth + (limit - depth) = r.limit := by omega
  have fits := (bounds_step bounded r _ _ found room).1
  exact ⟨reached.depth.trans place, reached.limit.trans allowed, within,
    ((safe r trivial).ok found).1, recorded, fits⟩

theorem Upheld.inOrder (h : Upheld depth limit e r) : e.InOrder depth limit := by
  obtain ⟨-, -, within, balanced, measured, bounded⟩ := h
  have recorded : ∀ level ∈ e.top :: e.below, level.Measured :=
    List.forall_mem_cons.mpr ⟨measured.top, measured.below⟩
  have fits : ∀ level ∈ e.top :: e.below, level.Bounded (limit - depth) :=
    List.forall_mem_cons.mpr ⟨bounded.top, bounded.below⟩
  refine ⟨within, outermost_of_enclosed balanced.enclosed, ?_, ?_, ?_, ?_, ?_,
    waiting_of_enclosed balanced.enclosed, ?_⟩
  · exact Nat.succ_le_succ bounded.levels
  · exact fun level mem => ⟨(recorded level mem).frame, (fits level mem).height⟩
  · exact fun level mem node operand =>
      ⟨(recorded level mem).operands node operand, (fits level mem).operands node operand⟩
  · intro node carried
    have height := measured.phase
    have low := bounded.phase
    rw [carried] at height low
    refine ⟨height, Nat.le_trans low ?_⟩
    omega
  · exact fun level mem => (fits level mem).operators
  · have ready := balanced.ready
    unfold expectsOperator
    cases phase : e.phase with
    | operand | access node =>
      rw [phase] at ready
      exact ready
    | operator =>
      rw [phase] at ready
      exact ready

end Engine

/-! ### Several attempts -/

/-- The reader after one goal after another was attempted, with or without success. -/
def Reader.past (r : Reader) : List Goal → Reader
  | [] => r
  | goal :: goals => (r.attempt goal).2.past goals

/-- Between two attempts a reader is in no statement, and its limit is the same. -/
theorem Reader.depth_limit_past {r : Reader} {limit : Nat} (depth : r.depth = 0)
    (allowed : r.limit = limit) (goals : List Goal) :
    (r.past goals).depth = 0 ∧ (r.past goals).limit = limit := by
  induction goals generalizing r with
  | nil => exact ⟨depth, allowed⟩
  | cons goal goals ih =>
    have given := goal.gives_reading depth allowed
    unfold past attempt
    cases found : goal.reading r with
    | ok tree after =>
      have back := given.ok found
      exact ih back.depth back.limit
    | error e after =>
      obtain ⟨n, back⟩ := given.error found
      exact ih back.depth back.limit

/-- Where an expression begins, its engine is in order, and so it stays. -/
theorem ExprReading.faithful_watched {watch : Engine → Reader → Option ReadError} {limit : Nat}
    (silent : ∀ e s, s.limit = limit → e.InOrder s.depth limit → watch e s = none)
    (old : List LevelEvent) : (ExprReading.watched watch).Faithful old limit := by
  intro r depth stands
  refine reading_watched (fun e s next after upheld => upheld.step) (fun e s upheld => ?_)
    (Engine.upheld_start stands.depth stands.limit stands.within)
  refine silent e s upheld.allowed ?_
  rw [upheld.place]
  exact upheld.inOrder

/-- **Engines are always in order.**  Whatever was asked of a reader of a text before, with or
without success, it is in no statement afterwards; and whatever is asked of it next, a watch over
every state of every expression never raises an alarm, if there is none to raise about engines in
order. -/
theorem Reader.unalarmed_past {text : String} {limit : Nat} {r : Reader}
    (start : ofText text limit = .ok r) (goals : List Goal) :
    (r.past goals).depth = 0 ∧
      ∀ (goal : Goal) (watch : Engine → Reader → Option ReadError),
        (∀ e s, s.limit = limit → e.InOrder s.depth limit → watch e s = none) →
          goal.readingWith (.watched watch) (r.past goals) = goal.reading (r.past goals) := by
  obtain ⟨depth, allowed⟩ := depth_limit_past (depth_of_ofText start) (limit_of_ofText start) goals
  refine ⟨depth, fun goal watch silent => ?_⟩
  have faithful := ExprReading.faithful_watched silent (r.past goals).events
  exact (goal.steady_reading faithful _ ⟨depth, allowed, Nat.zero_le _, [], rfl, .nil⟩).same

/-- The expression ends in front of `SELECT`, so the first attempt fails.  The watch of the next one
is about the number of levels. -/
theorem Reader.unalarmed_past_expression : ∃ r,
    Reader.ofText "a SELECT {b} ON 0 FROM (SELECT FROM c)" 2 = .ok r ∧
      (r.past [.expression]).depth = 0 ∧
      Goal.statement.readingWith (.watched fun e s =>
          if s.limit < s.depth + e.below.length then some (.tooDeep 0) else none)
        (r.past [.expression]) = Goal.statement.reading (r.past [.expression]) := by
  have fine : (Reader.ofText "a SELECT {b} ON 0 FROM (SELECT FROM c)" 2).isOk = true := by
    decide +kernel
  cases start : Reader.ofText "a SELECT {b} ON 0 FROM (SELECT FROM c)" 2 with
  | error e =>
    rw [start] at fine
    cases fine
  | ok r =>
    obtain ⟨depth, unalarmed⟩ := unalarmed_past start [.expression]
    refine ⟨r, rfl, depth, unalarmed .statement _ fun e s limit ordered => ?_⟩
    have levels := ordered.levels
    have within := ordered.within
    rw [List.length_cons] at levels
    exact if_neg (by omega)

end MdxReader
