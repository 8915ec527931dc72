import MdxReader.Proofs.Faults
import MdxReader.Proofs.Precedence

/-!
# Operands and operators balance

A level that waits for an operand has as many operands as there are operators *between* operands
waiting in it; once the operand is there, it has one more.  So whenever operators are applied, their
operands are there, and in the end exactly one operand is left.  The outermost level is the whole
expression and no other one is, so a bracket that is closed always has a level around it.

`Engine.Balanced` is this invariant, every step keeps it (`Engine.safe_step`), and with it the
errors for a malformed expression are out of reach (`ReadM.safe_expression`).
-/

namespace MdxReader

open ReadM

/-! ### Applying operators -/

/-- How many operands the operators that wait have to their left. -/
def leftOperands (waiting : List Operator) : Nat :=
  waiting.countP fun operator => operator.fixity = .between

/-- Only an operator between operands has one to its left. -/
theorem leftOperands_cons (operator : Operator) (waiting : List Operator) :
    leftOperands (operator :: waiting) =
      leftOperands waiting + if operator.fixity = .between then 1 else 0 := by
  simp [leftOperands, List.countP_cons]

/-- An operator finds its operands, and leaves one in their place. -/
theorem exists_applied {operator : Operator} {waiting : List Operator} {nodes : List Node}
    (h : nodes.length = leftOperands (operator :: waiting) + 1) :
    ∃ reduced, operator.applied? nodes = some reduced ∧
      reduced.length = leftOperands waiting + 1 := by
  rw [leftOperands_cons] at h
  unfold Operator.applied?
  cases fixity : operator.fixity with
  | before | after =>
    rw [fixity, if_neg (by decide)] at h
    obtain ⟨node, rest, rfl⟩ := List.exists_cons_of_length_eq_add_one h
    exact ⟨_, rfl, h⟩
  | between =>
    rw [fixity, if_pos rfl] at h
    obtain ⟨right, rest, rfl⟩ := List.exists_cons_of_length_eq_add_one h
    have length : rest.length = leftOperands waiting + 1 := Nat.succ.inj h
    obtain ⟨left, rest, rfl⟩ := List.exists_cons_of_length_eq_add_one length
    -- A negated operator makes two calls of its two operands, any other one.
    cases operator.isNegated with
    | true => exact ⟨_, rfl, length⟩
    | false => exact ⟨_, rfl, length⟩

/-- Operators that yield find their operands, one after the other. -/
theorem exists_reduced (q : Nat) (associativity : Associativity) {waiting : List Operator}
    {nodes : List Node} (h : nodes.length = leftOperands waiting + 1) :
    ∃ waiting' nodes', reduce? q associativity waiting nodes = some (waiting', nodes') ∧
      nodes'.length = leftOperands waiting' + 1 := by
  induction waiting generalizing nodes with
  | nil => exact ⟨[], nodes, rfl, h⟩
  | cons operator waiting ih =>
    unfold reduce?
    by_cases yields : operator.yields q associativity = true
    · obtain ⟨reduced, applied, length⟩ := exists_applied h
      rw [if_pos yields, applied]
      exact ih length
    · rw [if_neg yields]
      exact ⟨operator :: waiting, nodes, rfl, h⟩

namespace Level

/-- The level waits for an operand. -/
def Waiting (level : Level) : Prop := level.operands.length = leftOperands level.operators

/-- The newest operand of the level is complete. -/
def Complete (level : Level) : Prop := level.operands.length = leftOperands level.operators + 1

theorem waiting_start (frame : Frame) (height : Nat) : (start frame height).Waiting := rfl

/-- A level that waits is complete with one more operand. -/
theorem Waiting.push {level : Level} (h : level.Waiting) (node : Node) :
    (level.push node).Complete := congrArg (· + 1) h

/-- Behind an operator between operands a level waits again. -/
theorem Complete.pushOperator {level : Level} (h : level.Complete) {operator : Operator}
    (between : operator.fixity = .between) : (level.pushOperator operator).Waiting := by
  unfold Waiting Level.pushOperator
  rw [leftOperands_cons, if_pos between]
  exact h

/-- An operator in front of an operand leaves a level waiting. -/
theorem Waiting.pushOperator {level : Level} (h : level.Waiting) {operator : Operator}
    (before : operator.fixity = .before) : (level.pushOperator operator).Waiting := by
  unfold Waiting Level.pushOperator
  rw [leftOperands_cons, if_neg (by rw [before]; decide)]
  exact h

/-- Each operator that is folded finds its operands, so folding a complete level never fails. -/
theorem Complete.reduce {level : Level} (h : level.Complete) (q : Nat)
    (associativity : Associativity) :
    ∃ level', level.reduce? q associativity = some level' ∧ level'.Complete ∧
      level'.frame = level.frame := by
  obtain ⟨waiting, nodes, reduced, length⟩ := exists_reduced q associativity h
  refine ⟨{ level with operators := waiting, operands := nodes }, ?_, length, rfl⟩
  unfold Level.reduce?
  rw [reduced]
  rfl

/-- At the end of a level a single operand is left. -/
theorem Complete.finish {level : Level} (h : level.Complete) :
    ∃ node, level.finish? = some node := by
  obtain ⟨waiting, nodes, reduced, length⟩ := exists_reduced 0 .left h
  have none : waiting = [] := eq_nil_of_reduce reduced
  rw [none] at length
  obtain ⟨node, rfl⟩ := List.length_eq_one_iff.mp length
  refine ⟨node, ?_⟩
  unfold finish? Level.reduce?
  rw [reduced]
  rfl

end Level

/-! ### Engines in balance -/

/-- The levels around a frame: the whole expression has none, and every other frame a level that
waits for the operand which the frame will make. -/
def Enclosed : Frame → List Level → Prop
  | .whole, around => around = []
  | _, [] => False
  | _, outer :: around => outer.Waiting ∧ Enclosed outer.frame around

/-- What is inside brackets has a level around it that waits. -/
theorem enclosed_iff {frame : Frame} (inner : frame ≠ .whole) {around : List Level} :
    Enclosed frame around ↔ ∃ outer further, around = outer :: further ∧ outer.Waiting ∧
      Enclosed outer.frame further := by
  cases around with
  | nil => cases frame <;> simp_all [Enclosed]
  | cons outer further =>
    have same : Enclosed frame (outer :: further) =
        (outer.Waiting ∧ Enclosed outer.frame further) := by
      cases frame with
      | whole => exact absurd rfl inner
      | _ => rfl
    rw [same]
    constructor
    · intro h
      exact ⟨outer, further, rfl, h⟩
    · rintro ⟨_, _, ⟨⟩, h⟩
      exact h

/-- Being enclosed is the same for all frames but the whole expression. -/
theorem Enclosed.congr {frame frame' : Frame} {around : List Level} (h : Enclosed frame around)
    (inner : frame ≠ .whole) (inner' : frame' ≠ .whole) : Enclosed frame' around :=
  (enclosed_iff inner').mpr ((enclosed_iff inner).mp h)

/-- What the innermost level is ready for. -/
def Phase.Ready : Phase → Level → Prop
  | operand, level | access _, level => level.Waiting
  | operator, level => level.Complete

/-- **Operands and operators balance** in every level, and the outermost level is the whole
expression. -/
structure Engine.Balanced (e : Engine) : Prop where
  ready : e.phase.Ready e.top
  enclosed : Enclosed e.top.frame e.below

/-- What a step leads to is in balance. -/
def Outcome.Balanced : Outcome → Prop
  | more e => e.Balanced
  | done _ => True

namespace Engine

variable {e : Engine} {invariant : Invariant}

/-- At the beginning nothing is on the stacks, and an operand is awaited. -/
theorem balanced_start : start.Balanced := ⟨rfl, rfl⟩

/-! ### Operands -/

section Operands

variable (waits : e.top.Waiting) (enclosed : Enclosed e.top.frame e.below)

include waits enclosed

/-- A level is entered only while an operand is awaited. -/
theorem safe_enter {frame : Frame} (inner : frame ≠ .whole) (height : Nat) :
    Safe invariant True (e.enter frame height) Balanced := by
  refine (Safe.checkHeight trivial _).bind fun _ _ => Safe.note.bind fun _ _ => Safe.pure ?_
  exact ⟨Level.waiting_start frame height, (enclosed_iff inner).mpr ⟨_, _, rfl, waits, enclosed⟩⟩

/-- A name completes the operand that is awaited, and a call opens a level for it. -/
theorem safe_nameOrFunction (name : String) :
    Safe invariant True (e.nameOrFunction name) Balanced := by
  refine Safe.atSymbol (Safe.advance.bind fun _ _ => Safe.atSymbol ?_ ?_) ?_
  · exact Safe.advance.bind fun _ _ => Safe.pure ⟨waits, enclosed⟩
  · exact safe_enter waits enclosed (by nofun) 0
  · exact Safe.pure ⟨waits, enclosed⟩

theorem safe_atom : Safe invariant True e.atom Balanced := by
  refine Safe.get fun r => Safe.advance.bind fun _ _ => ?_
  cases token : r.token with
  | number value => exact Safe.pure ⟨waits, enclosed⟩
  | string value quote => exact Safe.pure ⟨waits, enclosed⟩
  | word name => exact safe_nameOrFunction waits enclosed name
  | keyword k spelling =>
    refine Safe.ite (fun _ => Safe.pure ⟨waits, enclosed⟩) fun _ => ?_
    refine Safe.ite (fun _ => Safe.throw ?_) fun _ => safe_nameOrFunction waits enclosed spelling
    exact ReadError.regular_unexpected _ _ nofun
  | bracketed name =>
    exact Safe.ite (fun _ => Safe.throw ⟨id, nofun⟩) fun _ => Safe.pure ⟨waits, enclosed⟩
  | bracketedKey name | wordKey name =>
    exact (safe_keyFrom r.place rfl).bind fun _ _ => Safe.pure ⟨waits, enclosed⟩
  | symbol s => exact Safe.throw (ReadError.regular_unexpected _ _ nofun)
  | endOfText => exact Safe.throw (ReadError.regular_unexpected _ _ nofun)

/-- Where an operand is awaited the step goes on with one, or waits still. -/
theorem safe_operandStep : Safe invariant True e.operandStep Balanced := by
  refine Safe.get fun r => ?_
  split
  · rename_i operator leads
    have before := fixity_of_leading leads
    refine (Safe.checkHeight trivial _).bind fun _ _ => Safe.advance.bind fun _ _ => Safe.pure ?_
    exact ⟨waits.pushOperator before, enclosed⟩
  refine Safe.ite (fun _ => ?_) fun _ => ?_
  · exact Safe.advance.bind fun _ _ => safe_enter waits enclosed (by simp) 0
  refine Safe.ite (fun _ => ?_) fun _ => ?_
  · refine Safe.advance.bind fun _ _ => Safe.atSymbol ?_ (safe_enter waits enclosed (by simp) 0)
    exact Safe.advance.bind fun _ _ => Safe.pure ⟨waits, enclosed⟩
  refine Safe.ite (fun _ => ?_) fun _ => ?_
  · refine Safe.advance.bind fun _ _ => Safe.atKeyword ?_ (safe_enter waits enclosed (by simp) 0)
    exact Safe.advance.bind fun _ _ => safe_enter waits enclosed (by simp) 0
  refine Safe.ite (fun _ => ?_) fun _ => ?_
  · refine Safe.advance.bind fun _ _ => Safe.expect.bind fun _ _ => ?_
    exact safe_enter waits enclosed (by simp) 0
  -- An argument that is left out is an operand as well.
  exact Safe.ite (fun _ => Safe.pure ⟨waits.push _, enclosed⟩) fun _ => safe_atom waits enclosed

/-! ### Accesses -/

omit waits enclosed in
theorem safe_methodOr {receiver : Node} {name : String} {plain : ReadM Access}
    (h : Safe invariant True plain Anything) :
    Safe invariant True (methodOr receiver name plain) Anything := by
  refine Safe.atSymbol (Safe.advance.bind fun _ _ => Safe.atSymbol ?_ (Safe.pure trivial)) h
  exact Safe.advance.bind fun _ _ => Safe.pure trivial

omit waits enclosed in
/-- An empty key in brackets is an error in the text, not in the stacks. -/
theorem regular_bracketedAccess {receiver : Node} {name : String} {place : Position}
    {error : ReadError} (h : bracketedAccess receiver name place = .error error) :
    error.Regular True := by
  unfold bracketedAccess at h
  split at h
  · cases h
    exact ⟨id, nofun⟩
  · cases h
  · split at h <;> cases h

omit waits enclosed in
/-- A key behind something else than an identifier is an error in the text. -/
theorem regular_keyAccess {receiver : Node} {key : Key} {place : Position} {error : ReadError}
    (h : keyAccess receiver key place = .error error) : error.Regular True := by
  unfold keyAccess at h
  split at h <;> cases h
  exact ReadError.regular_broken _ nofun nofun

omit waits enclosed in
theorem safe_memberAccess (receiver : Node) :
    Safe invariant True (memberAccess receiver) Anything := by
  refine Safe.get fun r => Safe.advance.bind fun _ _ => ?_
  cases r.token with
  | word name => exact safe_methodOr (Safe.pure trivial)
  | keyword k spelling =>
    exact Safe.ite (fun _ => Safe.throw ⟨id, nofun⟩) fun _ => safe_methodOr (Safe.pure trivial)
  | bracketed name =>
    refine Safe.ite (fun _ => Safe.throw ⟨id, nofun⟩) fun _ => safe_methodOr ?_
    have judged : Safe invariant True (judge (bracketedAccess receiver name r.place)) Anything :=
      Safe.judge (fun _ _ => trivial) fun _ found => regular_bracketedAccess found
    exact judged.bind fun _ _ => Safe.pure trivial
  | bracketedKey name | wordKey name =>
    refine (safe_keyFrom r.place rfl).bind fun key _ => ?_
    have judged : Safe invariant True (judge (keyAccess receiver key r.place)) Anything :=
      Safe.judge (fun _ _ => trivial) fun _ found => regular_keyAccess found
    exact judged.bind fun _ _ => Safe.pure trivial
  | _ => exact Safe.throw (ReadError.regular_unexpected _ _ nofun)

theorem safe_accessStep (node : Node) : Safe invariant True (e.accessStep node) Balanced := by
  refine Safe.atSymbol ?_ ?_
  · refine Safe.advance.bind fun _ _ => (safe_memberAccess node).bind fun access _ => ?_
    cases access with
    | reached next =>
      exact (Safe.checkHeight trivial _).bind fun _ _ => Safe.pure ⟨waits, enclosed⟩
    | method name => exact safe_enter waits enclosed (by nofun) node.height
  · exact (Safe.checkHeight trivial _).bind fun _ _ => Safe.pure ⟨waits.push node, enclosed⟩

end Operands

/-! ### Operators and ends -/

section Operators

variable (complete : e.top.Complete) (enclosed : Enclosed e.top.frame e.below)

include complete enclosed

/-- The operand to its left is complete, so folding succeeds. -/
theorem safe_pushBinary {operator : Operator} (between : operator.fixity = .between) :
    Safe invariant True (e.pushBinary operator) Outcome.Balanced := by
  obtain ⟨top, reduced, whole, frame⟩ :=
    complete.reduce operator.strength operator.associativity
  unfold pushBinary
  rw [reduced]
  refine (Safe.checkHeight trivial _).bind fun _ _ => ?_
  refine (Safe.checkHeight trivial _).bind fun _ _ => Safe.pure ?_
  exact ⟨whole.pushOperator between, frame ▸ enclosed⟩

/-- The test finds its operand on the stack, as folding leaves one. -/
theorem safe_pushTrailing {operator : Operator} (behind : operator.fixity = .after) :
    Safe invariant True (e.pushTrailing operator) Outcome.Balanced := by
  obtain ⟨top, reduced, whole, frame⟩ := complete.reduce operator.strength .left
  have whole : top.operands.length = leftOperands (operator :: top.operators) + 1 := by
    rw [leftOperands_cons, if_neg (by rw [behind]; decide)]
    exact whole
  obtain ⟨operands, applied, length⟩ := exists_applied whole
  unfold pushTrailing
  rw [reduced]
  simp only
  rw [applied]
  refine (Safe.checkHeight trivial _).bind fun _ _ => Safe.pure ?_
  exact ⟨length, frame ▸ enclosed⟩

/-- `AS` finds the operand that all the rest was folded into. -/
theorem safe_pushName : Safe invariant True e.pushName Outcome.Balanced := by
  refine safe_identifier.bind fun name _ => ?_
  obtain ⟨⟨frame', operands, operators, height⟩, reduced, whole, frame⟩ :=
    complete.reduce Operator.named.strength .left
  -- The newest operand gets the name, and stays where it is.
  obtain ⟨node, operands, rfl⟩ := List.exists_cons_of_length_eq_add_one whole
  rw [reduced]
  refine (Safe.checkHeight trivial _).bind fun _ _ => Safe.pure ?_
  exact ⟨whole, frame ▸ enclosed⟩

omit complete enclosed in
/-- All tests stand behind their operands. -/
theorem safe_nullTest : Safe invariant True nullTest
    (fun test => ∀ operator, test = some operator → operator.fixity = .after) := by
  have stands {operator : Operator} (behind : operator.fixity = .after) :
      ∀ found, some operator = some found → found.fixity = .after := by
    rintro _ ⟨⟩
    exact behind
  refine Safe.atKeyword (Safe.pure (stands rfl)) (Safe.atKeyword (Safe.pure (stands rfl)) ?_)
  refine Safe.atKeyword (Safe.advance.bind fun _ _ => ?_) (Safe.pure nofun)
  exact Safe.atKeyword (Safe.pure (stands rfl)) (Safe.atKeyword (Safe.pure (stands rfl))
    (Safe.failExpecting nofun))

theorem safe_identityStep : Safe invariant True e.identityStep Outcome.Balanced := by
  refine safe_nullTest.bind fun test behind => ?_
  cases test with
  | some operator =>
    refine Safe.advance.bind fun _ _ => ?_
    exact safe_pushTrailing complete enclosed (behind operator rfl)
  | none => exact safe_pushBinary complete enclosed rfl

theorem safe_negationStep : Safe invariant True e.negationStep Outcome.Balanced := by
  refine Safe.atKeyword ?_ (Safe.atKeyword ?_ (Safe.failExpecting nofun))
  · exact Safe.advance.bind fun _ _ => safe_pushBinary complete enclosed rfl
  · exact Safe.advance.bind fun _ _ => safe_pushBinary complete enclosed rfl

omit complete in
/-- A level that is not the whole expression has one around it. -/
theorem safe_leave (inner : e.top.frame ≠ .whole) (node : Node) :
    Safe invariant True (e.leave node) Outcome.Balanced := by
  refine (Safe.checkHeight trivial _).bind fun _ _ => ?_
  obtain ⟨outer, around, below, waits, further⟩ := (enclosed_iff inner).mp enclosed
  split
  · rename_i found below' levels
    rw [below] at levels
    cases levels
    exact Safe.note.bind fun _ _ => Safe.pure ⟨waits, further⟩
  · rename_i levels
    rw [below] at levels
    cases levels

omit complete in
/-- A level that goes on with another item starts with empty stacks. -/
theorem balanced_resume (inner : e.top.frame ≠ .whole) {frame : Frame} (other : frame ≠ .whole)
    (height : Nat) : (e.resume frame height).Balanced :=
  ⟨Level.waiting_start frame height, enclosed.congr inner other⟩

omit complete in
/-- Inside brackets there is a level below that waits for what they make. -/
theorem safe_closeItems (inner : e.top.frame ≠ .whole) (bracket : Bracket) (items : List Expr)
    (height : Nat) :
    Safe invariant True (e.closeItems bracket items height) Outcome.Balanced := by
  refine Safe.atSymbol ?_ ?_
  · exact Safe.advance.bind fun _ _ => Safe.pure (balanced_resume enclosed inner (by nofun) height)
  · exact (Safe.expectClosing (by nofun)).bind fun _ _ => safe_leave enclosed inner _

omit complete in
theorem safe_closeCast (inner : e.top.frame ≠ .whole) (x : Expr) (height : Nat) :
    Safe invariant True (e.closeCast x height) Outcome.Balanced := by
  refine Safe.atSymbol (Safe.failBreaking nofun nofun) ?_
  refine Safe.expectKeyword.bind fun _ _ => safe_name.bind fun _ _ => ?_
  exact Safe.expect.bind fun _ _ => safe_leave enclosed inner _

omit complete in
theorem safe_closeCase (inner : e.top.frame ≠ .whole) (operand : Option Expr)
    (branches : List (Expr × Expr)) (stage : CaseStage) (x : Expr) (height : Nat) :
    Safe invariant True (e.closeCase operand branches stage x height) Outcome.Balanced := by
  have goesOn (operand : Option Expr) (branches : List (Expr × Expr)) (stage : CaseStage) :
      Outcome.Balanced (.more (e.resume (.case operand branches stage) height)) :=
    balanced_resume enclosed inner (by nofun) height
  cases stage with
  | operand => exact Safe.expectKeyword.bind fun _ _ => Safe.pure (goesOn _ _ _)
  | condition => exact Safe.expectKeyword.bind fun _ _ => Safe.pure (goesOn _ _ _)
  | result condition =>
    refine Safe.atKeyword ?_ (Safe.atKeyword ?_ (Safe.atKeyword ?_ (Safe.failExpecting nofun)))
    · exact Safe.advance.bind fun _ _ => Safe.pure (goesOn _ _ _)
    · exact Safe.advance.bind fun _ _ => Safe.pure (goesOn _ _ _)
    · exact Safe.advance.bind fun _ _ => safe_leave enclosed inner _
  | otherwise => exact Safe.expectKeyword.bind fun _ _ => safe_leave enclosed inner _

/-- The level is complete, so it comes to exactly one operand. -/
theorem safe_closeLevel : Safe invariant True e.closeLevel Outcome.Balanced := by
  obtain ⟨node, finished⟩ := complete.finish
  unfold closeLevel
  rw [finished]
  refine (Safe.checkHeight trivial _).bind fun _ _ => ?_
  unfold closeFrame
  split
  · exact Safe.pure trivial
  · rename_i bracket items frame
    exact safe_closeItems enclosed (by rw [frame]; nofun) _ _ _
  · rename_i frame
    exact safe_closeCast enclosed (by rw [frame]; nofun) _ _
  · rename_i operand branches stage frame
    exact safe_closeCase enclosed (by rw [frame]; nofun) _ _ _ _ _

theorem safe_operatorStep : Safe invariant True e.operatorStep Outcome.Balanced := by
  refine Safe.get fun r => Safe.ite (fun _ => ?_) fun _ => Safe.ite (fun _ => ?_) fun _ => ?_
  · exact Safe.advance.bind fun _ _ => safe_identityStep complete enclosed
  · exact Safe.advance.bind fun _ _ => safe_negationStep complete enclosed
  split
  · refine Safe.ite (fun _ => safe_closeLevel complete enclosed) fun _ => ?_
    exact Safe.advance.bind fun _ _ => safe_pushName complete enclosed
  · rename_i operator other found
    have between := fixity_of_following found
    exact Safe.advance.bind fun _ _ => safe_pushBinary complete enclosed between
  · exact safe_closeLevel complete enclosed

end Operators

/-- **Every step keeps the balance**, and fails with regular errors only. -/
theorem safe_step (balanced : e.Balanced) : Safe invariant True e.step Outcome.Balanced := by
  obtain ⟨ready, enclosed⟩ := balanced
  unfold step
  cases phase : e.phase with
  | operand =>
    rw [phase] at ready
    exact (safe_operandStep ready enclosed).bind fun _ next => Safe.pure next
  | access node =>
    rw [phase] at ready
    exact (safe_accessStep ready enclosed node).bind fun _ next => Safe.pure next
  | operator =>
    rw [phase] at ready
    exact safe_operatorStep ready enclosed

end Engine

/-! ### Expressions -/

/-- A run keeps what its steps keep, and fails with regular errors only. -/
theorem Engine.safe_run {invariant : Invariant} {e : Engine} (balanced : e.Balanced) :
    Safe invariant True e.run Anything := by
  intro r holds
  have kept (e : Engine) (r : Reader) (now : e.Balanced ∧ invariant.holds r) :
      Gives e.step (Outcome.Holds (fun e r => e.Balanced ∧ invariant.holds r)
        fun _ after => Anything () ∧ invariant.holds after) (fun e _ => e.Regular True) r := by
    refine (Engine.safe_step now.1 r now.2).mono (fun outcome after ⟨next, later⟩ => ?_)
      fun _ _ => id
    cases outcome with
    | more e => exact ⟨next, later⟩
    | done node => exact ⟨trivial, later⟩
  exact Engine.gives_run kept e r ⟨balanced, holds⟩

/-- **No expression is malformed**: whatever is wrong with one is a fault of its text. -/
theorem ReadM.safe_expression {invariant : Invariant} :
    Safe invariant True expression Anything :=
  (Engine.safe_run Engine.balanced_start).bind fun _ _ => Safe.pure trivial

end MdxReader
