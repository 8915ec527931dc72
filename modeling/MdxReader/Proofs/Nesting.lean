import Mathlib.Algebra.GroupWithZero.Nat
import MdxReader.Proofs.Leads
import MdxReader.Proofs.Precedence

/-!
# A text nests no deeper than it is long

Every level, every operator that waits and every unit of height of a tree is paid for by a token of
its own.  So the *weight* of an engine, which adds all of these up, and the tokens that are left
never exceed the tokens there were in the beginning (`Engine.leads_step`).  Each demand on the
nesting asks for no more than the weight, and a limit as great as the text is long is never hit.

With what an engine means this gives the main result, `expression_iff_descent`: such a limit put
aside, the reading of an expression is recursive descent.
-/

namespace MdxReader

open ReadM

/-! ### Weights -/

/-- The height that an operator adds to a tree: the negated ones make two calls. -/
def Operator.cost (operator : Operator) : Nat := if operator.isNegated then 2 else 1

/-- The height that operands and the operators between them can add up to. -/
def stackWeight (operators : List Operator) (operands : List Node) : Nat :=
  (operands.map Node.height).sum + (operators.map Operator.cost).sum

/-- What a level holds. -/
def Level.weight (level : Level) : Nat :=
  level.height + stackWeight level.operators level.operands

/-- The height of an operand that is not yet on a stack. -/
def Phase.weight : Phase → Nat
  | access node => node.height
  | _ => 0

namespace Engine

/-- What the levels hold, one more for each that was entered. -/
def held (e : Engine) : Nat :=
  e.top.weight + (e.below.map Level.weight).sum + e.below.length

/-- What an engine has built and opened. -/
def weight (e : Engine) : Nat := e.held + e.phase.weight

end Engine

/-- Every operator makes the tree higher. -/
theorem Operator.cost_pos (operator : Operator) : 1 ≤ operator.cost := by
  unfold cost
  split <;> omega

/-- Applying an operator turns its cost into height. -/
theorem weight_of_apply {operator : Operator} {nodes nodes' : List Node}
    (h : operator.applied? nodes = some nodes') :
    (nodes'.map Node.height).sum ≤ (nodes.map Node.height).sum + operator.cost := by
  have cost := operator.cost_pos
  unfold Operator.applied? at h
  split at h
  · cases h
    simp only [List.map_cons, List.sum_cons, Node.above]
    omega
  · cases h
    simp only [List.map_cons, List.sum_cons, Node.above]
    omega
  · simp only at h
    split at h
    · -- `NOT` above the call of what it negates.
      rename_i negated
      cases h
      have two : operator.cost = 2 := if_pos negated
      simp only [List.map_cons, List.sum_cons, Node.above]
      omega
    · cases h
      simp only [List.map_cons, List.sum_cons, Node.above]
      omega
  · cases h

/-- Folding makes of operands and operators a tree no higher than what they weighed. -/
theorem weight_of_reduce {q : Nat} {associativity : Associativity}
    {waiting waiting' : List Operator} {nodes nodes' : List Node}
    (h : reduce? q associativity waiting nodes = some (waiting', nodes')) :
    stackWeight waiting' nodes' ≤ stackWeight waiting nodes := by
  induction waiting generalizing nodes with
  | nil =>
    cases h
    exact Nat.le_refl _
  | cons operator waiting ih =>
    unfold reduce? at h
    split at h
    · split at h
      · rename_i reduced applied
        have less := ih h
        have cost := weight_of_apply applied
        simp only [stackWeight, List.map_cons, List.sum_cons] at less ⊢
        omega
      · cases h
    · cases h
      exact Nat.le_refl _

namespace Level

theorem weight_start (frame : Frame) (height : Nat) : (start frame height).weight = height := rfl

theorem weight_push (level : Level) (node : Node) :
    (level.push node).weight = level.weight + node.height := by
  simp only [weight, push, stackWeight, List.map_cons, List.sum_cons]
  omega

/-- An operator that waits weighs what it will add to the tree. -/
theorem weight_pushOperator (level : Level) (operator : Operator) :
    (level.pushOperator operator).weight = level.weight + operator.cost := by
  simp only [weight, pushOperator, stackWeight, List.map_cons, List.sum_cons]
  omega

theorem weight_of_level_reduce {level level' : Level} {q : Nat} {associativity : Associativity}
    (h : level.reduce? q associativity = some level') : level'.weight ≤ level.weight := by
  unfold Level.reduce? at h
  obtain ⟨⟨waiting, nodes⟩, reduced, rfl⟩ := Option.map_eq_some_iff.mp h
  have less := weight_of_reduce reduced
  simp only [weight]
  omega

/-- The newest operand is part of what the level weighs. -/
theorem newestHeight_le (level : Level) : level.newestHeight ≤ level.weight := by
  unfold newestHeight weight stackWeight
  cases level.operands with
  | nil => exact Nat.zero_le _
  | cons node nodes =>
    simp only [List.map_cons, List.sum_cons]
    omega

/-- Every operator that waits weighs at least one. -/
theorem length_operators_le (level : Level) : level.operators.length ≤ level.weight := by
  have each : level.operators.length ≤ (level.operators.map Operator.cost).sum := by
    induction level.operators with
    | nil => exact Nat.le_refl _
    | cons operator operators ih =>
      have cost := operator.cost_pos
      simp only [List.length_cons, List.map_cons, List.sum_cons]
      omega
  unfold weight stackWeight
  omega

/-- The last operand and the items before it are no higher than the level is heavy. -/
theorem height_of_finish {level : Level} {node : Node} (h : level.finish? = some node) :
    max level.height node.height ≤ level.weight := by
  unfold finish? at h
  split at h
  · rename_i frame last operators height reduced
    cases h
    have less := weight_of_level_reduce reduced
    -- A reduction touches the operands and operators only.
    have kept : height = level.height := by
      unfold Level.reduce? at reduced
      obtain ⟨lists, -, made⟩ := Option.map_eq_some_iff.mp reduced
      exact (congrArg Level.height made).symm
    simp only [weight, stackWeight, List.map_cons, List.map_nil, List.sum_cons,
      List.sum_nil] at less ⊢
    omega
  · cases h

end Level

/-! ### Steps -/

/-- The limit has room for a weight and for the tokens that are left. -/
def Reader.Allows (r : Reader) (weight : Nat) : Prop := r.depth + weight + r.remaining ≤ r.limit

namespace Engine

variable {e : Engine} {r : Reader}

/-- There is room for what an engine weighs. -/
def Fits (e : Engine) (r : Reader) : Prop := r.Allows e.weight

/-- There is room for what an outcome weighs. -/
def FitsOn : Outcome → Reader → Prop := Outcome.Holds Fits fun _ _ => True

theorem fits_reach {node : Node} : (e.reach node).Fits r ↔ r.Allows (e.held + node.height) :=
  Iff.rfl

theorem fits_push {node : Node} : (e.push node).Fits r ↔ r.Allows (e.held + node.height) := by
  unfold Fits weight held push
  simp only [Level.weight_push, Phase.weight, Reader.Allows]
  omega

theorem fits_await {operator : Operator} :
    (e.await operator).Fits r ↔ r.Allows (e.held + operator.cost) := by
  unfold Fits weight held await
  simp only [Level.weight_pushOperator, Phase.weight, Reader.Allows]
  omega

/-- The open levels and the operators that wait are at most one more than what the engine holds. -/
theorem levels_le (e : Engine) : e.levels + e.top.operators.length ≤ e.held + 1 := by
  have waiting := e.top.length_operators_le
  have levels := e.levels_eq
  unfold held
  omega

/-- Where there is room for the level it is entered. -/
theorem leads_enter {frame : Frame} {height : Nat} (room : r.Allows (e.held + height + 1)) :
    Leads (e.enter frame height) Fits False r := by
  have levels := e.levels_le
  unfold Reader.Allows at room
  refine Leads.checkHeight (fun _ => Leads.note (Leads.pure ?_)) fun excess => by omega
  simp only [Fits, weight, held, Level.weight_start, List.map_cons, List.sum_cons,
    List.length_cons, Phase.weight, Reader.Allows]
  unfold held at room
  change r.depth + _ + r.remaining ≤ r.limit
  omega

/-- The token of the name was taken, and pays for the level of a call. -/
theorem leads_nameOrFunction {name : String} (room : r.Allows (e.held + 1)) :
    Leads (e.nameOrFunction name) Fits False r := by
  refine Leads.atSymbol (fun opens => ?_) (Leads.pure ?_)
  · refine Leads.advance.bind fun _ after ⟨limit, depth, fewer, _⟩ _ => ?_
    unfold Reader.Allows at room
    refine Leads.atSymbol (fun closes => ?_) (leads_enter ?_)
    · refine Leads.advance.bind fun _ last ⟨limit', depth', fewer', _⟩ _ => Leads.pure ?_
      -- The name paid for the call, which has no argument to be higher.
      rw [fits_reach, Reader.Allows, Node.height_above]
      omega
    · unfold Reader.Allows
      omega
  · unfold Reader.Allows at room
    rw [fits_reach, Reader.Allows, Node.height_leaf]
    omega

theorem leads_atom (room : r.Allows e.held) : Leads e.atom Fits False r := by
  unfold Reader.Allows at room
  refine Leads.get (Leads.advance.bind fun _ after ⟨limit, depth, fewer, _⟩ spent => ?_)
  -- Most primaries are leaves, and add no height.
  have leaf (x : Expr) : (e.reach (.leaf x)).Fits after := by
    rw [fits_reach, Reader.Allows, Node.height_leaf]
    omega
  cases token : r.token with
  | number value => exact Leads.pure (leaf _)
  | string value quote => exact Leads.pure (leaf _)
  | word name =>
    have spent := spent (by simp [token])
    exact leads_nameOrFunction (by unfold Reader.Allows; omega)
  | keyword k spelling =>
    have spent := spent (by simp [token])
    refine Leads.ite (fun _ => Leads.pure (leaf _)) fun _ => ?_
    refine Leads.ite (fun _ => Leads.throw nofun) fun _ => ?_
    exact leads_nameOrFunction (by unfold Reader.Allows; omega)
  | bracketed name => exact Leads.ite (fun _ => Leads.throw nofun) fun _ => Leads.pure (leaf _)
  | bracketedKey name | wordKey name =>
    refine (calm_keyFrom _ _ after).bind fun key last ⟨limit', depth', fewer', _⟩ _ =>
      Leads.pure ?_
    rw [fits_reach, Reader.Allows, Node.height_leaf]
    omega
  | symbol s => exact Leads.throw nofun
  | endOfText => exact Leads.throw nofun

theorem leads_operandStep (room : r.Allows e.held) : Leads e.operandStep Fits False r := by
  have pending := e.levels_le
  have whole := room
  unfold Reader.Allows at room
  refine Leads.get ?_
  split
  · -- The token of an operator pays for its cost.
    rename_i operator leads
    have more : r.token ≠ .endOfText := by
      rintro ended
      rw [ended] at leads
      cases leads
    have here : 0 < r.remaining := by
      unfold Reader.remaining
      rw [if_neg more]
      omega
    refine Leads.checkHeight (fun _ => ?_) fun excess => by omega
    refine Leads.advance.bind fun _ after moved spent => Leads.pure ?_
    obtain ⟨limit, depth, _, _⟩ := moved
    have spent := spent more
    have cost : operator.cost = 1 := by
      unfold Operator.leading? at leads
      split at leads <;> cases leads <;> rfl
    rw [fits_await, Reader.Allows]
    omega
  refine Leads.ite (fun paren => ?_) fun _ => ?_
  · -- An opening bracket pays for the level it opens.
    refine Leads.advance.bind fun _ after moved spent => leads_enter ?_
    obtain ⟨limit, depth, _, _⟩ := moved
    have spent := spent (Token.ne_endOfText_of_isSymbol paren)
    unfold Reader.Allows
    omega
  refine Leads.ite (fun brace => ?_) fun _ => ?_
  · refine Leads.advance.bind fun _ after moved spent => ?_
    obtain ⟨limit, depth, _, _⟩ := moved
    have spent := spent (Token.ne_endOfText_of_isSymbol brace)
    refine Leads.atSymbol (fun closes => ?_) (leads_enter ?_)
    · refine Leads.advance.bind fun _ last left _ => Leads.pure ?_
      obtain ⟨limit', depth', fewer, _⟩ := left
      rw [fits_reach, Reader.Allows, Node.height_above]
      omega
    · unfold Reader.Allows
      omega
  refine Leads.ite (fun isCase => ?_) fun _ => ?_
  · refine Leads.advance.bind fun _ after moved spent => ?_
    obtain ⟨limit, depth, _, _⟩ := moved
    have spent := spent (Token.ne_endOfText_of_isKeyword isCase)
    refine Leads.atKeyword (fun tested => ?_) (leads_enter ?_)
    · refine Leads.advance.bind fun _ last left _ => leads_enter ?_
      obtain ⟨limit', depth', fewer, _⟩ := left
      unfold Reader.Allows
      omega
    · unfold Reader.Allows
      omega
  refine Leads.ite (fun isCast => ?_) fun _ => ?_
  · refine Leads.advance.bind fun _ after moved _ => ?_
    obtain ⟨limit, depth, fewer, _⟩ := moved
    refine Leads.expectClosing.bind fun _ last left spent => leads_enter ?_
    obtain ⟨limit', depth', _, _⟩ := left
    unfold Reader.Allows
    omega
  refine Leads.ite (fun gap => Leads.pure ?_) fun _ => leads_atom whole
  rw [fits_push]
  exact whole

/-- An access makes a tree at most one higher. -/
def Raises (receiver : Node) : Access → Prop
  | .reached next => next.height ≤ receiver.height + 1
  | .method _ => True

/-- A method takes its name and its parenthesis. -/
theorem leads_methodOr {receiver : Node} {name : String} {plain : ReadM Access}
    (h : Leads plain (fun access _ => Raises receiver access) False r) :
    Leads (methodOr receiver name plain) (fun access _ => Raises receiver access) False r := by
  refine Leads.atSymbol (fun opens => ?_) h
  refine Leads.advance.bind fun _ after _ _ => ?_
  refine Leads.atSymbol (fun closes => ?_) (Leads.pure trivial)
  exact Leads.advance.bind fun _ last _ _ => Leads.pure (Nat.le_refl _)

/-- A property is one higher than its receiver, and a longer identifier no higher. -/
theorem height_bracketedAccess {receiver next : Node} {name : String} {place : Position}
    (h : bracketedAccess receiver name place = .ok next) : next.height ≤ receiver.height + 1 := by
  unfold bracketedAccess at h
  split at h
  · cases h
  · cases h
    exact Nat.le_refl _
  · split at h <;> cases h
    · exact Nat.zero_le _
    · exact Nat.le_refl _

/-- A key makes a property, or an identifier longer. -/
theorem height_keyAccess {receiver next : Node} {key : Key} {place : Position}
    (h : keyAccess receiver key place = .ok next) : next.height ≤ receiver.height + 1 := by
  unfold keyAccess at h
  split at h <;> cases h
  · exact Nat.le_refl _
  · exact Nat.zero_le _
  · exact Nat.le_refl _

/-- The judgement does not look at the limit. -/
theorem shallow_bracketedAccess {receiver : Node} {name : String} {place : Position}
    {error : ReadError} (h : bracketedAccess receiver name place = .error error) :
    ∀ limit, error ≠ .tooDeep limit := by
  unfold bracketedAccess at h
  split at h
  · cases h
    nofun
  · cases h
  · split at h <;> cases h

theorem shallow_keyAccess {receiver : Node} {key : Key} {place : Position} {error : ReadError}
    (h : keyAccess receiver key place = .error error) : ∀ limit, error ≠ .tooDeep limit := by
  unfold keyAccess at h
  split at h <;> cases h
  nofun

theorem leads_memberAccess (receiver : Node) (r : Reader) :
    Leads (memberAccess receiver) (fun access _ => Raises receiver access) False r := by
  refine Leads.get (Leads.advance.bind fun _ after _ _ => ?_)
  cases r.token with
  | word name => exact leads_methodOr (Leads.pure (Nat.le_refl _))
  | keyword k spelling =>
    refine Leads.ite (fun _ => Leads.throw nofun) fun _ => ?_
    exact leads_methodOr (Leads.pure (Nat.le_refl _))
  | bracketed name =>
    refine Leads.ite (fun _ => Leads.throw nofun) fun _ => leads_methodOr ?_
    have judged : Leads (judge (bracketedAccess receiver name r.place))
        (fun next _ => next.height ≤ receiver.height + 1) False after :=
      Leads.judge (fun next found => height_bracketedAccess found) fun error found ⟨limit, same⟩ =>
        shallow_bracketedAccess found limit same
    exact judged.bind fun next last _ low => Leads.pure low
  | bracketedKey name | wordKey name =>
    refine (calm_keyFrom _ _ after).bind fun key last _ _ => ?_
    have judged : Leads (judge (keyAccess receiver key r.place))
        (fun next _ => next.height ≤ receiver.height + 1) False last :=
      Leads.judge (fun next found => height_keyAccess found) fun error found ⟨limit, same⟩ =>
        shallow_keyAccess found limit same
    exact judged.bind fun next final _ low => Leads.pure low
  | _ => exact Leads.throw nofun

/-- The dot that was taken pays for what it reaches. -/
theorem leads_accessStep {node : Node} (room : r.Allows (e.held + node.height)) :
    Leads (e.accessStep node) Fits False r := by
  have whole := room
  unfold Reader.Allows at room
  refine Leads.atSymbol (fun dot => ?_) ?_
  · -- The dot pays for one more unit of height, or for the level of a method.
    refine Leads.advance.bind fun _ after ⟨limit, depth, _, _⟩ spent => ?_
    have spent := spent (Token.ne_endOfText_of_isSymbol dot)
    refine (leads_memberAccess node after).bind
      fun access last ⟨limit', depth', fewer, _⟩ raises => ?_
    cases access with
    | reached next =>
      have low : next.height ≤ node.height + 1 := raises
      refine Leads.checkHeight (fun _ => Leads.pure ?_) fun excess => by omega
      rw [fits_reach, Reader.Allows]
      omega
    | method name =>
      refine leads_enter ?_
      unfold Reader.Allows
      omega
  · refine Leads.checkHeight (fun _ => Leads.pure ?_) fun excess => by omega
    rw [fits_push]
    exact whole

/-! ### Operators and ends -/

/-- The level on top weighs no more than before. -/
theorem held_mono {top : Level} (less : top.weight ≤ e.top.weight) :
    held { e with top } ≤ e.held := by
  unfold held
  simp only
  omega

/-- The operator was taken before, and pays for what it will add. -/
theorem leads_pushBinary {operator : Operator} (room : r.Allows (e.held + operator.cost)) :
    Leads (e.pushBinary operator) FitsOn False r := by
  have cost := operator.cost_pos
  unfold pushBinary
  unfold Reader.Allows at room
  split
  · rename_i top reduced
    have less := held_mono (Level.weight_of_level_reduce reduced)
    have pending := levels_le { e with top }
    have newest := top.newestHeight_le
    -- What is demanded here, the pending levels and the newest operand, are parts of the weight.
    have part : top.weight ≤ held { e with top } := by
      unfold held
      simp only
      omega
    refine Leads.checkHeight (fun _ => ?_) fun excess => by omega
    refine Leads.checkHeight (fun _ => Leads.pure ?_) fun excess => by omega
    change (Engine.await { e with top } operator).Fits r
    rw [fits_await, Reader.Allows]
    omega
  · exact Leads.failBreaking

/-- The test was taken before, and pays for itself. -/
theorem leads_pushTrailing {operator : Operator} (room : r.Allows (e.held + operator.cost)) :
    Leads (e.pushTrailing operator) FitsOn False r := by
  unfold pushTrailing
  unfold Reader.Allows at room
  split
  · rename_i top reduced
    have less := Level.weight_of_level_reduce reduced
    split
    · rename_i operands applied
      have cost := weight_of_apply applied
      have newest := Level.newestHeight_le { top with operands := operands }
      unfold held at room
      simp only [Level.weight, stackWeight] at less newest room
      refine Leads.checkHeight (fun _ => Leads.pure ?_) fun excess => ?_
      · simp only [FitsOn, Outcome.Holds, Fits, weight, held, Phase.weight, Reader.Allows,
          Level.weight, stackWeight]
        omega
      · omega
    · exact Leads.failBreaking
  · exact Leads.failBreaking

theorem leads_pushName (room : r.Allows (e.held + 1)) :
    Leads e.pushName FitsOn False r := by
  unfold Reader.Allows at room
  refine (calm_identifier r).bind fun name after ⟨limit, depth, fewer, _⟩ _ => ?_
  split
  · rename_i frame node operands operators height reduced
    -- The identifier behind `AS` adds no height, the call of `AS` one.
    have less := Level.weight_of_level_reduce reduced
    unfold held at room
    simp only [Level.weight, stackWeight, List.map_cons, List.sum_cons] at less room
    refine Leads.checkHeight (fun _ => Leads.pure ?_) fun excess => ?_
    · simp only [FitsOn, Outcome.Holds, Fits, weight, held, Phase.weight, Reader.Allows,
        Level.weight, stackWeight, List.map_cons, List.sum_cons, Node.height_above]
      omega
    · rw [Node.height_above] at excess
      omega
  · exact Leads.failBreaking

theorem leads_identityStep (room : r.Allows (e.held + 1)) :
    Leads e.identityStep FitsOn False r := by
  unfold Reader.Allows at room
  refine leads_nullTest.bind fun test after ⟨limit, depth, fewer, _⟩ tests => ?_
  cases test with
  | some operator =>
    have cheap : operator.cost = 1 := by
      obtain rfl | rfl | rfl | rfl := tests operator rfl <;> rfl
    refine Leads.advance.bind fun _ last ⟨limit', depth', fewer', _⟩ _ => leads_pushTrailing ?_
    rw [cheap, Reader.Allows]
    omega
  | none =>
    refine leads_pushBinary ?_
    change after.depth + (e.held + 1) + after.remaining ≤ after.limit
    omega

/-- `NOT IN` makes two calls, and has two tokens. -/
theorem leads_negationStep (room : r.Allows (e.held + 1)) :
    Leads e.negationStep FitsOn False r := by
  unfold Reader.Allows at room
  refine Leads.atKeyword (fun within => ?_) (Leads.atKeyword (fun matching => ?_)
    Leads.failExpecting)
  · refine Leads.advance.bind fun _ after ⟨limit, depth, _, _⟩ spent => leads_pushBinary ?_
    have spent := spent (Token.ne_endOfText_of_isKeyword within)
    change after.depth + (e.held + 2) + after.remaining ≤ after.limit
    omega
  · refine Leads.advance.bind fun _ after ⟨limit, depth, _, _⟩ spent => leads_pushBinary ?_
    have spent := spent (Token.ne_endOfText_of_isKeyword matching)
    change after.depth + (e.held + 2) + after.remaining ≤ after.limit
    omega

/-- What the levels around the innermost one hold. -/
def around (e : Engine) : Nat := (e.below.map Level.weight).sum + e.below.length

/-- What an engine holds is what its innermost level holds and what is around it. -/
theorem held_eq (e : Engine) : e.held = e.top.weight + e.around := by
  unfold held around
  omega

theorem fits_resume {frame : Frame} {height : Nat} :
    (e.resume frame height).Fits r ↔ r.Allows (height + e.around) := by
  unfold Fits weight
  rw [held_eq]
  rfl

/-- The level that is closed pays for the call it makes. -/
theorem leads_leave {node : Node} {height : Nat} (high : node.height ≤ height + 1)
    (room : r.Allows (height + e.around + 1)) : Leads (e.leave node) FitsOn False r := by
  unfold Reader.Allows at room
  refine Leads.checkHeight (fun _ => ?_) fun excess => by omega
  split
  · rename_i outer below levels
    -- The token that opened the level was counted in `around`, and is free again.
    refine Leads.note (Leads.pure ?_)
    simp only [around, levels, List.map_cons, List.sum_cons, List.length_cons] at room
    change r.depth + (outer.weight + (below.map Level.weight).sum + below.length + node.height) +
      r.remaining ≤ r.limit
    omega
  · exact Leads.failBreaking

/-- Brackets are at most one higher than what they hold. -/
theorem height_node (bracket : Bracket) (items : List Expr) (height : Nat) :
    (bracket.node items height).height ≤ height + 1 := by
  unfold Bracket.node
  split
  · exact Nat.le_succ _
  all_goals exact Nat.le_refl _

/-- The closing symbol was paid for when the level was entered. -/
theorem leads_closeItems {bracket : Bracket} {items : List Expr} {height : Nat}
    (room : r.Allows (height + e.around)) :
    Leads (e.closeItems bracket items height) FitsOn False r := by
  unfold Reader.Allows at room
  refine Leads.atSymbol (fun comma => ?_) ?_
  · refine Leads.advance.bind fun _ after ⟨limit, depth, fewer, _⟩ _ => Leads.pure ?_
    refine fits_resume.mpr ?_
    unfold Reader.Allows
    omega
  · refine Leads.expectClosing.bind fun _ after ⟨limit, depth, _, _⟩ spent => ?_
    refine leads_leave (height_node _ _ height) ?_
    unfold Reader.Allows
    omega

theorem leads_closeCast {x : Expr} {height : Nat} (room : r.Allows (height + e.around)) :
    Leads (e.closeCast x height) FitsOn False r := by
  unfold Reader.Allows at room
  refine Leads.atSymbol (fun comma => Leads.failBreaking) ?_
  refine Leads.expectKeyword.bind fun _ after ⟨limit, depth, _, _⟩ spent => ?_
  refine (calm_name after).bind fun type last ⟨limit', depth', fewer, _⟩ _ => ?_
  refine Leads.expectClosing.bind fun _ final ⟨limit'', depth'', fewer', _⟩ _ => ?_
  refine leads_leave (Nat.le_refl _) ?_
  unfold Reader.Allows
  omega

theorem leads_closeCase {operand : Option Expr} {branches : List (Expr × Expr)}
    {stage : CaseStage} {x : Expr} {height : Nat} (room : r.Allows (height + e.around)) :
    Leads (e.closeCase operand branches stage x height) FitsOn False r := by
  -- All but the end of a `CASE` go on with another stage, of the same height.
  have goesOn {frame : Frame} {after : Reader} (reached : r.Reaches after) :
      FitsOn (.more (e.resume frame height)) after := by
    obtain ⟨limit, depth, fewer, _⟩ := reached
    refine fits_resume.mpr ?_
    unfold Reader.Allows at room ⊢
    omega
  have ends {node : Node} {after : Reader} (high : node.height = height + 1)
      (reached : r.Reaches after) (spent : after.remaining < r.remaining) :
      Leads (e.leave node) FitsOn False after := by
    obtain ⟨limit, depth, _, _⟩ := reached
    refine leads_leave (Nat.le_of_eq high) ?_
    unfold Reader.Allows at room ⊢
    omega
  cases stage with
  | operand => exact Leads.expectKeyword.bind fun _ _ reached _ => Leads.pure (goesOn reached)
  | condition => exact Leads.expectKeyword.bind fun _ _ reached _ => Leads.pure (goesOn reached)
  | result condition =>
    refine Leads.atKeyword (fun _ => ?_) (Leads.atKeyword (fun _ => ?_)
      (Leads.atKeyword (fun isEnd => ?_) Leads.failExpecting))
    · exact Leads.advance.bind fun _ _ reached _ => Leads.pure (goesOn reached)
    · exact Leads.advance.bind fun _ _ reached _ => Leads.pure (goesOn reached)
    · exact Leads.advance.bind fun _ _ reached spent =>
        ends rfl reached (spent (Token.ne_endOfText_of_isKeyword isEnd))
  | otherwise => exact Leads.expectKeyword.bind fun _ _ reached spent => ends rfl reached spent

/-- What a level comes to weighs no more than the level did. -/
theorem leads_closeLevel (room : r.Allows e.held) : Leads e.closeLevel FitsOn False r := by
  unfold closeLevel
  rw [held_eq] at room
  split
  · rename_i node finished
    have high := Level.height_of_finish finished
    have room' : r.Allows (max e.top.height node.height + e.around) := by
      unfold Reader.Allows at room ⊢
      omega
    unfold Reader.Allows at room
    refine Leads.checkHeight (fun _ => ?_) fun excess => by omega
    unfold closeFrame
    split
    · exact Leads.pure trivial
    · exact leads_closeItems room'
    · exact leads_closeCast room'
    · exact leads_closeCase room'
  · exact Leads.failBreaking

/-- An operator is taken, or a level closed; there is room for either. -/
theorem leads_operatorStep (room : r.Allows e.held) :
    Leads e.operatorStep FitsOn False r := by
  have whole := room
  unfold Reader.Allows at room
  -- Whatever comes, its first token pays for one unit.
  have paid {after : Reader} (reached : r.Reaches after) (spent : after.remaining < r.remaining) :
      after.Allows (e.held + 1) := by
    obtain ⟨limit, depth, _, _⟩ := reached
    unfold Reader.Allows
    omega
  refine Leads.get (Leads.ite (fun is => ?_) fun _ => Leads.ite (fun negated => ?_) fun _ => ?_)
  · exact Leads.advance.bind fun _ _ reached spent =>
      leads_identityStep (paid reached (spent (Token.ne_endOfText_of_isKeyword is)))
  · exact Leads.advance.bind fun _ _ reached spent =>
      leads_negationStep (paid reached (spent (Token.ne_endOfText_of_isKeyword negated)))
  have more {operator : Operator} (found : Operator.following? r.token = some operator) :
      r.token ≠ .endOfText := by
    rintro ended
    rw [ended] at found
    cases found
  split
  · rename_i found
    refine Leads.ite (fun _ => leads_closeLevel whole) fun _ => ?_
    exact Leads.advance.bind fun _ _ reached spent =>
      leads_pushName (paid reached (spent (more found)))
  · rename_i operator other found
    have cheap : operator.cost = 1 := by
      unfold Operator.following? at found
      split at found <;> cases found <;> rfl
    refine Leads.advance.bind fun _ _ reached spent => leads_pushBinary ?_
    rw [cheap]
    exact paid reached (spent (more found))
  · exact leads_closeLevel whole

/-- **A step never weighs more than its tokens pay for**, and never hits the limit. -/
theorem leads_step (room : e.Fits r) : Leads e.step FitsOn False r := by
  unfold step
  unfold Fits weight at room
  cases phase : e.phase with
  | operand =>
    rw [phase] at room
    exact (leads_operandStep room).bind fun next after _ fits => Leads.pure fits
  | access node =>
    rw [phase] at room
    exact (leads_accessStep room).bind fun next after _ fits => Leads.pure fits
  | operator =>
    rw [phase] at room
    exact leads_operatorStep room

end Engine

/-! ### Expressions -/

/-- **A limit as great as the text is long is never hit.** -/
theorem leads_expression {text : String} {limit : Nat} {r : Reader}
    (start : Reader.ofText text limit = .ok r) (long : text.length ≤ limit) :
    Leads expression (fun _ _ => True) False r := by
  have short := Reader.remaining_of_ofText start
  have fits : Engine.start.Fits r := by
    change r.depth + 0 + r.remaining ≤ r.limit
    rw [Reader.limit_of_ofText start, Reader.depth_of_ofText start]
    omega
  have ran := Engine.leads_run (fun e r room => Engine.leads_step room) Engine.start r fits
  exact ran.bind fun _ _ _ _ => Leads.pure trivial

/-- **What recursive descent comes to is read**, where nothing is wrong with a text and the limit is
as great as the text is long. -/
theorem exists_expression_of_descent {text : String} {limit : Nat} {tokens : List Located}
    (scanned : tokensOf text = .ok tokens) (long : text.length ≤ limit) {x : Expr}
    {rest : List Token} (h : Descent.expr? false 0 (tokens.map Located.token) = some (x, rest)) :
    ∃ r after, Reader.ofText text limit = .ok r ∧ expression r = .ok x after ∧
      r.ahead = tokens ∧ after.tokens = rest ∧ r.Passes after := by
  obtain ⟨r, start, ahead, clean⟩ := Reader.exists_ofText limit scanned
  have yields := yields_expression r
  have shallow := leads_expression start long
  unfold Yields Means at yields
  unfold Leads at shallow
  rw [Reader.tokens, ahead] at yields
  cases found : expression r with
  | error e after =>
    rw [found] at yields shallow
    rcases yields clean with none | tooDeep
    · rw [none] at h
      cases h
    · -- The only other failure of a clean reading is the limit, and that is not hit.
      exact absurd tooDeep shallow
  | ok y after =>
    rw [found] at yields
    obtain ⟨same, passes⟩ := yields
    obtain ⟨rfl, left⟩ := Prod.mk.inj (Option.some.inj (same.trans h))
    exact ⟨r, after, start, found, ahead, left, passes⟩

/-- What recursive descent makes of the tokens of a text: an expression, and the number of tokens it
takes. -/
def Descent.parse (tokens : List Token) : Option (Expr × Nat) :=
  (expr? false 0 tokens).map fun (x, rest) => (x, tokens.length - rest.length)

/-- **The reading of an expression is recursive descent.**  Where nothing is wrong with a text and
the limit is as great as the text is long, the reading succeeds with a tree and stops at a token
exactly if recursive descent comes to that tree and that token. -/
theorem expression_iff_descent {text : String} {limit : Nat} {tokens : List Located}
    (scanned : tokensOf text = .ok tokens) (long : text.length ≤ limit) (x : Expr) (i : Nat) :
    (∃ r after, Reader.ofText text limit = .ok r ∧ expression r = .ok x after ∧
      after.ahead = tokens.drop i) ↔
    Descent.parse (tokens.map Located.token) = some (x, i) := by
  unfold Descent.parse
  constructor
  · rintro ⟨r, after, start, read, stopped⟩
    have ahead := (Reader.ahead_of_ofText start).trans (Feed.ahead_ofText scanned)
    have yields := yields_expression r
    unfold Yields Means at yields
    rw [read, Reader.tokens, ahead] at yields
    have left : after.tokens = (tokens.drop i).map Located.token := by
      unfold Reader.tokens
      rw [stopped]
    -- The token the reader stands at is ahead, so `i` is within the tokens.
    have within : i < tokens.length := by
      have nonempty : 0 < after.ahead.length := Nat.succ_pos _
      rw [stopped, List.length_drop] at nonempty
      omega
    rw [← yields.1, left]
    simp only [Option.map_some, List.length_map, List.length_drop, Option.some.injEq,
      Prod.mk.injEq, true_and]
    omega
  · intro parsed
    obtain ⟨⟨x', rest⟩, read, made⟩ := Option.map_eq_some_iff.mp parsed
    obtain ⟨rfl, rfl⟩ := Prod.mk.inj made
    obtain ⟨r, after, start, found, ahead, left, passes⟩ :=
      exists_expression_of_descent scanned long read
    refine ⟨r, after, start, found, ?_⟩
    -- What is ahead is the end of all tokens that is as long as the rest.
    have suffix := List.suffix_iff_eq_drop.mp passes.suffix
    rw [ahead] at suffix
    rw [suffix, ← left]
    simp [Reader.tokens]

/-- From the loosest to the tightest: a disjunction, a negation, a comparison, a sum, a product and a
sign.  Each of them takes what binds tighter, up to the last token. -/
theorem expression_iff_descent_strengths :
    ∃ r after, Reader.ofText "NOT 1+2*-3=4 OR 5" 17 = .ok r ∧
      expression r = .ok (.call .binary "OR" [
        .call .leading "NOT" [.call .binary "=" [
          .call .binary "+" [.number ⟨1, 0, by decide, by decide⟩,
            .call .binary "*" [.number ⟨2, 0, by decide, by decide⟩,
              .call .leading "-" [.number ⟨3, 0, by decide, by decide⟩]]],
          .number ⟨4, 0, by decide, by decide⟩]],
        .number ⟨5, 0, by decide, by decide⟩]) after ∧
      after.ahead = [⟨.endOfText, ⟨17, 1, 18⟩⟩] := by
  have scanned : tokensOf "NOT 1+2*-3=4 OR 5" = .ok [⟨.keyword .NOT "NOT", ⟨0, 1, 1⟩⟩,
      ⟨.number ⟨1, 0, by decide, by decide⟩, ⟨4, 1, 5⟩⟩, ⟨.symbol .plus, ⟨5, 1, 6⟩⟩,
      ⟨.number ⟨2, 0, by decide, by decide⟩, ⟨6, 1, 7⟩⟩, ⟨.symbol .star, ⟨7, 1, 8⟩⟩,
      ⟨.symbol .minus, ⟨8, 1, 9⟩⟩, ⟨.number ⟨3, 0, by decide, by decide⟩, ⟨9, 1, 10⟩⟩,
      ⟨.symbol .equal, ⟨10, 1, 11⟩⟩, ⟨.number ⟨4, 0, by decide, by decide⟩, ⟨11, 1, 12⟩⟩,
      ⟨.keyword .OR "OR", ⟨13, 1, 14⟩⟩, ⟨.number ⟨5, 0, by decide, by decide⟩, ⟨16, 1, 17⟩⟩,
      ⟨.endOfText, ⟨17, 1, 18⟩⟩] := by
    decide +kernel
  exact (expression_iff_descent scanned (by decide) _ 11).mpr (by cbv)

end MdxReader
