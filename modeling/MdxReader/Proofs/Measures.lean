import MdxReader.Proofs.Height
import MdxReader.Proofs.Trees

/-!
# Recorded heights

An engine keeps the height of every operand beside its tree, and with every level the height of the
tallest part that its frame has collected, so that the limit can be checked without looking at a
tree again.  These records are never too great and never too small (`Engine.Measured`): every step
keeps them exact, whatever it reads (`Engine.measured_step`).
-/

namespace MdxReader

open ReadM

/-! ### Heights of trees -/

namespace Expr

/-- Two numbers with the same upper bounds are the same. -/
theorem eq_of_bounds {m n : Nat} (h : ∀ bound, m ≤ bound ↔ n ≤ bound) : m = n :=
  Nat.le_antisymm ((h n).mpr (Nat.le_refl n)) ((h m).mp (Nat.le_refl m))

/-- The items are collected newest first; their height does not depend on the order. -/
theorem heightAll_reverse (xs : List Expr) : heightAll xs.reverse = heightAll xs :=
  eq_of_bounds fun bound => by simp only [heightAll_le_iff, List.mem_reverse]

/-- The branches are collected newest first as well. -/
theorem heightBranches_reverse (branches : List (Expr × Expr)) :
    heightBranches branches.reverse = heightBranches branches :=
  eq_of_bounds fun bound => by simp only [heightBranches_le_iff, List.mem_reverse]

/-- A call is one higher than its arguments, unless it stands for one that was left out. -/
theorem height_call {form : CallForm} (present : form ≠ .elided) (name : String)
    (args : List Expr) : (call form name args).height = heightAll args + 1 := by
  rw [height, if_neg present]

end Expr

namespace Node

/-- The height of the tree is the one recorded. -/
def Measured (node : Node) : Prop := node.expr.height = node.height

/-- The height of what has no parts is 0, and that is how it is pushed. -/
theorem measured_leaf {x : Expr} (flat : x.height = 0) : (leaf x).Measured := flat

/-- A call is pushed with the height of its arguments and one more. -/
theorem measured_above {form : CallForm} {name : String} {args : List Expr} {height : Nat}
    (present : form ≠ .elided) (below : Expr.heightAll args = height) :
    (above (.call form name args) height).Measured := by
  unfold Measured above
  rw [Expr.height_call present, below]

/-- A `CASE` is as high as the highest of its parts, and one more. -/
theorem measured_choice {operand : Option Expr} {branches : List (Expr × Expr)}
    {otherwise : Option Expr} {height : Nat}
    (below : max (Expr.heightOption operand)
      (max (Expr.heightBranches branches) (Expr.heightOption otherwise)) = height) :
    (above (.choice operand branches otherwise) height).Measured := by
  unfold Measured above
  simp only [Expr.height, below]

end Node

/-- Applying an operator to measured nodes makes a measured node. -/
theorem measured_of_applied {operator : Operator} {nodes nodes' : List Node}
    (measured : ∀ node ∈ nodes, node.Measured) (h : operator.applied? nodes = some nodes') :
    ∀ node ∈ nodes', node.Measured := by
  unfold Operator.applied? at h
  split at h
  · cases h
    obtain ⟨first, others⟩ := List.forall_mem_cons.mp measured
    refine List.forall_mem_cons.mpr ⟨Node.measured_above (by decide) ?_, others⟩
    simp [Expr.heightAll, show _ = _ from first]
  · cases h
    obtain ⟨first, others⟩ := List.forall_mem_cons.mp measured
    refine List.forall_mem_cons.mpr ⟨Node.measured_above (by decide) ?_, others⟩
    simp [Expr.heightAll, show _ = _ from first]
  · rename_i right left rest between
    obtain ⟨rightMeasured, more⟩ := List.forall_mem_cons.mp measured
    obtain ⟨leftMeasured, others⟩ := List.forall_mem_cons.mp more
    have joined : (Node.above (.call .binary operator.symbol [left.expr, right.expr])
        (max left.height right.height)).Measured := by
      refine Node.measured_above (by decide) ?_
      simp [Expr.heightAll, show _ = _ from leftMeasured, show _ = _ from rightMeasured]
    simp only at h
    split at h
    · -- A negated operator is `NOT` around the call.
      cases h
      refine List.forall_mem_cons.mpr ⟨Node.measured_above (by decide) ?_, others⟩
      simp [Expr.heightAll, show _ = _ from joined]
    · cases h
      exact List.forall_mem_cons.mpr ⟨joined, others⟩
  · cases h

/-- Folding applies operators, so what it leaves has the heights it is pushed with. -/
theorem measured_of_reduce {q : Nat} {associativity : Associativity}
    {waiting waiting' : List Operator} {nodes nodes' : List Node}
    (measured : ∀ node ∈ nodes, node.Measured)
    (h : reduce? q associativity waiting nodes = some (waiting', nodes')) :
    ∀ node ∈ nodes', node.Measured := by
  induction waiting generalizing nodes with
  | nil =>
    cases h
    exact measured
  | cons operator waiting ih =>
    unfold reduce? at h
    split at h
    · split at h
      · rename_i reduced applied
        exact ih (measured_of_applied measured applied) h
      · cases h
    · cases h
      exact measured

/-! ### Frames and levels -/

/-- The height of the receiver, if the bracket has one. -/
def Bracket.height : Bracket → Nat
  | method receiver _ => receiver.height
  | _ => 0

/-- The height of the condition whose result is being read. -/
def CaseStage.height : CaseStage → Nat
  | result tested => tested.height
  | _ => 0

/-- The height of the tallest part that a frame has collected. -/
def Frame.height : Frame → Nat
  | whole | cast => 0
  | items bracket found => max bracket.height (Expr.heightAll found)
  | case operand branches stage =>
    max (Expr.heightOption operand) (max (Expr.heightBranches branches) stage.height)

/-- The operand of a `CASE` comes only once. -/
def Frame.Fresh : Frame → Prop
  | case operand _ .operand => operand = none
  | _ => True

/-- What a bracket makes of its items is as high as the tallest of them makes it. -/
theorem Bracket.measured_node {bracket : Bracket} {items : List Expr} {height : Nat}
    (below : max bracket.height (Expr.heightAll items) = height) :
    (bracket.node items height).Measured := by
  cases bracket with
  | parens =>
    change max 0 _ = height at below
    rw [Nat.zero_max] at below
    -- A single item in parentheses is itself; only more of them are a tuple.
    match items with
    | [x] =>
      rw [Expr.heightAll, Expr.heightAll, Nat.max_zero] at below
      exact below
    | [] => exact Node.measured_above (by decide) below
    | x :: y :: more => exact Node.measured_above (by decide) below
  | braces | function name =>
    change max 0 _ = height at below
    rw [Nat.zero_max] at below
    exact Node.measured_above (by decide) below
  | method receiver name =>
    refine Node.measured_above (by decide) ?_
    rw [Expr.heightAll]
    exact below

/-- **Every record of a level is exact.** -/
structure Level.Measured (level : Level) : Prop where
  frame : level.frame.height = level.height
  fresh : level.frame.Fresh
  operands : ∀ node ∈ level.operands, node.Measured

namespace Level

/-- A level starts with nothing on its stacks and the height of its frame. -/
theorem measured_start {frame : Frame} {height : Nat} (measured : frame.height = height)
    (fresh : frame.Fresh) : (start frame height).Measured := ⟨measured, fresh, by nofun⟩

theorem Measured.reduce {level level' : Level} {q : Nat} {associativity : Associativity}
    (h : level.Measured) (reduced : level.reduce? q associativity = some level') :
    level'.Measured := by
  unfold Level.reduce? at reduced
  obtain ⟨⟨waiting, nodes⟩, found, rfl⟩ := Option.map_eq_some_iff.mp reduced
  exact ⟨h.frame, h.fresh, measured_of_reduce h.operands found⟩

/-- What a level has come to has the height that is told to the level below. -/
theorem Measured.finish {level : Level} {node : Node} (h : level.Measured)
    (finished : level.finish? = some node) : node.Measured := by
  unfold finish? at finished
  split at finished
  · rename_i frame last operators height reduced
    cases finished
    exact (h.reduce reduced).operands node List.mem_cons_self
  · cases finished

end Level

/-! ### Engines -/

/-- The operand that waits for accesses is measured. -/
def Phase.Measured : Phase → Prop
  | access node => node.Measured
  | _ => True

namespace Engine

/-- **Every record of an engine is exact**: those of all its levels, and that of the operand behind
which accesses may follow. -/
structure Measured (e : Engine) : Prop where
  top : e.top.Measured
  below : ∀ level ∈ e.below, level.Measured
  phase : e.phase.Measured

/-- What a step leads to is measured. -/
def MeasuredOn : Outcome → Reader → Prop :=
  Outcome.Holds (fun e _ => e.Measured) fun node _ => node.Measured

variable {e : Engine} {r : Reader}

theorem measured_start : start.Measured :=
  ⟨Level.measured_start rfl trivial, by nofun, trivial⟩

theorem Measured.reach (h : e.Measured) {node : Node} (measured : node.Measured) :
    (e.reach node).Measured := ⟨h.top, h.below, measured⟩

theorem Measured.push (h : e.Measured) {node : Node} (measured : node.Measured) :
    (e.push node).Measured :=
  ⟨⟨h.top.frame, h.top.fresh, List.forall_mem_cons.mpr ⟨measured, h.top.operands⟩⟩, h.below,
    trivial⟩

theorem Measured.await (h : e.Measured) (operator : Operator) : (e.await operator).Measured :=
  ⟨⟨h.top.frame, h.top.fresh, h.top.operands⟩, h.below, trivial⟩

/-- A level that goes on has the height of what it has collected. -/
theorem Measured.resume (h : e.Measured) {frame : Frame} {height : Nat}
    (measured : frame.height = height) (fresh : frame.Fresh) : (e.resume frame height).Measured :=
  ⟨Level.measured_start measured fresh, h.below, trivial⟩

/-- A level is entered with the height of what was collected for it. -/
theorem measured_enter (h : e.Measured) {frame : Frame} {height : Nat}
    (measured : frame.height = height) (fresh : frame.Fresh) :
    Leads (e.enter frame height) (fun next _ => next.Measured) True r := by
  refine Leads.checkHeight (fun _ => Leads.note (Leads.pure ?_)) fun _ => trivial
  exact ⟨Level.measured_start measured fresh, List.forall_mem_cons.mpr ⟨h.top, h.below⟩, trivial⟩

/-! ### Operands -/

/-- A name is a leaf; a call opens a level. -/
theorem measured_nameOrFunction (h : e.Measured) (name : String) :
    Leads (e.nameOrFunction name) (fun next _ => next.Measured) True r := by
  refine Leads.atSymbol (fun _ => ?_) (Leads.pure (h.reach (Node.measured_leaf ?_)))
  · refine Leads.advance.bind fun _ _ _ _ => Leads.atSymbol (fun _ => ?_) ?_
    · refine Leads.advance.bind fun _ _ _ _ => Leads.pure (h.reach ?_)
      exact Node.measured_above (by decide) rfl
    · exact measured_enter h rfl trivial
  · simp [Expr.height]

theorem measured_atom (h : e.Measured) :
    Leads e.atom (fun next _ => next.Measured) True r := by
  have leaf {x : Expr} (flat : x.height = 0) : (e.reach (.leaf x)).Measured :=
    h.reach (Node.measured_leaf flat)
  have key (after : Reader) : Leads (do
      let key ← keyFrom r.place r.token
      return e.reach (.leaf (.identifier (.single (.key key))))) (fun next _ => next.Measured) True
      after :=
    ((calm_keyFrom _ _).leads fun _ _ _ => trivial).bind fun _ _ _ (_ : True) =>
      Leads.pure (leaf (by simp [Expr.height]))
  refine Leads.get (Leads.advance.bind fun _ after _ _ => ?_)
  split
  · exact Leads.pure (leaf (by simp [Expr.height]))
  · exact Leads.pure (leaf (by simp [Expr.height]))
  · exact measured_nameOrFunction h _
  · refine Leads.ite (fun _ => Leads.pure (leaf (by simp [Expr.height]))) fun _ => ?_
    exact Leads.ite (fun _ _ => trivial) fun _ => measured_nameOrFunction h _
  · refine Leads.ite (fun _ _ => trivial) fun _ => ?_
    exact Leads.pure (leaf (by simp [Expr.height]))
  · exact key after
  · exact key after
  all_goals exact fun _ => trivial

theorem measured_operandStep (h : e.Measured) :
    Leads e.operandStep (fun next _ => next.Measured) True r := by
  refine Leads.get ?_
  split
  · refine Leads.checkHeight (fun _ => ?_) fun _ => trivial
    exact Leads.advance.bind fun _ _ _ _ => Leads.pure (h.await _)
  refine Leads.ite (fun _ => ?_) fun _ => ?_
  · exact Leads.advance.bind fun _ _ _ _ => measured_enter h rfl trivial
  refine Leads.ite (fun _ => ?_) fun _ => ?_
  · refine Leads.advance.bind fun _ _ _ _ => Leads.atSymbol (fun _ => ?_)
      (measured_enter h rfl trivial)
    refine Leads.advance.bind fun _ _ _ _ => Leads.pure (h.reach ?_)
    exact Node.measured_above (by decide) rfl
  refine Leads.ite (fun _ => ?_) fun _ => ?_
  · refine Leads.advance.bind fun _ _ _ _ => Leads.atKeyword (fun _ => ?_)
      (measured_enter h rfl rfl)
    exact Leads.advance.bind fun _ _ _ _ => measured_enter h rfl trivial
  refine Leads.ite (fun _ => ?_) fun _ => ?_
  · refine Leads.advance.bind fun _ _ _ _ => Leads.expectClosing.bind fun _ _ _ _ => ?_
    exact measured_enter h rfl trivial
  exact Leads.ite (fun _ => Leads.pure (h.push (Node.measured_leaf height_elided))) fun _ =>
    measured_atom h

/-! ### Accesses -/

/-- What a dot leads to is measured, and no lower than what it was put behind. -/
def MeasuredAccess (receiver : Node) : Access → Prop
  | .reached next => next.Measured ∧ receiver.height ≤ next.height
  | .method _ => True

section Access

variable {receiver next : Node} (measured : receiver.Measured)

include measured

/-- A property is one higher than its receiver. -/
theorem measured_property {form : CallForm} (present : form ≠ .elided) (name : String) :
    (property form name receiver).Measured ∧
      receiver.height ≤ (property form name receiver).height := by
  refine ⟨Node.measured_above present ?_, Nat.le_succ _⟩
  simp [Expr.heightAll, show _ = _ from measured]

/-- An identifier stays one, so nothing is lost. -/
theorem measured_identifier {id : Identifier} (found : receiver.expr = .identifier id)
    (longer : Identifier) :
    (Node.leaf (.identifier longer)).Measured ∧
      receiver.height ≤ (Node.leaf (.identifier longer)).height := by
  have flat : receiver.height = 0 := by
    rw [← show _ = _ from measured, found]
    simp [Expr.height]
  exact ⟨Node.measured_leaf (by simp [Expr.height]), Nat.le_of_eq flat⟩

/-- A method's receiver is not counted before the method is closed. -/
theorem measured_methodOr {name : String} {plain : ReadM Access}
    (h : Leads plain (fun access _ => MeasuredAccess receiver access) True r) :
    Leads (methodOr receiver name plain) (fun access _ => MeasuredAccess receiver access) True
      r := by
  refine Leads.atSymbol (fun _ => ?_) h
  refine Leads.advance.bind fun _ _ _ _ => Leads.atSymbol (fun _ => ?_) (Leads.pure trivial)
  refine Leads.advance.bind fun _ _ _ _ => Leads.pure ⟨Node.measured_above (by decide) ?_, ?_⟩
  · simp [Expr.heightAll, height_elided, show _ = _ from measured]
  · exact Nat.le_succ _

/-- An identifier that grows stays a leaf, and a property is put on top. -/
theorem measured_bracketedAccess {name : String} {place : Position}
    (h : bracketedAccess receiver name place = .ok next) :
    next.Measured ∧ receiver.height ≤ next.height := by
  unfold bracketedAccess at h
  split at h
  · cases h
  · cases h
    exact measured_property measured (by decide) _
  · split at h
    · rename_i id found
      cases h
      exact measured_identifier measured found _
    · cases h
      exact measured_property measured (by decide) _

/-- A key only makes an identifier longer. -/
theorem measured_keyAccess {key : Key} {place : Position}
    (h : keyAccess receiver key place = .ok next) :
    next.Measured ∧ receiver.height ≤ next.height := by
  unfold keyAccess at h
  split at h
  · cases h
    exact measured_property measured (by decide) _
  · rename_i id found _
    cases h
    exact measured_identifier measured found _
  · cases h
    exact measured_property measured (by decide) _
  · cases h

/-- What is reached is at least as high as the receiver, and counted right. -/
theorem measured_memberAccess :
    Leads (memberAccess receiver) (fun access _ => MeasuredAccess receiver access) True r := by
  have key (after : Reader) : Leads (do
      let key ← keyFrom r.place r.token
      return Access.reached (← judge (keyAccess receiver key r.place)))
      (fun access _ => MeasuredAccess receiver access) True after := by
    refine ((calm_keyFrom _ _).leads fun _ _ _ => trivial).bind fun key last _ (_ : True) => ?_
    have judged : Leads (judge (keyAccess receiver key r.place))
        (fun next _ => next.Measured ∧ receiver.height ≤ next.height) True last :=
      Leads.judge (fun _ found => measured_keyAccess measured found) fun _ _ _ => trivial
    exact judged.bind fun _ _ _ fine => Leads.pure fine
  refine Leads.get (Leads.advance.bind fun _ after _ _ => ?_)
  split
  · exact measured_methodOr measured (Leads.pure (measured_property measured (by decide) _))
  · refine Leads.ite (fun _ _ => trivial) fun _ => ?_
    exact measured_methodOr measured (Leads.pure (measured_property measured (by decide) _))
  · refine Leads.ite (fun _ _ => trivial) fun _ => ?_
    rename_i name _ _
    have judged : Leads (judge (bracketedAccess receiver name r.place))
        (fun next _ => next.Measured ∧ receiver.height ≤ next.height) True after :=
      Leads.judge (fun _ found => measured_bracketedAccess measured found) fun _ _ _ => trivial
    exact measured_methodOr measured (judged.bind fun _ _ _ fine => Leads.pure fine)
  · exact key after
  · exact key after
  all_goals exact fun _ => trivial

/-- The height of what was reached is the one that is pushed. -/
theorem measured_accessStep (h : e.Measured) :
    Leads (e.accessStep receiver) (fun next _ => next.Measured) True r := by
  refine Leads.atSymbol (fun _ => ?_) ?_
  · refine Leads.advance.bind fun _ _ _ _ => ?_
    refine (measured_memberAccess measured).bind fun access _ _ fine => ?_
    cases access with
    | reached next =>
      exact Leads.checkHeight (fun _ => Leads.pure (h.reach fine.1)) fun _ => trivial
    | method name =>
      refine measured_enter h ?_ trivial
      rw [← show _ = _ from measured]
      simp [Frame.height, Bracket.height, Expr.heightAll]
  · exact Leads.checkHeight (fun _ => Leads.pure (h.push measured)) fun _ => trivial

end Access

/-! ### Operators -/

section Operators

variable (h : e.Measured)

include h

/-- Operators wait, so no height changes but by folding. -/
theorem measured_pushBinary (operator : Operator) :
    Leads (e.pushBinary operator) MeasuredOn True r := by
  unfold pushBinary
  split
  · rename_i top reduced
    refine Leads.checkHeight (fun _ => ?_) fun _ => trivial
    refine Leads.checkHeight (fun _ => Leads.pure ?_) fun _ => trivial
    have settled : Measured { e with top } := ⟨h.top.reduce reduced, h.below, h.phase⟩
    exact settled.await operator
  · exact Leads.failBreaking

/-- A test is put on top of its operand at once. -/
theorem measured_pushTrailing (operator : Operator) :
    Leads (e.pushTrailing operator) MeasuredOn True r := by
  unfold pushTrailing
  split
  · rename_i top reduced
    have settled := h.top.reduce reduced
    split
    · rename_i operands applied
      refine Leads.checkHeight (fun _ => Leads.pure ?_) fun _ => trivial
      exact ⟨⟨settled.frame, settled.fresh, measured_of_applied settled.operands applied⟩, h.below,
        trivial⟩
    · exact Leads.failBreaking
  · exact Leads.failBreaking

/-- `AS` and its name are put on top of all that was folded. -/
theorem measured_pushName : Leads e.pushName MeasuredOn True r := by
  refine (calm_identifier.leads fun _ _ _ => trivial).bind fun id _ _ (_ : True) => ?_
  split
  · rename_i frame node operands operators height reduced
    have settled := h.top.reduce reduced
    obtain ⟨first, others⟩ := List.forall_mem_cons.mp settled.operands
    refine Leads.checkHeight (fun _ => Leads.pure ?_) fun _ => trivial
    refine ⟨⟨settled.frame, settled.fresh, List.forall_mem_cons.mpr ⟨?_, others⟩⟩, h.below, trivial⟩
    -- An identifier is a leaf, so the height is that of what is named.
    refine Node.measured_above (by decide) ?_
    simp [Expr.heightAll, Expr.height, show _ = _ from first]
  · exact Leads.failBreaking

theorem measured_identityStep : Leads e.identityStep MeasuredOn True r := by
  refine leads_nullTest.bind fun found _ _ _ => ?_
  cases found with
  | some operator => exact Leads.advance.bind fun _ _ _ _ => measured_pushTrailing h operator
  | none => exact measured_pushBinary h _

theorem measured_negationStep : Leads e.negationStep MeasuredOn True r := by
  refine Leads.atKeyword (fun _ => ?_) (Leads.atKeyword (fun _ => ?_) Leads.failExpecting)
  · exact Leads.advance.bind fun _ _ _ _ => measured_pushBinary h _
  · exact Leads.advance.bind fun _ _ _ _ => measured_pushBinary h _

/-! ### The end of a level -/

/-- What was inside the brackets is an operand of the level below. -/
theorem measured_leave {node : Node} (measured : node.Measured) :
    Leads (e.leave node) MeasuredOn True r := by
  refine Leads.checkHeight (fun _ => ?_) fun _ => trivial
  split
  · rename_i outer others levels
    have below := h.below
    rw [levels] at below
    obtain ⟨top, rest⟩ := List.forall_mem_cons.mp below
    exact Leads.note (Leads.pure ⟨top, rest, measured⟩)
  · exact Leads.failBreaking

/-- The height of the items includes the one that ended last. -/
theorem measured_closeItems {bracket : Bracket} {items : List Expr} {height : Nat}
    (below : max bracket.height (Expr.heightAll items) = height) :
    Leads (e.closeItems bracket items height) MeasuredOn True r := by
  refine Leads.atSymbol (fun _ => ?_) ?_
  · exact Leads.advance.bind fun _ _ _ _ => Leads.pure (h.resume below trivial)
  · refine Leads.expectClosing.bind fun _ _ _ _ => ?_
    refine measured_leave h (Bracket.measured_node ?_)
    rw [Expr.heightAll_reverse]
    exact below

/-- The type name of a `CAST` has no height. -/
theorem measured_closeCast {x : Expr} : Leads (e.closeCast x x.height) MeasuredOn True r := by
  refine Leads.atSymbol (fun _ => Leads.failBreaking) ?_
  refine Leads.expectKeyword.bind fun _ _ _ _ => ?_
  refine (calm_name.leads fun _ _ _ => trivial).bind fun type _ _ (_ : True) => ?_
  refine Leads.expectClosing.bind fun _ _ _ _ => measured_leave h ?_
  refine Node.measured_above (by decide) ?_
  simp [Expr.heightAll, Expr.height]

/-- An expression inside a `CASE` counts among its parts, wherever in it it stands. -/
theorem measured_closeCase {operand : Option Expr} {branches : List (Expr × Expr)}
    {stage : CaseStage} {x : Expr} {height : Nat}
    (fresh : (Frame.case operand branches stage).Fresh)
    (below : max (Frame.case operand branches stage).height x.height = height) :
    Leads (e.closeCase operand branches stage x height) MeasuredOn True r := by
  cases stage with
  | operand =>
    obtain rfl : operand = none := fresh
    refine Leads.expectKeyword.bind fun _ _ _ _ => Leads.pure (h.resume ?_ trivial)
    simp only [Frame.height, CaseStage.height, Expr.heightOption] at below ⊢
    omega
  | condition =>
    refine Leads.expectKeyword.bind fun _ _ _ _ => Leads.pure (h.resume ?_ trivial)
    simp only [Frame.height, CaseStage.height] at below ⊢
    omega
  | result condition =>
    simp only [Frame.height, CaseStage.height] at below
    have longer (next : CaseStage) (flat : next.height = 0) :
        (Frame.case operand ((condition, x) :: branches) next).height = height := by
      simp only [Frame.height, Expr.heightBranches, flat]
      omega
    refine Leads.atKeyword (fun _ => ?_) (Leads.atKeyword (fun _ => ?_)
      (Leads.atKeyword (fun _ => ?_) Leads.failExpecting))
    · exact Leads.advance.bind fun _ _ _ _ => Leads.pure (h.resume (longer _ rfl) trivial)
    · exact Leads.advance.bind fun _ _ _ _ => Leads.pure (h.resume (longer _ rfl) trivial)
    · refine Leads.advance.bind fun _ _ _ _ => measured_leave h (Node.measured_choice ?_)
      rw [Expr.heightBranches_reverse]
      exact longer .condition rfl
  | otherwise =>
    refine Leads.expectKeyword.bind fun _ _ _ _ => measured_leave h (Node.measured_choice ?_)
    rw [Expr.heightBranches_reverse]
    simp only [Frame.height, CaseStage.height, Expr.heightOption] at below ⊢
    omega

/-- A level gives what it has come to, with its height, to its frame. -/
theorem measured_closeLevel : Leads e.closeLevel MeasuredOn True r := by
  unfold closeLevel
  split
  · rename_i node finished
    have measured : node.expr.height = node.height := h.top.finish finished
    have frame := h.top.frame
    have fresh := h.top.fresh
    refine Leads.checkHeight (fun _ => ?_) fun _ => trivial
    unfold closeFrame
    cases same : e.top.frame with
    | whole =>
      rw [same, Frame.height] at frame
      refine Leads.pure ?_
      change node.expr.height = max e.top.height node.height
      omega
    | items bracket items =>
      rw [same, Frame.height] at frame
      refine measured_closeItems h ?_
      rw [Expr.heightAll]
      omega
    | cast =>
      rw [same, Frame.height] at frame
      rw [← frame, Nat.zero_max, ← measured]
      exact measured_closeCast h
    | case operand branches stage =>
      rw [same] at frame fresh
      exact measured_closeCase h fresh (by rw [frame, measured])
  · exact Leads.failBreaking

theorem measured_operatorStep : Leads e.operatorStep MeasuredOn True r := by
  refine Leads.get (Leads.ite (fun _ => ?_) fun _ => Leads.ite (fun _ => ?_) fun _ => ?_)
  · exact Leads.advance.bind fun _ _ _ _ => measured_identityStep h
  · exact Leads.advance.bind fun _ _ _ _ => measured_negationStep h
  split
  · refine Leads.ite (fun _ => measured_closeLevel h) fun _ => ?_
    exact Leads.advance.bind fun _ _ _ _ => measured_pushName h
  · exact Leads.advance.bind fun _ _ _ _ => measured_pushBinary h _
  · exact measured_closeLevel h

end Operators

/-- **Every step keeps the records exact.** -/
theorem measured_step (h : e.Measured) : Leads e.step MeasuredOn True r := by
  unfold step
  cases phase : e.phase with
  | operand => exact (measured_operandStep h).bind fun _ _ _ fine => Leads.pure fine
  | access node =>
    have measured := h.phase
    rw [phase] at measured
    exact (measured_accessStep measured h).bind fun _ _ _ fine => Leads.pure fine
  | operator => exact measured_operatorStep h

end Engine

end MdxReader
