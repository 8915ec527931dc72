import MdxReader.Proofs.Quiet

/-!
# What the levels hold at most

The limit on nesting, less the depth of statements, is the room that an expression has.  Every
operand of a level, everything that its frame has collected and the operators that wait in it are
within that room, and so is the number of levels around it (`Engine.Bounded`).

Most of this is checked only once, where it comes into being.  An operand that is put together from
others is checked when it is the newest one, and those behind it were there before
(`tail_of_reduce`).  What a pair of braces or an empty argument list makes is not checked until it
is complete, but then its height is one.
-/

namespace MdxReader

open ReadM

/-! ### Readings with some room -/

namespace ReadM

variable {α β : Type} {room : Nat} {good : α → Prop}

/-- **Every result is `good`** where a reader has exactly this much room, and leaves it as it is. -/
def Bounds (room : Nat) (reading : ReadM α) (good : α → Prop) : Prop :=
  ∀ r a after, reading r = .ok a after → r.depth + room = r.limit →
    good a ∧ after.depth + room = after.limit

/-- The room is the same for the second reading. -/
theorem Bounds.bind {x : ReadM β} {f : β → ReadM α} {between : β → Prop}
    (first : Bounds room x between) (next : ∀ b, between b → Bounds room (f b) good) :
    Bounds room (x >>= f) good := by
  intro r a after found has
  obtain ⟨b, middle, read, rest⟩ := bind_eq_ok found
  obtain ⟨fine, has⟩ := first r b middle read has
  exact next b fine middle a after rest has

theorem Bounds.pure {a : α} (h : good a) : Bounds room (Pure.pure a) good := by
  rintro r _ _ ⟨⟩ has
  exact ⟨h, has⟩

theorem Bounds.throw (e : ReadError) : Bounds room (MonadExcept.throw e) good := by
  rintro r _ _ ⟨⟩

theorem Bounds.get {f : Reader → ReadM α} (h : ∀ r, Bounds room (f r) good) :
    Bounds room (MonadState.get >>= f) good := fun r => h r r

theorem Bounds.ite {c : Prop} [Decidable c] {x y : ReadM α} (yes : Bounds room x good)
    (no : Bounds room y good) : Bounds room (if c then x else y) good := by
  split
  · exact yes
  · exact no

theorem Bounds.atSymbol {s : Symbol} {x y : ReadM α} (there : Bounds room x good)
    (absent : Bounds room y good) :
    Bounds room (do if ← ReadM.atSymbol s then x else y) good := .get fun _ => .ite there absent

theorem Bounds.atKeyword {k : Keyword} {x y : ReadM α} (there : Bounds room x good)
    (absent : Bounds room y good) :
    Bounds room (do if ← ReadM.atKeyword k then x else y) good := .get fun _ => .ite there absent

theorem Bounds.failExpecting (expected : Expected) :
    Bounds room (ReadM.failExpecting expected) good := .get fun _ => .throw _

theorem Bounds.failBreaking (rule : Rule) : Bounds room (ReadM.failBreaking rule) good :=
  .get fun _ => .throw _

/-- What comes behind a reading that only moves on. -/
theorem Bounds.after {x : ReadM β} {f : β → ReadM α} (first : Quiet x)
    (next : ∀ b, Bounds room (f b) good) : Bounds room (x >>= f) good := by
  intro r a after found has
  obtain ⟨b, middle, read, rest⟩ := bind_eq_ok found
  have same := (first r).ok read
  exact next b middle a after rest (by rw [same.depth, same.limit, has])

/-- A height that is checked is within the room. -/
theorem Bounds.checkHeight {height : Nat} {f : Unit → ReadM α}
    (fits : height ≤ room → Bounds room (f ()) good) :
    Bounds room (ReadM.checkHeight height >>= f) good := by
  intro r a after found has
  obtain ⟨_, middle, checked, rest⟩ := bind_eq_ok found
  obtain rfl := eq_of_checkHeight checked
  refine fits ?_ middle a after rest has
  change (if middle.limit < middle.depth + height then _ else _ : ReadM Unit) middle = _ at checked
  split at checked
  · cases checked
  · omega

/-- An event takes no room. -/
theorem Bounds.note {event : LevelEvent} {f : Unit → ReadM α} (h : Bounds room (f ()) good) :
    Bounds room (ReadM.note event >>= f) good := fun r a after found has =>
  h { r with events := event :: r.events } a after found has

end ReadM

/-! ### Applying operators -/

/-- An operator makes one operand of the newest ones, and those behind it stay. -/
theorem tail_of_applied {operator : Operator} {nodes nodes' : List Node}
    (h : operator.applied? nodes = some nodes') : nodes'.tail <:+ nodes.tail := by
  unfold Operator.applied? at h
  split at h
  · cases h
    exact List.suffix_refl _
  · cases h
    exact List.suffix_refl _
  · simp only at h
    split at h
    · cases h
      exact List.suffix_cons _ _
    · cases h
      exact List.suffix_cons _ _
  · cases h

/-- Only the newest operand can be a new one, and no operator is. -/
theorem tail_of_reduce {q : Nat} {associativity : Associativity} {waiting waiting' : List Operator}
    {nodes nodes' : List Node}
    (h : reduce? q associativity waiting nodes = some (waiting', nodes')) :
    waiting' <:+ waiting ∧ nodes'.tail <:+ nodes.tail := by
  induction waiting generalizing nodes with
  | nil =>
    cases h
    exact ⟨List.suffix_refl _, List.suffix_refl _⟩
  | cons operator waiting ih =>
    unfold reduce? at h
    split at h
    · split at h
      · rename_i reduced applied
        obtain ⟨operators, tail⟩ := ih h
        exact ⟨operators.trans (List.suffix_cons _ _), tail.trans (tail_of_applied applied)⟩
      · cases h
    · cases h
      exact ⟨List.suffix_refl _, List.suffix_refl _⟩

/-! ### Bounded levels -/

namespace Level

/-- **Nothing in the level is higher than there is room for.** -/
structure Bounded (level : Level) (room : Nat) : Prop where
  height : level.height ≤ room
  operands : ∀ node ∈ level.operands, node.height ≤ room
  operators : level.operators.length ≤ room

variable {level level' : Level} {room : Nat}

/-- A level starts as high as what its frame has collected. -/
theorem bounded_start {height : Nat} (frame : Frame) (h : height ≤ room) :
    (start frame height).Bounded room := ⟨h, by nofun, Nat.zero_le _⟩

/-- An operand is pushed after its height was demanded. -/
theorem Bounded.push (h : level.Bounded room) {node : Node} (within : node.height ≤ room) :
    (level.push node).Bounded room :=
  ⟨h.height, List.forall_mem_cons.mpr ⟨within, h.operands⟩, h.operators⟩

/-- Operands whose newest one is within the room, in place of those that were. -/
theorem Bounded.replace (h : level.Bounded room) {nodes : List Node}
    (tail : nodes.tail <:+ level.operands.tail)
    (newest : { level with operands := nodes }.newestHeight ≤ room) :
    { level with operands := nodes }.Bounded room := by
  refine ⟨h.height, fun node mem => ?_, h.operators⟩
  cases nodes with
  | nil => cases mem
  | cons first rest =>
    rcases List.mem_cons.mp mem with rfl | mem
    · exact newest
    · exact h.operands node (List.mem_of_mem_tail (tail.subset mem))

/-- What is applied changes the newest operand only. -/
theorem tail_of_reduce {q : Nat} {associativity : Associativity}
    (h : level.reduce? q associativity = some level') :
    level'.height = level.height ∧ level'.operators <:+ level.operators ∧
      level'.operands.tail <:+ level.operands.tail := by
  unfold Level.reduce? at h
  obtain ⟨⟨waiting, nodes⟩, found, rfl⟩ := Option.map_eq_some_iff.mp h
  exact ⟨rfl, MdxReader.tail_of_reduce found⟩

/-- A level is within the room again once its newest operand is. -/
theorem Bounded.reduce (h : level.Bounded room) {q : Nat} {associativity : Associativity}
    (reduced : level.reduce? q associativity = some level') {nodes : List Node}
    (tail : nodes.tail <:+ level'.operands.tail)
    (newest : { level' with operands := nodes }.newestHeight ≤ room) :
    { level' with operands := nodes }.Bounded room := by
  obtain ⟨height, operators, operands⟩ := tail_of_reduce reduced
  have fewer : { level with operators := level'.operators }.Bounded room :=
    ⟨h.height, h.operands, Nat.le_trans operators.length_le h.operators⟩
  have replaced := fewer.replace (tail.trans operands) newest
  exact ⟨height ▸ h.height, replaced.operands, replaced.operators⟩

end Level

/-! ### Bounded engines -/

/-- The operand that waits for accesses is within the room, or has just one level. -/
def Phase.Bounded (room : Nat) : Phase → Prop
  | access node => node.height ≤ max room 1
  | _ => True

namespace Engine

/-- **Nothing in the engine is higher than there is room for**, nor are there more levels. -/
structure Bounded (e : Engine) (room : Nat) : Prop where
  levels : e.below.length ≤ room
  top : e.top.Bounded room
  below : ∀ level ∈ e.below, level.Bounded room
  phase : e.phase.Bounded room

/-- What a step leads to is within the room. -/
def BoundedOn (room : Nat) : Outcome → Prop
  | .more e => e.Bounded room
  | .done _ => True

variable {e : Engine} {room : Nat}

theorem bounded_start (room : Nat) : start.Bounded room :=
  ⟨Nat.zero_le _, Level.bounded_start _ (Nat.zero_le _), by nofun, trivial⟩

section Steps

variable (h : e.Bounded room)

include h

/-- A call without arguments is reached before its height is demanded. -/
theorem Bounded.reach {node : Node} (within : node.height ≤ max room 1) :
    (e.reach node).Bounded room := ⟨h.levels, h.top, h.below, within⟩

/-- Some trees have a height of one at most, before anything is checked. -/
theorem Bounded.reach_low {node : Node} (low : node.height ≤ 1) : (e.reach node).Bounded room :=
  h.reach (Nat.le_trans low (Nat.le_max_right _ _))

theorem Bounded.push {node : Node} (within : node.height ≤ room) : (e.push node).Bounded room :=
  ⟨h.levels, h.top.push within, h.below, trivial⟩

theorem Bounded.resume (frame : Frame) {height : Nat} (within : height ≤ room) :
    (e.resume frame height).Bounded room :=
  ⟨h.levels, Level.bounded_start _ within, h.below, trivial⟩

/-- The level counts as well, so what waits in it is fewer than the room. -/
theorem Bounded.await {operator : Operator}
    (pending : e.levels + e.top.operators.length ≤ room) : (e.await operator).Bounded room := by
  have one := e.levels_eq
  refine ⟨h.levels, ⟨h.top.height, h.top.operands, ?_⟩, h.below, trivial⟩
  change e.top.operators.length + 1 ≤ room
  omega

/-- A level that can be entered leaves room for at least one. -/
theorem bounds_enter (frame : Frame) {height : Nat} (within : height ≤ max room 1) :
    Bounds room (e.enter frame height) (Bounded · room) := by
  refine .checkHeight fun fits => .note (.pure ?_)
  have one := e.levels_eq
  refine ⟨?_, Level.bounded_start _ (by omega), List.forall_mem_cons.mpr ⟨h.top, h.below⟩, trivial⟩
  change e.below.length + 1 ≤ room
  omega

/-! ### Operands -/

/-- A name is a leaf, a call without arguments one high, and any other call opens a level. -/
theorem bounds_nameOrFunction (name : String) :
    Bounds room (e.nameOrFunction name) (Bounded · room) := by
  refine .atSymbol (.after .advance fun _ => .atSymbol ?_ ?_) (.pure (h.reach_low (Nat.zero_le _)))
  · exact .after .advance fun _ => .pure (h.reach_low (Nat.le_refl _))
  · exact bounds_enter h _ (Nat.zero_le _)

theorem bounds_atom : Bounds room e.atom (Bounded · room) := by
  have leaf {x : Expr} : (e.reach (.leaf x)).Bounded room := h.reach_low (Nat.zero_le _)
  refine .get fun r => .after .advance fun _ => ?_
  split
  · exact .pure leaf
  · exact .pure leaf
  · exact bounds_nameOrFunction h _
  · exact .ite (.pure leaf) (.ite (.throw _) (bounds_nameOrFunction h _))
  · exact .ite (.throw _) (.pure leaf)
  · exact .after (quiet_keyFrom _ _) fun _ => .pure leaf
  · exact .after (quiet_keyFrom _ _) fun _ => .pure leaf
  all_goals exact .throw _

/-- What an operand begins with is within the room, or a level is demanded for it. -/
theorem bounds_operandStep : Bounds room e.operandStep (Bounded · room) := by
  have enter (frame : Frame) : Bounds room (e.enter frame 0) (Bounded · room) :=
    bounds_enter h frame (Nat.zero_le _)
  refine .get fun r => ?_
  split
  · exact .checkHeight fun pending => .after .advance fun _ => .pure (h.await pending)
  refine .ite (.after .advance fun _ => enter _) (.ite ?_ (.ite ?_ (.ite ?_ ?_)))
  · refine .after .advance fun _ => .atSymbol ?_ (enter _)
    exact .after .advance fun _ => .pure (h.reach_low (Nat.le_refl _))
  · refine .after .advance fun _ => .atKeyword ?_ (enter _)
    exact .after .advance fun _ => enter _
  · exact .after .advance fun _ => .after (.expect _) fun _ => enter _
  · exact .ite (.pure (h.push (Nat.zero_le _))) (bounds_atom h)

/-! ### Accesses -/

/-- The height of what was reached is demanded before it is pushed. -/
theorem bounds_accessStep {node : Node} (low : node.height ≤ max room 1) :
    Bounds room (e.accessStep node) (Bounded · room) := by
  refine .atSymbol (.after .advance fun _ => .after (quiet_memberAccess _) fun access => ?_) ?_
  · cases access with
    | reached next => exact .checkHeight fun fits => .pure (h.reach (by omega))
    | method name => exact bounds_enter h _ low
  · exact .checkHeight fun fits => .pure (h.push fits)

/-! ### Operators -/

/-- What is folded was demanded, and so are the operators that wait. -/
theorem bounds_pushBinary (operator : Operator) :
    Bounds room (e.pushBinary operator) (BoundedOn room) := by
  unfold pushBinary
  split
  · rename_i top reduced
    refine .checkHeight fun fits => .checkHeight fun pending => .pure ?_
    have settled : Bounded { e with top } room :=
      ⟨h.levels, h.top.reduce reduced (List.suffix_refl _) fits, h.below, h.phase⟩
    exact settled.await pending
  · exact .failBreaking _

/-- The height of the test is demanded when it is applied. -/
theorem bounds_pushTrailing (operator : Operator) :
    Bounds room (e.pushTrailing operator) (BoundedOn room) := by
  unfold pushTrailing
  split
  · rename_i top reduced
    split
    · rename_i operands applied
      refine .checkHeight fun fits => .pure ?_
      exact ⟨h.levels, h.top.reduce reduced (tail_of_applied applied) fits, h.below, trivial⟩
    · exact .failBreaking _
  · exact .failBreaking _

theorem bounds_pushName : Bounds room e.pushName (BoundedOn room) := by
  refine .after quiet_identifier fun name => ?_
  split
  · rename_i reduced
    refine .checkHeight fun fits => .pure ?_
    exact ⟨h.levels, h.top.reduce reduced (List.suffix_refl _) fits, h.below, trivial⟩
  · exact .failBreaking _

theorem bounds_identityStep : Bounds room e.identityStep (BoundedOn room) := by
  refine .after quiet_nullTest fun test => ?_
  cases test with
  | some operator => exact .after .advance fun _ => bounds_pushTrailing h _
  | none => exact bounds_pushBinary h _

theorem bounds_negationStep : Bounds room e.negationStep (BoundedOn room) :=
  .atKeyword (.after .advance fun _ => bounds_pushBinary h _) <|
    .atKeyword (.after .advance fun _ => bounds_pushBinary h _) (.failExpecting _)

/-! ### The end of a level -/

/-- The height of what a level comes to is demanded when it is left. -/
theorem bounds_leave (node : Node) : Bounds room (e.leave node) (BoundedOn room) := by
  refine .checkHeight fun fits => ?_
  split
  · rename_i outer below levels
    obtain ⟨top, others⟩ := List.forall_mem_cons.mp (levels ▸ h.below)
    have fewer := h.levels
    rw [levels, List.length_cons] at fewer
    refine .note (.pure ⟨?_, top, others, ?_⟩)
    · change below.length ≤ room
      omega
    · exact Nat.le_trans fits (Nat.le_max_left _ _)
  · exact .failBreaking _

/-- The next item starts with the height of those before it. -/
theorem bounds_closeItems (bracket : Bracket) (items : List Expr) {height : Nat}
    (within : height ≤ room) : Bounds room (e.closeItems bracket items height) (BoundedOn room) :=
  .atSymbol (.after .advance fun _ => .pure (h.resume _ within))
    (.after (.expectClosing _ _) fun _ => bounds_leave h _)

theorem bounds_closeCast (x : Expr) (height : Nat) :
    Bounds room (e.closeCast x height) (BoundedOn room) :=
  .atSymbol (.failBreaking _) <|
    .after (.expectKeyword _) fun _ => .after quiet_name fun _ => .after (.expect _) fun _ =>
      bounds_leave h _

theorem bounds_closeCase (operand : Option Expr) (branches : List (Expr × Expr))
    (stage : CaseStage) (x : Expr) {height : Nat} (within : height ≤ room) :
    Bounds room (e.closeCase operand branches stage x height) (BoundedOn room) := by
  cases stage with
  | operand => exact .after (.expectKeyword _) fun _ => .pure (h.resume _ within)
  | condition => exact .after (.expectKeyword _) fun _ => .pure (h.resume _ within)
  | result condition =>
    refine .atKeyword ?_ (.atKeyword ?_ (.atKeyword ?_ (.failExpecting _)))
    · exact .after .advance fun _ => .pure (h.resume _ within)
    · exact .after .advance fun _ => .pure (h.resume _ within)
    · exact .after .advance fun _ => bounds_leave h _
  | otherwise => exact .after (.expectKeyword _) fun _ => bounds_leave h _

/-- The height of what was folded is demanded before the frame is closed. -/
theorem bounds_closeLevel : Bounds room e.closeLevel (BoundedOn room) := by
  unfold closeLevel
  split
  · rename_i node finished
    refine .checkHeight fun fits => ?_
    have within : max e.top.height node.height ≤ room := Nat.max_le.mpr ⟨h.top.height, fits⟩
    unfold closeFrame
    split
    · exact .pure trivial
    · exact bounds_closeItems h _ _ within
    · exact bounds_closeCast h _ _
    · exact bounds_closeCase h _ _ _ _ within
  · exact .failBreaking _

theorem bounds_operatorStep : Bounds room e.operatorStep (BoundedOn room) := by
  refine .get fun r => .ite (.after .advance fun _ => bounds_identityStep h)
    (.ite (.after .advance fun _ => bounds_negationStep h) ?_)
  split
  · exact .ite (bounds_closeLevel h) (.after .advance fun _ => bounds_pushName h)
  · exact .after .advance fun _ => bounds_pushBinary h _
  · exact bounds_closeLevel h

/-- **Every step stays within the room.** -/
theorem bounds_step : Bounds room e.step (BoundedOn room) := by
  unfold step
  cases phase : e.phase with
  | operand => exact .bind (bounds_operandStep h) fun _ next => .pure next
  | access node =>
    have low := h.phase
    rw [phase] at low
    exact .bind (bounds_accessStep h low) fun _ next => .pure next
  | operator => exact bounds_operatorStep h

end Steps

end Engine

end MdxReader
