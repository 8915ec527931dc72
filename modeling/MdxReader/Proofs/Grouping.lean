import MdxReader.Proofs.Exactness
import MdxReader.Proofs.Stretches

/-!
# Parentheses that group

Parentheses around an expression make one more level, and nothing of the tree.  Reading the
expression inside them is a run with that level at the bottom of the stack (`Engine.grouped`), under
a limit that is one higher (`Reader.Roomier`).  A step without the level is carried over to one with
it (`Engine.carries_step`), since every demand on the nesting grows by one at most.  Where the
expression ends the frame of the parentheses hands back its one item, with its height.

An expression that was read is a stretch of tokens, and it is read as the same expression wherever
they stand (`ReadsAs`).  Parentheses around the stretch make one that needs a level more
(`ReadsAs.parenthesized`), so any number of them vanishes (`read_grouped`).
-/

namespace MdxReader

open ReadM

/-! ### Readers with more room -/

/-- The same is ahead of two readers, and the right one may go one level deeper. -/
structure Reader.Roomier (r r' : Reader) : Prop where
  token : r'.token = r.token
  place : r'.place = r.place
  feed : r'.feed = r.feed
  depth : r'.depth = r.depth
  limit : r'.limit = r.limit + 1

theorem Surroundings.proper_none (rest : List Token) (h : none = some rest) :
    (Descent.look rest).stops = true ∧ .endOfText ∈ rest := nomatch h

/-- A place that differs in nothing. -/
def Surroundings.still : Surroundings := ⟨0, none, proper_none⟩

/-- A reader with more room stands where the other one would under a higher limit. -/
theorem Reader.Roomier.beside {r r' : Reader} (h : r.Roomier r') :
    Surroundings.still.Beside (r.under (r.limit + 1)) r' :=
  ⟨⟨h.token, h.place, h.feed⟩, h.limit, h.depth⟩

namespace ReadM

variable {α β γ : Type} {image : α → Option β}

/-- **What the left reading succeeds with is carried over to the right one**, from readers with more
room to readers with more room.  Nothing is said of results without an image. -/
def Carries (image : α → Option β) (x : ReadM α) (x' : ReadM β) : Prop :=
  ∀ r r' : Reader, r.Roomier r' → ∀ a after, x r = .ok a after → ∀ b, image a = some b →
    ∃ after', x' r' = .ok b after' ∧ after.Roomier after'

theorem Carries.pure {a : α} {b : β} (h : image a = some b) :
    Carries image (Pure.pure a) (Pure.pure b) := by
  rintro r r' room _ _ ⟨⟩ c same
  rw [h] at same
  cases same
  exact ⟨r', rfl, room⟩

/-- Nothing is said of a reading that fails. -/
theorem Carries.throw (e : ReadError) (x' : ReadM β) :
    Carries image (MonadExcept.throw e) x' := by
  rintro r r' room _ _ ⟨⟩

theorem Carries.failExpecting (expected : Expected) (x' : ReadM β) :
    Carries image (ReadM.failExpecting expected) x' := by
  rintro r r' room _ _ ⟨⟩

theorem Carries.failBreaking (rule : Rule) (x' : ReadM β) :
    Carries image (ReadM.failBreaking rule) x' := by
  rintro r r' room _ _ ⟨⟩

/-- What both sides look at is the same token. -/
theorem Carries.get {f : Reader → ReadM α} {f' : Reader → ReadM β}
    (h : ∀ r r' : Reader, r.Roomier r' → Carries image (f r) (f' r')) :
    Carries image (MonadState.get >>= f) (MonadState.get >>= f') :=
  fun r r' room a after found => h r r' room r r' room a after found

/-- What the first reading comes to is carried over before the second one starts. -/
theorem Carries.bind {σ : Type} {change : σ → γ} {x : ReadM σ} {x' : ReadM γ} {f : σ → ReadM α}
    {f' : γ → ReadM β} (first : Carries (some ∘ change) x x')
    (next : ∀ s, Carries image (f s) (f' (change s))) :
    Carries image (x >>= f) (x' >>= f') := by
  intro r r' room a after found b same
  obtain ⟨s, between, read, rest⟩ := bind_eq_ok found
  obtain ⟨between', read', room'⟩ := first r r' room s between read _ rfl
  obtain ⟨after', rest', room''⟩ := next s between between' room' a after rest b same
  exact ⟨after', (bind_of_ok read').trans rest', room''⟩

/-- Readings that come to the same value are followed by what goes on with that value. -/
theorem Carries.andThen {x x' : ReadM γ} {f : γ → ReadM α} {f' : γ → ReadM β}
    (first : Carries some x x') (next : ∀ s, Carries image (f s) (f' s)) :
    Carries image (x >>= f) (x' >>= f') :=
  have same : Carries (some ∘ id) x x' := first
  Carries.bind same next

theorem Carries.ite {c : Prop} [Decidable c] {x y : ReadM α} {x' y' : ReadM β}
    (there : Carries image x x') (absent : Carries image y y') :
    Carries image (if c then x else y) (if c then x' else y') := by
  split
  · exact there
  · exact absent

/-- A reading that looks neither at the limit nor at the events. -/
theorem Carries.of_plain {hopeless : α → Prop} {x : ReadM α} (plain : Plain x)
    (agree : ∀ r r', Surroundings.still.Beside r r' →
      Surroundings.still.Agree hopeless (x r) (x r')) : Carries some x x := by
  rintro r r' room a after found _ ⟨⟩
  have again := (plain r a after found).2
  have limit : after.limit = r.limit := by
    have same := again r.limit
    rw [show r.under r.limit = r from rfl, found] at same
    rw [(EStateM.Result.ok.inj same).2]
    rfl
  have both := agree _ _ room.beside
  rw [again] at both
  generalize x r' = result at both ⊢
  cases both with
  | ok _ beside =>
    obtain ⟨token, place, feed⟩ := beside.ahead
    refine ⟨_, rfl, token, place, feed, beside.depth, ?_⟩
    rw [limit]
    exact beside.limit
  | lost follows _ _ => exact absurd rfl follows

theorem Carries.advance : Carries some ReadM.advance ReadM.advance :=
  Carries.of_plain Plain.advance fun _ _ h =>
    (h.cases.resolve_right fun past => past.follows rfl).advance

theorem Carries.atSymbol {s : Symbol} {x y : ReadM α} {x' y' : ReadM β}
    (there : Carries image x x') (absent : Carries image y y') :
    Carries image (do if ← ReadM.atSymbol s then x else y)
      (do if ← ReadM.atSymbol s then x' else y') :=
  Carries.get fun _ _ room => room.token ▸ Carries.ite there absent

theorem Carries.atKeyword {k : Keyword} {x y : ReadM α} {x' y' : ReadM β}
    (there : Carries image x x') (absent : Carries image y y') :
    Carries image (do if ← ReadM.atKeyword k then x else y)
      (do if ← ReadM.atKeyword k then x' else y') :=
  Carries.get fun _ _ room => room.token ▸ Carries.ite there absent

theorem Carries.expectClosing (s : Symbol) (expected : Expected) :
    Carries some (ReadM.expectClosing s expected) (ReadM.expectClosing s expected) :=
  Carries.atSymbol Carries.advance (Carries.failExpecting _ _)

theorem Carries.expectKeyword (k : Keyword) :
    Carries some (ReadM.expectKeyword k) (ReadM.expectKeyword k) :=
  Carries.atKeyword Carries.advance (Carries.failExpecting _ _)

/-- A demand that is one higher at most is met where there is room for one level more. -/
theorem Carries.checkHeight {height height' : ℕ} (le : height' ≤ height + 1) :
    Carries some (ReadM.checkHeight height) (ReadM.checkHeight height') := by
  rintro r r' room ⟨⟩ after found _ ⟨⟩
  have fits : ¬ r.limit < r.depth + height := by
    intro excess
    change (if r.limit < r.depth + height then _ else _ : ReadM Unit) r = _ at found
    rw [if_pos excess] at found
    cases found
  have depth := room.depth
  have limit := room.limit
  refine ⟨r', ?_, eq_of_checkHeight found ▸ room⟩
  change (if r'.limit < r'.depth + height' then _ else _ : ReadM Unit) r' = _
  rw [if_neg (by omega)]
  rfl

/-- Events are not compared, so different ones may be noted. -/
theorem Carries.note (event event' : LevelEvent) :
    Carries some (ReadM.note event) (ReadM.note event') := by
  rintro r r' room _ _ ⟨⟩ _ ⟨⟩
  exact ⟨_, rfl, room.token, room.place, room.feed, room.depth, room.limit⟩

theorem carries_name : Carries some name name :=
  Carries.of_plain plain_name fun _ _ => Surroundings.agree_name

theorem carries_keyFrom (place : Position) (first : Token) :
    Carries some (keyFrom place first) (keyFrom place first) :=
  Carries.of_plain (plain_keyFrom place first) fun _ _ =>
    Surroundings.agree_keyFrom first fun _ => rfl

theorem carries_identifier : Carries some identifier identifier :=
  Carries.of_plain plain_identifier fun _ _ => Surroundings.agree_identifier

end ReadM

/-! ### A level at the bottom -/

/-- What holds the whole expression holds an item of parentheses instead. -/
def Frame.grouped : Frame → Frame
  | whole => .items .parens []
  | frame => frame

namespace Level

/-- A level inside parentheses. -/
def grouped (level : Level) : Level := { level with frame := level.frame.grouped }

variable (level : Level)

/-- Parentheses around a whole expression accept no gap, and neither does the whole. -/
theorem acceptsGap_grouped : level.grouped.acceptsGap = level.acceptsGap := by
  have same : level.frame.grouped.hasArguments = level.frame.hasArguments := by
    cases level.frame <;> rfl
  unfold acceptsGap
  rw [← same]
  rfl

/-- The frame has no part in folding. -/
theorem reduce?_grouped (strength : ℕ) (associativity : Associativity) :
    level.grouped.reduce? strength associativity =
      (level.reduce? strength associativity).map grouped := by
  unfold Level.reduce?
  rw [Option.map_map]
  rfl

/-- What a level comes to does not depend on its frame. -/
theorem finish?_grouped : level.grouped.finish? = level.finish? := by
  unfold finish?
  rw [reduce?_grouped]
  cases level.reduce? 0 .left with
  | none => rfl
  | some reduced =>
    obtain ⟨frame, operands, operators, height⟩ := reduced
    obtain - | ⟨node, - | ⟨second, later⟩⟩ := operands <;> rfl

end Level

/-- **The engine inside parentheses**, with a whole expression around it that holds nothing yet. -/
def Engine.grouped (e : Engine) : Engine where
  top := e.top.grouped
  below := e.below.map Level.grouped ++ [.start .whole 0]
  phase := e.phase
  levels := e.levels + 1
  levels_eq := by simp [e.levels_eq]

/-- The outcome inside parentheses.  The end of the expression is not the end there. -/
def Outcome.grouped? : Outcome → Option Outcome
  | more e => some (more e.grouped)
  | done _ => none

namespace Engine

variable (e : Engine)

/-! ### Operands -/

/-- Inside parentheses there is one level more, and there is room for it. -/
theorem carries_checkPending :
    Carries some e.checkPending e.grouped.checkPending :=
  Carries.checkHeight (Nat.le_of_eq (Nat.add_right_comm _ _ _))

/-- The level is entered one deeper. -/
theorem carries_enter (frame : Frame) (height : ℕ) :
    Carries (some ∘ grouped) (e.enter frame height) (e.grouped.enter frame.grouped height) :=
  Carries.andThen (Carries.checkHeight (Nat.le_refl _)) fun _ =>
    Carries.andThen (Carries.note _ _) fun _ => Carries.pure rfl

theorem carries_nameOrFunction (name : String) :
    Carries (some ∘ grouped) (e.nameOrFunction name) (e.grouped.nameOrFunction name) := by
  refine Carries.atSymbol ?_ (Carries.pure rfl)
  refine Carries.andThen Carries.advance fun _ => Carries.atSymbol ?_ (e.carries_enter _ 0)
  exact Carries.andThen Carries.advance fun _ => Carries.pure rfl

theorem carries_atom : Carries (some ∘ grouped) e.atom e.grouped.atom := by
  refine Carries.get fun r r' room => Carries.andThen Carries.advance fun _ => ?_
  rw [room.token, room.place]
  cases r.token with
  | number value => exact Carries.pure rfl
  | string value quote => exact Carries.pure rfl
  | word name => exact e.carries_nameOrFunction name
  | keyword k spelling =>
    refine Carries.ite (Carries.pure rfl) (Carries.ite (Carries.throw _ _) ?_)
    exact e.carries_nameOrFunction spelling
  | bracketed name => exact Carries.ite (Carries.throw _ _) (Carries.pure rfl)
  | bracketedKey name =>
    exact Carries.andThen (carries_keyFrom _ _) fun _ => Carries.pure rfl
  | wordKey name =>
    exact Carries.andThen (carries_keyFrom _ _) fun _ => Carries.pure rfl
  | symbol s => exact Carries.throw _ _
  | endOfText => exact Carries.throw _ _

theorem carries_operandStep : Carries (some ∘ grouped) e.operandStep e.grouped.operandStep := by
  refine Carries.get fun r r' room => ?_
  rw [room.token]
  cases Operator.leading? r.token with
  | some operator =>
    refine Carries.andThen e.carries_checkPending fun _ => ?_
    exact Carries.andThen Carries.advance fun _ => Carries.pure rfl
  | none =>
    rw [show e.grouped.top.acceptsGap = e.top.acceptsGap from e.top.acceptsGap_grouped]
    refine Carries.ite ?_ (Carries.ite ?_ (Carries.ite ?_ (Carries.ite ?_ (Carries.ite ?_ ?_))))
    · exact Carries.andThen Carries.advance fun _ => e.carries_enter _ 0
    · refine Carries.andThen Carries.advance fun _ => Carries.atSymbol ?_ (e.carries_enter _ 0)
      exact Carries.andThen Carries.advance fun _ => Carries.pure rfl
    · refine Carries.andThen Carries.advance fun _ => Carries.atKeyword ?_ (e.carries_enter _ 0)
      exact Carries.andThen Carries.advance fun _ => e.carries_enter _ 0
    · refine Carries.andThen Carries.advance fun _ => ?_
      exact Carries.andThen (Carries.expectClosing _ _) fun _ => e.carries_enter _ 0
    · exact Carries.pure rfl
    · exact e.carries_atom

/-! ### Accesses -/

theorem carries_memberAccess (receiver : Node) :
    Carries some (memberAccess receiver) (memberAccess receiver) :=
  Carries.of_plain (plain_memberAccess receiver) fun _ _ => Surroundings.agree_memberAccess receiver

/-- What is demanded of the limit is met with more room. -/
theorem carries_accessStep (node : Node) :
    Carries (some ∘ grouped) (e.accessStep node) (e.grouped.accessStep node) := by
  refine Carries.atSymbol ?_ ?_
  · refine Carries.andThen Carries.advance fun _ => ?_
    refine Carries.andThen (carries_memberAccess node) fun access => ?_
    cases access with
    | reached next =>
      exact Carries.andThen (Carries.checkHeight (Nat.le_succ _)) fun _ => Carries.pure rfl
    | method name => exact e.carries_enter _ node.height
  · exact Carries.andThen (Carries.checkHeight (Nat.le_succ _)) fun _ => Carries.pure rfl

/-! ### Operators -/

/-- Operators do not end an expression, so every outcome has an image. -/
theorem carries_pushBinary (operator : Operator) :
    Carries Outcome.grouped? (e.pushBinary operator) (e.grouped.pushBinary operator) := by
  unfold pushBinary
  rw [show e.grouped.top = e.top.grouped from rfl, Level.reduce?_grouped]
  cases e.top.reduce? operator.strength operator.associativity with
  | some top =>
    refine Carries.andThen (Carries.checkHeight (Nat.le_succ _)) fun _ => ?_
    refine Carries.andThen (carries_checkPending { e with top }) fun _ => ?_
    exact Carries.pure rfl
  | none => exact Carries.failBreaking _ _

theorem carries_pushTrailing (operator : Operator) :
    Carries Outcome.grouped? (e.pushTrailing operator) (e.grouped.pushTrailing operator) := by
  unfold pushTrailing
  rw [show e.grouped.top = e.top.grouped from rfl, Level.reduce?_grouped]
  cases e.top.reduce? operator.strength .left with
  | some top =>
    simp only [Option.map_some]
    rw [show top.grouped.operands = top.operands from rfl]
    cases operator.applied? top.operands with
    | some operands =>
      exact Carries.andThen (Carries.checkHeight (Nat.le_succ _)) fun _ => Carries.pure rfl
    | none => exact Carries.failBreaking _ _
  | none => exact Carries.failBreaking _ _

theorem carries_pushName : Carries Outcome.grouped? e.pushName e.grouped.pushName := by
  refine Carries.andThen carries_identifier fun name => ?_
  rw [show e.grouped.top = e.top.grouped from rfl, Level.reduce?_grouped]
  cases e.top.reduce? Operator.named.strength .left with
  | some top =>
    obtain ⟨frame, operands, operators, height⟩ := top
    cases operands with
    | cons node operands =>
      exact Carries.andThen (Carries.checkHeight (Nat.le_succ _)) fun _ => Carries.pure rfl
    | nil => exact Carries.failBreaking _ _
  | none => exact Carries.failBreaking _ _

theorem carries_nullTest : Carries some nullTest nullTest :=
  Carries.of_plain plain_nullTest fun _ _ => Surroundings.agree_nullTest

theorem carries_identityStep :
    Carries Outcome.grouped? e.identityStep e.grouped.identityStep := by
  refine Carries.andThen carries_nullTest fun test => ?_
  cases test with
  | some operator =>
    exact Carries.andThen Carries.advance fun _ => e.carries_pushTrailing operator
  | none => exact e.carries_pushBinary _

theorem carries_negationStep :
    Carries Outcome.grouped? e.negationStep e.grouped.negationStep := by
  refine Carries.atKeyword ?_ (Carries.atKeyword ?_ (Carries.failExpecting _ _))
  · exact Carries.andThen Carries.advance fun _ => e.carries_pushBinary _
  · exact Carries.andThen Carries.advance fun _ => e.carries_pushBinary _

/-! ### The end of a level -/

/-- The level below is inside the parentheses as well, so it is not the one around them. -/
theorem carries_leave (node : Node) :
    Carries Outcome.grouped? (e.leave node) (e.grouped.leave node) := by
  obtain ⟨top, below, phase, levels, levels_eq⟩ := e
  cases below with
  | cons outer below =>
    subst levels_eq
    refine Carries.andThen (Carries.checkHeight (Nat.le_succ _)) fun _ => ?_
    exact Carries.andThen (Carries.note _ _) fun _ => Carries.pure rfl
  | nil =>
    exact Carries.andThen (Carries.checkHeight (Nat.le_succ _)) fun _ => Carries.failBreaking _ _

theorem carries_closeItems (bracket : Bracket) (items : List Expr) (height : ℕ) :
    Carries Outcome.grouped? (e.closeItems bracket items height)
      (e.grouped.closeItems bracket items height) := by
  refine Carries.atSymbol ?_ ?_
  · exact Carries.andThen Carries.advance fun _ => Carries.pure rfl
  · exact Carries.andThen (Carries.expectClosing _ _) fun _ => e.carries_leave _

theorem carries_closeCast (expr : Expr) (height : ℕ) :
    Carries Outcome.grouped? (e.closeCast expr height) (e.grouped.closeCast expr height) := by
  refine Carries.atSymbol (Carries.failBreaking _ _) ?_
  refine Carries.andThen (Carries.expectKeyword _) fun _ => ?_
  refine Carries.andThen carries_name fun type => ?_
  exact Carries.andThen (Carries.expectClosing _ _) fun _ => e.carries_leave _

theorem carries_closeCase (operand : Option Expr) (branches : List (Expr × Expr))
    (stage : CaseStage) (expr : Expr) (height : ℕ) :
    Carries Outcome.grouped? (e.closeCase operand branches stage expr height)
      (e.grouped.closeCase operand branches stage expr height) := by
  cases stage with
  | operand => exact Carries.andThen (Carries.expectKeyword _) fun _ => Carries.pure rfl
  | condition => exact Carries.andThen (Carries.expectKeyword _) fun _ => Carries.pure rfl
  | result condition =>
    refine Carries.atKeyword ?_ (Carries.atKeyword ?_ (Carries.atKeyword ?_ ?_))
    · exact Carries.andThen Carries.advance fun _ => Carries.pure rfl
    · exact Carries.andThen Carries.advance fun _ => Carries.pure rfl
    · exact Carries.andThen Carries.advance fun _ => e.carries_leave _
    · exact Carries.failExpecting _ _
  | otherwise => exact Carries.andThen (Carries.expectKeyword _) fun _ => e.carries_leave _

/-- The level of the whole expression ends with no image; all others close as they do alone. -/
theorem carries_closeLevel : Carries Outcome.grouped? e.closeLevel e.grouped.closeLevel := by
  unfold closeLevel
  rw [show e.grouped.top = e.top.grouped from rfl, Level.finish?_grouped]
  cases e.top.finish? with
  | some node =>
    refine Carries.andThen (Carries.checkHeight (Nat.le_succ _)) fun _ => ?_
    unfold closeFrame
    rw [show e.grouped.top.frame = e.top.frame.grouped from rfl]
    cases e.top.frame with
    | whole =>
      -- The whole expression ends, which is not the end inside the parentheses.
      rintro r r' room _ _ ⟨⟩ _ ⟨⟩
    | items bracket items => exact e.carries_closeItems bracket _ _
    | cast => exact e.carries_closeCast _ _
    | case operand branches stage => exact e.carries_closeCase operand branches stage _ _
  | none => exact Carries.failBreaking _ _

/-- Parentheses do not make `AS` part of a `CAST`. -/
theorem expectsType_grouped : e.grouped.expectsType = e.expectsType := by
  obtain ⟨⟨frame, operands, operators, height⟩, below, phase, levels, levels_eq⟩ := e
  cases frame <;> rfl

theorem carries_operatorStep :
    Carries Outcome.grouped? e.operatorStep e.grouped.operatorStep := by
  refine Carries.get fun r r' room => ?_
  rw [room.token]
  refine Carries.ite ?_ (Carries.ite ?_ ?_)
  · exact Carries.andThen Carries.advance fun _ => e.carries_identityStep
  · exact Carries.andThen Carries.advance fun _ => e.carries_negationStep
  · rw [e.expectsType_grouped]
    split
    · refine Carries.ite e.carries_closeLevel ?_
      exact Carries.andThen Carries.advance fun _ => e.carries_pushName
    · exact Carries.andThen Carries.advance fun _ => e.carries_pushBinary _
    · exact e.carries_closeLevel

/-- **Every step is carried over into the parentheses**, except the one that ends the expression. -/
theorem carries_step : Carries Outcome.grouped? e.step e.grouped.step := by
  unfold step
  rw [show e.grouped.phase = e.phase from rfl]
  cases e.phase with
  | operand => exact Carries.bind e.carries_operandStep fun _ => Carries.pure rfl
  | access node => exact Carries.bind (e.carries_accessStep node) fun _ => Carries.pure rfl
  | operator => exact e.carries_operatorStep

/-! ### The end of the expression -/

variable {e} {r r' after : Reader} {node : Node}

/-- A step ends the expression: the outermost level is complete, what it comes to is within the
limit, and the reader stays where it is. -/
structure Ending (e : Engine) (r : Reader) (node : Node) (after : Reader) : Prop where
  phase : e.phase = .operator
  frame : e.top.frame = .whole
  here : after = r
  finished : ∃ last, e.top.finish? = some last ∧ r.depth + last.height ≤ r.limit ∧
    node = ⟨last.expr, max e.top.height last.height⟩

/-- What a step leads to that does not end the expression. -/
def GoesOn : Outcome → Reader → Prop := Outcome.Holds (fun _ _ => True) fun _ _ => False

theorem goesOn_pushBinary (operator : Operator) : Leads (e.pushBinary operator) GoesOn True r := by
  unfold pushBinary
  split
  · refine Leads.checkHeight (fun _ => ?_) fun _ => trivial
    exact Leads.checkHeight (fun _ => Leads.pure trivial) fun _ => trivial
  · exact Leads.failBreaking

theorem goesOn_pushTrailing (operator : Operator) :
    Leads (e.pushTrailing operator) GoesOn True r := by
  unfold pushTrailing
  split
  · split
    · exact Leads.checkHeight (fun _ => Leads.pure trivial) fun _ => trivial
    · exact Leads.failBreaking
  · exact Leads.failBreaking

theorem goesOn_pushName : Leads e.pushName GoesOn True r := by
  refine (calm_identifier.leads fun _ _ _ => trivial).bind fun _ after _ (_ : True) => ?_
  split
  · exact Leads.checkHeight (fun _ => Leads.pure trivial) fun _ => trivial
  · exact Leads.failBreaking

theorem goesOn_identityStep : Leads e.identityStep GoesOn True r := by
  refine leads_nullTest.bind fun test _ _ _ => ?_
  cases test with
  | some operator => exact Leads.advance.bind fun _ _ _ _ => goesOn_pushTrailing operator
  | none => exact goesOn_pushBinary _

theorem goesOn_negationStep : Leads e.negationStep GoesOn True r := by
  refine Leads.atKeyword (fun _ => ?_) (Leads.atKeyword (fun _ => ?_) Leads.failExpecting)
  · exact Leads.advance.bind fun _ _ _ _ => goesOn_pushBinary _
  · exact Leads.advance.bind fun _ _ _ _ => goesOn_pushBinary _

/-- There is a level below that goes on. -/
theorem goesOn_leave (node : Node) : Leads (e.leave node) GoesOn True r := by
  refine Leads.checkHeight (fun _ => ?_) fun _ => trivial
  split
  · exact Leads.note (Leads.pure trivial)
  · exact Leads.failBreaking

/-- A comma goes on with the level, and the closing symbol with the one below. -/
theorem goesOn_closeItems (bracket : Bracket) (items : List Expr) (height : ℕ) :
    Leads (e.closeItems bracket items height) GoesOn True r := by
  refine Leads.atSymbol (fun _ => ?_) ?_
  · exact Leads.advance.bind fun _ _ _ _ => Leads.pure trivial
  · exact Leads.expectClosing.bind fun _ _ _ _ => goesOn_leave _

theorem goesOn_closeCast (expr : Expr) (height : ℕ) :
    Leads (e.closeCast expr height) GoesOn True r := by
  refine Leads.atSymbol (fun _ => Leads.failBreaking) (Leads.expectKeyword.bind fun _ _ _ _ => ?_)
  refine (calm_name.leads fun _ _ _ => trivial).bind fun type _ _ (_ : True) => ?_
  exact Leads.expectClosing.bind fun _ _ _ _ => goesOn_leave _

theorem goesOn_closeCase (operand : Option Expr) (branches : List (Expr × Expr))
    (stage : CaseStage) (expr : Expr) (height : ℕ) :
    Leads (e.closeCase operand branches stage expr height) GoesOn True r := by
  cases stage with
  | operand => exact Leads.expectKeyword.bind fun _ _ _ _ => Leads.pure trivial
  | condition => exact Leads.expectKeyword.bind fun _ _ _ _ => Leads.pure trivial
  | result condition =>
    refine Leads.atKeyword (fun _ => ?_) (Leads.atKeyword (fun _ => ?_)
      (Leads.atKeyword (fun _ => ?_) Leads.failExpecting))
    · exact Leads.advance.bind fun _ _ _ _ => Leads.pure trivial
    · exact Leads.advance.bind fun _ _ _ _ => Leads.pure trivial
    · exact Leads.advance.bind fun _ _ _ _ => goesOn_leave _
  | otherwise => exact Leads.expectKeyword.bind fun _ _ _ _ => goesOn_leave _

/-- What goes on does not end, so anything can be said of its end. -/
theorem holds_of_goesOn {good : Node → Reader → Prop} {reading : ReadM Outcome}
    (h : Leads reading GoesOn True r) :
    Leads reading (Outcome.Holds (fun _ _ => True) good) True r := by
  refine h.mono fun outcome after _ holds => ?_
  cases outcome with
  | more next => trivial
  | done node => exact holds.elim

/-- Only the level of the whole expression ends a run. -/
theorem ending_closeLevel (phase : e.phase = .operator) :
    Leads e.closeLevel (Outcome.Holds (fun _ _ => True) (e.Ending r)) True r := by
  unfold closeLevel
  cases finished : e.top.finish? with
  | none => exact Leads.failBreaking
  | some last =>
    refine Leads.checkHeight (fun fits => ?_) fun _ => trivial
    unfold closeFrame
    cases frame : e.top.frame with
    | whole => exact Leads.pure ⟨phase, frame, rfl, last, finished, fits, rfl⟩
    | items bracket items => exact holds_of_goesOn (goesOn_closeItems bracket _ _)
    | cast => exact holds_of_goesOn (goesOn_closeCast _ _)
    | case operand branches stage =>
      exact holds_of_goesOn (goesOn_closeCase operand branches stage _ _)

/-- An operator never ends a run, so it is the end of a level. -/
theorem ending_operatorStep (phase : e.phase = .operator) :
    Leads e.operatorStep (Outcome.Holds (fun _ _ => True) (e.Ending r)) True r := by
  have close := ending_closeLevel (r := r) phase
  refine Leads.get (Leads.ite (fun _ => ?_) fun _ => Leads.ite (fun _ => ?_) fun _ => ?_)
  · exact Leads.advance.bind fun _ _ _ _ => holds_of_goesOn goesOn_identityStep
  · exact Leads.advance.bind fun _ _ _ _ => holds_of_goesOn goesOn_negationStep
  split
  · refine Leads.ite (fun _ => close) fun _ => ?_
    exact Leads.advance.bind fun _ _ _ _ => holds_of_goesOn goesOn_pushName
  · exact Leads.advance.bind fun _ _ _ _ => holds_of_goesOn (goesOn_pushBinary _)
  · exact close

/-- **An expression ends in one way only**: its outermost level is closed. -/
theorem ending_of_step (h : e.step r = .ok (.done node) after) : e.Ending r node after := by
  unfold step at h
  cases phase : e.phase with
  | operand =>
    rw [phase] at h
    obtain ⟨_, _, _, made⟩ := bind_eq_ok h
    cases made
  | access operand =>
    rw [phase] at h
    obtain ⟨_, _, _, made⟩ := bind_eq_ok h
    cases made
  | operator =>
    rw [phase] at h
    exact ((ending_operatorStep phase).ok h).2

/-- The outermost level is left for the one around the parentheses. -/
theorem leave_grouped {past : Reader} (alone : e.below = [])
    (fits : past.depth + node.height ≤ past.limit) :
    ∃ events, e.grouped.leave node past =
      .ok (.more (start.reach node)) { past with events := events } := by
  obtain ⟨top, below, phase, levels, levels_eq⟩ := e
  subst alone levels_eq
  exact ⟨_, bind_of_ok (checkHeight_of_le fits)⟩

/-- **The parentheses hand back their one item**, as high as it is: where the expression would end,
the whole expression outside has it as its operand. -/
theorem step_grouped_of_ending {past : Reader} (ending : e.Ending r node after)
    (balanced : e.Balanced) (measured : e.Measured) (room : r.Roomier r')
    (closes : after.token = .symbol .closeParen) (moved : advance after = .ok () past) :
    ∃ past', e.grouped.step r' = .ok (.more (start.reach node)) past' ∧ past.Roomier past' ∧
      past'.depth + node.height ≤ past'.limit := by
  obtain ⟨phase, frame, rfl, last, finished, fits, made⟩ := ending
  have alone : e.below = [] := by
    have enclosed := balanced.enclosed
    rwa [frame, Enclosed] at enclosed
  have flat : e.top.height = 0 := by
    have height := measured.top.frame
    rw [frame] at height
    exact height.symm
  rw [flat, Nat.zero_max] at made
  obtain rfl : node = last := made
  obtain ⟨past', moved', room'⟩ := Carries.advance after r' room () past moved () rfl
  have reached := reaches_of_advance moved'
  have token : r'.token = .symbol .closeParen := room.token.trans closes
  have fits' : r'.depth + node.height ≤ r'.limit := by
    rw [room.depth, room.limit]
    omega
  have still : past'.depth + node.height ≤ past'.limit := by
    rw [reached.depth, reached.limit]
    exact fits'
  obtain ⟨events, left⟩ := leave_grouped alone still
  have closed : e.grouped.closeItems .parens [node.expr] node.height r' =
      .ok (.more (start.reach node)) { past' with events := events } := by
    have closing : expectClosing .closeParen (.commaOr .closeParen) r' = .ok () past' := by
      change (if r'.token.isSymbol .closeParen = true then advance else _ : ReadM Unit) r' = _
      rw [token]
      exact moved'
    unfold closeItems
    rw [atSymbol_of_ne (by rw [token]; rfl)]
    exact (bind_of_ok closing).trans left
  refine ⟨{ past' with events := events }, ?_, ⟨room'.token, room'.place, room'.feed,
    room'.depth, room'.limit⟩, still⟩
  unfold step operatorStep
  rw [show e.grouped.phase = .operator from phase]
  simp only
  rw [bind_get, token]
  change e.grouped.closeLevel r' = _
  unfold closeLevel
  rw [show e.grouped.top.finish? = some node from e.top.finish?_grouped.trans finished]
  refine (bind_of_ok (checkHeight_of_le fits')).trans ?_
  unfold closeFrame
  rw [show e.grouped.top.frame = .items .parens [] from congrArg Frame.grouped frame,
    show e.grouped.top.height = 0 from flat, Nat.zero_max]
  exact closed

/-- **A run is carried over into parentheses.**  It comes to the operand of what is outside, behind
the closing parenthesis. -/
theorem exists_run_grouped {past : Reader} (found : e.run r = .ok node after)
    (balanced : e.Balanced) (measured : e.Measured) (room : r.Roomier r')
    (closes : after.token = .symbol .closeParen) (moved : advance after = .ok () past) :
    ∃ past', e.grouped.run r' = (start.reach node).run past' ∧ past.Roomier past' ∧
      past'.depth + node.height ≤ past'.limit := by
  -- The measure of the engine falls with every step of the left run.
  induction bound : e.measure r using Nat.strongRecOn generalizing e r r' with
  | _ n ih =>
    rw [run_apply] at found
    cases stepped : e.step r with
    | error fault last =>
      rw [stepped] at found
      cases found
    | ok outcome between =>
      rw [stepped] at found
      cases outcome with
      | done last =>
        cases found
        obtain ⟨past', step, room', fits⟩ := step_grouped_of_ending (ending_of_step stepped)
          balanced measured room closes moved
        refine ⟨past', ?_, room', fits⟩
        rw [run_apply, step]
      | more next =>
        have kept : Safe anywhere True e.step Outcome.Balanced := safe_step balanced
        have later := ((kept r trivial).ok stepped).1
        have exactly := ((measured_step measured).ok stepped).2
        obtain ⟨between', step, room'⟩ :=
          e.carries_step r r' room (.more next) between stepped _ rfl
        rw [run_apply, step]
        exact ih _ (bound ▸ measure_lt stepped) found later exactly room' rfl

end Engine

/-! ### Stretches in parentheses -/

/-- The tokens in parentheses. -/
def parenthesized (ts : List Token) : List Token :=
  .symbol .openParen :: (ts ++ [.symbol .closeParen])

/-- **Parentheses around a stretch need one level more**, and leave its expression as it is. -/
theorem ReadsAs.parenthesized {ts : List Token} {x : Expr} {limit depth : ℕ}
    (h : ReadsAs ts x limit depth) (room : depth ≤ limit) :
    ReadsAs (parenthesized ts) x (limit + 1) depth := by
  intro r rest ahead stops clean limited deep
  have inner : r.tokens = .symbol .openParen :: (ts ++ .symbol .closeParen :: rest) := by
    rw [ahead]
    simp [MdxReader.parenthesized]
  have closing : Token.endOfText ∈ .symbol .closeParen :: rest := List.mem_cons_of_mem _ clean
  obtain ⟨between, opened, left, reached⟩ :=
    exists_advance_of_tokens inner nofun (List.mem_append_right ts closing)
  -- The run without parentheses has one level less to spare.
  have alone : (between.under limit).Roomier
      { between with events := .opened .parens 1 :: between.events } :=
    ⟨rfl, rfl, rfl, rfl, reached.limit.trans limited⟩
  obtain ⟨node, after, ran, made, behind⟩ :=
    h (between.under limit) _ left rfl closing rfl (reached.depth.trans deep)
  obtain ⟨past, moved, ahead', -⟩ := exists_advance_of_tokens behind nofun clean
  obtain ⟨past', run, same, fits⟩ := Engine.exists_run_grouped ran Engine.balanced_start
    Engine.measured_start alone (token_of_tokens behind) moved
  have tokens : past'.tokens = rest := by
    rw [← ahead']
    unfold Reader.tokens Reader.ahead
    rw [same.token, same.place, same.feed]
  have ends : past'.token.continues = false := by
    rw [← past'.look_tokens, tokens]
    exact Token.continues_of_stops stops
  have entered : Engine.start.step r = .ok (.more Engine.start.grouped)
      { between with events := .opened .parens 1 :: between.events } := by
    have fits : between.depth + 1 ≤ between.limit := by
      rw [reached.depth, reached.limit]
      omega
    have entering : Engine.start.operandStep r = .ok Engine.start.grouped
        { between with events := .opened .parens 1 :: between.events } := by
      unfold Engine.operandStep
      rw [bind_get, token_of_tokens inner]
      refine (bind_of_ok opened).trans ?_
      exact bind_of_ok (checkHeight_of_le fits)
    exact (bind_of_ok entering).trans rfl
  refine ⟨node, past', ?_, made, tokens⟩
  rw [Engine.run_apply, entered]
  exact run.trans (Engine.run_reach fits ends)

/-- Any number of parentheses around a stretch. -/
theorem ReadsAs.iterate {ts : List Token} {x : Expr} {limit : ℕ} (h : ReadsAs ts x limit 0)
    (n : ℕ) :
    ReadsAs (List.replicate n (Token.symbol .openParen) ++ ts ++
      List.replicate n (Token.symbol .closeParen)) x (limit + n) 0 := by
  induction n with
  | zero => simpa using h
  | succ n ih =>
    have outer := ih.parenthesized (Nat.zero_le _)
    have same : MdxReader.parenthesized (List.replicate n (Token.symbol .openParen) ++ ts ++
        List.replicate n (Token.symbol .closeParen)) =
        List.replicate (n + 1) (Token.symbol .openParen) ++ ts ++
          List.replicate (n + 1) (Token.symbol .closeParen) := by
      simp [MdxReader.parenthesized, List.replicate_succ, ← List.replicate_succ']
    rwa [same] at outer

/-! ### Texts in parentheses -/

/-- The tokens of a text in parentheses; the line break ends a comment at the end of the text. -/
theorem exists_tokensOf_grouped {text : String} {tokens : List Located} {ts : List Token}
    (scanned : tokensOf text = .ok tokens)
    (known : tokens.map Located.token = ts ++ [Token.endOfText]) (n : ℕ) :
    ∃ all, tokensOf (String.ofList (List.replicate n '(') ++ text ++ "\n" ++
        String.ofList (List.replicate n ')')) = .ok all ∧
      all.map Located.token = List.replicate n (Token.symbol .openParen) ++ ts ++
        List.replicate n (Token.symbol .closeParen) ++ [Token.endOfText] := by
  have spelled : ∀ rest, symbolAt? ('(' :: rest) = some .openParen := fun _ => rfl
  obtain ⟨behind, scannedBehind, tokensBehind⟩ := exists_tokensOf_closed scanned known n
  obtain ⟨all, scannedAll, allTokens⟩ :=
    exists_tokensOf_replicate spelled rfl (by decide) (by decide) scannedBehind n
  simp only [← String.append_assoc] at scannedAll
  refine ⟨all, scannedAll, ?_⟩
  rw [allTokens, tokensBehind]
  simp only [List.append_assoc]

/-- **Parentheses that group vanish, however many there are.**  A text that is read as an expression
is read as the same one inside `n` pairs of parentheses, under a limit that is `n` higher. -/
theorem read_grouped {text : String} {limit : ℕ} {x : Expr}
    (h : read .expression text limit = .ok (.expression x)) (n : ℕ) :
    read .expression (String.ofList (List.replicate n '(') ++ text ++ "\n" ++
      String.ofList (List.replicate n ')')) (limit + n) = .ok (.expression x) := by
  obtain ⟨tokens, ts, scanned, known, readsAs⟩ := exists_readsAs_of_read h
  obtain ⟨all, scannedAll, allTokens⟩ := exists_tokensOf_grouped scanned known n
  obtain ⟨r, start, ahead, -⟩ := Reader.exists_ofText (limit + n) scannedAll
  obtain ⟨after, found, left⟩ := ((readsAs 0).iterate n).expression
    ((congrArg _ ahead).trans allTokens) rfl List.mem_cons_self (Reader.limit_of_ofText start)
    (Reader.depth_of_ofText start)
  have whole : wholeExpression r = .ok x after := wholeExpression_of_tokens found left
  exact read_of_ok start ((bind_of_ok whole).trans rfl)

/-- A comment at the end of the text ends in front of the parentheses. -/
theorem read_grouped_comment : ∃ x, read .expression "a + (b) -- c" 2 = .ok (.expression x) ∧
    read .expression "(((a + (b) -- c\n)))" 5 = .ok (.expression x) := by
  obtain ⟨x, alone⟩ : ∃ x, read .expression "a + (b) -- c" 2 = .ok (.expression x) :=
    exists_expression_of_isOk (by decide +kernel)
  have text : String.ofList (List.replicate 3 '(') ++ "a + (b) -- c" ++ "\n" ++
      String.ofList (List.replicate 3 ')') = "(((a + (b) -- c\n)))" := by
    decide +kernel
  exact ⟨x, alone, text ▸ read_grouped alone 3⟩

end MdxReader
