import MdxReader.Reading.Level
import MdxReader.Reading.Names

/-!
# Reading expressions

An `Engine` reads an expression in steps, without recursion: its levels form a stack, and its phase
says what comes next, an operand, what follows an operand behind dots, or an operator.  A step that
opens a bracket puts a level on the stack, a step that closes one takes it off.

The nesting limit holds for the levels, and for the height of every tree that is built; operators
that wait for an operand count as well, since each will stand above it.

`ReadM.expression` runs the engine from start to end.  It stops at the first token that cannot
continue the expression.  A run ends because every step takes a token or leads from an operand to
the operator behind it (`Engine.measure_lt`).
-/

namespace MdxReader

open ReadM

/-- What an engine waits for. -/
inductive Phase where
  /-- An operand, perhaps with operators in front of it. -/
  | operand
  /-- A dot and what it accesses, or else the end of the operand. -/
  | access (node : Node)
  /-- An operator, or else the end of the level. -/
  | operator

/-- An operator may follow an operand without a token in between, but not the other way round. -/
def Phase.rank : Phase → Nat
  | operand | access _ => 1
  | operator => 0

theorem Phase.rank_le (phase : Phase) : phase.rank ≤ 1 := by
  cases phase <;> simp [rank]

/-- The state in which an expression is read. -/
structure Engine where
  /-- The innermost level. -/
  top : Level
  /-- The levels around it, from the inside out. -/
  below : List Level
  phase : Phase
  /-- The number of open levels. -/
  levels : Nat
  levels_eq : levels = below.length + 1

/-- What a step leads to. -/
inductive Outcome where
  | more (engine : Engine)
  | done (node : Node)

/-- What a dot leads to. -/
inductive Access where
  | reached (node : Node)
  /-- A method with arguments to come. -/
  | method (name : String)

namespace Engine

/-- An engine before the first token. -/
def start : Engine := ⟨.start .whole 0, [], .operand, 1, rfl⟩

/-- An operand was read, and accesses may follow. -/
def reach (e : Engine) (node : Node) : Engine := { e with phase := .access node }

/-- The operand is complete. -/
def push (e : Engine) (node : Node) : Engine :=
  { e with top := e.top.push node, phase := .operator }

/-- An operator waits for its right operand. -/
def await (e : Engine) (operator : Operator) : Engine :=
  { e with top := e.top.pushOperator operator, phase := .operand }

/-- The innermost level starts over with its next item. -/
def resume (e : Engine) (frame : Frame) (height : Nat) : Engine :=
  { e with top := .start frame height, phase := .operand }

/-- Demands that the open levels and the waiting operators are within the limit. -/
def checkPending (e : Engine) : ReadM Unit :=
  checkHeight (e.levels + e.top.operators.length)

/-- Opens a level whose frame holds items at most `height` high. -/
def enter (e : Engine) (frame : Frame) (height : Nat) : ReadM Engine := do
  checkHeight e.levels
  note (.opened frame.kind e.levels)
  return ⟨.start frame height, e.top :: e.below, .operand, e.levels + 1, by simp [e.levels_eq]⟩

/-! ### Operands -/

/-- A name, or a function if an argument list follows. -/
def nameOrFunction (e : Engine) (name : String) : ReadM Engine := do
  if ← atSymbol .openParen then
    advance
    if ← atSymbol .closeParen then
      advance
      return e.reach (.above (.call .function name []) 0)
    else e.enter (.items (.function name) []) 0
  else return e.reach (.leaf (.identifier (.ofName ⟨name, .bare⟩)))

/-- A literal, an identifier, or the start of a function call. -/
def atom (e : Engine) : ReadM Engine := do
  let r ← get
  advance
  match r.token with
  | .number value => return e.reach (.leaf (.number value))
  | .string value _ => return e.reach (.leaf (.string value))
  | .word name => e.nameOrFunction name
  | .keyword k spelling =>
    if k = .NULL then return e.reach (.leaf .null)
    else if k.isReserved then throw (r.unexpected .expression)
    else e.nameOrFunction spelling
  | .bracketed name =>
    if name.isEmpty then throw (.emptyName r.place)
    else return e.reach (.leaf (.identifier (.ofName ⟨name, .quoted⟩)))
  | .bracketedKey _ | .wordKey _ =>
    let key ← keyFrom r.place r.token
    return e.reach (.leaf (.identifier (.single (.key key))))
  | .symbol _ | .endOfText => throw (r.unexpected .expression)

/-- Reads an operator in front of an operand, an opening bracket, or an atom.  Where an argument may
be left out, a comma or a closing parenthesis ends it. -/
def operandStep (e : Engine) : ReadM Engine := do
  let r ← get
  match Operator.leading? r.token with
  | some operator =>
    e.checkPending
    advance
    return e.await operator
  | none =>
    if r.token.isSymbol .openParen then
      advance
      e.enter (.items .parens []) 0
    else if r.token.isSymbol .openBrace then
      advance
      if ← atSymbol .closeBrace then
        advance
        return e.reach (.above (.braces []) 0)
      else e.enter (.items .braces []) 0
    else if r.token.isKeyword .CASE then
      advance
      if ← atKeyword .WHEN then
        advance
        e.enter (.case none [] .condition) 0
      else e.enter (.case none [] .operand) 0
    else if r.token.isKeyword .CAST then
      advance
      expect .openParen
      e.enter .cast 0
    else if (r.token.isSymbol .comma || r.token.isSymbol .closeParen) && e.top.acceptsGap then
      return e.push (.leaf .elided)
    else e.atom

/-! ### Accesses -/

/-- The name behind a dot: a method if an argument list follows, else what `plain` makes of it.  An
empty argument list is one argument that was left out. -/
def methodOr (receiver : Node) (name : String) (plain : ReadM Access) : ReadM Access := do
  if ← atSymbol .openParen then
    advance
    if ← atSymbol .closeParen then
      advance
      return .reached (.above (.call .method name [receiver.expr, .elided]) receiver.height)
    else return .method name
  else plain

/-- A property of a receiver. -/
def property (form : CallForm) (name : String) (receiver : Node) : Node :=
  .above (.call form name [receiver.expr]) receiver.height

/-- A bracketed name behind a dot: a further segment of an identifier, or a property of anything
else.  With `&` as its first character it is a key property of either. -/
def bracketedAccess (receiver : Node) (name : String) (place : Position) : Except ReadError Node :=
  match name.toList with
  | '&' :: [] => .error (.emptyName place)
  | '&' :: stripped => .ok (property .keyProperty (String.ofList stripped) receiver)
  | _ =>
    match receiver.expr with
    | .identifier id => .ok (.leaf (.identifier (id.dotted (.name ⟨name, .quoted⟩))))
    | _ => .ok (property .quotedProperty name receiver)

/-- A key behind a dot.  A bare key of one part is a property.  Any other key is a further segment
of an identifier; on anything else one part makes a property and more are an error. -/
def keyAccess (receiver : Node) (key : Key) (place : Position) : Except ReadError Node :=
  match key.more, key.first.quoting, receiver.expr with
  | [], .bare, _ => .ok (property .quotedProperty key.first.text receiver)
  | _, _, .identifier id => .ok (.leaf (.identifier (id.dotted (.key key))))
  | [], .quoted, _ => .ok (property .keyProperty key.first.text receiver)
  | _ :: _, _, _ => .error (.broken .keyAfterIdentifier place)

/-- What follows a dot. -/
def memberAccess (receiver : Node) : ReadM Access := do
  let r ← get
  advance
  match r.token with
  | .word name => methodOr receiver name (return .reached (property .property name receiver))
  | .keyword k spelling =>
    if k.isReserved then throw (.reservedWord spelling r.place)
    else methodOr receiver spelling (return .reached (property .property spelling receiver))
  | .bracketed name =>
    if name.isEmpty then throw (.emptyName r.place)
    else methodOr receiver name (do
      return .reached (← judge (bracketedAccess receiver name r.place)))
  | .bracketedKey _ | .wordKey _ =>
    let key ← keyFrom r.place r.token
    return .reached (← judge (keyAccess receiver key r.place))
  | .number _ | .string _ _ | .symbol _ | .endOfText => throw (r.unexpected .identifierAfterDot)

/-- Reads one access, or completes the operand. -/
def accessStep (e : Engine) (node : Node) : ReadM Engine := do
  if ← atSymbol .dot then
    advance
    match ← memberAccess node with
    | .reached next =>
      checkHeight next.height
      return e.reach next
    | .method name => e.enter (.items (.method node.expr name) []) node.height
  else
    checkHeight node.height
    return e.push node

/-! ### Operators -/

/-- Applies what yields to an operator between operands, and lets the operator wait. -/
def pushBinary (e : Engine) (operator : Operator) : ReadM Outcome :=
  match e.top.reduce? operator.strength operator.associativity with
  | some top => do
    checkHeight top.newestHeight
    checkPending { e with top }
    return .more (Engine.await { e with top } operator)
  | none => failBreaking .wellFormed

/-- Applies what yields to an operator behind its operand, and the operator itself. -/
def pushTrailing (e : Engine) (operator : Operator) : ReadM Outcome :=
  match e.top.reduce? operator.strength .left with
  | some top =>
    match operator.applied? top.operands with
    | some operands => do
      checkHeight { top with operands := operands }.newestHeight
      return .more { e with top := { top with operands := operands }, phase := .operator }
    | none => failBreaking .wellFormed
  | none => failBreaking .wellFormed

/-- `AS name`: everything to the left in this level gets the name. -/
def pushName (e : Engine) : ReadM Outcome := do
  let name ← identifier
  match e.top.reduce? Operator.named.strength .left with
  | some ⟨frame, node :: operands, operators, height⟩ =>
    let node : Node :=
      .above (.call .binary Operator.named.symbol [node.expr, .identifier name]) node.height
    checkHeight node.height
    return .more { e with top := ⟨frame, node :: operands, operators, height⟩, phase := .operator }
  | _ => failBreaking .wellFormed

/-- The test that `IS` begins, if it is one: `IS [NOT] NULL`, `IS [NOT] EMPTY`.  The reader is left
at the last keyword of the test. -/
def nullTest : ReadM (Option Operator) := do
  if ← atKeyword .NULL then return some .isNull
  else if ← atKeyword .EMPTY then return some .isEmpty
  else if ← atKeyword .NOT then
    advance
    if ← atKeyword .NULL then return some .isNotNull
    else if ← atKeyword .EMPTY then return some .isNotEmpty
    else failExpecting .nullOrEmpty
  else return none

/-- What follows `IS`: the rest of a test, or an operand. -/
def identityStep (e : Engine) : ReadM Outcome := do
  match ← nullTest with
  | some operator =>
    advance
    e.pushTrailing operator
  | none => e.pushBinary .identical

/-- What follows `NOT` behind an operand: `IN` or `MATCHES`. -/
def negationStep (e : Engine) : ReadM Outcome := do
  if ← atKeyword .IN then
    advance
    e.pushBinary .notWithin
  else if ← atKeyword .MATCHES then
    advance
    e.pushBinary .notMatching
  else failExpecting .inOrMatches

/-! ### The end of a level -/

/-- Takes the closed level off the stack; its expression is an operand of the next one. -/
def leave (e : Engine) (node : Node) : ReadM Outcome := do
  checkHeight node.height
  match levels : e.below with
  | outer :: below =>
    note (.closed (e.levels - 1))
    return .more ⟨outer, below, .access node, e.levels - 1, by simp [e.levels_eq, levels]⟩
  | [] => failBreaking .wellFormed

/-- At a comma the next item follows, and at the closing symbol the level is complete.  The items
are newest first. -/
def closeItems (e : Engine) (bracket : Bracket) (items : List Expr) (height : Nat) :
    ReadM Outcome := do
  if ← atSymbol .comma then
    advance
    return .more (e.resume (.items bracket items) height)
  else
    expectClosing bracket.closing (.commaOr bracket.closing)
    e.leave (bracket.node items.reverse height)

/-- `CAST(x AS Type)` from `AS` on. -/
def closeCast (e : Engine) (expr : Expr) (height : Nat) : ReadM Outcome := do
  if ← atSymbol .comma then failBreaking .singleCast
  else
    expectKeyword .AS
    let type ← name
    expect .closeParen
    e.leave (.above (.call .cast "CAST" [expr, .typeName type.text]) height)

/-- The keyword that ends an expression inside a `CASE` decides what comes next. -/
def closeCase (e : Engine) (operand : Option Expr) (branches : List (Expr × Expr))
    (stage : CaseStage) (expr : Expr) (height : Nat) : ReadM Outcome :=
  match stage with
  | .operand => do
    expectKeyword .WHEN
    return .more (e.resume (.case (some expr) branches .condition) height)
  | .condition => do
    expectKeyword .THEN
    return .more (e.resume (.case operand branches (.result expr)) height)
  | .result condition => do
    let branches := (condition, expr) :: branches
    if ← atKeyword .WHEN then
      advance
      return .more (e.resume (.case operand branches .condition) height)
    else if ← atKeyword .ELSE then
      advance
      return .more (e.resume (.case operand branches .otherwise) height)
    else if ← atKeyword .END then
      advance
      e.leave (.above (.choice operand branches.reverse none) height)
    else failExpecting .whenElseOrEnd
  | .otherwise => do
    expectKeyword .END
    e.leave (.above (.choice operand branches.reverse (some expr)) height)

/-- The expression of a frame with one more item is complete. -/
def closeFrame (e : Engine) (expr : Expr) (height : Nat) : ReadM Outcome :=
  match e.top.frame with
  | .whole => return .done ⟨expr, height⟩
  | .items bracket items => e.closeItems bracket (expr :: items) height
  | .cast => e.closeCast expr height
  | .case operand branches stage => e.closeCase operand branches stage expr height

/-- The innermost level ends in front of the token the reader stands at. -/
def closeLevel (e : Engine) : ReadM Outcome :=
  match e.top.finish? with
  | some node => do
    checkHeight node.height
    e.closeFrame node.expr (max e.top.height node.height)
  | none => failBreaking .wellFormed

/-- The `AS` of a `CAST` is no alias. -/
def expectsType (e : Engine) : Bool :=
  match e.top.frame with
  | .cast => true
  | _ => false

/-- Reads an operator, or ends the level. -/
def operatorStep (e : Engine) : ReadM Outcome := do
  let r ← get
  if r.token.isKeyword .IS then
    advance
    e.identityStep
  else if r.token.isKeyword .NOT then
    advance
    e.negationStep
  else
    match Operator.following? r.token with
    | some .named =>
      if e.expectsType then e.closeLevel
      else
        advance
        e.pushName
    | some operator =>
      advance
      e.pushBinary operator
    | none => e.closeLevel

/-- One step. -/
def step (e : Engine) : ReadM Outcome :=
  match e.phase with
  | .operand => do return .more (← e.operandStep)
  | .access node => do return .more (← e.accessStep node)
  | .operator => e.operatorStep

/-! ### Progress -/

theorem keeps_enter (e : Engine) (frame : Frame) (height : Nat) : Keeps (e.enter frame height) :=
  .bind (.checkHeight _) fun _ => .bind (.note _) fun _ => .pure _

theorem keeps_nameOrFunction (e : Engine) (name : String) : Keeps (e.nameOrFunction name) :=
  .bind (.atSymbol _) fun _ => .ite
    (.bind .advance fun _ => .bind (.atSymbol _) fun _ => .ite
      (.bind .advance fun _ => .pure _) (e.keeps_enter _ _))
    (.pure _)

/-- The token of an operand is taken before it is judged. -/
theorem spends_atom (e : Engine) (r : Reader) : Spends e.atom r := by
  refine .of_get ?_
  cases token : r.token with
  | endOfText => exact fun _ _ h => nomatch (bind_eq_ok h).choose_spec.choose_spec.2
  | symbol s => exact .bind (.advance (by simp [token])) fun _ => .throw _
  | number value => exact .bind (.advance (by simp [token])) fun _ => .pure _
  | string value quote => exact .bind (.advance (by simp [token])) fun _ => .pure _
  | word name => exact .bind (.advance (by simp [token])) fun _ => e.keeps_nameOrFunction _
  | keyword k spelling =>
    exact .bind (.advance (by simp [token])) fun _ =>
      .ite (.pure _) (.ite (.throw _) (e.keeps_nameOrFunction _))
  | bracketed name =>
    exact .bind (.advance (by simp [token])) fun _ => .ite (.throw _) (.pure _)
  | bracketedKey name =>
    exact .bind (.advance (by simp [token])) fun _ => .bind (.keyFrom _ _) fun _ => .pure _
  | wordKey name =>
    exact .bind (.advance (by simp [token])) fun _ => .bind (.keyFrom _ _) fun _ => .pure _

theorem keeps_methodOr (receiver : Node) (name : String) {plain : ReadM Access}
    (h : Keeps plain) : Keeps (methodOr receiver name plain) :=
  .bind (.atSymbol _) fun _ => .ite
    (.bind .advance fun _ => .bind (.atSymbol _) fun _ => .ite
      (.bind .advance fun _ => .pure _) (.pure _))
    h

theorem keeps_memberAccess (receiver : Node) : Keeps (memberAccess receiver) := by
  refine .bind .get fun r => .bind .advance fun _ => ?_
  split
  · exact keeps_methodOr _ _ (.pure _)
  · exact .ite (.throw _) (keeps_methodOr _ _ (.pure _))
  · exact .ite (.throw _) (keeps_methodOr _ _ (.bind (.judge _) fun _ => .pure _))
  · exact .bind (.keyFrom _ _) fun _ => .bind (.judge _) fun _ => .pure _
  · exact .bind (.keyFrom _ _) fun _ => .bind (.judge _) fun _ => .pure _
  all_goals exact .throw _

/-- A reading takes a token, or takes none and has a result that is `free`. -/
def Pays {α : Type} (free : α → Prop) (reading : ReadM α) (r : Reader) : Prop :=
  ∀ a after, reading r = .ok a after →
    after.remaining < r.remaining ∨ after.remaining ≤ r.remaining ∧ free a

theorem Pays.of_spends {α : Type} {free : α → Prop} {reading : ReadM α} {r : Reader}
    (h : Spends reading r) : Pays free reading r := fun a after found => .inl (h a after found)

/-- A completed operand costs no token. -/
def Completes (e : Engine) : Prop := e.phase = .operator

/-- The end of the expression costs no token. -/
def Ends (outcome : Outcome) : Prop := ∃ node, outcome = .done node

/-- An argument that was left out is the one operand that takes no token. -/
theorem pays_operandStep (e : Engine) (r : Reader) : Pays Completes e.operandStep r := by
  change Pays Completes (match Operator.leading? r.token with | some _ => _ | none => _) r
  split
  · -- An operator in front of the operand: its token is spent once the limit is checked.
    rename_i operator found
    refine .of_spends (.after (.checkHeight _) fun _ between checked => ?_)
    refine .bind (.advance ?_) fun _ => .pure _
    rw [eq_of_checkHeight checked]
    rintro ended
    simp [ended, Operator.leading?] at found
  · split
    · -- An opening parenthesis.
      rename_i found
      exact .of_spends (.bind (.advance (Token.ne_endOfText_of_isSymbol found)) fun _ =>
        e.keeps_enter _ _)
    · split
      · -- An opening brace.
        rename_i found
        exact .of_spends (.bind (.advance (Token.ne_endOfText_of_isSymbol found)) fun _ =>
          .bind (.atSymbol _) fun _ => .ite (.bind .advance fun _ => .pure _) (e.keeps_enter _ _))
      · split
        · -- `CASE`.
          rename_i found
          exact .of_spends (.bind (.advance (Token.ne_endOfText_of_isKeyword found)) fun _ =>
            .bind (.atKeyword _) fun _ => .ite (.bind .advance fun _ => e.keeps_enter _ _)
              (e.keeps_enter _ _))
        · split
          · -- `CAST`.
            rename_i found
            exact .of_spends (.bind (.advance (Token.ne_endOfText_of_isKeyword found)) fun _ =>
              .bind (.expect _) fun _ => e.keeps_enter _ _)
          · split
            · -- An argument that is left out takes no token, but an operator comes next.
              rintro _ _ ⟨⟩
              exact .inr ⟨Nat.le_refl _, rfl⟩
            · exact .of_spends (e.spends_atom r)

/-- Where no dot follows, no token is taken and the operand is complete. -/
theorem pays_accessStep (e : Engine) (node : Node) (r : Reader) :
    Pays Completes (e.accessStep node) r := by
  change Pays Completes (if r.token.isSymbol .dot = true then _ else _) r
  split
  · rename_i found
    refine .of_spends (.bind (.advance (Token.ne_endOfText_of_isSymbol found)) fun _ =>
      .bind (keeps_memberAccess _) fun access => ?_)
    cases access with
    | reached next => exact .bind (.checkHeight _) fun _ => .pure _
    | method name => exact e.keeps_enter _ _
  · -- Without a dot the operand is complete.
    intro e' after h
    obtain ⟨_, between, checked, pushed⟩ := bind_eq_ok h
    cases pushed
    exact .inr ⟨Keeps.checkHeight _ _ _ _ checked, rfl⟩

theorem keeps_pushBinary (e : Engine) (operator : Operator) : Keeps (e.pushBinary operator) := by
  unfold pushBinary
  split
  · exact .bind (.checkHeight _) fun _ => .bind (.checkHeight _) fun _ => .pure _
  · exact .failBreaking _

theorem keeps_pushTrailing (e : Engine) (operator : Operator) :
    Keeps (e.pushTrailing operator) := by
  unfold pushTrailing
  split
  · split
    · exact .bind (.checkHeight _) fun _ => .pure _
    · exact .failBreaking _
  · exact .failBreaking _

theorem keeps_pushName (e : Engine) : Keeps e.pushName := by
  refine .bind .identifier fun name => ?_
  split
  · exact .bind (.checkHeight _) fun _ => .pure _
  · exact .failBreaking _

theorem keeps_nullTest : Keeps nullTest :=
  .bind (.atKeyword _) fun _ => .ite (.pure _) <|
    .bind (.atKeyword _) fun _ => .ite (.pure _) <|
      .bind (.atKeyword _) fun _ => .ite
        (.bind .advance fun _ => .bind (.atKeyword _) fun _ => .ite (.pure _) <|
          .bind (.atKeyword _) fun _ => .ite (.pure _) (.failExpecting _))
        (.pure _)

theorem keeps_identityStep (e : Engine) : Keeps e.identityStep := by
  refine .bind keeps_nullTest fun test => ?_
  cases test with
  | some operator => exact .bind .advance fun _ => e.keeps_pushTrailing _
  | none => exact e.keeps_pushBinary _

theorem keeps_negationStep (e : Engine) : Keeps e.negationStep :=
  .bind (.atKeyword _) fun _ => .ite (.bind .advance fun _ => e.keeps_pushBinary _) <|
    .bind (.atKeyword _) fun _ => .ite (.bind .advance fun _ => e.keeps_pushBinary _)
      (.failExpecting _)

theorem keeps_leave (e : Engine) (node : Node) : Keeps (e.leave node) := by
  refine .bind (.checkHeight _) fun _ => ?_
  split
  · exact .bind (.note _) fun _ => .pure _
  · exact .failBreaking _

/-- A comma or the closing symbol is taken, or the step fails. -/
theorem spends_closeItems (e : Engine) (bracket : Bracket) (items : List Expr) (height : Nat)
    (r : Reader) : Spends (e.closeItems bracket items height) r :=
  .of_atSymbol
    (fun found => .bind (.advance (Token.ne_endOfText_of_isSymbol found)) fun _ => .pure _)
    (.bind (.expectClosing _ _ _) fun _ => e.keeps_leave _)

/-- At least `AS` is taken, or the step fails. -/
theorem spends_closeCast (e : Engine) (expr : Expr) (height : Nat) (r : Reader) :
    Spends (e.closeCast expr height) r :=
  .of_atSymbol (fun _ => .failBreaking _ _) <|
    .bind (.expectKeyword _ _) fun _ => .bind .name fun _ => .bind (.expect _) fun _ =>
      e.keeps_leave _

/-- A keyword of the `CASE` is taken, or the step fails. -/
theorem spends_closeCase (e : Engine) (operand : Option Expr) (branches : List (Expr × Expr))
    (stage : CaseStage) (expr : Expr) (height : Nat) (r : Reader) :
    Spends (e.closeCase operand branches stage expr height) r := by
  cases stage with
  | operand => exact .bind (.expectKeyword _ _) fun _ => .pure _
  | condition => exact .bind (.expectKeyword _ _) fun _ => .pure _
  | result condition =>
    exact .of_atKeyword
      (fun found => .bind (.advance (Token.ne_endOfText_of_isKeyword found)) fun _ => .pure _) <|
      .of_atKeyword
        (fun found => .bind (.advance (Token.ne_endOfText_of_isKeyword found)) fun _ => .pure _) <|
        .of_atKeyword
          (fun found => .bind (.advance (Token.ne_endOfText_of_isKeyword found)) fun _ =>
            e.keeps_leave _)
          (.failExpecting _ _)
  | otherwise => exact .bind (.expectKeyword _ _) fun _ => e.keeps_leave _

/-- Only the frame of the whole expression is closed by no token. -/
theorem pays_closeFrame (e : Engine) (expr : Expr) (height : Nat) (r : Reader) :
    Pays Ends (e.closeFrame expr height) r := by
  unfold closeFrame
  split
  · -- Only the end of the whole expression is free.
    rintro _ _ ⟨⟩
    exact .inr ⟨Nat.le_refl _, _, rfl⟩
  · exact .of_spends (e.spends_closeItems _ _ _ _)
  · exact .of_spends (e.spends_closeCast _ _ _)
  · exact .of_spends (e.spends_closeCase _ _ _ _ _ _)

theorem pays_closeLevel (e : Engine) (r : Reader) : Pays Ends e.closeLevel r := by
  unfold closeLevel
  split
  · intro e' after h
    obtain ⟨_, between, checked, closed⟩ := bind_eq_ok h
    rw [eq_of_checkHeight checked] at closed
    exact e.pays_closeFrame _ _ _ _ _ closed
  · exact .of_spends (.failBreaking _ _)

/-- What is neither an operator nor closes a level ends the expression. -/
theorem pays_operatorStep (e : Engine) (r : Reader) : Pays Ends e.operatorStep r := by
  change Pays Ends (if r.token.isKeyword .IS = true then _ else _) r
  split
  · rename_i found
    exact .of_spends (.bind (.advance (Token.ne_endOfText_of_isKeyword found)) fun _ =>
      e.keeps_identityStep)
  · split
    · rename_i found
      exact .of_spends (.bind (.advance (Token.ne_endOfText_of_isKeyword found)) fun _ =>
        e.keeps_negationStep)
    · have more {operator : Operator} (found : Operator.following? r.token = some operator) :
          r.token ≠ .endOfText := by
        rintro ended
        simp [ended, Operator.following?] at found
      split
      · -- `AS` names what stands before it, or ends the operand of a `CAST`.
        rename_i found
        split
        · exact e.pays_closeLevel r
        · exact .of_spends (.bind (.advance (more found)) fun _ => e.keeps_pushName)
      · rename_i found
        exact .of_spends (.bind (.advance (more found)) fun _ => e.keeps_pushBinary _)
      · exact e.pays_closeLevel r

/-- What bounds the steps that are left. -/
def measure (e : Engine) (r : Reader) : Nat :=
  2 * r.remaining + e.phase.rank

/-- A step that takes no token ends the expression, or gets to where an operator is expected. -/
theorem pays_step (e : Engine) (r : Reader) :
    Pays (fun outcome =>
      Ends outcome ∨ e.phase ≠ .operator ∧ ∃ e', outcome = .more e' ∧ Completes e') e.step r := by
  have lifted {reading : ReadM Engine} (pays : Pays Completes reading r) :
      Pays (fun outcome => ∃ e', outcome = .more e' ∧ Completes e')
        (do return Outcome.more (← reading) : ReadM Outcome) r := by
    intro outcome after found
    obtain ⟨next, between, read, returned⟩ := bind_eq_ok found
    cases returned
    exact (pays _ _ read).imp id fun ⟨kept, completes⟩ => ⟨kept, next, rfl, completes⟩
  intro outcome after h
  unfold step at h
  cases phase : e.phase with
  | operand =>
    rw [phase] at h
    exact (lifted (e.pays_operandStep r) _ _ h).imp id fun ⟨kept, free⟩ =>
      ⟨kept, .inr ⟨nofun, free⟩⟩
  | access node =>
    rw [phase] at h
    exact (lifted (e.pays_accessStep node r) _ _ h).imp id fun ⟨kept, free⟩ =>
      ⟨kept, .inr ⟨nofun, free⟩⟩
  | operator =>
    rw [phase] at h
    exact (e.pays_operatorStep r _ _ h).imp id fun ⟨kept, ends⟩ => ⟨kept, .inl ends⟩

theorem keeps_step (e : Engine) : Keeps e.step := fun r outcome after h =>
  (e.pays_step r outcome after h).elim Nat.le_of_lt And.left

/-- **Every step lowers the measure**, so an engine comes to an end. -/
theorem measure_lt {e e' : Engine} {r after : Reader} (h : e.step r = .ok (.more e') after) :
    e'.measure after < e.measure r := by
  have rank_le := e'.phase.rank_le
  unfold measure
  rcases e.pays_step r _ _ h with spent | ⟨kept, ⟨_, ⟨⟩⟩ | ⟨waits, next, same, completes⟩⟩
  · -- A token is spent, which outweighs any change of phase.
    omega
  · -- No token is spent, so the phase falls to the operator.
    cases same
    have low : e'.phase.rank = 0 := by rw [completes]; rfl
    have high : e.phase.rank = 1 := by
      cases phase : e.phase with
      | operand => rfl
      | access node => rfl
      | operator => exact absurd phase waits
    omega

/-- Runs an engine to the end of its expression. -/
def run (e : Engine) : ReadM Node := fun r =>
  match found : e.step r with
  | .ok (.more next) after =>
    have := measure_lt found
    next.run after
  | .ok (.done node) after => .ok node after
  | .error error after => .error error after
termination_by r => e.measure r

/-- A run is a step and the run of what it leads to. -/
theorem run_apply (e : Engine) (r : Reader) :
    e.run r =
      match e.step r with
      | .ok (.more next) after => next.run after
      | .ok (.done node) after => .ok node after
      | .error error after => .error error after := by
  conv => lhs; unfold run
  split <;> rename_i found <;> simp only [found]

theorem keeps_run (e : Engine) : Keeps e.run := by
  intro r node after h
  induction bound : e.measure r using Nat.strongRecOn generalizing e r with
  | _ n ih =>
    unfold run at h
    split at h
    · rename_i next between found
      exact Nat.le_trans (ih _ (bound ▸ measure_lt found) next _ h rfl) (e.keeps_step _ _ _ found)
    · rename_i found
      cases h
      exact e.keeps_step _ _ _ found
    · cases h

end Engine

namespace ReadM

/-- One expression.  The reader stops at the first token that cannot continue it. -/
def expression : ReadM Expr := do
  return (← Engine.start.run).expr

theorem Keeps.expression : Keeps expression :=
  .bind Engine.start.keeps_run fun _ => .pure _

end ReadM

end MdxReader
