import MdxReader.Proofs.Surroundings

/-!
# Expressions in their surroundings

One engine, started at two readers that stand beside each other, takes the same steps on both sides
(`Surroundings.agree_step`), so a whole expression is read alike (`Surroundings.agree_expression`).
At the end of the left text an engine that waits for an operand is `hopeless`: it can only fail.
-/

namespace MdxReader.Surroundings

open ReadM Engine

variable {S : Surroundings} {r r' : Reader}

/-- The engine waits for an operand. -/
def Waits (e : Engine) : Prop := e.phase = .operand

/-! ### Operands -/

/-- A level that was entered at the end of a text waits for an operand that never comes. -/
theorem lost_enter (e : Engine) (frame : Frame) (height : Nat) {after : Reader}
    (ended : after.token = .endOfText) : Lost Waits (e.enter frame height after) := by
  unfold Engine.enter
  cases checked : checkHeight e.levels after with
  | ok u between =>
    rw [bind_of_ok checked, eq_of_checkHeight checked]
    exact ⟨rfl, ended⟩
  | error error between =>
    obtain ⟨_, _, failed⟩ := Fails.bind (f := fun _ => _) ⟨error, between, checked⟩
    rw [failed]
    trivial

/-- The limit is as much higher as the reader is deeper, so both may enter or neither. -/
theorem agree_enter (e : Engine) (frame : Frame) (height : Nat) (h : S.Beside r r') :
    S.Agree Waits (e.enter frame height r) (e.enter frame height r') :=
  .checkHeight h (.note h fun _ _ noted => .pure noted _)

/-- If the text ends behind the name, it is a name only where no parenthesis follows. -/
theorem agree_nameOrFunction (e : Engine) (name : String) (h : S.Beside r r') :
    S.Agree Waits (e.nameOrFunction name r) (e.nameOrFunction name r') := by
  refine .atSymbol (by decide) h (fun inside _ => ?_) fun _ => .pure h _
  refine .andThen inside.advance fun _ _ _ _ moved => ?_
  refine .atCloseParen moved (fun inside' => ?_) (agree_enter e _ 0 moved) (lost_enter e _ 0)
  exact .andThen inside'.advance fun _ _ _ _ closed => .pure closed _

/-- At the end of a text there is no operand. -/
theorem fails_atom (e : Engine) (ended : r.token = .endOfText) : Fails e.atom r := by
  unfold atom
  refine .get (.next fun _ after => ?_)
  rw [ended]
  exact .throw _ after

theorem agree_atom (e : Engine) (h : S.Inside r r') : S.Agree Waits (e.atom r) (e.atom r') := by
  unfold atom
  refine .get (.andThen h.advance fun _ after after' _ moved => ?_)
  have unexpected : S.Agree Waits
      ((MonadExcept.throw (r.unexpected .expression) : ReadM Engine) after)
      ((MonadExcept.throw (r'.unexpected .expression) : ReadM Engine) after') :=
    .throw (h.unexpected .expression)
  have key : S.Agree Waits
      ((do
        let key ← keyFrom r.place r.token
        return e.reach (.leaf (.identifier (.single (.key key)))) : ReadM Engine) after)
      ((do
        let key ← keyFrom r'.place r.token
        return e.reach (.leaf (.identifier (.single (.key key)))) : ReadM Engine) after') :=
    .andThen (agree_keyFrom r.token h.place moved) fun _ _ _ _ beside => .pure beside _
  rw [h.token]
  cases token : r.token with
  | number value => exact .pure moved _
  | string value quote => exact .pure moved _
  | word name => exact agree_nameOrFunction e name moved
  | keyword k spelling =>
    simp only
    split
    · exact .pure moved _
    · split
      · exact unexpected
      · exact agree_nameOrFunction e spelling moved
  | bracketed name =>
    simp only
    split
    · exact .throw fun same => by rw [h.place same]; rfl
    · exact .pure moved _
  | bracketedKey name =>
    rw [token] at key
    exact key
  | wordKey name =>
    rw [token] at key
    exact key
  | symbol s => exact unexpected
  | endOfText => exact unexpected

theorem fails_operandStep (e : Engine) (ended : r.token = .endOfText) : Fails e.operandStep r := by
  unfold operandStep
  refine .get ?_
  rw [ended]
  exact fails_atom e ended

/-- The tokens of the expression are the same, so the same operand begins. -/
theorem agree_operandStep (e : Engine) (h : S.Beside r r') :
    S.Agree Waits (e.operandStep r) (e.operandStep r') := by
  rcases h.cases with inside | past
  · unfold operandStep
    refine .get ?_
    rw [inside.token]
    cases Operator.leading? r.token with
    | some operator =>
      refine .checkHeight h ?_
      exact .andThen inside.advance fun _ _ _ _ moved => .pure moved _
    | none =>
      simp only
      split
      · exact .andThen inside.advance fun _ _ _ _ moved => agree_enter e _ 0 moved
      split
      · refine .andThen inside.advance fun _ _ _ _ moved => ?_
        refine .atSymbol (by decide) moved (fun inside' _ => ?_) fun _ => agree_enter e _ 0 moved
        exact .andThen inside'.advance fun _ _ _ _ closed => .pure closed _
      split
      · refine .andThen inside.advance fun _ _ _ _ moved => ?_
        refine .atKeyword (by decide) (by decide) moved (fun inside' _ => ?_) fun _ =>
          agree_enter e _ 0 moved
        exact .andThen inside'.advance fun _ _ _ _ begun => agree_enter e _ 0 begun
      split
      · refine .andThen inside.advance fun _ _ _ _ moved => ?_
        exact .andThen (.expect moved) fun _ _ _ _ opened => agree_enter e _ 0 opened
      split
      · exact .pure h _
      · exact agree_atom e inside
  · exact past.agree (fails_operandStep e past.left)

/-! ### Accesses -/

/-- A method whose arguments are still to come. -/
def Opens (access : Access) : Prop := ∃ name, access = .method name

/-- Whether the name is a method's is told by the token behind it. -/
theorem agree_methodOr (receiver : Node) (name : String) {plain plain' : ReadM Access}
    (h : S.Beside r r') (agree : S.Agree Opens (plain r) (plain' r')) :
    S.Agree Opens (methodOr receiver name plain r) (methodOr receiver name plain' r') := by
  refine .atSymbol (by decide) h (fun inside _ => ?_) fun _ => agree
  refine .andThen inside.advance fun _ _ _ _ moved => ?_
  refine .atCloseParen moved (fun inside' => ?_) (.pure moved _) fun ended => ⟨⟨name, rfl⟩, ended⟩
  exact .andThen inside'.advance fun _ _ _ _ closed => .pure closed _

/-- Judging looks at the receiver and the name only; the place is that of the error. -/
theorem judged_bracketedAccess (receiver : Node) (name : String) {p p' : Position}
    (places : S.behind = none → p' = p) :
    Judged S (bracketedAccess receiver name p) (bracketedAccess receiver name p') := by
  unfold bracketedAccess
  split
  · exact .error fun same => by rw [places same]; rfl
  · exact .ok _
  · split <;> exact .ok _

/-- Judging looks at the receiver and the key only. -/
theorem judged_keyAccess (receiver : Node) (key : Key) {p p' : Position}
    (places : S.behind = none → p' = p) :
    Judged S (keyAccess receiver key p) (keyAccess receiver key p') := by
  unfold keyAccess
  split
  · exact .ok _
  · exact .ok _
  · exact .ok _
  · exact .error fun same => by rw [places same]; rfl

/-- At the end of a text there is nothing behind the dot. -/
theorem fails_memberAccess (receiver : Node) (ended : r.token = .endOfText) :
    Fails (memberAccess receiver) r := by
  unfold memberAccess
  refine .get (.next fun _ after => ?_)
  rw [ended]
  exact .throw _ after

theorem agree_memberAccess (receiver : Node) (h : S.Beside r r') :
    S.Agree Opens (memberAccess receiver r) (memberAccess receiver r') := by
  rcases h.cases with inside | past
  · unfold memberAccess
    refine .get (.andThen inside.advance fun _ after after' _ moved => ?_)
    have unexpected : S.Agree Opens
        ((MonadExcept.throw (r.unexpected .identifierAfterDot) : ReadM Access) after)
        ((MonadExcept.throw (r'.unexpected .identifierAfterDot) : ReadM Access) after') :=
      .throw (inside.unexpected .identifierAfterDot)
    have key (t : Token) : S.Agree Opens
        ((do
          let key ← keyFrom r.place t
          return .reached (← judge (keyAccess receiver key r.place)) : ReadM Access) after)
        ((do
          let key ← keyFrom r'.place t
          return .reached (← judge (keyAccess receiver key r'.place)) : ReadM Access) after') := by
      refine .andThen (agree_keyFrom t inside.place moved) fun key _ _ _ beside => ?_
      refine .andThen (.judge beside (judged_keyAccess receiver key inside.place)) ?_
      exact fun _ _ _ _ judged => .pure judged _
    rw [inside.token]
    cases r.token with
    | word name => exact agree_methodOr receiver name moved (.pure moved _)
    | keyword k spelling =>
      simp only
      split
      · exact .throw fun same => by rw [inside.place same]; rfl
      · exact agree_methodOr receiver spelling moved (.pure moved _)
    | bracketed name =>
      simp only
      split
      · exact .throw fun same => by rw [inside.place same]; rfl
      · refine agree_methodOr receiver name moved ?_
        refine .andThen (.judge moved (judged_bracketedAccess receiver name inside.place)) ?_
        exact fun _ _ _ _ judged => .pure judged _
    | bracketedKey name => exact key _
    | wordKey name => exact key _
    | _ => exact unexpected
  · exact past.agree (fails_memberAccess receiver past.left)

/-- If no dot follows, the operand is complete on both sides. -/
theorem agree_accessStep (e : Engine) (node : Node) (h : S.Beside r r') :
    S.Agree Waits (e.accessStep node r) (e.accessStep node r') := by
  refine .atSymbol (by decide) h (fun inside _ => ?_) fun _ => .checkHeight h (.pure h _)
  refine .andThen inside.advance fun _ _ _ _ moved => ?_
  refine .bind (agree_memberAccess node moved) (fun access _ _ _ beside => ?_) ?_
  · cases access with
    | reached next => exact .checkHeight beside (.pure beside _)
    | method name => exact agree_enter e _ _ beside
  · rintro _ after ⟨name, rfl⟩ ended
    exact lost_enter e _ _ ended

/-! ### Operators -/

/-- The outcome of a step is an engine that waits for an operand. -/
def Awaits (outcome : Outcome) : Prop := ∃ e, outcome = .more e ∧ Waits e

/-- At the end of a text the operator waits for an operand that never comes. -/
theorem agree_pushBinary (e : Engine) (operator : Operator) (h : S.Beside r r') :
    S.Agree Awaits (e.pushBinary operator r) (e.pushBinary operator r') := by
  unfold pushBinary
  cases e.top.reduce? operator.strength operator.associativity with
  | some top => exact .checkHeight h (.checkHeight h (.pure h _))
  | none => exact .failBreaking h

/-- The limit lets both engines put the test on top, or neither of them. -/
theorem agree_pushTrailing (e : Engine) (operator : Operator) (h : S.Beside r r') :
    S.Agree Awaits (e.pushTrailing operator r) (e.pushTrailing operator r') := by
  unfold pushTrailing
  cases e.top.reduce? operator.strength .left with
  | some top =>
    simp only
    cases operator.applied? top.operands with
    | some operands => exact .checkHeight h (.pure h _)
    | none => exact .failBreaking h
  | none => exact .failBreaking h

theorem agree_pushName (e : Engine) (h : S.Beside r r') :
    S.Agree Awaits (e.pushName r) (e.pushName r') := by
  refine .andThen (agree_identifier h) fun name _ _ _ beside => ?_
  cases e.top.reduce? Operator.named.strength .left with
  | some top =>
    obtain ⟨frame, operands, operators, height⟩ := top
    cases operands with
    | cons node operands => exact .checkHeight beside (.pure beside _)
    | nil => exact .failBreaking beside
  | none => exact .failBreaking beside

/-- What stops an expression is no keyword of a test. -/
theorem agree_nullTest (h : S.Beside r r') : S.Agree Never (nullTest r) (nullTest r') := by
  refine .atKeyword (by decide) (by decide) h (fun _ _ => .pure h _) fun _ => ?_
  refine .atKeyword (by decide) (by decide) h (fun _ _ => .pure h _) fun _ => ?_
  refine .atKeyword (by decide) (by decide) h (fun inside _ => ?_) fun _ => .pure h _
  refine .andThen inside.advance fun _ _ _ _ moved => ?_
  refine .atKeyword (by decide) (by decide) moved (fun _ _ => .pure moved _) fun _ => ?_
  refine .atKeyword (by decide) (by decide) moved (fun _ _ => .pure moved _) fun _ => ?_
  exact .failExpecting moved

/-- A test leaves the reader at one of its keywords. -/
theorem ne_endOfText_of_nullTest {operator : Operator} {after : Reader}
    (h : nullTest r = .ok (some operator) after) : after.token ≠ .endOfText := by
  change (if r.token.isKeyword .NULL = true then _ else _ : ReadM (Option Operator)) r = _ at h
  split at h
  · rename_i null
    cases h
    exact Token.ne_endOfText_of_isKeyword null
  change (if r.token.isKeyword .EMPTY = true then _ else _ : ReadM (Option Operator)) r = _ at h
  split at h
  · rename_i empty
    cases h
    exact Token.ne_endOfText_of_isKeyword empty
  change (if r.token.isKeyword .NOT = true then _ else _ : ReadM (Option Operator)) r = _ at h
  split at h
  · obtain ⟨_, between, -, h⟩ := bind_eq_ok h
    change (if between.token.isKeyword .NULL = true then _ else _ : ReadM (Option Operator))
      between = _ at h
    split at h
    · rename_i null
      cases h
      exact Token.ne_endOfText_of_isKeyword null
    change (if between.token.isKeyword .EMPTY = true then _ else _ : ReadM (Option Operator))
      between = _ at h
    split at h
    · rename_i empty
      cases h
      exact Token.ne_endOfText_of_isKeyword empty
    · cases h
  · cases h

theorem agree_identityStep (e : Engine) (h : S.Beside r r') :
    S.Agree Awaits (e.identityStep r) (e.identityStep r') := by
  refine .andThen (agree_nullTest h) fun test after after' tested beside => ?_
  cases test with
  | some operator =>
    have inside : S.Inside after after' :=
      beside.cases.resolve_right fun past => ne_endOfText_of_nullTest tested past.left
    exact .andThen inside.advance fun _ _ _ _ moved => agree_pushTrailing e operator moved
  | none => exact agree_pushBinary e _ beside

theorem agree_negationStep (e : Engine) (h : S.Beside r r') :
    S.Agree Awaits (e.negationStep r) (e.negationStep r') := by
  refine .atKeyword (by decide) (by decide) h (fun inside _ => ?_) fun _ => ?_
  · exact .andThen inside.advance fun _ _ _ _ moved => agree_pushBinary e _ moved
  · refine .atKeyword (by decide) (by decide) h (fun inside _ => ?_) fun _ => .failExpecting h
    exact .andThen inside.advance fun _ _ _ _ moved => agree_pushBinary e _ moved

/-! ### The end of a level -/

/-- The level below is the same on both sides. -/
theorem agree_leave (e : Engine) (node : Node) (h : S.Beside r r') :
    S.Agree Awaits (e.leave node r) (e.leave node r') := by
  obtain ⟨top, below, phase, levels, levels_eq⟩ := e
  unfold leave
  refine .checkHeight h ?_
  cases below with
  | cons outer below => exact .note h fun _ _ noted => .pure noted _
  | nil => exact .failBreaking h

/-- If the text ends in an open bracket it fails, whatever closes the bracket elsewhere. -/
theorem agree_closeItems (e : Engine) (bracket : Bracket) (items : List Expr) (height : Nat)
    (h : S.Beside r r') :
    S.Agree Awaits (e.closeItems bracket items height r) (e.closeItems bracket items height r') := by
  refine .atSymbol (by decide) h (fun inside _ => ?_) fun _ => ?_
  · exact .andThen inside.advance fun _ _ _ _ moved => .pure moved _
  · exact .andThen (.expectClosing h) fun _ _ _ _ closed => agree_leave e _ closed

theorem agree_closeCast (e : Engine) (expr : Expr) (height : Nat) (h : S.Beside r r') :
    S.Agree Awaits (e.closeCast expr height r) (e.closeCast expr height r') := by
  refine .atSymbol (by decide) h (fun _ _ => .failBreaking h) fun _ => ?_
  refine .andThen (.expectKeyword h) fun _ _ _ _ named => ?_
  refine .andThen (agree_name named) fun type _ _ _ typed => ?_
  exact .andThen (.expect typed) fun _ _ _ _ closed => agree_leave e _ closed

/-- If the text ends inside a `CASE` it fails, whatever goes on with the `CASE` elsewhere. -/
theorem agree_closeCase (e : Engine) (operand : Option Expr) (branches : List (Expr × Expr))
    (stage : CaseStage) (expr : Expr) (height : Nat) (h : S.Beside r r') :
    S.Agree Awaits (e.closeCase operand branches stage expr height r)
      (e.closeCase operand branches stage expr height r') := by
  cases stage with
  | operand => exact .andThen (.expectKeyword h) fun _ _ _ _ moved => .pure moved _
  | condition => exact .andThen (.expectKeyword h) fun _ _ _ _ moved => .pure moved _
  | result condition =>
    refine .atKeyword (by decide) (by decide) h (fun inside _ => ?_) fun _ => ?_
    · exact .andThen inside.advance fun _ _ _ _ moved => .pure moved _
    refine .atKeyword (by decide) (by decide) h (fun inside _ => ?_) fun _ => ?_
    · exact .andThen inside.advance fun _ _ _ _ moved => .pure moved _
    refine .atKeyword (by decide) (by decide) h (fun inside _ => ?_) fun _ => .failExpecting h
    exact .andThen inside.advance fun _ _ _ _ moved => agree_leave e _ moved
  | otherwise => exact .andThen (.expectKeyword h) fun _ _ _ _ moved => agree_leave e _ moved

/-- Where the text ends the whole expression is complete, and so it is in front of what stops it. -/
theorem agree_closeLevel (e : Engine) (h : S.Beside r r') :
    S.Agree Awaits (e.closeLevel r) (e.closeLevel r') := by
  unfold closeLevel
  cases e.top.finish? with
  | some node =>
    refine .checkHeight h ?_
    unfold closeFrame
    cases e.top.frame with
    | whole => exact .pure h _
    | items bracket items => exact agree_closeItems e bracket _ _ h
    | cast => exact agree_closeCast e _ _ h
    | case operand branches stage => exact agree_closeCase e operand branches stage _ _ h
  | none => exact .failBreaking h

/-- A token that stops an expression is no operator. -/
theorem agree_operatorStep (e : Engine) (h : S.Beside r r') :
    S.Agree Awaits (e.operatorStep r) (e.operatorStep r') := by
  unfold operatorStep
  refine .get ?_
  rcases h.cases with inside | past
  · rw [inside.token]
    split
    · exact .andThen inside.advance fun _ _ _ _ moved => agree_identityStep e moved
    split
    · exact .andThen inside.advance fun _ _ _ _ moved => agree_negationStep e moved
    cases Operator.following? r.token with
    | some operator =>
      have binary : S.Agree Awaits
          ((do advance; e.pushBinary operator : ReadM Outcome) r)
          ((do advance; e.pushBinary operator : ReadM Outcome) r') :=
        .andThen inside.advance fun _ _ _ _ moved => agree_pushBinary e operator moved
      cases operator with
      | named =>
        simp only
        split
        · exact agree_closeLevel e h
        · exact .andThen inside.advance fun _ _ _ _ moved => agree_pushName e moved
      | _ => exact binary
    | none => exact agree_closeLevel e h
  · -- Neither the end of the text nor what follows is an operator.
    have ended : Token.stops .endOfText = true := rfl
    rw [past.left, Token.following?_of_stops ended, Token.following?_of_stops past.right,
      Token.isKeyword_of_stops past.right (by decide) (by decide),
      Token.isKeyword_of_stops past.right (by decide) (by decide)]
    exact agree_closeLevel e h

/-- **Every step of an engine comes to the same on both sides.** -/
theorem agree_step (e : Engine) (h : S.Beside r r') : S.Agree Awaits (e.step r) (e.step r') := by
  have lifted (reading : ReadM Engine) (agree : S.Agree Waits (reading r) (reading r')) :
      S.Agree Awaits ((do return Outcome.more (← reading) : ReadM Outcome) r)
        ((do return Outcome.more (← reading) : ReadM Outcome) r') :=
    .bind agree (fun _ _ _ _ beside => .pure beside _) fun next _ waits ended =>
      ⟨⟨next, rfl, waits⟩, ended⟩
  unfold step
  cases e.phase with
  | operand => exact lifted _ (agree_operandStep e h)
  | access node => exact lifted _ (agree_accessStep e node h)
  | operator => exact agree_operatorStep e h

/-! ### Expressions -/

/-- An engine that waits for an operand at the end of the text fails. -/
theorem fails_run {e : Engine} (waits : Waits e) (ended : r.token = .endOfText) :
    Fails e.run r := by
  obtain ⟨error, after, failed⟩ := fails_operandStep e ended
  have stepped : e.step r = .error error after := by
    unfold step
    rw [show e.phase = .operand from waits]
    change EStateM.bind _ _ r = _
    unfold EStateM.bind
    rw [failed]
  refine ⟨error, after, ?_⟩
  rw [run_apply, stepped]

/-- **Runs agree**, since their steps do. -/
theorem agree_run (e : Engine) (h : S.Beside r r') : S.Agree Never (e.run r) (e.run r') := by
  -- The measure of the engine falls with every step of the left run.
  induction bound : e.measure r using Nat.strongRecOn generalizing e r r' with
  | _ n ih =>
    have agree := agree_step e h
    rw [run_apply, run_apply]
    generalize stepped : e.step r = result at agree ⊢
    generalize e.step r' = result' at agree ⊢
    cases agree with
    | ok outcome beside =>
      cases outcome with
      | more next => exact ih _ (bound ▸ measure_lt stepped) next beside rfl
      | done node => exact .ok node beside
    | error same => exact .error same
    | excused follows => exact .excused follows
    | lost follows bad ended =>
      obtain ⟨next, rfl, waits⟩ := bad
      obtain ⟨error, after, failed⟩ := fails_run waits ended
      simp only [failed]
      exact .excused follows

/-- **An expression is read alike in any surroundings.** -/
theorem agree_expression (h : S.Beside r r') :
    S.Agree Never (expression r) (expression r') :=
  .andThen (agree_run _ h) fun _ _ _ _ beside => .pure beside _

end MdxReader.Surroundings
