import MdxReader.Reading.Error
import MdxReader.Token.Feed

/-!
# Readers

A `Reader` stands at a token of a text.  A *reading* (`ReadM`) moves it forward and yields a value,
or fails and leaves it where the fault was noticed, so that another reading can go on from there.

Moving past a token looks at the next one first: if that cannot be scanned, the reader stays.

`Reader.remaining` counts the tokens that are left.  A reading that `Keeps` never makes them more,
one that `Spends` at a reader makes them fewer; loops and recursive readings end because of it.
-/

namespace MdxReader

/-- The kinds of nesting levels inside an expression. -/
inductive LevelKind where
  /-- The expression itself. -/
  | whole
  | parens
  | braces
  | function
  | method
  | cast
  | case
  deriving DecidableEq

/-- The name of a kind of level. -/
def LevelKind.name : LevelKind → String
  | whole => "root"
  | parens => "parens"
  | braces => "braces"
  | function => "function"
  | method => "method"
  | cast => "cast"
  | case => "case"

/-- What happens to the levels of an expression while it is read. -/
inductive LevelEvent where
  /-- A level was opened while `depth` levels were open. -/
  | opened (kind : LevelKind) (depth : Nat)
  /-- A level was closed for good and `depth` levels are left. -/
  | closed (depth : Nat)
  deriving DecidableEq

/-- A place in a text, what is to come, and the nesting around it. -/
structure Reader where
  /-- The token the reader stands at. -/
  token : Token
  /-- Where that token begins. -/
  place : Position
  /-- What comes after it. -/
  feed : Feed
  /-- The greatest nesting that is allowed. -/
  limit : Nat
  /-- The nesting that the statements around use up. -/
  depth : Nat
  /-- What happened to the levels, newest first. -/
  events : List LevelEvent

/-- A reading of a value. -/
abbrev ReadM := EStateM ReadError Reader

namespace Reader

/-- A reader at the first token of a text. -/
def ofText (text : String) (limit : Nat) : Except ReadError Reader :=
  match (Feed.ofText text).pull with
  | (.ok first, feed) => .ok ⟨first.token, first.place, feed, limit, 0, []⟩
  | (.error e, _) => .error (.scan e)

/-- The tokens left, the end of the text not counted. -/
def remaining (r : Reader) : Nat :=
  r.feed.upcoming.length + if r.token = .endOfText then 0 else 1

/-- The error for the token the reader stands at. -/
def unexpected (r : Reader) (expected : Expected) : ReadError :=
  .unexpected expected (.token r.token) r.place

end Reader

namespace ReadM

variable {α β σ : Type}

/-! ### Single tokens -/

/-- Moves to the next token. -/
def advance : ReadM Unit := fun r =>
  match r.feed.pull with
  | (.ok next, feed) => .ok () { r with token := next.token, place := next.place, feed := feed }
  | (.error e, feed) => .error (.scan e) { r with feed := feed }

/-- The reader stands at a symbol. -/
def atSymbol (s : Symbol) : ReadM Bool := do
  return (← get).token.isSymbol s

/-- The reader stands at a keyword. -/
def atKeyword (k : Keyword) : ReadM Bool := do
  return (← get).token.isKeyword k

/-- Fails at the token the reader stands at. -/
def failExpecting (expected : Expected) : ReadM α := do
  throw ((← get).unexpected expected)

/-- Fails because a rule is broken at the token the reader stands at. -/
def failBreaking (rule : Rule) : ReadM α := do
  throw (.broken rule (← get).place)

/-- Moves past a symbol that has to be there; `expected` is what a message asks for. -/
def expectClosing (s : Symbol) (expected : Expected) : ReadM Unit := do
  if ← atSymbol s then advance else failExpecting expected

/-- Moves past a symbol that has to be there. -/
def expect (s : Symbol) : ReadM Unit :=
  expectClosing s (.symbol s)

/-- Moves past a keyword that has to be there. -/
def expectKeyword (k : Keyword) : ReadM Unit := do
  if ← atKeyword k then advance else failExpecting (.keyword k)

/-- Demands that the text is over. -/
def expectEnd : ReadM Unit := do
  if (← get).token = .endOfText then return () else failExpecting .endOfText

/-- Takes over a judgement that was made without reading. -/
def judge : Except ReadError α → ReadM α
  | .ok a => pure a
  | .error e => throw e

/-! ### Nesting -/

/-- Demands that `height` more levels are within the limit. -/
def checkHeight (height : Nat) : ReadM Unit := do
  let r ← get
  if r.limit < r.depth + height then throw (.tooDeep r.limit) else return ()

/-- Goes one statement deeper. -/
def descend : ReadM Unit := do
  checkHeight 1
  modify fun r => { r with depth := r.depth + 1 }

/-- Reads and then goes back to the depth from before, after a failure too. -/
def keepingDepth (reading : ReadM α) : ReadM α := fun r =>
  match reading r with
  | .ok a after => .ok a { after with depth := r.depth }
  | .error e after => .error e { after with depth := r.depth }

/-- Notes an event. -/
def note (event : LevelEvent) : ReadM Unit :=
  modify fun r => { r with events := event :: r.events }

/-! ### Progress -/

/-- The reading never makes the remaining tokens more. -/
def Keeps (reading : ReadM α) : Prop :=
  ∀ r a after, reading r = .ok a after → after.remaining ≤ r.remaining

/-- The reading takes at least one token if it starts at `r`. -/
def Spends (reading : ReadM α) (r : Reader) : Prop :=
  ∀ a after, reading r = .ok a after → after.remaining < r.remaining

theorem Keeps.pure (a : α) : Keeps (Pure.pure a : ReadM α) := by
  rintro r b after ⟨⟩
  exact Nat.le_refl _

theorem Keeps.throw (e : ReadError) : Keeps (MonadExcept.throw e : ReadM α) := by
  rintro r a after ⟨⟩

theorem Keeps.get : Keeps (MonadState.get : ReadM Reader) := by
  rintro r a after ⟨⟩
  exact Nat.le_refl _

/-- A sequence goes on where its first reading has come to. -/
theorem bind_of_ok {x : ReadM α} {f : α → ReadM β} {r between : Reader} {a : α}
    (h : x r = .ok a between) : (x >>= f) r = f a between := by
  change EStateM.bind x f r = _
  unfold EStateM.bind
  rw [h]

/-- How a sequence of two readings succeeds. -/
theorem bind_eq_ok {x : ReadM α} {f : α → ReadM β} {r after : Reader} {b : β}
    (h : (x >>= f) r = .ok b after) :
    ∃ a between, x r = .ok a between ∧ f a between = .ok b after := by
  change (EStateM.bind x f) r = _ at h
  unfold EStateM.bind at h
  split at h
  · rename_i a between found
    exact ⟨a, between, found, h⟩
  · cases h

/-- Two readings that give no tokens back do not do so together. -/
theorem Keeps.bind {x : ReadM α} {f : α → ReadM β} (hx : Keeps x) (hf : ∀ a, Keeps (f a)) :
    Keeps (x >>= f) := by
  intro r b after h
  obtain ⟨a, between, first, second⟩ := bind_eq_ok h
  exact Nat.le_trans (hf a _ _ _ second) (hx _ _ _ first)

theorem Keeps.ite {c : Prop} [Decidable c] {x y : ReadM α} (hx : Keeps x) (hy : Keeps y) :
    Keeps (if c then x else y) := by
  split
  · exact hx
  · exact hy

/-- It is enough that the first of two readings takes a token. -/
theorem Spends.bind {x : ReadM α} {f : α → ReadM β} {r : Reader} (hx : Spends x r)
    (hf : ∀ a, Keeps (f a)) : Spends (x >>= f) r := by
  intro b after h
  obtain ⟨a, between, first, second⟩ := bind_eq_ok h
  exact Nat.lt_of_le_of_lt (hf a _ _ _ second) (hx _ _ first)

/-- A reading that first looks at the reader. -/
theorem Spends.of_get {f : Reader → ReadM α} {r : Reader} (h : Spends (f r) r) :
    Spends (MonadState.get >>= f) r := h

/-- What comes after a reading that keeps can spend. -/
theorem Spends.after {x : ReadM α} {f : α → ReadM β} {r : Reader} (hx : Keeps x)
    (hf : ∀ a between, x r = .ok a between → Spends (f a) between) : Spends (x >>= f) r := by
  intro b after h
  obtain ⟨a, between, first, second⟩ := bind_eq_ok h
  exact Nat.lt_of_lt_of_le (hf a between first _ _ second) (hx _ _ _ first)

/-- Moving on takes a token off those that remain, except at the end of the text. -/
theorem remaining_of_advance {r after : Reader} (h : advance r = .ok () after) :
    after.remaining ≤ r.remaining ∧ (r.token ≠ .endOfText → after.remaining < r.remaining) := by
  unfold advance Feed.pull at h
  unfold Reader.remaining
  cases upcoming : r.feed.upcoming with
  | nil =>
    -- Nothing is left, so the end of the text comes next.
    cases ending : r.feed.ending with
    | ok place =>
      simp only [upcoming, ending, Except.map] at h
      cases h
      simp only [upcoming, List.length_nil, if_true]
      constructor
      · exact Nat.zero_le _
      · intro more
        simp [more]
    | error e =>
      simp only [upcoming, ending, Except.map] at h
      cases h
  | cons lexeme later =>
    -- One lexeme leaves the feed and becomes the current token.
    cases lexeme with
    | ok next =>
      simp only [upcoming] at h
      cases h
      simp only [List.length_cons]
      constructor
      · split <;> split <;> omega
      · intro more
        simp only [more, if_false]
        split <;> omega
    | error e =>
      simp only [upcoming] at h
      cases h

theorem Keeps.advance : Keeps advance := fun _ _ _ h => (remaining_of_advance h).1

/-- Moving past any token but the end of the text spends it. -/
theorem Spends.advance {r : Reader} (more : r.token ≠ .endOfText) : Spends advance r :=
  fun _ _ h => (remaining_of_advance h).2 more

theorem Keeps.atSymbol (s : Symbol) : Keeps (atSymbol s) :=
  .bind .get fun _ => .pure _

theorem Keeps.atKeyword (k : Keyword) : Keeps (atKeyword k) :=
  .bind .get fun _ => .pure _

/-- A branch on whether the reader stands at a symbol. -/
theorem Spends.of_atSymbol {s : Symbol} {x y : ReadM α} {r : Reader}
    (there : r.token.isSymbol s = true → Spends x r) (absent : Spends y r) :
    Spends (do if ← ReadM.atSymbol s then x else y) r := by
  change Spends (if r.token.isSymbol s = true then x else y) r
  split
  · exact there (by assumption)
  · exact absent

/-- A branch on whether the reader stands at a keyword. -/
theorem Spends.of_atKeyword {k : Keyword} {x y : ReadM α} {r : Reader}
    (there : r.token.isKeyword k = true → Spends x r) (absent : Spends y r) :
    Spends (do if ← ReadM.atKeyword k then x else y) r := by
  change Spends (if r.token.isKeyword k = true then x else y) r
  split
  · exact there (by assumption)
  · exact absent

/-- A failure has no result that would have to take a token. -/
theorem Spends.throw (e : ReadError) (r : Reader) : Spends (MonadExcept.throw e : ReadM α) r := by
  rintro a after ⟨⟩

theorem Spends.failExpecting (expected : Expected) (r : Reader) :
    Spends (ReadM.failExpecting expected : ReadM α) r := .of_get (.throw _ _)

theorem Spends.failBreaking (rule : Rule) (r : Reader) :
    Spends (ReadM.failBreaking rule : ReadM α) r := .of_get (.throw _ _)

theorem Keeps.failExpecting (expected : Expected) : Keeps (failExpecting expected : ReadM α) :=
  .bind .get fun _ => .throw _

theorem Keeps.failBreaking (rule : Rule) : Keeps (failBreaking rule : ReadM α) :=
  .bind .get fun _ => .throw _

theorem Keeps.expectClosing (s : Symbol) (expected : Expected) : Keeps (expectClosing s expected) :=
  .bind (.atSymbol s) fun _ => .ite .advance (.failExpecting _)

/-- A demanded symbol is spent. -/
theorem Spends.expectClosing (s : Symbol) (expected : Expected) (r : Reader) :
    Spends (expectClosing s expected) r :=
  .of_atSymbol (fun there => .advance (Token.ne_endOfText_of_isSymbol there)) (.failExpecting _ _)

theorem Keeps.expect (s : Symbol) : Keeps (expect s) := .expectClosing s _

theorem Keeps.expectKeyword (k : Keyword) : Keeps (expectKeyword k) :=
  .bind (.atKeyword k) fun _ => .ite .advance (.failExpecting _)

/-- A demanded keyword is spent. -/
theorem Spends.expectKeyword (k : Keyword) (r : Reader) : Spends (expectKeyword k) r :=
  .of_atKeyword (fun there => .advance (Token.ne_endOfText_of_isKeyword there)) (.failExpecting _ _)

theorem Keeps.judge (x : Except ReadError α) : Keeps (judge x) := by
  cases x
  · exact .throw _
  · exact .pure _

theorem Keeps.checkHeight (height : Nat) : Keeps (checkHeight height) :=
  .bind .get fun _ => .ite (.throw _) (.pure _)

/-- A demand on the nesting changes nothing. -/
theorem eq_of_checkHeight {height : Nat} {u : Unit} {r after : Reader}
    (h : ReadM.checkHeight height r = .ok u after) : after = r := by
  change (if r.limit < r.depth + height then _ else _ : ReadM Unit) r = _ at h
  split at h
  · cases h
  · cases h
    rfl

/-- A change that leaves token and feed alone. -/
theorem Keeps.modifying {f : Reader → Reader} (same : ∀ r, (f r).remaining = r.remaining) :
    Keeps (modify f : ReadM Unit) := by
  rintro r a after ⟨⟩
  exact Nat.le_of_eq (same r)

theorem Keeps.descend : Keeps descend :=
  .bind (.checkHeight _) fun _ => .modifying fun _ => rfl

theorem Keeps.note (event : LevelEvent) : Keeps (note event) :=
  .modifying fun _ => rfl

/-- Going back to a depth does not go back in the text. -/
theorem Keeps.keepingDepth {reading : ReadM α} (h : Keeps reading) :
    Keeps (keepingDepth reading) := by
  intro r a after found
  unfold ReadM.keepingDepth at found
  split at found
  · rename_i b between read
    have kept := h _ _ _ read
    cases found
    exact kept
  · cases found

/-! ### Loops -/

/-- Repeats a reading while the token passes a test.  Every round has to spend. -/
def whileToken (test : Token → Bool) (round : σ → ReadM σ)
    (spends : ∀ acc r, test r.token = true → Spends (round acc) r) (acc : σ) : ReadM σ := fun r =>
  if passes : test r.token = true then
    match read : round acc r with
    | .ok next after =>
      have := spends acc r passes next after read
      whileToken test round spends next after
    | .error e after => .error e after
  else .ok acc r
termination_by r => r.remaining

/-- Each round takes a token, and none gives one back. -/
theorem Keeps.whileToken (test : Token → Bool) (round : σ → ReadM σ)
    (spends : ∀ acc r, test r.token = true → Spends (round acc) r) (acc : σ) :
    Keeps (whileToken test round spends acc) := by
  intro r a after h
  induction left : r.remaining using Nat.strongRecOn generalizing r acc with
  | _ n ih =>
    unfold ReadM.whileToken at h
    split at h
    · rename_i passes
      split at h
      · rename_i next between read
        have spent := spends acc r passes next between read
        exact Nat.le_of_lt (Nat.lt_of_le_of_lt (ih _ (left ▸ spent) _ _ h rfl) (left ▸ spent))
      · cases h
    · cases h
      exact Nat.le_of_eq left

end ReadM

end MdxReader
