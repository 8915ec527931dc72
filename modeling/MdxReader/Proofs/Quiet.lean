import MdxReader.Proofs.Faults
import MdxReader.Reading.Statement

/-!
# Readings that only move on

Most readings do nothing but move on in the text: they leave the limit, the depth and the events of
a reader as they are, and they do so where they fail as well (`ReadM.Quiet`).  Everything that reads
no expression and goes no statement deeper is of this kind.
-/

namespace MdxReader

open ReadM

/-- Nothing has changed but the token, its place and what is ahead of it. -/
structure Reader.Same (r after : Reader) : Prop where
  depth : after.depth = r.depth
  limit : after.limit = r.limit
  events : after.events = r.events

namespace Reader.Same

theorem refl (r : Reader) : r.Same r := ⟨rfl, rfl, rfl⟩

/-- Readings one after another keep what each of them keeps. -/
theorem trans {r between after : Reader} (first : r.Same between) (second : between.Same after) :
    r.Same after where
  depth := second.depth.trans first.depth
  limit := second.limit.trans first.limit
  events := second.events.trans first.events

end Reader.Same

namespace ReadM

variable {α β : Type}

/-! ### Rules -/

/-- **The reading only moves on**, whether it succeeds or fails. -/
def Quiet (reading : ReadM α) : Prop :=
  ∀ r, Gives reading (fun _ after => r.Same after) (fun _ after => r.Same after) r

theorem Quiet.pure (a : α) : Quiet (Pure.pure a : ReadM α) := fun r => .refl r

theorem Quiet.throw (e : ReadError) : Quiet (MonadExcept.throw e : ReadM α) := fun r => .refl r

/-- Readings that are quiet one after another are quiet together, whatever the first comes to. -/
theorem Quiet.bind {x : ReadM α} {f : α → ReadM β} (first : Quiet x) (next : ∀ a, Quiet (f a)) :
    Quiet (x >>= f) := by
  intro r
  refine (first r).bind fun a between same => ?_
  exact (next a between).mono (fun _ _ => same.trans) fun _ _ => same.trans

theorem Quiet.get {f : Reader → ReadM α} (h : ∀ r, Quiet (f r)) :
    Quiet (MonadState.get >>= f) := fun r => h r r

/-- Both branches are quiet; which of them is taken makes no difference. -/
theorem Quiet.ite {c : Prop} [Decidable c] {x y : ReadM α} (yes : Quiet x) (no : Quiet y) :
    Quiet (if c then x else y) := by
  split
  · exact yes
  · exact no

theorem Quiet.atSymbol {s : Symbol} {x y : ReadM α} (there : Quiet x) (absent : Quiet y) :
    Quiet (do if ← ReadM.atSymbol s then x else y) := .get fun _ => .ite there absent

theorem Quiet.atKeyword {k : Keyword} {x y : ReadM α} (there : Quiet x) (absent : Quiet y) :
    Quiet (do if ← ReadM.atKeyword k then x else y) := .get fun _ => .ite there absent

/-- Where the next token cannot be scanned, only the feed has changed. -/
theorem Quiet.advance : Quiet ReadM.advance := by
  intro r
  refine Gives.of_cases (fun u after found => ?_) fun e after found => ?_
  all_goals
    unfold ReadM.advance at found
    split at found <;> cases found
    exact ⟨rfl, rfl, rfl⟩

/-- A failure leaves the reader where it is. -/
theorem Quiet.failExpecting (expected : Expected) :
    Quiet (ReadM.failExpecting expected : ReadM α) := .get fun _ => .throw _

theorem Quiet.failBreaking (rule : Rule) : Quiet (ReadM.failBreaking rule : ReadM α) :=
  .get fun _ => .throw _

theorem Quiet.expectClosing (s : Symbol) (expected : Expected) :
    Quiet (ReadM.expectClosing s expected) := .atSymbol .advance (.failExpecting _)

theorem Quiet.expect (s : Symbol) : Quiet (ReadM.expect s) := .expectClosing s _

theorem Quiet.expectKeyword (k : Keyword) : Quiet (ReadM.expectKeyword k) :=
  .atKeyword .advance (.failExpecting _)

theorem Quiet.expectEnd : Quiet ReadM.expectEnd :=
  .get fun _ => .ite (.pure _) (.failExpecting _)

theorem Quiet.judge (x : Except ReadError α) : Quiet (ReadM.judge x) := by
  cases x with
  | ok a => exact .pure a
  | error e => exact .throw e

/-- The limit is only compared with the depth. -/
theorem Quiet.checkHeight (height : Nat) : Quiet (ReadM.checkHeight height) :=
  .get fun _ => .ite (.throw _) (.pure _)

/-- A loop is quiet if its rounds are, with whatever they have collected. -/
theorem Quiet.whileToken {test : Token → Bool} {round : α → ReadM α}
    {spends : ∀ acc r, test r.token = true → Spends (round acc) r}
    (rounds : ∀ acc, Quiet (round acc)) (acc : α) :
    Quiet (ReadM.whileToken test round spends acc) := by
  intro r
  refine Gives.whileToken (.refl r) fun acc between _ same => ?_
  exact (rounds acc between).mono (fun _ _ => same.trans) fun _ _ => same.trans

theorem Quiet.itemsAfter {item : ReadM α} (each : Quiet item) (keeps : Keeps item)
    (items : List α) : Quiet (ReadM.itemsAfter item keeps items) :=
  .bind (.whileToken (fun _ => .bind .advance fun _ => .bind each fun _ => .pure _) _) fun _ =>
    .pure _

theorem Quiet.separated {item : ReadM α} (each : Quiet item) (keeps : Keeps item) :
    Quiet (ReadM.separated item keeps) := .bind each fun _ => .itemsAfter each keeps _

/-! ### Names -/

theorem quiet_name : Quiet name := by
  refine .get fun r => ?_
  split
  · exact .bind .advance fun _ => .pure _
  · exact .bind .advance fun _ => .ite (.throw _) (.pure _)
  · exact .bind .advance fun _ => .ite (.throw _) (.pure _)
  · exact .failExpecting _

/-- The parts of a key are on the level the key is on. -/
theorem quiet_keyFrom (place : Position) (first : Token) : Quiet (keyFrom place first) :=
  .bind (.judge _) fun _ => .bind (.whileToken (fun _ => .get fun _ => .bind .advance fun _ =>
    .bind (.judge _) fun _ => .pure _) _) fun _ => .pure _

theorem quiet_segment : Quiet segment :=
  .get fun _ => .ite (.bind .advance fun _ => .bind (quiet_keyFrom _ _) fun _ => .pure _)
    (.bind quiet_name fun _ => .pure _)

theorem quiet_identifier : Quiet identifier :=
  .bind quiet_segment fun _ =>
    .whileToken (fun _ => .bind .advance fun _ => .bind quiet_segment fun _ => .pure _) _

theorem quiet_identifiers : Quiet identifiers := .separated quiet_identifier _

/-- The dot behind the name of a cube fails before anything is entered. -/
theorem quiet_cubeName : Quiet cubeName :=
  .bind quiet_name fun _ => .get fun _ => .ite (.throw _) (.pure _)

theorem quiet_count (expected : Expected) : Quiet (count expected) := by
  refine .get fun r => ?_
  split
  · exact .bind .advance fun _ => .pure _
  · exact .failExpecting _

/-! ### Parts of statements -/

theorem quiet_axis : Quiet axis := by
  have number : Quiet axisNumber :=
    .atKeyword (.bind .advance fun _ => .bind (.expect _) fun _ => .bind (quiet_count _) fun _ =>
      .bind (.expect _) fun _ => .pure _) (quiet_count _)
  refine .get fun r => ?_
  split
  · exact .bind .advance fun _ => .pure _
  · exact .bind number fun _ => .ite (.pure _) (.failBreaking _)

theorem quiet_nonEmpty : Quiet nonEmpty :=
  .atKeyword (.bind .advance fun _ => .bind (.expectKeyword _) fun _ => .pure _) (.pure _)

theorem quiet_propertyList (noun : Keyword) : Quiet (propertyList noun) :=
  .atKeyword (.bind .advance fun _ => .bind (.expectKeyword _) fun _ => quiet_identifiers)
    (.atKeyword (.bind .advance fun _ => quiet_identifiers) (.pure _))

theorem quiet_systemTable : Quiet systemTable :=
  .get fun _ => .ite
    (.bind .advance fun _ => .bind (.expect _) fun _ => .bind quiet_name fun _ => .pure _)
    (.pure _)

theorem quiet_drillOption (found : Option Nat × Option Nat) : Quiet (drillOption found) :=
  .get fun _ => .ite (.bind .advance fun _ => .bind (quiet_count _) fun _ => .pure _)
    (.ite (.bind .advance fun _ => .bind (quiet_count _) fun _ => .pure _) (.pure _))

theorem quiet_returned : Quiet returned :=
  .atKeyword (.bind .advance fun _ => quiet_identifiers) (.pure _)

/-- A semicolon and the end of the text leave the depth alone, be it 0 or not. -/
theorem quiet_endStatement : Quiet endStatement :=
  .atSymbol (.bind .advance fun _ => .expectEnd) .expectEnd

end ReadM

/-! ### Parts of expressions -/

namespace Engine

/-- The level of a method's arguments is entered by the engine, not where its name is read. -/
theorem quiet_methodOr (receiver : Node) (name : String) {plain : ReadM Access}
    (h : Quiet plain) : Quiet (methodOr receiver name plain) :=
  .atSymbol (.bind .advance fun _ => .atSymbol (.bind .advance fun _ => .pure _) (.pure _)) h

theorem quiet_memberAccess (receiver : Node) : Quiet (memberAccess receiver) := by
  refine .get fun r => .bind .advance fun _ => ?_
  split
  · exact quiet_methodOr _ _ (.pure _)
  · exact .ite (.throw _) (quiet_methodOr _ _ (.pure _))
  · exact .ite (.throw _) (quiet_methodOr _ _ (.bind (.judge _) fun _ => .pure _))
  · exact .bind (quiet_keyFrom _ _) fun _ => .bind (.judge _) fun _ => .pure _
  · exact .bind (quiet_keyFrom _ _) fun _ => .bind (.judge _) fun _ => .pure _
  all_goals exact .throw _

theorem quiet_nullTest : Quiet nullTest :=
  .atKeyword (.pure _) <| .atKeyword (.pure _) <| .atKeyword
    (.bind .advance fun _ => .atKeyword (.pure _) (.atKeyword (.pure _) (.failExpecting _)))
    (.pure _)

end Engine

end MdxReader
