import MdxReader.Proofs.Balance
import MdxReader.Proofs.Complaints
import MdxReader.Proofs.Limits
import MdxReader.Proofs.Measures
import MdxReader.Proofs.Nesting
import MdxReader.Proofs.Statements

/-!
# The limit is exact

The limit on nesting is checked long before a tree is complete: against the levels that are open,
the operators that wait and the heights of operands.  None of these checks comes too early.  Every
open level but one in parentheses becomes an ancestor of what is read next, and so does every
operator that waits, so each of them tells a height that the tree will have.

`Engine.floor` is the height that the tree of an expression will have at least, if nothing but a
leaf follows.  It never sinks while no parentheses are opened, and no check ever demands more than
it (`Engine.affords_step`).  So under a limit that is as great as the height of the tree every check
passes (`Engine.affords_run`), and under a lower one no tree comes out.  Parentheses are left out
because they may do no more than group: they count as a level, but not in the tree.
-/

namespace MdxReader

open ReadM

/-! ### Operators that wait -/

/-- The heights of the newest operands, newest first, once an operator is applied to them. -/
def Operator.raised (operator : Operator) : List Nat → List Nat
  | [] => []
  | newest :: rest =>
    match operator.fixity, rest with
    | .between, left :: others => (max left newest + operator.cost) :: others
    | _, others => (newest + operator.cost) :: others

/-- The height that is left once all operators that wait are applied. -/
def settled : List Operator → List Nat → Nat
  | [], heights => heights.headD 0
  | operator :: waiting, heights => settled waiting (operator.raised heights)

/-- A higher operand makes a higher result, and every operator adds to it. -/
theorem Operator.exists_raised (operator : Operator) {low high : Nat} (le : low ≤ high)
    (rest : List Nat) :
    ∃ low' high' rest', operator.raised (low :: rest) = low' :: rest' ∧
      operator.raised (high :: rest) = high' :: rest' ∧ low' ≤ high' ∧ low + 1 ≤ low' := by
  have cost := operator.cost_pos
  unfold raised
  cases operator.fixity with
  | before | after => exact ⟨_, _, rest, rfl, rfl, by omega, by omega⟩
  | between =>
    cases rest with
    | nil => exact ⟨_, _, [], rfl, rfl, by omega, by omega⟩
    | cons left others => exact ⟨_, _, others, rfl, rfl, by omega, by omega⟩

/-- What operators make of a higher operand is no lower. -/
theorem settled_mono (waiting : List Operator) {low high : Nat} (le : low ≤ high)
    (rest : List Nat) : settled waiting (low :: rest) ≤ settled waiting (high :: rest) := by
  induction waiting generalizing low high rest with
  | nil => exact le
  | cons operator waiting ih =>
    obtain ⟨low', high', rest', lower, higher, le', -⟩ := operator.exists_raised le rest
    rw [settled, settled, lower, higher]
    exact ih le' rest'

/-- **Every operator that waits will stand above the newest operand.** -/
theorem le_settled (waiting : List Operator) (newest : Nat) (rest : List Nat) :
    newest + waiting.length ≤ settled waiting (newest :: rest) := by
  induction waiting generalizing newest rest with
  | nil => exact Nat.le_refl _
  | cons operator waiting ih =>
    obtain ⟨next, -, rest', raised, -, -, more⟩ := operator.exists_raised (Nat.le_refl newest) rest
    rw [settled, raised, List.length_cons]
    exact Nat.le_trans (by omega) (ih next rest')

/-- An operator between operands takes the newest one to its left, and waits for another. -/
theorem settled_le_between {operator : Operator} (between : operator.fixity = .between)
    (waiting : List Operator) (heights : List Nat) :
    settled waiting heights ≤ settled (operator :: waiting) (0 :: heights) := by
  rw [settled]
  unfold Operator.raised
  rw [between]
  cases heights with
  | nil =>
    -- Without operands nothing can be applied.
    have none : settled waiting [] = 0 := by
      induction waiting with
      | nil => rfl
      | cons other waiting ih => exact ih
    rw [none]
    exact Nat.zero_le _
  | cons left others => exact settled_mono waiting (by omega) others

/-- An operator behind its operand raises it. -/
theorem settled_le_raised {operator : Operator} (apart : operator.fixity ≠ .between)
    (waiting : List Operator) (heights : List Nat) :
    settled waiting heights ≤ settled waiting (operator.raised heights) := by
  cases heights with
  | nil => exact Nat.le_refl _
  | cons newest rest =>
    have same : operator.raised (newest :: rest) = (newest + operator.cost) :: rest := by
      unfold Operator.raised
      cases fixity : operator.fixity with
      | between => exact absurd fixity apart
      | before | after => rfl
    rw [same]
    exact settled_mono waiting (Nat.le_add_right _ _) rest

/-- Applying an operator makes the heights that were foretold. -/
theorem heights_of_applied {operator : Operator} {nodes nodes' : List Node}
    (h : operator.applied? nodes = some nodes') :
    nodes'.map Node.height = operator.raised (nodes.map Node.height) := by
  unfold Operator.applied? at h
  unfold Operator.raised
  split at h
  · rename_i node rest before
    cases h
    have cost : operator.cost = 1 := by cases operator <;> first | rfl | cases before
    simp [before, cost]
  · rename_i node rest behind
    cases h
    have cost : operator.cost = 1 := by cases operator <;> first | rfl | cases behind
    simp [behind, cost]
  · rename_i right left rest between
    simp only at h
    split at h
    · rename_i negated
      cases h
      have cost : operator.cost = 2 := if_pos negated
      simp [between, cost]
    · rename_i positive
      cases h
      have cost : operator.cost = 1 := if_neg positive
      simp [between, cost]
  · cases h

/-- Applying operators early changes nothing about the height that will be left. -/
theorem settled_of_reduce {q : Nat} {associativity : Associativity}
    {waiting waiting' : List Operator} {nodes nodes' : List Node}
    (h : reduce? q associativity waiting nodes = some (waiting', nodes')) :
    settled waiting (nodes.map Node.height) = settled waiting' (nodes'.map Node.height) := by
  induction waiting generalizing nodes with
  | nil =>
    cases h
    rfl
  | cons operator waiting ih =>
    unfold reduce? at h
    split at h
    · split at h
      · rename_i reduced applied
        rw [settled, ← heights_of_applied applied]
        exact ih h
      · cases h
    · cases h
      rfl

/-! ### Levels that are open -/

/-- What a level that is closed adds to the height: nothing at the end of the expression, and
nothing for parentheses, which may only group. -/
def Frame.cost : Frame → Nat
  | whole | items .parens _ => 0
  | _ => 1

/-- The height that a level will have at least; `pending` are the heights of operands that are not
among those of the level yet. -/
def Level.floor (level : Level) (pending : List Nat) : Nat :=
  max level.height (settled level.operators (pending ++ level.operands.map Node.height)) +
    level.frame.cost

/-- The height that levels around an operand will have at least. -/
def floorAround : List Level → Nat → Nat
  | [], inner => inner
  | level :: around, inner => floorAround around (level.floor [inner])

/-- The whole expression is at the bottom, and every level above it adds to the height. -/
def Stacked : Frame → List Level → Prop
  | frame, [] => frame = .whole
  | frame, outer :: around => frame.cost = 1 ∧ Stacked outer.frame around

/-- What is around a frame does not depend on what the frame has collected. -/
theorem Stacked.congr {frame frame' : Frame} {around : List Level} (h : Stacked frame around)
    (costs : frame.cost = 1) (same : frame'.cost = 1) : Stacked frame' around := by
  cases around with
  | nil =>
    obtain rfl : frame = .whole := h
    cases costs
  | cons outer around => exact ⟨same, h.2⟩

/-- What is left in a level decides how high it will be. -/
theorem Level.floor_le_floor {level level' : Level} {pending pending' : List Nat}
    (frame : level'.frame = level.frame) (height : level'.height = level.height)
    (more : settled level.operators (pending ++ level.operands.map Node.height) ≤
      settled level'.operators (pending' ++ level'.operands.map Node.height)) :
    level.floor pending ≤ level'.floor pending' := by
  unfold floor
  rw [frame, height]
  omega

/-- A level comes to no less if what is inside it is higher. -/
theorem Level.floor_mono (level : Level) {low high : Nat} (le : low ≤ high) :
    level.floor [low] ≤ level.floor [high] :=
  floor_le_floor rfl rfl (settled_mono level.operators le (level.operands.map Node.height))

/-- What is inside a level is part of what the level comes to. -/
theorem Level.le_floor (level : Level) (inner : Nat) :
    inner + level.frame.cost ≤ level.floor [inner] := by
  have more := le_settled level.operators inner (level.operands.map Node.height)
  simp only [floor, List.singleton_append]
  omega

/-- The levels around come to no less either. -/
theorem floorAround_mono {around : List Level} {low high : Nat} (le : low ≤ high) :
    floorAround around low ≤ floorAround around high := by
  induction around generalizing low high with
  | nil => exact le
  | cons level around ih => exact ih (level.floor_mono le)

/-- **Every open level will stand above the innermost one.** -/
theorem le_floorAround {frame : Frame} {around : List Level} (stacked : Stacked frame around)
    (inner : Nat) : inner + around.length ≤ floorAround around (inner + frame.cost) := by
  induction around generalizing frame inner with
  | nil => exact Nat.le_add_right _ _
  | cons outer around ih =>
    obtain ⟨costs, further⟩ := stacked
    rw [floorAround, costs, List.length_cons]
    have next := outer.le_floor (inner + 1)
    have rest := ih further (inner + 1)
    exact Nat.le_trans (by omega) (Nat.le_trans rest (floorAround_mono next))

/-! ### Engines -/

/-- The height of the operand that is on its way: it may turn out to be a leaf. -/
def Phase.pending : Phase → List Nat
  | operand => [0]
  | access node => [node.height]
  | operator => []

namespace Engine

/-- **The height that the expression will have at least.** -/
def floor (e : Engine) : Nat := floorAround e.below (e.top.floor e.phase.pending)

/-- No parentheses are open. -/
def Stacked (e : Engine) : Prop := MdxReader.Stacked e.top.frame e.below

variable {e : Engine}

theorem stacked_start : start.Stacked := rfl

/-- What the innermost level will have, stands below all the others. -/
theorem add_length_le_floor (stacked : e.Stacked) {demand : Nat}
    (low : demand + e.top.frame.cost ≤ e.top.floor e.phase.pending) :
    demand + e.below.length ≤ e.floor :=
  Nat.le_trans (le_floorAround stacked demand) (floorAround_mono low)

/-- An operand that is on its way will be there. -/
theorem pending_le_floor (stacked : e.Stacked) {height : Nat}
    (pending : e.phase.pending = [height]) :
    height + e.top.operators.length + e.below.length ≤ e.floor := by
  refine add_length_le_floor stacked ?_
  have waiting := le_settled e.top.operators height (e.top.operands.map Node.height)
  rw [pending, Level.floor, List.singleton_append]
  omega

/-- What was reached is at least as high as what was pending. -/
theorem floor_le_reach {height : Nat} (pending : e.phase.pending = [height]) {node : Node}
    (low : height ≤ node.height) : e.floor ≤ (e.reach node).floor := by
  refine floorAround_mono ?_
  rw [pending]
  exact e.top.floor_mono low

/-- What comes next is as high at least, and no parentheses are open. -/
def Rises (e next : Engine) : Prop := next.Stacked ∧ e.floor ≤ next.floor

end Engine

namespace Outcome

/-- The height that the expression will have at least, or the one that it has. -/
def floor : Outcome → Nat
  | more e => e.floor
  | done node => node.height

/-- No parentheses are open. -/
def Stacked : Outcome → Prop
  | more e => e.Stacked
  | done _ => True

end Outcome

/-- A step leads to what is as high at least, and opens no parentheses. -/
def Engine.RisesTo (e : Engine) (outcome : Outcome) : Prop :=
  outcome.Stacked ∧ e.floor ≤ outcome.floor

/-! ### Readers under another limit -/

namespace Reader

/-- The reader under another limit. -/
def under (r : Reader) (l : Nat) : Reader := { r with limit := l }

/-- Parentheses were opened. -/
def Bracketed (r : Reader) : Prop := ∃ depth, .opened .parens depth ∈ r.events

end Reader

/-- Nothing is asked of a reader. -/
def ReadM.anywhere : Invariant where
  holds _ := True
  advance _ _ := trivial
  note _ _ := trivial

/-- What was opened was opened for good. -/
def ReadM.bracketed : Invariant where
  holds := Reader.Bracketed
  advance := by
    intro r after holds moved
    unfold advance at moved
    split at moved <;> cases moved
    exact holds
  note _ holds := holds.imp fun _ mem => List.mem_cons_of_mem _ mem

namespace ReadM

variable {α β : Type} {r : Reader} {l : Nat}

/-- The limit makes no difference to a reading that succeeds. -/
def Plain (reading : ReadM α) : Prop :=
  ∀ (r : Reader) a after, reading r = .ok a after →
    after.depth = r.depth ∧ ∀ l, reading (r.under l) = .ok a (after.under l)

theorem Plain.pure (a : α) : Plain (Pure.pure a : ReadM α) := by
  rintro r _ _ ⟨⟩
  exact ⟨rfl, fun _ => rfl⟩

theorem Plain.throw (e : ReadError) : Plain (MonadExcept.throw e : ReadM α) := by
  rintro r _ _ ⟨⟩

/-- Readings that do not look at the limit do not do so together. -/
theorem Plain.bind {x : ReadM β} {f : β → ReadM α} (first : Plain x) (next : ∀ b, Plain (f b)) :
    Plain (x >>= f) := by
  intro r a after found
  obtain ⟨b, between, read, rest⟩ := bind_eq_ok found
  obtain ⟨depth, again⟩ := first r b between read
  obtain ⟨depth', again'⟩ := next b between a after rest
  exact ⟨depth'.trans depth, fun l => (bind_of_ok (again l)).trans (again' l)⟩

/-- Looking at the reader, but not at its limit. -/
theorem Plain.get {f : Reader → ReadM α} (blind : ∀ (r : Reader) l, f (r.under l) = f r)
    (next : ∀ r, Plain (f r)) : Plain (MonadState.get >>= f) := by
  intro r a after found
  obtain ⟨depth, again⟩ := next r r a after found
  refine ⟨depth, fun l => ?_⟩
  change f (r.under l) (r.under l) = _
  rw [blind]
  exact again l

theorem Plain.ite {c : Prop} [Decidable c] {x y : ReadM α} (yes : Plain x) (no : Plain y) :
    Plain (if c then x else y) := by
  split
  · exact yes
  · exact no

theorem Plain.atSymbol {s : Symbol} {x y : ReadM α} (there : Plain x) (absent : Plain y) :
    Plain (do if ← ReadM.atSymbol s then x else y) :=
  Plain.get (fun _ _ => rfl) fun _ => Plain.ite there absent

theorem Plain.atKeyword {k : Keyword} {x y : ReadM α} (there : Plain x) (absent : Plain y) :
    Plain (do if ← ReadM.atKeyword k then x else y) :=
  Plain.get (fun _ _ => rfl) fun _ => Plain.ite there absent

theorem Plain.advance : Plain ReadM.advance := by
  intro r a after found
  unfold ReadM.advance at found
  split at found
  · rename_i next feed pulled
    cases found
    refine ⟨rfl, fun l => ?_⟩
    unfold ReadM.advance
    rw [show (r.under l).feed.pull = _ from pulled]
    rfl
  · cases found

theorem Plain.failExpecting (expected : Expected) :
    Plain (ReadM.failExpecting expected : ReadM α) :=
  Plain.get (fun _ _ => rfl) fun _ => Plain.throw _

theorem Plain.expectClosing (s : Symbol) (expected : Expected) :
    Plain (ReadM.expectClosing s expected) := Plain.atSymbol Plain.advance (Plain.failExpecting _)

theorem Plain.expectKeyword (k : Keyword) : Plain (ReadM.expectKeyword k) :=
  Plain.atKeyword Plain.advance (Plain.failExpecting _)

theorem Plain.expectEnd : Plain ReadM.expectEnd :=
  Plain.get (fun _ _ => rfl) fun _ => Plain.ite (Plain.pure _) (Plain.failExpecting _)

theorem Plain.judge (x : Except ReadError α) : Plain (ReadM.judge x) := by
  cases x with
  | ok a => exact Plain.pure a
  | error e => exact Plain.throw e

theorem Plain.whileToken {test : Token → Bool} {round : α → ReadM α}
    {spends : ∀ acc r, test r.token = true → Spends (round acc) r}
    (rounds : ∀ acc, Plain (round acc)) (acc : α) :
    Plain (ReadM.whileToken test round spends acc) := by
  intro r a after found
  -- The induction is on the tokens that remain: by `spends` every round uses one up.
  induction left : r.remaining using Nat.strongRecOn generalizing r acc with
  | _ n ih =>
    rw [whileToken_apply] at found
    by_cases passes : test r.token = true
    · rw [if_pos passes] at found
      obtain ⟨next, between, read, rest⟩ := bind_eq_ok found
      have spent := spends acc r passes next between read
      obtain ⟨depth, again⟩ := rounds acc r next between read
      obtain ⟨depth', again'⟩ := ih _ (left ▸ spent) next between rest rfl
      refine ⟨depth'.trans depth, fun l => ?_⟩
      rw [whileToken_apply, show (r.under l).token = r.token from rfl, if_pos passes]
      exact (bind_of_ok (again l)).trans (again' l)
    · rw [if_neg passes] at found
      obtain ⟨rfl, rfl⟩ := EStateM.Result.ok.inj found
      refine ⟨rfl, fun l => ?_⟩
      rw [whileToken_apply, show (r.under l).token = r.token from rfl, if_neg passes]

/-! ### Names do not look at the limit -/

theorem plain_name : Plain name := by
  refine Plain.get (fun _ _ => rfl) fun r => ?_
  split
  · exact Plain.advance.bind fun _ => Plain.pure _
  · exact Plain.advance.bind fun _ => Plain.ite (Plain.throw _) (Plain.pure _)
  · exact Plain.advance.bind fun _ => Plain.ite (Plain.throw _) (Plain.pure _)
  · exact Plain.failExpecting _

theorem plain_moreKey (parts : List Name) : Plain (moreKey parts) :=
  Plain.get (fun _ _ => rfl) fun _ => Plain.advance.bind fun _ =>
    (Plain.judge _).bind fun _ => Plain.pure _

theorem plain_keyFrom (place : Position) (first : Token) : Plain (keyFrom place first) :=
  (Plain.judge _).bind fun _ => (Plain.whileToken plain_moreKey []).bind fun _ => Plain.pure _

theorem plain_segment : Plain ReadM.segment :=
  Plain.get (fun _ _ => rfl) fun _ => Plain.ite
    (Plain.advance.bind fun _ => (plain_keyFrom _ _).bind fun _ => Plain.pure _)
    (plain_name.bind fun _ => Plain.pure _)

theorem plain_identifier : Plain identifier :=
  plain_segment.bind fun _ => Plain.whileToken (fun _ =>
    Plain.advance.bind fun _ => plain_segment.bind fun _ => Plain.pure _) _

/-! ### Readings whose demands are foretold -/

/-- **A reading affords what it demands**: whatever it succeeds with, is `good`, and under a limit
that reaches the `floor` of its result it succeeds with the same.  Nothing is said if parentheses
were opened. -/
def Affords (l : Nat) (reading : ReadM α) (good : α → Prop) (floor : α → Nat) (r : Reader) : Prop :=
  ∀ a after, reading r = .ok a after → after.Bracketed ∨
    good a ∧ after.depth = r.depth ∧
      (r.depth + floor a ≤ l → reading (r.under l) = .ok a (after.under l))

section Affords

variable {good : α → Prop} {floor : α → Nat}

theorem Affords.mono {reading : ReadM α} {better : α → Prop} (h : Affords l reading better floor r)
    (weaker : ∀ a, better a → good a) : Affords l reading good floor r := by
  intro a after found
  exact (h a after found).imp id fun ⟨fine, rest⟩ => ⟨weaker a fine, rest⟩

theorem Affords.pure {a : α} (h : good a) : Affords l (Pure.pure a) good floor r := by
  rintro _ _ ⟨⟩
  exact .inr ⟨h, rfl, fun _ => rfl⟩

/-- A failure has no result, so nothing is demanded for one. -/
theorem Affords.throw (e : ReadError) : Affords l (MonadExcept.throw e) good floor r := by
  rintro _ _ ⟨⟩

theorem Affords.failExpecting (expected : Expected) :
    Affords l (ReadM.failExpecting expected) good floor r := by
  rintro _ _ ⟨⟩

theorem Affords.failBreaking (rule : Rule) :
    Affords l (ReadM.failBreaking rule) good floor r := by
  rintro _ _ ⟨⟩

/-- What comes first demands nothing. -/
theorem Affords.bind {x : ReadM β} {f : β → ReadM α} (plain : Plain x)
    (next : ∀ b between, x r = .ok b between → Affords l (f b) good floor between) :
    Affords l (x >>= f) good floor r := by
  intro a after found
  obtain ⟨b, between, read, rest⟩ := bind_eq_ok found
  obtain ⟨depth, again⟩ := plain r b between read
  refine (next b between read a after rest).imp id fun ⟨fine, depth', rerun⟩ => ?_
  exact ⟨fine, depth'.trans depth, fun fits =>
    (bind_of_ok (again l)).trans (rerun (by rw [depth]; exact fits))⟩

/-- What is looked at does not depend on the limit. -/
theorem Affords.get {f : Reader → ReadM α} (blind : f (r.under l) = f r)
    (next : Affords l (f r) good floor r) : Affords l (MonadState.get >>= f) good floor r := by
  intro a after found
  refine (next a after found).imp id fun ⟨fine, depth, rerun⟩ => ⟨fine, depth, fun fits => ?_⟩
  change f (r.under l) (r.under l) = _
  rw [blind]
  exact rerun fits

theorem Affords.ite {c : Prop} [Decidable c] {x y : ReadM α} (yes : c → Affords l x good floor r)
    (no : ¬ c → Affords l y good floor r) : Affords l (if c then x else y) good floor r := by
  by_cases h : c
  · rw [if_pos h]
    exact yes h
  · rw [if_neg h]
    exact no h

theorem Affords.atSymbol {s : Symbol} {x y : ReadM α} (there : Affords l x good floor r)
    (absent : Affords l y good floor r) :
    Affords l (do if ← ReadM.atSymbol s then x else y) good floor r :=
  Affords.get rfl (Affords.ite (fun _ => there) fun _ => absent)

theorem Affords.atKeyword {k : Keyword} {x y : ReadM α} (there : Affords l x good floor r)
    (absent : Affords l y good floor r) :
    Affords l (do if ← ReadM.atKeyword k then x else y) good floor r :=
  Affords.get rfl (Affords.ite (fun _ => there) fun _ => absent)

/-- A demand that the floor of every result covers. -/
theorem Affords.checkHeight {demand : Nat} {f : Unit → ReadM α}
    (next : Affords l (f ()) (fun a => good a ∧ demand ≤ floor a) floor r) :
    Affords l (ReadM.checkHeight demand >>= f) good floor r := by
  intro a after found
  obtain ⟨u, between, checked, rest⟩ := bind_eq_ok found
  rw [eq_of_checkHeight checked] at rest
  refine (next a after rest).imp id fun ⟨⟨fine, covered⟩, depth, rerun⟩ => ?_
  refine ⟨fine, depth, fun fits => ?_⟩
  have passes : ReadM.checkHeight demand (r.under l) = .ok () (r.under l) := by
    change (if l < r.depth + demand then _ else _ : ReadM Unit) (r.under l) = _
    rw [if_neg (by omega)]
    rfl
  exact (bind_of_ok passes).trans (rerun fits)

theorem Affords.note {event : LevelEvent} {f : Unit → ReadM α}
    (next : Affords l (f ()) good floor { r with events := event :: r.events }) :
    Affords l (ReadM.note event >>= f) good floor r := next

end Affords

end ReadM

/-! ### Operands -/

namespace Engine

variable {e : Engine} {r : Reader} {l : Nat}

/-- A level is paid for by the frame that it closes, unless it is one of parentheses. -/
theorem affords_enter (stacked : e.Stacked) {height held : Nat}
    (pending : e.phase.pending = [height]) (low : height ≤ held) {frame : Frame}
    (costs : frame.cost = 1 ∨ frame.kind = .parens) :
    Affords l (e.enter frame held) e.Rises floor r := by
  rcases costs with costs | parens
  · refine Affords.checkHeight (Affords.note (Affords.pure ⟨⟨⟨costs, stacked⟩, ?_⟩, ?_⟩))
    · refine floorAround_mono ?_
      rw [pending]
      refine e.top.floor_mono (Nat.le_trans low ?_)
      exact Nat.le_trans (Nat.le_max_left _ _) (Nat.le_add_right _ _)
    · have inner := pending_le_floor (e := ⟨.start frame held, e.top :: e.below, .operand,
        e.levels + 1, by simp [e.levels_eq]⟩) ⟨costs, stacked⟩ rfl
      change 0 + 0 + (e.below.length + 1) ≤ _ at inner
      have levels := e.levels_eq
      exact Nat.le_trans (by omega) inner
  · intro next after found
    obtain ⟨_, between, checked, rest⟩ := bind_eq_ok found
    obtain ⟨_, noted, written, made⟩ := bind_eq_ok rest
    cases written
    cases made
    exact .inl ⟨e.levels, by simp [parens]⟩

section Operands

variable (stacked : e.Stacked) (waits : e.phase = .operand)

include stacked waits

theorem rises_reach (node : Node) : e.Rises (e.reach node) :=
  ⟨stacked, floor_le_reach (by rw [waits]; rfl) (Nat.zero_le _)⟩

theorem rises_push (node : Node) : e.Rises (e.push node) := rises_reach stacked waits node

/-- An operator in front of an operand will stand above it. -/
theorem rises_await {operator : Operator} (before : operator.fixity = .before) :
    e.Rises (e.await operator) := by
  refine ⟨stacked, floorAround_mono ?_⟩
  rw [waits]
  have apart : operator.fixity ≠ .between := by rw [before]; decide
  have raised := settled_le_raised apart e.top.operators (0 :: e.top.operands.map Node.height)
  exact Level.floor_le_floor rfl rfl raised

/-- Opening a level demands one for it, and what it will make is one higher than what is inside. -/
theorem affords_opened {frame : Frame} (costs : frame.cost = 1 ∨ frame.kind = .parens) :
    Affords l (e.enter frame 0) e.Rises floor r :=
  affords_enter stacked (by rw [waits]; rfl) (Nat.le_refl 0) costs

theorem affords_nameOrFunction (name : String) :
    Affords l (e.nameOrFunction name) e.Rises floor r := by
  refine Affords.atSymbol ?_ (Affords.pure (rises_reach stacked waits _))
  refine Affords.bind Plain.advance fun _ _ _ => ?_
  refine Affords.atSymbol ?_ (affords_opened stacked waits (.inl rfl))
  exact Affords.bind Plain.advance fun _ _ _ => Affords.pure (rises_reach stacked waits _)

theorem affords_atom : Affords l e.atom e.Rises floor r := by
  refine Affords.get rfl (Affords.bind Plain.advance fun _ _ _ => ?_)
  split
  · exact Affords.pure (rises_reach stacked waits _)
  · exact Affords.pure (rises_reach stacked waits _)
  · exact affords_nameOrFunction stacked waits _
  · refine Affords.ite (fun _ => Affords.pure (rises_reach stacked waits _)) fun _ => ?_
    exact Affords.ite (fun _ => Affords.throw _) fun _ => affords_nameOrFunction stacked waits _
  · exact Affords.ite (fun _ => Affords.throw _) fun _ =>
      Affords.pure (rises_reach stacked waits _)
  · exact Affords.bind (plain_keyFrom _ _) fun _ _ _ => Affords.pure (rises_reach stacked waits _)
  · exact Affords.bind (plain_keyFrom _ _) fun _ _ _ => Affords.pure (rises_reach stacked waits _)
  all_goals exact Affords.throw _

/-- What an operand demands of the limit it adds to the floor as well. -/
theorem affords_operandStep : Affords l e.operandStep e.Rises floor r := by
  refine Affords.get rfl ?_
  split
  · rename_i operator leads
    have rises := rises_await stacked waits (fixity_of_leading leads)
    refine Affords.checkHeight (Affords.bind Plain.advance fun _ _ _ => Affords.pure ⟨rises, ?_⟩)
    -- The operator counts from now on, in place of the operand that is not there yet.
    have inner := pending_le_floor (e := e.await operator) stacked rfl
    have levels := e.levels_eq
    change 0 + (e.top.operators.length + 1) + e.below.length ≤ _ at inner
    omega
  refine Affords.ite (fun _ => ?_) fun _ => ?_
  · exact Affords.bind Plain.advance fun _ _ _ => affords_opened stacked waits (.inr rfl)
  refine Affords.ite (fun _ => ?_) fun _ => ?_
  · refine Affords.bind Plain.advance fun _ _ _ => ?_
    refine Affords.atSymbol ?_ (affords_opened stacked waits (.inl rfl))
    exact Affords.bind Plain.advance fun _ _ _ => Affords.pure (rises_reach stacked waits _)
  refine Affords.ite (fun _ => ?_) fun _ => ?_
  · refine Affords.bind Plain.advance fun _ _ _ => ?_
    refine Affords.atKeyword ?_ (affords_opened stacked waits (.inl rfl))
    exact Affords.bind Plain.advance fun _ _ _ => affords_opened stacked waits (.inl rfl)
  refine Affords.ite (fun _ => ?_) fun _ => ?_
  · refine Affords.bind Plain.advance fun _ _ _ => ?_
    refine Affords.bind (Plain.expectClosing _ _) fun _ _ _ => ?_
    exact affords_opened stacked waits (.inl rfl)
  exact Affords.ite (fun _ => Affords.pure (rises_push stacked waits _)) fun _ =>
    affords_atom stacked waits

end Operands

/-! ### Accesses -/

theorem plain_methodOr (receiver : Node) (name : String) {plain : ReadM Access} (h : Plain plain) :
    Plain (methodOr receiver name plain) := by
  refine Plain.atSymbol (Plain.advance.bind fun _ => Plain.atSymbol ?_ (Plain.pure _)) h
  exact Plain.advance.bind fun _ => Plain.pure _

theorem plain_memberAccess (receiver : Node) : Plain (memberAccess receiver) := by
  have key (r : Reader) : Plain (do
      let key ← keyFrom r.place r.token
      return Access.reached (← judge (keyAccess receiver key r.place))) :=
    (plain_keyFrom _ _).bind fun _ => (Plain.judge _).bind fun _ => Plain.pure _
  refine Plain.get (fun _ _ => rfl) fun r => Plain.advance.bind fun _ => ?_
  split
  · exact plain_methodOr _ _ (Plain.pure _)
  · exact Plain.ite (Plain.throw _) (plain_methodOr _ _ (Plain.pure _))
  · exact Plain.ite (Plain.throw _) (plain_methodOr _ _ ((Plain.judge _).bind fun _ =>
      Plain.pure _))
  · exact key r
  · exact key r
  all_goals exact Plain.throw _

/-- An access is no lower than what it was put behind, and what is complete stays as it is. -/
theorem affords_accessStep (stacked : e.Stacked) {node : Node} (reached : e.phase = .access node)
    (measured : node.Measured) : Affords l (e.accessStep node) e.Rises floor r := by
  have pending : e.phase.pending = [node.height] := by rw [reached]; rfl
  refine Affords.atSymbol ?_ ?_
  · refine Affords.bind Plain.advance fun _ _ _ => ?_
    refine Affords.bind (plain_memberAccess node) fun access _ found => ?_
    have fine := ((measured_memberAccess measured).ok found).2
    cases access with
    | reached next =>
      refine Affords.checkHeight (Affords.pure ⟨⟨stacked, floor_le_reach pending fine.2⟩, ?_⟩)
      have inner := pending_le_floor (e := e.reach next) stacked rfl
      omega
    | method name => exact affords_enter stacked pending (Nat.le_refl _) (.inl rfl)
  · have same := floor_le_reach pending (Nat.le_refl node.height)
    refine Affords.checkHeight (Affords.pure ⟨⟨stacked, same⟩, ?_⟩)
    have inner := pending_le_floor (e := e.reach node) stacked rfl
    change node.height ≤ (e.reach node).floor
    omega

end Engine

/-! ### Operators -/

namespace Level

variable {level level' : Level}

/-- The level expects as much after operators were applied as before. -/
theorem floor_of_reduce {q : Nat} {associativity : Associativity}
    (h : level.reduce? q associativity = some level') :
    level'.frame = level.frame ∧ level'.floor [] = level.floor [] := by
  unfold Level.reduce? at h
  obtain ⟨⟨waiting, nodes⟩, found, rfl⟩ := Option.map_eq_some_iff.mp h
  refine ⟨rfl, ?_⟩
  unfold floor
  rw [List.nil_append, List.nil_append, settled_of_reduce found]

/-- At the end of a level all operators were applied, and the height is there. -/
theorem floor_of_finish {node : Node} (h : level.finish? = some node) :
    level.floor [] = max level.height node.height + level.frame.cost := by
  unfold finish? Level.reduce? at h
  cases reduced : MdxReader.reduce? 0 .left level.operators level.operands with
  | none =>
    rw [reduced] at h
    cases h
  | some rest =>
    obtain ⟨waiting, nodes⟩ := rest
    obtain rfl := eq_nil_of_reduce reduced
    rw [reduced] at h
    simp only [Option.map_some] at h
    split at h
    · rename_i same
      cases same
      cases h
      unfold floor
      rw [List.nil_append, settled_of_reduce reduced]
      rfl
    · cases h

/-- The newest operand stands below the level. -/
theorem newestHeight_add_cost_le (level : Level) :
    level.newestHeight + level.frame.cost ≤ level.floor [] := by
  unfold newestHeight floor
  rw [List.nil_append]
  cases level.operands with
  | nil =>
    change 0 + _ ≤ _
    omega
  | cons node rest =>
    have waiting := le_settled level.operators node.height (rest.map Node.height)
    rw [List.map_cons]
    simp only
    omega

/-- An operator between operands keeps what is to its left. -/
theorem floor_le_pushOperator (level : Level) {operator : Operator}
    (between : operator.fixity = .between) :
    level.floor [] ≤ (level.pushOperator operator).floor [0] := by
  have more := settled_le_between between level.operators (level.operands.map Node.height)
  exact floor_le_floor rfl rfl more

/-- A higher newest operand makes a higher level. -/
theorem floor_le_raised (level : Level) {nodes : List Node}
    (more : settled level.operators (level.operands.map Node.height) ≤
      settled level.operators (nodes.map Node.height)) :
    level.floor [] ≤ { level with operands := nodes }.floor [] := floor_le_floor rfl rfl more

end Level

namespace Engine

variable {e : Engine} {r : Reader} {l : Nat}

section Operators

variable (stacked : e.Stacked) (complete : e.phase = .operator)

include stacked complete

/-- The innermost level has another top, and an operand follows or its newest one is complete. -/
theorem risesTo_top (top : Level) (phase : Phase) (frame : top.frame = e.top.frame)
    (more : e.top.floor [] ≤ top.floor phase.pending) :
    e.RisesTo (.more { e with top, phase }) := by
  refine ⟨?_, floorAround_mono ?_⟩
  · change MdxReader.Stacked top.frame e.below
    rw [frame]
    exact stacked
  · rw [complete]
    exact more

/-- An operator that waits is demanded of the limit, and adds its height to the operand it will
take. -/
theorem affords_pushBinary {operator : Operator} (between : operator.fixity = .between) :
    Affords l (e.pushBinary operator) e.RisesTo Outcome.floor r := by
  unfold pushBinary
  split
  · rename_i top reduced
    obtain ⟨frame, same⟩ := Level.floor_of_reduce reduced
    have more := top.floor_le_pushOperator between
    have rises : e.RisesTo (.more (await { e with top } operator)) :=
      risesTo_top stacked complete (top.pushOperator operator) .operand frame (same ▸ more)
    have newest := add_length_le_floor rises.1 (Nat.le_trans top.newestHeight_add_cost_le more)
    have waiting := pending_le_floor (e := await { e with top } operator) rises.1 rfl
    have levels := e.levels_eq
    refine Affords.checkHeight (Affords.checkHeight (Affords.pure ⟨⟨rises, ?_⟩, ?_⟩))
    · exact Nat.le_trans (Nat.le_add_right _ _) newest
    · change 0 + (top.operators.length + 1) + e.below.length ≤ _ at waiting
      change e.levels + top.operators.length ≤ _
      exact Nat.le_trans (by omega) waiting
  · exact Affords.failBreaking _

/-- The newest operand is raised, and then checked. -/
theorem affords_raised {top : Level} (nodes : List Node) (frame : top.frame = e.top.frame)
    (same : top.floor [] = e.top.floor [])
    (more : settled top.operators (top.operands.map Node.height) ≤
      settled top.operators (nodes.map Node.height)) :
    Affords l (do
      checkHeight { top with operands := nodes }.newestHeight
      return Outcome.more { e with top := { top with operands := nodes }, phase := .operator })
      e.RisesTo Outcome.floor r := by
  have raised := top.floor_le_raised more
  have rises : e.RisesTo
      (.more { e with top := { top with operands := nodes }, phase := .operator }) :=
    risesTo_top stacked complete _ .operator frame (same ▸ raised)
  have newest := add_length_le_floor rises.1 { top with operands := nodes }.newestHeight_add_cost_le
  exact Affords.checkHeight (Affords.pure ⟨rises, Nat.le_trans (Nat.le_add_right _ _) newest⟩)

theorem affords_pushTrailing {operator : Operator} (behind : operator.fixity = .after) :
    Affords l (e.pushTrailing operator) e.RisesTo Outcome.floor r := by
  unfold pushTrailing
  split
  · rename_i top reduced
    obtain ⟨frame, same⟩ := Level.floor_of_reduce reduced
    split
    · rename_i operands applied
      refine affords_raised stacked complete operands frame same ?_
      rw [heights_of_applied applied]
      exact settled_le_raised (by rw [behind]; decide) _ _
    · exact Affords.failBreaking _
  · exact Affords.failBreaking _

/-- `AS` adds one to all that was folded. -/
theorem affords_pushName : Affords l e.pushName e.RisesTo Outcome.floor r := by
  refine Affords.bind plain_identifier fun name _ _ => ?_
  split
  · rename_i frame node operands operators height reduced
    obtain ⟨frames, same⟩ := Level.floor_of_reduce reduced
    have more := settled_mono operators (Nat.le_succ node.height) (operands.map Node.height)
    exact affords_raised stacked complete (_ :: operands) frames same more
  · exact Affords.failBreaking _

end Operators

/-! ### The end of a level -/

/-- With a complete operand nothing is pending. -/
theorem floor_of_complete (complete : e.phase = .operator) :
    e.floor = floorAround e.below (e.top.floor []) := by
  unfold floor
  rw [complete]
  rfl

/-- Nothing is around the whole expression. -/
theorem below_eq_nil (stacked : e.Stacked) (whole : e.top.frame = .whole) : e.below = [] := by
  unfold Stacked at stacked
  rw [whole] at stacked
  cases around : e.below with
  | nil => rfl
  | cons outer further =>
    rw [around] at stacked
    cases stacked.1

/-- All levels but the whole expression add to the height. -/
theorem cost_of_inner (stacked : e.Stacked) (inner : e.top.frame ≠ .whole) :
    e.top.frame.cost = 1 := by
  unfold Stacked at stacked
  cases around : e.below with
  | nil =>
    rw [around] at stacked
    exact absurd stacked inner
  | cons outer further =>
    rw [around] at stacked
    exact stacked.1

section End

variable (stacked : e.Stacked) (complete : e.phase = .operator) (costs : e.top.frame.cost = 1)
  {height : Nat} (low : e.top.floor [] ≤ height + 1)

include stacked complete costs low

omit costs in
/-- What a level makes is an operand of the level around it. -/
theorem affords_leave {node : Node} (made : node.height = height + 1) :
    Affords l (e.leave node) e.RisesTo Outcome.floor r := by
  refine Affords.checkHeight ?_
  split
  · rename_i outer below levels
    refine Affords.note (Affords.pure ?_)
    have further : MdxReader.Stacked e.top.frame (outer :: below) := levels ▸ stacked
    have inner := pending_le_floor (e := ⟨outer, below, .access node, e.levels - 1,
      by simp [e.levels_eq, levels]⟩) further.2 rfl
    have before := floor_of_complete complete
    rw [levels] at before
    refine ⟨⟨further.2, ?_⟩, Nat.le_trans ?_ inner⟩
    · rw [before]
      exact floorAround_mono (Nat.le_trans low (Nat.le_of_eq made.symm))
    · rw [Nat.add_assoc]
      exact Nat.le_add_right _ _
  · exact Affords.failBreaking _

/-- The next item finds the same levels around it. -/
theorem risesTo_resume {frame : Frame} (same : frame.cost = 1) :
    e.RisesTo (.more (e.resume frame height)) := by
  refine ⟨stacked.congr costs same, floorAround_mono ?_⟩
  rw [complete]
  refine Nat.le_trans low ?_
  change _ ≤ max height 0 + frame.cost
  omega

/-- Brackets other than parentheses are one higher than the highest of their items. -/
theorem affords_closeItems {bracket : Bracket} (apart : bracket ≠ .parens) (items : List Expr) :
    Affords l (e.closeItems bracket items height) e.RisesTo Outcome.floor r := by
  refine Affords.atSymbol ?_ ?_
  · refine Affords.bind Plain.advance fun _ _ _ => Affords.pure ?_
    refine risesTo_resume stacked complete costs low ?_
    cases bracket <;> first | rfl | exact absurd rfl apart
  · refine Affords.bind (Plain.expectClosing _ _) fun _ _ _ => ?_
    refine affords_leave stacked complete low ?_
    cases bracket <;> first | rfl | exact absurd rfl apart

omit costs in
theorem affords_closeCast (x : Expr) :
    Affords l (e.closeCast x height) e.RisesTo Outcome.floor r := by
  refine Affords.atSymbol (Affords.failBreaking _) ?_
  refine Affords.bind (Plain.expectKeyword _) fun _ _ _ => ?_
  refine Affords.bind plain_name fun _ _ _ => ?_
  refine Affords.bind (Plain.expectClosing _ _) fun _ _ _ => ?_
  exact affords_leave stacked complete low rfl

theorem affords_closeCase (operand : Option Expr) (branches : List (Expr × Expr))
    (stage : CaseStage) (x : Expr) :
    Affords l (e.closeCase operand branches stage x height) e.RisesTo Outcome.floor r := by
  have resume (operand : Option Expr) (branches : List (Expr × Expr)) (stage : CaseStage) :
      e.RisesTo (.more (e.resume (.case operand branches stage) height)) :=
    risesTo_resume stacked complete costs low rfl
  cases stage with
  | operand | condition =>
    exact Affords.bind (Plain.expectKeyword _) fun _ _ _ => Affords.pure (resume _ _ _)
  | result condition =>
    refine Affords.atKeyword ?_ (Affords.atKeyword ?_ (Affords.atKeyword ?_
      (Affords.failExpecting _)))
    · exact Affords.bind Plain.advance fun _ _ _ => Affords.pure (resume _ _ _)
    · exact Affords.bind Plain.advance fun _ _ _ => Affords.pure (resume _ _ _)
    · exact Affords.bind Plain.advance fun _ _ _ => affords_leave stacked complete low rfl
  | otherwise =>
    exact Affords.bind (Plain.expectKeyword _) fun _ _ _ =>
      affords_leave stacked complete low rfl

end End

/-- Closing a level demands no more than the height of what it comes to. -/
theorem affords_closeLevel (stacked : e.Stacked) (complete : e.phase = .operator) :
    Affords l e.closeLevel e.RisesTo Outcome.floor r := by
  unfold closeLevel
  split
  · rename_i node finished
    have ends := Level.floor_of_finish finished
    have before := floor_of_complete complete
    have bounded : node.height ≤ e.floor := by
      have inner : node.height + e.top.frame.cost ≤ e.top.floor e.phase.pending := by
        rw [complete]
        exact Nat.le_trans (by omega) (Nat.le_of_eq ends.symm)
      exact Nat.le_trans (Nat.le_add_right _ _) (add_length_le_floor stacked inner)
    have closed : Affords l (e.closeFrame node.expr (max e.top.height node.height)) e.RisesTo
        Outcome.floor r := by
      have low (inner : e.top.frame ≠ .whole) :
          e.top.floor [] ≤ max e.top.height node.height + 1 :=
        Nat.le_of_eq (by rw [ends, cost_of_inner stacked inner])
      unfold closeFrame
      split
      · rename_i frame
        rw [below_eq_nil stacked frame, ends, frame] at before
        exact Affords.pure ⟨trivial, Nat.le_of_eq before⟩
      · rename_i bracket items frame
        have inner : e.top.frame ≠ .whole := by rw [frame]; nofun
        have costs := cost_of_inner stacked inner
        refine affords_closeItems stacked complete costs (low inner) ?_ _
        rintro rfl
        rw [frame] at costs
        cases costs
      · rename_i frame
        have inner : e.top.frame ≠ .whole := by rw [frame]; nofun
        exact affords_closeCast stacked complete (low inner) _
      · rename_i operand branches stage frame
        have inner : e.top.frame ≠ .whole := by rw [frame]; nofun
        exact affords_closeCase stacked complete (cost_of_inner stacked inner) (low inner) _ _ _ _
    refine Affords.checkHeight (closed.mono fun outcome rises => ⟨rises, ?_⟩)
    exact Nat.le_trans bounded rises.2
  · exact Affords.failBreaking _

/-! ### Steps and runs -/

theorem plain_nullTest : Plain nullTest := by
  refine Plain.atKeyword (Plain.pure _) (Plain.atKeyword (Plain.pure _) ?_)
  refine Plain.atKeyword (Plain.advance.bind fun _ => ?_) (Plain.pure _)
  exact Plain.atKeyword (Plain.pure _) (Plain.atKeyword (Plain.pure _) (Plain.failExpecting _))

theorem fixity_of_nullTest {operator : Operator} {after : Reader}
    (h : nullTest r = .ok (some operator) after) : operator.fixity = .after := by
  have tests : Safe anywhere True nullTest _ := safe_nullTest
  exact ((tests r trivial).ok h).1 operator rfl

theorem affords_identityStep (stacked : e.Stacked) (complete : e.phase = .operator) :
    Affords l e.identityStep e.RisesTo Outcome.floor r := by
  refine Affords.bind plain_nullTest fun test _ found => ?_
  cases test with
  | some operator =>
    refine Affords.bind Plain.advance fun _ _ _ => ?_
    exact affords_pushTrailing stacked complete (fixity_of_nullTest found)
  | none => exact affords_pushBinary stacked complete rfl

theorem affords_negationStep (stacked : e.Stacked) (complete : e.phase = .operator) :
    Affords l e.negationStep e.RisesTo Outcome.floor r := by
  refine Affords.atKeyword ?_ (Affords.atKeyword ?_ (Affords.failExpecting _))
  · exact Affords.bind Plain.advance fun _ _ _ => affords_pushBinary stacked complete rfl
  · exact Affords.bind Plain.advance fun _ _ _ => affords_pushBinary stacked complete rfl

theorem affords_operatorStep (stacked : e.Stacked) (complete : e.phase = .operator) :
    Affords l e.operatorStep e.RisesTo Outcome.floor r := by
  refine Affords.get rfl (Affords.ite (fun _ => ?_) fun _ => Affords.ite (fun _ => ?_) fun _ => ?_)
  · exact Affords.bind Plain.advance fun _ _ _ => affords_identityStep stacked complete
  · exact Affords.bind Plain.advance fun _ _ _ => affords_negationStep stacked complete
  split
  · refine Affords.ite (fun _ => affords_closeLevel stacked complete) fun _ => ?_
    exact Affords.bind Plain.advance fun _ _ _ => affords_pushName stacked complete
  · rename_i operator _ found
    have between := fixity_of_following found
    exact Affords.bind Plain.advance fun _ _ _ => affords_pushBinary stacked complete between
  · exact affords_closeLevel stacked complete

/-- **The floor never sinks, and no step demands more than it**, while no parentheses are opened. -/
theorem affords_step (stacked : e.Stacked) (measured : e.Measured) :
    Affords l e.step e.RisesTo Outcome.floor r := by
  have more {reading : ReadM Engine} (h : Affords l reading e.Rises floor r) :
      Affords l (do return Outcome.more (← reading)) e.RisesTo Outcome.floor r := by
    intro outcome after found
    obtain ⟨next, between, read, made⟩ := bind_eq_ok found
    cases made
    refine (h next _ read).imp id fun ⟨rises, depth, rerun⟩ => ⟨rises, depth, fun fits => ?_⟩
    exact bind_of_ok (rerun fits)
  unfold step
  cases phase : e.phase with
  | operand => exact more (affords_operandStep stacked phase)
  | access node =>
    have operand := measured.phase
    rw [phase] at operand
    exact more (affords_accessStep stacked phase operand)
  | operator => exact affords_operatorStep stacked phase

/-- **A run affords the height of its result.**  If no parentheses are opened, then whatever is open
or waits becomes part of the expression, and every limit that reaches its height is enough. -/
theorem affords_run (stacked : e.Stacked) (measured : e.Measured) (balanced : e.Balanced) :
    Affords l e.run (fun node => e.floor ≤ node.height ∧ node.Measured) Node.height r := by
  intro node after found
  -- The measure of the engine falls with every step, also where the reader stays.
  induction bound : e.measure r using Nat.strongRecOn generalizing e r with
  | _ n ih =>
    rw [run_apply] at found
    cases stepped : e.step r with
    | error fault last =>
      rw [stepped] at found
      cases found
    | ok outcome between =>
      rw [stepped] at found
      have exactly := ((measured_step measured).ok stepped).2
      have kept : Safe anywhere True e.step Outcome.Balanced := safe_step balanced
      have later := ((kept r trivial).ok stepped).1
      have affords := affords_step (l := l) stacked measured outcome between stepped
      cases outcome with
      | done last =>
        cases found
        refine affords.imp id fun ⟨⟨_, rises⟩, depth, rerun⟩ =>
          ⟨⟨rises, exactly⟩, depth, fun fits => ?_⟩
        rw [run_apply, rerun fits]
      | more next =>
        rcases affords with opened | ⟨⟨still, rises⟩, depth, rerun⟩
        · -- Parentheses that were opened on the way were opened in the end.
          have rest : Safe bracketed True next.run Anything := safe_run later
          exact .inl ((rest between opened).ok found).2
        · refine (ih _ (bound ▸ measure_lt stepped) still exactly later found rfl).imp id ?_
          rintro ⟨⟨rises', measured'⟩, depth', rerun'⟩
          refine ⟨⟨Nat.le_trans rises rises', measured'⟩, depth'.trans depth, fun fits => ?_⟩
          change r.depth + next.floor ≤ l → _ at rerun
          rw [run_apply, rerun (by omega)]
          exact rerun' (by omega)

end Engine

/-! ### Whole expressions -/

/-- A reader at the beginning of a text may have any limit. -/
theorem Reader.ofText_under {text : String} {limit : Nat} {r : Reader}
    (h : ofText text limit = .ok r) (l : Nat) : ofText text l = .ok (r.under l) := by
  unfold ofText at h ⊢
  split at h
  · cases h
    rfl
  · cases h

/-- Unless parentheses are opened, an expression demands no more of the limit than its own height.
-/
theorem ReadM.affords_wholeExpression {r : Reader} {l : Nat} :
    Affords l wholeExpression (fun _ => True) Expr.height r := by
  intro x after found
  obtain ⟨y, between, read, ended⟩ := bind_eq_ok found
  obtain ⟨node, last, ran, made⟩ := bind_eq_ok read
  cases made
  obtain ⟨_, behind, finished, made⟩ := bind_eq_ok ended
  cases made
  obtain ⟨rfl, -⟩ := eq_of_expectEnd finished
  have afforded := Engine.affords_run (l := l) Engine.stacked_start Engine.measured_start
    Engine.balanced_start node _ ran
  refine afforded.imp id fun ⟨⟨_, measured⟩, depth, rerun⟩ => ⟨trivial, depth, fun fits => ?_⟩
  rw [show node.expr.height = node.height from measured] at fits
  have again : expression (r.under l) = .ok node.expr (after.under l) := bind_of_ok (rerun fits)
  have ending := (Plain.expectEnd after () after finished).2 l
  exact (bind_of_ok again).trans (bind_of_ok ending)

/-- What a text was read as without parentheses, is read under every limit that reaches its
height. -/
theorem read_of_height_le {text : String} {limit : Nat} {x : Expr} {events : List LevelEvent}
    (found : readWithEvents .expression text limit = (.ok (.expression x), events))
    (free : ∀ depth, .opened .parens depth ∉ events) {l : Nat} (fits : x.height ≤ l) :
    read .expression text l = .ok (.expression x) := by
  unfold readWithEvents at found
  cases start : Reader.ofText text limit with
  | error e =>
    rw [start] at found
    cases found
  | ok r =>
    simp only [start, Reader.attempt] at found
    split at found
    · rename_i tree after done
      cases found
      obtain ⟨y, between, whole, made⟩ := bind_eq_ok done
      cases made
      rcases affords_wholeExpression (l := l) x after whole with ⟨depth, opened⟩ | ⟨-, -, rerun⟩
      · exact absurd (List.mem_reverse.mpr opened) (free depth)
      · rw [Reader.depth_of_ofText start, Nat.zero_add] at rerun
        have again : Goal.reading .expression (r.under l) = .ok (.expression x) (after.under l) :=
          bind_of_ok (rerun fits)
        exact read_of_ok (Reader.ofText_under start l) again
    · cases found

/-- **The limit is exact where no parentheses are opened.**  If a text is read as an expression
under some limit, and no level of parentheses was opened on the way, then it is read as the same
expression under every limit that reaches the height of it, and under every lower one it is too
deep.  So an identifier needs no room, however many segments it has. -/
theorem read_expression_eq_ite {text : String} {limit : Nat} {x : Expr} {events : List LevelEvent}
    (found : readWithEvents .expression text limit = (.ok (.expression x), events))
    (free : ∀ depth, .opened .parens depth ∉ events) :
    (∀ l, read .expression text l =
      if x.height ≤ l then .ok (.expression x) else .error (.tooDeep l)) ∧
    ∀ id, x = .identifier id → read .expression text 0 = .ok (.expression x) := by
  have enough {l : Nat} (fits : x.height ≤ l) := read_of_height_le found free fits
  refine ⟨fun l => ?_, fun id same => enough (by rw [same]; simp [Expr.height])⟩
  by_cases fits : x.height ≤ l
  · rw [if_pos fits]
    exact enough fits
  · rw [if_neg fits]
    -- Under a lower limit the tree would be too high, so nothing but the complaint is left.
    rcases read_eq_or_tooDeep .expression text (Nat.le_of_not_le fits) with same | ⟨n, hit⟩
    · rw [enough (Nat.le_refl _)] at same
      obtain ⟨r, after, here, read⟩ := exists_reading_of_read same
      have low := (Goal.good_reading here read).2
      exact absurd (Nat.le_trans (Nat.le_add_left _ _) low) fits
    · have points : Points (Standard.exact text l) (Goal.reading .expression) Anything :=
        points_wholeExpression.bind fun _ _ => Points.pure trivial
      have number : n = l := points.accepts_of_read hit
      rw [hit, number]

/-- A sign, a method with an argument left out, a set, a negated operator, a `CASE`, a test and a
name, ten levels in all. -/
def mixedText : String :=
  "-a.[b].f(, \x7b1 NOT IN CASE WHEN +x THEN 2 END\x7d IS NULL) * y.&k AS n"

/-- A level of parentheses is opened. -/
def LevelEvent.opensParens : LevelEvent → Bool
  | opened .parens _ => true
  | _ => false

/-- Ten levels are enough for it and nine are not. -/
theorem read_expression_eq_ite_mixed : ∃ x events,
    readWithEvents .expression mixedText 20 = (.ok (.expression x), events) ∧
    (∀ depth, .opened .parens depth ∉ events) ∧
    read .expression mixedText 10 = .ok (.expression x) ∧
    read .expression mixedText 9 = .error (.tooDeep 9) := by
  have height : (read .expression mixedText 20).toOption.map Tree.height = some 10 := by
    decide +kernel
  have opened : (readWithEvents .expression mixedText 20).2.all (!·.opensParens) = true := by
    decide +kernel
  obtain ⟨x, found⟩ : ∃ x, read .expression mixedText 20 = .ok (.expression x) := by
    refine exists_expression_of_isOk ?_
    cases found : read .expression mixedText 20 with
    | ok tree => rfl
    | error e =>
      rw [found] at height
      cases height
  have ten : x.height = 10 := by simpa [found, Except.toOption, Tree.height] using height
  have run : readWithEvents .expression mixedText 20 =
      (.ok (.expression x), (readWithEvents .expression mixedText 20).2) := by
    rw [← found, read]
  have free (depth : Nat) :
      .opened .parens depth ∉ (readWithEvents .expression mixedText 20).2 := by
    intro mem
    cases List.all_eq_true.mp opened _ mem
  have exactly := (read_expression_eq_ite run free).1
  refine ⟨x, _, run, free, ?_, ?_⟩
  · rw [exactly, if_pos (by omega)]
  · rw [exactly, if_neg (by omega)]

end MdxReader
