import MdxReader.Identifier
import MdxReader.Reading.Reader

/-!
# Reading names

Names, keys, dotted identifiers and counts, outside of expressions.  A name or key is taken before
it is judged, so a reader that fails on a reserved word or on `[]` has moved past it.
-/

namespace MdxReader.ReadM

variable {α : Type}

/-- A bare or bracketed name. -/
def name : ReadM Name := do
  let r ← get
  match r.token with
  | .word text =>
    advance
    return ⟨text, .bare⟩
  | .keyword k spelling =>
    advance
    if k.isReserved then throw (.reservedWord spelling r.place) else return ⟨spelling, .bare⟩
  | .bracketed text =>
    advance
    if text.isEmpty then throw (.emptyName r.place) else return ⟨text, .quoted⟩
  | _ => failExpecting .identifier

/-- The part of a key that a token holds. -/
def keyPart (place : Position) : Token → Except ReadError Name
  | .bracketedKey text => if text.isEmpty then .error (.emptyName place) else .ok ⟨text, .quoted⟩
  | .wordKey text => .ok ⟨text, .bare⟩
  | token => .error (.unexpected .key (.token token) place)

/-- Takes one more part of a key; `parts` are those before, newest first. -/
def moreKey (parts : List Name) : ReadM (List Name) := do
  let r ← get
  advance
  let part ← judge (keyPart r.place r.token)
  return part :: parts

theorem Keeps.name : Keeps name := by
  refine .bind .get fun r => ?_
  split
  · exact .bind .advance fun _ => .pure _
  · exact .bind .advance fun _ => .ite (.throw _) (.pure _)
  · exact .bind .advance fun _ => .ite (.throw _) (.pure _)
  · exact .failExpecting _

/-- The part of the key that was looked at is taken. -/
theorem Spends.moreKey {parts : List Name} {r : Reader} (h : r.token.isKeyPart = true) :
    Spends (moreKey parts) r :=
  .of_get (.bind (.advance (Token.ne_endOfText_of_isKeyPart h)) fun _ =>
    .bind (.judge _) fun _ => .pure _)

/-- A key whose first part was taken already. -/
def keyFrom (place : Position) (first : Token) : ReadM Key := do
  let first ← judge (keyPart place first)
  let more ← whileToken Token.isKeyPart moreKey (fun _ _ => Spends.moreKey) []
  return ⟨first, more.reverse⟩

theorem Keeps.keyFrom (place : Position) (first : Token) : Keeps (keyFrom place first) :=
  .bind (.judge _) fun _ => .bind (.whileToken _ _ _ _) fun _ => .pure _

/-- One segment of an identifier. -/
def segment : ReadM Segment := do
  let r ← get
  if r.token.isKeyPart then
    advance
    return .key (← keyFrom r.place r.token)
  else return .name (← name)

theorem Keeps.segment : Keeps segment :=
  .bind .get fun _ => .ite (.bind .advance fun _ => .bind (.keyFrom _ _) fun _ => .pure _)
    (.bind .name fun _ => .pure _)

/-- Reads a separator and the segment behind it. -/
def moreSegments (id : Identifier) : ReadM Identifier := do
  advance
  return id.dotted (← segment)

/-- The dot is taken. -/
theorem Spends.moreSegments {id : Identifier} {r : Reader} (h : r.token.isSymbol .dot = true) :
    Spends (moreSegments id) r :=
  .bind (.advance (Token.ne_endOfText_of_isSymbol h)) fun _ => .bind .segment fun _ => .pure _

/-- An identifier, all of whose segments are part of the name. -/
def identifier : ReadM Identifier := do
  let first ← segment
  whileToken (·.isSymbol .dot) moreSegments (fun _ _ => Spends.moreSegments) (.single first)

theorem Keeps.identifier : Keeps identifier :=
  .bind .segment fun _ => .whileToken _ _ _ _

/-! ### Lists -/

/-- Reads a comma and the item behind it; `items` are those before, newest first. -/
def moreItems (item : ReadM α) (items : List α) : ReadM (List α) := do
  advance
  return (← item) :: items

/-- The comma is taken, and the item behind it gives nothing back. -/
theorem Spends.moreItems {item : ReadM α} {items : List α} {r : Reader} (keeps : Keeps item)
    (h : r.token.isSymbol .comma = true) : Spends (moreItems item items) r :=
  .bind (.advance (Token.ne_endOfText_of_isSymbol h)) fun _ => .bind keeps fun _ => .pure _

/-- The items that follow `items` (newest first) behind commas, all in order. -/
def itemsAfter (item : ReadM α) (keeps : Keeps item) (items : List α) : ReadM (List α) := do
  let all ← whileToken (·.isSymbol .comma) (moreItems item)
    (fun _ _ => Spends.moreItems keeps) items
  return all.reverse

theorem Keeps.itemsAfter (item : ReadM α) (keeps : Keeps item) (items : List α) :
    Keeps (itemsAfter item keeps items) :=
  .bind (.whileToken _ _ _ _) fun _ => .pure _

/-- One or more items with commas between them. -/
def separated (item : ReadM α) (keeps : Keeps item) : ReadM (List α) := do
  let first ← item
  itemsAfter item keeps [first]

theorem Keeps.separated (item : ReadM α) (keeps : Keeps item) : Keeps (separated item keeps) :=
  .bind keeps fun _ => .itemsAfter _ _ _

/-- One or more identifiers. -/
def identifiers : ReadM (List Identifier) :=
  separated identifier .identifier

theorem Keeps.identifiers : Keeps identifiers := .separated _ _

/-! ### Cube names and counts -/

/-- The name of a cube, which has a single segment. -/
def cubeName : ReadM Name := do
  let found ← name
  let r ← get
  if r.token.isSymbol .dot then throw (.dottedCubeName r.place) else return found

theorem Keeps.cubeName : Keeps cubeName :=
  .bind .name fun _ => .bind .get fun _ => .ite (.throw _) (.pure _)

/-- Counts have 64 bits. -/
def countBound : Nat := Nat.pow 2 64

/-- The count that a token denotes: a number without fraction below the bound. -/
def countOf? : Token → Option Nat
  | .number value => value.toNat?.filter (· < countBound)
  | _ => none

/-- A count; `expected` is what a message asks for. -/
def count (expected : Expected) : ReadM Nat := do
  let r ← get
  match countOf? r.token with
  | some n =>
    advance
    return n
  | none => failExpecting expected

theorem Keeps.count (expected : Expected) : Keeps (count expected) := by
  refine .bind .get fun r => ?_
  split
  · exact .bind .advance fun _ => .pure _
  · exact .failExpecting _

end MdxReader.ReadM
