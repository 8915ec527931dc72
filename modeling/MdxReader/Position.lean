/-!
# Places in a text

A `Position` counts characters from 0 and lines and columns from 1.  `Position.past` moves it over a
stretch of text; only a newline starts a new line.

Lines and columns are counted in 32 bits, and the counters wrap around.
-/

namespace MdxReader

/-- A counter of 32 bits is read as the number it holds. -/
instance natOfCounter : Coe UInt32 Nat := ⟨UInt32.toNat⟩

/-- A place between two characters of a text. -/
structure Position where
  /-- Characters before this place. -/
  offset : Nat
  /-- One more than the newlines before this place. -/
  line : UInt32
  /-- One more than the characters since the last newline. -/
  column : UInt32
  deriving DecidableEq

namespace Position

/-- Where a text begins. -/
def start : Position := ⟨0, 1, 1⟩

/-- The place after one more character. -/
def next (place : Position) (c : Char) : Position :=
  if c = '\n' then ⟨place.offset + 1, place.line + 1, 1⟩
  else ⟨place.offset + 1, place.line, place.column + 1⟩

/-- The place after a stretch of text. -/
def past (place : Position) (text : List Char) : Position :=
  text.foldl next place

/-- How a place is named in a message. -/
def describe (place : Position) : String :=
  "line " ++ toString place.line ++ ", column " ++ toString place.column

@[simp] theorem past_nil (place : Position) : place.past [] = place := rfl

@[simp] theorem past_cons (place : Position) (c : Char) (text : List Char) :
    place.past (c :: text) = (place.next c).past text := rfl

/-- Moving over two stretches in turn is moving over both. -/
theorem past_append (place : Position) (text more : List Char) :
    place.past (text ++ more) = (place.past text).past more :=
  List.foldl_append ..

/-- The offset grows by the characters moved over. -/
theorem offset_past (place : Position) (text : List Char) :
    (place.past text).offset = place.offset + text.length := by
  induction text generalizing place with
  | nil => rfl
  | cons c text ih =>
    rw [past_cons, ih, List.length_cons, next]
    split <;> simp only <;> omega

end Position

end MdxReader
