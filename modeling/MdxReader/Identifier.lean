/-!
# Identifiers

Cubes, dimensions, members and columns are named by identifiers: `[Time].&[2024]&[Q1].[Jan]` has
three segments, a name, a key of two parts, and a name.
-/

namespace MdxReader

/-- Whether a name was written in brackets. -/
inductive Quoting where
  | quoted
  | bare
  deriving DecidableEq

/-- One name. -/
structure Name where
  text : String
  quoting : Quoting
  deriving DecidableEq

/-- A member key of one or more parts, written `&a&[b]`. -/
structure Key where
  first : Name
  more : List Name
  deriving DecidableEq

/-- The parts of a key in order. -/
def Key.parts (key : Key) : List Name := key.first :: key.more

/-- What stands between two dots of an identifier. -/
inductive Segment where
  | name (name : Name)
  | key (key : Key)
  deriving DecidableEq

/-- One segment, or an identifier and one more segment. -/
inductive Identifier where
  | single (segment : Segment)
  | dotted (qualifier : Identifier) (segment : Segment)
  deriving DecidableEq

namespace Identifier

/-- An identifier that is a name. -/
def ofName (name : Name) : Identifier := single (.name name)

/-- The segments in order, in front of `later`. -/
def segmentsBefore (later : List Segment) : Identifier → List Segment
  | single segment => segment :: later
  | dotted qualifier segment => qualifier.segmentsBefore (segment :: later)

/-- The segments in order. -/
def segments (id : Identifier) : List Segment := id.segmentsBefore []

/-- The name of an identifier that is nothing but a name. -/
def singleName? : Identifier → Option Name
  | single (.name name) => some name
  | _ => none

theorem segmentsBefore_eq (id : Identifier) (later : List Segment) :
    id.segmentsBefore later = id.segments ++ later := by
  induction id generalizing later with
  | single segment => rfl
  | dotted qualifier segment ih =>
    simp only [segments, segmentsBefore]
    rw [ih, ih [segment], List.append_assoc, List.singleton_append]

@[simp] theorem segments_single (segment : Segment) : (single segment).segments = [segment] := rfl

@[simp] theorem segments_dotted (qualifier : Identifier) (segment : Segment) :
    (dotted qualifier segment).segments = qualifier.segments ++ [segment] :=
  segmentsBefore_eq qualifier [segment]

end Identifier

end MdxReader
