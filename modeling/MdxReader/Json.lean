/-!
# JSON text

A JSON value and its text, on one line or indented.  `Json.write` writes both: the layouts differ
only in what stands at a line break and behind a colon.  The fields of an object are written in the
order in which they are given.
-/

namespace MdxReader

/-- A JSON value.  Numbers are natural numbers; other numbers are written as strings. -/
inductive Json where
  | null
  | bool (value : Bool)
  | number (value : Nat)
  | string (value : String)
  | array (items : List Json)
  | object (fields : List (String × Json))

namespace Json

/-- How values are laid out. -/
inductive Layout where
  /-- Everything on one line, without spaces. -/
  | compact
  /-- One item or field a line, two spaces for each level. -/
  | indented
  deriving DecidableEq

/-- What stands where a line may end, `depth` levels deep. -/
def Layout.lineBreak (layout : Layout) (depth : Nat) : String :=
  match layout with
  | compact => ""
  | indented => String.ofList ('\n' :: List.replicate (2 * depth) ' ')

/-- What stands between a key and its value. -/
def Layout.colon : Layout → String
  | compact => ":"
  | indented => ": "

/-- A digit of base 16 in lower case. -/
def hexDigit (n : Nat) : Char :=
  if n < 10 then Char.ofNat ('0'.toNat + n) else Char.ofNat ('a'.toNat + (n - 10))

/-- A character inside a string.  Quotation mark, backslash and control characters are escaped, all
others stand for themselves. -/
def escape (c : Char) : String :=
  if c = '"' then "\\\""
  else if c = '\\' then "\\\\"
  else if c = '\n' then "\\n"
  else if c = '\r' then "\\r"
  else if c = '\t' then "\\t"
  else if c = '\x08' then "\\b"
  else if c = '\x0c' then "\\f"
  else if c.toNat < 0x20 then
    ("\\u00".push (hexDigit (c.toNat / 16))).push (hexDigit (c.toNat % 16))
  else c.toString

/-- Writes a string literal behind `before`. -/
def writeString (before text : String) : String :=
  (text.toList.foldl (fun written c => written ++ escape c) (before.push '"')).push '"'

mutual

/-- Writes a value behind `before`, `depth` levels deep. -/
def write (layout : Layout) (depth : Nat) (before : String) : Json → String
  | null => before ++ "null"
  | bool value => before ++ (if value then "true" else "false")
  | number value => before ++ toString value
  | string value => writeString before value
  | array [] => before ++ "[]"
  | array (item :: items) =>
    let first := write layout (depth + 1) (before ++ "[" ++ layout.lineBreak (depth + 1)) item
    writeItems layout (depth + 1) first items ++ layout.lineBreak depth ++ "]"
  | object [] => before ++ "\x7b\x7d"
  | object ((key, value) :: fields) =>
    let opened := before ++ "\x7b" ++ layout.lineBreak (depth + 1)
    let first := write layout (depth + 1) (writeString opened key ++ layout.colon) value
    writeFields layout (depth + 1) first fields ++ layout.lineBreak depth ++ "\x7d"

/-- Writes the items that follow another item. -/
def writeItems (layout : Layout) (depth : Nat) (before : String) : List Json → String
  | [] => before
  | item :: items =>
    let opened := before ++ "," ++ layout.lineBreak depth
    writeItems layout depth (write layout depth opened item) items

/-- Writes the fields that follow another field. -/
def writeFields (layout : Layout) (depth : Nat) (before : String) : List (String × Json) → String
  | [] => before
  | (key, value) :: fields =>
    let opened := before ++ "," ++ layout.lineBreak depth
    let first := write layout depth (writeString opened key ++ layout.colon) value
    writeFields layout depth first fields

end

/-- The text of a value. -/
def render (layout : Layout) (value : Json) : String :=
  write layout 0 "" value

/-- `null` for what is absent. -/
def ofOption {α : Type} (toJson : α → Json) : Option α → Json
  | none => null
  | some a => toJson a

end Json

end MdxReader
