import MdxReader.Text.Alphabetic
import MdxReader.Text.Mark
import MdxReader.Text.Number

/-!
# Character classes of MDX text

* `isBlank`: what separates tokens, the property `White_Space`.
* `isNameStart`, `isNamePart`: the characters of a bare name.
* `isWordPart`: the characters inside a word of running text, which decide where a first word ends
  when a text is only looked at (`MdxReader.Check`).

The last two differ: `²` is part of a bare name and ends a word, a combining mark the reverse.
-/

namespace MdxReader.Text

/-- The code points with the property `White_Space`. -/
def blankTable : List CharRange :=
  CharRange.table [
    (0x0009, 0x000D), (0x0020, 0x0020), (0x0085, 0x0085), (0x00A0, 0x00A0), (0x1680, 0x1680),
    (0x2000, 0x200A), (0x2028, 0x2029), (0x202F, 0x202F), (0x205F, 0x205F), (0x3000, 0x3000)]

/-- The code points of category `Pc`: the low line and its relatives. -/
def connectorTable : List CharRange :=
  CharRange.table [
    (0x005F, 0x005F), (0x203F, 0x2040), (0x2054, 0x2054), (0xFE33, 0xFE34), (0xFE4D, 0xFE4F),
    (0xFF3F, 0xFF3F)]

/-- White space, line breaks included. -/
def isBlank (c : Char) : Bool :=
  covers blankTable c.toNat

/-- Letters of all scripts. -/
def isAlphabetic (c : Char) : Bool :=
  covers alphabeticTable c.toNat

/-- Decimal digits of all scripts. -/
def isDecimalDigit (c : Char) : Bool :=
  covers decimalDigitTable c.toNat

/-- Letters and numbers of all scripts. -/
def isAlphanumeric (c : Char) : Bool :=
  isAlphabetic c || isDecimalDigit c || covers otherNumberTable c.toNat

/-- A bare name starts with a letter, `_` or `$`. -/
def isNameStart (c : Char) : Bool :=
  isAlphabetic c || c == '_' || c == '$'

/-- A bare name goes on with letters, numbers, `_` and `$`. -/
def isNamePart (c : Char) : Bool :=
  isAlphanumeric c || c == '_' || c == '$'

/-- Inside a word of running text: letters, marks, decimal digits, connectors, the two joiners. -/
def isWordPart (c : Char) : Bool :=
  isAlphabetic c || covers markTable c.toNat || isDecimalDigit c || covers connectorTable c.toNat ||
    c.toNat == 0x200C || c.toNat == 0x200D

/-- What starts a bare name can also stand inside it. -/
theorem isNamePart_of_isNameStart {c : Char} (h : isNameStart c = true) : isNamePart c = true := by
  simp only [isNameStart, isNamePart, isAlphanumeric, Bool.or_eq_true] at h ⊢
  rcases h with (h | h) | h <;> simp [h]

end MdxReader.Text
