import MdxReader.Decimal

/-!
# Numeric literals

A `Numeral` is a literal as it was written: digits, perhaps a fraction, perhaps an exponent.
`Numeral.value?` is the decimal it stands for.

* Digits are taken from the left.  Before the point every digit has to fit.
* After the point, the first digit that does not fit (there are 28 places already, or the mantissa
  would leave its range) ends the reading and alone decides the rounding.
* A negative exponent adds places.  A positive one takes places away, and once none is left
  multiplies the mantissa.
-/

namespace MdxReader

/-- The exponent of a literal: `e-5`, `E12`. -/
structure Exponent where
  /-- The letter that was used. -/
  letter : Char
  negative : Bool
  digits : List Char

/-- A literal as written, a `+` in the exponent aside. -/
structure Numeral where
  whole : List Char
  /-- The digits after the point; without a point there are none. -/
  fraction : List Char
  exponent : Option Exponent

/-- The value of a digit from `0` to `9`. -/
def digitValue (c : Char) : Nat := c.toNat - '0'.toNat

/-- The number that digits write. -/
def digitsValue (digits : List Char) : Nat :=
  digits.foldl (fun value c => value * 10 + digitValue c) 0

namespace Numeral

/-- The text of an exponent. -/
def exponentText : Option Exponent → List Char
  | none => []
  | some e => e.letter :: (if e.negative then '-' :: e.digits else e.digits)

/-- The text of a literal. -/
def text (n : Numeral) : String :=
  String.ofList
    (n.whole ++ (if n.fraction.isEmpty then [] else '.' :: n.fraction) ++ exponentText n.exponent)

/-- The mantissa with one more digit, if that fits. -/
@[irreducible] def appendDigit? (mantissa : Nat) (c : Char) : Option Nat :=
  let longer := mantissa * 10 + digitValue c
  if longer < Decimal.mantissaBound then some longer else none

/-- The mantissa of the digits before the point. -/
def readWhole : Nat → List Char → Option Nat
  | mantissa, [] => some mantissa
  | mantissa, c :: rest => (appendDigit? mantissa c).bind fun longer => readWhole longer rest

/-- The mantissa and scale after rounding by the digit that had no room.  A mantissa that leaves its
range gives up a place. -/
def roundBy (mantissa scale : Nat) (c : Char) : Option (Nat × Nat) :=
  if digitValue c < 5 then some (mantissa, scale)
  else if mantissa + 1 < Decimal.mantissaBound then some (mantissa + 1, scale)
  else if scale = 0 then none
  else some ((mantissa + 1 + 4) / 10, scale - 1)

/-- The mantissa and scale once the digits after the point are read. -/
def readFraction : Nat → Nat → List Char → Option (Nat × Nat)
  | mantissa, scale, [] => some (mantissa, scale)
  | mantissa, scale, c :: rest =>
    if scale = Decimal.maxScale then roundBy mantissa scale c
    else match appendDigit? mantissa c with
      | some longer => readFraction longer (scale + 1) rest
      | none => roundBy mantissa scale c

/-- The mantissa and scale of a literal without its exponent. -/
def plain? (n : Numeral) : Option (Nat × Nat) :=
  (readWhole 0 n.whole).bind fun mantissa => readFraction mantissa 0 n.fraction

/-- The exponents that can be written: those of 32 bits. -/
def exponentBound : Nat := Nat.pow 2 32

/-- The mantissa and scale after an exponent. -/
def shift? (e : Exponent) (mantissa scale : Nat) : Option (Nat × Nat) :=
  let places := digitsValue e.digits
  if exponentBound ≤ places then none
  else if e.negative then
    if Decimal.maxScale < places then none else some (mantissa, scale + places)
  else if places ≤ scale then some (mantissa, scale - places)
  else if Decimal.maxScale < places then none
  else some (mantissa * Nat.pow 10 (places - scale), 0)

/-- The decimal a literal stands for; none if it is out of range. -/
def value? (n : Numeral) : Option Decimal :=
  n.plain?.bind fun (mantissa, scale) =>
    match n.exponent with
    | none => Decimal.ofParts? mantissa scale
    | some e => (shift? e mantissa scale).bind fun (m, s) => Decimal.ofParts? m s

end Numeral

end MdxReader
