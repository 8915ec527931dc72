/-!
# Exact decimal numbers

A `Decimal` is `mantissa / 10 ^ scale` with a mantissa below `2 ^ 96` and at most 28 places.  The
scale is kept as it was written, so `1.50` and `1.5` are different decimals of equal value:
`text` tells them apart and `sameValue` does not.
-/

namespace MdxReader

/-- The bound of the mantissa, which has 96 bits. -/
def Decimal.mantissaBound : Nat := Nat.pow 2 96

/-- The greatest number of places after the point. -/
def Decimal.maxScale : Nat := 28

/-- A number without sign, exact, with a fixed number of places. -/
structure Decimal where
  mantissa : Nat
  scale : Nat
  mantissa_lt : mantissa < Decimal.mantissaBound
  scale_le : scale ≤ Decimal.maxScale
  deriving DecidableEq

namespace Decimal

/-- The decimal with these parts, if they are in range. -/
def ofParts? (mantissa scale : Nat) : Option Decimal :=
  if h : mantissa < mantissaBound ∧ scale ≤ maxScale then some ⟨mantissa, scale, h.1, h.2⟩ else none

/-- Two decimals denote the same number. -/
def sameValue (a b : Decimal) : Bool :=
  a.mantissa * Nat.pow 10 b.scale == b.mantissa * Nat.pow 10 a.scale

/-- The natural number a decimal denotes, if it has no fraction. -/
def toNat? (d : Decimal) : Option Nat :=
  if d.mantissa % Nat.pow 10 d.scale = 0 then some (d.mantissa / Nat.pow 10 d.scale) else none

/-- The digits of the mantissa, with zeros in front so that at least one stands before the point. -/
def digits (d : Decimal) : List Char :=
  let shown := Nat.toDigits 10 d.mantissa
  List.replicate (d.scale + 1 - shown.length) '0' ++ shown

/-- The number with exactly `scale` places: `1.50`, `0.00010`, `42`. -/
def text (d : Decimal) : String :=
  let shown := d.digits
  let point := shown.length - d.scale
  if d.scale = 0 then String.ofList shown
  else String.ofList (shown.take point ++ '.' :: shown.drop point)

/-- A decimal has the parts it was made from. -/
theorem parts_of_ofParts? {mantissa scale : Nat} {d : Decimal}
    (h : ofParts? mantissa scale = some d) : d.mantissa = mantissa ∧ d.scale = scale := by
  unfold ofParts? at h
  split at h
  · simp only [Option.some.injEq] at h
    subst h
    exact ⟨rfl, rfl⟩
  · simp at h

end Decimal

end MdxReader
