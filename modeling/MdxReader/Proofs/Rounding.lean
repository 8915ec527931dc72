import Mathlib.Algebra.Order.Field.Basic
import Mathlib.Algebra.Order.Ring.Abs
import Mathlib.Data.Rat.Cast.Order
import Mathlib.Tactic.FieldSimp
import Mathlib.Tactic.Linarith
import Mathlib.Tactic.NormNum
import Mathlib.Tactic.Positivity
import Mathlib.Tactic.Ring
import MdxReader.Proofs.Literals

/-!
# What number a literal becomes

A literal denotes a rational number (`Numeral.value`), and so does the decimal that is read
(`Decimal.value`).  The two are never further apart than half a unit in the last place that is kept.
They are equal exactly if the digits in front of the exponent are those of some decimal
(`literal_rounded`): reading is greedy, so a digit is only dropped where there is no room for it.

Rounding is followed in units of the last place.  `Rounded` is what holds when the digits have been
read, and an exponent only moves the point (`Rounded.shift`): where it would multiply a mantissa
that has been rounded, the mantissa leaves its range.
-/

namespace MdxReader

/-! ### Values -/

/-- The number a decimal denotes. -/
def Decimal.value (d : Decimal) : ℚ := d.mantissa / 10 ^ d.scale

/-- The number that digits denote behind a point. -/
def fractionValue (digits : List Char) : ℚ := digitsValue digits / 10 ^ digits.length

namespace Numeral

/-- The number that the digits in front of the exponent denote. -/
def significand (n : Numeral) : ℚ := digitsValue n.whole + fractionValue n.fraction

/-- The power of ten by which an exponent multiplies. -/
def power : Option Exponent → ℤ
  | none => 0
  | some e => if e.negative then -digitsValue e.digits else digitsValue e.digits

/-- **The number a literal denotes.** -/
def value (n : Numeral) : ℚ := n.significand * 10 ^ power n.exponent

end Numeral

theorem digitValue_le {c : Char} (digit : c.isDigit = true) : digitValue c ≤ 9 := by
  obtain ⟨-, high⟩ := Char.isDigit_iff_toNat.mp digit
  have nine : '9'.toNat - '0'.toNat = 9 := rfl
  unfold digitValue
  omega

theorem digitsValue_eq (digits : List Char) :
    digitsValue digits = Nat.ofDigitChars 10 digits 0 := by
  unfold digitsValue digitValue Nat.ofDigitChars
  simp only [Nat.mul_comm]

theorem fractionValue_nil : fractionValue [] = 0 := by
  simp [fractionValue, digitsValue]

theorem fractionValue_cons (c : Char) (digits : List Char) :
    fractionValue (c :: digits) = (digitValue c + fractionValue digits) / 10 := by
  have split : digitsValue (c :: digits) =
      10 ^ digits.length * digitValue c + digitsValue digits := by
    rw [digitsValue_eq, digitsValue_eq, Nat.ofDigitChars_cons,
      Nat.ofDigitChars_eq_ofDigitChars_zero, Nat.mul_zero, Nat.zero_add]
    rfl
  unfold fractionValue
  rw [split, List.length_cons]
  push_cast
  field_simp
  ring

theorem fractionValue_nonneg (digits : List Char) : 0 ≤ fractionValue digits := by
  unfold fractionValue
  positivity

theorem fractionValue_lt_one {digits : List Char} (all : ∀ c ∈ digits, c.isDigit = true) :
    fractionValue digits < 1 := by
  induction digits with
  | nil => simp [fractionValue_nil]
  | cons c digits ih =>
    have later := ih fun d mem => all d (List.mem_cons_of_mem c mem)
    have first : (digitValue c : ℚ) ≤ 9 := by exact_mod_cast digitValue_le (all c List.mem_cons_self)
    rw [fractionValue_cons]
    linarith

/-! ### The digits in front of the exponent -/

theorem appendDigit?_eq_some {mantissa longer : ℕ} {c : Char} :
    Numeral.appendDigit? mantissa c = some longer ↔
      longer = mantissa * 10 + digitValue c ∧ longer < Decimal.mantissaBound := by
  unfold Numeral.appendDigit?
  simp only
  constructor
  · intro h
    split at h
    · cases h
      exact ⟨rfl, ‹_›⟩
    · cases h
  · rintro ⟨rfl, small⟩
    exact if_pos small

theorem appendDigit?_eq_none {mantissa : ℕ} {c : Char}
    (h : Numeral.appendDigit? mantissa c = none) :
    Decimal.mantissaBound ≤ mantissa * 10 + digitValue c := by
  by_contra small
  have fits := appendDigit?_eq_some.mpr ⟨rfl, Nat.lt_of_not_le small⟩
  rw [h] at fits
  cases fits

theorem eq_of_readWhole {digits : List Char} {mantissa result : ℕ}
    (h : Numeral.readWhole mantissa digits = some result) (small : mantissa < Decimal.mantissaBound) :
    result = Nat.ofDigitChars 10 digits mantissa ∧ result < Decimal.mantissaBound := by
  induction digits generalizing mantissa with
  | nil =>
    cases h
    exact ⟨by simp, small⟩
  | cons c digits ih =>
    rw [Numeral.readWhole] at h
    obtain ⟨longer, fits, later⟩ := Option.bind_eq_some_iff.mp h
    obtain ⟨rfl, less⟩ := appendDigit?_eq_some.mp fits
    rw [Nat.ofDigitChars_cons, Nat.mul_comm]
    exact ih later less

/-- What a mantissa and a scale have to do with the number they were read from. -/
structure Rounded (mantissa scale : ℕ) (x : ℚ) : Prop where
  mantissa_lt : mantissa < Decimal.mantissaBound
  scale_le : scale ≤ Decimal.maxScale
  /-- Half a unit in the last place. -/
  near : |mantissa - x * 10 ^ scale| ≤ 1 / 2
  /-- Nothing is lost of the number of a decimal. -/
  exact : ∀ d : Decimal, d.value = x → (mantissa : ℚ) = x * 10 ^ scale
  /-- Something is lost only where there is no room. -/
  full : (mantissa : ℚ) ≠ x * 10 ^ scale →
    scale = Decimal.maxScale ∨ Decimal.mantissaBound ≤ 10 * mantissa

/-- Digits that have no room, behind a mantissa and a scale. -/
structure Overflow (mantissa scale : ℕ) (part : ℚ) : Prop where
  mantissa_lt : mantissa < Decimal.mantissaBound
  scale_le : scale ≤ Decimal.maxScale
  part_nonneg : 0 ≤ part
  part_lt : part < 1
  full : scale = Decimal.maxScale ∨ (Decimal.mantissaBound : ℚ) ≤ 10 * (mantissa + part)

/-- **Greedy reading loses no digit that counts**: no decimal has digits for which there is no room. -/
theorem Overflow.part_eq_zero {mantissa scale : ℕ} {part : ℚ}
    (excess : Overflow mantissa scale part) {d : Decimal}
    (same : d.value = (mantissa + part) / 10 ^ scale) : part = 0 := by
  have bound := excess.part_lt
  have positive := excess.part_nonneg
  unfold Decimal.value at same
  by_cases long : d.scale ≤ scale
  · -- The decimal has no more places than were read, so a part of a unit cannot be left.
    obtain ⟨places, rfl⟩ := Nat.exists_eq_add_of_le long
    have whole : (d.mantissa : ℚ) * 10 ^ places = mantissa + part := by
      rw [pow_add] at same
      field_simp at same
      linarith
    have least : mantissa ≤ d.mantissa * 10 ^ places := by
      have : (mantissa : ℚ) ≤ ((d.mantissa * 10 ^ places : ℕ) : ℚ) := by
        push_cast
        linarith
      exact_mod_cast this
    have most : d.mantissa * 10 ^ places < mantissa + 1 := by
      have : ((d.mantissa * 10 ^ places : ℕ) : ℚ) < ((mantissa + 1 : ℕ) : ℚ) := by
        push_cast
        linarith
      exact_mod_cast this
    have equal : d.mantissa * 10 ^ places = mantissa := by omega
    have cast : (d.mantissa : ℚ) * 10 ^ places = mantissa := by exact_mod_cast equal
    linarith
  · -- The decimal has places to spare, but its mantissa would be out of range.
    exfalso
    have more := d.scale_le
    rcases excess.full with last | large
    · omega
    · obtain ⟨places, found⟩ : ∃ places, d.scale = scale + 1 + places :=
        Nat.exists_eq_add_of_le (by omega)
      have whole : (d.mantissa : ℚ) = 10 * (mantissa + part) * 10 ^ places := by
        rw [found, pow_add, pow_add] at same
        field_simp at same
        linarith
      have small : (d.mantissa : ℚ) < Decimal.mantissaBound := by exact_mod_cast d.mantissa_lt
      have one : (1 : ℚ) ≤ 10 ^ places := one_le_pow₀ (by norm_num)
      have nonneg : (0 : ℚ) ≤ 10 * (mantissa + part) := by positivity
      nlinarith [mul_le_mul_of_nonneg_left one nonneg]

/-- 2 ^ 96 in digits, from which its remainder modulo ten is seen. -/
theorem mantissaBound_eq : Decimal.mantissaBound = 79228162514264337593543950336 := by decide

theorem Rounded.of_exact {mantissa scale : ℕ} {x : ℚ} (small : mantissa < Decimal.mantissaBound)
    (short : scale ≤ Decimal.maxScale) (same : (mantissa : ℚ) = x * 10 ^ scale) :
    Rounded mantissa scale x where
  mantissa_lt := small
  scale_le := short
  near := by
    rw [same, sub_self, abs_zero]
    norm_num
  exact _ _ := same
  full other := absurd same other

section Rounding

variable {mantissa scale : ℕ} {part : ℚ}

theorem unit_mul (mantissa scale : ℕ) (part : ℚ) :
    ((mantissa : ℚ) + part) / 10 ^ scale * 10 ^ scale = mantissa + part := by
  field_simp

/-- What is dropped is less than half a unit. -/
theorem Overflow.down (excess : Overflow mantissa scale part) (low : part < 1 / 2) :
    Rounded mantissa scale ((mantissa + part) / 10 ^ scale) := by
  have positive := excess.part_nonneg
  refine ⟨excess.mantissa_lt, excess.scale_le, ?_, ?_, ?_⟩
  · rw [unit_mul, abs_le]
    constructor <;> linarith
  · intro d same
    rw [unit_mul, excess.part_eq_zero same, add_zero]
  · intro _
    refine excess.full.imp id fun large => ?_
    have close : Decimal.mantissaBound < 10 * mantissa + 5 := by
      have : (Decimal.mantissaBound : ℚ) < ((10 * mantissa + 5 : ℕ) : ℚ) := by
        push_cast
        linarith
      exact_mod_cast this
    -- The bound is 6 modulo ten, so a multiple of ten this close to it is above it.
    have bound := mantissaBound_eq
    omega

/-- Where half a unit or more is dropped, the number is not that of a decimal. -/
theorem Overflow.lost (excess : Overflow mantissa scale part) (high : 1 / 2 ≤ part) (d : Decimal) :
    d.value ≠ (mantissa + part) / 10 ^ scale := by
  intro same
  have := excess.part_eq_zero same
  linarith

theorem Overflow.up (excess : Overflow mantissa scale part) (high : 1 / 2 ≤ part)
    (fits : mantissa + 1 < Decimal.mantissaBound) :
    Rounded (mantissa + 1) scale ((mantissa + part) / 10 ^ scale) := by
  have less := excess.part_lt
  refine ⟨fits, excess.scale_le, ?_, fun d same => absurd same (excess.lost high d), ?_⟩
  · rw [unit_mul, abs_le]
    push_cast
    constructor <;> linarith
  · intro _
    refine excess.full.imp id fun large => ?_
    have : (Decimal.mantissaBound : ℚ) ≤ ((10 * (mantissa + 1) : ℕ) : ℚ) := by
      push_cast
      linarith
    exact_mod_cast this

/-- A mantissa that leaves its range gives up a place, which costs less than half of the larger
unit. -/
theorem Overflow.carry (excess : Overflow mantissa (scale + 1) part) (high : 1 / 2 ≤ part)
    (wide : ¬mantissa + 1 < Decimal.mantissaBound) :
    Rounded ((mantissa + 1 + 4) / 10) scale ((mantissa + part) / 10 ^ (scale + 1)) := by
  have less := excess.part_lt
  have small := excess.mantissa_lt
  have short := excess.scale_le
  have lost := excess.lost high
  have bound := mantissaBound_eq
  have last : mantissa = 79228162514264337593543950335 := by omega
  have result : (mantissa + 1 + 4) / 10 = 7922816251426433759354395034 := by omega
  have unit : ((mantissa : ℚ) + part) / 10 ^ (scale + 1) * 10 ^ scale = (mantissa + part) / 10 := by
    field_simp
    ring
  refine ⟨by omega, by omega, ?_, fun d same => absurd same (lost d), fun _ => .inr (by omega)⟩
  rw [result, unit, last, abs_le]
  push_cast
  constructor <;> linarith

/-- The first digit that has no room decides the rounding. -/
theorem rounded_roundBy {mantissa' scale' : ℕ} {c : Char} {later : List Char}
    (digits : ∀ d ∈ later, d.isDigit = true)
    (excess : Overflow mantissa scale (fractionValue (c :: later)))
    (h : Numeral.roundBy mantissa scale c = some (mantissa', scale')) :
    Rounded mantissa' scale' ((mantissa + fractionValue (c :: later)) / 10 ^ scale) := by
  have part := fractionValue_cons c later
  have rest := fractionValue_nonneg later
  have less := fractionValue_lt_one digits
  unfold Numeral.roundBy at h
  split at h
  · rename_i low
    cases h
    have four : (digitValue c : ℚ) ≤ 4 := by exact_mod_cast Nat.le_of_lt_succ low
    exact excess.down (by linarith)
  · rename_i notLow
    have five : (5 : ℚ) ≤ digitValue c := by exact_mod_cast Nat.le_of_not_lt notLow
    have high : 1 / 2 ≤ fractionValue (c :: later) := by linarith
    split at h
    · rename_i fits
      cases h
      exact excess.up high fits
    · rename_i wide
      split at h
      · cases h
      · rename_i places
        obtain ⟨places', rfl⟩ := Nat.exists_eq_add_one_of_ne_zero places
        cases h
        exact excess.carry high wide

end Rounding

/-- The digits behind the point: each is taken if it fits, and the first that does not decides. -/
theorem rounded_readFraction {digits : List Char} {mantissa scale mantissa' scale' : ℕ}
    (all : ∀ c ∈ digits, c.isDigit = true) (small : mantissa < Decimal.mantissaBound)
    (short : scale ≤ Decimal.maxScale)
    (h : Numeral.readFraction mantissa scale digits = some (mantissa', scale')) :
    Rounded mantissa' scale' ((mantissa + fractionValue digits) / 10 ^ scale) := by
  induction digits generalizing mantissa scale with
  | nil =>
    cases h
    refine .of_exact small short ?_
    rw [fractionValue_nil]
    field_simp
    ring
  | cons c digits ih =>
    obtain ⟨digit, later⟩ := List.forall_mem_cons.mp all
    have part := fractionValue_cons c digits
    have rest := fractionValue_nonneg digits
    have overflow := Overflow.mk small short (fractionValue_nonneg _) (fractionValue_lt_one all)
    rw [Numeral.readFraction] at h
    split at h
    · rename_i last
      exact rounded_roundBy later (overflow (.inl last)) h
    · rename_i room
      split at h
      · rename_i longer fits
        obtain ⟨rfl, less⟩ := appendDigit?_eq_some.mp fits
        have read := ih later less (by omega) h
        have same : (((mantissa * 10 + digitValue c : ℕ) : ℚ) + fractionValue digits) /
            10 ^ (scale + 1) = (mantissa + fractionValue (c :: digits)) / 10 ^ scale := by
          rw [part]
          push_cast
          field_simp
          ring
        rwa [same] at read
      · rename_i none
        have large : (Decimal.mantissaBound : ℚ) ≤ mantissa * 10 + digitValue c := by
          exact_mod_cast appendDigit?_eq_none none
        exact rounded_roundBy later (overflow (.inr (by linarith))) h

theorem rounded_plain {n : Numeral} (fraction : ∀ c ∈ n.fraction, c.isDigit = true)
    {mantissa scale : ℕ} (h : n.plain? = some (mantissa, scale)) :
    Rounded mantissa scale n.significand := by
  obtain ⟨whole, read, rest⟩ := Option.bind_eq_some_iff.mp h
  obtain ⟨rfl, small⟩ := eq_of_readWhole read (by decide)
  have rounded := rounded_readFraction fraction small (by decide) rest
  rw [pow_zero, div_one, ← digitsValue_eq] at rounded
  exact rounded

/-! ### Exponents -/

/-- **A mantissa that has been rounded is never multiplied**: it fills its range, so there is no room
for one more digit. -/
theorem Rounded.exact_of_mul {mantissa scale places : ℕ} {x : ℚ}
    (rounded : Rounded mantissa scale x) (beyond : scale < places) (few : places ≤ Decimal.maxScale)
    (small : mantissa * Nat.pow 10 (places - scale) < Decimal.mantissaBound) :
    (mantissa : ℚ) = x * 10 ^ scale := by
  by_contra other
  rcases rounded.full other with last | wide
  · omega
  · obtain ⟨more, found⟩ := Nat.exists_eq_add_of_lt beyond
    have factor : places - scale = more + 1 := by omega
    have one : 1 ≤ 10 ^ more := Nat.one_le_pow _ _ (by norm_num)
    have grown : 10 * mantissa * 1 ≤ 10 * mantissa * 10 ^ more := Nat.mul_le_mul_left _ one
    have product : mantissa * Nat.pow 10 (places - scale) = 10 * mantissa * 10 ^ more := by
      rw [factor]
      show mantissa * 10 ^ (more + 1) = _
      ring
    omega

/-- An exponent moves the point, or multiplies what is exact. -/
theorem Rounded.shift {e : Exponent} {mantissa scale mantissa' scale' : ℕ} {x : ℚ}
    (rounded : Rounded mantissa scale x)
    (h : Numeral.shift? e mantissa scale = some (mantissa', scale'))
    (small : mantissa' < Decimal.mantissaBound) :
    |(mantissa' : ℚ) - x * 10 ^ Numeral.power (some e) * 10 ^ scale'| ≤ 1 / 2 ∧
      ((mantissa' : ℚ) = x * 10 ^ Numeral.power (some e) * 10 ^ scale' ↔
        (mantissa : ℚ) = x * 10 ^ scale) := by
  -- Where the point is only moved, the unit moves with it.
  have moved (unit : x * 10 ^ Numeral.power (some e) * 10 ^ scale' = x * 10 ^ scale)
      (same : mantissa' = mantissa) :
      |(mantissa' : ℚ) - x * 10 ^ Numeral.power (some e) * 10 ^ scale'| ≤ 1 / 2 ∧
        ((mantissa' : ℚ) = x * 10 ^ Numeral.power (some e) * 10 ^ scale' ↔
          (mantissa : ℚ) = x * 10 ^ scale) := by
    rw [unit, same]
    exact ⟨rounded.near, Iff.rfl⟩
  unfold Numeral.shift? at h
  simp only at h
  split at h
  · cases h
  · split at h
    · rename_i negative
      split at h
      · cases h
      · cases h
        refine moved ?_ rfl
        rw [Numeral.power, if_pos negative, zpow_neg, zpow_natCast, pow_add]
        field_simp
    · rename_i positive
      have power : Numeral.power (some e) = digitsValue e.digits := if_neg positive
      rw [power, zpow_natCast] at moved ⊢
      split at h
      · rename_i enough
        obtain ⟨left, found⟩ := Nat.exists_eq_add_of_le enough
        cases h
        refine moved ?_ rfl
        rw [found, Nat.add_sub_cancel_left, pow_add, mul_assoc]
      · rename_i beyond
        split at h
        · cases h
        · rename_i few
          cases h
          have exact := rounded.exact_of_mul (Nat.lt_of_not_le beyond) (Nat.le_of_not_lt few) small
          have product : ((mantissa * Nat.pow 10 (digitsValue e.digits - scale) : ℕ) : ℚ) =
              x * 10 ^ digitsValue e.digits * 10 ^ 0 := by
            have whole : scale + (digitsValue e.digits - scale) = digitsValue e.digits := by omega
            calc ((mantissa * Nat.pow 10 (digitsValue e.digits - scale) : ℕ) : ℚ)
              _ = mantissa * 10 ^ (digitsValue e.digits - scale) := by
                push_cast [Nat.pow_eq]
                rfl
              _ = x * 10 ^ (scale + (digitsValue e.digits - scale)) := by
                rw [exact, pow_add, mul_assoc]
              _ = x * 10 ^ digitsValue e.digits * 10 ^ 0 := by rw [whole, pow_zero, mul_one]
          rw [product, sub_self, abs_zero]
          exact ⟨by norm_num, by simp [exact]⟩

/-! ### Literals -/

theorem Decimal.value_mul (d : Decimal) : d.value * 10 ^ d.scale = d.mantissa := by
  unfold Decimal.value
  field_simp

/-- A decimal is as near to a number as its mantissa is in units of its last place. -/
theorem Decimal.near_iff {d : Decimal} {x : ℚ} :
    |d.value - x| ≤ 1 / 2 / 10 ^ d.scale ↔ |(d.mantissa : ℚ) - x * 10 ^ d.scale| ≤ 1 / 2 := by
  have positive : (0 : ℚ) < 10 ^ d.scale := by positivity
  rw [le_div_iff₀ positive, ← abs_of_pos positive, ← abs_mul, abs_of_pos positive, sub_mul,
    d.value_mul]

theorem Decimal.value_eq_iff {d : Decimal} {x : ℚ} :
    d.value = x ↔ (d.mantissa : ℚ) = x * 10 ^ d.scale := by
  have positive : (0 : ℚ) < 10 ^ d.scale := by positivity
  rw [← d.value_mul]
  constructor
  · rintro rfl
    rfl
  · exact mul_right_cancel₀ positive.ne'

/-- The decimal a literal stands for is near to it, and equal to it if no digit is lost. -/
theorem Numeral.near_of_value? {n : Numeral} (fraction : ∀ c ∈ n.fraction, c.isDigit = true)
    {d : Decimal} (h : n.value? = some d) :
    |d.value - n.value| ≤ 1 / 2 / 10 ^ d.scale ∧
      (d.value = n.value ↔ ∃ kept : Decimal, kept.value = n.significand) := by
  obtain ⟨⟨mantissa, scale⟩, read, made⟩ := Option.bind_eq_some_iff.mp h
  have rounded := rounded_plain fraction read
  -- A decimal has the digits exactly if none is lost.
  have kept : (mantissa : ℚ) = n.significand * 10 ^ scale ↔
      ∃ kept : Decimal, kept.value = n.significand := by
    constructor
    · intro same
      exact ⟨⟨mantissa, scale, rounded.mantissa_lt, rounded.scale_le⟩,
        Decimal.value_eq_iff.mpr same⟩
    · rintro ⟨kept, same⟩
      exact rounded.exact kept same
  rw [Decimal.near_iff, Decimal.value_eq_iff, ← kept]
  unfold Numeral.value
  cases exponent : n.exponent with
  | none =>
    simp only [exponent] at made
    obtain ⟨parts, places⟩ := Decimal.parts_of_ofParts? made
    rw [parts, places, Numeral.power, zpow_zero, mul_one]
    exact ⟨rounded.near, Iff.rfl⟩
  | some e =>
    simp only [exponent] at made
    obtain ⟨⟨mantissa', scale'⟩, moved, last⟩ := Option.bind_eq_some_iff.mp made
    obtain ⟨parts, places⟩ := Decimal.parts_of_ofParts? last
    rw [parts, places]
    exact rounded.shift moved (parts ▸ d.mantissa_lt)

/-- **What a literal is read as.**  A literal, however it is spelled, is refused as a number, or it is
read as a decimal that differs from what it denotes by at most half a unit in the last place; and
there is no difference exactly if the digits in front of the exponent are those of some decimal. -/
theorem literal_rounded {n : Numeral} {span : List Char} (spelled : n.Spelled span) :
    tokensOf (String.ofList span) = .error (.invalidNumber n.text .start) ∨
      ∃ (d : Decimal) (last : Position),
        tokensOf (String.ofList span) = .ok [⟨.number d, .start⟩, ⟨.endOfText, last⟩] ∧
        |d.value - n.value| ≤ 1 / 2 / 10 ^ d.scale ∧
        (d.value = n.value ↔ ∃ kept : Decimal, kept.value = n.significand) := by
  obtain ⟨last, scanned⟩ := tokensOf_of_spelled spelled
  cases read : n.value? with
  | none =>
    rw [read] at scanned
    exact .inl scanned
  | some d =>
    rw [read] at scanned
    obtain ⟨near, exact⟩ := n.near_of_value? spelled.2.1 read
    exact .inr ⟨d, last, scanned, near, exact⟩

/-- `0.00000000000000000000000000005`, which has 29 places. -/
def tooFine : Numeral := ⟨['0'], List.replicate 28 '0' ++ ['5'], none⟩

theorem spelled_tooFine : tooFine.Spelled "0.00000000000000000000000000005".toList :=
  ⟨⟨List.cons_ne_nil _ _, by simp [tooFine]⟩, by simp [tooFine], [], by decide, rfl⟩

theorem value?_tooFine : tooFine.value? = some ⟨1, 28, by decide, by decide⟩ := by decide +kernel

theorem value_tooFine : tooFine.value = 5 / 10 ^ 29 := by
  have digits : digitsValue (List.replicate 28 '0' ++ ['5']) = 5 := by decide +kernel
  have whole : digitsValue ['0'] = 0 := by decide
  simp only [Numeral.value, Numeral.significand, fractionValue, Numeral.power, tooFine, digits,
    whole]
  norm_num

/-- The digit that has no room is rounded up: twice as much is read as is written. -/
theorem literal_rounded_tooFine :
    tooFine.Spelled "0.00000000000000000000000000005".toList ∧
      ∃ (d : Decimal) (last : Position),
        tokensOf "0.00000000000000000000000000005" =
          .ok [⟨.number d, .start⟩, ⟨.endOfText, last⟩] ∧
        d.value = 2 * tooFine.value ∧ |d.value - tooFine.value| ≤ 1 / 2 / 10 ^ d.scale := by
  refine ⟨spelled_tooFine, ?_⟩
  obtain ⟨last, scanned⟩ := tokensOf_of_spelled spelled_tooFine
  rw [value?_tooFine] at scanned
  rcases literal_rounded spelled_tooFine with refused | ⟨d, last', read, near, -⟩
  · rw [scanned] at refused
    cases refused
  · rw [scanned] at read
    simp only [Except.ok.injEq, List.cons.injEq, Located.mk.injEq, Token.number.injEq, and_true,
      true_and] at read
    obtain ⟨rfl, -⟩ := read
    refine ⟨_, last, scanned, ?_, near⟩
    rw [value_tooFine, Decimal.value]
    norm_num

/-- Not every literal that is accepted is read as what it denotes. -/
theorem exists_literal_inexact :
    ∃ (n : Numeral) (span : List Char) (d : Decimal) (last : Position), n.Spelled span ∧
      tokensOf (String.ofList span) = .ok [⟨.number d, .start⟩, ⟨.endOfText, last⟩] ∧
      d.value ≠ n.value := by
  obtain ⟨last, scanned⟩ := tokensOf_of_spelled spelled_tooFine
  rw [value?_tooFine] at scanned
  refine ⟨tooFine, _, _, last, spelled_tooFine, scanned, ?_⟩
  rw [value_tooFine, Decimal.value]
  norm_num

end MdxReader
