import MdxReader.Proofs.Formula
import MdxReader.Proofs.JsonText.Trees
import MdxReader.Proofs.Rounding

/-!
# Literals that fit

A literal whose digits all have room is kept digit for digit (`read_literal`): the digits are the
mantissa, and each place behind the point is one of the scale.  An exponent with a minus sign adds
places and leaves the digits alone.

Back in a text, the digits are those of the literal without the zeros in front that mean nothing.
Printing pads a mantissa with zeros until there is a digit before the point, and padded to its own
length a string of digits is itself (`replicate_append_toDigits`).
-/

namespace MdxReader

open ReadM

/-! ### Zeros in front -/

/-- Digits without the zeros in front of them; one digit is kept. -/
def withoutZeros : List Char → List Char
  | '0' :: c :: more => withoutZeros (c :: more)
  | digits => digits

section Digits

variable {digits : List Char}

/-- What is left are digits, and a zero in front only where it is the only digit. -/
theorem withoutZeros_cases (all : IsDigits digits) :
    ∃ c more, withoutZeros digits = c :: more ∧ c.isDigit = true ∧
      (∀ d ∈ more, d.isDigit = true) ∧ (c = '0' → more = []) := by
  induction digits using withoutZeros.induct with
  | case1 c more ih => exact ih ⟨List.cons_ne_nil _ _, (List.forall_mem_cons.mp all.2).2⟩
  | case2 digits other =>
    obtain ⟨c, more, rfl⟩ := List.exists_cons_of_ne_nil all.1
    obtain ⟨digit, later⟩ := List.forall_mem_cons.mp all.2
    rw [withoutZeros.eq_2 _ other]
    refine ⟨c, more, rfl, digit, later, ?_⟩
    rintro rfl
    cases more with
    | nil => rfl
    | cons d more => exact absurd rfl (other d more)

theorem ofDigitChars_zero_cons (digits : List Char) :
    Nat.ofDigitChars 10 ('0' :: digits) 0 = Nat.ofDigitChars 10 digits 0 :=
  Nat.ofDigitChars_cons

/-- Zeros in front mean nothing. -/
theorem ofDigitChars_withoutZeros (digits behind : List Char) :
    Nat.ofDigitChars 10 (withoutZeros digits ++ behind) 0 =
      Nat.ofDigitChars 10 (digits ++ behind) 0 := by
  induction digits using withoutZeros.induct with
  | case1 c more ih =>
    rw [withoutZeros, ih]
    exact (ofDigitChars_zero_cons _).symm
  | case2 digits other => rw [withoutZeros.eq_2 _ other]

/-! ### Printing digits -/

theorem toDigits_digitValue {c : Char} (digit : c.isDigit = true) :
    Nat.toDigits 10 (digitValue c) = [c] := by
  have low := digitValue_le digit
  rw [Nat.toDigits_of_lt_base (by omega), List.singleton_inj, ← Char.toNat_inj,
    Nat.toNat_digitChar_of_lt_ten (by omega)]
  have first : '0'.toNat ≤ c.toNat := (Char.isDigit_iff_toNat.mp digit).1
  have zero : '0'.toNat = 48 := rfl
  unfold digitValue
  omega

/-- Digits behind a number that is not zero are printed behind it. -/
theorem toDigits_ofDigitChars {n : ℕ} (positive : 0 < n) (all : ∀ c ∈ digits, c.isDigit = true) :
    Nat.toDigits 10 (Nat.ofDigitChars 10 digits n) = Nat.toDigits 10 n ++ digits := by
  induction digits generalizing n with
  | nil => rw [Nat.ofDigitChars_nil, List.append_nil]
  | cons c digits ih =>
    obtain ⟨digit, later⟩ := List.forall_mem_cons.mp all
    have low : digitValue c < 10 := Nat.lt_succ_of_le (digitValue_le digit)
    calc Nat.toDigits 10 (Nat.ofDigitChars 10 (c :: digits) n)
      _ = Nat.toDigits 10 (Nat.ofDigitChars 10 digits (10 * n + digitValue c)) := by
        rw [Nat.ofDigitChars_cons, digitValue]
      _ = Nat.toDigits 10 (10 * n + digitValue c) ++ digits := ih (by omega) later
      _ = Nat.toDigits 10 n ++ [c] ++ digits := by
        rw [← Nat.toDigits_append_toDigits (by decide) positive low, toDigits_digitValue digit]
      _ = Nat.toDigits 10 n ++ c :: digits := List.append_assoc ..

/-- Digits with no zero in front are printed as they are. -/
theorem toDigits_of_ne_zero {c : Char} (some : c ≠ '0')
    (all : ∀ d ∈ c :: digits, d.isDigit = true) :
    Nat.toDigits 10 (Nat.ofDigitChars 10 (c :: digits) 0) = c :: digits := by
  obtain ⟨digit, later⟩ := List.forall_mem_cons.mp all
  have positive : 0 < digitValue c := by
    have first := (Char.isDigit_iff_toNat.mp digit).1
    have other : c.toNat ≠ '0'.toNat := fun same => some (Char.toNat_inj.mp same)
    unfold digitValue
    omega
  rw [Nat.ofDigitChars_cons, Nat.mul_zero, Nat.zero_add]
  exact (toDigits_ofDigitChars positive later).trans
    (congrArg (· ++ digits) (toDigits_digitValue digit))

/-- **Padded to their own length, digits are printed as they are.** -/
theorem replicate_append_toDigits (all : IsDigits digits) :
    List.replicate (digits.length - (Nat.toDigits 10 (Nat.ofDigitChars 10 digits 0)).length) '0' ++
      Nat.toDigits 10 (Nat.ofDigitChars 10 digits 0) = digits := by
  induction digits using withoutZeros.induct with
  | case1 c more ih =>
    -- One more zero is put in front, and it changes nothing in the number.
    have padded := ih ⟨List.cons_ne_nil _ _, (List.forall_mem_cons.mp all.2).2⟩
    have short := congrArg List.length padded
    rw [List.length_append, List.length_replicate] at short
    rw [ofDigitChars_zero_cons, List.length_cons, Nat.succ_sub (by omega), List.replicate_succ,
      List.cons_append, padded]
  | case2 digits other =>
    obtain ⟨c, more, kept, -, -, zero⟩ := withoutZeros_cases all
    rw [withoutZeros.eq_2 _ other] at kept
    subst kept
    by_cases single : c = '0'
    · rw [zero single, single]
      rfl
    · rw [toDigits_of_ne_zero single all.2, Nat.sub_self]
      rfl

end Digits

/-! ### Decimals -/

section Decimal

variable {d : Decimal} {whole fraction : List Char}

/-- **A decimal with the digits of a literal has no others**: it is printed with these digits, apart
from the zeros in front of the point that mean nothing. -/
theorem Decimal.digits_eq (wholeDigits : IsDigits whole)
    (fractionDigits : ∀ c ∈ fraction, c.isDigit = true)
    (mantissa : d.mantissa = digitsValue (whole ++ fraction)) (scale : d.scale = fraction.length) :
    d.digits = withoutZeros whole ++ fraction := by
  obtain ⟨c, more, kept, digit, later, zero⟩ := withoutZeros_cases wholeDigits
  have all : ∀ e ∈ c :: (more ++ fraction), e.isDigit = true :=
    List.forall_mem_cons.mpr ⟨digit, List.forall_mem_append.mpr ⟨later, fractionDigits⟩⟩
  have value : d.mantissa = Nat.ofDigitChars 10 (c :: (more ++ fraction)) 0 := by
    rw [mantissa, digitsValue_eq, ← ofDigitChars_withoutZeros, kept, List.cons_append]
  unfold digits
  rw [value, scale, kept, List.cons_append]
  by_cases single : c = '0'
  · -- The one digit before the point is what is padded to.
    have alone := zero single
    subst alone
    exact replicate_append_toDigits ⟨List.cons_ne_nil _ _, all⟩
  · -- With no zero in front there are digits enough.
    have enough : fraction.length + 1 - (c :: (more ++ fraction)).length = 0 := by
      rw [List.length_cons, List.length_append]
      omega
    simp only [toDigits_of_ne_zero single all, enough, List.replicate_zero, List.nil_append]

theorem Decimal.text_of_digits (wholeDigits : IsDigits whole)
    (fractionDigits : ∀ c ∈ fraction, c.isDigit = true)
    (mantissa : d.mantissa = digitsValue (whole ++ fraction)) (scale : d.scale = fraction.length) :
    d.text = Numeral.text ⟨withoutZeros whole, fraction, none⟩ := by
  have digits := digits_eq wholeDigits fractionDigits mantissa scale
  have point : d.digits.length - d.scale = (withoutZeros whole).length := by
    rw [digits, scale, List.length_append, Nat.add_sub_cancel]
  have front : d.whole = withoutZeros whole := by
    unfold Decimal.whole
    rw [point, digits, List.take_left]
  have behind : d.fraction = fraction := by
    unfold Decimal.fraction
    rw [point, digits, List.drop_left]
  apply String.toList_injective
  rw [d.text_eq, front, behind]
  simp [Numeral.text, Numeral.exponentText]

end Decimal

/-! ### Literals -/

namespace Numeral

variable {whole fraction : List Char}

/-- A literal in front of an exponent, all of whose digits have room, is kept as it is. -/
theorem plain?_of_fits {exponent : Option Exponent}
    (fits : digitsValue (whole ++ fraction) < Decimal.mantissaBound)
    (places : fraction.length ≤ Decimal.maxScale) :
    plain? ⟨whole, fraction, exponent⟩ =
      some (digitsValue (whole ++ fraction), fraction.length) := by
  rw [digitsValue_eq] at fits ⊢
  exact plain?_of_lt fits places

theorem value?_of_fits (fits : digitsValue (whole ++ fraction) < Decimal.mantissaBound)
    (places : fraction.length ≤ Decimal.maxScale) :
    value? ⟨whole, fraction, none⟩ =
      some ⟨digitsValue (whole ++ fraction), fraction.length, fits, places⟩ := by
  unfold value?
  rw [plain?_of_fits fits places]
  exact dif_pos ⟨fits, places⟩

/-- An exponent with a minus sign adds places, as long as there are any. -/
theorem value?_of_negative {letter : Char} {exponent : List Char}
    (fits : digitsValue (whole ++ fraction) < Decimal.mantissaBound)
    (places : fraction.length + digitsValue exponent ≤ Decimal.maxScale) :
    value? ⟨whole, fraction, some ⟨letter, true, exponent⟩⟩ =
      some ⟨digitsValue (whole ++ fraction), fraction.length + digitsValue exponent, fits,
        places⟩ := by
  have short : ¬ exponentBound ≤ digitsValue exponent := by
    have bound : Decimal.maxScale < exponentBound := by decide
    omega
  have few : ¬ Decimal.maxScale < digitsValue exponent := by omega
  have shifted : shift? ⟨letter, true, exponent⟩ (digitsValue (whole ++ fraction)) fraction.length =
      some (digitsValue (whole ++ fraction), fraction.length + digitsValue exponent) := by
    unfold shift?
    simp only [short, few, if_false, if_true]
  unfold value?
  rw [plain?_of_fits fits (by omega)]
  simp only [Option.bind_some, shifted]
  exact dif_pos ⟨fits, places⟩

end Numeral

/-! ### A number alone -/

/-- A text that is one number is read as this number, under every limit. -/
theorem read_of_number {text : String} {d : Decimal} {first last : Position}
    (scanned : tokensOf text = .ok [⟨.number d, first⟩, ⟨.endOfText, last⟩]) (limit : ℕ) :
    read .expression text limit = .ok (.expression (.number d)) := by
  obtain ⟨r, start, ahead, -⟩ := Reader.exists_ofText limit scanned
  have room : r.depth ≤ r.limit := by
    rw [Reader.depth_of_ofText start]
    exact Nat.zero_le _
  obtain ⟨after, ran, left, -⟩ := Engine.exists_run_of_number
    (congrArg (List.map Located.token) ahead) List.mem_cons_self rfl room
  exact read_of_run start ran left

/-! ### Literals as texts -/

namespace Numeral

/-- A literal is spelled as its text. -/
theorem spelled_text {n : Numeral} (whole : IsDigits n.whole)
    (fraction : ∀ c ∈ n.fraction, c.isDigit = true)
    (exponent : ∀ e ∈ n.exponent, (e.letter = 'e' ∨ e.letter = 'E') ∧ IsDigits e.digits) :
    n.Spelled n.text.toList := by
  refine ⟨whole, fraction, exponentText n.exponent, by simp [text], ?_⟩
  cases some : n.exponent with
  | none => rfl
  | some e =>
    obtain ⟨letter, digits⟩ := exponent e some
    refine ⟨letter, digits, if e.negative then ['-'] else [], ?_, ?_⟩
    · cases negative : e.negative <;> simp [exponentText, negative]
    · cases negative : e.negative <;> simp

/-- What a literal stands for is what its text is read as. -/
theorem Spelled.read_of_value? {n : Numeral} {d : Decimal} (spelled : n.Spelled n.text.toList)
    (value : n.value? = some d) (limit : ℕ) :
    read .expression n.text limit = .ok (.expression (.number d)) := by
  obtain ⟨last, scanned⟩ := tokensOf_of_spelled spelled
  rw [value, String.ofList_toList] at scanned
  exact read_of_number scanned limit

end Numeral

section Literal

variable {whole fraction : List Char}

/-- **A literal that fits is kept digit for digit.**  If there are at most 28 digits behind the
point and the number that all digits write is less than `2 ^ 96`, then the literal is read as the
decimal with this number as its mantissa and as many places as there are digits behind the point,
under every limit.  The value in its JSON is the literal without the zeros in front that can be
left out.  An exponent with a minus sign adds its places, as long as they are 28 at most. -/
theorem read_literal (wholeDigits : IsDigits whole)
    (fractionDigits : ∀ c ∈ fraction, c.isDigit = true)
    (places : fraction.length ≤ Decimal.maxScale)
    (fits : digitsValue (whole ++ fraction) < Decimal.mantissaBound) (limit : ℕ) :
    (∃ d : Decimal, d.mantissa = digitsValue (whole ++ fraction) ∧ d.scale = fraction.length ∧
      read .expression (Numeral.text ⟨whole, fraction, none⟩) limit =
        .ok (.expression (.number d)) ∧
      (Tree.expression (.number d)).toJson = .object [
        ("type", .string "numeric"),
        ("value", .string (Numeral.text ⟨withoutZeros whole, fraction, none⟩))]) ∧
    ∀ letter exponent, (letter = 'e' ∨ letter = 'E') → IsDigits exponent →
      fraction.length + digitsValue exponent ≤ Decimal.maxScale →
      ∃ d : Decimal, d.mantissa = digitsValue (whole ++ fraction) ∧
        d.scale = fraction.length + digitsValue exponent ∧
        read .expression (Numeral.text ⟨whole, fraction, some ⟨letter, true, exponent⟩⟩) limit =
          .ok (.expression (.number d)) := by
  constructor
  · have spelled : Numeral.Spelled ⟨whole, fraction, none⟩ _ :=
      Numeral.spelled_text wholeDigits fractionDigits nofun
    have text : Decimal.text ⟨_, _, fits, places⟩ = _ :=
      Decimal.text_of_digits wholeDigits fractionDigits rfl rfl
    exact ⟨⟨_, _, fits, places⟩, rfl, rfl,
      spelled.read_of_value? (Numeral.value?_of_fits fits places) limit,
      congrArg (Expr.literalToJson "numeric") text⟩
  · intro letter exponent written exponentDigits few
    have spelled : Numeral.Spelled ⟨whole, fraction, some ⟨letter, true, exponent⟩⟩ _ :=
      Numeral.spelled_text wholeDigits fractionDigits fun e same => by
        cases same
        exact ⟨written, exponentDigits⟩
    exact ⟨⟨_, _, fits, few⟩, rfl, rfl,
      spelled.read_of_value? (Numeral.value?_of_negative fits few) limit⟩

/-- `007.50` is printed as `7.50`, and `007.50E-05` is read with five places more. -/
theorem read_literal_zeros : ∃ d d' : Decimal,
    d.mantissa = 750 ∧ d.scale = 2 ∧ d'.mantissa = 750 ∧ d'.scale = 7 ∧
    read .expression "007.50" 0 = .ok (.expression (.number d)) ∧
    (Tree.expression (.number d)).toJson =
      .object [("type", .string "numeric"), ("value", .string "7.50")] ∧
    read .expression "007.50E-05" 0 = .ok (.expression (.number d')) := by
  have whole : IsDigits ['0', '0', '7'] := ⟨nofun, by simp⟩
  have fraction : ∀ c ∈ ['5', '0'], c.isDigit = true := by simp
  obtain ⟨⟨d, mantissa, scale, found, json⟩, moved⟩ :=
    read_literal whole fraction (by decide) (by decide) 0
  obtain ⟨d', mantissa', scale', found'⟩ :=
    moved 'E' ['0', '5'] (.inr rfl) ⟨nofun, by simp⟩ (by decide)
  exact ⟨d, d', mantissa, scale, mantissa', scale', found, json, found'⟩

end Literal

end MdxReader
