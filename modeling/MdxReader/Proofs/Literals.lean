import MdxReader.Proofs.Joined

/-!
# Scanning a literal

A literal, spelled in any way, is scanned as that literal in front of whatever does not go on with
it: its digits, its fraction and its exponent are found again, a `+` in the exponent aside, and
nothing of what follows is taken (`readNumber_of_spelled`).  So the tokens of a text that is one
literal are one number and the end, or the only answer is that the number is out of range
(`tokensOf_of_spelled`).  In front of another text it is one more token (`exists_tokensOf_numeral`).
-/

namespace MdxReader

/-- The characters do not go on with a literal in front of them. -/
def EndsNumber (rest : List Char) : Prop :=
  ∀ c ∈ rest.head?, c.isDigit = false ∧ c ∉ ['.', 'e', 'E']

theorem endsNumber_nil : EndsNumber [] := nofun

/-! ### Exponents -/

/-- How an exponent begins is told from what is in front of its digits. -/
theorem exponentAt?_of_spelled {e : Exponent} {sign : List Char}
    (letter : e.letter = 'e' ∨ e.letter = 'E') (digits : IsDigits e.digits)
    (signed : if e.negative then sign = ['-'] else sign = [] ∨ sign = ['+']) (rest : List Char) :
    exponentAt? (e.letter :: sign ++ (e.digits ++ rest)) = some (e.negative, sign.length + 1) := by
  obtain ⟨some, all⟩ := digits
  obtain ⟨d, more, found⟩ := List.exists_cons_of_ne_nil some
  have digit : d.isDigit = true := all d (by simp [found])
  have minus : '-'.isDigit = false := rfl
  have plus : '+'.isDigit = false := rfl
  rw [found]
  cases negative : e.negative with
  | true =>
    simp only [negative, if_true] at signed
    simp [signed, exponentAt?, letter, minus, digit]
  | false =>
    simp only [negative, Bool.false_eq_true, if_false] at signed
    obtain rfl | rfl := signed
    · simp [exponentAt?, letter, digit]
    · simp [exponentAt?, letter, plus, digit]

section Behind

variable {rest : List Char} (ends : EndsNumber rest)

include ends

theorem EndsNumber.not_digit : rest.head?.any Char.isDigit = false := by
  cases rest with
  | nil => rfl
  | cons c more => exact (ends c rfl).1

theorem readExponent_of_ends (place : Position) :
    readExponent ⟨rest, place⟩ = (none, ⟨rest, place⟩) := by
  have nothing : exponentAt? rest = none := by
    unfold exponentAt?
    split
    · rename_i letter c more
      have other := (ends letter rfl).2
      simp only [List.mem_cons, List.not_mem_nil, or_false, not_or] at other
      rw [if_neg (not_or.mpr other.2)]
    · rfl
  unfold readExponent
  rw [nothing]
  split
  · rename_i contra
    cases contra
  · rfl

theorem readExponent_of_spelled {e : Exponent} {span : List Char} (spelled : e.Spelled span)
    (place : Position) :
    (readExponent ⟨span ++ rest, place⟩).1 = some e ∧
      (readExponent ⟨span ++ rest, place⟩).2.rest = rest := by
  obtain ⟨letter, digits, sign, rfl, signed⟩ := spelled
  have begins := exponentAt?_of_spelled letter digits signed rest
  rw [List.append_assoc]
  -- With letter and sign skipped, digits are left.
  obtain ⟨behind, behind_eq⟩ : ∃ behind, behind =
    (⟨e.letter :: sign ++ (e.digits ++ rest), place⟩ : Cursor).skip (sign.length + 1) := ⟨_, rfl⟩
  have left : behind.rest = e.digits ++ rest := by simp [behind_eq, Cursor.skip]
  obtain ⟨read, last⟩ := Cursor.span_append behind.place digits.2 ends.not_digit
  rw [← Cursor.eq_of_rest left] at read last
  unfold readExponent
  simp only [List.cons_append] at begins behind_eq ⊢
  simp only [begins, ← behind_eq, read, last, and_self]

end Behind

/-! ### Numbers -/

namespace Numeral

variable {n : Numeral} {span rest : List Char}

/-- What stands behind the digits before the point, and in it what stands behind the fraction. -/
theorem Spelled.exists_exponent (spelled : n.Spelled span) (ends : EndsNumber rest) :
    ∃ exponent, span = n.whole ++ ((if n.fraction = [] then [] else '.' :: n.fraction) ++ exponent) ∧
      (∀ place, (readExponent ⟨exponent ++ rest, place⟩).1 = n.exponent ∧
        (readExponent ⟨exponent ++ rest, place⟩).2.rest = rest) ∧
      ∀ c ∈ (exponent ++ rest).head?, c.isDigit = false ∧ c ≠ '.' := by
  obtain ⟨whole, fraction, exponent, rfl, form⟩ := spelled
  refine ⟨exponent, List.append_assoc .., ?_⟩
  cases some : n.exponent with
  | none =>
    simp only [some] at form
    subst form
    refine ⟨fun place => ?_, fun c head => ?_⟩
    · rw [List.nil_append, readExponent_of_ends ends]
      exact ⟨rfl, rfl⟩
    · have other := ends c head
      exact ⟨other.1, fun point => other.2 (by simp [point])⟩
  | some e =>
    simp only [some] at form
    refine ⟨readExponent_of_spelled ends form, ?_⟩
    obtain ⟨letter, -, sign, rfl, -⟩ := form
    rintro _ ⟨⟩
    obtain letter | letter := letter <;> rw [letter] <;> exact ⟨rfl, by decide⟩

/-- A fraction is read with its point, up to an exponent. -/
theorem readFraction_of_spelled {fraction behind : List Char}
    (digits : ∀ c ∈ fraction, c.isDigit = true)
    (other : ∀ c ∈ behind.head?, c.isDigit = false ∧ c ≠ '.') (place : Position) :
    let cur : Cursor := ⟨(if fraction = [] then [] else '.' :: fraction) ++ behind, place⟩
    (MdxReader.readFraction cur).1 = fraction ∧
      (MdxReader.readFraction cur).2.rest = behind := by
  have stop : behind.head?.any Char.isDigit = false := by
    cases behind with
    | nil => rfl
    | cons c more => exact (other c rfl).1
  cases fraction with
  | nil =>
    simp only [if_true, List.nil_append]
    unfold MdxReader.readFraction
    split
    · rename_i point
      exact absurd rfl (other '.' (by rw [show behind = _ from point]; rfl)).2
    · exact ⟨rfl, rfl⟩
  | cons c more =>
    have first := digits c List.mem_cons_self
    simp only [reduceCtorEq, if_false, List.cons_append, MdxReader.readFraction, first, if_true]
    exact Cursor.span_append _ digits stop

/-- **A literal is read as it is spelled**, and nothing of what follows. -/
theorem readNumber_of_spelled (spelled : n.Spelled span) (ends : EndsNumber rest)
    (place : Position) :
    (readNumber ⟨span ++ rest, place⟩).2.rest = rest ∧
      (readNumber ⟨span ++ rest, place⟩).1 = match n.value? with
        | some value => .ok (.number value)
        | none => .error (.invalidNumber n.text place) := by
  obtain ⟨exponent, rfl, reads, other⟩ := spelled.exists_exponent ends
  obtain ⟨⟨-, whole⟩, fraction, -⟩ := spelled
  obtain ⟨tail, tail_eq⟩ : ∃ tail, tail =
    (if n.fraction = [] then [] else '.' :: n.fraction) ++ (exponent ++ rest) := ⟨_, rfl⟩
  rw [List.append_assoc, List.append_assoc, ← tail_eq]
  -- A point or the letter of the exponent ends the digits, or what follows the literal.
  have stop : tail.head?.any Char.isDigit = false := by
    rw [tail_eq]
    split
    · rw [List.nil_append]
      cases behind : exponent ++ rest with
      | nil => rfl
      | cons c more => exact (other c (by rw [behind]; rfl)).1
    · rfl
  obtain ⟨first, left⟩ := Cursor.span_append place whole stop
  obtain ⟨second, left'⟩ := readFraction_of_spelled fraction other
    ((⟨n.whole ++ tail, place⟩ : Cursor).span Char.isDigit).2.place
  rw [← tail_eq, ← Cursor.eq_of_rest left] at second left'
  obtain ⟨third, left''⟩ := reads
    (MdxReader.readFraction ((⟨n.whole ++ tail, place⟩ : Cursor).span Char.isDigit).2).2.place
  rw [← Cursor.eq_of_rest left'] at third left''
  unfold readNumber
  simp only [first, second, third]
  split
  · rename_i value found
    simp only [left'', found, true_and]
  · rename_i found
    simp only [left'', found, true_and]

/-- A literal begins with a digit, which neither is white space nor opens a comment. -/
theorem Spelled.exists_digit (spelled : n.Spelled span) :
    ∃ c more, span = c :: more ∧ c.isDigit = true := by
  obtain ⟨⟨some, all⟩, -, exponent, rfl, -⟩ := spelled
  obtain ⟨c, more, found⟩ := List.exists_cons_of_ne_nil some
  exact ⟨c, _, by rw [found, List.append_assoc, List.cons_append], all c (by simp [found])⟩

end Numeral

/-! ### The text of one token -/

/-- What a text yields that is nothing but one token or one fault. -/
theorem tokensOf_of_readToken {text : String} {answer : Except ScanError Token}
    (solid : skipGap .space .start text.toList = (none, ⟨text.toList, .start⟩))
    (read : (readToken ⟨text.toList, .start⟩).1 = answer) (goesOn : isFinal answer = false)
    (left : (readToken ⟨text.toList, .start⟩).2.rest = []) :
    ∃ last, tokensOf text = answer.map fun t => [⟨t, .start⟩, ⟨.endOfText, last⟩] := by
  obtain ⟨after, after_eq⟩ : ∃ after, after = (readToken ⟨text.toList, .start⟩).2 := ⟨_, rfl⟩
  have first : (Scanner.ofText text).next = (answer, ⟨after, .start⟩) := by
    unfold Scanner.next Scanner.ofText
    simp only [solid, read, after_eq]
  have second : (⟨after, .start⟩ : Scanner).next = (.ok .endOfText, ⟨after, after.place⟩) := by
    rw [← after_eq] at left
    rw [Cursor.eq_of_rest left]
    rfl
  have feed : Feed.ofText text = ⟨[answer.map (⟨·, .start⟩)], .ok after.place⟩ := by
    unfold Feed.ofText
    rw [Feed.collect]
    simp only [first, goesOn, dif_pos]
    rw [Feed.collect]
    simp only [second]
    simp [isFinal, Except.map]
  refine ⟨after.place, ?_⟩
  unfold tokensOf Feed.tokens
  rw [feed]
  cases answer <;> rfl

theorem skipGap_of_isDigit {c : Char} (digit : c.isDigit = true) (more : List Char)
    (place : Position) : skipGap .space place (c :: more) = (none, ⟨c :: more, place⟩) := by
  have special := not_mem_delimiters_of_isDigit digit
  refine skipGap_of_solid (isBlank_of_isDigit digit) ?_ ?_ more place
  · rintro rfl
    exact special (by decide)
  · rintro rfl
    exact special (by decide)

/-- **The tokens of a literal** are one number and the end of the text, unless it is out of range,
which is then the only fault. -/
theorem tokensOf_of_spelled {n : Numeral} {span : List Char} (spelled : n.Spelled span) :
    ∃ last, tokensOf (String.ofList span) = match n.value? with
      | some value => .ok [⟨.number value, .start⟩, ⟨.endOfText, last⟩]
      | none => .error (.invalidNumber n.text .start) := by
  obtain ⟨left, read⟩ := Numeral.readNumber_of_spelled spelled endsNumber_nil .start
  rw [List.append_nil] at left read
  obtain ⟨c, more, rfl, digit⟩ := spelled.exists_digit
  have solid := skipGap_of_isDigit digit more .start
  have token := readToken_of_isDigit digit more .start
  have text : (String.ofList (c :: more)).toList = c :: more := String.toList_ofList
  have goesOn : isFinal (readNumber ⟨c :: more, .start⟩).1 = false := by
    rw [read]
    cases n.value? <;> rfl
  rw [← text] at solid token left
  rw [← token] at left
  obtain ⟨last, scanned⟩ := tokensOf_of_readToken solid (congrArg Prod.fst token)
    (text.symm ▸ goesOn) left
  refine ⟨last, ?_⟩
  rw [scanned, text, read]
  cases n.value? <;> rfl

/-- **A literal in front of a text** is one token more, unless the text goes on with it. -/
theorem exists_tokensOf_numeral {literal more : String} {d : Decimal} {further : List Located}
    (spelled : (Token.number d).Spelled literal.toList) (ends : EndsNumber more.toList)
    (h : tokensOf more = .ok further) :
    ∃ all, tokensOf (literal ++ more) = .ok all ∧
      all.map Located.token = .number d :: further.map Located.token := by
  obtain ⟨n, spelled, value⟩ := spelled
  obtain ⟨c, rest, found, digit⟩ := spelled.exists_digit
  obtain ⟨left, read⟩ := Numeral.readNumber_of_spelled spelled ends .start
  simp only [value] at read
  rw [found, List.cons_append] at left read
  have front : (literal ++ more).toList = c :: (rest ++ more.toList) := by
    rw [String.toList_append, found]
    rfl
  have token := readToken_of_isDigit digit (rest ++ more.toList) .start
  rw [← token] at left read
  rw [← front] at left read
  refine exists_tokensOf_front ?_ read (by simp) left h
  rw [front]
  exact skipGap_of_isDigit digit (rest ++ more.toList) .start

end MdxReader
