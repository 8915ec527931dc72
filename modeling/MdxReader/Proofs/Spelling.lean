import MdxReader.Proofs.Words

/-!
# Writing tokens

`Token.text` is the source form of a token: numbers with all their places, text in quotes or
brackets with the delimiter doubled, words and keywords as they are spelled.  `spaced` writes tokens
in a row, one space between two of them.

Scanning undoes writing (`exists_tokensOf_spaced`): every sound token is taken off the front of its
own text, whatever a space separates from it (`readToken_text`), and the rest is an induction over
the tokens.  Numbers are read digit by digit and never leave their range, because every prefix of
the digits is at most the mantissa.
-/

namespace MdxReader

open Text

/-! ### Characters -/

/-- A table that holds no code point of another one. -/
theorem not_covers_of_apart {table other : List CharRange} {n : Nat}
    (apart : ∀ range ∈ other, ∀ k < range.last + 1 - range.first,
      covers table (range.first + k) = false)
    (h : covers other n = true) : covers table n = false := by
  obtain ⟨range, mem, low, high⟩ := exists_range_of_covers h
  have here := apart range mem (n - range.first) (by omega)
  rwa [Nat.add_sub_cancel' low] at here

theorem isAlphabetic_of_isBlank {c : Char} (blank : isBlank c = true) : isAlphabetic c = false :=
  -- White space is a handful of code points, so each of them is looked up among the letters.
  not_covers_of_apart (by decide +kernel) blank

/-- White space starts no name. -/
theorem isBlank_of_isNameStart {c : Char} (starts : isNameStart c = true) : isBlank c = false := by
  unfold isNameStart at starts
  simp only [Bool.or_eq_true, beq_iff_eq] at starts
  obtain (letter | rfl) | rfl := starts
  · exact Bool.eq_false_iff.mpr fun blank => by simp [isAlphabetic_of_isBlank blank] at letter
  · decide
  · decide

/-- The characters that start a token which is neither a word nor a number. -/
def delimiters : List Char :=
  ['(', ')', '\x7b', '\x7d', ',', '.', ':', ';', '+', '-', '*', '/', '=', '<', '>', '|', '[', '&',
    '"', '\x27']

theorem not_mem_delimiters {ofClass : Char → Bool} (none : delimiters.any ofClass = false)
    {c : Char} (h : ofClass c = true) : c ∉ delimiters := fun mem =>
  List.any_eq_false.mp none c mem h

theorem not_mem_delimiters_of_isNameStart {c : Char} (starts : isNameStart c = true) :
    c ∉ delimiters :=
  not_mem_delimiters (by decide) starts

theorem covers_of_isDigit {c : Char} (digit : c.isDigit = true) (later : List CharRange) :
    covers (⟨'0'.toNat, '9'.toNat⟩ :: later) c.toNat = true := by
  obtain ⟨low, high⟩ := Char.isDigit_iff_toNat.mp digit
  rw [covers, if_neg (Nat.not_lt.mpr low), if_pos high]

theorem isBlank_of_isDigit {c : Char} (digit : c.isDigit = true) : isBlank c = false :=
  not_covers_of_apart (by decide) (covers_of_isDigit digit [])

theorem isNameStart_of_isDigit {c : Char} (digit : c.isDigit = true) : isNameStart c = false := by
  have letter : isAlphabetic c = false :=
    not_covers_of_apart (by decide) (covers_of_isDigit digit [])
  unfold isNameStart
  rw [letter]
  cases other : c == '_' || c == '$' with
  | false => simpa using other
  | true =>
    simp only [Bool.or_eq_true, beq_iff_eq] at other
    obtain rfl | rfl := other <;> cases digit

theorem not_mem_delimiters_of_isDigit {c : Char} (digit : c.isDigit = true) : c ∉ delimiters :=
  not_mem_delimiters (by decide) digit

/-- No symbol starts with a character of a word or a number. -/
theorem symbolAt?_eq_none {c : Char} (h : c ∉ delimiters) (rest : List Char) :
    symbolAt? (c :: rest) = none := by
  simp only [delimiters, List.mem_cons, not_or, List.not_mem_nil, not_false_eq_true, and_true] at h
  unfold symbolAt?
  simp_all

/-- What is no symbol is told apart by its first character. -/
theorem readToken_of_no_symbol {c : Char} {rest : List Char} (place : Position)
    (none : symbolAt? (c :: rest) = none) :
    readToken ⟨c :: rest, place⟩ =
      if c = '[' then readEnclosed ⟨c :: rest, place⟩ ']' .bracketed .unterminatedName
      else if c = '&' then readKey ⟨c :: rest, place⟩
      else if c = '"' then
        readEnclosed ⟨c :: rest, place⟩ '"' (.string · .double) .unterminatedString
      else if c = '\x27' then
        readEnclosed ⟨c :: rest, place⟩ '\x27' (.string · .single) .unterminatedString
      else if c.isDigit then readNumber ⟨c :: rest, place⟩
      else if isNameStart c then
        (.ok (readWord ⟨c :: rest, place⟩).1, (readWord ⟨c :: rest, place⟩).2)
      else (.error (.unexpectedCharacter c place), ⟨c :: rest, place⟩) := by
  unfold readToken
  simp only [none]

theorem readToken_of_isDigit {c : Char} (digit : c.isDigit = true) (rest : List Char)
    (place : Position) : readToken ⟨c :: rest, place⟩ = readNumber ⟨c :: rest, place⟩ := by
  have special := not_mem_delimiters_of_isDigit digit
  rw [readToken_of_no_symbol place (symbolAt?_eq_none special rest)]
  simp only [delimiters, List.mem_cons, not_or] at special
  simp only [special, if_false, digit, if_true]

theorem readToken_of_isNameStart {c : Char} (starts : isNameStart c = true) (rest : List Char)
    (place : Position) : readToken ⟨c :: rest, place⟩ =
      (.ok (readWord ⟨c :: rest, place⟩).1, (readWord ⟨c :: rest, place⟩).2) := by
  have special := not_mem_delimiters_of_isNameStart starts
  have digit : c.isDigit = false := by
    cases digit : c.isDigit with
    | false => rfl
    | true =>
      rw [isNameStart_of_isDigit digit] at starts
      cases starts
  rw [readToken_of_no_symbol place (symbolAt?_eq_none special rest)]
  simp only [delimiters, List.mem_cons, not_or] at special
  simp only [special, if_false, digit, Bool.false_eq_true, starts, if_true]

/-! ### The source form -/

/-- A text with a delimiter doubled. -/
def doubled (delimiter : Char) (text : String) : List Char :=
  text.toList.flatMap fun c => if c = delimiter then [c, c] else [c]

/-- The character of a quotation mark. -/
def Quote.mark : Quote → Char
  | double => '"'
  | single => '\x27'

/-- **A token as it is written.** -/
def Token.text : Token → String
  | number value => value.text
  | string value quote => String.ofList (quote.mark :: doubled quote.mark value ++ [quote.mark])
  | word spelling => spelling
  | keyword _ spelling => spelling
  | bracketed name => inBrackets name
  | bracketedKey name => "&" ++ inBrackets name
  | wordKey name => "&" ++ name
  | symbol s => s.spelling
  | endOfText => ""

/-- Tokens in a row, one space between two of them. -/
def spaced (tokens : List Token) : String := " ".intercalate (tokens.map Token.text)

/-- What stands behind a token: nothing, or a space and more. -/
def Apart (rest : List Char) : Prop := rest = [] ∨ ∃ more, rest = ' ' :: more

theorem Apart.not_head {rest : List Char} (apart : Apart rest) {c : Char} (other : c ≠ ' ') :
    rest.head? ≠ some c := by
  obtain rfl | ⟨more, rfl⟩ := apart
  · nofun
  · rintro ⟨⟩
    exact other rfl

namespace Cursor

theorem eq_of_rest {cur : Cursor} {rest : List Char} (h : cur.rest = rest) :
    cur = ⟨rest, cur.place⟩ := by
  subst h
  rfl

/-- A class of characters takes all of its own characters and stops at the first other one. -/
theorem span_append {ofClass : Char → Bool} {text rest : List Char} (place : Position)
    (all : ∀ c ∈ text, ofClass c = true) (stop : rest.head?.any ofClass = false) :
    ((⟨text ++ rest, place⟩ : Cursor).span ofClass).1 = text ∧
      ((⟨text ++ rest, place⟩ : Cursor).span ofClass).2.rest = rest := by
  simp only [span, List.takeWhile_append_of_pos all, List.dropWhile_append_of_pos all]
  cases rest with
  | nil => simp
  | cons c more =>
    have other : ofClass c = false := stop
    simp [other]

end Cursor

theorem Apart.stop {rest : List Char} (apart : Apart rest) {ofClass : Char → Bool}
    (space : ofClass ' ' = false) : rest.head?.any ofClass = false := by
  obtain rfl | ⟨more, rfl⟩ := apart
  · rfl
  · exact space

/-! ### Delimited text -/

/-- Reading up to the delimiter undoes doubling. -/
theorem readDelimited_doubled {delimiter : Char} (text taken rest : List Char) (place : Position)
    (other : rest.head? ≠ some delimiter) :
    let read := readDelimited delimiter taken place
      (text.flatMap (fun c => if c = delimiter then [c, c] else [c]) ++ delimiter :: rest)
    read.1 = some (String.ofList (taken.reverse ++ text)) ∧ read.2.rest = rest := by
  induction text generalizing taken place with
  | nil =>
    simp only [List.flatMap_nil, List.nil_append, List.append_nil]
    rw [readDelimited.eq_def]
    simp only [if_true]
    cases rest with
    | nil => exact ⟨rfl, rfl⟩
    | cons d later =>
      -- A second delimiter would have to be the first of the rest.
      have differs : d ≠ delimiter := fun same => other (same ▸ rfl)
      simp only [if_neg differs, and_self]
  | cons c text ih =>
    have inner := ih (c :: taken)
    simp only [List.reverse_cons, List.append_assoc, List.singleton_append] at inner
    by_cases same : c = delimiter
    · -- A doubled delimiter is one character of the text, and reading goes on behind it.
      subst same
      simp only [List.flatMap_cons, if_true, List.cons_append, List.nil_append]
      rw [readDelimited.eq_def]
      simp only [if_true]
      exact inner _
    · simp only [List.flatMap_cons, if_neg same, List.cons_append, List.nil_append]
      rw [readDelimited.eq_def]
      simp only [if_neg same]
      exact inner _

/-- A delimited text is read back with its delimiters gone. -/
theorem readEnclosed_doubled {opening delimiter : Char} {token : String → Token}
    {unterminated : Position → ScanError} (text : String) {rest : List Char} (place : Position)
    (other : rest.head? ≠ some delimiter) :
    let cur : Cursor := ⟨opening :: (doubled delimiter text ++ delimiter :: rest), place⟩
    (readEnclosed cur delimiter token unterminated).1 = .ok (token text) ∧
      (readEnclosed cur delimiter token unterminated).2.rest = rest := by
  obtain ⟨found, left⟩ := readDelimited_doubled text.toList [] rest (place.next opening) other
  rw [List.reverse_nil, List.nil_append, String.ofList_toList] at found
  simp only [readEnclosed, Cursor.skip, List.drop_succ_cons, List.drop_zero, List.take_succ_cons,
    List.take_zero, Position.past_cons, Position.past_nil]
  unfold doubled
  split
  · rename_i inside after read
    rw [read] at found left
    cases found
    exact ⟨rfl, left⟩
  · rename_i after read
    rw [read] at found
    cases found

/-! ### Numbers -/

namespace Numeral

/-- A digit more never makes a number less. -/
theorem le_ofDigitChars (digits : List Char) (n : Nat) : n ≤ Nat.ofDigitChars 10 digits n := by
  rw [Nat.ofDigitChars_eq_ofDigitChars_zero]
  have := Nat.le_mul_of_pos_left n (Nat.pow_pos (Nat.succ_pos 9) : 0 < 10 ^ digits.length)
  omega

theorem appendDigit?_of_lt {mantissa : Nat} {c : Char} {digits : List Char}
    (small : Nat.ofDigitChars 10 (c :: digits) mantissa < Decimal.mantissaBound) :
    appendDigit? mantissa c = some (10 * mantissa + (c.toNat - '0'.toNat)) := by
  rw [Nat.ofDigitChars_cons] at small
  -- The digits that follow only add to what stands so far, so this much is small already.
  have longer := Nat.lt_of_le_of_lt (le_ofDigitChars digits _) small
  unfold appendDigit? digitValue
  rw [Nat.mul_comm mantissa 10]
  simp only [if_pos longer]

/-- Digits before the point are read one by one. -/
theorem readWhole_of_lt {digits : List Char} {mantissa : Nat}
    (small : Nat.ofDigitChars 10 digits mantissa < Decimal.mantissaBound) :
    readWhole mantissa digits = some (Nat.ofDigitChars 10 digits mantissa) := by
  induction digits generalizing mantissa with
  | nil => simp [readWhole]
  | cons c digits ih =>
    rw [readWhole, appendDigit?_of_lt small, Option.bind_some]
    rw [Nat.ofDigitChars_cons] at small ⊢
    exact ih small

/-- So are digits behind it, as long as there are places left. -/
theorem readFraction_of_lt {digits : List Char} {mantissa scale : Nat}
    (small : Nat.ofDigitChars 10 digits mantissa < Decimal.mantissaBound)
    (short : scale + digits.length ≤ Decimal.maxScale) :
    readFraction mantissa scale digits =
      some (Nat.ofDigitChars 10 digits mantissa, scale + digits.length) := by
  induction digits generalizing mantissa scale with
  | nil => simp [readFraction]
  | cons c digits ih =>
    rw [List.length_cons, ← Nat.add_assoc, Nat.add_right_comm] at short
    -- There is a place left, so nothing is rounded.
    have room : scale ≠ Decimal.maxScale := Nat.ne_of_lt (Nat.le_trans (Nat.le_add_right _ _) short)
    rw [readFraction, if_neg room, appendDigit?_of_lt small]
    rw [Nat.ofDigitChars_cons] at small ⊢
    simp only
    rw [ih small short, List.length_cons, ← Nat.add_assoc, Nat.add_right_comm]

/-- Digits that all have room are all kept. -/
theorem plain?_of_lt {n : Numeral}
    (small : Nat.ofDigitChars 10 (n.whole ++ n.fraction) 0 < Decimal.mantissaBound)
    (short : n.fraction.length ≤ Decimal.maxScale) :
    n.plain? = some (Nat.ofDigitChars 10 (n.whole ++ n.fraction) 0, n.fraction.length) := by
  rw [Nat.ofDigitChars_append] at small ⊢
  have whole := readWhole_of_lt (Nat.lt_of_le_of_lt (le_ofDigitChars n.fraction _) small)
  rw [← Nat.zero_add n.fraction.length] at short
  unfold plain?
  rw [whole, Option.bind_some, readFraction_of_lt small short, Nat.zero_add]

end Numeral

namespace Decimal

variable (d : Decimal)

theorem isDigit_of_mem_digits {c : Char} (mem : c ∈ d.digits) : c.isDigit = true := by
  unfold digits at mem
  rcases List.mem_append.mp mem with zero | shown
  · rw [List.eq_of_mem_replicate zero]
    rfl
  · exact Nat.isDigit_of_mem_toDigits (by decide) (by decide) shown

theorem ofDigitChars_digits : Nat.ofDigitChars 10 d.digits 0 = d.mantissa := by
  unfold digits
  rw [Nat.ofDigitChars_append, Nat.ofDigitChars_replicate_zero, Nat.mul_zero,
    Nat.ofDigitChars_ten_toDigits]

theorem scale_lt_length_digits : d.scale < d.digits.length := by
  have := Nat.length_toDigits_pos (b := 10) (n := d.mantissa)
  -- Zeros are put in front until there is a digit before the point.
  unfold digits
  rw [List.length_append, List.length_replicate]
  omega

/-- The digits before the point. -/
def whole : List Char := d.digits.take (d.digits.length - d.scale)

/-- The digits behind the point. -/
def fraction : List Char := d.digits.drop (d.digits.length - d.scale)

theorem length_fraction : d.fraction.length = d.scale := by
  have := d.scale_lt_length_digits
  unfold fraction
  rw [List.length_drop]
  omega

theorem whole_append_fraction : d.whole ++ d.fraction = d.digits := List.take_append_drop ..

theorem text_eq : d.text.toList =
    d.whole ++ if d.fraction = [] then [] else '.' :: d.fraction := by
  have length := d.length_fraction
  unfold text
  by_cases plain : d.scale = 0
  · have none : d.fraction = [] := List.eq_nil_of_length_eq_zero (length.trans plain)
    have all := d.whole_append_fraction
    rw [none, List.append_nil] at all
    simp only [plain, none, if_true, String.toList_ofList, all, List.append_nil]
  · have some : d.fraction ≠ [] := fun none => plain (length ▸ congrArg List.length none)
    simp only [plain, some, if_false, String.toList_ofList]
    rfl

theorem exists_digit : ∃ c more, d.text.toList = c :: more ∧ c.isDigit = true := by
  have := d.scale_lt_length_digits
  have some : d.whole ≠ [] := by
    unfold whole
    intro none
    have length := congrArg List.length none
    rw [List.length_take, List.length_nil] at length
    omega
  obtain ⟨c, more, found⟩ := List.exists_cons_of_ne_nil some
  have mem : c ∈ d.whole := found ▸ List.mem_cons_self
  have text := d.text_eq
  rw [found, List.cons_append] at text
  exact ⟨c, _, text, d.isDigit_of_mem_digits (List.mem_of_mem_take mem)⟩

/-- The digits of a decimal stand for it. -/
theorem value?_digits : Numeral.value? ⟨d.whole, d.fraction, none⟩ = some d := by
  have total : Nat.ofDigitChars 10 (d.whole ++ d.fraction) 0 = d.mantissa := by
    rw [d.whole_append_fraction, d.ofDigitChars_digits]
  have plain : Numeral.plain? ⟨d.whole, d.fraction, none⟩ = some (d.mantissa, d.scale) := by
    rw [Numeral.plain?_of_lt, total, d.length_fraction]
    · rw [total]
      exact d.mantissa_lt
    · rw [d.length_fraction]
      exact d.scale_le
  unfold Numeral.value?
  rw [plain]
  exact dif_pos ⟨d.mantissa_lt, d.scale_le⟩

end Decimal

/-- No exponent follows a space. -/
theorem readExponent_of_apart {rest : List Char} (apart : Apart rest) (place : Position) :
    readExponent ⟨rest, place⟩ = (none, ⟨rest, place⟩) := by
  obtain rfl | ⟨more, rfl⟩ := apart
  · rfl
  · cases more <;> rfl

/-- What follows the point is read up to the space, with the point itself. -/
theorem readFraction_text (d : Decimal) {rest : List Char} (apart : Apart rest)
    (place : Position) :
    let cur : Cursor :=
      ⟨(if d.fraction = [] then [] else '.' :: d.fraction) ++ rest, place⟩
    (readFraction cur).1 = d.fraction ∧ (readFraction cur).2.rest = rest := by
  have digits : ∀ c ∈ d.fraction, c.isDigit = true := fun c mem =>
    d.isDigit_of_mem_digits (List.mem_of_mem_drop mem)
  cases places : d.fraction with
  | nil =>
    obtain rfl | ⟨more, rfl⟩ := apart
    · exact ⟨rfl, rfl⟩
    · exact ⟨rfl, rfl⟩
  | cons c more =>
    rw [places] at digits
    have first := digits c List.mem_cons_self
    simp only [reduceCtorEq, if_false, List.cons_append, readFraction, first, if_true]
    exact Cursor.span_append _ digits (apart.stop rfl)

/-- A number is read back from its digits. -/
theorem readNumber_text (d : Decimal) {rest : List Char} (apart : Apart rest) (place : Position) :
    (readNumber ⟨d.text.toList ++ rest, place⟩).1 = .ok (.number d) ∧
      (readNumber ⟨d.text.toList ++ rest, place⟩).2.rest = rest := by
  have digits : ∀ c ∈ d.whole, c.isDigit = true := fun c mem =>
    d.isDigit_of_mem_digits (List.mem_of_mem_take mem)
  -- What follows the digits before the point, under one name while they are read.
  obtain ⟨tail, tail_eq⟩ : ∃ tail, tail =
    (if d.fraction = [] then [] else '.' :: d.fraction) ++ rest := ⟨_, rfl⟩
  rw [d.text_eq, List.append_assoc, ← tail_eq]
  -- A point or a space ends the digits.
  have stop : tail.head?.any Char.isDigit = false := by
    rw [tail_eq]
    split
    · exact apart.stop rfl
    · rfl
  obtain ⟨whole, left⟩ := Cursor.span_append place digits stop
  obtain ⟨fraction, left'⟩ := readFraction_text d apart
    ((⟨d.whole ++ tail, place⟩ : Cursor).span Char.isDigit).2.place
  rw [← tail_eq, ← Cursor.eq_of_rest left] at fraction left'
  have exponent := readExponent_of_apart apart
    (readFraction ((⟨d.whole ++ tail, place⟩ : Cursor).span Char.isDigit).2).2.place
  rw [← Cursor.eq_of_rest left'] at exponent
  unfold readNumber
  simp only [whole, fraction, exponent, d.value?_digits, true_and]
  exact left'

/-! ### Words -/

/-- The characters of a word. -/
theorem exists_of_isWord {text : String} (word : isWord text = true) :
    ∃ c more, text.toList = c :: more ∧ isNameStart c = true ∧
      ∀ d ∈ text.toList, isNamePart d = true := by
  unfold isWord at word
  split at word
  · rename_i c more found
    obtain ⟨starts, parts⟩ := Bool.and_eq_true_iff.mp word
    refine ⟨c, more, found, starts, ?_⟩
    rw [found]
    exact List.forall_mem_cons.mpr ⟨isNamePart_of_isNameStart starts, List.all_eq_true.mp parts⟩
  · cases word

/-- The letters of ASCII start names. -/
theorem isNameStart_of_isAlpha {c : Char} (letter : c.isAlpha = true) : isNameStart c = true := by
  have inside : ('A'.toNat ≤ c.toNat ∧ c.toNat ≤ 'Z'.toNat) ∨
      ('a'.toNat ≤ c.toNat ∧ c.toNat ≤ 'z'.toNat) := by
    rcases Bool.or_eq_true_iff.mp letter with upper | lower
    · exact .inl (of_decide_eq_true upper)
    · obtain ⟨low, high⟩ := Bool.and_eq_true_iff.mp lower
      exact .inr ⟨of_decide_eq_true low, of_decide_eq_true high⟩
  -- The table begins with these two ranges.
  obtain ⟨later, table⟩ : ∃ later, alphabeticTable =
      ⟨'A'.toNat, 'Z'.toNat⟩ :: ⟨'a'.toNat, 'z'.toNat⟩ :: later := ⟨_, rfl⟩
  have found : isAlphabetic c = true := by
    simp only [Char.reduceToNat] at inside table
    unfold isAlphabetic
    rw [table]
    simp only [covers]
    grind
  simp [isNameStart, found]

/-- Only letters have capitals that are letters. -/
theorem isAlpha_of_isUpper_toUpper {c : Char} (h : c.toUpper.isUpper = true) :
    c.isAlpha = true := by
  by_cases lower : c.isLower = true
  · exact Bool.or_eq_true_iff.mpr (.inr lower)
  · have same : c.toUpper = c := dif_neg fun both =>
      lower (Bool.and_eq_true_iff.mpr ⟨decide_eq_true both.1, decide_eq_true both.2⟩)
    rw [same] at h
    exact Bool.or_eq_true_iff.mpr (.inl h)

/-- The capitals of a word that is a keyword. -/
theorem upperCase_of_ofWord {word : String} {k : Keyword} (h : Keyword.ofWord? word = some k) :
    upperCase word = k.spelling := by
  have found := List.find?_some h
  exact (eq_of_beq found).symm

/-- Keywords are spelled in capitals of ASCII. -/
theorem isUpper_of_mem_spelling (k : Keyword) :
    k.spelling.toList ≠ [] ∧ ∀ c ∈ k.spelling.toList, c.isUpper = true := by
  have all : Keyword.all.all (fun k =>
      !k.spelling.toList.isEmpty && k.spelling.toList.all Char.isUpper) = true := by
    decide +kernel
  simpa using List.all_eq_true.mp all k k.mem_all

/-- Whatever is a keyword is a word: it has letters of ASCII only. -/
theorem isWord_of_ofWord {text : String} {k : Keyword} (h : Keyword.ofWord? text = some k) :
    isWord text = true := by
  have capitals := isUpper_of_mem_spelling k
  rw [← upperCase_of_ofWord h, upperCase, String.toList_ofList, List.forall_mem_map] at capitals
  obtain ⟨some, letters⟩ := capitals
  have starts (c : Char) (mem : c ∈ text.toList) : isNameStart c = true :=
    isNameStart_of_isAlpha (isAlpha_of_isUpper_toUpper (letters c mem))
  unfold isWord
  split
  · rename_i c rest found
    rw [found] at starts
    have parts : rest.all isNamePart = true := List.all_eq_true.mpr fun d mem =>
      isNamePart_of_isNameStart (starts d (List.mem_cons_of_mem c mem))
    rw [starts c List.mem_cons_self, parts]
    rfl
  · rename_i empty
    simp [empty] at some

/-- A keyword is sound if its text spells it. -/
theorem Token.sound_keyword_iff {k : Keyword} {text : String} :
    (keyword k text).Sound ↔ Keyword.ofWord? text = some k :=
  ⟨And.right, fun spelled => ⟨isWord_of_ofWord spelled, spelled⟩⟩

/-- A word is taken whole, up to the space. -/
theorem span_of_isWord {text : String} (word : isWord text = true) {rest : List Char}
    (stop : rest.head?.any isNamePart = false) (place : Position) :
    String.ofList ((⟨text.toList ++ rest, place⟩ : Cursor).span isNamePart).1 = text ∧
      ((⟨text.toList ++ rest, place⟩ : Cursor).span isNamePart).2.rest = rest := by
  obtain ⟨c, more, -, -, parts⟩ := exists_of_isWord word
  obtain ⟨taken, left⟩ := Cursor.span_append place parts stop
  rw [taken, String.ofList_toList]
  exact ⟨rfl, left⟩

/-- The token of a word: a keyword, or else a word. -/
def Token.ofWord (text : String) : Token :=
  match Keyword.ofWord? text with
  | some k => .keyword k text
  | none => .word text

theorem readWord_of_isWord {text : String} (word : isWord text = true) {rest : List Char}
    (stop : rest.head?.any isNamePart = false) (place : Position) :
    (readWord ⟨text.toList ++ rest, place⟩).1 = .ofWord text ∧
      (readWord ⟨text.toList ++ rest, place⟩).2.rest = rest := by
  obtain ⟨taken, left⟩ := span_of_isWord word stop place
  unfold readWord Token.ofWord
  simp only [taken]
  cases Keyword.ofWord? text <;> exact ⟨rfl, left⟩

theorem Token.Sound.eq_ofWord {text : String} :
    (∀ k, (keyword k text).Sound → ofWord text = keyword k text) ∧
      ((word text).Sound → ofWord text = word text) := by
  constructor
  · rintro k ⟨-, found⟩
    rw [ofWord, found]
  · rintro ⟨-, other⟩
    rw [ofWord, other]

/-! ### Single tokens -/

theorem toList_inBrackets (name : String) :
    (Token.inBrackets name).toList = '[' :: (doubled ']' name ++ [']']) := by
  simp [Token.inBrackets, doubled]

theorem readToken_of_symbol {cur : Cursor} {s : Symbol} (h : symbolAt? cur.rest = some s) :
    readToken cur = (.ok (.symbol s), cur.skip s.width) := by
  unfold readToken
  split
  · rename_i empty
    rw [empty] at h
    cases h
  · simp only [h]

/-- A space keeps a symbol from being the beginning of a longer one. -/
theorem symbolAt?_spelling (s : Symbol) {rest : List Char} (apart : Apart rest) :
    symbolAt? (s.spelling.toList ++ rest) = some s := by
  obtain rfl | ⟨more, rfl⟩ := apart <;> cases s <;> simp [symbolAt?, Symbol.spelling]

theorem length_spelling (s : Symbol) : s.spelling.toList.length = s.width := by
  cases s <;> rfl

theorem readToken_symbol (s : Symbol) {rest : List Char} (apart : Apart rest) (place : Position) :
    (readToken ⟨s.spelling.toList ++ rest, place⟩).1 = .ok (.symbol s) ∧
      (readToken ⟨s.spelling.toList ++ rest, place⟩).2.rest = rest := by
  rw [readToken_of_symbol (symbolAt?_spelling s apart)]
  exact ⟨rfl, List.drop_left' (length_spelling s)⟩

theorem readToken_word {text : String} (word : isWord text = true) {rest : List Char}
    (stop : rest.head?.any isNamePart = false) (place : Position) :
    (readToken ⟨text.toList ++ rest, place⟩).1 = .ok (.ofWord text) ∧
      (readToken ⟨text.toList ++ rest, place⟩).2.rest = rest := by
  obtain ⟨read, left⟩ := readWord_of_isWord word stop place
  obtain ⟨c, more, found, starts, -⟩ := exists_of_isWord word
  rw [found, List.cons_append] at read left ⊢
  rw [readToken_of_isNameStart starts, read]
  simp only [left, and_self]

theorem readToken_number (d : Decimal) {rest : List Char} (apart : Apart rest) (place : Position) :
    (readToken ⟨d.text.toList ++ rest, place⟩).1 = .ok (.number d) ∧
      (readToken ⟨d.text.toList ++ rest, place⟩).2.rest = rest := by
  obtain ⟨read, left⟩ := readNumber_text d apart place
  obtain ⟨c, more, found, digit⟩ := d.exists_digit
  rw [found, List.cons_append] at read left ⊢
  rw [readToken_of_isDigit digit]
  exact ⟨read, left⟩

theorem readToken_wordKey {name : String} (word : isWord name = true) {rest : List Char}
    (stop : rest.head?.any isNamePart = false) (place : Position) :
    (readToken ⟨("&" ++ name).toList ++ rest, place⟩).1 = .ok (.wordKey name) ∧
      (readToken ⟨("&" ++ name).toList ++ rest, place⟩).2.rest = rest := by
  obtain ⟨taken, left⟩ := span_of_isWord word stop (place.next '&')
  obtain ⟨c, more, found, starts, -⟩ := exists_of_isWord word
  -- The first letter tells the key of a word from one in brackets.
  have bracket : c ≠ '[' := by
    rintro rfl
    exact not_mem_delimiters_of_isNameStart starts (by decide)
  rw [String.toList_append, List.append_assoc]
  rw [found, List.cons_append] at taken left ⊢
  have read : readToken ⟨'&' :: c :: (more ++ rest), place⟩ =
      (.ok (.wordKey name),
        ((⟨c :: (more ++ rest), place.next '&'⟩ : Cursor).span isNamePart).2) := by
    rw [readToken_of_no_symbol place (by simp [symbolAt?])]
    simp only [Char.reduceEq, if_false, if_true, readKey, Cursor.skip, List.drop_succ_cons,
      List.drop_zero, List.take_succ_cons, List.take_zero, Position.past_cons, Position.past_nil,
      bracket, starts, taken]
  exact ⟨congrArg Prod.fst read, (congrArg (·.2.rest) read).trans left⟩

/-- **A token is read back from its own text**, where nothing or a space follows. -/
theorem readToken_text {t : Token} (sound : t.Sound) (inner : t ≠ .endOfText) {rest : List Char}
    (apart : Apart rest) (place : Position) :
    (readToken ⟨t.text.toList ++ rest, place⟩).1 = .ok t ∧
      (readToken ⟨t.text.toList ++ rest, place⟩).2.rest = rest := by
  have stop : rest.head?.any isNamePart = false := apart.stop (by decide)
  cases t with
  | number d => exact readToken_number d apart place
  | string value quote =>
    cases quote with
    | double =>
      simp only [Token.text, Quote.mark, String.toList_ofList, List.cons_append, List.append_assoc,
        List.nil_append]
      rw [readToken_of_no_symbol place (by simp [symbolAt?]), if_neg (by decide),
        if_neg (by decide), if_pos rfl]
      exact readEnclosed_doubled value place (apart.not_head (by decide))
    | single =>
      simp only [Token.text, Quote.mark, String.toList_ofList, List.cons_append, List.append_assoc,
        List.nil_append]
      rw [readToken_of_no_symbol place (by simp [symbolAt?]), if_neg (by decide),
        if_neg (by decide), if_neg (by decide), if_pos rfl]
      exact readEnclosed_doubled value place (apart.not_head (by decide))
  | word spelling =>
    have read := readToken_word sound.1 stop place
    rwa [Token.Sound.eq_ofWord.2 sound] at read
  | keyword k spelling =>
    have read := readToken_word sound.1 stop place
    rwa [Token.Sound.eq_ofWord.1 k sound] at read
  | bracketed name =>
    simp only [Token.text, toList_inBrackets, List.cons_append, List.append_assoc, List.nil_append]
    rw [readToken_of_no_symbol place (by simp [symbolAt?]), if_pos rfl]
    exact readEnclosed_doubled name place (apart.not_head (by decide))
  | bracketedKey name =>
    have ampersand : "&".toList = ['&'] := by simp
    simp only [Token.text, toList_inBrackets, String.toList_append, ampersand, List.cons_append,
      List.append_assoc, List.nil_append]
    rw [readToken_of_no_symbol place (by simp [symbolAt?]), if_neg (by decide), if_pos rfl]
    exact readEnclosed_doubled name (place.next '&') (apart.not_head (by decide))
  | wordKey name => exact readToken_wordKey sound stop place
  | symbol s => exact readToken_symbol s apart place
  | endOfText => exact absurd rfl inner

/-! ### Tokens in a row -/

/-- A text that starts with no white space, and not like a comment. -/
def startsSolid : List Char → Bool
  | [] => false
  | c :: more => !isBlank c && (!(c == '/' || c == '-') || more.isEmpty)

theorem startsSolid_cons {c : Char} (solid : isBlank c = false) (slash : c ≠ '/') (minus : c ≠ '-')
    (more : List Char) : startsSolid (c :: more) = true := by
  simp [startsSolid, solid, slash, minus]

theorem startsSolid_of_not_mem {c : Char} (solid : isBlank c = false) (special : c ∉ delimiters)
    (more : List Char) : startsSolid (c :: more) = true := by
  refine startsSolid_cons solid ?_ ?_ more <;> rintro rfl <;> exact special (by decide)

theorem startsSolid_of_isWord {text : String} (word : isWord text = true) :
    startsSolid text.toList = true := by
  obtain ⟨c, more, found, starts, -⟩ := exists_of_isWord word
  rw [found]
  exact startsSolid_of_not_mem (isBlank_of_isNameStart starts)
    (not_mem_delimiters_of_isNameStart starts) more

theorem startsSolid_text {t : Token} (sound : t.Sound) (inner : t ≠ .endOfText) :
    startsSolid t.text.toList = true := by
  have blank : delimiters.any isBlank = false := by decide
  have solid : ∀ c ∈ delimiters, isBlank c = false := fun c mem =>
    Bool.eq_false_iff.mpr (List.any_eq_false.mp blank c mem)
  cases t with
  | number d =>
    obtain ⟨c, more, found, digit⟩ := d.exists_digit
    rw [Token.text, found]
    exact startsSolid_of_not_mem (isBlank_of_isDigit digit)
      (not_mem_delimiters_of_isDigit digit) more
  | string value quote =>
    rw [Token.text, String.toList_ofList]
    cases quote <;> exact startsSolid_cons (solid _ (by decide)) (by decide) (by decide) _
  | word spelling => exact startsSolid_of_isWord sound.1
  | keyword k spelling => exact startsSolid_of_isWord sound.1
  | bracketed name =>
    rw [Token.text, toList_inBrackets]
    exact startsSolid_cons (solid _ (by decide)) (by decide) (by decide) _
  | bracketedKey name | wordKey name =>
    rw [Token.text, String.toList_append]
    exact startsSolid_cons (solid '&' (by decide)) (by decide) (by decide) _
  | symbol s => cases s <;> rfl
  | endOfText => exact absurd rfl inner

theorem exists_start_of_startsSolid {text : List Char} (h : startsSolid text = true) :
    ∃ c more, text = c :: more ∧ isBlank c = false ∧ (c = '/' ∨ c = '-' → more = []) := by
  cases text with
  | nil => cases h
  | cons c more =>
    simp only [startsSolid, Bool.and_eq_true, Bool.or_eq_true, Bool.not_eq_true',
      Bool.or_eq_false_iff, beq_eq_false_iff_ne, List.isEmpty_iff] at h
    refine ⟨c, more, rfl, h.1, fun mark => h.2.resolve_left fun other => ?_⟩
    exact mark.elim other.1 other.2

/-- There is no gap in front of a token. -/
theorem skipGap_text {t : Token} (sound : t.Sound) (inner : t ≠ .endOfText) {rest : List Char}
    (apart : Apart rest) (place : Position) :
    skipGap .space place (t.text.toList ++ rest) = (none, ⟨t.text.toList ++ rest, place⟩) := by
  obtain ⟨c, more, found, solid, short⟩ :=
    exists_start_of_startsSolid (startsSolid_text sound inner)
  rw [found, List.cons_append, skipGap.eq_def]
  simp only [solid, Bool.false_eq_true, if_false]
  split
  · rename_i none
    rw [none]
  · rename_i d later second
    -- What starts like a comment is a symbol of one character, and a space follows it.
    have open? : ¬ ((c = '/' ∨ c = '-') ∧ d ≠ ' ') := by
      rintro ⟨mark, other⟩
      rw [short mark, List.nil_append] at second
      exact apart.not_head other (by rw [second]; rfl)
    have line : ¬ ((c = '/' ∧ d = '/') ∨ (c = '-' ∧ d = '-')) := by
      rintro (⟨rfl, rfl⟩ | ⟨rfl, rfl⟩) <;> exact open? (by decide)
    have block : ¬ (c = '/' ∧ d = '*') := by
      rintro ⟨rfl, rfl⟩
      exact open? (by decide)
    rw [if_neg line, if_neg block, second]

namespace Scanner

/-- A scanner in front of a token takes it and leaves what follows. -/
theorem next_text {t : Token} (sound : t.Sound) (inner : t ≠ .endOfText) {rest : List Char}
    (apart : Apart rest) {s : Scanner} (h : s.cursor.rest = t.text.toList ++ rest ∨
      s.cursor.rest = ' ' :: (t.text.toList ++ rest)) :
    s.next.1 = .ok t ∧ s.next.2.cursor.rest = rest := by
  -- With the gap gone, the token is the next thing there is.
  have reads (place : Position) (h : skipGap .space s.cursor.place s.cursor.rest =
      (none, ⟨t.text.toList ++ rest, place⟩)) :
      s.next.1 = .ok t ∧ s.next.2.cursor.rest = rest := by
    obtain ⟨read, left⟩ := readToken_text sound inner apart place
    unfold next
    rw [h]
    exact ⟨read, left⟩
  rcases h with here | spaced
  · refine reads s.cursor.place ?_
    rw [here]
    exact skipGap_text sound inner apart _
  · refine reads (s.cursor.place.next ' ') ?_
    have space : isBlank ' ' = true := by decide
    rw [spaced, skipGap.eq_def]
    simp only [space, if_true]
    exact skipGap_text sound inner apart _

end Scanner

/-- What stands behind a token that is followed by others. -/
def behind : List Token → List Char
  | [] => []
  | t :: later => ' ' :: (spaced (t :: later)).toList

theorem apart_behind (tokens : List Token) : Apart (behind tokens) := by
  cases tokens with
  | nil => exact .inl rfl
  | cons t later => exact .inr ⟨_, rfl⟩

theorem toList_spaced_cons (t : Token) (later : List Token) :
    (spaced (t :: later)).toList = t.text.toList ++ behind later := by
  cases later with
  | nil => simp [spaced, behind]
  | cons u later => simp [spaced, behind, String.intercalate_cons_cons]

namespace Feed

/-- A scanner in front of written tokens answers with these tokens. -/
theorem collect_spaced {tokens : List Token}
    (sound : ∀ t ∈ tokens, t.Sound ∧ t ≠ .endOfText) (read : List Lexeme) {s : Scanner}
    (h : s.cursor.rest = (spaced tokens).toList ∨ s.cursor.rest = behind tokens) :
    ∃ (found : List Located) (last : Position),
      collect read s = ⟨read.reverse ++ found.map .ok, .ok last⟩ ∧
        found.map Located.token = tokens := by
  -- In front of the first token there is nothing, in front of the others a space; the induction is
  -- on the tokens, for both at once.
  induction tokens generalizing read s with
  | nil =>
    have ended : s.cursor.rest = [] := by
      rcases h with h | h
      · simpa [spaced] using h
      · exact h
    have answer : s.next = (.ok .endOfText, ⟨⟨[], s.cursor.place⟩, s.cursor.place⟩) := by
      unfold Scanner.next
      rw [ended]
      rfl
    rw [collect]
    simp only [answer]
    exact ⟨[], s.cursor.place, by simp [isFinal, Except.map], rfl⟩
  | cons t later ih =>
    obtain ⟨⟨first, inner⟩, others⟩ := List.forall_mem_cons.mp sound
    have here : s.cursor.rest = t.text.toList ++ behind later ∨
        s.cursor.rest = ' ' :: (t.text.toList ++ behind later) := by
      rwa [behind, toList_spaced_cons] at h
    obtain ⟨answer, left⟩ := s.next_text first inner (apart_behind later) here
    have goesOn : isFinal (.ok t) = false := by
      cases t <;> first | rfl | exact absurd rfl inner
    obtain ⟨found, last, all, same⟩ := ih others (.ok ⟨t, s.next.2.mark⟩ :: read) (.inr left)
    refine ⟨⟨t, s.next.2.mark⟩ :: found, last, ?_, congrArg (t :: ·) same⟩
    rw [collect]
    simp only [answer]
    rw [dif_pos goesOn]
    rw [List.reverse_cons, List.append_assoc] at all
    exact all

end Feed

/-- **Scanning undoes writing**: tokens written in a row, one space between two of them, are read
back as these tokens and the end of the text. -/
theorem exists_tokensOf_spaced {tokens : List Token}
    (sound : ∀ t ∈ tokens, t.Sound ∧ t ≠ .endOfText) :
    ∃ found : List Located, tokensOf (spaced tokens) = .ok found ∧
      found.map Located.token = tokens ++ [.endOfText] := by
  obtain ⟨found, last, all, same⟩ :=
    Feed.collect_spaced sound [] (s := .ofText (spaced tokens)) (.inl rfl)
  refine ⟨found ++ [⟨.endOfText, last⟩], ?_, ?_⟩
  · unfold tokensOf Feed.ofText Feed.tokens
    rw [all]
    simp only [List.reverse_nil, List.nil_append, Feed.located_map_ok, List.append_nil]
    simp [bind, Except.bind, pure, Except.pure]
  · rw [List.map_append, same]
    rfl

/-- **The tokens of written tokens are these tokens**, up to where they stand: whatever is inside of
strings and brackets, no token is read into the next one. -/
theorem map_tokensOf_spaced {tokens : List Token}
    (sound : ∀ t ∈ tokens, t.Sound ∧ t ≠ .endOfText) :
    (tokensOf (spaced tokens)).map (·.map Located.token) = .ok (tokens ++ [.endOfText]) := by
  obtain ⟨found, scanned, same⟩ := exists_tokensOf_spaced sound
  rw [scanned]
  exact congrArg Except.ok same

/-- Delimiters and marks of comments inside of names and strings, a line break, places that are
zero, and symbols that would make up a comment if they stood side by side. -/
theorem map_tokensOf_spaced_marks :
    (tokensOf ("\"--\"\"/*\n\" []]]]//] &[a]]] &select 1.50 . / * - - fRoM $x " ++
        "\x27\x27\x27\x27")).map (·.map Located.token) =
      .ok [.string "--\"/*\n" .double, .bracketed "]]//", .bracketedKey "a]",
        .wordKey "select", .number ⟨150, 2, by decide, by decide⟩, .symbol .dot, .symbol .slash,
        .symbol .star, .symbol .minus, .symbol .minus, .keyword .FROM "fRoM", .word "$x",
        .string "\x27" .single, .endOfText] := by
  have written : spaced [.string "--\"/*\n" .double, .bracketed "]]//", .bracketedKey "a]",
      .wordKey "select", .number ⟨150, 2, by decide, by decide⟩, .symbol .dot, .symbol .slash,
      .symbol .star, .symbol .minus, .symbol .minus, .keyword .FROM "fRoM", .word "$x",
      .string "\x27" .single] =
      "\"--\"\"/*\n\" []]]]//] &[a]]] &select 1.50 . / * - - fRoM $x " ++
        "\x27\x27\x27\x27" := by
    decide +kernel
  have key : isWord "select" = true := by decide +kernel
  have word : isWord "$x" = true ∧ Keyword.ofWord? "$x" = none := by decide +kernel
  have keyword : Token.Sound (.keyword .FROM "fRoM") :=
    Token.sound_keyword_iff.mpr (by decide +kernel)
  rw [← written]
  refine map_tokensOf_spaced ?_
  simp only [List.forall_mem_cons, List.not_mem_nil, false_imp_iff, implies_true, and_true, ne_eq,
    reduceCtorEq, not_false_eq_true]
  exact ⟨trivial, trivial, trivial, key, trivial, trivial, trivial, trivial, trivial, trivial,
    keyword, word, trivial⟩

end MdxReader
