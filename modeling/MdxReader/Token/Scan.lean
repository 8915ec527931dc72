import MdxReader.Decimal.Numeral
import MdxReader.Position
import MdxReader.Text.CharClass
import MdxReader.Token

/-!
# Scanning text

`Scanner.next` takes the next token off a text.  It always answers, with a token or a `ScanError`,
and can be called again after either:

* at the end of the text it answers `endOfText` for ever;
* a character that starts no token stays where it is, so the same error comes back for ever;
* after any other answer the rest of the text is shorter (`Scanner.length_rest_next_lt`).
-/

namespace MdxReader

open Text

/-- What can be wrong with the spelling of a text. -/
inductive ScanError where
  /-- `[` without its `]`. -/
  | unterminatedName (place : Position)
  /-- A quotation mark without its partner. -/
  | unterminatedString (place : Position)
  /-- `/*` without `*/`. -/
  | unterminatedComment (place : Position)
  /-- A literal that is out of range. -/
  | invalidNumber (text : String) (place : Position)
  /-- A character that starts no token. -/
  | unexpectedCharacter (c : Char) (place : Position)
  deriving DecidableEq

namespace ScanError

/-- Where the fault is: the place of the opening delimiter, the literal or the character. -/
def place : ScanError → Position
  | unterminatedName p | unterminatedString p | unterminatedComment p => p
  | invalidNumber _ p | unexpectedCharacter _ p => p

/-- The message for the user. -/
def message : ScanError → String
  | unterminatedName p => "Unterminated bracketed identifier starting at " ++ p.describe
  | unterminatedString p => "Unterminated string starting at " ++ p.describe
  | unterminatedComment p => "Unterminated comment starting at " ++ p.describe
  | invalidNumber text p => "Invalid number '" ++ text ++ "' at " ++ p.describe
  | unexpectedCharacter c p => "Unexpected character '" ++ c.toString ++ "' at " ++ p.describe

end ScanError

/-! ### Moving over the text -/

/-- The text still to be read, and the place where it begins. -/
structure Cursor where
  rest : List Char
  place : Position
  deriving DecidableEq

namespace Cursor

/-- Moves over `n` characters. -/
def skip (cur : Cursor) (n : Nat) : Cursor :=
  ⟨cur.rest.drop n, cur.place.past (cur.rest.take n)⟩

/-- Splits off the longest stretch of characters of a class. -/
def span (cur : Cursor) (ofClass : Char → Bool) : List Char × Cursor :=
  let taken := cur.rest.takeWhile ofClass
  (taken, ⟨cur.rest.dropWhile ofClass, cur.place.past taken⟩)

theorem length_rest_skip_le (cur : Cursor) (n : Nat) :
    (cur.skip n).rest.length ≤ cur.rest.length := by
  simp [skip]

/-- Skipping takes a character if there is one. -/
theorem length_rest_skip_lt {cur : Cursor} {n : Nat} (some : cur.rest ≠ []) (pos : 0 < n) :
    (cur.skip n).rest.length < cur.rest.length := by
  have := List.length_pos_iff.mpr some
  simp only [skip, List.length_drop]
  omega

theorem length_rest_span_le (cur : Cursor) (ofClass : Char → Bool) :
    (cur.span ofClass).2.rest.length ≤ cur.rest.length :=
  (List.dropWhile_sublist ofClass).length_le

/-- A span takes a character if the next one is of its class. -/
theorem length_rest_span_lt {cur : Cursor} {ofClass : Char → Bool} {c : Char} {rest : List Char}
    (found : cur.rest = c :: rest) (inClass : ofClass c = true) :
    (cur.span ofClass).2.rest.length < cur.rest.length := by
  have := (List.dropWhile_sublist (l := rest) ofClass).length_le
  simp only [span, found, List.dropWhile_cons, inClass, if_true, List.length_cons]
  omega

end Cursor

/-! ### Gaps between tokens -/

/-- What a stretch between two tokens is made of at a given place. -/
inductive Gap where
  /-- White space. -/
  | space
  /-- A comment that ends with the line. -/
  | line
  /-- A comment that was opened at `start` and ends with `*/`. -/
  | block (start : Position)

/-- Moves over white space and comments.  The first component is the start of a comment that never
ends. -/
def skipGap : Gap → Position → List Char → Option Position × Cursor
  | .block start, place, [] => (some start, ⟨[], place⟩)
  | .space, place, [] => (none, ⟨[], place⟩)
  | .line, place, [] => (none, ⟨[], place⟩)
  | .space, place, c :: rest =>
    if isBlank c then skipGap .space (place.next c) rest
    else match rest with
      | [] => (none, ⟨[c], place⟩)
      | d :: later =>
        if (c = '/' ∧ d = '/') ∨ (c = '-' ∧ d = '-') then
          skipGap .line ((place.next c).next d) later
        else if c = '/' ∧ d = '*' then skipGap (.block place) ((place.next c).next d) later
        else (none, ⟨c :: d :: later, place⟩)
  | .line, place, c :: rest =>
    if c = '\n' then skipGap .space (place.next c) rest else skipGap .line (place.next c) rest
  | .block start, place, c :: rest =>
    match rest with
    | [] => (some start, ⟨[], place.next c⟩)
    | d :: later =>
      if c = '*' ∧ d = '/' then skipGap .space ((place.next c).next d) later
      else skipGap (.block start) (place.next c) (d :: later)

/-- White space and comments are taken off the front. -/
theorem length_rest_skipGap_le (gap : Gap) (place : Position) (text : List Char) :
    (skipGap gap place text).2.rest.length ≤ text.length := by
  fun_induction skipGap gap place text <;> simp_all <;> omega

/-- A comment without end swallows the rest of the text. -/
theorem rest_skipGap_of_some {gap : Gap} {place start : Position} {text : List Char}
    (h : (skipGap gap place text).1 = some start) : (skipGap gap place text).2.rest = [] := by
  fun_induction skipGap gap place text <;> simp_all

/-- A comment without end needs some text, unless one is open already. -/
theorem ne_nil_of_skipGap_space {place start : Position} {text : List Char}
    (h : (skipGap .space place text).1 = some start) : text ≠ [] := by
  rintro rfl
  simp [skipGap] at h

/-! ### Delimited text -/

/-- Reads up to a closing delimiter, where the doubled delimiter stands for itself; `taken` holds
what was read so far, newest first.  The text is `none` if there is no closing delimiter. -/
def readDelimited (close : Char) (taken : List Char) (place : Position) :
    List Char → Option String × Cursor
  | [] => (none, ⟨[], place⟩)
  | c :: rest =>
    if c = close then
      match rest with
      | [] => (some (String.ofList taken.reverse), ⟨[], place.next c⟩)
      | d :: later =>
        if d = close then readDelimited close (d :: taken) ((place.next c).next d) later
        else (some (String.ofList taken.reverse), ⟨d :: later, place.next c⟩)
    else readDelimited close (c :: taken) (place.next c) rest

/-- The closing character may be missing, and then nothing is left. -/
theorem length_rest_readDelimited_le (close : Char) (taken : List Char) (place : Position)
    (text : List Char) : (readDelimited close taken place text).2.rest.length ≤ text.length := by
  fun_induction readDelimited close taken place text <;> simp_all <;> omega

/-- Reads a delimited text whose opening delimiter comes next, and makes a token of it. -/
def readEnclosed (cur : Cursor) (close : Char) (token : String → Token)
    (unterminated : Position → ScanError) : Except ScanError Token × Cursor :=
  let inside := cur.skip 1
  match readDelimited close [] inside.place inside.rest with
  | (some text, after) => (.ok (token text), after)
  | (none, after) => (.error (unterminated cur.place), after)

/-- At least the character that opens is taken. -/
theorem length_rest_readEnclosed_lt (cur : Cursor) (close : Char) (token : String → Token)
    (unterminated : Position → ScanError) (some : cur.rest ≠ []) :
    (readEnclosed cur close token unterminated).2.rest.length < cur.rest.length := by
  have read := length_rest_readDelimited_le close [] (cur.skip 1).place (cur.skip 1).rest
  have moved := Cursor.length_rest_skip_lt (n := 1) some (by decide)
  unfold readEnclosed
  simp only
  split <;> rename_i found <;> rw [found] at read <;> simp only at read ⊢ <;> omega

/-! ### Numbers -/

/-- The fraction that follows the whole digits: a point counts only in front of a digit. -/
def readFraction (cur : Cursor) : List Char × Cursor :=
  match cur.rest with
  | '.' :: d :: _ => if d.isDigit then (cur.skip 1).span Char.isDigit else ([], cur)
  | _ => ([], cur)

/-- How an exponent begins, if one does: whether it is negative, and the characters in front of its
digits. -/
def exponentAt? : List Char → Option (Bool × Nat)
  | letter :: c :: rest =>
    if letter = 'e' ∨ letter = 'E' then
      if c.isDigit then some (false, 1)
      else if (c = '+' ∨ c = '-') ∧ rest.head?.any Char.isDigit then some (c == '-', 2)
      else none
    else none
  | _ => none

/-- The exponent that follows a number. -/
def readExponent (cur : Cursor) : Option Exponent × Cursor :=
  match cur.rest, exponentAt? cur.rest with
  | letter :: _, some (negative, width) =>
    let (digits, after) := (cur.skip width).span Char.isDigit
    (some ⟨letter, negative, digits⟩, after)
  | _, _ => (none, cur)

/-- Reads `digits [. digits] [e [+|-] digits]`. -/
def readNumber (cur : Cursor) : Except ScanError Token × Cursor :=
  let (whole, afterWhole) := cur.span Char.isDigit
  let (fraction, afterFraction) := readFraction afterWhole
  let (exponent, after) := readExponent afterFraction
  let numeral : Numeral := ⟨whole, fraction, exponent⟩
  match numeral.value? with
  | some value => (.ok (.number value), after)
  | none => (.error (.invalidNumber numeral.text cur.place), after)

/-- Without a digit behind the point nothing is taken. -/
theorem length_rest_readFraction_le (cur : Cursor) :
    (readFraction cur).2.rest.length ≤ cur.rest.length := by
  have spanned := Cursor.length_rest_span_le (cur.skip 1) Char.isDigit
  have moved := cur.length_rest_skip_le 1
  unfold readFraction
  split
  · split
    · omega
    · exact Nat.le_refl _
  · exact Nat.le_refl _

/-- An exponent without digits is none, and nothing is taken. -/
theorem length_rest_readExponent_le (cur : Cursor) :
    (readExponent cur).2.rest.length ≤ cur.rest.length := by
  unfold readExponent
  split
  · rename_i width _ _
    have spanned := Cursor.length_rest_span_le (cur.skip width) Char.isDigit
    have moved := cur.length_rest_skip_le width
    simp only
    omega
  · exact Nat.le_refl _

/-- At least the first digit is taken. -/
theorem length_rest_readNumber_lt {cur : Cursor} {c : Char} {rest : List Char}
    (found : cur.rest = c :: rest) (digit : c.isDigit = true) :
    (readNumber cur).2.rest.length < cur.rest.length := by
  have whole := Cursor.length_rest_span_lt found digit
  have fraction := length_rest_readFraction_le (cur.span Char.isDigit).2
  have exponent := length_rest_readExponent_le (readFraction (cur.span Char.isDigit).2).2
  unfold readNumber
  simp only
  split <;> simp only <;> omega

/-! ### One token -/

/-- The symbol that a text starts with, the longer one where two fit. -/
def symbolAt? : List Char → Option Symbol
  | '|' :: '|' :: _ => some .concat
  | '<' :: '>' :: _ => some .notEqual
  | '<' :: '=' :: _ => some .lessEqual
  | '>' :: '=' :: _ => some .greaterEqual
  | c :: _ =>
    if c = '(' then some .openParen
    else if c = ')' then some .closeParen
    else if c = '\x7b' then some .openBrace
    else if c = '\x7d' then some .closeBrace
    else if c = ',' then some .comma
    else if c = '.' then some .dot
    else if c = ':' then some .colon
    else if c = ';' then some .semicolon
    else if c = '+' then some .plus
    else if c = '-' then some .minus
    else if c = '*' then some .star
    else if c = '/' then some .slash
    else if c = '=' then some .equal
    else if c = '<' then some .less
    else if c = '>' then some .greater
    else none
  | [] => none

/-- How many characters a symbol has. -/
def Symbol.width : Symbol → Nat
  | .concat | .notEqual | .lessEqual | .greaterEqual => 2
  | _ => 1

theorem Symbol.width_pos (s : Symbol) : 0 < s.width := by
  cases s <;> decide

/-- Reads a bare word, which may be a keyword. -/
def readWord (cur : Cursor) : Token × Cursor :=
  let (letters, after) := cur.span isNamePart
  let word := String.ofList letters
  match Keyword.ofWord? word with
  | some k => (.keyword k word, after)
  | none => (.word word, after)

/-- Reads one part of a key: the next character is `&`. -/
def readKey (cur : Cursor) : Except ScanError Token × Cursor :=
  let inside := cur.skip 1
  match inside.rest with
  | c :: _ =>
    if c = '[' then readEnclosed inside ']' .bracketedKey .unterminatedName
    else if isNameStart c then
      let (letters, after) := inside.span isNamePart
      (.ok (.wordKey (String.ofList letters)), after)
    else (.error (.unexpectedCharacter '&' cur.place), cur)
  | [] => (.error (.unexpectedCharacter '&' cur.place), cur)

/-- Reads the token that begins at the next character.  A character that starts none stays. -/
def readToken (cur : Cursor) : Except ScanError Token × Cursor :=
  match cur.rest with
  | [] => (.ok .endOfText, cur)
  | c :: _ =>
    match symbolAt? cur.rest with
    | some s => (.ok (.symbol s), cur.skip s.width)
    | none =>
      if c = '[' then readEnclosed cur ']' .bracketed .unterminatedName
      else if c = '&' then readKey cur
      else if c = '"' then readEnclosed cur '"' (.string · .double) .unterminatedString
      else if c = '\x27' then readEnclosed cur '\x27' (.string · .single) .unterminatedString
      else if c.isDigit then readNumber cur
      else if isNameStart c then
        let (token, after) := readWord cur
        (.ok token, after)
      else (.error (.unexpectedCharacter c cur.place), cur)

/-- The answers that repeat for ever: the end of the text, and a character that starts no token. -/
def isFinal : Except ScanError Token → Bool
  | .ok .endOfText => true
  | .error (.unexpectedCharacter _ _) => true
  | _ => false

theorem length_rest_readWord_lt {cur : Cursor} {c : Char} {rest : List Char}
    (found : cur.rest = c :: rest) (starts : isNameStart c = true) :
    (readWord cur).2.rest.length < cur.rest.length := by
  have := Cursor.length_rest_span_lt found (isNamePart_of_isNameStart starts)
  unfold readWord
  simp only
  split <;> exact this

/-- An answer that is not final has taken the mark of the key. -/
theorem length_rest_readKey_lt {cur : Cursor}
    (goesOn : isFinal (readKey cur).1 = false) :
    (readKey cur).2.rest.length < cur.rest.length := by
  have moved := cur.length_rest_skip_le 1
  unfold readKey at goesOn ⊢
  simp only at goesOn ⊢
  split at goesOn
  · rename_i c rest found
    have read := length_rest_readEnclosed_lt (cur.skip 1) ']' .bracketedKey
      .unterminatedName (by simp [found])
    split at goesOn
    · rename_i bracket
      simp only [bracket, if_true]
      omega
    · rename_i bracket
      split at goesOn
      · rename_i starts
        have := Cursor.length_rest_span_lt found (isNamePart_of_isNameStart starts)
        simp only [bracket, starts, if_true, if_false]
        omega
      · simp [isFinal] at goesOn
  · simp [isFinal] at goesOn

/-- An answer that is not final takes a character. -/
theorem length_rest_readToken_lt {cur : Cursor} (goesOn : isFinal (readToken cur).1 = false) :
    (readToken cur).2.rest.length < cur.rest.length := by
  unfold readToken at goesOn ⊢
  split at goesOn
  · simp [isFinal] at goesOn
  · rename_i c rest found
    have some : cur.rest ≠ [] := by simp [found]
    split at goesOn
    · rename_i s atSymbol
      simp only
      exact Cursor.length_rest_skip_lt some s.width_pos
    · rename_i noSymbol
      simp only
      split
      · -- A name in brackets.
        exact length_rest_readEnclosed_lt _ _ _ _ some
      · rename_i notName
        split
        · -- A part of a key.
          rename_i ampersand
          simp only [ampersand, if_true] at goesOn
          exact length_rest_readKey_lt goesOn
        · rename_i notKey
          split
          · exact length_rest_readEnclosed_lt _ _ _ _ some
          · rename_i notDouble
            split
            · exact length_rest_readEnclosed_lt _ _ _ _ some
            · rename_i notSingle
              split
              · rename_i digit
                exact length_rest_readNumber_lt found digit
              · rename_i notDigit
                split
                · rename_i starts
                  exact length_rest_readWord_lt found starts
                · -- No token begins here, and that answer is final.
                  rename_i notWord
                  simp [notName, notKey, notDouble, notSingle, notDigit, notWord, isFinal] at goesOn

/-! ### The scanner -/

/-- A text that is being taken apart. -/
structure Scanner where
  cursor : Cursor
  /-- Where the last token begins. -/
  mark : Position
  deriving DecidableEq

namespace Scanner

/-- A scanner at the beginning of a text. -/
def ofText (text : String) : Scanner :=
  ⟨⟨text.toList, .start⟩, .start⟩

/-- Takes the next token.  A comment without end leaves the mark where it was. -/
def next (s : Scanner) : Except ScanError Token × Scanner :=
  match skipGap .space s.cursor.place s.cursor.rest with
  | (some start, cur) => (.error (.unterminatedComment start), ⟨cur, s.mark⟩)
  | (none, cur) =>
    let (answer, after) := readToken cur
    (answer, ⟨after, cur.place⟩)

/-- The first `n` answers, each with the mark after it. -/
def answers (s : Scanner) : Nat → List (Except ScanError Token × Position)
  | 0 => []
  | n + 1 =>
    let (answer, after) := s.next
    (answer, after.mark) :: after.answers n

/-- Every answer that is not final shortens the text. -/
theorem length_rest_next_lt {s : Scanner} (goesOn : isFinal s.next.1 = false) :
    s.next.2.cursor.rest.length < s.cursor.rest.length := by
  have skipped := length_rest_skipGap_le .space s.cursor.place s.cursor.rest
  unfold next at goesOn ⊢
  split at goesOn
  · -- A comment without end takes all that is left, and at least its own opening.
    rename_i start cur found
    have emptied : cur.rest = [] := by
      have := rest_skipGap_of_some (congrArg Prod.fst found)
      rwa [found] at this
    have := List.length_pos_iff.mpr (ne_nil_of_skipGap_space (by rw [found]))
    simp only [emptied, List.length_nil]
    exact this
  · rename_i cur found
    rw [found] at skipped
    exact Nat.lt_of_lt_of_le (length_rest_readToken_lt goesOn) skipped

end Scanner

end MdxReader
