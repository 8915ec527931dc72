import MdxReader.Json
import MdxReader.Proofs.Spelling

/-!
# What the text of a JSON value keeps

The text on one line determines the value (`legible_chars`): the first character tells which kind of
value it is, an escape is undone by `unescape`, digits end where no digit follows, and items and
fields end where no comma follows.  `Legible` is what all these have in common, so lists of items and
lists of fields are one lemma (`legible_enclosed`).

The indented text holds nothing else: without the white space outside its literals it is the text on
one line (`withoutBlanks_chars`).  So it determines the value as well.
-/

namespace MdxReader.Json

/-! ### The text as a list of characters -/

/-- The characters of a string literal. -/
def literal (text : String) : List Char :=
  '"' :: (text.toList.flatMap (fun c => (escape c).toList) ++ ['"'])

/-- The characters of a value, `depth` levels deep. -/
def chars (layout : Layout) (depth : Nat) (value : Json) : List Char :=
  (write layout depth "" value).toList

/-- The characters of a field. -/
def fieldChars (layout : Layout) (depth : Nat) (field : String × Json) : List Char :=
  literal field.1 ++ (layout.colon.toList ++ chars layout depth field.2)

/-- The items or fields that follow another one, a comma and a line break before each. -/
def Layout.row {α : Type} (layout : Layout) (depth : Nat) (cell : α → List Char) (as : List α) :
    List Char :=
  as.flatMap fun a => ',' :: ((layout.lineBreak depth).toList ++ cell a)

/-- Everything behind an opening bracket, up to the closing one. -/
def Layout.enclosed {α : Type} (layout : Layout) (depth : Nat) (close : Char)
    (cell : α → List Char) : List α → List Char
  | [] => [close]
  | a :: as =>
    (layout.lineBreak (depth + 1)).toList ++ (cell a ++ (layout.row (depth + 1) cell as ++
      ((layout.lineBreak depth).toList ++ [close])))

/-- What is written goes behind what was written before. -/
theorem toList_writeString (before text : String) :
    (writeString before text).toList = before.toList ++ literal text := by
  have fold : ∀ (cs : List Char) (written : String),
      (cs.foldl (fun written c => written ++ escape c) written).toList =
        written.toList ++ cs.flatMap (fun c => (escape c).toList) := by
    intro cs
    induction cs with
    | nil => intro written; simp
    | cons c cs ih =>
      intro written
      rw [List.foldl_cons, ih]
      simp
  unfold writeString literal
  rw [String.toList_push, fold]
  simp

mutual

/-- What is already written stays in front. -/
theorem toList_write (layout : Layout) (depth : Nat) (before : String) : (value : Json) →
    (write layout depth before value).toList = before.toList ++ chars layout depth value
  | null | bool _ | number _ | array [] | object [] => by simp [chars, write]
  | string value => by simp [chars, write, toList_writeString]
  | array (item :: items) => by
    simp [chars, write, toList_writeItems, toList_write _ _ (_ ++ _)]
  | object ((key, value) :: fields) => by
    simp [chars, write, toList_writeFields, toList_write _ _ (_ ++ _), toList_writeString]

/-- The items go behind what was written before, with the breaks of the layout. -/
theorem toList_writeItems (layout : Layout) (depth : Nat) (before : String) :
    (items : List Json) → (writeItems layout depth before items).toList =
      before.toList ++ layout.row depth (chars layout depth) items
  | [] => by simp [writeItems, Layout.row]
  | item :: items => by
    simp [writeItems, toList_writeItems, toList_write _ _ (_ ++ _), Layout.row]

/-- Fields are written like items, each behind its key. -/
theorem toList_writeFields (layout : Layout) (depth : Nat) (before : String) :
    (fields : List (String × Json)) → (writeFields layout depth before fields).toList =
      before.toList ++ layout.row depth (fieldChars layout depth) fields
  | [] => by simp [writeFields, Layout.row]
  | (key, value) :: fields => by
    simp [writeFields, toList_writeFields, toList_write _ _ (_ ++ _), toList_writeString,
      fieldChars, Layout.row]

end

section Equations

variable (layout : Layout) (depth : Nat)

theorem toList_render (value : Json) : (render layout value).toList = chars layout 0 value := rfl

theorem chars_null : chars layout depth null = ['n', 'u', 'l', 'l'] := by
  simp [chars, write]

theorem chars_true : chars layout depth (bool true) = ['t', 'r', 'u', 'e'] := by
  simp [chars, write]

theorem chars_false : chars layout depth (bool false) = ['f', 'a', 'l', 's', 'e'] := by
  simp [chars, write]

theorem chars_number (n : Nat) : chars layout depth (number n) = Nat.toDigits 10 n := by
  simp [chars, write]

theorem chars_string (text : String) : chars layout depth (string text) = literal text := by
  simp [chars, write, toList_writeString]

theorem chars_array (items : List Json) : chars layout depth (array items) =
    '[' :: layout.enclosed depth ']' (chars layout (depth + 1)) items := by
  cases items with
  | nil => simp [chars, write, Layout.enclosed]
  | cons item items =>
    simp [chars, write, toList_writeItems, toList_write _ _ (_ ++ _), Layout.enclosed]

theorem chars_object (fields : List (String × Json)) : chars layout depth (object fields) =
    '\x7b' :: layout.enclosed depth '\x7d' (fieldChars layout (depth + 1)) fields := by
  cases fields with
  | nil => simp [chars, write, Layout.enclosed]
  | cons field fields =>
    obtain ⟨key, value⟩ := field
    simp [chars, write, toList_writeFields, toList_write _ _ (_ ++ _), toList_writeString,
      fieldChars, Layout.enclosed]

end Equations

/-- Induction over values, with the claim for all items and for all fields at once. -/
@[elab_as_elim]
theorem induct {motive : Json → Prop} (null : motive null) (bool : ∀ value, motive (bool value))
    (number : ∀ value, motive (number value)) (string : ∀ value, motive (string value))
    (array : ∀ items, (∀ item ∈ items, motive item) → motive (array items))
    (object : ∀ fields, (∀ field ∈ fields, motive field.2) → motive (object fields)) :
    (value : Json) → motive value
  | .null => null
  | .bool value => bool value
  | .number value => number value
  | .string value => string value
  | .array items => array items fun item _ => induct null bool number string array object item
  | .object fields => object fields fun field mem =>
    have : sizeOf field < sizeOf fields := List.sizeOf_lt_of_mem mem
    have : sizeOf field.2 < sizeOf field := by
      obtain ⟨key, value⟩ := field
      change sizeOf value < sizeOf (key, value)
      rw [Prod.mk.sizeOf_spec]
      omega
    induct null bool number string array object field.2

/-! ### Telling values apart -/

/-- What `write` makes of `a` can be told from what it makes of anything else, and where it ends can
be told as well, as long as nothing follows that goes on. -/
def Legible {α : Type} (goesOn : Char → Bool) (write : α → List Char) (a : α) : Prop :=
  ∀ (b : α) (rest rest' : List Char),
    rest.head?.any goesOn = false → rest'.head?.any goesOn = false →
      write a ++ rest = write b ++ rest' → a = b ∧ rest = rest'

/-- The value of a digit of base 16. -/
def hexValue (c : Char) : Nat :=
  if c.isDigit then c.toNat - '0'.toNat else c.toNat - 'a'.toNat + 10

/-- A digit in hexadecimal is read back. -/
theorem hexValue_hexDigit : ∀ n < 16, hexValue (hexDigit n) = n := by decide

/-- The character that stands in front, escaped or not, and what follows it. -/
def unescape : List Char → Option (Char × List Char)
  | '\\' :: 'u' :: '0' :: '0' :: high :: low :: rest =>
    some (Char.ofNat (16 * hexValue high + hexValue low), rest)
  | '\\' :: c :: rest =>
    some (if c = 'n' then '\n' else if c = 'r' then '\r' else if c = 't' then '\t'
      else if c = 'b' then '\x08' else if c = 'f' then '\x0c' else c, rest)
  | c :: rest => some (c, rest)
  | [] => none

/-- A character in a string is read back, with whatever follows left over. -/
theorem unescape_escape (c : Char) (rest : List Char) :
    unescape ((escape c).toList ++ rest) = some (c, rest) := by
  unfold escape
  split_ifs with mark back newline feed tab bell form control
  · subst mark; rfl
  · subst back; rfl
  · subst newline; rfl
  · subst feed; rfl
  · subst tab; rfl
  · subst bell; rfl
  · subst form; rfl
  · have high := hexValue_hexDigit (c.toNat / 16) (by omega)
    have low := hexValue_hexDigit (c.toNat % 16) (by omega)
    have value : 16 * hexValue (hexDigit (c.toNat / 16)) + hexValue (hexDigit (c.toNat % 16)) =
        c.toNat := by omega
    simp [unescape, value]
  · have itself : c.toString.toList ++ rest = c :: rest := by simp
    rw [itself]
    unfold unescape
    split <;> simp_all

/-- No escape starts with the quotation mark that ends a literal. -/
theorem escape_ne_mark (c : Char) (rest more : List Char) :
    (escape c).toList ++ rest ≠ '"' :: more := by
  intro same
  have read := unescape_escape c rest
  rw [same] at read
  have front : unescape ('"' :: more) = some ('"', more) := rfl
  rw [front, Option.some.injEq, Prod.mk.injEq] at read
  obtain ⟨rfl, -⟩ := read
  simp [escape] at same

/-- Where a string ends is seen from its characters, so anything may follow. -/
theorem legible_literal (text : String) : Legible (fun _ => false) literal text := by
  intro other rest rest' _ _ same
  have body : ∀ cs ds : List Char,
      cs.flatMap (fun c => (escape c).toList) ++ '"' :: rest =
        ds.flatMap (fun c => (escape c).toList) ++ '"' :: rest' → cs = ds ∧ rest = rest' := by
    intro cs
    induction cs with
    | nil =>
      intro ds same
      cases ds with
      | nil => simpa using same
      | cons d ds =>
        rw [List.flatMap_cons, List.append_assoc] at same
        exact absurd same.symm (escape_ne_mark d _ _)
    | cons c cs ih =>
      intro ds same
      cases ds with
      | nil =>
        rw [List.flatMap_cons, List.append_assoc] at same
        exact absurd same (escape_ne_mark c _ _)
      | cons d ds =>
        simp only [List.flatMap_cons, List.append_assoc] at same
        have read := unescape_escape c (cs.flatMap (fun c => (escape c).toList) ++ '"' :: rest)
        rw [same, unescape_escape] at read
        simp only [Option.some.injEq, Prod.mk.injEq] at read
        obtain ⟨first, later⟩ := read
        obtain ⟨texts, ends⟩ := ih ds later.symm
        exact ⟨by rw [first, texts], ends⟩
  have bodies := body text.toList other.toList (by simpa [literal] using same)
  exact ⟨String.toList_injective bodies.1, bodies.2⟩

/-- Where a number ends is seen only if no digit follows. -/
theorem legible_toDigits (n : Nat) : Legible Char.isDigit (Nat.toDigits 10) n := by
  intro m rest rest' ends ends' same
  have digits : ∀ k, ∀ c ∈ Nat.toDigits 10 k, c.isDigit = true := fun k c mem =>
    Nat.isDigit_of_mem_toDigits (by decide) (by decide) mem
  have left := Cursor.span_append .start (digits n) ends
  have right := Cursor.span_append .start (digits m) ends'
  rw [same] at left
  have shown : Nat.toDigits 10 n = Nat.toDigits 10 m := left.1.symm.trans right.1
  have value := congrArg (Nat.ofDigitChars 10 · 0) shown
  simp only [Nat.ofDigitChars_ten_toDigits] at value
  exact ⟨value, left.2.symm.trans right.2⟩

section Rows

variable {α : Type} {cell : α → List Char}

/-- What follows a member of a row: a comma, or what follows the row. -/
theorem not_goesOn_row {goesOn : Char → Bool} (comma : goesOn ',' = false) (depth : Nat)
    (as : List α) {rest : List Char}
    (ends : rest.head?.any (fun c => goesOn c || c == ',') = false) :
    (Layout.compact.row depth cell as ++ rest).head?.any goesOn = false := by
  cases as with
  | nil =>
    cases rest with
    | nil => rfl
    | cons c more => simp_all [Layout.row]
  | cons a as => simpa [Layout.row] using comma

/-- Members with commas between them can be told apart as soon as each of them can. -/
theorem legible_row {goesOn : Char → Bool} (comma : goesOn ',' = false) (depth : Nat) {as : List α}
    (each : ∀ a ∈ as, Legible goesOn cell a) :
    Legible (fun c => goesOn c || c == ',') (Layout.compact.row depth cell) as := by
  induction as with
  | nil =>
    intro bs rest rest' ends _ same
    cases bs with
    | nil => exact ⟨rfl, same⟩
    | cons b bs =>
      have first : rest = ',' :: _ := same
      simp [first] at ends
  | cons a as ih =>
    intro bs rest rest' ends ends' same
    cases bs with
    | nil =>
      have first : _ = rest' := same
      simp [← first, Layout.row] at ends'
    | cons b bs =>
      have heads : cell a ++ (Layout.compact.row depth cell as ++ rest) =
          cell b ++ (Layout.compact.row depth cell bs ++ rest') := by
        simpa [Layout.row, Layout.lineBreak] using same
      obtain ⟨first, tails⟩ := each a List.mem_cons_self b _ _
        (not_goesOn_row comma depth as ends) (not_goesOn_row comma depth bs ends') heads
      obtain ⟨others, left⟩ :=
        ih (fun c mem => each c (List.mem_cons_of_mem a mem)) bs rest rest' ends ends' tails
      exact ⟨by rw [first, others], left⟩

/-- So can they in brackets, if no member starts with the closing one. -/
theorem legible_enclosed {goesOn : Char → Bool} (comma : goesOn ',' = false) (depth : Nat)
    {close : Char} (ends : goesOn close = false) (apart : close ≠ ',')
    (starts : ∀ a more rest, cell a ++ more ≠ close :: rest) {as : List α}
    (each : ∀ a ∈ as, Legible goesOn cell a) :
    Legible (fun _ => false) (Layout.compact.enclosed depth close cell) as := by
  intro bs rest rest' _ _ same
  have closed : ∀ rest : List Char,
      (close :: rest).head?.any (fun c => goesOn c || c == ',') = false := by
    intro rest
    simp [ends, apart]
  simp only [Layout.enclosed, Layout.lineBreak, String.toList_empty, List.nil_append] at same
  cases as with
  | nil =>
    cases bs with
    | nil => exact ⟨rfl, (List.cons.inj same).2⟩
    | cons b bs =>
      rw [List.append_assoc] at same
      exact absurd same.symm (starts b _ _)
  | cons a as =>
    cases bs with
    | nil =>
      rw [List.append_assoc] at same
      exact absurd same (starts a _ _)
    | cons b bs =>
      have heads : cell a ++ (Layout.compact.row (depth + 1) cell as ++ close :: rest) =
          cell b ++ (Layout.compact.row (depth + 1) cell bs ++ close :: rest') := by
        simpa using same
      obtain ⟨first, tails⟩ := each a List.mem_cons_self b _ _
        (not_goesOn_row comma _ as (closed rest)) (not_goesOn_row comma _ bs (closed rest')) heads
      have others : ∀ c ∈ as, Legible goesOn cell c := fun c mem =>
        each c (List.mem_cons_of_mem a mem)
      obtain ⟨later, left⟩ :=
        legible_row comma (depth + 1) others bs _ _ (closed rest) (closed rest') tails
      exact ⟨by rw [first, later], (List.cons.inj left).2⟩

end Rows

/-- What a value starts with. -/
def Starts : Json → Char → Bool
  | null, c => c == 'n'
  | bool value, c => c == if value then 't' else 'f'
  | number _, c => c.isDigit
  | string _, c => c == '"'
  | array _, c => c == '['
  | object _, c => c == '\x7b'

/-- Every value begins with a character of its own. -/
theorem exists_first (layout : Layout) (depth : Nat) (value : Json) :
    ∃ c more, chars layout depth value = c :: more ∧ value.Starts c = true := by
  cases value with
  | null => exact ⟨_, _, chars_null layout depth, rfl⟩
  | bool value =>
    cases value with
    | true => exact ⟨_, _, chars_true layout depth, rfl⟩
    | false => exact ⟨_, _, chars_false layout depth, rfl⟩
  | number n =>
    have some := List.ne_nil_of_length_pos (Nat.length_toDigits_pos (b := 10) (n := n))
    obtain ⟨c, more, found⟩ := List.exists_cons_of_ne_nil some
    have mem : c ∈ Nat.toDigits 10 n := by simp [found]
    exact ⟨c, more, (chars_number layout depth n).trans found,
      Nat.isDigit_of_mem_toDigits (by decide) (by decide) mem⟩
  | string text => exact ⟨_, _, chars_string layout depth text, rfl⟩
  | array items => exact ⟨_, _, chars_array layout depth items, rfl⟩
  | object fields => exact ⟨_, _, chars_object layout depth fields, rfl⟩

/-- What follows a value does not change how it begins. -/
theorem starts_of_append {layout : Layout} {depth : Nat} {value : Json} {c : Char}
    {rest more : List Char} (same : chars layout depth value ++ rest = c :: more) :
    value.Starts c = true := by
  obtain ⟨first, later, found, starts⟩ := exists_first layout depth value
  rw [found, List.cons_append, List.cons.injEq] at same
  rw [← same.1]
  exact starts

section Starts

variable {value : Json}

/-- The first character tells which kind of value is written. -/
theorem eq_null_of_starts (h : value.Starts 'n' = true) : value = null := by
  cases value with
  | null => rfl
  | bool value => cases value <;> cases h
  | number _ | string _ | array _ | object _ => cases h

theorem eq_true_of_starts (h : value.Starts 't' = true) : value = bool true := by
  cases value with
  | bool value => cases value <;> first | rfl | cases h
  | null | number _ | string _ | array _ | object _ => cases h

theorem eq_false_of_starts (h : value.Starts 'f' = true) : value = bool false := by
  cases value with
  | bool value => cases value <;> first | rfl | cases h
  | null | number _ | string _ | array _ | object _ => cases h

theorem exists_number_of_starts {c : Char} (digit : c.isDigit = true)
    (h : value.Starts c = true) : ∃ n, value = number n := by
  cases value with
  | number n => exact ⟨n, rfl⟩
  | bool value =>
    cases value <;>
    · rw [beq_iff_eq.mp h] at digit
      cases digit
  | null | string _ | array _ | object _ =>
    rw [beq_iff_eq.mp h] at digit
    cases digit

theorem exists_string_of_starts (h : value.Starts '"' = true) : ∃ text, value = string text := by
  cases value with
  | string text => exact ⟨text, rfl⟩
  | bool value => cases value <;> cases h
  | null | number _ | array _ | object _ => cases h

theorem exists_array_of_starts (h : value.Starts '[' = true) : ∃ items, value = array items := by
  cases value with
  | array items => exact ⟨items, rfl⟩
  | bool value => cases value <;> cases h
  | null | number _ | string _ | object _ => cases h

theorem exists_object_of_starts (h : value.Starts '\x7b' = true) :
    ∃ fields, value = object fields := by
  cases value with
  | object fields => exact ⟨fields, rfl⟩
  | bool value => cases value <;> cases h
  | null | number _ | string _ | array _ => cases h

/-- No value starts with a closing bracket. -/
theorem not_starts_close (value : Json) : value.Starts ']' = false := by
  cases value with
  | bool value => cases value <;> rfl
  | null | number _ | string _ | array _ | object _ => rfl

end Starts

/-- The colon ends the key, and the value stands behind it. -/
theorem legible_field {depth : Nat} {field : String × Json}
    (value : Legible Char.isDigit (chars .compact depth) field.2) :
    Legible Char.isDigit (fieldChars .compact depth) field := by
  intro other rest rest' ends ends' same
  simp only [fieldChars, List.append_assoc] at same
  obtain ⟨key, behind⟩ := legible_literal field.1 other.1 _ _ (by simp) (by simp) same
  obtain ⟨values, left⟩ := value other.2 rest rest' ends ends' (List.append_cancel_left behind)
  exact ⟨Prod.ext key values, left⟩

/-- **On one line, a value can be told from every other one.** -/
theorem legible_chars (value : Json) (depth : Nat) :
    Legible Char.isDigit (chars .compact depth) value := by
  induction value using induct generalizing depth with
  | null =>
    intro other rest rest' _ _ same
    rw [chars_null] at same
    obtain rfl := eq_null_of_starts (starts_of_append same.symm)
    rw [chars_null] at same
    exact ⟨rfl, List.append_cancel_left same⟩
  | bool value =>
    intro other rest rest' _ _ same
    cases value with
    | true =>
      rw [chars_true] at same
      obtain rfl := eq_true_of_starts (starts_of_append same.symm)
      rw [chars_true] at same
      exact ⟨rfl, List.append_cancel_left same⟩
    | false =>
      rw [chars_false] at same
      obtain rfl := eq_false_of_starts (starts_of_append same.symm)
      rw [chars_false] at same
      exact ⟨rfl, List.append_cancel_left same⟩
  | number n =>
    intro other rest rest' ends ends' same
    obtain ⟨c, more, found, digit⟩ := exists_first .compact depth (number n)
    have first : chars .compact depth other ++ rest' = c :: (more ++ rest) := by
      rw [← same, found, List.cons_append]
    obtain ⟨m, rfl⟩ := exists_number_of_starts digit (starts_of_append first)
    rw [chars_number, chars_number] at same
    obtain ⟨values, left⟩ := legible_toDigits n m rest rest' ends ends' same
    exact ⟨congrArg number values, left⟩
  | string text =>
    intro other rest rest' _ _ same
    rw [chars_string] at same
    obtain ⟨text', rfl⟩ := exists_string_of_starts (starts_of_append same.symm)
    rw [chars_string] at same
    obtain ⟨texts, left⟩ := legible_literal text text' rest rest' (by simp) (by simp) same
    exact ⟨congrArg string texts, left⟩
  | array items ih =>
    intro other rest rest' _ _ same
    rw [chars_array] at same
    obtain ⟨items', rfl⟩ := exists_array_of_starts (starts_of_append same.symm)
    rw [chars_array] at same
    have each : ∀ item ∈ items, Legible Char.isDigit (chars .compact (depth + 1)) item :=
      fun item mem => ih item mem (depth + 1)
    have starts : ∀ (item : Json) (more rest : List Char),
        chars .compact (depth + 1) item ++ more ≠ ']' :: rest := by
      intro item more rest close
      have := starts_of_append close
      rw [not_starts_close] at this
      cases this
    obtain ⟨all, left⟩ := legible_enclosed (by decide) depth (by decide) (by decide) starts each
      items' rest rest' (by simp) (by simp) (List.cons.inj same).2
    exact ⟨congrArg array all, left⟩
  | object fields ih =>
    intro other rest rest' _ _ same
    rw [chars_object] at same
    obtain ⟨fields', rfl⟩ := exists_object_of_starts (starts_of_append same.symm)
    rw [chars_object] at same
    have each : ∀ field ∈ fields,
        Legible Char.isDigit (fieldChars .compact (depth + 1)) field :=
      fun field mem => legible_field (ih field mem (depth + 1))
    have starts : ∀ (field : String × Json) (more rest : List Char),
        fieldChars .compact (depth + 1) field ++ more ≠ '\x7d' :: rest := by
      intro field more rest close
      simp [fieldChars, literal] at close
    obtain ⟨all, left⟩ := legible_enclosed (by decide) depth (by decide) (by decide) starts each
      fields' rest rest' (by simp) (by simp) (List.cons.inj same).2
    exact ⟨congrArg object all, left⟩

/-! ### White space between tokens -/

/-- Where in a JSON text a character stands. -/
inductive Site where
  | outside
  | literal
  /-- Right behind a backslash. -/
  | escaped

/-- Where the next character stands. -/
def Site.next : Site → Char → Site
  | outside, c => if c = '"' then literal else outside
  | literal, c => if c = '"' then outside else if c = '\\' then escaped else literal
  | escaped, _ => literal

/-- White space does not count outside literals. -/
def Site.keeps : Site → Char → Bool
  | outside, c => !Text.isBlank c
  | _, _ => true

/-- A JSON text without the white space outside its literals. -/
def withoutBlanks (site : Site) : List Char → List Char
  | [] => []
  | c :: rest =>
    let later := withoutBlanks (site.next c) rest
    if site.keeps c then c :: later else later

/-- The digits of an escape are neither a quote nor a backslash. -/
theorem hexDigit_ne : ∀ n < 16, hexDigit n ≠ '"' ∧ hexDigit n ≠ '\\' := by decide

/-- An escape leaves nothing open, so a literal goes on behind it. -/
theorem withoutBlanks_escape (c : Char) (rest : List Char) :
    withoutBlanks .literal ((escape c).toList ++ rest) =
      (escape c).toList ++ withoutBlanks .literal rest := by
  unfold escape
  split_ifs with mark back newline feed tab bell form control
  iterate 7 rfl
  · have high := hexDigit_ne (c.toNat / 16) (by omega)
    have low := hexDigit_ne (c.toNat % 16) (by omega)
    simp [withoutBlanks, Site.next, Site.keeps, high, low]
  · simp [withoutBlanks, Site.next, Site.keeps, mark, back]

/-- Blanks inside a string stay. -/
theorem withoutBlanks_literal (text : String) (rest : List Char) :
    withoutBlanks .outside (literal text ++ rest) =
      literal text ++ withoutBlanks .outside rest := by
  have body : ∀ cs : List Char,
      withoutBlanks .literal (cs.flatMap (fun c => (escape c).toList) ++ '"' :: rest) =
        cs.flatMap (fun c => (escape c).toList) ++ '"' :: withoutBlanks .outside rest := by
    intro cs
    induction cs with
    | nil => rfl
    | cons c cs ih =>
      rw [List.flatMap_cons, List.append_assoc, withoutBlanks_escape, ih, List.append_assoc]
  have opened : ∀ more : List Char,
      withoutBlanks .outside ('"' :: more) = '"' :: withoutBlanks .literal more := fun _ => rfl
  simp only [literal, List.cons_append, List.append_assoc, List.nil_append, opened, body]

/-- White space between tokens is dropped. -/
theorem withoutBlanks_blank {text : List Char} (blank : ∀ c ∈ text, Text.isBlank c = true)
    (rest : List Char) : withoutBlanks .outside (text ++ rest) = withoutBlanks .outside rest := by
  induction text with
  | nil => rfl
  | cons c text ih =>
    have here := blank c List.mem_cons_self
    have mark : c ≠ '"' := by
      rintro rfl
      cases here
    have later := ih fun d mem => blank d (List.mem_cons_of_mem c mem)
    simp only [List.cons_append, withoutBlanks, Site.keeps, Site.next, here, mark, if_false,
      Bool.not_true, Bool.false_eq_true, later]

/-- Everything else is kept. -/
theorem withoutBlanks_solid {text : List Char}
    (solid : ∀ c ∈ text, Text.isBlank c = false ∧ c ≠ '"') (rest : List Char) :
    withoutBlanks .outside (text ++ rest) = text ++ withoutBlanks .outside rest := by
  induction text with
  | nil => rfl
  | cons c text ih =>
    obtain ⟨here, mark⟩ := solid c List.mem_cons_self
    have later := ih fun d mem => solid d (List.mem_cons_of_mem c mem)
    simp only [List.cons_append, withoutBlanks, Site.keeps, Site.next, here, mark, if_false,
      Bool.not_false, if_true, later]

/-- The breaks of a layout are nothing but blanks. -/
theorem isBlank_of_mem_lineBreak {layout : Layout} {depth : Nat} {c : Char}
    (mem : c ∈ (layout.lineBreak depth).toList) : Text.isBlank c = true := by
  cases layout with
  | compact => cases mem
  | indented =>
    rw [Layout.lineBreak, String.toList_ofList, List.mem_cons] at mem
    obtain rfl | mem := mem
    · rfl
    · rw [List.eq_of_mem_replicate mem]
      rfl

theorem withoutBlanks_colon (layout : Layout) (rest : List Char) :
    withoutBlanks .outside (layout.colon.toList ++ rest) = ':' :: withoutBlanks .outside rest := by
  cases layout <;> rfl

section Rows

variable {α : Type} {layout : Layout} {cell cell' : α → List Char}

/-- Items that are the same without blanks are so in a row. -/
theorem withoutBlanks_row (depth depth' : Nat) {as : List α}
    (each : ∀ a ∈ as, ∀ rest, withoutBlanks .outside (cell a ++ rest) =
      cell' a ++ withoutBlanks .outside rest) (rest : List Char) :
    withoutBlanks .outside (layout.row depth cell as ++ rest) =
      Layout.compact.row depth' cell' as ++ withoutBlanks .outside rest := by
  induction as with
  | nil => rfl
  | cons a as ih =>
    have comma : ∀ more : List Char,
        withoutBlanks .outside (',' :: more) = ',' :: withoutBlanks .outside more := fun _ => rfl
    have here := each a List.mem_cons_self
    have later := ih fun b mem => each b (List.mem_cons_of_mem a mem)
    calc withoutBlanks .outside (layout.row depth cell (a :: as) ++ rest)
      _ = withoutBlanks .outside (',' :: ((layout.lineBreak depth).toList ++
            (cell a ++ (layout.row depth cell as ++ rest)))) := by simp [Layout.row]
      _ = ',' :: (cell' a ++ (Layout.compact.row depth' cell' as ++ withoutBlanks .outside rest)) := by
        rw [comma, withoutBlanks_blank fun _ => isBlank_of_mem_lineBreak, here, later]
      _ = Layout.compact.row depth' cell' (a :: as) ++ withoutBlanks .outside rest := by
        simp [Layout.row, Layout.lineBreak]

/-- Brackets are no blanks, and what is between them loses its own. -/
theorem withoutBlanks_enclosed (depth depth' : Nat) {close : Char}
    (solid : Text.isBlank close = false) (mark : close ≠ '"') {as : List α}
    (each : ∀ a ∈ as, ∀ rest, withoutBlanks .outside (cell a ++ rest) =
      cell' a ++ withoutBlanks .outside rest) (rest : List Char) :
    withoutBlanks .outside (layout.enclosed depth close cell as ++ rest) =
      Layout.compact.enclosed depth' close cell' as ++ withoutBlanks .outside rest := by
  have closed : withoutBlanks .outside (close :: rest) = close :: withoutBlanks .outside rest :=
    withoutBlanks_solid (List.forall_mem_singleton.mpr ⟨solid, mark⟩) rest
  cases as with
  | nil => exact closed
  | cons a as =>
    have here := each a List.mem_cons_self
    have later (rest : List Char) :
        withoutBlanks .outside (layout.row (depth + 1) cell as ++ rest) =
          Layout.compact.row (depth' + 1) cell' as ++ withoutBlanks .outside rest :=
      withoutBlanks_row _ _ (fun b mem => each b (List.mem_cons_of_mem a mem)) rest
    have lines : ∀ depth more, withoutBlanks .outside ((layout.lineBreak depth).toList ++ more) =
        withoutBlanks .outside more :=
      fun depth => withoutBlanks_blank fun _ => isBlank_of_mem_lineBreak
    calc withoutBlanks .outside (layout.enclosed depth close cell (a :: as) ++ rest)
      _ = withoutBlanks .outside ((layout.lineBreak (depth + 1)).toList ++ (cell a ++
            (layout.row (depth + 1) cell as ++ ((layout.lineBreak depth).toList ++
              close :: rest)))) := by simp [Layout.enclosed]
      _ = cell' a ++ (Layout.compact.row (depth' + 1) cell' as ++
            close :: withoutBlanks .outside rest) := by
        rw [lines, here, later, lines, closed]
      _ = Layout.compact.enclosed depth' close cell' (a :: as) ++ withoutBlanks .outside rest := by
        simp [Layout.enclosed, Layout.lineBreak]

end Rows

/-- **Without white space between its tokens, every text of a value is the one on one line.** -/
theorem withoutBlanks_chars (layout : Layout) (value : Json) (depth depth' : Nat)
    (rest : List Char) :
    withoutBlanks .outside (chars layout depth value ++ rest) =
      chars .compact depth' value ++ withoutBlanks .outside rest := by
  induction value using induct generalizing depth depth' rest with
  | null =>
    rw [chars_null, chars_null]
    rfl
  | bool value =>
    cases value with
    | true =>
      rw [chars_true, chars_true]
      rfl
    | false =>
      rw [chars_false, chars_false]
      rfl
  | number n =>
    rw [chars_number, chars_number]
    refine withoutBlanks_solid (fun c mem => ?_) rest
    have digit := Nat.isDigit_of_mem_toDigits (by decide) (by decide) mem
    refine ⟨isBlank_of_isDigit digit, ?_⟩
    rintro rfl
    cases digit
  | string text =>
    rw [chars_string, chars_string]
    exact withoutBlanks_literal text rest
  | array items ih =>
    have opened : ∀ more : List Char,
        withoutBlanks .outside ('[' :: more) = '[' :: withoutBlanks .outside more := fun _ => rfl
    rw [chars_array, chars_array, List.cons_append, opened, withoutBlanks_enclosed depth depth'
      (by decide) (by decide) fun item mem rest => ih item mem (depth + 1) (depth' + 1) rest,
      List.cons_append]
  | object fields ih =>
    have opened : ∀ more : List Char,
        withoutBlanks .outside ('\x7b' :: more) = '\x7b' :: withoutBlanks .outside more :=
      fun _ => rfl
    have each : ∀ field ∈ fields, ∀ rest,
        withoutBlanks .outside (fieldChars layout (depth + 1) field ++ rest) =
          fieldChars .compact (depth' + 1) field ++ withoutBlanks .outside rest := by
      intro field mem rest
      simp only [fieldChars, List.append_assoc]
      rw [withoutBlanks_literal, withoutBlanks_colon, ih field mem (depth + 1) (depth' + 1)]
      rfl
    rw [chars_object, chars_object, List.cons_append, opened,
      withoutBlanks_enclosed depth depth' (by decide) (by decide) each, List.cons_append]

/-! ### Whole texts -/

/-- The text without the white space outside its literals. -/
def stripped (text : String) : String := String.ofList (withoutBlanks .outside text.toList)

/-- Without the blanks outside of strings all layouts write the same. -/
theorem stripped_render (layout : Layout) (value : Json) :
    stripped (render layout value) = render .compact value := by
  have all := withoutBlanks_chars layout value 0 0 []
  rw [List.append_nil, withoutBlanks, List.append_nil] at all
  rw [stripped, toList_render, all, ← toList_render, String.ofList_toList]

/-- A value is determined by its text, in either layout. -/
theorem render_inj {layout : Layout} {value other : Json} :
    render layout value = render layout other ↔ value = other := by
  constructor
  · intro same
    -- The indented text is as good as the other one, which it is without white space.
    have compact := congrArg stripped same
    rw [stripped_render, stripped_render] at compact
    have texts := congrArg String.toList compact
    rw [toList_render, toList_render] at texts
    exact (legible_chars value 0 other [] [] rfl rfl (congrArg (· ++ []) texts)).1
  · rintro rfl
    rfl

end MdxReader.Json
