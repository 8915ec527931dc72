import MdxReader.Proofs.Spans

/-!
# Texts side by side

Scanning is local: a token that was taken off a text is taken off a longer one in the same way, if
the longer one goes on with white space (`extended_readToken`).  So two texts with a separator between
them have the tokens of the first and then those of the second (`exists_tokensOf_append`).  The
separator is white space that ends whatever comment is open: a line break does, and any other white
space where no comment can be.

Places play no part, since the second text begins somewhere else; the same lemmas with nothing
appended say that tokens do not depend on places.
-/

namespace MdxReader

open Text

/-! ### White space -/

theorem isNamePart_of_isBlank {c : Char} (blank : isBlank c = true) : isNamePart c = false := by
  have letter := isAlphabetic_of_isBlank blank
  have digit : isDecimalDigit c = false := not_covers_of_apart (by decide +kernel) blank
  have number : covers otherNumberTable c.toNat = false :=
    not_covers_of_apart (by decide +kernel) blank
  have low : c ≠ '_' := by
    rintro rfl
    cases blank
  have dollar : c ≠ '$' := by
    rintro rfl
    cases blank
  simp [isNamePart, isAlphanumeric, letter, digit, number, low, dollar]

theorem isDigit_of_isBlank {c : Char} (blank : isBlank c = true) : c.isDigit = false := by
  cases digit : c.isDigit with
  | false => rfl
  | true =>
    rw [isBlank_of_isDigit digit] at blank
    cases blank

/-- What may follow a text without changing its tokens: nothing, or white space. -/
def Blanked (more : List Char) : Prop := ∀ c later, more = c :: later → isBlank c = true

theorem blanked_nil : Blanked [] := nofun

theorem blanked_cons {c : Char} (blank : isBlank c = true) (later : List Char) :
    Blanked (c :: later) := by
  rintro _ _ ⟨⟩
  exact blank

namespace Blanked

variable {more : List Char}

theorem any_head (h : Blanked more) {ofClass : Char → Bool}
    (none : ∀ c, isBlank c = true → ofClass c = false) : more.head?.any ofClass = false := by
  cases more with
  | nil => rfl
  | cons c later => exact none c (h c later rfl)

/-- A character that is no white space does not stand in front. -/
theorem ne_cons (h : Blanked more) {c : Char} (solid : isBlank c = false) (later : List Char) :
    more ≠ c :: later := by
  intro found
  rw [h c later found] at solid
  cases solid

end Blanked

/-! ### Stretches of characters -/

theorem takeWhile_append_of_any_head {ofClass : Char → Bool} {more : List Char}
    (stop : more.head?.any ofClass = false) (text : List Char) :
    (text ++ more).takeWhile ofClass = text.takeWhile ofClass ∧
      (text ++ more).dropWhile ofClass = text.dropWhile ofClass ++ more := by
  induction text with
  | nil =>
    cases more with
    | nil => exact ⟨rfl, rfl⟩
    | cons c later =>
      have other : ofClass c = false := stop
      simp [other]
  | cons c text ih =>
    cases inClass : ofClass c with
    | true => simp [inClass, ih]
    | false => simp [inClass]

/-- What was read off a text is read off the longer text, and the rest goes on with what was
appended. -/
def Extended {α : Type} (more : List Char) (result result' : α × Cursor) : Prop :=
  result'.1 = result.1 ∧ result'.2.rest = result.2.rest ++ more

theorem extended_span {ofClass : Char → Bool} {more : List Char}
    (stop : more.head?.any ofClass = false) {cur cur' : Cursor}
    (longer : cur'.rest = cur.rest ++ more) :
    Extended more (cur.span ofClass) (cur'.span ofClass) := by
  obtain ⟨taken, left⟩ := takeWhile_append_of_any_head stop cur.rest
  unfold Extended Cursor.span
  rw [longer]
  exact ⟨taken, left⟩

theorem skip_append {cur cur' : Cursor} {more : List Char} {n : Nat}
    (longer : cur'.rest = cur.rest ++ more) (enough : n ≤ cur.rest.length) :
    (cur'.skip n).rest = (cur.skip n).rest ++ more := by
  unfold Cursor.skip
  rw [longer]
  exact List.drop_append_of_le_length enough

/-! ### Tokens -/

theorem extended_readDelimited {close : Char} (solid : isBlank close = false) {more : List Char}
    (blanked : Blanked more) (text taken : List Char) (place place' : Position) {found : String}
    (h : (readDelimited close taken place text).1 = some found) :
    Extended more (readDelimited close taken place text)
      (readDelimited close taken place' (text ++ more)) := by
  fun_induction readDelimited close taken place text generalizing place' with
  | case1 => cases h
  | case2 taken place =>
    cases more with
    | nil => simp [Extended, readDelimited]
    | cons d later =>
      have other : d ≠ close := by
        rintro rfl
        exact blanked.ne_cons solid later rfl
      simp [Extended, readDelimited, other]
  | case3 taken place later ih =>
    simpa [readDelimited, Extended] using ih _ h
  | case4 taken place d later other =>
    simp [readDelimited, Extended, other]
  | case5 taken place c rest other ih =>
    rw [List.cons_append, readDelimited.eq_def close taken place' (c :: (rest ++ more))]
    simp only [if_neg other]
    exact ih _ h

theorem extended_readEnclosed {close : Char} (solid : isBlank close = false) {more : List Char}
    (blanked : Blanked more) {make : String → Token} {unterminated : Position → ScanError}
    {cur cur' : Cursor} (longer : cur'.rest = cur.rest ++ more) (some : cur.rest ≠ []) {t : Token}
    (h : (readEnclosed cur close make unterminated).1 = .ok t) :
    Extended more (readEnclosed cur close make unterminated)
      (readEnclosed cur' close make unterminated) := by
  have inside := skip_append (n := 1) longer (List.length_pos_iff.mpr some)
  unfold readEnclosed at h ⊢
  simp only at h ⊢
  cases read : readDelimited close [] (cur.skip 1).place (cur.skip 1).rest with
  | mk text after =>
    rw [read] at h
    cases text with
    | none => cases h
    | some text =>
      have extended := extended_readDelimited solid blanked (cur.skip 1).rest []
        (cur.skip 1).place (cur'.skip 1).place (congrArg Prod.fst read)
      rw [← inside, read] at extended
      obtain ⟨same, left⟩ := extended
      cases read' : readDelimited close [] (cur'.skip 1).place (cur'.skip 1).rest with
      | mk text' after' =>
        rw [read'] at same left
        cases same
        exact ⟨rfl, left⟩

theorem extended_readFraction {more : List Char} (blanked : Blanked more) {cur cur' : Cursor}
    (longer : cur'.rest = cur.rest ++ more) :
    Extended more (readFraction cur) (readFraction cur') := by
  have stop := blanked.any_head fun _ => isDigit_of_isBlank
  obtain ⟨text, place⟩ := cur
  obtain ⟨text', place'⟩ := cur'
  have same : text' = text ++ more := longer
  subst same
  have kept : Extended more (([] : List Char), (⟨text, place⟩ : Cursor))
      (([] : List Char), (⟨text ++ more, place'⟩ : Cursor)) := ⟨rfl, rfl⟩
  unfold readFraction
  split
  · rename_i d rest found
    simp only at found
    subst found
    simp only [List.cons_append]
    split
    · exact extended_span stop (skip_append rfl (by simp))
    · exact kept
  · rename_i other
    simp only at other
    -- Nothing that is white space makes a fraction out of what is none.
    split
    · rename_i d rest found
      simp only at found
      cases text with
      | nil => exact absurd found (blanked.ne_cons (by decide) _)
      | cons c text =>
        cases text with
        | nil =>
          obtain ⟨rfl, follows⟩ := List.cons.inj found
          have blank := blanked d rest follows
          rw [if_neg (by simp [isDigit_of_isBlank blank])]
          exact kept
        | cons d' text =>
          obtain ⟨rfl, same⟩ := List.cons.inj found
          exact absurd rfl (other d' text)
    · exact kept

theorem exponentAt?_append {more : List Char} (blanked : Blanked more) (text : List Char) :
    exponentAt? (text ++ more) = exponentAt? text := by
  have stop := blanked.any_head fun _ => isDigit_of_isBlank
  match text with
  | [] =>
    cases more with
    | nil => rfl
    | cons b later =>
      have blank := blanked b later rfl
      have letter : ¬(b = 'e' ∨ b = 'E') := by
        rintro (rfl | rfl) <;> cases blank
      cases later <;> simp [exponentAt?, letter]
  | [c] =>
    cases more with
    | nil => rfl
    | cons b later =>
      have blank := blanked b later rfl
      have sign : ¬(b = '+' ∨ b = '-') := by
        rintro (rfl | rfl) <;> cases blank
      simp [exponentAt?, isDigit_of_isBlank blank, sign]
  | [c, d] => simp [exponentAt?, stop]
  | c :: d :: e :: rest => rfl

theorem extended_readExponent {more : List Char} (blanked : Blanked more) {cur cur' : Cursor}
    (longer : cur'.rest = cur.rest ++ more) :
    Extended more (readExponent cur) (readExponent cur') := by
  have stop := blanked.any_head fun _ => isDigit_of_isBlank
  have begins := exponentAt?_append blanked cur.rest
  rw [← longer] at begins
  cases found : exponentAt? cur.rest with
  | none =>
    have none (cur : Cursor) (h : exponentAt? cur.rest = none) : readExponent cur = (none, cur) := by
      unfold readExponent
      rw [h]
      cases cur.rest <;> rfl
    rw [none cur found, none cur' (begins.trans found)]
    exact ⟨rfl, longer⟩
  | some start =>
    obtain ⟨negative, width⟩ := start
    obtain ⟨letter, sign, d, rest, text, rfl, -⟩ := exists_of_exponentAt? found
    have some (cur : Cursor) (text : List Char) (front : cur.rest = letter :: text)
        (h : exponentAt? cur.rest = some (negative, sign.length + 1)) :
        readExponent cur =
          (some ⟨letter, negative, ((cur.skip (sign.length + 1)).span Char.isDigit).1⟩,
            ((cur.skip (sign.length + 1)).span Char.isDigit).2) := by
      unfold readExponent
      rw [h, front]
    have front : cur.rest = letter :: (sign ++ d :: rest) := text
    have front' : cur'.rest = letter :: (sign ++ d :: rest ++ more) := by
      rw [longer, front, List.cons_append]
    rw [some cur _ front found, some cur' _ front' (begins.trans found)]
    have skipped := skip_append (n := sign.length + 1) longer (by simp [front])
    obtain ⟨digits, left⟩ := extended_span stop skipped
    exact ⟨by simp only [digits], left⟩

theorem extended_readNumber {more : List Char} (blanked : Blanked more) {cur cur' : Cursor}
    (longer : cur'.rest = cur.rest ++ more) {t : Token} (h : (readNumber cur).1 = .ok t) :
    Extended more (readNumber cur) (readNumber cur') := by
  have stop := blanked.any_head fun _ => isDigit_of_isBlank
  obtain ⟨whole, behindWhole⟩ := extended_span stop longer
  obtain ⟨fraction, behindFraction⟩ := extended_readFraction blanked behindWhole
  obtain ⟨exponent, left⟩ := extended_readExponent blanked behindFraction
  unfold readNumber at h ⊢
  simp only [whole, fraction, exponent]
  cases literal : Numeral.value? ⟨(cur.span Char.isDigit).1,
      (readFraction (cur.span Char.isDigit).2).1,
      (readExponent (readFraction (cur.span Char.isDigit).2).2).1⟩ with
  | some value => exact ⟨rfl, left⟩
  | none =>
    simp only [literal] at h
    cases h

theorem extended_readWord {more : List Char} (blanked : Blanked more) {cur cur' : Cursor}
    (longer : cur'.rest = cur.rest ++ more) : Extended more (readWord cur) (readWord cur') := by
  have stop := blanked.any_head fun _ => isNamePart_of_isBlank
  obtain ⟨letters, left⟩ := extended_span stop longer
  unfold readWord
  simp only [letters]
  split <;> exact ⟨rfl, left⟩

theorem extended_readKey {more : List Char} (blanked : Blanked more) {cur cur' : Cursor}
    (longer : cur'.rest = cur.rest ++ more) (some : cur.rest ≠ []) {t : Token}
    (h : (readKey cur).1 = .ok t) : Extended more (readKey cur) (readKey cur') := by
  have stop := blanked.any_head fun _ => isNamePart_of_isBlank
  have inside := skip_append (n := 1) longer (List.length_pos_iff.mpr some)
  unfold readKey at h ⊢
  simp only at h ⊢
  cases front : (cur.skip 1).rest with
  | nil =>
    rw [front] at h
    cases h
  | cons c rest =>
    have front' : (cur'.skip 1).rest = c :: (rest ++ more) := by rw [inside, front, List.cons_append]
    rw [front] at h
    rw [front']
    simp only at h ⊢
    split at h
    · rename_i bracket
      rw [if_pos bracket, if_pos bracket]
      exact extended_readEnclosed (by decide) blanked inside (by simp [front]) h
    · rename_i bracket
      rw [if_neg bracket, if_neg bracket]
      split at h
      · rename_i starts
        obtain ⟨letters, left⟩ := extended_span stop inside
        rw [if_pos starts, if_pos starts]
        exact ⟨by simp only [letters], left⟩
      · cases h

/-- Where the second character makes no pair with the first, a symbol is told by the first one. -/
theorem symbolAt?_of_no_pair {c : Char} {rest : List Char}
    (bars : ∀ later, c = '|' → rest ≠ '|' :: later)
    (unequal : ∀ later, c = '<' → rest ≠ '>' :: later)
    (atMost : ∀ later, c = '<' → rest ≠ '=' :: later)
    (atLeast : ∀ later, c = '>' → rest ≠ '=' :: later) : symbolAt? (c :: rest) = symbolAt? [c] := by
  have alone : ∀ (d : Char) (later : List Char), ([] : List Char) ≠ d :: later :=
    fun d later => (List.cons_ne_nil d later).symm
  rw [symbolAt?.eq_5 c rest bars unequal atMost atLeast,
    symbolAt?.eq_5 c [] (fun later _ => alone _ later) (fun later _ => alone _ later)
      (fun later _ => alone _ later) (fun later _ => alone _ later)]

/-- Two characters decide which symbol it is. -/
theorem symbolAt?_congr (c d : Char) (rest rest' : List Char) :
    symbolAt? (c :: d :: rest) = symbolAt? (c :: d :: rest') := by
  by_cases pair : (c = '|' ∧ d = '|') ∨ (c = '<' ∧ d = '>') ∨ (c = '<' ∧ d = '=') ∨
      (c = '>' ∧ d = '=')
  · obtain ⟨rfl, rfl⟩ | ⟨rfl, rfl⟩ | ⟨rfl, rfl⟩ | ⟨rfl, rfl⟩ := pair <;> rfl
  · have single : ∀ rest, symbolAt? (c :: d :: rest) = symbolAt? [c] := by
      intro rest
      apply symbolAt?_of_no_pair
      · rintro later rfl ⟨⟩
        exact pair (.inl ⟨rfl, rfl⟩)
      · rintro later rfl ⟨⟩
        exact pair (.inr (.inl ⟨rfl, rfl⟩))
      · rintro later rfl ⟨⟩
        exact pair (.inr (.inr (.inl ⟨rfl, rfl⟩)))
      · rintro later rfl ⟨⟩
        exact pair (.inr (.inr (.inr ⟨rfl, rfl⟩)))
    rw [single rest, single rest']

/-- White space makes no symbol out of another one. -/
theorem symbolAt?_append {more : List Char} (blanked : Blanked more) (c : Char)
    (rest : List Char) : symbolAt? (c :: (rest ++ more)) = symbolAt? (c :: rest) := by
  cases rest with
  | nil =>
    have apart : ∀ d, isBlank d = false → ∀ later, more ≠ d :: later :=
      fun _ solid => blanked.ne_cons solid
    exact symbolAt?_of_no_pair (fun later _ => apart '|' (by decide) later)
      (fun later _ => apart '>' (by decide) later) (fun later _ => apart '=' (by decide) later)
      (fun later _ => apart '=' (by decide) later)
  | cons d rest => exact symbolAt?_congr c d (rest ++ more) rest

/-- What is no symbol is read by its first character. -/
theorem extended_readToken_of_no_symbol {more : List Char} (blanked : Blanked more) {c : Char}
    {rest : List Char} {cur cur' : Cursor} (front : cur.rest = c :: rest)
    (longer : cur'.rest = cur.rest ++ more) (noSymbol : symbolAt? cur.rest = none)
    (noSymbol' : symbolAt? cur'.rest = none) {t : Token} (h : (readToken cur).1 = .ok t) :
    Extended more (readToken cur) (readToken cur') := by
  have some : cur.rest ≠ [] := by
    rw [front]
    exact List.cons_ne_nil c rest
  have front' : cur'.rest = c :: (rest ++ more) := by rw [longer, front, List.cons_append]
  unfold readToken at h ⊢
  simp only [front, front'] at noSymbol noSymbol' h ⊢
  simp only [noSymbol, noSymbol'] at h ⊢
  by_cases bracket : c = '['
  · simp only [if_pos bracket] at h ⊢
    exact extended_readEnclosed (by decide) blanked longer some h
  simp only [if_neg bracket] at h ⊢
  by_cases ampersand : c = '&'
  · simp only [if_pos ampersand] at h ⊢
    exact extended_readKey blanked longer some h
  simp only [if_neg ampersand] at h ⊢
  by_cases double : c = '"'
  · simp only [if_pos double] at h ⊢
    exact extended_readEnclosed (by decide) blanked longer some h
  simp only [if_neg double] at h ⊢
  by_cases single : c = '\x27'
  · simp only [if_pos single] at h ⊢
    exact extended_readEnclosed (by decide) blanked longer some h
  simp only [if_neg single] at h ⊢
  by_cases digit : c.isDigit = true
  · simp only [if_pos digit] at h ⊢
    exact extended_readNumber blanked longer h
  simp only [if_neg digit] at h ⊢
  by_cases starts : isNameStart c = true
  · simp only [if_pos starts] at h ⊢
    obtain ⟨word, left⟩ := extended_readWord blanked longer
    exact ⟨congrArg Except.ok word, left⟩
  · simp only [if_neg starts] at h
    cases h

/-- **A token is taken off a longer text in the same way**, if white space follows. -/
theorem extended_readToken {more : List Char} (blanked : Blanked more) {c : Char}
    {rest : List Char} {cur cur' : Cursor} (front : cur.rest = c :: rest)
    (longer : cur'.rest = cur.rest ++ more) {t : Token} (h : (readToken cur).1 = .ok t) :
    Extended more (readToken cur) (readToken cur') := by
  have same : symbolAt? cur'.rest = symbolAt? cur.rest := by
    rw [longer, front, List.cons_append]
    exact symbolAt?_append blanked c rest
  cases symbol : symbolAt? cur.rest with
  | some s =>
    have enough : s.width ≤ cur.rest.length := by
      have taken := congrArg List.length (take_of_symbolAt? symbol)
      rw [List.length_take, length_spelling] at taken
      omega
    rw [readToken_of_symbol symbol, readToken_of_symbol (same.trans symbol)]
    exact ⟨rfl, skip_append longer enough⟩
  | none =>
    exact extended_readToken_of_no_symbol blanked front longer symbol (same.trans symbol) h

/-! ### Gaps -/

section Equations

variable {c d : Char}

theorem skipGap_blank (blank : isBlank c = true) (place : Position) (rest : List Char) :
    skipGap .space place (c :: rest) = skipGap .space (place.next c) rest := by
  rw [skipGap.eq_def]
  simp only [if_pos blank]

theorem skipGap_opensLine (solid : ¬ isBlank c = true)
    (mark : (c = '/' ∧ d = '/') ∨ (c = '-' ∧ d = '-')) (place : Position) (rest : List Char) :
    skipGap .space place (c :: d :: rest) = skipGap .line ((place.next c).next d) rest := by
  rw [skipGap.eq_def]
  simp only [if_neg solid, if_pos mark]

theorem skipGap_opensBlock (solid : ¬ isBlank c = true)
    (noLine : ¬ ((c = '/' ∧ d = '/') ∨ (c = '-' ∧ d = '-'))) (opens : c = '/' ∧ d = '*')
    (place : Position) (rest : List Char) :
    skipGap .space place (c :: d :: rest) =
      skipGap (.block place) ((place.next c).next d) rest := by
  rw [skipGap.eq_def]
  simp only [if_neg solid, if_neg noLine, if_pos opens]

theorem skipGap_opensNothing (solid : ¬ isBlank c = true)
    (noLine : ¬ ((c = '/' ∧ d = '/') ∨ (c = '-' ∧ d = '-'))) (noBlock : ¬ (c = '/' ∧ d = '*'))
    (place : Position) (rest : List Char) :
    skipGap .space place (c :: d :: rest) = (none, ⟨c :: d :: rest, place⟩) := by
  rw [skipGap.eq_def]
  simp only [if_neg solid, if_neg noLine, if_neg noBlock]

theorem skipGap_newline (place : Position) (rest : List Char) :
    skipGap .line place ('\n' :: rest) = skipGap .space (place.next '\n') rest := by
  rw [skipGap.eq_def]
  simp only [if_true]

theorem skipGap_inLine (other : ¬ c = '\n') (place : Position) (rest : List Char) :
    skipGap .line place (c :: rest) = skipGap .line (place.next c) rest := by
  rw [skipGap.eq_def]
  simp only [if_neg other]

theorem skipGap_closes (closes : c = '*' ∧ d = '/') (start place : Position) (rest : List Char) :
    skipGap (.block start) place (c :: d :: rest) =
      skipGap .space ((place.next c).next d) rest := by
  rw [skipGap.eq_def]
  simp only [if_pos closes]

theorem skipGap_inBlock (goesOn : ¬ (c = '*' ∧ d = '/')) (start place : Position)
    (rest : List Char) :
    skipGap (.block start) place (c :: d :: rest) =
      skipGap (.block start) (place.next c) (d :: rest) := by
  rw [skipGap.eq_def]
  simp only [if_neg goesOn]

end Equations

/-- Gaps of one kind, wherever they began. -/
inductive Gap.Like : Gap → Gap → Prop
  | space : Gap.Like .space .space
  | line : Gap.Like .line .line
  | block (start start' : Position) : Gap.Like (.block start) (.block start')

/-- A gap in front of a token ends at the token, whatever follows it. -/
theorem skipGap_append {more : List Char} (blanked : Blanked more) {gap gap' : Gap}
    (like : gap.Like gap') (place place' : Position) (text : List Char)
    (clean : (skipGap gap place text).1 = none)
    (ends : (skipGap gap place text).2.rest = [] → more = []) :
    Extended more (skipGap gap place text) (skipGap gap' place' (text ++ more)) := by
  -- Both sides take the same turns; only a single character at the end sees what was appended.
  fun_induction skipGap gap place text generalizing gap' place' with
  | case1 => cases clean
  | case2 place | case3 place =>
    cases like
    rw [ends rfl]
    exact ⟨rfl, rfl⟩
  | case4 place c rest space ih =>
    cases like
    rw [List.cons_append, skipGap_blank space]
    exact ih .space _ clean ends
  | case5 place c solid =>
    cases like
    rw [List.singleton_append]
    cases more with
    | nil =>
      rw [skipGap.eq_def]
      simp only [if_neg solid]
      exact ⟨rfl, rfl⟩
    | cons b later =>
      have blank := blanked b later rfl
      have noLine : ¬((c = '/' ∧ b = '/') ∨ (c = '-' ∧ b = '-')) := by
        rintro (⟨rfl, rfl⟩ | ⟨rfl, rfl⟩) <;> cases blank
      have noBlock : ¬(c = '/' ∧ b = '*') := by
        rintro ⟨rfl, rfl⟩
        cases blank
      rw [skipGap_opensNothing solid noLine noBlock]
      exact ⟨rfl, rfl⟩
  | case6 place c solid d later mark ih =>
    cases like
    rw [List.cons_append, List.cons_append, skipGap_opensLine solid mark]
    exact ih .line _ clean ends
  | case7 place c solid d later noLine opens ih =>
    cases like
    rw [List.cons_append, List.cons_append, skipGap_opensBlock solid noLine opens]
    exact ih (.block place place') _ clean ends
  | case8 place c solid d later noLine noBlock =>
    cases like
    rw [List.cons_append, List.cons_append, skipGap_opensNothing solid noLine noBlock]
    exact ⟨rfl, rfl⟩
  | case9 place rest ih =>
    cases like
    rw [List.cons_append, skipGap_newline]
    exact ih .space _ clean ends
  | case10 place c rest other ih =>
    cases like
    rw [List.cons_append, skipGap_inLine other]
    exact ih .line _ clean ends
  | case11 => cases clean
  | case12 start place c d later closes ih =>
    cases like
    rw [List.cons_append, List.cons_append, skipGap_closes closes]
    exact ih .space _ clean ends
  | case13 start place c d later goesOn ih =>
    cases like with
    | block _ start' =>
      rw [List.cons_append, List.cons_append, skipGap_inBlock goesOn]
      exact ih (.block start start') _ clean ends

/-- White space that ends a gap of this kind: a line break does, and so does any other white space
where no comment of one line can be open. -/
def Gap.Closes (sep : Char) (text : List Char) (gap : Gap) : Prop :=
  isBlank sep = true ∧ (sep = '\n' ∨ (∀ c ∈ text, c ≠ '/' ∧ c ≠ '-') ∧ gap = .space)

/-- A gap at the end of a text goes on behind the separator as white space. -/
theorem skipGap_append_of_rest_nil {sep : Char} {gap : Gap} (place place' : Position)
    {text : List Char} (later : List Char) (closes : gap.Closes sep text)
    (clean : (skipGap gap place text).1 = none)
    (emptied : (skipGap gap place text).2.rest = []) {gap' : Gap} (like : gap.Like gap') :
    ∃ place'', skipGap gap' place' (text ++ sep :: later) = skipGap .space place'' later := by
  obtain ⟨blank, ends⟩ := closes
  fun_induction skipGap gap place text generalizing gap' place' with
  | case1 => cases clean
  | case2 place =>
    cases like
    exact ⟨_, skipGap_blank blank place' later⟩
  | case3 place =>
    cases like
    obtain rfl | ⟨-, none⟩ := ends
    · exact ⟨_, skipGap_newline place' later⟩
    · cases none
  | case4 place c rest space ih =>
    cases like
    rw [List.cons_append, skipGap_blank space]
    have inner : sep = '\n' ∨ (∀ c ∈ rest, c ≠ '/' ∧ c ≠ '-') ∧ Gap.space = .space :=
      ends.imp_right fun h => ⟨(List.forall_mem_cons.mp h.1).2, rfl⟩
    exact ih _ clean emptied .space inner
  | case5 => cases emptied
  | case6 place c solid d rest mark ih =>
    cases like
    rw [List.cons_append, List.cons_append, skipGap_opensLine solid mark]
    have newline : sep = '\n' := by
      refine ends.resolve_right fun h => ?_
      have plain := h.1 c List.mem_cons_self
      rcases mark with ⟨slash, -⟩ | ⟨minus, -⟩
      · exact plain.1 slash
      · exact plain.2 minus
    exact ih _ clean emptied .line (.inl newline)
  | case7 place c solid d rest noLine opens ih =>
    cases like
    rw [List.cons_append, List.cons_append, skipGap_opensBlock solid noLine opens]
    have newline : sep = '\n' :=
      ends.resolve_right fun h => (h.1 c List.mem_cons_self).1 opens.1
    exact ih _ clean emptied (.block place place') (.inl newline)
  | case8 => cases emptied
  | case9 place rest ih =>
    cases like
    rw [List.cons_append, skipGap_newline]
    have newline : sep = '\n' := ends.resolve_right fun h => by cases h.2
    exact ih _ clean emptied .space (.inl newline)
  | case10 place c rest other ih =>
    cases like
    rw [List.cons_append, skipGap_inLine other]
    have newline : sep = '\n' := ends.resolve_right fun h => by cases h.2
    exact ih _ clean emptied .line (.inl newline)
  | case11 => cases clean
  | case12 start place c d rest closes ih =>
    cases like
    rw [List.cons_append, List.cons_append, skipGap_closes closes]
    have newline : sep = '\n' := ends.resolve_right fun h => by cases h.2
    exact ih _ clean emptied .space (.inl newline)
  | case13 start place c d rest goesOn ih =>
    cases like with
    | block _ start' =>
      rw [List.cons_append, List.cons_append, skipGap_inBlock goesOn]
      have newline : sep = '\n' := ends.resolve_right fun h => by cases h.2
      exact ih _ clean emptied (.block start start') (.inl newline)

/-! ### Scanners -/

/-- Only at its end does a text answer that it has ended. -/
theorem rest_eq_nil_of_readToken {cur : Cursor} (h : (readToken cur).1 = .ok .endOfText) :
    cur.rest = [] := by
  cases front : cur.rest with
  | nil => rfl
  | cons c rest =>
    obtain ⟨span, -, token, -⟩ := takes_readToken front
    obtain ⟨spelled, some⟩ := token .endOfText h
    exact absurd spelled some

namespace Scanner

variable {s s' : Scanner} {more : List Char}

/-- A call moves over a stretch of text. -/
theorem Step.exists_moves {answer : Except ScanError Token} (h : s.Step answer s') :
    ∃ taken, s.cursor.Moves taken s'.cursor := by
  cases h with
  | endless moved _ _ => exact ⟨_, moved⟩
  | ended moved _ _ => exact ⟨_, moved⟩
  | token gap _ moved _ _ _ => exact ⟨_, gap.trans moved⟩
  | fault gap _ moved _ _ => exact ⟨_, gap.trans moved⟩

/-- An answer of a scanner is what stands behind a gap. -/
theorem next_of_skipGap {found : Cursor}
    (skipped : skipGap .space s.cursor.place s.cursor.rest = (none, found)) :
    s.next = ((readToken found).1, ⟨(readToken found).2, found.place⟩) := by
  unfold next
  rw [skipped]

theorem exists_skipGap_of_next {t : Token} (h : s.next.1 = .ok t) :
    ∃ found, skipGap .space s.cursor.place s.cursor.rest = (none, found) := by
  unfold next at h
  split at h
  · cases h
  · rename_i found skipped
    exact ⟨found, skipped⟩

/-- **A scanner of a longer text answers the same** as long as there are tokens, if white space
follows. -/
theorem next_append (blanked : Blanked more) (longer : s'.cursor.rest = s.cursor.rest ++ more)
    {t : Token} (h : s.next.1 = .ok t) (inner : t = .endOfText → more = []) :
    s'.next.1 = .ok t ∧ s'.next.2.cursor.rest = s.next.2.cursor.rest ++ more := by
  obtain ⟨found, skipped⟩ := exists_skipGap_of_next h
  rw [next_of_skipGap skipped] at h ⊢
  have ends : found.rest = [] → more = [] := by
    intro emptied
    rw [Cursor.eq_of_rest emptied] at h
    exact inner (Except.ok.inj h).symm
  have extended := skipGap_append blanked .space s.cursor.place s'.cursor.place s.cursor.rest
    (congrArg Prod.fst skipped) (by rwa [skipped])
  rw [← longer, skipped] at extended
  obtain ⟨clean, longer'⟩ := extended
  have skipped' : skipGap .space s'.cursor.place s'.cursor.rest =
      (none, (skipGap .space s'.cursor.place s'.cursor.rest).2) := Prod.ext clean rfl
  rw [next_of_skipGap skipped']
  cases front : found.rest with
  | nil =>
    have none := ends front
    rw [front, none] at longer'
    rw [none, Cursor.eq_of_rest front, Cursor.eq_of_rest longer']
    rw [Cursor.eq_of_rest front] at h
    exact ⟨h, rfl⟩
  | cons c rest =>
    obtain ⟨same, left⟩ := extended_readToken blanked front longer' h
    exact ⟨same.trans h, left⟩

/-- **At the end of the shorter text** the scanner of the longer one goes on behind the
separator. -/
theorem exists_next_eq_of_ended {sep : Char} {later : List Char}
    (longer : s'.cursor.rest = s.cursor.rest ++ sep :: later)
    (closes : Gap.space.Closes sep s.cursor.rest) (h : s.next.1 = .ok .endOfText) :
    ∃ s'' : Scanner, s''.cursor.rest = later ∧ s'.next = s''.next := by
  obtain ⟨found, skipped⟩ := exists_skipGap_of_next h
  rw [next_of_skipGap skipped] at h
  have emptied := rest_eq_nil_of_readToken h
  obtain ⟨place, same⟩ := skipGap_append_of_rest_nil s.cursor.place s'.cursor.place later closes
    (congrArg Prod.fst skipped) (by rwa [skipped]) .space
  rw [← longer] at same
  refine ⟨⟨⟨later, place⟩, s'.mark⟩, rfl, ?_⟩
  unfold next
  rw [same]

end Scanner

/-! ### All tokens -/

namespace Scans

variable {s s' : Scanner} {tokens : List Located}

theorem congr_next (same : s'.next = s.next) (h : Scans s tokens) : Scans s' tokens := by
  cases h with
  | ended answer =>
    rw [← same] at answer ⊢
    exact .ended answer
  | token answer inner later =>
    rw [← same] at answer later ⊢
    exact .token answer inner later

/-- The end of the text is the last token and no other one. -/
theorem exists_map_eq (h : Scans s tokens) :
    ∃ ts, .endOfText ∉ ts ∧ tokens.map Located.token = ts ++ [.endOfText] := by
  induction h with
  | ended => exact ⟨[], List.not_mem_nil, rfl⟩
  | @token s t later answer inner scanned ih =>
    obtain ⟨ts, others, same⟩ := ih
    exact ⟨t :: ts, List.not_mem_cons_of_ne_of_not_mem inner.symm others, congrArg (t :: ·) same⟩

/-- **Tokens do not depend on places.** -/
theorem exists_of_rest_eq (h : Scans s tokens) (same : s'.cursor.rest = s.cursor.rest) :
    ∃ tokens', Scans s' tokens' ∧ tokens'.map Located.token = tokens.map Located.token := by
  induction h generalizing s' with
  | @ended s answer =>
    rw [← List.append_nil s.cursor.rest] at same
    obtain ⟨answer', -⟩ := Scanner.next_append blanked_nil same answer fun _ => rfl
    exact ⟨_, .ended answer', rfl⟩
  | @token s t tokens answer inner later ih =>
    rw [← List.append_nil s.cursor.rest] at same
    obtain ⟨answer', left⟩ := Scanner.next_append blanked_nil same answer fun _ => rfl
    rw [List.append_nil] at left
    obtain ⟨tokens', scanned, tokens⟩ := ih left
    exact ⟨_, .token answer' inner scanned, congrArg (_ :: ·) tokens⟩

/-- **The tokens of two texts side by side**: the first ones without their end, then the others. -/
theorem exists_append {sep : Char} {more : Scanner} {further : List Located}
    (h : Scans s tokens) (others : Scans more further)
    (longer : s'.cursor.rest = s.cursor.rest ++ sep :: more.cursor.rest)
    (closes : Gap.space.Closes sep s.cursor.rest) :
    ∃ all, Scans s' all ∧ all.map Located.token =
      (tokens.map Located.token).dropLast ++ further.map Located.token := by
  induction h generalizing s' with
  | ended answer =>
    obtain ⟨s'', rest, next⟩ := Scanner.exists_next_eq_of_ended longer closes answer
    obtain ⟨all, scanned, same⟩ := others.exists_of_rest_eq rest
    exact ⟨all, scanned.congr_next next, same⟩
  | @token s t later answer inner scanned ih =>
    obtain ⟨answer', left⟩ := Scanner.next_append (blanked_cons closes.1 _) longer answer
      fun ended => absurd ended inner
    have closes' : Gap.space.Closes sep s.next.2.cursor.rest := by
      obtain ⟨taken, moved⟩ := s.step_next.exists_moves
      rw [moved.text] at closes
      refine ⟨closes.1, closes.2.imp_right fun h => ⟨fun c mem => ?_, rfl⟩⟩
      exact h.1 c (List.mem_append_right taken mem)
    obtain ⟨all, scanned', same⟩ := ih left closes'
    have some : later.map Located.token ≠ [] := by
      cases scanned <;> exact List.cons_ne_nil _ _
    refine ⟨_, .token answer' inner scanned', ?_⟩
    rw [List.map_cons, List.map_cons, same, List.dropLast_cons_of_ne_nil some, List.cons_append]

end Scans

/-- The answers of a scanner, collected. -/
theorem Feed.exists_collect_of_scans {s : Scanner} {tokens : List Located} (h : Scans s tokens)
    (read : List Lexeme) : ∃ (found : List Located) (last : Position),
      collect read s = ⟨read.reverse ++ found.map .ok, .ok last⟩ ∧
        tokens = found ++ [⟨.endOfText, last⟩] := by
  induction h generalizing read with
  | @ended s answer =>
    refine ⟨[], s.next.2.mark, ?_, rfl⟩
    rw [collect]
    simp only [answer]
    simp [isFinal, Except.map]
  | @token s t later answer inner scanned ih =>
    have goesOn : isFinal (.ok t) = false := by
      cases t <;> first | rfl | exact absurd rfl inner
    obtain ⟨found, last, all, rfl⟩ := ih (.ok ⟨t, s.next.2.mark⟩ :: read)
    refine ⟨⟨t, s.next.2.mark⟩ :: found, last, ?_, rfl⟩
    rw [collect]
    simp only [answer]
    rw [dif_pos goesOn]
    rw [List.reverse_cons, List.append_assoc] at all
    exact all

/-- **The answers of a scanner are the tokens of its text.** -/
theorem tokensOf_of_scans {text : String} {tokens : List Located}
    (h : Scans (.ofText text) tokens) : tokensOf text = .ok tokens := by
  obtain ⟨found, last, all, rfl⟩ := Feed.exists_collect_of_scans h []
  unfold tokensOf Feed.ofText Feed.tokens
  rw [all]
  simp only [List.reverse_nil, List.nil_append, Feed.located_map_ok, List.append_nil]
  simp [bind, Except.bind, pure, Except.pure]

/-- **The tokens of two texts with a separator between them** are the tokens of the first without
their end, and then those of the second.  The separator is white space, and a line break where the
first text may have a comment at its end. -/
theorem exists_tokensOf_append {text more : String} {sep : Char} {tokens further : List Located}
    (h : tokensOf text = .ok tokens) (others : tokensOf more = .ok further)
    (closes : Gap.space.Closes sep text.toList) :
    ∃ all, tokensOf (text ++ String.singleton sep ++ more) = .ok all ∧ all.map Located.token =
      (tokens.map Located.token).dropLast ++ further.map Located.token := by
  have longer : (Scanner.ofText (text ++ String.singleton sep ++ more)).cursor.rest =
      (Scanner.ofText text).cursor.rest ++ sep :: (Scanner.ofText more).cursor.rest := by
    simp [Scanner.ofText]
  obtain ⟨all, scanned, same⟩ :=
    (scans_of_tokensOf h).exists_append (scans_of_tokensOf others) longer closes
  exact ⟨all, tokensOf_of_scans scanned, same⟩

/-- There is no gap in front of a character that is neither white space nor opens a comment. -/
theorem skipGap_of_solid {c : Char} (solid : isBlank c = false) (slash : c ≠ '/')
    (minus : c ≠ '-') (more : List Char) (place : Position) :
    skipGap .space place (c :: more) = (none, ⟨c :: more, place⟩) := by
  rw [skipGap.eq_def]
  cases more <;> simp [solid, slash, minus]

/-- A token at the front of a text, and the tokens of what is left behind it. -/
theorem exists_tokensOf_front {text more : String} {t : Token} {further : List Located}
    (solid : skipGap .space .start text.toList = (none, ⟨text.toList, .start⟩))
    (read : (readToken ⟨text.toList, .start⟩).1 = .ok t) (inner : t ≠ .endOfText)
    (left : (readToken ⟨text.toList, .start⟩).2.rest = more.toList)
    (h : tokensOf more = .ok further) :
    ∃ all, tokensOf text = .ok all ∧
      all.map Located.token = t :: further.map Located.token := by
  have next : (Scanner.ofText text).next = ((readToken ⟨text.toList, .start⟩).1,
      ⟨(readToken ⟨text.toList, .start⟩).2, .start⟩) := Scanner.next_of_skipGap solid
  have answer : (Scanner.ofText text).next.1 = .ok t := (congrArg Prod.fst next).trans read
  have behind : (Scanner.ofText text).next.2.cursor.rest = (Scanner.ofText more).cursor.rest := by
    rw [next]
    exact left
  obtain ⟨later, scanned, same⟩ := (scans_of_tokensOf h).exists_of_rest_eq behind
  exact ⟨_, tokensOf_of_scans (.token answer inner scanned), congrArg (_ :: ·) same⟩

section Symbols

variable {c : Char} {symbol : Symbol} {more : String} {further : List Located}

/-- **A symbol of one character in front of a text** is one token more, whatever follows. -/
theorem exists_tokensOf_symbol (spelled : ∀ rest, symbolAt? (c :: rest) = some symbol)
    (single : symbol.width = 1) (solid : ¬ isBlank c = true) (noComment : c ≠ '/' ∧ c ≠ '-')
    (h : tokensOf more = .ok further) :
    ∃ all, tokensOf (String.singleton c ++ more) = .ok all ∧
      all.map Located.token = .symbol symbol :: further.map Located.token := by
  have front : (String.singleton c ++ more).toList = c :: more.toList := by simp
  have skipped := skipGap_of_solid (Bool.eq_false_iff.mpr solid) noComment.1 noComment.2
    more.toList .start
  have read : readToken ⟨c :: more.toList, .start⟩ =
      (.ok (.symbol symbol), (⟨c :: more.toList, .start⟩ : Cursor).skip 1) := by
    rw [readToken_of_symbol (spelled _), single]
  rw [← front] at skipped read
  refine exists_tokensOf_front skipped (congrArg Prod.fst read) (by simp) ?_ h
  rw [read, front]
  rfl

theorem exists_tokensOf_replicate (spelled : ∀ rest, symbolAt? (c :: rest) = some symbol)
    (single : symbol.width = 1) (solid : ¬ isBlank c = true) (noComment : c ≠ '/' ∧ c ≠ '-')
    (h : tokensOf more = .ok further) (n : Nat) :
    ∃ all, tokensOf (String.ofList (List.replicate n c) ++ more) = .ok all ∧
      all.map Located.token =
        List.replicate n (.symbol symbol) ++ further.map Located.token := by
  induction n with
  | zero => exact ⟨further, by simpa using h, rfl⟩
  | succ n ih =>
    obtain ⟨inner, scanned, known⟩ := ih
    obtain ⟨all, scannedAll, allTokens⟩ :=
      exists_tokensOf_symbol spelled single solid noComment scanned
    have text : String.singleton c ++ (String.ofList (List.replicate n c) ++ more) =
        String.ofList (List.replicate (n + 1) c) ++ more := by
      apply String.toList_injective
      simp [List.replicate_succ]
    refine ⟨all, text ▸ scannedAll, ?_⟩
    rw [allTokens, known, List.replicate_succ, List.cons_append]

end Symbols

/-- **A word in front of a text** is one token more, unless the text goes on with it. -/
theorem exists_tokensOf_word {word more : String} {further : List Located}
    (spelled : isWord word = true) (stop : more.toList.head?.any isNamePart = false)
    (h : tokensOf more = .ok further) :
    ∃ all, tokensOf (word ++ more) = .ok all ∧
      all.map Located.token = .ofWord word :: further.map Located.token := by
  obtain ⟨read, left⟩ := readToken_word spelled stop .start
  obtain ⟨c, letters, found, starts, -⟩ := exists_of_isWord spelled
  have special := not_mem_delimiters_of_isNameStart starts
  have slash : c ≠ '/' := by
    rintro rfl
    exact special (by decide)
  have minus : c ≠ '-' := by
    rintro rfl
    exact special (by decide)
  have skipped := skipGap_of_solid (isBlank_of_isNameStart starts) slash minus
    (letters ++ more.toList) .start
  rw [← List.cons_append, ← found, ← String.toList_append] at skipped
  rw [← String.toList_append] at read left
  refine exists_tokensOf_front skipped read ?_ left h
  unfold Token.ofWord
  split <;> nofun

end MdxReader
