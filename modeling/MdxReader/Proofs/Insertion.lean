import MdxReader.Proofs.Joined
import MdxReader.Proofs.Places

/-!
# Gaps in front of tokens

Scanning looks ahead, but not over white space.  So a token is found in the same way if what stands
behind it is cut off (`shortened_readToken`), and then again if something follows that begins with
white space (`extended_readToken`).  Any gap that begins with white space may therefore be put in
front of any token of a text, and the tokens are still the same (`tokensOf_inserted`).
-/

namespace MdxReader

open Text

/-! ### Skipping a gap -/

/-- The rest of a comment that ends with the line. -/
theorem skipGap_line_append {body : List Char} (inside : '\n' ∉ body) (place : Position)
    (rest : List Char) :
    skipGap .line place (body ++ '\n' :: rest) =
      skipGap .space (place.past (body ++ ['\n'])) rest := by
  induction body generalizing place with
  | nil => exact skipGap_newline place rest
  | cons c body ih =>
    obtain ⟨other, later⟩ := not_or.mp (List.mem_cons.not.mp inside)
    rw [List.cons_append, skipGap_inLine (Ne.symm other), ih later]
    rfl

/-- The rest of a comment that ends with its closing mark. -/
theorem skipGap_block_append {body : List Char} (inside : ¬ ['*', '/'] <:+: body)
    (start place : Position) (rest : List Char) :
    skipGap (.block start) place (body ++ '*' :: '/' :: rest) =
      skipGap .space (place.past (body ++ ['*', '/'])) rest := by
  induction body generalizing place with
  | nil => exact skipGap_closes ⟨rfl, rfl⟩ start place rest
  | cons c body ih =>
    have later : ¬ ['*', '/'] <:+: body := fun h =>
      inside (h.trans (List.infix_cons List.infix_rfl))
    cases body with
    | nil =>
      have goesOn : ¬ (c = '*' ∧ '*' = '/') := by simp
      exact (skipGap_inBlock goesOn start place _).trans (ih later _)
    | cons d body =>
      have goesOn : ¬ (c = '*' ∧ d = '/') := by
        rintro ⟨rfl, rfl⟩
        exact inside ⟨[], body, rfl⟩
      exact (skipGap_inBlock goesOn start place _).trans (ih later _)

/-- **A gap is moved over**, whatever stands behind it. -/
theorem skipGap_of_isGap {gap : List Char} (h : IsGap False gap) (place : Position)
    (rest : List Char) :
    skipGap .space place (gap ++ rest) = skipGap .space (place.past gap) rest := by
  induction h generalizing place with
  | nil => rfl
  | @blank c more space _ ih => exact (skipGap_blank space place _).trans (ih _)
  | @line mark body more opens inside _ ih =>
    have opened (text : List Char) :
        skipGap .space place (mark ++ text) = skipGap .line (place.past mark) text := by
      simp only [List.mem_cons, List.not_mem_nil, or_false] at opens
      obtain rfl | rfl := opens
      · exact skipGap_opensLine (by decide) (.inl ⟨rfl, rfl⟩) place text
      · exact skipGap_opensLine (by decide) (.inr ⟨rfl, rfl⟩) place text
    have parts : mark ++ body ++ '\n' :: more ++ rest =
        mark ++ (body ++ '\n' :: (more ++ rest)) := by simp
    have places : mark ++ body ++ '\n' :: more = mark ++ ((body ++ ['\n']) ++ more) := by simp
    rw [parts, opened, skipGap_line_append inside, ih, places, Position.past_append place mark,
      Position.past_append _ (body ++ ['\n'])]
  | lastLine ends => exact ends.elim
  | @block body more inside _ ih =>
    have parts : '/' :: '*' :: body ++ '*' :: '/' :: more ++ rest =
        '/' :: '*' :: (body ++ '*' :: '/' :: (more ++ rest)) := by simp
    have places : '/' :: '*' :: body ++ '*' :: '/' :: more =
        '/' :: '*' :: ((body ++ ['*', '/']) ++ more) := by simp
    rw [parts, skipGap_opensBlock (by decide) (by decide) ⟨rfl, rfl⟩, skipGap_block_append inside,
      ih, places, Position.past_cons, Position.past_cons,
      Position.past_append _ (body ++ ['*', '/'])]

/-- No gap begins behind a gap. -/
theorem skipGap_rest_of_skipGap {gap : Gap} {place : Position} {text : List Char} {found : Cursor}
    (h : skipGap gap place text = (none, found)) (place' : Position) :
    skipGap .space place' found.rest = (none, ⟨found.rest, place'⟩) := by
  fun_induction skipGap gap place text with
  | case1 | case11 => cases h
  | case2 | case3 =>
    cases h
    rw [skipGap]
  | case4 place c rest space ih => exact ih h
  | case5 place c solid =>
    cases h
    rw [skipGap.eq_def]
    simp only [if_neg solid]
  | case6 _ _ _ _ _ _ ih => exact ih h
  | case7 _ _ _ _ _ _ _ ih => exact ih h
  | case8 place c solid d later noLine noBlock =>
    cases h
    exact skipGap_opensNothing solid noLine noBlock place' later
  | case9 _ _ ih => exact ih h
  | case10 _ _ _ _ ih => exact ih h
  | case12 _ _ _ _ _ _ ih => exact ih h
  | case13 _ _ _ _ _ _ ih => exact ih h

/-- Where no gap begins, none does if the text ends earlier. -/
theorem skipGap_of_append {text more : List Char} (some : text ≠ []) {place : Position}
    (h : skipGap .space place (text ++ more) = (none, ⟨text ++ more, place⟩)) :
    skipGap .space place text = (none, ⟨text, place⟩) := by
  have unmoved := congrArg (fun result => result.2.rest.length) h
  simp only at unmoved
  match text with
  | [c] =>
    have solid : ¬ isBlank c = true := by
      intro blank
      rw [List.singleton_append, skipGap_blank blank] at unmoved
      have := length_rest_skipGap_le .space (place.next c) more
      rw [unmoved, List.length_cons] at this
      omega
    rw [skipGap.eq_def]
    simp only [if_neg solid]
  | c :: d :: later =>
    rw [List.cons_append, List.cons_append] at unmoved
    have solid : ¬ isBlank c = true := by
      intro blank
      rw [skipGap_blank blank] at unmoved
      have := length_rest_skipGap_le .space (place.next c) (d :: (later ++ more))
      rw [unmoved, List.length_cons, List.length_cons] at this
      omega
    have noLine : ¬ ((c = '/' ∧ d = '/') ∨ (c = '-' ∧ d = '-')) := by
      intro mark
      rw [skipGap_opensLine solid mark] at unmoved
      have := length_rest_skipGap_le .line ((place.next c).next d) (later ++ more)
      rw [unmoved, List.length_cons, List.length_cons] at this
      omega
    have noBlock : ¬ (c = '/' ∧ d = '*') := by
      intro opens
      rw [skipGap_opensBlock solid noLine opens] at unmoved
      have := length_rest_skipGap_le (.block place) ((place.next c).next d) (later ++ more)
      rw [unmoved, List.length_cons, List.length_cons] at this
      omega
    exact skipGap_opensNothing solid noLine noBlock place later

/-! ### Texts cut off -/

/-- What was read off a text without touching its end is read off the text without that end. -/
def Shortened {α : Type} (more : List Char) (result result' : α × Cursor) : Prop :=
  ∀ kept, result.2.rest = kept ++ more → result'.1 = result.1 ∧ result'.2.rest = kept

section Shortened

variable {more : List Char} {cur cur' : Cursor}

theorem takeWhile_of_append {ofClass : Char → Bool} {text kept : List Char}
    (h : (text ++ more).dropWhile ofClass = kept ++ more) :
    text.takeWhile ofClass = (text ++ more).takeWhile ofClass ∧ text.dropWhile ofClass = kept := by
  induction text with
  | nil =>
    have parts := congrArg List.length
      (List.takeWhile_append_dropWhile (p := ofClass) (l := more))
    rw [List.nil_append] at h
    rw [List.length_append, h, List.length_append] at parts
    have none : more.takeWhile ofClass = [] := List.length_eq_zero_iff.mp (by omega)
    have none' : kept = [] := List.length_eq_zero_iff.mp (by omega)
    exact ⟨none.symm, none'.symm⟩
  | cons c text ih =>
    cases inClass : ofClass c with
    | true =>
      simp only [List.cons_append, List.dropWhile_cons, List.takeWhile_cons, inClass,
        if_true] at h ⊢
      obtain ⟨taken, left⟩ := ih h
      exact ⟨congrArg (c :: ·) taken, left⟩
    | false =>
      simp only [List.cons_append, List.dropWhile_cons, List.takeWhile_cons, inClass,
        Bool.false_eq_true, if_false] at h ⊢
      rw [← List.cons_append] at h
      exact ⟨trivial, List.append_cancel_right h⟩

theorem shortened_span (ofClass : Char → Bool) (longer : cur.rest = cur'.rest ++ more) :
    Shortened more (cur.span ofClass) (cur'.span ofClass) := by
  intro kept untouched
  unfold Cursor.span at untouched ⊢
  rw [longer] at untouched ⊢
  exact takeWhile_of_append untouched

theorem skip_of_append {n : Nat} {kept : List Char} (longer : cur.rest = cur'.rest ++ more)
    (untouched : (cur.skip n).rest = kept ++ more) : (cur'.skip n).rest = kept := by
  unfold Cursor.skip at untouched ⊢
  rw [longer, List.drop_append] at untouched
  have lengths := congrArg List.length untouched
  rw [List.length_append, List.length_append, List.length_drop, List.length_drop] at lengths
  have same : more.drop (n - cur'.rest.length) = more := by
    rcases Nat.eq_zero_or_pos (n - cur'.rest.length) with within | beyond
    · rw [within, List.drop_zero]
    · have none : more = [] := List.length_eq_zero_iff.mp (by omega)
      rw [none, List.drop_nil]
  rw [same] at untouched
  exact List.append_cancel_right untouched

/-- The first character is no part of what is cut off. -/
theorem skip_one_of_append (longer : cur.rest = cur'.rest ++ more) (some : cur'.rest ≠ []) :
    (cur.skip 1).rest = (cur'.skip 1).rest ++ more := by
  unfold Cursor.skip
  rw [longer]
  exact List.drop_append_of_le_length (List.length_pos_iff.mpr some)

section Delimited

variable {close : Char} (taken : List Char) (place : Position)

theorem readDelimited_ends :
    readDelimited close taken place [close] =
      (some (String.ofList taken.reverse), ⟨[], place.next close⟩) := by
  rw [readDelimited.eq_def]
  simp only [if_true]

theorem readDelimited_twice (later : List Char) :
    readDelimited close taken place (close :: close :: later) =
      readDelimited close (close :: taken) ((place.next close).next close) later := by
  rw [readDelimited.eq_def]
  simp only [if_true]

theorem readDelimited_closes {d : Char} (other : ¬ d = close) (later : List Char) :
    readDelimited close taken place (close :: d :: later) =
      (some (String.ofList taken.reverse), ⟨d :: later, place.next close⟩) := by
  rw [readDelimited.eq_def]
  simp only [if_true, if_neg other]

theorem readDelimited_inside {c : Char} (other : ¬ c = close) (rest : List Char) :
    readDelimited close taken place (c :: rest) =
      readDelimited close (c :: taken) (place.next c) rest := by
  rw [readDelimited.eq_def]
  simp only [if_neg other]

end Delimited

/-- A delimited text ends with its delimiter. -/
theorem length_rest_readDelimited_lt {close : Char} {taken : List Char} {place : Position}
    {text : List Char} {found : String}
    (h : (readDelimited close taken place text).1 = some found) :
    (readDelimited close taken place text).2.rest.length < text.length := by
  obtain ⟨span, moved, read⟩ := exists_moves_readDelimited close taken place text
  obtain ⟨inside, -, rfl⟩ := read found h
  have lengths := congrArg List.length moved.text
  simp only [List.length_append, List.length_singleton] at lengths
  omega

theorem shortened_readDelimited {close : Char} (text taken : List Char) (place place' : Position)
    {found : String} (h : (readDelimited close taken place (text ++ more)).1 = some found) :
    Shortened more (readDelimited close taken place (text ++ more))
      (readDelimited close taken place' text) := by
  intro kept untouched
  fun_induction readDelimited close taken place' text generalizing place with
  | case1 taken place' =>
    have shorter := length_rest_readDelimited_lt h
    rw [untouched, List.length_append, List.nil_append] at shorter
    omega
  | case2 taken place' =>
    cases more with
    | nil =>
      rw [List.append_nil, readDelimited_ends] at untouched ⊢
      exact ⟨rfl, untouched.trans (List.append_nil kept)⟩
    | cons d later =>
      rw [List.singleton_append] at h untouched ⊢
      by_cases twice : d = close
      · subst twice
        rw [readDelimited_twice] at h untouched
        have shorter := length_rest_readDelimited_lt h
        rw [untouched, List.length_append, List.length_cons] at shorter
        omega
      · rw [readDelimited_closes taken place twice] at untouched ⊢
        exact ⟨rfl, (List.self_eq_append_left.mp untouched).symm⟩
  | case3 taken place' later ih =>
    rw [List.cons_append, List.cons_append, readDelimited_twice] at h untouched ⊢
    exact ih _ h untouched
  | case4 taken place' d later other =>
    rw [List.cons_append, List.cons_append, readDelimited_closes taken place other] at h untouched ⊢
    exact ⟨rfl, List.append_cancel_right untouched⟩
  | case5 taken place' c rest other ih =>
    rw [List.cons_append, readDelimited_inside taken place other] at h untouched ⊢
    exact ih _ h untouched

theorem shortened_readEnclosed {close : Char} {make : String → Token}
    {unterminated : Position → ScanError} (longer : cur.rest = cur'.rest ++ more)
    (some : cur'.rest ≠ []) {t : Token} (h : (readEnclosed cur close make unterminated).1 = .ok t) :
    Shortened more (readEnclosed cur close make unterminated)
      (readEnclosed cur' close make unterminated) := by
  intro kept untouched
  have inside := skip_one_of_append longer some
  unfold readEnclosed at h untouched ⊢
  simp only at h untouched ⊢
  cases read : readDelimited close [] (cur.skip 1).place (cur.skip 1).rest with
  | mk text after =>
    rw [read] at h untouched
    cases text with
    | none => cases h
    | some text =>
      rw [inside] at read
      have shortened := shortened_readDelimited (cur'.skip 1).rest [] (cur.skip 1).place
        (cur'.skip 1).place (congrArg Prod.fst read)
      rw [read] at shortened
      obtain ⟨same, left⟩ := shortened kept untouched
      cases read' : readDelimited close [] (cur'.skip 1).place (cur'.skip 1).rest with
      | mk text' after' =>
        rw [read'] at same left
        cases same
        exact ⟨h.symm ▸ rfl, left⟩

theorem shortened_readFraction (longer : cur.rest = cur'.rest ++ more) :
    Shortened more (readFraction cur) (readFraction cur') := by
  intro kept untouched
  have moved := (moves_readFraction cur).1.text
  rw [longer, untouched, ← List.append_assoc] at moved
  have taken := List.append_cancel_right moved
  rw [readFraction.eq_def cur']
  split
  · rename_i d rest found
    have front : cur.rest = '.' :: d :: (rest ++ more) := by
      rw [longer, found, List.cons_append, List.cons_append]
    unfold readFraction at untouched ⊢
    simp only [front] at untouched ⊢
    by_cases digit : d.isDigit = true
    · simp only [if_pos digit] at untouched ⊢
      refine shortened_span Char.isDigit ?_ kept untouched
      exact skip_one_of_append longer (by simp [found])
    · simp only [if_neg digit] at untouched ⊢
      rw [longer] at untouched
      exact ⟨trivial, List.append_cancel_right untouched⟩
  · rename_i other
    have none : (readFraction cur).1 = [] := by
      by_contra some
      obtain ⟨d, digits, front⟩ := List.exists_cons_of_ne_nil some
      rw [if_neg some, front] at taken
      exact other d (digits ++ kept) taken
    rw [if_pos none] at taken
    exact ⟨none.symm, taken⟩

/-- How an exponent begins is told by what it begins with. -/
theorem exponentAt?_of_append (text more : List Char)
    (within : ∀ negative width, exponentAt? (text ++ more) = some (negative, width) →
      width < text.length) : exponentAt? text = exponentAt? (text ++ more) := by
  match text with
  | [] | [_] =>
    cases found : exponentAt? (_ ++ more) with
    | none => rfl
    | some start =>
      have short := within start.1 start.2 found
      obtain ⟨_, _, _, _, _, width, -⟩ := exists_of_exponentAt? found
      rw [width] at short
      simp only [List.length_cons, List.length_nil] at short
      omega
  | [letter, c] =>
    simp only [List.cons_append, List.nil_append, exponentAt?] at within ⊢
    by_cases known : letter = 'e' ∨ letter = 'E'
    · simp only [if_pos known] at within ⊢
      by_cases digit : c.isDigit = true
      · simp only [if_pos digit]
      · simp only [if_neg digit] at within ⊢
        by_cases signed : (c = '+' ∨ c = '-') ∧ more.head?.any Char.isDigit = true
        · have short := within _ _ (if_pos signed)
          exact absurd short (Nat.lt_irrefl 2)
        · rw [if_neg signed]
          simp
    · simp only [if_neg known]
  | _ :: _ :: _ :: _ => rfl

theorem readExponent_of_none (h : exponentAt? cur.rest = none) :
    readExponent cur = (none, cur) := by
  unfold readExponent
  rw [h]
  cases cur.rest <;> rfl

theorem readExponent_of_some {letter : Char} {text : List Char} {negative : Bool} {width : Nat}
    (front : cur.rest = letter :: text) (h : exponentAt? cur.rest = some (negative, width)) :
    readExponent cur = (some ⟨letter, negative, ((cur.skip width).span Char.isDigit).1⟩,
      ((cur.skip width).span Char.isDigit).2) := by
  unfold readExponent
  rw [h, front]

theorem shortened_readExponent (longer : cur.rest = cur'.rest ++ more) :
    Shortened more (readExponent cur) (readExponent cur') := by
  intro kept untouched
  cases found : exponentAt? cur.rest with
  | none =>
    have none : exponentAt? cur'.rest = none := by
      rw [exponentAt?_of_append cur'.rest more, ← longer, found]
      intro negative width h
      rw [← longer, found] at h
      cases h
    rw [readExponent_of_none found, longer] at untouched
    rw [readExponent_of_none found, readExponent_of_none none]
    exact ⟨rfl, List.append_cancel_right untouched⟩
  | some start =>
    obtain ⟨negative, width⟩ := start
    obtain ⟨letter, sign, d, rest, text, rfl, -, digit, -⟩ := exists_of_exponentAt? found
    have behind : (cur.skip (sign.length + 1)).rest = d :: rest := by simp [Cursor.skip, text]
    have taken : cur.rest.take (sign.length + 1) = letter :: sign := by simp [text]
    rw [readExponent_of_some text found] at untouched
    -- The digits are taken in front of what is cut off.
    have moved := ((cur.moves_skip (sign.length + 1)).trans
      ((cur.skip (sign.length + 1)).moves_span Char.isDigit)).text
    rw [untouched, taken, longer, ← List.append_assoc] at moved
    have whole := List.append_cancel_right moved
    have pos := List.length_pos_iff.mpr (Cursor.span_ne_nil behind digit)
    have begins : exponentAt? cur'.rest = some (negative, sign.length + 1) := by
      rw [exponentAt?_of_append cur'.rest more, ← longer, found]
      intro negative' width h
      rw [← longer, found] at h
      cases h
      rw [whole]
      simp only [List.length_append, List.length_cons]
      omega
    have front : cur'.rest = letter :: (sign ++ ((cur.skip (sign.length + 1)).span
        Char.isDigit).1 ++ kept) := whole
    rw [readExponent_of_some text found, readExponent_of_some front begins]
    have skipped : (cur.skip (sign.length + 1)).rest =
        (cur'.skip (sign.length + 1)).rest ++ more := by
      unfold Cursor.skip
      rw [longer]
      apply List.drop_append_of_le_length
      rw [whole]
      simp only [List.length_append, List.length_cons]
      omega
    obtain ⟨digits, left⟩ := shortened_span Char.isDigit skipped kept untouched
    exact ⟨by simp only [digits], left⟩

theorem shortened_readNumber (longer : cur.rest = cur'.rest ++ more) {t : Token}
    (h : (readNumber cur).1 = .ok t) : Shortened more (readNumber cur) (readNumber cur') := by
  intro kept untouched
  have untouched' : (readExponent (readFraction (cur.span Char.isDigit).2).2).2.rest =
      kept ++ more := by
    unfold readNumber at untouched
    simp only at untouched
    split at untouched <;> exact untouched
  obtain ⟨exponent, moved, -⟩ := moves_readExponent (readFraction (cur.span Char.isDigit).2).2
  have behindFraction := moved.text
  rw [untouched', ← List.append_assoc] at behindFraction
  have behindWhole := (moves_readFraction (cur.span Char.isDigit).2).1.text
  rw [behindFraction, ← List.append_assoc] at behindWhole
  obtain ⟨whole, left⟩ := shortened_span Char.isDigit longer _ behindWhole
  rw [← left] at behindWhole
  obtain ⟨fraction, left⟩ := shortened_readFraction behindWhole _ behindFraction
  rw [← left] at behindFraction
  obtain ⟨exponent, left⟩ := shortened_readExponent behindFraction _ untouched'
  unfold readNumber at h ⊢
  simp only [whole, fraction, exponent]
  cases literal : Numeral.value? ⟨(cur.span Char.isDigit).1,
      (readFraction (cur.span Char.isDigit).2).1,
      (readExponent (readFraction (cur.span Char.isDigit).2).2).1⟩ with
  | some value => exact ⟨rfl, left⟩
  | none =>
    simp only [literal] at h
    cases h

theorem shortened_readWord (longer : cur.rest = cur'.rest ++ more) :
    Shortened more (readWord cur) (readWord cur') := by
  intro kept untouched
  have untouched' : (cur.span isNamePart).2.rest = kept ++ more := by
    unfold readWord at untouched
    simp only at untouched
    split at untouched <;> exact untouched
  obtain ⟨letters, left⟩ := shortened_span isNamePart longer _ untouched'
  unfold readWord
  simp only [letters]
  split <;> exact ⟨rfl, left⟩

/-- A part of a key does not end with the character that it begins with. -/
theorem length_rest_readKey_lt_skip {t : Token} (h : (readKey cur).1 = .ok t) :
    (readKey cur).2.rest.length < (cur.skip 1).rest.length := by
  unfold readKey at h ⊢
  simp only at h ⊢
  cases front : (cur.skip 1).rest with
  | nil =>
    rw [front] at h
    cases h
  | cons c rest =>
    rw [front] at h
    simp only at h ⊢
    rw [← front]
    split
    · exact length_rest_readEnclosed_lt _ _ _ _ (by simp [front])
    · rename_i bracket
      rw [if_neg bracket] at h
      split
      · rename_i starts
        exact Cursor.length_rest_span_lt front (isNamePart_of_isNameStart starts)
      · rename_i other
        rw [if_neg other] at h
        cases h

theorem shortened_readKey (longer : cur.rest = cur'.rest ++ more) (some : cur'.rest ≠ [])
    {t : Token} (h : (readKey cur).1 = .ok t) : Shortened more (readKey cur) (readKey cur') := by
  intro kept untouched
  have inside := skip_one_of_append longer some
  have some' : (cur'.skip 1).rest ≠ [] := by
    intro none
    have shorter := length_rest_readKey_lt_skip h
    rw [untouched, inside, none, List.length_append, List.nil_append] at shorter
    omega
  obtain ⟨c, rest, front⟩ := List.exists_cons_of_ne_nil some'
  rw [front, List.cons_append] at inside
  unfold readKey at h untouched ⊢
  simp only [inside, front] at h untouched ⊢
  by_cases bracket : c = '['
  · simp only [if_pos bracket] at h untouched ⊢
    exact shortened_readEnclosed (skip_one_of_append longer some) some' h kept untouched
  simp only [if_neg bracket] at h untouched ⊢
  by_cases starts : isNameStart c = true
  · simp only [if_pos starts] at untouched ⊢
    obtain ⟨letters, left⟩ :=
      shortened_span isNamePart (skip_one_of_append longer some) kept untouched
    exact ⟨by simp only [letters], left⟩
  · simp only [if_neg starts] at h
    cases h

/-- What is no symbol is read by its first character. -/
theorem shortened_readToken_of_no_symbol {c : Char} {rest : List Char}
    (front : cur'.rest = c :: rest) (longer : cur.rest = cur'.rest ++ more)
    (noSymbol : symbolAt? cur.rest = none) (noSymbol' : symbolAt? cur'.rest = none) {t : Token}
    (h : (readToken cur).1 = .ok t) : Shortened more (readToken cur) (readToken cur') := by
  have some : cur'.rest ≠ [] := by
    rw [front]
    exact List.cons_ne_nil c rest
  have front' : cur.rest = c :: (rest ++ more) := by rw [longer, front, List.cons_append]
  unfold readToken at h ⊢
  simp only [front, front'] at noSymbol noSymbol' h ⊢
  simp only [noSymbol, noSymbol'] at h ⊢
  by_cases bracket : c = '['
  · simp only [if_pos bracket] at h ⊢
    exact shortened_readEnclosed longer some h
  simp only [if_neg bracket] at h ⊢
  by_cases ampersand : c = '&'
  · simp only [if_pos ampersand] at h ⊢
    exact shortened_readKey longer some h
  simp only [if_neg ampersand] at h ⊢
  by_cases double : c = '"'
  · simp only [if_pos double] at h ⊢
    exact shortened_readEnclosed longer some h
  simp only [if_neg double] at h ⊢
  by_cases single : c = '\x27'
  · simp only [if_pos single] at h ⊢
    exact shortened_readEnclosed longer some h
  simp only [if_neg single] at h ⊢
  by_cases digit : c.isDigit = true
  · simp only [if_pos digit] at h ⊢
    exact shortened_readNumber longer h
  simp only [if_neg digit] at h ⊢
  by_cases starts : isNameStart c = true
  · simp only [if_pos starts] at h ⊢
    intro kept untouched
    obtain ⟨word, left⟩ := shortened_readWord longer kept untouched
    exact ⟨congrArg Except.ok word, left⟩
  · simp only [if_neg starts] at h
    cases h

/-- A symbol that ends in front of what is cut off is the symbol of what is left. -/
theorem symbolAt?_of_append {c : Char} {rest : List Char}
    (within : ∀ s, symbolAt? (c :: (rest ++ more)) = some s → s.width ≤ rest.length + 1) :
    symbolAt? (c :: rest) = symbolAt? (c :: (rest ++ more)) := by
  cases rest with
  | nil =>
    have single (first second : Char) (s : Symbol)
        (pair : ∀ later, symbolAt? (first :: second :: later) = some s) (wide : s.width = 2)
        (later : List Char) (same : c = first) : more ≠ second :: later := by
      rintro rfl
      subst same
      have short := within s (pair later)
      rw [wide, List.length_nil] at short
      omega
    refine (symbolAt?_of_no_pair ?_ ?_ ?_ ?_).symm
    · exact single '|' '|' .concat (fun _ => rfl) rfl
    · exact single '<' '>' .notEqual (fun _ => rfl) rfl
    · exact single '<' '=' .lessEqual (fun _ => rfl) rfl
    · exact single '>' '=' .greaterEqual (fun _ => rfl) rfl
  | cons d rest => exact symbolAt?_congr c d rest (rest ++ more)

/-- **A token is taken off a shorter text in the same way**, if it ends there. -/
theorem shortened_readToken {c : Char} {rest : List Char} (front : cur'.rest = c :: rest)
    (longer : cur.rest = cur'.rest ++ more) {t : Token} (h : (readToken cur).1 = .ok t) :
    Shortened more (readToken cur) (readToken cur') := by
  intro kept untouched
  have same : symbolAt? cur'.rest = symbolAt? cur.rest := by
    rw [longer, front, List.cons_append]
    apply symbolAt?_of_append
    intro s symbol
    rw [← List.cons_append, ← front, ← longer] at symbol
    rw [readToken_of_symbol symbol] at untouched
    have taken := congrArg List.length (take_of_symbolAt? symbol)
    have moved := congrArg List.length (cur.moves_skip s.width).text
    simp only at untouched
    rw [untouched, take_of_symbolAt? symbol, longer, front] at moved
    simp only [List.length_append, List.length_cons, length_spelling] at moved
    omega
  cases symbol : symbolAt? cur.rest with
  | some s =>
    rw [readToken_of_symbol symbol] at untouched
    rw [readToken_of_symbol symbol, readToken_of_symbol (same.trans symbol)]
    exact ⟨rfl, skip_of_append longer untouched⟩
  | none =>
    exact shortened_readToken_of_no_symbol front longer symbol (same.trans symbol) h kept untouched

end Shortened

/-! ### Scanners -/

namespace Scanner

variable {s s' : Scanner} {more : List Char}

/-- A scanner in front of a gap stands as good as behind it. -/
theorem next_of_isGap {gap rest : List Char} (h : IsGap False gap)
    (front : s.cursor.rest = gap ++ rest) :
    s.next = (⟨⟨rest, s.cursor.place.past gap⟩, s.mark⟩ : Scanner).next := by
  unfold next
  rw [front, skipGap_of_isGap h]

/-- **A scanner of a shorter text answers the same** if the token ends in front of what is cut
off. -/
theorem next_of_append (longer : s.cursor.rest = s'.cursor.rest ++ more) {t : Token}
    (h : s.next.1 = .ok t) (inner : t ≠ .endOfText) {kept : List Char}
    (untouched : s.next.2.cursor.rest = kept ++ more) :
    s'.next.1 = .ok t ∧ s'.next.2.cursor.rest = kept := by
  obtain ⟨found, skipped⟩ := exists_skipGap_of_next h
  rw [next_of_skipGap skipped] at h untouched
  obtain ⟨gap, moved, filled, -⟩ := skips_skipGap .space s.cursor.place s.cursor.rest
  rw [skipped] at moved filled
  cases front : found.rest with
  | nil =>
    rw [Cursor.eq_of_rest front] at h
    exact absurd (Except.ok.inj h).symm inner
  | cons c rest =>
    obtain ⟨span, taken, token, -⟩ := takes_readToken front
    obtain ⟨-, some⟩ := token t h
    have clear : IsGap False gap := (filled rfl).mono fun none => by simp [front] at none
    -- Gap and token stand in the shorter text, and only then comes what is cut off.
    have behind : found.rest = span ++ kept ++ more := by
      rw [taken.text, untouched, List.append_assoc]
    have front' : s'.cursor.rest = gap ++ (span ++ kept) := by
      have whole := moved.text
      rw [longer, behind, ← List.append_assoc] at whole
      exact List.append_cancel_right whole
    have some' : span ++ kept ≠ [] := by simp [some]
    have solid := skipGap_rest_of_skipGap skipped (s'.cursor.place.past gap)
    rw [behind] at solid
    have skipped' : skipGap .space s'.cursor.place s'.cursor.rest =
        (none, ⟨span ++ kept, s'.cursor.place.past gap⟩) := by
      rw [front', skipGap_of_isGap clear]
      exact skipGap_of_append some' solid
    rw [next_of_skipGap skipped']
    obtain ⟨c', rest', front⟩ := List.exists_cons_of_ne_nil some'
    have shortened : Shortened more (readToken found)
        (readToken ⟨span ++ kept, s'.cursor.place.past gap⟩) := shortened_readToken front behind h
    obtain ⟨same, left⟩ := shortened kept untouched
    exact ⟨same.trans h, left⟩

/-- A token is marked where the gap in front of it ends. -/
theorem exists_isGap_of_next {t : Token} (h : s.next.1 = .ok t) (inner : t ≠ .endOfText) :
    ∃ gap rest, s.cursor.rest = gap ++ rest ∧ IsGap False gap ∧
      s.next.2.mark = s.cursor.place.past gap := by
  have step := s.step_next
  rw [h] at step
  generalize s.next.2 = after at step ⊢
  cases step with
  | ended => exact absurd rfl inner
  | token moved clear => exact ⟨_, _, moved.text, clear, moved.place⟩

end Scanner

/-! ### All tokens -/

/-- **A gap in front of a token leaves the tokens as they are**, if it begins with white space. -/
theorem Scans.exists_insert {s s' : Scanner} {tokens : List Located} (h : Scans s tokens)
    {next : Located} (known : next ∈ tokens) (inner : next.token ≠ .endOfText)
    {before behind gap : List Char} (text : s.cursor.rest = before ++ behind)
    (here : next.place.offset = s.cursor.place.offset + before.length) (filled : IsGap False gap)
    (blanked : Blanked (gap ++ behind)) (text' : s'.cursor.rest = before ++ (gap ++ behind)) :
    ∃ tokens', Scans s' tokens' ∧ tokens'.map Located.token = tokens.map Located.token := by
  induction h generalizing s' before with
  | ended =>
    rw [List.mem_singleton.mp known] at inner
    exact absurd rfl inner
  | @token s t later answer inner' scanned ih =>
    rcases List.mem_cons.mp known with rfl | known
    · -- The token comes next: a gap stands in front of it, and now two of them do.
      obtain ⟨first, rest, parts, clear, mark⟩ := Scanner.exists_isGap_of_next answer inner'
      have lengths : first.length = before.length := by
        simp only [mark, Position.offset_past] at here
        omega
      rw [parts] at text
      obtain ⟨rfl, rfl⟩ := List.append_inj text lengths
      have scans := (Scans.token answer inner' scanned).congr_next
        (Scanner.next_of_isGap clear parts).symm
      obtain ⟨behind', front, next⟩ : ∃ behind' : Scanner, behind'.cursor.rest = rest ∧
          s'.next = behind'.next := by
        refine ⟨⟨⟨rest, (s'.cursor.place.past first).past gap⟩, s'.mark⟩, rfl, ?_⟩
        rw [Scanner.next_of_isGap clear text']
        exact Scanner.next_of_isGap filled rfl
      obtain ⟨tokens', scanned', same⟩ := scans.exists_of_rest_eq front
      exact ⟨tokens', scanned'.congr_next next, same⟩
    · -- It comes later, so all that is taken now stands in front of the gap.
      obtain ⟨taken, moved⟩ := s.step_next.exists_moves
      have ahead := scanned.covers.offset_le known
      rw [moved.place, Position.offset_past, here] at ahead
      have part : taken <+: before :=
        List.prefix_of_prefix_length_le ⟨_, moved.text.symm⟩ ⟨behind, text.symm⟩
          (Nat.le_of_add_le_add_left ahead)
      obtain ⟨kept, rfl⟩ := part
      have rest : s.next.2.cursor.rest = kept ++ behind := by
        have parts := moved.text
        rw [text, List.append_assoc] at parts
        exact (List.append_cancel_left parts).symm
      -- The token is taken off what stands in front of the gap, and therefore off the longer text.
      obtain ⟨short, front⟩ : ∃ short : Scanner, short.cursor.rest = taken ++ kept :=
        ⟨⟨⟨taken ++ kept, s.cursor.place⟩, s.mark⟩, rfl⟩
      rw [← front] at text text'
      obtain ⟨alone, left⟩ := Scanner.next_of_append text answer inner' rest
      obtain ⟨answer', left'⟩ := Scanner.next_append blanked text' alone
        fun ended => absurd ended inner'
      rw [left] at left'
      have here' : next.place.offset = s.next.2.cursor.place.offset + kept.length := by
        rw [here, moved.place, Position.offset_past, List.length_append, Nat.add_assoc]
      obtain ⟨tokens', scanned', same⟩ := ih known rest here' left'
      exact ⟨_, .token answer' inner' scanned', congrArg (t :: ·) same⟩

/-- A text with something put in behind its first characters. -/
def inserted (text : String) (offset : Nat) (more : List Char) : String :=
  String.ofList (text.toList.take offset ++ (more ++ text.toList.drop offset))

/-- **What stands between tokens does not matter.**  A text keeps its tokens if white space, and
behind it more white space and comments, is put in front of any of them. -/
theorem tokensOf_inserted {text : String} {tokens : List Located}
    (scanned : tokensOf text = .ok tokens) {next : Located} (known : next ∈ tokens)
    (inner : next.token ≠ .endOfText) {c : Char} {gap : List Char} (blank : isBlank c = true)
    (filled : IsGap False (c :: gap)) :
    ∃ tokens', tokensOf (inserted text next.place.offset (c :: gap)) = .ok tokens' ∧
      tokens'.map Located.token = tokens.map Located.token := by
  have scans := scans_of_tokensOf scanned
  have within := scans.covers.offset_le_past known
  rw [Position.offset_past] at within
  have here : next.place.offset =
      (Scanner.ofText text).cursor.place.offset + (text.toList.take next.place.offset).length := by
    rw [List.length_take]
    simp only [Scanner.ofText, Position.start] at within ⊢
    omega
  have text' : (Scanner.ofText (inserted text next.place.offset (c :: gap))).cursor.rest =
      text.toList.take next.place.offset ++ (c :: gap ++ text.toList.drop next.place.offset) :=
    String.toList_ofList
  obtain ⟨tokens', scanned', same⟩ := scans.exists_insert known inner
    (List.take_append_drop next.place.offset text.toList).symm here filled (blanked_cons blank _)
    text'
  exact ⟨tokens', tokensOf_of_scans scanned', same⟩

/-- The point and the letter behind a number stay apart from it, whatever the comments look like. -/
theorem tokensOf_inserted_point :
    (tokensOf "1.e" = .ok [⟨.number ⟨1, 0, by decide, by decide⟩, ⟨0, 1, 1⟩⟩,
        ⟨.symbol .dot, ⟨1, 1, 2⟩⟩, ⟨.word "e", ⟨2, 1, 3⟩⟩, ⟨.endOfText, ⟨3, 1, 4⟩⟩] ∧
      IsGap False [' ', '-', '-', '5', '\n', '/', '*', '/', '*', '/']) ∧
    ∃ tokens, tokensOf "1 --5\n/*/*/.e" = .ok tokens ∧ tokens.map Located.token =
      [.number ⟨1, 0, by decide, by decide⟩, .symbol .dot, .word "e", .endOfText] := by
  have scanned : tokensOf "1.e" = .ok [⟨.number ⟨1, 0, by decide, by decide⟩, ⟨0, 1, 1⟩⟩,
      ⟨.symbol .dot, ⟨1, 1, 2⟩⟩, ⟨.word "e", ⟨2, 1, 3⟩⟩, ⟨.endOfText, ⟨3, 1, 4⟩⟩] := by
    decide +kernel
  have filled : IsGap False [' ', '-', '-', '5', '\n', '/', '*', '/', '*', '/'] :=
    .blank (by decide) (@IsGap.line _ ['-', '-'] ['5'] _ (by decide) (by decide)
      (@IsGap.block _ ['/'] _ (by decide) .nil))
  have whole : inserted "1.e" 1 [' ', '-', '-', '5', '\n', '/', '*', '/', '*', '/'] =
      "1 --5\n/*/*/.e" := by
    decide +kernel
  have inside := tokensOf_inserted scanned (.tail _ (.head _)) nofun (by decide) filled
  rw [whole] at inside
  exact ⟨⟨scanned, filled⟩, inside⟩

end MdxReader
