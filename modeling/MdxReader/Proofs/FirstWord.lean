import MdxReader.Check
import MdxReader.Proofs.Respelling
import MdxReader.Proofs.Spans

/-!
# The first word of a text

A check that is not told what a text is looks at its first word, by a rule of its own: it knows
neither tokens nor comments, and where a word ends it has other characters in mind.  Here the rule
is compared with scanning and parsing.

* A statement begins with one of four keywords (`Grammar.isOpening_of_statement`).  Without a comment
  in front of it the rule sees that keyword (`looksLikeStatement_of_opening`): where the characters
  of words and names differ, a text cannot be scanned.
* What the rule sees at the front of a text it sees in the first token as well
  (`looksLikeStatement_first`).
-/

namespace MdxReader

open Text

/-! ### White space in front -/

/-- A comment is opened here. -/
def opensComment : List Char → Bool
  | c :: d :: _ => (c == '/' && (d == '/' || d == '*')) || (c == '-' && d == '-')
  | _ => false

/-- A gap without comments is white space. -/
theorem skipGap_of_not_opensComment {text : List Char} (place : Position)
    (plain : opensComment (text.dropWhile isBlank) = false) :
    skipGap .space place text =
      (none, ⟨text.dropWhile isBlank, place.past (text.takeWhile isBlank)⟩) := by
  induction text generalizing place with
  | nil => rfl
  | cons c rest ih =>
    rw [skipGap.eq_def]
    simp only
    by_cases blank : isBlank c = true
    · rw [List.dropWhile_cons_of_pos blank] at plain
      rw [if_pos blank, ih _ plain, List.dropWhile_cons_of_pos blank,
        List.takeWhile_cons_of_pos blank, Position.past_cons]
    · rw [List.dropWhile_cons_of_neg blank] at plain
      rw [if_neg blank, List.dropWhile_cons_of_neg blank, List.takeWhile_cons_of_neg blank]
      cases rest with
      | nil => rfl
      | cons d later =>
        simp only [opensComment, Bool.or_eq_false_iff, Bool.and_eq_false_iff,
          beq_eq_false_iff_ne] at plain
        simp only
        rw [if_neg (by grind), if_neg (by grind)]
        rfl

/-- Without a comment in front, the first token begins behind the white space. -/
theorem exists_next_ofText {text : String}
    (plain : opensComment (text.toList.dropWhile isBlank) = false) :
    ∃ place, (Scanner.ofText text).next.1 =
        (readToken ⟨text.toList.dropWhile isBlank, place⟩).1 ∧
      (Scanner.ofText text).next.2.cursor =
        (readToken ⟨text.toList.dropWhile isBlank, place⟩).2 := by
  refine ⟨Position.start.past (text.toList.takeWhile isBlank), ?_⟩
  unfold Scanner.next Scanner.ofText
  simp only [skipGap_of_not_opensComment .start plain, and_self]

/-! ### Characters of words -/

theorem isBlank_of_isWordPart {c : Char} (word : isWordPart c = true) : isBlank c = false := by
  rw [Bool.eq_false_iff]
  intro blank
  have mark : covers markTable c.toNat = false := not_covers_of_apart (by decide +kernel) blank
  have digit : isDecimalDigit c = false := not_covers_of_apart (by decide +kernel) blank
  have connector : covers connectorTable c.toNat = false := not_covers_of_apart (by decide) blank
  unfold isWordPart at word
  simp only [isAlphabetic_of_isBlank blank, mark, digit, connector, Bool.false_or,
    Bool.or_eq_true, beq_iff_eq] at word
  unfold isBlank at blank
  obtain joiner | joiner := word <;> rw [joiner] at blank <;> exact absurd blank (by decide)

theorem isNamePart_of_isDigit {c : Char} (digit : c.isDigit = true) : isNamePart c = true := by
  have found : isDecimalDigit c = true := covers_of_isDigit digit _
  simp [isNamePart, isAlphanumeric, found]

/-- A text that begins with none of the two marks opens no comment. -/
theorem not_opensComment {c : Char} (special : c ∉ delimiters) (rest : List Char) :
    opensComment (c :: rest) = false := by
  have slash : c ≠ '/' := by
    rintro rfl
    exact special (by decide)
  have minus : c ≠ '-' := by
    rintro rfl
    exact special (by decide)
  cases rest <;> simp [opensComment, slash, minus]

/-! ### Words at the front -/

/-- What starts like a name is read as a word, up to the first character of another kind. -/
theorem readToken_name {c : Char} (starts : isNameStart c = true) (rest : List Char)
    (place : Position) :
    (readToken ⟨c :: rest, place⟩).1 =
        .ok (.ofWord (String.ofList ((c :: rest).takeWhile isNamePart))) ∧
      (readToken ⟨c :: rest, place⟩).2.rest = (c :: rest).dropWhile isNamePart := by
  rw [readToken_of_isNameStart starts]
  unfold readWord Token.ofWord Cursor.span
  simp only
  generalize (c :: rest).takeWhile isNamePart = letters, (c :: rest).dropWhile isNamePart = left
  cases Keyword.ofWord? (String.ofList letters) <;> exact ⟨rfl, rfl⟩

theorem keyword_of_ofWord {word spelling : String} {k : Keyword}
    (h : Token.ofWord word = .keyword k spelling) : Keyword.ofWord? word = some k := by
  unfold Token.ofWord at h
  split at h
  · rename_i spelled
    cases h
    exact spelled
  · cases h

theorem text_ofWord (word : String) : (Token.ofWord word).text = word := by
  unfold Token.ofWord
  split <;> rfl

/-- A keyword is read only where the text starts like a name. -/
theorem exists_start_of_keyword {cur : Cursor} {k : Keyword} {spelling : String}
    (h : (readToken cur).1 = .ok (.keyword k spelling)) :
    ∃ c rest, cur.rest = c :: rest ∧ isNameStart c = true := by
  cases found : cur.rest with
  | nil =>
    unfold readToken at h
    rw [found] at h
    cases h
  | cons c rest =>
    obtain ⟨span, moved, taken, -⟩ := takes_readToken found
    have spelled : span = spelling.toList := (taken _ h).1
    obtain ⟨word, -⟩ := sound_readToken h
    obtain ⟨d, more, letters, starts, -⟩ := exists_of_isWord word
    have text := moved.text
    rw [found, spelled, letters] at text
    obtain ⟨rfl, -⟩ := List.cons.inj text
    exact ⟨c, rest, rfl, starts⟩

/-- A character that belongs to words of running text and to no name cannot be scanned. -/
theorem exists_error_of_isWordPart {s : Scanner} {c : Char} {more : List Char}
    (rest : s.cursor.rest = c :: more) (word : isWordPart c = true)
    (other : isNamePart c = false) : ∃ e, s.next.1 = .error e := by
  have special : c ∉ delimiters := not_mem_delimiters (by decide) word
  have solid : isBlank c = false := isBlank_of_isWordPart word
  have digit : c.isDigit = false := by
    rw [Bool.eq_false_iff]
    intro digit
    rw [isNamePart_of_isDigit digit] at other
    cases other
  have starts : isNameStart c = false := by
    rw [Bool.eq_false_iff]
    intro starts
    rw [isNamePart_of_isNameStart starts] at other
    cases other
  have here : s.cursor.rest.dropWhile isBlank = c :: more := by
    rw [rest, List.dropWhile_cons_of_neg (by rw [solid]; nofun)]
  have plain : opensComment (s.cursor.rest.dropWhile isBlank) = false := by
    rw [here]
    exact not_opensComment special more
  unfold Scanner.next
  rw [skipGap_of_not_opensComment _ plain, here]
  simp only
  rw [readToken_of_no_symbol _ (symbolAt?_eq_none special more)]
  simp only [delimiters, List.mem_cons, not_or] at special
  simp only [special, if_false, digit, starts, Bool.false_eq_true]
  exact ⟨_, rfl⟩

/-! ### The rule -/

/-- A letter that is a capital of ASCII up to case can start a name. -/
theorem isNameStart_of_isLetter {capital c : Char} (upper : capital.isUpper = true)
    (letter : isLetter capital c = true) : isNameStart c = true := by
  unfold isLetter at letter
  simp only [Bool.or_eq_true, Bool.and_eq_true, beq_iff_eq] at letter
  obtain rfl | ⟨-, rfl⟩ := letter
  · exact isNameStart_of_isAlpha (isAlpha_of_isUpper_toUpper upper)
  · decide

/-- A word is found where the capitals of a text spell it. -/
theorem afterWord?_append (letters rest : List Char) :
    afterWord? (letters.map Char.toUpper) (letters ++ rest) = some rest := by
  induction letters with
  | nil => rfl
  | cons c letters ih =>
    have same : isLetter c.toUpper c = true := by simp [isLetter]
    rw [List.map_cons, List.cons_append, afterWord?, if_pos same, ih]

/-- Where a word is found it is found in the name there as well. -/
theorem afterWord?_takeWhile {word text rest : List Char}
    (upper : ∀ c ∈ word, c.isUpper = true) (h : afterWord? word text = some rest) :
    afterWord? word (text.takeWhile isNamePart) = some (rest.takeWhile isNamePart) := by
  induction word generalizing text with
  | nil =>
    rw [afterWord?] at h ⊢
    rw [Option.some.inj h]
  | cons capital word ih =>
    cases text with
    | nil => cases h
    | cons c text =>
      obtain ⟨first, others⟩ := List.forall_mem_cons.mp upper
      rw [afterWord?] at h
      split at h
      · rename_i letter
        have part := isNamePart_of_isNameStart (isNameStart_of_isLetter first letter)
        rw [List.takeWhile_cons_of_pos part, afterWord?, if_pos letter]
        exact ih others h
      · cases h

/-- The keywords that begin a statement. -/
def openings : List Keyword := [.WITH, .SELECT, .DRILLTHROUGH, .EXPLAIN]

theorem looksLikeStatement_eq (text : String) : looksLikeStatement text =
    openings.any fun k => beginsWith (text.toList.dropWhile isBlank) k.spelling := rfl

/-- The rule sees a word at the front of a name as it sees it in front of the whole text. -/
theorem beginsWith_takeWhile {text : List Char} {word : String}
    (upper : ∀ c ∈ word.toList, c.isUpper = true) (h : beginsWith text word = true) :
    beginsWith (text.takeWhile isNamePart) word = true := by
  unfold beginsWith at h ⊢
  cases found : afterWord? word.toList text with
  | none =>
    rw [found] at h
    cases h
  | some rest =>
    rw [found] at h
    rw [afterWord?_takeWhile upper found]
    cases rest with
    | nil => rfl
    | cons c more =>
      by_cases part : isNamePart c = true
      · rw [List.takeWhile_cons_of_pos part]
        exact h
      · rw [List.takeWhile_cons_of_neg part]

/-- A keyword is seen only where the text starts like a name. -/
theorem exists_start_of_beginsWith {text : List Char} {k : Keyword}
    (h : beginsWith text k.spelling = true) :
    ∃ c rest, text = c :: rest ∧ isNameStart c = true := by
  obtain ⟨some, upper⟩ := isUpper_of_mem_spelling k
  obtain ⟨capital, word, spelled⟩ := List.exists_cons_of_ne_nil some
  unfold beginsWith at h
  rw [spelled] at h upper
  cases text with
  | nil => cases h
  | cons c rest =>
    rw [afterWord?] at h
    by_cases letter : isLetter capital c = true
    · exact ⟨c, rest, rfl, isNameStart_of_isLetter (upper _ List.mem_cons_self) letter⟩
    · rw [if_neg letter] at h
      cases h

/-! ### The first token -/

section FirstToken

variable {text : String} {first : Located} {later : List Located}

/-- **The rule sees an opening keyword** unless a comment stands in front of it. -/
theorem looksLikeStatement_of_opening (scanned : tokensOf text = .ok (first :: later))
    (plain : opensComment (text.toList.dropWhile isBlank) = false) {k : Keyword}
    (mem : k ∈ openings) (opening : first.token.isKeyword k = true) :
    looksLikeStatement text = true := by
  obtain ⟨place, answer, left⟩ := exists_next_ofText plain
  obtain ⟨spelling, keyword⟩ := Token.isKeyword_iff.mp opening
  have scans := scans_of_tokensOf scanned
  generalize Scanner.ofText text = s at answer left scans
  cases scans with
  | ended => cases keyword
  | token found inner others =>
    simp only at keyword
    rw [found, keyword] at answer
    obtain ⟨c, rest, start, starts⟩ := exists_start_of_keyword answer.symm
    simp only at start
    rw [start] at answer left
    obtain ⟨word, behind⟩ := readToken_name starts rest place
    rw [← left] at behind
    -- The keyword is the name at the front, in capitals.
    have spelled := keyword_of_ofWord (Except.ok.inj (answer.trans word)).symm
    have capitals := congrArg String.toList (upperCase_of_ofWord spelled)
    rw [upperCase, String.toList_ofList, String.toList_ofList] at capitals
    have whole : (c :: rest).takeWhile isNamePart ++ s.next.2.cursor.rest = c :: rest := by
      rw [behind, List.takeWhile_append_dropWhile]
    have seen := afterWord?_append ((c :: rest).takeWhile isNamePart) s.next.2.cursor.rest
    rw [capitals, whole] at seen
    rw [looksLikeStatement_eq, List.any_eq_true]
    refine ⟨k, mem, ?_⟩
    unfold beginsWith
    rw [start, seen]
    cases next : s.next.2.cursor.rest with
    | nil => rfl
    | cons d more =>
      -- What ends the name ends the word: otherwise there would be nothing to scan here.
      have other : isNamePart d = false := by
        rw [next] at behind
        have stops := List.head?_dropWhile_not isNamePart (c :: rest)
        rw [← behind] at stops
        exact stops
      cases part : isWordPart d with
      | false =>
        show (!isWordPart d) = true
        rw [part, Bool.not_false]
      | true =>
        obtain ⟨e, stuck⟩ := exists_error_of_isWordPart next part other
        cases others with
        | ended answer => rw [answer] at stuck; cases stuck
        | token answer => rw [answer] at stuck; cases stuck

/-- The rule sees nothing behind a comment. -/
theorem not_opensComment_of_looksLikeStatement (looks : looksLikeStatement text = true) :
    opensComment (text.toList.dropWhile isBlank) = false := by
  rw [looksLikeStatement_eq, List.any_eq_true] at looks
  obtain ⟨k, -, begins⟩ := looks
  obtain ⟨c, rest, start, starts⟩ := exists_start_of_beginsWith begins
  rw [start]
  exact not_opensComment (not_mem_delimiters_of_isNameStart starts) rest

/-- **What the rule sees at the front of a text is in the first token.** -/
theorem looksLikeStatement_first (scanned : tokensOf text = .ok (first :: later))
    (looks : looksLikeStatement text = true) : looksLikeStatement first.token.text = true := by
  have plain := not_opensComment_of_looksLikeStatement looks
  rw [looksLikeStatement_eq, List.any_eq_true] at looks ⊢
  obtain ⟨k, mem, begins⟩ := looks
  obtain ⟨c, rest, start, starts⟩ := exists_start_of_beginsWith begins
  have solid := isBlank_of_isNameStart starts
  obtain ⟨place, answer, -⟩ := exists_next_ofText plain
  rw [start, (readToken_name starts rest place).1] at answer
  have named : first.token.text = String.ofList ((c :: rest).takeWhile isNamePart) := by
    have scans := scans_of_tokensOf scanned
    cases scans with
    | ended found | token found =>
      rw [found] at answer
      rw [Except.ok.inj answer, text_ofWord]
  refine ⟨k, mem, ?_⟩
  rw [start] at begins
  have name := beginsWith_takeWhile (isUpper_of_mem_spelling k).2 begins
  rw [List.takeWhile_cons_of_pos (isNamePart_of_isNameStart starts)] at named name
  rw [named, String.toList_ofList, List.dropWhile_cons_of_neg (by rw [solid]; nofun)]
  exact name

end FirstToken

/-! ### Statements -/

/-- A query of a cube begins with `WITH` or `SELECT`. -/
theorem Grammar.isOpening_of_select {ts rest : List Token} {found : Select}
    (h : select ts = some (found, rest)) :
    (Descent.look ts).isKeyword .WITH = true ∨ (Descent.look ts).isKeyword .SELECT = true := by
  cases queried : (Descent.look ts).isKeyword .WITH with
  | true => exact .inl rfl
  | false =>
    have clause : withClause ts = some ([], ts) := Parser.ifKeyword_of_ne queried
    unfold select at h
    rw [Parser.bind_of_some clause] at h
    obtain ⟨_, _, selects, -⟩ := Parser.bind_eq_some h
    exact .inr (Parser.keyword_eq_some selects).1

/-- **A statement begins with an opening keyword.** -/
theorem Grammar.isOpening_of_statement {ts rest : List Token} {found : Statement}
    (h : statement ts = some (found, rest)) :
    ∃ k ∈ openings, (Descent.look ts).isKeyword k = true := by
  cases explained : (Descent.look ts).isKeyword .EXPLAIN with
  | true => exact ⟨.EXPLAIN, by decide, explained⟩
  | false =>
    rw [statement_of_plain explained] at h
    cases drilled : (Descent.look ts).isKeyword .DRILLTHROUGH with
    | true => exact ⟨.DRILLTHROUGH, by decide, drilled⟩
    | false =>
      rw [plainStatement, drilled, if_neg Bool.false_ne_true] at h
      unfold query at h
      rw [map_eq_pure_bind, map_eq_pure_bind] at h
      split at h
      · obtain ⟨_, _, rowset, -⟩ := Parser.bind_eq_some h
        obtain ⟨_, _, selects, -⟩ := Parser.bind_eq_some rowset
        exact ⟨.SELECT, by decide, (Parser.keyword_eq_some selects).1⟩
      · obtain ⟨_, _, queried, -⟩ := Parser.bind_eq_some h
        obtain defines | selects := isOpening_of_select queried
        · exact ⟨.WITH, by decide, defines⟩
        · exact ⟨.SELECT, by decide, selects⟩

/-- The first token of a text that is read as a statement is an opening keyword. -/
theorem exists_opening_of_read {text : String} {limit : Nat} {tree : Tree}
    (h : read .statement text limit = .ok tree) :
    ∃ first later, tokensOf text = .ok (first :: later) ∧
      ∃ k ∈ openings, first.token.isKeyword k = true := by
  obtain ⟨tokens, scanned⟩ := exists_tokensOf_of_read h
  obtain ⟨_, _, _, _, stated, -⟩ :=
    Parser.run'_map_bind_eq_some (run'_parser_of_read h scanned)
  obtain ⟨k, mem, opening⟩ := Grammar.isOpening_of_statement stated
  cases tokens with
  | nil => cases opening
  | cons first later => exact ⟨first, later, scanned, k, mem, opening⟩

/-! ### Checks -/

/-- A check that is not told what a text is does as the first word says. -/
theorem check_auto (text : String) (wantsTree : Bool) (limit : Option Nat) :
    check ⟨text, .auto, wantsTree, limit⟩ =
      check ⟨text, if looksLikeStatement text then .statement else .expression, wantsTree,
        limit⟩ := by
  unfold check checkLogged CheckRequest.isStatement
  cases looksLikeStatement text <;> rfl

/-- Where a check succeeds the text was read. -/
theorem exists_read_of_check {request : CheckRequest} {verdict : Verdict}
    (h : check request = .ok verdict) :
    ∃ tree, read (if request.isStatement then .statement else .expression) request.text
      (request.limit.getD defaultLimit) = .ok tree := by
  unfold check checkLogged readLogged at h
  split at h
  · cases h
  · unfold read
    simp only at h
    split at h
    · cases h
    · rename_i tree found
      exact ⟨tree, found⟩

/-- **Not being told what a text is makes no difference**, whatever the limit is and whether the
tree is wanted or not: a text that passes as a statement passes with the same result, unless a
comment stands in front of its first word, and so does one that passes as an expression, unless its
first token reads like the beginning of a statement and no comment stands in front of it. -/
theorem check_auto_eq {text : String} {wantsTree : Bool} {limit : Option Nat} {verdict : Verdict} :
    (check ⟨text, .statement, wantsTree, limit⟩ = .ok verdict →
      opensComment (text.toList.dropWhile isBlank) = false →
      check ⟨text, .auto, wantsTree, limit⟩ = .ok verdict) ∧
    (check ⟨text, .expression, wantsTree, limit⟩ = .ok verdict →
      (opensComment (text.toList.dropWhile isBlank) = false →
        ∀ first later, tokensOf text = .ok (first :: later) →
          looksLikeStatement first.token.text = false) →
      check ⟨text, .auto, wantsTree, limit⟩ = .ok verdict) := by
  rw [check_auto]
  constructor
  · intro passes plain
    obtain ⟨tree, found⟩ := exists_read_of_check passes
    obtain ⟨first, later, scanned, k, mem, opening⟩ := exists_opening_of_read found
    rw [looksLikeStatement_of_opening scanned plain mem opening]
    exact passes
  · intro passes harmless
    obtain ⟨tree, found⟩ := exists_read_of_check passes
    obtain ⟨tokens, scanned⟩ := exists_tokensOf_of_read found
    cases looks : looksLikeStatement text with
    | false => exact passes
    | true =>
      cases tokens with
      | nil => cases scans_of_tokensOf scanned
      | cons first later =>
        have plain := not_opensComment_of_looksLikeStatement looks
        have seen := looksLikeStatement_first scanned looks
        rw [harmless plain first later scanned] at seen
        cases seen

/-- A keyword in lower case with a comment right behind it, and a word that goes on where the rule
has seen all of `SELECT`. -/
theorem check_auto_eq_selection :
    (∃ verdict, check ⟨"\nselect/**/from c", .statement, true, some 0⟩ = .ok verdict ∧
      check ⟨"\nselect/**/from c", .auto, true, some 0⟩ = .ok verdict) ∧
    ∃ verdict, check ⟨"Selection.Count -- SELECT", .expression, false, none⟩ = .ok verdict ∧
      check ⟨"Selection.Count -- SELECT", .auto, false, none⟩ = .ok verdict := by
  constructor
  · obtain ⟨verdict, passes⟩ := exists_of_isOk
      (x := check ⟨"\nselect/**/from c", .statement, true, some 0⟩) (by decide +kernel)
    exact ⟨verdict, passes, check_auto_eq.1 passes (by decide +kernel)⟩
  · obtain ⟨verdict, passes⟩ := exists_of_isOk
      (x := check ⟨"Selection.Count -- SELECT", .expression, false, none⟩) (by decide +kernel)
    have scanned : tokensOf "Selection.Count -- SELECT" = .ok [
        ⟨.word "Selection", ⟨0, 1, 1⟩⟩, ⟨.symbol .dot, ⟨9, 1, 10⟩⟩, ⟨.word "Count", ⟨10, 1, 11⟩⟩,
        ⟨.endOfText, ⟨25, 1, 26⟩⟩] := by
      decide +kernel
    refine ⟨verdict, passes, check_auto_eq.2 passes fun _ first later found => ?_⟩
    rw [scanned] at found
    cases found
    decide +kernel

/-- The rule takes a name for the beginning of a statement, since `EXPLAIN` is not reserved, and it
does not see a keyword behind a comment. -/
theorem check_auto_fails :
    (check ⟨"EXPLAIN", .expression, false, none⟩).isOk = true ∧
      (check ⟨"EXPLAIN", .auto, false, none⟩).isOk = false ∧
      (check ⟨"/* all */ SELECT FROM c", .statement, false, none⟩).isOk = true ∧
      (check ⟨"/* all */ SELECT FROM c", .auto, false, none⟩).isOk = false := by
  decide +kernel

end MdxReader
