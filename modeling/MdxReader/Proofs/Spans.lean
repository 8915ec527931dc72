import Mathlib.Logic.Basic
import MdxReader.Proofs.Spelling

/-!
# What scanning takes

One call of a scanner moves over a gap and over what follows it.  `IsGap` says what a gap is, white
space and comments, and `Token.Spelled` in which stretch of text a token is found.  Nothing else is
ever moved over: `Scanner.Step` lists all that a call can do (`Scanner.step_next`), with the place of
the token or of the fault, and whatever is said of scanners later follows from it by cases.
-/

namespace MdxReader

open Text

namespace Cursor

/-- From `cur` to `after` the text `taken` is moved over, and the place goes along. -/
structure Moves (cur : Cursor) (taken : List Char) (after : Cursor) : Prop where
  text : cur.rest = taken ++ after.rest
  place : after.place = cur.place.past taken

variable {cur between after : Cursor} {taken more : List Char}

theorem Moves.refl (cur : Cursor) : cur.Moves [] cur := ⟨rfl, rfl⟩

theorem Moves.trans (first : cur.Moves taken between) (second : between.Moves more after) :
    cur.Moves (taken ++ more) after := by
  constructor
  · rw [first.text, second.text, List.append_assoc]
  · rw [second.place, first.place, Position.past_append]

/-- Moving over the first of two stretches of text. -/
theorem moves_append (place : Position) (text more : List Char) :
    (⟨text ++ more, place⟩ : Cursor).Moves text ⟨more, place.past text⟩ := ⟨rfl, rfl⟩

theorem moves_skip (cur : Cursor) (n : Nat) : cur.Moves (cur.rest.take n) (cur.skip n) :=
  ⟨(List.take_append_drop n cur.rest).symm, rfl⟩

/-- Moving over the first character. -/
theorem moves_skip_one {c : Char} {rest : List Char} (found : cur.rest = c :: rest) :
    cur.Moves [c] (cur.skip 1) := by
  have moved := cur.moves_skip 1
  rwa [found] at moved

theorem moves_span (cur : Cursor) (ofClass : Char → Bool) :
    cur.Moves (cur.span ofClass).1 (cur.span ofClass).2 :=
  ⟨List.takeWhile_append_dropWhile.symm, rfl⟩

theorem forall_mem_span {ofClass : Char → Bool} {c : Char} (mem : c ∈ (cur.span ofClass).1) :
    ofClass c = true :=
  List.all_eq_true.mp List.all_takeWhile c mem

/-- A stretch of characters that begins with one of the class is not empty. -/
theorem span_ne_nil {ofClass : Char → Bool} {c : Char} {rest : List Char}
    (found : cur.rest = c :: rest) (inClass : ofClass c = true) : (cur.span ofClass).1 ≠ [] := by
  simp [span, found, inClass]

end Cursor

/-! ### Gaps -/

/-- **What may stand between two tokens**, or behind the last one if `last`: white space and
comments.  A comment that ends with the line has a newline behind it, or nothing at all. -/
inductive IsGap (last : Prop) : List Char → Prop
  | nil : IsGap last []
  | blank {c : Char} {more : List Char} : isBlank c = true → IsGap last more →
      IsGap last (c :: more)
  | line {mark body more : List Char} : mark ∈ [['/', '/'], ['-', '-']] → '\n' ∉ body →
      IsGap last more → IsGap last (mark ++ body ++ '\n' :: more)
  | lastLine {mark body : List Char} : last → mark ∈ [['/', '/'], ['-', '-']] → '\n' ∉ body →
      IsGap last (mark ++ body)
  | block {body more : List Char} : ¬ ['*', '/'] <:+: body → IsGap last more →
      IsGap last ('/' :: '*' :: body ++ '*' :: '/' :: more)

theorem IsGap.mono {last last' : Prop} (weaker : last → last') {gap : List Char}
    (h : IsGap last gap) : IsGap last' gap := by
  induction h with
  | nil => exact .nil
  | blank space _ ih => exact .blank space ih
  | line mark body _ ih => exact .line mark body ih
  | lastLine ends mark body => exact .lastLine (weaker ends) mark body
  | block body _ ih => exact .block body ih

/-- What is left of a gap inside one of its parts: the rest of a comment comes first. -/
def Gap.Fills (last : Prop) (taken : List Char) : Gap → Prop
  | .space => IsGap last taken
  | .line => (∃ body more, taken = body ++ '\n' :: more ∧ '\n' ∉ body ∧ IsGap last more) ∨
      (last ∧ '\n' ∉ taken)
  | .block _ => ∃ body more, taken = body ++ '*' :: '/' :: more ∧ ¬ ['*', '/'] <:+: body ∧
      IsGap last more

/-- What a comment of one line consists of makes up a gap with its mark. -/
theorem IsGap.of_line {last : Prop} {mark taken : List Char}
    (opens : mark ∈ [['/', '/'], ['-', '-']]) (fills : Gap.Fills last taken .line) :
    IsGap last (mark ++ taken) := by
  obtain ⟨body, more, rfl, noNewline, later⟩ | ⟨ends, noNewline⟩ := fills
  · rw [← List.append_assoc]
    exact .line opens noNewline later
  · exact .lastLine ends opens noNewline

/-- What skipping promises: it moves over a gap, or else to the end of the text, and then the place
it tells is the one where the comment was opened. -/
def Gap.Skips (gap : Gap) (place : Position) (text : List Char)
    (result : Option Position × Cursor) : Prop :=
  ∃ taken, (⟨text, place⟩ : Cursor).Moves taken result.2 ∧
    (result.1 = none → gap.Fills (result.2.rest = []) taken) ∧
    ∀ start, result.1 = some start →
      gap = .block start ∨ ∃ before, before <+: taken ∧ start = place.past before

/-- What follows the first characters is skipped as what it is there. -/
theorem Gap.Skips.behind {gap gap' : Gap} {place : Position} (first : List Char)
    {text : List Char} {result : Option Position × Cursor}
    (inner : gap'.Skips (place.past first) text result)
    (fills : ∀ last taken, taken <+: text → gap'.Fills last taken →
      gap.Fills last (first ++ taken))
    (opened : ∀ start, gap' = .block start → gap = .block start ∨ start = place) :
    gap.Skips place (first ++ text) result := by
  obtain ⟨taken, moved, filled, fault⟩ := inner
  refine ⟨first ++ taken, (Cursor.moves_append place first text).trans moved, fun clean => ?_,
    fun start found => ?_⟩
  · exact fills _ _ ⟨_, moved.text.symm⟩ (filled clean)
  rcases fault start found with same | ⟨before, part, rfl⟩
  · refine (opened start same).imp_right fun here => ?_
    exact ⟨[], List.nil_prefix, here⟩
  · exact .inr ⟨first ++ before, List.prefix_append_right_inj first |>.mpr part,
      (place.past_append first before).symm⟩

/-- Skipping may stop where it is if nothing is left of the gap. -/
theorem Gap.Skips.here {gap : Gap} {place : Position} {text : List Char}
    (filled : gap.Fills (text = []) []) : gap.Skips place text (none, ⟨text, place⟩) :=
  ⟨[], .refl _, fun _ => filled, by simp⟩

/-- Inside a comment skipping may fail, which tells where the comment was opened. -/
theorem Gap.Skips.endless {start place : Position} {text taken : List Char} {after : Cursor}
    (moved : (⟨text, place⟩ : Cursor).Moves taken after) :
    (Gap.block start).Skips place text (some start, after) :=
  ⟨taken, moved, by simp, fun _ found => .inl (congrArg Gap.block (Option.some.inj found))⟩

/-- **Skipping moves over a gap.** -/
theorem skips_skipGap (gap : Gap) (place : Position) (text : List Char) :
    gap.Skips place text (skipGap gap place text) := by
  fun_induction skipGap gap place text with
  | case1 start place => exact .endless (.refl _)
  | case2 place => exact .here .nil
  | case3 place => exact .here (.inr ⟨rfl, List.not_mem_nil⟩)
  | case4 place c rest space ih =>
    exact .behind [c] ih (fun _ _ _ => .blank space) (by simp)
  | case5 place c solid => exact .here .nil
  | case6 place c solid d later mark ih =>
    have opens : [c, d] ∈ [['/', '/'], ['-', '-']] := by
      rcases mark with ⟨rfl, rfl⟩ | ⟨rfl, rfl⟩ <;> simp
    exact .behind [c, d] ih (fun _ _ _ => .of_line opens) (by simp)
  | case7 place c solid d later noLine opens ih =>
    obtain ⟨rfl, rfl⟩ := opens
    refine .behind ['/', '*'] ih ?_ fun start same => .inr (Gap.block.inj same).symm
    rintro last taken - ⟨body, more, rfl, inside, gap⟩
    exact .block inside gap
  | case8 place c solid d later noLine noBlock => exact .here .nil
  | case9 place rest ih =>
    refine .behind ['\n'] ih (fun last taken _ gap => ?_) (by simp)
    exact .inl ⟨[], taken, rfl, List.not_mem_nil, gap⟩
  | case10 place c rest other ih =>
    have longer {body : List Char} (inside : '\n' ∉ body) : '\n' ∉ c :: body :=
      List.not_mem_cons_of_ne_of_not_mem (Ne.symm other) inside
    refine .behind [c] ih ?_ (by simp)
    rintro last taken - (⟨body, more, rfl, inside, gap⟩ | ⟨ends, inside⟩)
    · exact .inl ⟨c :: body, more, rfl, longer inside, gap⟩
    · exact .inr ⟨ends, longer inside⟩
  | case11 start place c => exact .endless (Cursor.moves_append place [c] [])
  | case12 start place c d later closes ih =>
    obtain ⟨rfl, rfl⟩ := closes
    refine .behind ['*', '/'] ih (fun last taken _ gap => ?_) (by simp)
    exact ⟨[], taken, rfl, by simp, gap⟩
  | case13 start place c d later goesOn ih =>
    refine .behind [c] ih ?_ fun start' same => .inl same
    rintro last taken part ⟨body, more, rfl, inside, gap⟩
    refine ⟨c :: body, more, rfl, fun closes => ?_, gap⟩
    -- An end of the comment would have to begin with `c`, and `c` and `d` are none.
    rcases List.infix_cons_iff.mp closes with here | there
    · obtain ⟨rfl, next⟩ := List.cons_prefix_cons.mp here
      obtain ⟨more', rfl⟩ := next
      exact goesOn ⟨rfl, (List.cons_prefix_cons.mp part).1.symm⟩
    · exact inside there

/-! ### Spelled tokens -/

/-- Digits, at least one. -/
def IsDigits (text : List Char) : Prop := text ≠ [] ∧ ∀ c ∈ text, c.isDigit = true

/-- An exponent as it is written: a letter, perhaps a sign, digits. -/
def Exponent.Spelled (e : Exponent) (span : List Char) : Prop :=
  (e.letter = 'e' ∨ e.letter = 'E') ∧ IsDigits e.digits ∧
    ∃ sign, span = e.letter :: sign ++ e.digits ∧
      if e.negative then sign = ['-'] else sign = [] ∨ sign = ['+']

/-- A literal as it is written: digits, perhaps a fraction, perhaps an exponent. -/
def Numeral.Spelled (n : Numeral) (span : List Char) : Prop :=
  IsDigits n.whole ∧ (∀ c ∈ n.fraction, c.isDigit = true) ∧
    ∃ exponent, span = n.whole ++ (if n.fraction = [] then [] else '.' :: n.fraction) ++ exponent ∧
      match n.exponent with
      | none => exponent = []
      | some e => e.Spelled exponent

/-- **A stretch of text in which a token is found**: for a number any literal with its value, for
every other token its source form. -/
def Token.Spelled (t : Token) (span : List Char) : Prop :=
  match t with
  | number d => ∃ n : Numeral, n.Spelled span ∧ n.value? = some d
  | t => span = t.text.toList

/-- What taking a token promises: it moves over a stretch of text in which the token is found, or
the place of the fault. -/
def Cursor.Takes (cur : Cursor) (result : Except ScanError Token × Cursor) : Prop :=
  ∃ span, cur.Moves span result.2 ∧
    (∀ t, result.1 = .ok t → t.Spelled span ∧ span ≠ []) ∧
    ∀ e, result.1 = .error e → ∃ before, before <+: span ∧ e.place = cur.place.past before

theorem Cursor.Takes.token {cur after : Cursor} {span : List Char} {t : Token}
    (moved : cur.Moves span after) (spelled : t.Spelled span) (some : span ≠ []) :
    cur.Takes (.ok t, after) := by
  refine ⟨span, moved, ?_, by simp⟩
  rintro _ ⟨⟩
  exact ⟨spelled, some⟩

theorem Cursor.Takes.fault {cur after : Cursor} {span before : List Char} {e : ScanError}
    (moved : cur.Moves span after) (part : before <+: span)
    (place : e.place = cur.place.past before) : cur.Takes (.error e, after) := by
  refine ⟨span, moved, by simp, ?_⟩
  rintro _ ⟨⟩
  exact ⟨before, part, place⟩

/-- Reading up to a delimiter moves over a doubled text and the delimiter. -/
theorem exists_moves_readDelimited (close : Char) (taken : List Char) (place : Position)
    (text : List Char) :
    ∃ span, (⟨text, place⟩ : Cursor).Moves span (readDelimited close taken place text).2 ∧
      ∀ contents, (readDelimited close taken place text).1 = some contents →
        ∃ inside, contents = String.ofList (taken.reverse ++ inside) ∧
          span = inside.flatMap (fun c => if c = close then [c, c] else [c]) ++ [close] := by
  fun_induction readDelimited close taken place text with
  | case1 taken place => exact ⟨[], .refl _, by simp⟩
  | case2 taken place =>
    refine ⟨[close], ⟨rfl, rfl⟩, fun contents found => ⟨[], ?_, rfl⟩⟩
    rw [List.append_nil]
    exact (Option.some.inj found).symm
  | case3 taken place later ih =>
    -- A doubled delimiter is one character of the contents.
    obtain ⟨span, moved, read⟩ := ih
    refine ⟨close :: close :: span,
      (Cursor.moves_append place [close, close] later).trans moved, fun contents found => ?_⟩
    obtain ⟨inside, rfl, rfl⟩ := read contents found
    exact ⟨close :: inside, by simp, by simp⟩
  | case4 taken place d later other =>
    refine ⟨[close], ⟨rfl, rfl⟩, fun contents found => ⟨[], ?_, rfl⟩⟩
    rw [List.append_nil]
    exact (Option.some.inj found).symm
  | case5 taken place c rest other ih =>
    obtain ⟨span, moved, read⟩ := ih
    refine ⟨c :: span, (Cursor.moves_append place [c] rest).trans moved, fun contents found => ?_⟩
    obtain ⟨inside, rfl, rfl⟩ := read contents found
    exact ⟨c :: inside, by simp, by simp [other]⟩

/-- A delimited text is taken with its delimiters, and with what was moved over `before` it. -/
theorem takes_readEnclosed {cur start : Cursor} {before : List Char}
    (opened : cur.Moves before start) {opening close : Char} {rest : List Char}
    (found : start.rest = opening :: rest) {make : String → Token}
    {unterminated : Position → ScanError}
    (spelled : ∀ contents,
      (make contents).Spelled (before ++ opening :: doubled close contents ++ [close]))
    (here : (unterminated start.place).place = start.place) :
    cur.Takes (readEnclosed start close make unterminated) := by
  obtain ⟨span, inner, read⟩ :=
    exists_moves_readDelimited close [] (start.skip 1).place (start.skip 1).rest
  have moved := opened.trans ((Cursor.moves_skip_one found).trans inner)
  unfold readEnclosed
  simp only
  split
  · rename_i contents after delimited
    rw [delimited] at moved read
    obtain ⟨inside, rfl, rfl⟩ := read contents rfl
    have form := spelled (String.ofList inside)
    rw [doubled, String.toList_ofList, List.append_assoc] at form
    exact .token moved form (by simp)
  · rename_i after delimited
    rw [delimited] at moved
    exact .fault moved (List.prefix_append _ _) (here.trans opened.place)

/-! ### Numbers -/

/-- The point is taken with the digits behind it, or not at all. -/
theorem moves_readFraction (cur : Cursor) :
    cur.Moves (if (readFraction cur).1 = [] then [] else '.' :: (readFraction cur).1)
        (readFraction cur).2 ∧
      ∀ c ∈ (readFraction cur).1, c.isDigit = true := by
  unfold readFraction
  split
  · rename_i d rest found
    split
    · rename_i digit
      have behind : (cur.skip 1).rest = d :: rest := by simp [Cursor.skip, found]
      rw [if_neg (Cursor.span_ne_nil behind digit)]
      exact ⟨(Cursor.moves_skip_one found).trans (Cursor.moves_span _ _),
        fun _ => Cursor.forall_mem_span⟩
    · exact ⟨.refl _, by simp⟩
  · exact ⟨.refl _, by simp⟩

/-- How the beginning of an exponent is told: a letter, perhaps a sign, and a digit behind them. -/
theorem exists_of_exponentAt? {text : List Char} {negative : Bool} {width : Nat}
    (h : exponentAt? text = some (negative, width)) :
    ∃ letter sign d more, text = letter :: sign ++ d :: more ∧ width = sign.length + 1 ∧
      (letter = 'e' ∨ letter = 'E') ∧ d.isDigit = true ∧
      if negative then sign = ['-'] else sign = [] ∨ sign = ['+'] := by
  unfold exponentAt? at h
  split at h
  · rename_i letter c rest
    split at h
    · rename_i known
      split at h
      · rename_i digit
        cases h
        exact ⟨letter, [], c, rest, rfl, rfl, known, digit, .inl rfl⟩
      · split at h
        · rename_i signed
          obtain ⟨sign, digit⟩ := signed
          cases h
          cases rest with
          | nil => cases digit
          | cons d more =>
            refine ⟨letter, [c], d, more, rfl, rfl, known, digit, ?_⟩
            rcases sign with rfl | rfl
            · exact .inr rfl
            · exact rfl
        · cases h
    · cases h
  · cases h

/-- An exponent is taken with its letter and sign, or not at all. -/
theorem moves_readExponent (cur : Cursor) :
    ∃ span, cur.Moves span (readExponent cur).2 ∧
      match (readExponent cur).1 with
      | none => span = []
      | some e => e.Spelled span := by
  unfold readExponent
  split
  · rename_i first rest negative width found begins
    obtain ⟨letter, sign, d, more, text, rfl, known, digit, signed⟩ := exists_of_exponentAt? begins
    have same : first = letter := by
      rw [found] at text
      exact (List.cons.inj text).1
    have behind : (cur.skip (sign.length + 1)).rest = d :: more := by simp [Cursor.skip, text]
    have opened := cur.moves_skip (sign.length + 1)
    have front : cur.rest.take (sign.length + 1) = letter :: sign := by simp [text]
    rw [front] at opened
    have digits := Cursor.moves_span (cur.skip (sign.length + 1)) Char.isDigit
    refine ⟨_, opened.trans digits, ?_⟩
    exact ⟨same ▸ known, ⟨Cursor.span_ne_nil behind digit, fun _ => Cursor.forall_mem_span⟩, sign,
      same ▸ rfl, signed⟩
  · exact ⟨[], .refl _, rfl⟩

theorem takes_readNumber {cur : Cursor} {c : Char} {rest : List Char} (found : cur.rest = c :: rest)
    (digit : c.isDigit = true) : cur.Takes (readNumber cur) := by
  have whole := Cursor.moves_span cur Char.isDigit
  have some := Cursor.span_ne_nil found digit
  obtain ⟨fraction, digits⟩ := moves_readFraction (cur.span Char.isDigit).2
  obtain ⟨span, exponent, form⟩ := moves_readExponent (readFraction (cur.span Char.isDigit).2).2
  have moved := (whole.trans fraction).trans exponent
  unfold readNumber
  simp only
  split
  · rename_i value literal
    refine .token moved ?_ (by simp [some])
    exact ⟨_, ⟨⟨some, fun _ => Cursor.forall_mem_span⟩, digits, span, rfl, form⟩, literal⟩
  · exact .fault moved List.nil_prefix rfl

/-! ### Words and keys -/

theorem takes_readWord {cur : Cursor} {c : Char} {rest : List Char} (found : cur.rest = c :: rest)
    (starts : isNameStart c = true) : cur.Takes (.ok (readWord cur).1, (readWord cur).2) := by
  have part := isNamePart_of_isNameStart starts
  have moved := Cursor.moves_span cur isNamePart
  refine Cursor.Takes.token ?_ ?_ (Cursor.span_ne_nil found part)
  · unfold readWord
    simp only
    split <;> exact moved
  · unfold readWord
    simp only
    split <;> exact String.toList_ofList.symm

theorem takes_readKey {cur : Cursor} {rest : List Char} (found : cur.rest = '&' :: rest) :
    cur.Takes (readKey cur) := by
  have opened := Cursor.moves_skip_one found
  have fault : cur.Takes (.error (.unexpectedCharacter '&' cur.place), cur) :=
    .fault (.refl _) List.nil_prefix rfl
  unfold readKey
  simp only
  split
  · rename_i c more behind
    split
    · rename_i bracket
      subst bracket
      refine takes_readEnclosed opened behind (fun contents => ?_) rfl
      simp [Token.Spelled, Token.text, toList_inBrackets]
    · split
      · rename_i starts
        have moved := opened.trans (Cursor.moves_span (cur.skip 1) isNamePart)
        refine .token moved ?_ (List.cons_ne_nil _ _)
        simp [Token.Spelled, Token.text]
      · exact fault
  · exact fault

/-! ### Tokens -/

/-- A symbol stands where its characters stand. -/
theorem take_of_symbolAt? {text : List Char} {s : Symbol} (h : symbolAt? text = some s) :
    text.take s.width = s.spelling.toList := by
  unfold symbolAt? at h
  split at h
  case h_5 c rest _ _ _ _ =>
    -- A single character; the symbols of two are told first.
    iterate 15
      obtain ⟨rfl, single⟩ | ⟨-, h⟩ := ite_eq_iff.mp h
      · cases single
        rfl
    cases h
  all_goals cases h
  all_goals rfl

/-- **Taking a token moves over a text in which it is found**, or in which the fault has its
place. -/
theorem takes_readToken {cur : Cursor} {c : Char} {rest : List Char}
    (found : cur.rest = c :: rest) : cur.Takes (readToken cur) := by
  cases symbol : symbolAt? cur.rest with
  | some s =>
    have moved := cur.moves_skip s.width
    rw [take_of_symbolAt? symbol] at moved
    rw [readToken_of_symbol symbol]
    refine .token moved rfl ?_
    cases s <;> simp [Symbol.spelling]
  | none =>
    obtain ⟨text, place⟩ := cur
    subst found
    rw [readToken_of_no_symbol place symbol]
    split
    · rename_i bracket
      subst bracket
      refine takes_readEnclosed (.refl _) rfl (fun contents => ?_) rfl
      simp [Token.Spelled, Token.text, toList_inBrackets]
    split
    · rename_i ampersand
      subst ampersand
      exact takes_readKey rfl
    split
    · rename_i quote
      subst quote
      refine takes_readEnclosed (.refl _) rfl (fun contents => ?_) rfl
      simp [Token.Spelled, Token.text, Quote.mark]
    split
    · rename_i quote
      subst quote
      refine takes_readEnclosed (.refl _) rfl (fun contents => ?_) rfl
      simp [Token.Spelled, Token.text, Quote.mark]
    split
    · rename_i digit
      exact takes_readNumber rfl digit
    split
    · rename_i starts
      exact takes_readWord rfl starts
    · exact .fault (.refl _) List.nil_prefix rfl

/-! ### Calls of a scanner -/

/-- **All that a call of a scanner can do**, told by its answer and by the scanner after it. -/
inductive Scanner.Step (s : Scanner) : Except ScanError Token → Scanner → Prop
  /-- A comment never ends.  The mark stays where it was. -/
  | endless {taken before : List Char} {after : Cursor} : s.cursor.Moves taken after →
      after.rest = [] → before <+: taken →
      s.Step (.error (.unterminatedComment (s.cursor.place.past before))) ⟨after, s.mark⟩
  /-- Only a gap is left. -/
  | ended {gap : List Char} {after : Cursor} : s.cursor.Moves gap after → IsGap True gap →
      after.rest = [] → s.Step (.ok .endOfText) ⟨after, after.place⟩
  /-- A token follows the gap. -/
  | token {t : Token} {gap span : List Char} {found after : Cursor} : s.cursor.Moves gap found →
      IsGap False gap → found.Moves span after → t.Spelled span → span ≠ [] → t.Sound →
      s.Step (.ok t) ⟨after, found.place⟩
  /-- What follows the gap is no token. -/
  | fault {e : ScanError} {gap span before : List Char} {found after : Cursor} :
      s.cursor.Moves gap found → IsGap False gap → found.Moves span after → before <+: span →
      e.place = found.place.past before → s.Step (.error e) ⟨after, found.place⟩

/-- **A call of a scanner does nothing else.** -/
theorem Scanner.step_next (s : Scanner) : s.Step s.next.1 s.next.2 := by
  obtain ⟨gap, moved, filled, opened⟩ := skips_skipGap .space s.cursor.place s.cursor.rest
  unfold next
  split
  · rename_i start after skipped
    have emptied : after.rest = [] := by
      have empty := rest_skipGap_of_some (congrArg Prod.fst skipped)
      rwa [skipped] at empty
    rw [skipped] at moved opened
    rcases opened start rfl with inside | ⟨before, part, rfl⟩
    · cases inside
    · exact .endless moved emptied part
  · rename_i found skipped
    rw [skipped] at moved filled
    have clear : IsGap (found.rest = []) gap := filled rfl
    simp only
    cases rest : found.rest with
    | nil =>
      have last : readToken found = (.ok .endOfText, found) := by
        unfold readToken
        rw [rest]
      rw [last]
      exact .ended moved (clear.mono fun _ => trivial) rest
    | cons c more =>
      have inner : IsGap False gap := clear.mono (by rw [rest]; exact nofun)
      obtain ⟨span, taken, token, fault⟩ := takes_readToken rest
      cases answer : (readToken found).1 with
      | ok t =>
        obtain ⟨spelled, some⟩ := token t answer
        exact .token moved inner taken spelled some (sound_readToken answer)
      | error e =>
        obtain ⟨before, part, place⟩ := fault e answer
        exact .fault moved inner taken part place

/-! ### All calls -/

/-- **The tokens that a scanner answers with**, one call after the other, up to the end of the
text. -/
inductive Scans : Scanner → List Located → Prop
  | ended {s : Scanner} : s.next.1 = .ok .endOfText → Scans s [⟨.endOfText, s.next.2.mark⟩]
  | token {s : Scanner} {t : Token} {later : List Located} : s.next.1 = .ok t →
      t ≠ .endOfText → Scans s.next.2 later → Scans s (⟨t, s.next.2.mark⟩ :: later)

/-- Answers that are all tokens were given one after the other. -/
theorem Scanner.Answers.scans {s : Scanner} {lexemes : List Lexeme} {found : List Located}
    {ending : Except ScanError Position} {last : Position} (h : s.Answers lexemes ending)
    (upcoming : lexemes = found.map .ok) (ended : ending = .ok last) :
    Scans s (found ++ [⟨.endOfText, last⟩]) := by
  induction h generalizing found with
  | @final s final =>
    obtain rfl : found = [] := List.map_eq_nil_iff.mp upcoming.symm
    cases answer : s.next.1 with
    | error e =>
      rw [answer] at ended
      cases ended
    | ok t =>
      rw [answer] at ended final
      cases ended
      cases t with
      | endOfText => exact .ended answer
      | _ => cases final
  | @more s later ending goesOn _ ih =>
    cases found with
    | nil => cases upcoming
    | cons first found =>
      obtain ⟨same, rfl⟩ := List.cons.inj upcoming
      cases answer : s.next.1 with
      | error e =>
        rw [answer] at same
        cases same
      | ok t =>
        rw [answer] at same goesOn
        cases same
        refine .token answer ?_ (ih rfl ended)
        rintro rfl
        cases goesOn

/-- **The tokens of a text are the answers of its scanner.** -/
theorem scans_of_tokensOf {text : String} {tokens : List Located} (h : tokensOf text = .ok tokens) :
    Scans (.ofText text) tokens := by
  obtain ⟨found, last, upcoming, ending, rfl⟩ := Feed.tokens_eq_ok h
  exact (Feed.answers_ofText text).scans upcoming ending

end MdxReader
