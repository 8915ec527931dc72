import Mathlib.Control.Monad.Basic
import MdxReader.Proofs.Tokens
import MdxReader.Token.Feed

/-!
# The tokens of a text

What scanning promises about every text: its bare words and keywords are spelled like names and told
apart by the list of keywords (`Token.Sound`), and it has no more tokens than characters
(`Feed.answers_ofText`).  A reader at the beginning of a text has exactly the tokens of the text ahead
(`Reader.exists_ofText`).
-/

namespace MdxReader

open Text

/-- A bare name: what can start one, and then what can stand inside. -/
def Text.isWord (text : String) : Bool :=
  match text.toList with
  | c :: rest => isNameStart c && rest.all isNamePart
  | [] => false

/-- The text of a bare word is one, and a keyword is spelled as such. -/
def Token.Sound : Token → Prop
  | word spelling => isWord spelling = true ∧ Keyword.ofWord? spelling = none
  | keyword k spelling => isWord spelling = true ∧ Keyword.ofWord? spelling = some k
  | wordKey spelling => isWord spelling = true
  | _ => True

/-! ### Single tokens -/

/-- The longest stretch of name characters is a word where it can start one. -/
theorem isWord_span {cur : Cursor} {c : Char} {rest : List Char} (found : cur.rest = c :: rest)
    (starts : isNameStart c = true) : isWord (String.ofList (cur.span isNamePart).1) = true := by
  have part := isNamePart_of_isNameStart starts
  have span : (cur.span isNamePart).1 = c :: rest.takeWhile isNamePart := by
    simp only [Cursor.span, found, List.takeWhile_cons, part, if_true]
  rw [span, isWord, String.toList_ofList]
  simp only [starts, Bool.true_and]
  exact List.all_takeWhile

/-- A word is scanned as a keyword exactly if it is one. -/
theorem sound_readWord {cur : Cursor} {c : Char} {rest : List Char} (found : cur.rest = c :: rest)
    (starts : isNameStart c = true) : (readWord cur).1.Sound := by
  have word := isWord_span found starts
  unfold readWord
  simp only
  split
  · rename_i k spelled
    exact ⟨word, spelled⟩
  · rename_i other
    exact ⟨word, other⟩

/-- Any text may stand between brackets or quotes. -/
theorem sound_readEnclosed {cur : Cursor} {close : Char} {make : String → Token}
    {unterminated : Position → ScanError} {t : Token}
    (h : (readEnclosed cur close make unterminated).1 = .ok t)
    (makes : ∀ text, (make text).Sound) : t.Sound := by
  unfold readEnclosed at h
  simp only at h
  split at h
  · cases h
    exact makes _
  · cases h

theorem sound_readKey {cur : Cursor} {t : Token} (h : (readKey cur).1 = .ok t) : t.Sound := by
  unfold readKey at h
  simp only at h
  split at h
  · rename_i c rest found
    split at h
    · exact sound_readEnclosed h fun _ => trivial
    · split at h
      · rename_i starts
        cases h
        exact isWord_span found starts
      · cases h
  · cases h

theorem sound_readNumber {cur : Cursor} {t : Token} (h : (readNumber cur).1 = .ok t) :
    t.Sound := by
  unfold readNumber at h
  simp only at h
  split at h
  · cases h
    trivial
  · cases h

/-- **Every token that is read is sound.** -/
theorem sound_readToken {cur : Cursor} {t : Token} (h : (readToken cur).1 = .ok t) : t.Sound := by
  unfold readToken at h
  split at h
  · cases h
    trivial
  · rename_i c rest found
    -- A single symbol, or by its first character: a bracket, a key, a string in either quote, a
    -- number, a word.
    split at h
    · cases h
      trivial
    · simp only at h
      split at h
      · exact sound_readEnclosed h fun _ => trivial
      split at h
      · exact sound_readKey h
      split at h
      · exact sound_readEnclosed h fun _ => trivial
      split at h
      · exact sound_readEnclosed h fun _ => trivial
      split at h
      · exact sound_readNumber h
      split at h
      · rename_i starts
        cases h
        exact sound_readWord found starts
      · cases h

theorem sound_next {s : Scanner} {t : Token} (h : s.next.1 = .ok t) : t.Sound := by
  unfold Scanner.next at h
  split at h
  · cases h
  · exact sound_readToken h

/-! ### Feeds -/

/-- The answer is a sound token and not the end of the text, or an error. -/
def Lexeme.Sound : Lexeme → Prop
  | .ok next => next.token.Sound ∧ next.token ≠ .endOfText
  | .error _ => True

/-- An answer that is not final is no end of the text. -/
theorem sound_of_goesOn {s : Scanner} (goesOn : isFinal s.next.1 = false) :
    Lexeme.Sound (s.next.1.map (⟨·, s.next.2.mark⟩)) := by
  cases answer : s.next.1 with
  | error e => exact trivial
  | ok t =>
    refine ⟨sound_next answer, ?_⟩
    rintro rfl
    rw [answer] at goesOn
    cases goesOn

/-- **The answers of a scanner**, one call after the other, up to the one that repeats. -/
inductive Scanner.Answers : Scanner → List Lexeme → Except ScanError Position → Prop
  | final {s : Scanner} : isFinal s.next.1 = true →
      Answers s [] (s.next.1.map fun _ => s.next.2.mark)
  | more {s : Scanner} {later : List Lexeme} {ending : Except ScanError Position} :
      isFinal s.next.1 = false → Answers s.next.2 later ending →
      Answers s (s.next.1.map (⟨·, s.next.2.mark⟩) :: later) ending

namespace Scanner.Answers

variable {s : Scanner} {lexemes : List Lexeme} {ending : Except ScanError Position}

/-- Each answer but the last takes a character. -/
theorem length_le (h : s.Answers lexemes ending) : lexemes.length ≤ s.cursor.rest.length := by
  induction h with
  | final => exact Nat.zero_le _
  | more goesOn _ ih => exact Nat.succ_le_of_lt (Nat.lt_of_le_of_lt ih (length_rest_next_lt goesOn))

theorem sound (h : s.Answers lexemes ending) : ∀ lexeme ∈ lexemes, Lexeme.Sound lexeme := by
  induction h with
  | final => exact List.forall_mem_nil _
  | more goesOn _ ih => exact List.forall_mem_cons.mpr ⟨sound_of_goesOn goesOn, ih⟩

end Scanner.Answers

namespace Feed

variable {text : String}

/-- What is collected are the answers, behind those that were there before. -/
theorem collect_spec (read : List Lexeme) (s : Scanner) :
    ∃ fresh, (collect read s).upcoming = read.reverse ++ fresh ∧
      s.Answers fresh (collect read s).ending := by
  -- The induction is on the characters left: whatever is not the last answer takes one of them.
  induction left : s.cursor.rest.length using Nat.strongRecOn generalizing read s with
  | _ n ih =>
    rw [collect]
    by_cases goesOn : isFinal s.next.1 = false
    · rw [dif_pos goesOn]
      have shorter := Scanner.length_rest_next_lt goesOn
      let first : Lexeme := s.next.1.map (⟨·, s.next.2.mark⟩)
      obtain ⟨fresh, upcoming, answers⟩ := ih _ (left ▸ shorter) (first :: read) s.next.2 rfl
      refine ⟨first :: fresh, ?_, .more goesOn answers⟩
      rw [List.reverse_cons, List.append_assoc] at upcoming
      exact upcoming
    · rw [dif_neg goesOn]
      exact ⟨[], (List.append_nil _).symm, .final (eq_true_of_ne_false goesOn)⟩

/-- **The feed of a text holds the answers of its scanner.** -/
theorem answers_ofText (text : String) :
    (Scanner.ofText text).Answers (ofText text).upcoming (ofText text).ending := by
  obtain ⟨fresh, upcoming, answers⟩ := collect_spec [] (.ofText text)
  unfold ofText
  rw [upcoming]
  exact answers

theorem length_upcoming_ofText (text : String) : (ofText text).upcoming.length ≤ text.length := by
  rw [← String.length_toList]
  exact (answers_ofText text).length_le

theorem sound_ofText {lexeme : Lexeme} (mem : lexeme ∈ (ofText text).upcoming) :
    Lexeme.Sound lexeme := (answers_ofText text).sound lexeme mem

/-- Answers without an error are tokens. -/
theorem located_eq_ok {read all : List Located} {lexemes : List Lexeme}
    (h : located read lexemes = .ok all) :
    ∃ found : List Located, lexemes = found.map .ok ∧ all = found.reverse ++ read := by
  induction lexemes generalizing read with
  | nil =>
    cases h
    exact ⟨[], rfl, rfl⟩
  | cons lexeme later ih =>
    cases lexeme with
    | error e => cases h
    | ok next =>
      obtain ⟨found, rfl, rfl⟩ := ih h
      exact ⟨next :: found, rfl, by simp⟩

/-- Without an error all the tokens are gathered. -/
theorem located_map_ok (read found : List Located) :
    located read (found.map .ok) = .ok (found.reverse ++ read) := by
  induction found generalizing read with
  | nil => rfl
  | cons next later ih =>
    rw [List.map_cons, located, ih, List.reverse_cons, List.append_assoc]
    rfl

theorem aheadIn_map_ok (last : Position) (found : List Located)
    (inner : ∀ next ∈ found, next.token ≠ .endOfText) :
    aheadIn (.ok last) (found.map .ok) = found ++ [⟨.endOfText, last⟩] := by
  -- An end of the text among the tokens would cut off what comes behind it.
  induction found with
  | nil => rfl
  | cons next later ih =>
    rw [List.map_cons, aheadIn, if_neg (inner next (by simp)),
      ih fun other mem => inner other (List.mem_cons_of_mem _ mem), List.cons_append]

/-- A text without faults is a sequence of tokens and the end. -/
theorem tokens_eq_ok {feed : Feed} {tokens : List Located} (h : feed.tokens = .ok tokens) :
    ∃ (found : List Located) (last : Position), feed.upcoming = found.map .ok ∧
      feed.ending = .ok last ∧ tokens = found ++ [⟨.endOfText, last⟩] := by
  unfold Feed.tokens at h
  cases read : located [] feed.upcoming with
  | error e =>
    rw [read] at h
    cases h
  | ok all =>
    rw [read] at h
    cases ending : feed.ending with
    | error e =>
      rw [ending] at h
      cases h
    | ok last =>
      rw [ending] at h
      cases h
      obtain ⟨found, upcoming, rfl⟩ := located_eq_ok read
      exact ⟨found, last, upcoming, rfl, by simp⟩

/-- Where the end of the text is ahead there are no errors. -/
theorem eq_map_ok_of_ended {ending : Except ScanError Position} {lexemes : List Lexeme}
    (inner : ∀ next, .ok next ∈ lexemes → next.token ≠ .endOfText)
    (ended : .endOfText ∈ (aheadIn ending lexemes).map Located.token) :
    ∃ (found : List Located) (last : Position), lexemes = found.map .ok ∧ ending = .ok last := by
  induction lexemes with
  | nil =>
    cases ending with
    | ok last => exact ⟨[], last, rfl, rfl⟩
    | error e => cases ended
  | cons lexeme later ih =>
    cases lexeme with
    | error e => cases ended
    | ok next =>
      have more := inner next List.mem_cons_self
      unfold aheadIn at ended
      rw [if_neg more, List.map_cons, List.mem_cons] at ended
      obtain ⟨found, last, rfl, rest⟩ := ih
        (fun next mem => inner next (List.mem_cons_of_mem _ mem))
        (ended.resolve_left (Ne.symm more))
      exact ⟨next :: found, last, rfl, rest⟩

/-- Where nothing is wrong with a text, all of its tokens are ahead. -/
theorem ahead_ofText {tokens : List Located} (h : tokensOf text = .ok tokens) :
    (ofText text).ahead = tokens := by
  obtain ⟨found, last, upcoming, ending, rfl⟩ := tokens_eq_ok h
  have inner : ∀ next ∈ found, next.token ≠ .endOfText := by
    intro next mem
    have listed : .ok next ∈ (ofText text).upcoming := upcoming ▸ List.mem_map_of_mem mem
    exact (sound_ofText listed).2
  unfold ahead
  rw [ending, upcoming, aheadIn_map_ok last found inner]

end Feed

/-! ### Readers -/

namespace Reader

variable {text : String} {limit : Nat} {r : Reader}

/-- Every token the reader has and will have is sound. -/
def Sound (r : Reader) : Prop :=
  r.token.Sound ∧ ∀ next, .ok next ∈ r.feed.upcoming → next.token.Sound

/-- A reader at the beginning of a text stands at its first token, or at the end of the text. -/
theorem ofText_cases (h : ofText text limit = .ok r) :
    (∃ first later, (Feed.ofText text).upcoming = .ok first :: later ∧
      r = ⟨first.token, first.place, ⟨later, (Feed.ofText text).ending⟩, limit, 0, []⟩) ∨
    (∃ place, (Feed.ofText text).upcoming = [] ∧ (Feed.ofText text).ending = .ok place ∧
      r = ⟨.endOfText, place, Feed.ofText text, limit, 0, []⟩) := by
  unfold ofText Feed.pull at h
  cases upcoming : (Feed.ofText text).upcoming with
  | nil =>
    rw [upcoming] at h
    cases ending : (Feed.ofText text).ending with
    | ok place =>
      simp only [ending, Except.map] at h
      cases h
      exact .inr ⟨place, rfl, rfl, rfl⟩
    | error e =>
      simp only [ending, Except.map] at h
      cases h
  | cons lexeme later =>
    rw [upcoming] at h
    cases lexeme with
    | ok first =>
      cases h
      exact .inl ⟨first, later, rfl, rfl⟩
    | error e => cases h

theorem ahead_of_ofText (h : ofText text limit = .ok r) : r.ahead = (Feed.ofText text).ahead := by
  unfold ahead Feed.ahead
  obtain ⟨first, later, upcoming, rfl⟩ | ⟨place, upcoming, ending, rfl⟩ := ofText_cases h
  · rw [upcoming, Feed.aheadIn]
    simp only
    split <;> rfl
  · rw [upcoming, ending]
    rfl

theorem limit_of_ofText (h : ofText text limit = .ok r) : r.limit = limit := by
  obtain ⟨first, later, -, rfl⟩ | ⟨place, -, -, rfl⟩ := ofText_cases h <;> rfl

theorem depth_of_ofText (h : ofText text limit = .ok r) : r.depth = 0 := by
  obtain ⟨first, later, -, rfl⟩ | ⟨place, -, -, rfl⟩ := ofText_cases h <;> rfl

theorem events_of_ofText (h : ofText text limit = .ok r) : r.events = [] := by
  obtain ⟨first, later, -, rfl⟩ | ⟨place, -, -, rfl⟩ := ofText_cases h <;> rfl

/-- A text has no more tokens than characters. -/
theorem remaining_of_ofText (h : ofText text limit = .ok r) : r.remaining ≤ text.length := by
  have short := Feed.length_upcoming_ofText text
  unfold remaining
  obtain ⟨first, later, upcoming, rfl⟩ | ⟨place, upcoming, -, rfl⟩ := ofText_cases h
  · -- The token the reader stands at was the first of the feed, and counts.
    rw [upcoming, List.length_cons] at short
    simp only
    split <;> omega
  · simp [upcoming]

theorem sound_of_ofText (h : ofText text limit = .ok r) : r.Sound := by
  have sound {lexeme : Lexeme} : lexeme ∈ (Feed.ofText text).upcoming → Lexeme.Sound lexeme :=
    Feed.sound_ofText
  obtain ⟨first, later, upcoming, rfl⟩ | ⟨place, upcoming, -, rfl⟩ := ofText_cases h
  · rw [upcoming] at sound
    exact ⟨(sound List.mem_cons_self).1, fun _ mem => (sound (List.mem_cons_of_mem _ mem)).1⟩
  · exact ⟨trivial, by simp [upcoming]⟩

/-- A text of which a reader sees the end has tokens. -/
theorem exists_tokensOf_of_clean (h : ofText text limit = .ok r) (clean : r.Clean) :
    ∃ tokens, tokensOf text = .ok tokens := by
  have inner (next : Located) (mem : .ok next ∈ (Feed.ofText text).upcoming) :
      next.token ≠ .endOfText := by
    have sound : Lexeme.Sound (.ok next) := Feed.sound_ofText mem
    exact sound.2
  unfold Clean Reader.tokens at clean
  rw [ahead_of_ofText h] at clean
  obtain ⟨found, last, upcoming, ending⟩ := Feed.eq_map_ok_of_ended inner clean
  refine ⟨found ++ [⟨.endOfText, last⟩], ?_⟩
  unfold tokensOf Feed.tokens
  rw [upcoming, ending, Feed.located_map_ok]
  simp [bind, Except.bind, pure, Except.pure]

/-- **A text without faults has a reader at its beginning**, with all its tokens ahead. -/
theorem exists_ofText {tokens : List Located} (limit : Nat) (h : tokensOf text = .ok tokens) :
    ∃ r, ofText text limit = .ok r ∧ r.ahead = tokens ∧ r.Clean := by
  have ahead := Feed.ahead_ofText h
  obtain ⟨found, last, upcoming, ending, rfl⟩ := Feed.tokens_eq_ok h
  have read : ∃ r, ofText text limit = .ok r := by
    unfold ofText Feed.pull
    cases found with
    | nil => exact ⟨_, by rw [upcoming, ending]; rfl⟩
    | cons first later => exact ⟨_, by rw [upcoming]; rfl⟩
  obtain ⟨r, read⟩ := read
  have same := (ahead_of_ofText read).trans ahead
  refine ⟨r, read, same, ?_⟩
  simp [Clean, Reader.tokens, same]

end Reader

end MdxReader
