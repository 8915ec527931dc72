import MdxReader.Token.Scan

/-!
# The tokens of a text

Scanning a text again and again gives an endless sequence of answers, but only finitely many before
the one that repeats.  A `Feed` holds that sequence: the answers still to come, and how the text
ends.  `Feed.ofText` is the feed of a whole text, `Feed.tokens` its tokens if nothing is wrong.
-/

namespace MdxReader

/-- A token and the place where it begins. -/
structure Located where
  token : Token
  place : Position
  deriving DecidableEq

/-- One answer of a scanner. -/
abbrev Lexeme := Except ScanError Located

/-- The answers of a scanner from some point on. -/
structure Feed where
  /-- The answers up to the one that repeats. -/
  upcoming : List Lexeme
  /-- The answer that repeats: where the text ends, or the error at a character that starts no
  token. -/
  ending : Except ScanError Position

namespace Feed

/-- The next answer, and what comes after it. -/
def pull (feed : Feed) : Lexeme × Feed :=
  match feed.upcoming with
  | lexeme :: later => (lexeme, ⟨later, feed.ending⟩)
  | [] => (feed.ending.map (⟨.endOfText, ·⟩), feed)

/-- All answers of a scanner; `read` holds those before, newest first. -/
def collect (read : List Lexeme) (s : Scanner) : Feed :=
  let step := s.next
  if goesOn : isFinal step.1 = false then
    have := Scanner.length_rest_next_lt goesOn
    collect (step.1.map (⟨·, step.2.mark⟩) :: read) step.2
  else ⟨read.reverse, step.1.map fun _ => step.2.mark⟩
termination_by s.cursor.rest.length

/-- The answers for a text, from its beginning. -/
def ofText (text : String) : Feed :=
  collect [] (.ofText text)

/-- Appends the tokens of a list of answers to `read`, which is newest first, up to the first
error. -/
def located (read : List Located) : List Lexeme → Except ScanError (List Located)
  | [] => .ok read
  | .ok token :: later => located (token :: read) later
  | .error e :: _ => .error e

/-- The tokens of a feed in order, the end of the text last; the first error if there is one. -/
def tokens (feed : Feed) : Except ScanError (List Located) := do
  let read ← located [] feed.upcoming
  let last ← feed.ending
  return (⟨.endOfText, last⟩ :: read).reverse

end Feed

/-- The tokens of a text and where they begin. -/
def tokensOf (text : String) : Except ScanError (List Located) :=
  (Feed.ofText text).tokens

end MdxReader
