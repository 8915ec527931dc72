import MdxReader.Decimal
import MdxReader.Keyword

/-!
# Tokens

What MDX text consists of, comments and white space apart.
-/

namespace MdxReader

/-- The mark around a string literal. -/
inductive Quote where
  | double
  | single
  deriving DecidableEq

/-- Operators and punctuation. -/
inductive Symbol where
  | plus | minus | star | slash | concat
  | equal | notEqual | less | greater | lessEqual | greaterEqual
  | openParen | closeParen | openBrace | closeBrace
  | comma | dot | colon | semicolon
  deriving DecidableEq

/-- The characters of a symbol. -/
def Symbol.spelling : Symbol → String
  | plus => "+" | minus => "-" | star => "*" | slash => "/" | concat => "||"
  | equal => "=" | notEqual => "<>" | less => "<" | greater => ">"
  | lessEqual => "<=" | greaterEqual => ">="
  | openParen => "(" | closeParen => ")" | openBrace => "\x7b" | closeBrace => "\x7d"
  | comma => "," | dot => "." | colon => ":" | semicolon => ";"

/-- A token.  Names and strings are held without their delimiters, and with doubled delimiters
undone. -/
inductive Token where
  /-- `42`, `10.25`, `1e6`; a sign is never part of it. -/
  | number (value : Decimal)
  /-- `"text"` or `'text'`. -/
  | string (value : String) (quote : Quote)
  /-- A bare word that is no keyword. -/
  | word (spelling : String)
  /-- A keyword, as it was spelled. -/
  | keyword (keyword : Keyword) (spelling : String)
  /-- `[Unit Sales]`. -/
  | bracketed (name : String)
  /-- `&[2024]`. -/
  | bracketedKey (name : String)
  /-- `&Q1`. -/
  | wordKey (name : String)
  | symbol (symbol : Symbol)
  /-- What follows the last token. -/
  | endOfText
  deriving DecidableEq

namespace Token

/-- A name in brackets, where a closing bracket is written twice. -/
def inBrackets (name : String) : String :=
  "[" ++ String.ofList (name.toList.flatMap fun c => if c = ']' then [c, c] else [c]) ++ "]"

/-- How a token is named in a message. -/
def describe : Token → String
  | number value => "number " ++ value.text
  | string value _ => "string \"" ++ value ++ "\""
  | word spelling => "identifier '" ++ spelling ++ "'"
  | keyword k _ => "keyword " ++ k.spelling
  | bracketed name => "identifier " ++ inBrackets name
  | bracketedKey name => "key &" ++ inBrackets name
  | wordKey name => "key &" ++ name
  | symbol s => "'" ++ s.spelling ++ "'"
  | endOfText => "end of input"

/-- The token is this keyword, however it is spelled. -/
def isKeyword (token : Token) (k : Keyword) : Bool :=
  match token with
  | keyword found _ => found == k
  | _ => false

/-- The token is this symbol. -/
def isSymbol (token : Token) (s : Symbol) : Bool :=
  match token with
  | symbol found => found == s
  | _ => false

/-- The token is one part of a key. -/
def isKeyPart : Token → Bool
  | bracketedKey _ | wordKey _ => true
  | _ => false

/-- Equality of tokens, where numbers count by value. -/
def same : Token → Token → Bool
  | number a, number b => a.sameValue b
  | a, b => a == b

theorem isSymbol_iff {token : Token} {s : Symbol} :
    token.isSymbol s = true ↔ token = symbol s := by
  cases token <;> simp [isSymbol]

theorem isKeyword_iff {token : Token} {k : Keyword} :
    token.isKeyword k = true ↔ ∃ spelling, token = keyword k spelling := by
  cases token <;> simp [isKeyword]

theorem ne_endOfText_of_isSymbol {token : Token} {s : Symbol} (h : token.isSymbol s = true) :
    token ≠ endOfText := by
  rintro rfl
  simp [isSymbol] at h

theorem ne_endOfText_of_isKeyword {token : Token} {k : Keyword} (h : token.isKeyword k = true) :
    token ≠ endOfText := by
  rintro rfl
  simp [isKeyword] at h

theorem ne_endOfText_of_isKeyPart {token : Token} (h : token.isKeyPart = true) :
    token ≠ endOfText := by
  rintro rfl
  simp [isKeyPart] at h

end Token

end MdxReader
