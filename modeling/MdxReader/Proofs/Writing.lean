import MdxReader.Proofs.Descent.Equations
import MdxReader.Proofs.Spelling
import MdxReader.Proofs.WellFormed

/-!
# Writing expressions

`Expr.tokens` writes an expression.  Every part of an expression that is not an identifier stands in
parentheses (`Expr.enclosed`), so that no operator of the part can meet one from outside; what a
call looks like around its parts is `CallForm.layout`.

A well-formed expression is read back from its tokens: recursive descent comes to it and stops
where they end (`expr?_tokens`).  The proof is an induction on the expression.  What it needs of a
part is that as an operand the part is taken whole and the accesses go on behind it
(`Expr.ReadBack`), and this is the same for a part in parentheses and for an identifier.
-/

namespace MdxReader

open Text Descent

/-! ### Names -/

/-- The token of a name. -/
def Name.token (name : Name) : Token :=
  match name.quoting with
  | .bare => .ofWord name.text
  | .quoted => .bracketed name.text

/-- The token of a part of a key. -/
def Name.partToken (name : Name) : Token :=
  match name.quoting with
  | .bare => .wordKey name.text
  | .quoted => .bracketedKey name.text

/-- The tokens of a segment. -/
def Segment.tokens : Segment → List Token
  | name found => [found.token]
  | key found => found.parts.map Name.partToken

/-- The tokens of an identifier. -/
def Identifier.tokens : Identifier → List Token
  | single segment => segment.tokens
  | dotted qualifier segment => qualifier.tokens ++ .symbol .dot :: segment.tokens

/-! ### Operators -/

/-- A keyword as it is spelled. -/
def Token.ofKeyword (k : Keyword) : Token := .keyword k k.spelling

/-- The tokens of an operator. -/
def Operator.tokens : Operator → List Token
  | named => [.ofKeyword .AS]
  | or => [.ofKeyword .OR]
  | xor => [.ofKeyword .XOR]
  | range => [.symbol .colon]
  | and => [.ofKeyword .AND]
  | not => [.ofKeyword .NOT]
  | equal => [.symbol .equal]
  | notEqual => [.symbol .notEqual]
  | less => [.symbol .less]
  | greater => [.symbol .greater]
  | lessEqual => [.symbol .lessEqual]
  | greaterEqual => [.symbol .greaterEqual]
  | identical => [.ofKeyword .IS]
  | within => [.ofKeyword .IN]
  | matching => [.ofKeyword .MATCHES]
  | notWithin => [.ofKeyword .NOT, .ofKeyword .IN]
  | notMatching => [.ofKeyword .NOT, .ofKeyword .MATCHES]
  | isNull => [.ofKeyword .IS, .ofKeyword .NULL]
  | isNotNull => [.ofKeyword .IS, .ofKeyword .NOT, .ofKeyword .NULL]
  | isEmpty => [.ofKeyword .IS, .ofKeyword .EMPTY]
  | isNotEmpty => [.ofKeyword .IS, .ofKeyword .NOT, .ofKeyword .EMPTY]
  | add | positive => [.symbol .plus]
  | subtract | negate => [.symbol .minus]
  | concat => [.symbol .concat]
  | multiply => [.symbol .star]
  | divide => [.symbol .slash]
  | existing => [.ofKeyword .EXISTING]

/-- The tokens of the operator with this place and name, which is no negated one. -/
def operatorTokens (fixity : Fixity) (symbol : String) : List Token :=
  let fits (operator : Operator) : Bool :=
    decide (operator.fixity = fixity) && operator.symbol == symbol && !operator.isNegated
  ((Operator.all.find? fits).map Operator.tokens).getD []

/-! ### Expressions -/

/-- Lists of tokens, commas between them. -/
def commas : List (List Token) → List Token
  | [] => []
  | [ts] => ts
  | ts :: more => ts ++ .symbol .comma :: commas more

/-- What a call looks like around its arguments. -/
def CallForm.layout (form : CallForm) (name : String) (args : List (List Token)) : List Token :=
  match form, args with
  | .function, args =>
    .ofWord name :: .symbol .openParen :: commas args ++ [.symbol .closeParen]
  | .method, x :: args =>
    x ++ .symbol .dot :: .bracketed name :: .symbol .openParen :: commas args ++
      [.symbol .closeParen]
  | .property, [x] => x ++ [.symbol .dot, .ofWord name]
  | .quotedProperty, [x] =>
    x ++ [.symbol .dot, if isWord name then .wordKey name else .bracketed name]
  | .keyProperty, [x] => x ++ [.symbol .dot, .bracketed ("&" ++ name)]
  | .leading, [x] => operatorTokens .before name ++ x
  | .trailing, [x] => x ++ operatorTokens .after name
  | .binary, [x, y] => x ++ operatorTokens .between name ++ y
  | .braces, items => .symbol .openBrace :: commas items ++ [.symbol .closeBrace]
  | .parentheses, items => .symbol .openParen :: commas items ++ [.symbol .closeParen]
  | .cast, [x, type] =>
    .ofKeyword .CAST :: .symbol .openParen :: x ++ .ofKeyword .AS :: type ++ [.symbol .closeParen]
  | _, _ => []

namespace Expr

/-- What is no identifier, no type and not left out stands in parentheses. -/
def enclose (x : Expr) (ts : List Token) : List Token :=
  match x with
  | identifier _ | typeName _ | call .elided _ _ => ts
  | _ => .symbol .openParen :: ts ++ [.symbol .closeParen]

mutual

/-- **The tokens of an expression**, all of whose parts stand in parentheses. -/
def tokens : Expr → List Token
  | number value => [.number value]
  | string value => [.string value .double]
  | typeName name => [.bracketed name]
  | null => [.ofKeyword .NULL]
  | identifier id => id.tokens
  | call form name args => form.layout name (tokensAll args)
  | choice operand branches otherwise =>
    .ofKeyword .CASE :: tokensOption operand ++ tokensBranches branches ++
      (if otherwise.isSome then .ofKeyword .ELSE :: tokensOption otherwise else []) ++
      [.ofKeyword .END]

/-- The tokens of each argument. -/
def tokensAll : List Expr → List (List Token)
  | [] => []
  | x :: xs => x.enclose x.tokens :: tokensAll xs

/-- The tokens of the branches of a `CASE`. -/
def tokensBranches : List (Expr × Expr) → List Token
  | [] => []
  | (condition, result) :: branches =>
    .ofKeyword .WHEN :: condition.enclose condition.tokens ++
      .ofKeyword .THEN :: result.enclose result.tokens ++ tokensBranches branches

/-- The tokens of an expression that may be absent. -/
def tokensOption : Option Expr → List Token
  | none => []
  | some x => x.enclose x.tokens

end

/-- The tokens of a part of an expression. -/
def enclosed (x : Expr) : List Token := x.enclose x.tokens

/-- Arguments are written one by one, in parentheses. -/
theorem tokensAll_eq (xs : List Expr) : tokensAll xs = xs.map enclosed := by
  induction xs with
  | nil => rfl
  | cons x xs ih => rw [tokensAll, ih]; rfl

theorem tokens_call (form : CallForm) (name : String) (args : List Expr) :
    (call form name args).tokens = form.layout name (args.map enclosed) := by
  rw [tokens, tokensAll_eq]

/-- The text of an expression. -/
def text (x : Expr) : String := spaced x.tokens

end Expr

/-! ### Reading names back -/

/-- The token of a bare name is a word, or a keyword that is not reserved. -/
theorem ofWord_cases {text : String} (bare : BareName text) :
    Token.ofWord text = .word text ∨
      ∃ k, Token.ofWord text = .keyword k text ∧ k.isReserved = false := by
  have free := bare.2
  unfold Keyword.isReservedWord at free
  unfold Token.ofWord
  cases word : Keyword.ofWord? text with
  | none => exact .inl rfl
  | some k =>
    rw [word] at free
    exact .inr ⟨k, rfl, free⟩

/-- A bare name is read back, be it a keyword or not. -/
theorem name?_ofWord {text : String} (bare : BareName text) :
    name? (.ofWord text) = some ⟨text, .bare⟩ := by
  rcases ofWord_cases bare with word | ⟨k, word, free⟩
  · rw [word]
    rfl
  · rw [word, name?_keyword, free, if_neg Bool.false_ne_true]

theorem isEmpty_eq_false {text : String} (named : text ≠ "") : text.isEmpty = false := by
  rw [Bool.eq_false_iff]
  exact fun empty => named (String.isEmpty_iff.mp empty)

theorem name?_bracketed {text : String} (named : text ≠ "") :
    name? (.bracketed text) = some ⟨text, .quoted⟩ := by
  simp only [name?, isEmpty_eq_false named, Bool.false_eq_true, if_false]

/-- A name is read back from its token. -/
theorem name?_token {name : Name} (valid : name.Valid) : name? name.token = some name := by
  obtain ⟨text, quoting⟩ := name
  cases quoting with
  | bare => exact name?_ofWord valid
  | quoted => exact name?_bracketed valid

/-- A name by itself is no part of a key. -/
theorem isKeyPart_token (name : Name) : name.token.isKeyPart = false := by
  obtain ⟨text, quoting⟩ := name
  cases quoting with
  | bare =>
    simp only [Name.token, Token.ofWord]
    split <;> rfl
  | quoted => rfl

theorem isKeyPart_partToken (name : Name) : name.partToken.isKeyPart = true := by
  obtain ⟨text, quoting⟩ := name
  cases quoting <;> rfl

theorem keyPart?_partToken {name : Name} (valid : name.ValidPart) :
    keyPart? name.partToken = some name := by
  obtain ⟨text, quoting⟩ := name
  cases quoting with
  | bare => rfl
  | quoted =>
    simp only [Name.partToken, keyPart?, isEmpty_eq_false valid, Bool.false_eq_true, if_false]

/-- The parts of a key are taken as long as there are some. -/
theorem keyParts_append {parts : List Name} (valid : ∀ part ∈ parts, part.ValidPart)
    {rest : List Token} (stop : (look rest).isKeyPart = false) :
    keyParts (parts.map Name.partToken ++ rest) = some (parts, rest) := by
  induction parts with
  | nil =>
    cases rest with
    | nil => rfl
    | cons t rest =>
      have other : t.isKeyPart = false := stop
      simp only [List.map_nil, List.nil_append, keyParts_cons, other, Bool.false_eq_true, if_false]
  | cons part parts ih =>
    obtain ⟨first, others⟩ := List.forall_mem_cons.mp valid
    simp only [List.map_cons, List.cons_append, keyParts_cons, isKeyPart_partToken, if_true,
      keyPart?_partToken first, ih others, Option.bind_some, Option.map_some]

/-- A key is read back where no further part follows. -/
theorem key?_append {key : Key} (valid : key.Valid) {rest : List Token}
    (stop : (look rest).isKeyPart = false) :
    key? key.first.partToken (key.more.map Name.partToken ++ rest) = some (key, rest) := by
  obtain ⟨first, others⟩ := List.forall_mem_cons.mp valid
  simp only [key?, keyPart?_partToken first, keyParts_append others stop]

/-- A segment is read back where no part of a key follows. -/
theorem segment?_tokens {segment : Segment} (valid : segment.Valid) {rest : List Token}
    (stop : (look rest).isKeyPart = false) :
    segment? (segment.tokens ++ rest) = some (segment, rest) := by
  cases segment with
  | name found =>
    simp only [Segment.tokens, List.cons_append, List.nil_append, segment?_cons, isKeyPart_token,
      Bool.false_eq_true, if_false, name?_token valid, Option.map_some]
  | key found =>
    simp only [Segment.tokens, Key.parts, List.map_cons, List.cons_append, segment?_cons,
      isKeyPart_partToken, if_true, key?_append valid stop, Option.map_some]

/-- An identifier is taken whole, and the segments go on behind it. -/
theorem identifier?_tokens {id : Identifier} (valid : id.Valid) {rest : List Token}
    (stop : (look rest).isKeyPart = false) :
    identifier? (id.tokens ++ rest) = moreSegments id rest := by
  -- The qualifier comes first and goes on with the dot, so the induction is for every rest.
  induction id generalizing rest with
  | single segment =>
    rw [identifier?, Identifier.tokens, segment?_tokens valid stop, Option.bind_some]
  | dotted qualifier segment ih =>
    rw [Identifier.tokens, List.append_assoc, List.cons_append, ih valid.1 rfl, moreSegments_dot,
      segment?_tokens valid.2 stop, Option.bind_some]

/-! ### Reading identifiers back as operands -/

/-- The tokens do not go on with what precedes them as an identifier. -/
structure Follows (rest : List Token) : Prop where
  noParen : (look rest).isSymbol .openParen = false
  noKey : (look rest).isKeyPart = false

/-- A bare name is no operator, as those that are words are reserved. -/
theorem leading?_ofWord {text : String} (bare : BareName text) :
    Operator.leading? (.ofWord text) = none := by
  rcases ofWord_cases bare with word | ⟨k, word, free⟩
  · rw [word]
    rfl
  · -- `NOT` and `EXISTING` are reserved.
    rw [word]
    cases k <;> first | rfl | cases free

theorem primary?_ofWord {text : String} (bare : BareName text) (ts : List Token) :
    primary? (.ofWord text) ts = nameOrFunction? text ts := by
  rcases ofWord_cases bare with word | ⟨k, word, free⟩
  · rw [word]
    exact primary?_word text ts
  · -- So are `NULL`, `CASE` and `CAST`.
    rw [word, primary?_keyword]
    cases k <;> first | rfl | cases free

theorem leading?_of_isKeyPart {t : Token} (h : t.isKeyPart = true) :
    Operator.leading? t = none := by
  cases t <;> first | rfl | cases h

/-- A segment that is a whole operand. -/
theorem operand?_segment {cast : Bool} {segment : Segment} (valid : segment.Valid)
    {rest : List Token} (follows : Follows rest) :
    operand? cast (segment.tokens ++ rest) = accesses? (.identifier (.single segment)) rest := by
  cases segment with
  | name found =>
    obtain ⟨text, quoting⟩ := found
    cases quoting with
    | bare =>
      change operand? cast (.ofWord text :: rest) = _
      rw [operand?_of_primary rest (leading?_ofWord valid), primary?_ofWord valid,
        nameOrFunction?_eq, if_neg (Bool.eq_false_iff.mp follows.noParen)]
      rfl
    | quoted =>
      change operand? cast (.bracketed text :: rest) = _
      rw [operand?_of_primary rest rfl, primary?_bracketed,
        if_neg (Bool.eq_false_iff.mp (isEmpty_eq_false valid))]
      rfl
  | key found =>
    have part := isKeyPart_partToken found.first
    change operand? cast (found.first.partToken :: (found.more.map Name.partToken ++ rest)) = _
    rw [operand?_of_primary _ (leading?_of_isKeyPart part), primary?_of_isKeyPart _ part,
      key?_append valid follows.noKey]
    rfl

/-- What is attached behind a dot, where no argument list follows. -/
theorem accesses?_of_attached {x y : Expr} {t : Token} {later rest : List Token}
    (noParen : (look later).isSymbol .openParen = false)
    (attached : attach? x t later = some (y, rest)) :
    accesses? x (.symbol .dot :: t :: later) = accesses? y rest := by
  have noMethod : method? (look (t :: later)) ((t :: later).drop 1) = none :=
    if_neg (Bool.eq_false_iff.mp noParen)
  rw [accesses?_of_attach rfl _ x noMethod]
  exact congrArg (Option.bind · _) attached

/-- A plain name in brackets extends an identifier and is a property of anything else. -/
theorem attachName_plain {text : String} (named : text ≠ "") (plain : ¬ StartsWithAmpersand text)
    (x : Expr) : attachName x text = some (match x with
      | .identifier id => .identifier (id.dotted (.name ⟨text, .quoted⟩))
      | x => .call .quotedProperty text [x]) := by
  unfold attachName
  split
  · rename_i empty
    exact absurd (String.toList_eq_nil_iff.mp empty) named
  · rename_i alone
    exact absurd ⟨_, alone⟩ plain
  · rename_i rest _ starts
    exact absurd ⟨rest, starts⟩ plain
  · cases x <;> rfl

/-- A key is attached once all of its parts are taken. -/
theorem attach?_key {x y : Expr} {key : Key} (valid : key.Valid) {rest : List Token}
    (stop : (look rest).isKeyPart = false) (attached : attachKey x key = some y) :
    attach? x key.first.partToken (key.more.map Name.partToken ++ rest) = some (y, rest) := by
  have taken := key?_append valid stop
  have keyed : attach? x key.first.partToken (key.more.map Name.partToken ++ rest) =
      (key? key.first.partToken (key.more.map Name.partToken ++ rest)).bind fun read =>
        (attachKey x read.1).map fun y => (y, read.2) := by
    unfold attach? Name.partToken
    cases key.first.quoting <;> rfl
  rw [keyed, taken]
  exact congrArg (Option.map fun y => (y, rest)) attached

/-- The token behind a key's first part is another part or what follows the key. -/
theorem look_parts {more : List Name} {rest : List Token}
    (noParen : (look rest).isSymbol .openParen = false) :
    (look (more.map Name.partToken ++ rest)).isSymbol .openParen = false := by
  cases more with
  | nil => exact noParen
  | cons part more =>
    obtain ⟨text, quoting⟩ := part
    cases quoting <;> rfl

/-- A further segment joins the identifier in front of its dot. -/
theorem accesses?_segment {id : Identifier} {segment : Segment} (attachable : segment.Attachable)
    {rest : List Token} (follows : Follows rest) :
    accesses? (.identifier id) (.symbol .dot :: (segment.tokens ++ rest)) =
      accesses? (.identifier (id.dotted segment)) rest := by
  cases segment with
  | name found =>
    obtain ⟨text, quoting⟩ := found
    obtain ⟨rfl, named, plain⟩ := attachable
    have attached := attachName_plain named plain (.identifier id)
    exact accesses?_of_attached follows.noParen (congrArg (Option.map fun y => (y, rest)) attached)
  | key found =>
    -- A single bare part would be a property; an attachable key is no such.
    obtain ⟨valid, enough⟩ := attachable
    refine accesses?_of_attached (look_parts follows.noParen) (attach?_key valid follows.noKey ?_)
    obtain ⟨⟨text, quoting⟩, more⟩ := found
    unfold attachKey
    split
    · rename_i alone
      cases alone
      cases enough rfl
    · rfl

/-- An identifier is taken whole as an operand, and the accesses go on behind it. -/
theorem operand?_identifier {cast : Bool} {id : Identifier} (wellFormed : id.WellFormed)
    {rest : List Token} (follows : Follows rest) :
    operand? cast (id.tokens ++ rest) = accesses? (.identifier id) rest := by
  induction id generalizing rest with
  | single segment => exact operand?_segment wellFormed follows
  | dotted qualifier segment ih =>
    rw [Identifier.tokens, List.append_assoc, List.cons_append, ih wellFormed.1 ⟨rfl, rfl⟩,
      accesses?_segment wellFormed.2 follows]

/-! ### Parts of expressions -/

/-- The tokens do not go on with the operand that precedes them. -/
structure Detached (rest : List Token) : Prop extends Follows rest where
  noDot : (look rest).isSymbol .dot = false

/-- The tokens do not go on with the expression that precedes them. -/
structure Ended (cast : Bool) (rest : List Token) : Prop extends Detached rest where
  stops : upcoming cast rest = .nothing

/-- The first token of a part: an opening parenthesis, a name or a part of a key. -/
def Token.Begins (t : Token) : Prop :=
  (∀ s, s ≠ .openParen → t.isSymbol s = false) ∧ ∀ k, k.isReserved = true → t.isKeyword k = false

/-- A part of an expression is told from what ends an expression by its first token.  As an operand
it is taken whole, and the accesses go on behind it. -/
structure Expr.ReadBack (x : Expr) : Prop where
  begins : ∃ t later, x.enclosed = t :: later ∧ t.Begins
  whole : ∀ cast rest, Follows rest → operand? cast (x.enclosed ++ rest) = accesses? x rest

/-- An operand that nothing continues is the whole expression. -/
theorem expr?_of_operand? {cast : Bool} {m : Nat} {ts rest : List Token} {x : Expr}
    (operand : operand? cast ts = some (x, rest)) (stops : upcoming cast rest = .nothing) :
    expr? cast m ts = some (x, rest) := by
  rw [expr?_eq, operand]
  exact climb?_of_nothing x stops

namespace Expr.ReadBack

variable {x : Expr} (h : x.ReadBack) {cast : Bool} {rest : List Token}

include h

/-- What follows a part are operators. -/
theorem expr?_eq_climb? {m : Nat} (detached : Detached rest) :
    Descent.expr? cast m (x.enclosed ++ rest) = climb? cast m x rest := by
  rw [expr?_eq, h.whole cast rest detached.toFollows,
    accesses?_of_no_dot x rest detached.noDot, Option.bind_some]

/-- A part is an expression where one ends. -/
theorem expr? {m : Nat} (ended : Ended cast rest) :
    Descent.expr? cast m (x.enclosed ++ rest) = some (x, rest) :=
  (h.expr?_eq_climb? ended.toDetached).trans (climb?_of_nothing x ended.stops)

end Expr.ReadBack

theorem expr?_of_primary? {cast : Bool} {m : Nat} {t : Token} {ts rest : List Token} {x : Expr}
    (plain : Operator.leading? t = none) (primary : primary? t ts = some (x, rest))
    (ended : Ended cast rest) : expr? cast m (t :: ts) = some (x, rest) := by
  refine expr?_of_operand? ?_ ended.stops
  rw [operand?_of_primary ts plain, primary]
  exact accesses?_of_no_dot x rest ended.noDot

/-- Where no argument may be left out an item is an expression. -/
theorem items?_full {ts : List Token} (further : ts ≠ []) (closing : Symbol) :
    items? false closing ts =
      (expr? false 0 ts).bind fun (x, rest) => moreItems? false closing x rest := by
  obtain ⟨t, later, rfl⟩ := List.exists_cons_of_ne_nil further
  rw [items?_eq, Bool.false_and, if_neg Bool.false_ne_true]

/-- In parentheses an expression is taken whole. -/
theorem operand?_parens {cast : Bool} {ts rest : List Token} {x : Expr}
    (read : expr? false 0 (ts ++ .symbol .closeParen :: rest) =
      some (x, .symbol .closeParen :: rest)) :
    operand? cast (.symbol .openParen :: (ts ++ .symbol .closeParen :: rest)) =
      accesses? x rest := by
  have items : items? false .closeParen (ts ++ .symbol .closeParen :: rest) = some ([x], rest) := by
    rw [items?_full (by simp), read]
    exact moreItems?_eq ..
  rw [operand?_of_primary _ rfl, primary?_openParen, items]
  rfl

theorem begins_openParen : (Token.symbol .openParen).Begins := by
  refine ⟨fun s other => Bool.eq_false_iff.mpr fun same => ?_, fun _ _ => rfl⟩
  exact other (Token.symbol.inj (Token.isSymbol_iff.mp same)).symm

theorem begins_ofWord {text : String} (bare : BareName text) : (Token.ofWord text).Begins := by
  rcases ofWord_cases bare with word | ⟨k, word, free⟩
  · rw [word]
    exact ⟨fun _ _ => rfl, fun _ _ => rfl⟩
  · rw [word]
    refine ⟨fun _ _ => rfl, fun other reserved => Bool.eq_false_iff.mpr fun same => ?_⟩
    obtain ⟨spelling, found⟩ := Token.isKeyword_iff.mp same
    cases found
    rw [free] at reserved
    cases reserved

theorem begins_identifier {id : Identifier} (wellFormed : id.WellFormed) :
    ∃ t later, id.tokens = t :: later ∧ t.Begins := by
  induction id with
  | single segment =>
    cases segment with
    | name found =>
      obtain ⟨text, quoting⟩ := found
      cases quoting with
      | bare => exact ⟨_, _, rfl, begins_ofWord wellFormed⟩
      | quoted => exact ⟨_, _, rfl, fun _ _ => rfl, fun _ _ => rfl⟩
    | key found =>
      obtain ⟨⟨text, quoting⟩, more⟩ := found
      cases quoting <;> exact ⟨_, _, rfl, fun _ _ => rfl, fun _ _ => rfl⟩
  | dotted qualifier segment ih =>
    obtain ⟨t, later, tokens, begins⟩ := ih wellFormed.1
    exact ⟨t, _, by rw [Identifier.tokens, tokens]; rfl, begins⟩

/-- **A part of an expression is taken whole**, if the expression itself is read back. -/
theorem Expr.WellFormed.readBack {x : Expr} (wellFormed : x.WellFormed)
    (read : ∀ rest, Ended false rest → expr? false 0 (x.tokens ++ rest) = some (x, rest)) :
    x.ReadBack := by
  -- In parentheses it does not matter what the expression is, only that it is read back inside.
  have enclosed (box : x.enclosed = .symbol .openParen :: x.tokens ++ [.symbol .closeParen]) :
      x.ReadBack := by
    refine ⟨⟨_, _, box, begins_openParen⟩, fun cast rest follows => ?_⟩
    rw [box, List.append_assoc, List.cons_append]
    exact operand?_parens (read _ ⟨⟨⟨rfl, rfl⟩, rfl⟩, rfl⟩)
  cases wellFormed with
  | identifier valid => exact ⟨begins_identifier valid, fun _ _ => operand?_identifier valid⟩
  | _ => exact enclosed rfl

/-! ### Items -/

/-- What can stand between commas: a part, or with `gaps` nothing. -/
def IsItem (gaps : Bool) (x : Expr) : Prop := x.ReadBack ∨ (gaps = true ∧ x = .elided)

section Items

variable {gaps : Bool} {closing : Symbol}
  (closes : closing = .closeParen ∨ (gaps = false ∧ closing = .closeBrace))

include closes

/-- An item is taken up to the comma or the closing symbol behind it. -/
theorem items?_first {x : Expr} (item : IsItem gaps x) {s : Symbol}
    (behind : s = .comma ∨ s = closing) (rest : List Token) :
    items? gaps closing (x.enclosed ++ .symbol s :: rest) =
      moreItems? gaps closing x (.symbol s :: rest) := by
  have ended : Ended false (.symbol s :: rest) := by
    obtain rfl | rfl := behind
    · exact ⟨⟨⟨rfl, rfl⟩, rfl⟩, rfl⟩
    · obtain rfl | ⟨-, rfl⟩ := closes <;> exact ⟨⟨⟨rfl, rfl⟩, rfl⟩, rfl⟩
  rcases item with part | ⟨rfl, rfl⟩
  · obtain ⟨t, later, begins, other, -⟩ := part.begins
    -- The first token of a part is none of those that stand for a gap.
    have full : (gaps && (t.isSymbol .comma || t.isSymbol .closeParen)) = false := by
      rw [other .comma (by decide), other .closeParen (by decide), Bool.or_false, Bool.and_false]
    have read : expr? false 0 (x.enclosed ++ .symbol s :: rest) = some (x, .symbol s :: rest) :=
      part.expr? ended
    rw [begins, List.cons_append] at read ⊢
    rw [items?_eq, full, if_neg Bool.false_ne_true, read]
    rfl
  · have paren : closing = .closeParen := closes.resolve_right (by nofun)
    change items? true closing (.symbol s :: rest) = _
    rw [items?_eq]
    refine if_pos ?_
    obtain rfl | rfl := behind
    · rfl
    · rw [paren]
      rfl

/-- **Items with commas between them are read back.** -/
theorem items?_commas {xs : List Expr} (some' : xs ≠ []) (items : ∀ x ∈ xs, IsItem gaps x)
    (rest : List Token) :
    items? gaps closing (commas (xs.map Expr.enclosed) ++ .symbol closing :: rest) =
      some (xs, rest) := by
  induction xs with
  | nil => exact absurd rfl some'
  | cons x xs ih =>
    obtain ⟨first, others⟩ := List.forall_mem_cons.mp items
    cases xs with
    | nil =>
      rw [List.map_singleton, commas, items?_first closes first (.inr rfl), moreItems?_eq]
      obtain rfl | ⟨-, rfl⟩ := closes <;> rfl
    | cons y more =>
      have later := ih (by nofun) others
      rw [List.map_cons] at later ⊢
      rw [List.map_cons, commas, List.append_assoc, List.cons_append,
        items?_first closes first (.inl rfl), moreItems?_eq, later]
      rfl
      nofun

omit closes in
/-- Items do not start like the end of their list, except that a single one may be left out. -/
theorem look_commas {xs : List Expr} (further : xs ≠ []) (enough : gaps = true → xs ≠ [.elided])
    (items : ∀ x ∈ xs, IsItem gaps x) {s : Symbol} (comma : s ≠ .comma) (paren : s ≠ .openParen)
    (rest : List Token) :
    (look (commas (xs.map Expr.enclosed) ++ rest)).isSymbol s = false := by
  obtain ⟨x, more, rfl⟩ := List.exists_cons_of_ne_nil further
  rcases items x List.mem_cons_self with part | ⟨gap, rfl⟩
  · obtain ⟨t, later, begins, other, -⟩ := part.begins
    cases more with
    | nil =>
      rw [List.map_singleton, commas, begins]
      exact other s paren
    | cons y more =>
      rw [List.map_cons, List.map_cons, commas, begins]
      · exact other s paren
      · nofun
  · -- A gap in front of others starts with the comma behind it.
    cases more with
    | nil => exact absurd rfl (enough gap)
    | cons y more =>
      refine Bool.eq_false_iff.mpr fun same => comma ?_
      exact (Token.symbol.inj (Token.isSymbol_iff.mp same)).symm

end Items

/-! ### Operators -/

/-- An operator in front of its operand is one token. -/
theorem leading?_operatorTokens {operator : Operator} (h : operator.fixity = .before) :
    ∃ t, operatorTokens .before operator.symbol = [t] ∧
      Operator.leading? t = some operator := by
  cases operator <;> first | exact ⟨_, rfl, rfl⟩ | cases h

/-- The tokens of an operator behind its operand. -/
theorem upcoming_trailing {operator : Operator} (h : operator.fixity = .after)
    (rest : List Token) :
    Detached (operatorTokens .after operator.symbol ++ rest) ∧ ∃ more,
      upcoming false (operatorTokens .after operator.symbol ++ rest) = .operator operator more ∧
      (operatorTokens .after operator.symbol ++ rest).drop (more + 1) = rest := by
  cases operator <;> first
    | exact ⟨⟨⟨rfl, rfl⟩, rfl⟩, 1, rfl, rfl⟩
    | exact ⟨⟨⟨rfl, rfl⟩, rfl⟩, 2, rfl, rfl⟩
    | cases h

/-- A negated operator has the name of the one that it negates. -/
theorem Operator.exists_positive {operator : Operator} (h : operator.fixity = .between)
    (other : operator ≠ .named) :
    ∃ o : Operator, o.symbol = operator.symbol ∧ o.fixity = .between ∧ o ≠ .named ∧
      o.isNegated = false := by
  by_cases negated : operator.isNegated = true
  · match operator, negated with
    | .notWithin, _ => exact ⟨.within, rfl, rfl, by decide, rfl⟩
    | .notMatching, _ => exact ⟨.matching, rfl, rfl, by decide, rfl⟩
  · exact ⟨operator, rfl, h, other, Bool.eq_false_iff.mpr negated⟩

/-- The token of an operator between two operands.  `IS` is an operator by itself in front of what
begins a part. -/
theorem upcoming_binary {operator : Operator} (h : operator.fixity = .between)
    (other : operator ≠ .named) (positive : operator.isNegated = false) {t : Token}
    (begins : t.Begins) (rest : List Token) :
    ∃ u, operatorTokens .between operator.symbol = [u] ∧ Detached (u :: t :: rest) ∧
      upcoming false (u :: t :: rest) = .operator operator 0 := by
  have identity : upcoming false (.ofKeyword .IS :: t :: rest) = .operator .identical 0 := by
    change afterIs (t :: rest) = _
    simp only [afterIs, look, List.headD_cons, begins.2 .NULL rfl, begins.2 .EMPTY rfl,
      begins.2 .NOT rfl, Bool.false_eq_true, if_false]
  cases operator <;> first
    | exact ⟨_, rfl, ⟨⟨rfl, rfl⟩, rfl⟩, rfl⟩
    | exact ⟨_, rfl, ⟨⟨rfl, rfl⟩, rfl⟩, identity⟩
    | exact absurd rfl other
    | exact absurd positive (by decide)
    | exact absurd h (by decide)

section Operators

variable {operator : Operator} {x y : Expr} {rest : List Token} (ended : Ended false rest)

include ended

theorem expr?_leading (h : operator.fixity = .before) (operand : x.ReadBack) :
    expr? false 0 (operatorTokens .before operator.symbol ++ x.enclosed ++ rest) =
      some (.call .leading operator.symbol [x], rest) := by
  obtain ⟨t, tokens, leads⟩ := leading?_operatorTokens h
  rw [tokens]
  refine expr?_of_operand? ?_ ended.stops
  change operand? false (t :: (x.enclosed ++ rest)) = _
  rw [operand?_of_leading _ leads, operand.expr? ended]
  rfl

theorem expr?_trailing (h : operator.fixity = .after) (operand : x.ReadBack) :
    expr? false 0 (x.enclosed ++ operatorTokens .after operator.symbol ++ rest) =
      some (.call .trailing operator.symbol [x], rest) := by
  obtain ⟨detached, more, found, left⟩ := upcoming_trailing h rest
  rw [List.append_assoc, operand.expr?_eq_climb? detached,
    climb?_of_after x found operator.strength_pos h, left]
  exact climb?_of_nothing _ ended.stops

theorem expr?_binary (h : operator.fixity = .between) (other : operator ≠ .named)
    (left : x.ReadBack) (right : y.ReadBack) :
    expr? false 0 (x.enclosed ++ operatorTokens .between operator.symbol ++ y.enclosed ++ rest) =
      some (.call .binary operator.symbol [x, y], rest) := by
  obtain ⟨o, symbol, between, notNamed, positive⟩ := Operator.exists_positive h other
  obtain ⟨t, later, begins, starts⟩ := right.begins
  obtain ⟨u, tokens, detached, found⟩ :=
    upcoming_binary between notNamed positive starts (later ++ rest)
  -- `o` is what the symbol alone stands for: nothing is negated in a call that was written.
  have joins : joined o x y = .call .binary operator.symbol [x, y] := by
    rw [joined_eq, positive, if_neg Bool.false_ne_true, symbol]
  have read := right.expr? (m := o.strength) ended
  rw [← symbol, tokens, List.append_assoc, List.append_assoc, List.singleton_append]
  rw [begins, List.cons_append] at read ⊢
  rw [left.expr?_eq_climb? detached, climb?_of_between x found o.strength_pos between notNamed,
    List.drop_succ_cons, List.drop_zero, read, symbol]
  change climb? false 0 (joined o x y) rest = _
  rw [joins]
  exact climb?_of_nothing _ ended.stops

theorem expr?_named {id : Identifier} (operand : x.ReadBack) (valid : id.Valid) :
    expr? false 0 (x.enclosed ++ operatorTokens .between Operator.named.symbol ++ id.tokens ++
      rest) = some (.call .binary Operator.named.symbol [x, .identifier id], rest) := by
  have detached : Detached (.ofKeyword .AS :: (id.tokens ++ rest)) := ⟨⟨rfl, rfl⟩, rfl⟩
  change expr? false 0 (x.enclosed ++ [.ofKeyword .AS] ++ id.tokens ++ rest) = _
  rw [List.append_assoc, List.append_assoc, List.singleton_append,
    operand.expr?_eq_climb? detached, climb?_of_named x rfl (by decide),
    List.drop_succ_cons, List.drop_zero, identifier?_tokens valid ended.noKey,
    moreSegments_of_no_dot id rest ended.noDot]
  exact climb?_of_nothing _ ended.stops

end Operators

/-! ### Accesses -/

section Accesses

variable {x y : Expr} {name : String} {rest : List Token} (receiver : x.ReadBack)
  (ended : Ended false rest)

include receiver ended

/-- One token behind a dot that is attached to the receiver. -/
theorem expr?_attached {t : Token} (attached : attach? x t rest = some (y, rest)) :
    expr? false 0 (x.enclosed ++ [.symbol .dot, t] ++ rest) = some (y, rest) := by
  rw [List.append_assoc]
  refine expr?_of_operand? ?_ ended.stops
  have follows : Follows ([.symbol .dot, t] ++ rest) := ⟨rfl, rfl⟩
  rw [receiver.whole false _ follows]
  exact (accesses?_of_attached ended.noParen attached).trans
    (accesses?_of_no_dot y rest ended.noDot)

theorem expr?_property (bare : BareName name) :
    expr? false 0 (x.enclosed ++ [.symbol .dot, .ofWord name] ++ rest) =
      some (.call .property name [x], rest) := by
  refine expr?_attached receiver ended ?_
  have named := name?_ofWord bare
  have plain : attach? x (.ofWord name) rest = (name? (.ofWord name)).map fun name =>
      (.call .property name.text [x], rest) := by
    unfold Token.ofWord
    cases Keyword.ofWord? name <;> rfl
  rw [plain, named]
  rfl

theorem expr?_wordProperty (word : isWord name = true) :
    expr? false 0 (x.enclosed ++ [.symbol .dot, .wordKey name] ++ rest) =
      some (.call .quotedProperty name [x], rest) := by
  refine expr?_attached receiver ended ?_
  have valid : Key.Valid ⟨⟨name, .bare⟩, []⟩ := by
    intro part mem
    rw [List.mem_singleton.mp mem]
    exact word
  exact attach?_key valid ended.noKey rfl

/-- Behind an identifier the name would be another segment, so the receiver is something else. -/
theorem expr?_quotedProperty (named : name ≠ "") (plain : ¬ StartsWithAmpersand name)
    (other : ∀ id, x ≠ .identifier id) :
    expr? false 0 (x.enclosed ++ [.symbol .dot, .bracketed name] ++ rest) =
      some (.call .quotedProperty name [x], rest) := by
  refine expr?_attached receiver ended ?_
  have attached : attachName x name = some (.call .quotedProperty name [x]) := by
    rw [attachName_plain named plain]
    cases x with
    | identifier id => exact absurd rfl (other id)
    | _ => rfl
  exact congrArg (Option.map fun y => (y, rest)) attached

theorem expr?_keyProperty (named : name ≠ "") :
    expr? false 0 (x.enclosed ++ [.symbol .dot, .bracketed ("&" ++ name)] ++ rest) =
      some (.call .keyProperty name [x], rest) := by
  refine expr?_attached receiver ended ?_
  have spelled : ("&" ++ name).toList = '&' :: name.toList := String.toList_append
  have attached : attachName x ("&" ++ name) = some (.call .keyProperty name [x]) := by
    unfold attachName
    rw [spelled]
    split
    · rename_i empty
      cases empty
    · rename_i alone
      exact absurd (String.toList_eq_nil_iff.mp (List.cons.inj alone).2) named
    · rename_i stripped _ found
      rw [← (List.cons.inj found).2, String.ofList_toList]
    · rename_i other
      exact absurd rfl (other name.toList)
  exact congrArg (Option.map fun y => (y, rest)) attached

/-- A method call: an empty argument list is one argument that was left out. -/
theorem expr?_method {args : List Expr} (named : name ≠ "") (further : args ≠ [])
    (items : ∀ arg ∈ args, IsItem true arg) :
    expr? false 0 (x.enclosed ++ .symbol .dot :: .bracketed name :: .symbol .openParen ::
        commas (args.map Expr.enclosed) ++ [.symbol .closeParen] ++ rest) =
      some (.call .method name (x :: args), rest) := by
  refine expr?_of_operand? ?_ ended.stops
  simp only [List.append_assoc, List.cons_append, List.nil_append]
  rw [receiver.whole false _ ⟨rfl, rfl⟩]
  have method (inside : List Token) :
      method? (look (.bracketed name :: .symbol .openParen :: inside))
        ((.bracketed name :: .symbol .openParen :: inside : List Token).drop 1) = some name :=
    (if_pos rfl).trans (congrArg (Option.map Name.text) (name?_bracketed named))
  -- `()` stands for the list of one gap, so that list is written as nothing between parentheses.
  by_cases empty : args = [.elided]
  · subst empty
    exact (accesses?_of_empty_method rfl _ x (method (.symbol .closeParen :: rest)) rfl).trans
      (accesses?_of_no_dot _ rest ended.noDot)
  · have open' : (look (commas (args.map Expr.enclosed) ++ .symbol .closeParen :: rest)).isSymbol
        .closeParen = false :=
      look_commas further (fun _ => empty) items (by decide) (by decide) _
    rw [accesses?_of_method rfl _ x (method _) open']
    change (items? true .closeParen (commas (args.map Expr.enclosed) ++ _)).bind _ = _
    rw [items?_commas (.inl rfl) further items]
    exact accesses?_of_no_dot _ rest ended.noDot

end Accesses

/-! ### Brackets -/

theorem nameOrFunction?_openParen (name : String) (ts : List Token) :
    nameOrFunction? name (.symbol .openParen :: ts) =
      if (look ts).isSymbol .closeParen then some (.call .function name [], ts.drop 1)
      else (items? true .closeParen ts).map fun (args, rest) =>
        (.call .function name args, rest) := by
  rw [nameOrFunction?_eq]
  rfl

theorem primary?_cast (ts : List Token) :
    primary? (.ofKeyword .CAST) (.symbol .openParen :: ts) =
      (expr? true 0 ts).bind fun (x, rest) => (castType? rest).map fun type =>
        (.call .cast "CAST" [x, .typeName type.text], rest.drop 3) := by
  rw [Token.ofKeyword, primary?_keyword, if_neg (by decide), if_neg (by decide), if_pos rfl,
    typed?_eq]
  rfl

section Brackets

variable {xs : List Expr} {rest : List Token} (ended : Ended false rest)

include ended

/-- A function of one argument that was left out could not be told from one without arguments. -/
theorem expr?_function {name : String} (bare : BareName name) (enough : xs ≠ [.elided])
    (items : ∀ x ∈ xs, IsItem true x) :
    expr? false 0 (.ofWord name :: .symbol .openParen :: commas (xs.map Expr.enclosed) ++
        [.symbol .closeParen] ++ rest) = some (.call .function name xs, rest) := by
  simp only [List.append_assoc, List.cons_append, List.nil_append]
  refine expr?_of_primary? (leading?_ofWord bare) ?_ ended
  rw [primary?_ofWord bare, nameOrFunction?_openParen]
  by_cases empty : xs = []
  · subst empty
    exact if_pos rfl
  · have open' : (look (commas (xs.map Expr.enclosed) ++ .symbol .closeParen :: rest)).isSymbol
        .closeParen = false :=
      look_commas empty (fun _ => enough) items (by decide) (by decide) _
    rw [if_neg (Bool.eq_false_iff.mp open'), items?_commas (.inl rfl) empty items]
    rfl

theorem expr?_braces (items : ∀ x ∈ xs, x.ReadBack) :
    expr? false 0 (.symbol .openBrace :: commas (xs.map Expr.enclosed) ++ [.symbol .closeBrace] ++
        rest) = some (.braces xs, rest) := by
  have parts : ∀ x ∈ xs, IsItem false x := fun x mem => .inl (items x mem)
  simp only [List.append_assoc, List.cons_append, List.nil_append]
  refine expr?_of_primary? rfl ?_ ended
  rw [primary?_openBrace]
  by_cases empty : xs = []
  · subst empty
    exact if_pos rfl
  · have open' : (look (commas (xs.map Expr.enclosed) ++ .symbol .closeBrace :: rest)).isSymbol
        .closeBrace = false :=
      look_commas empty (by nofun) parts (by decide) (by decide) _
    rw [if_neg (Bool.eq_false_iff.mp open'), items?_commas (.inr ⟨rfl, rfl⟩) empty parts]
    rfl

/-- One item in parentheses would be no tuple. -/
theorem expr?_tuple (several : 2 ≤ xs.length) (items : ∀ x ∈ xs, x.ReadBack) :
    expr? false 0 (.symbol .openParen :: commas (xs.map Expr.enclosed) ++ [.symbol .closeParen] ++
        rest) = some (.tuple xs, rest) := by
  have parts : ∀ x ∈ xs, IsItem false x := fun x mem => .inl (items x mem)
  have further : xs ≠ [] := by
    rintro rfl
    cases several
  simp only [List.append_assoc, List.cons_append, List.nil_append]
  refine expr?_of_primary? rfl ?_ ended
  rw [primary?_openParen, items?_commas (.inl rfl) further parts]
  match xs, several with
  | x :: y :: more, _ => rfl

theorem expr?_cast {x : Expr} {type : String} (operand : x.ReadBack) (named : type ≠ "") :
    expr? false 0 (.ofKeyword .CAST :: .symbol .openParen :: x.enclosed ++ .ofKeyword .AS ::
        [.bracketed type] ++ [.symbol .closeParen] ++ rest) =
      some (.call .cast "CAST" [x, .typeName type], rest) := by
  simp only [List.append_assoc, List.cons_append, List.nil_append]
  refine expr?_of_primary? rfl ?_ ended
  -- In a `CAST` the operand ends at `AS`, which names nothing here.
  have asType : Ended true (.ofKeyword .AS :: .bracketed type :: .symbol .closeParen :: rest) :=
    ⟨⟨⟨rfl, rfl⟩, rfl⟩, rfl⟩
  have read := operand.expr? (m := 0) asType
  have typed : castType? (.ofKeyword .AS :: .bracketed type :: .symbol .closeParen :: rest) =
      some ⟨type, .quoted⟩ := name?_bracketed named
  rw [primary?_cast, read, Option.bind_some]
  change (castType? _).map _ = _
  rw [typed]
  rfl

end Brackets

/-! ### Choices -/

/-- The tokens of a `CASE` behind its branches. -/
def endTokens (otherwise : Option Expr) : List Token :=
  (if otherwise.isSome then .ofKeyword .ELSE :: Expr.tokensOption otherwise else []) ++
    [.ofKeyword .END]

/-- The keywords that operators behind an operand begin with. -/
def operatorKeywords : List Keyword := [.AS, .OR, .XOR, .AND, .NOT, .IS, .IN, .MATCHES]

/-- No expression goes on with any other keyword. -/
theorem ended_ofKeyword {k : Keyword} (other : k ∉ operatorKeywords) (rest : List Token) :
    Ended false (.ofKeyword k :: rest) := by
  have stops : upcoming false (.ofKeyword k :: rest) = .nothing := by
    cases k <;> first | rfl | exact absurd (by decide) other
  exact ⟨⟨⟨rfl, rfl⟩, rfl⟩, stops⟩

theorem ended_keyword {k : Keyword} (closing : k ∈ [Keyword.WHEN, .THEN, .ELSE, .END])
    (rest : List Token) : Ended false (.ofKeyword k :: rest) := by
  have others : ∀ k ∈ [Keyword.WHEN, .THEN, .ELSE, .END], k ∉ operatorKeywords := by decide
  exact ended_ofKeyword (others k closing) rest

/-- A condition and a result are taken, and the branches go on behind them. -/
theorem branches?_first {condition result : Expr} (test : condition.ReadBack)
    (value : result.ReadBack) {k : Keyword} (closing : k ∈ [Keyword.WHEN, .THEN, .ELSE, .END])
    (rest : List Token) :
    branches? (condition.enclosed ++ .ofKeyword .THEN ::
        (result.enclosed ++ .ofKeyword k :: rest)) =
      moreBranches? condition result (.ofKeyword k :: rest) := by
  rw [branches?_eq, test.expr? (ended_keyword (by decide) _), Option.bind_some]
  change branchResult? condition _ = _
  rw [branchResult?_eq, if_pos (by decide), value.expr? (ended_keyword closing rest)]
  rfl

/-- The branches of a `CASE` are read back one by one, and its `ELSE` last. -/
theorem branches?_tokens {condition result : Expr} {branches : List (Expr × Expr)}
    {otherwise : Option Expr} (test : condition.ReadBack) (value : result.ReadBack)
    (tests : ∀ branch ∈ branches, branch.1.ReadBack)
    (values : ∀ branch ∈ branches, branch.2.ReadBack)
    (last : ∀ x ∈ otherwise, x.ReadBack) (rest : List Token) :
    branches? (condition.enclosed ++ .ofKeyword .THEN :: (result.enclosed ++
        (Expr.tokensBranches branches ++ (endTokens otherwise ++ rest)))) =
      some (((condition, result) :: branches, otherwise), rest) := by
  -- The first branch stands apart since `CASE` itself takes its `WHEN`; the induction is on the
  -- others.
  induction branches generalizing condition result with
  | nil =>
    cases otherwise with
    | none => exact (branches?_first test value (by decide) _).trans (moreBranches?_eq ..)
    | some x =>
      have read := (last x rfl).expr? (m := 0) (ended_keyword (k := .END) (by decide) rest)
      change branches? (_ ++ _ :: (_ ++ .ofKeyword .ELSE :: (x.enclosed ++ [_] ++ rest))) = _
      rw [branches?_first test value (by decide), moreBranches?_eq, if_neg (by decide),
        if_pos (by decide), List.append_assoc, List.singleton_append, read]
      rfl
  | cons branch branches ih =>
    obtain ⟨first, tests⟩ := List.forall_mem_cons.mp tests
    obtain ⟨second, values⟩ := List.forall_mem_cons.mp values
    have later := ih first second tests values
    rw [Expr.tokensBranches]
    simp only [List.append_assoc, List.cons_append]
    rw [branches?_first test value (by decide), moreBranches?_eq, if_pos (by decide)]
    change (branches? (branch.1.enclosed ++ .ofKeyword .THEN :: (branch.2.enclosed ++ _))).map _ = _
    rw [later]
    rfl

theorem tokens_choice (operand : Option Expr) (branches : List (Expr × Expr))
    (otherwise : Option Expr) : (Expr.choice operand branches otherwise).tokens =
      .ofKeyword .CASE :: (Expr.tokensOption operand ++ (Expr.tokensBranches branches ++
        endTokens otherwise)) := by
  rw [Expr.tokens, endTokens]
  simp only [List.append_assoc, List.cons_append]

/-- Each part of a `CASE` is ended by the keyword behind it. -/
theorem expr?_choice {operand : Option Expr} {branches : List (Expr × Expr)}
    {otherwise : Option Expr} (operands : ∀ x ∈ operand, x.ReadBack) (further : branches ≠ [])
    (tests : ∀ branch ∈ branches, branch.1.ReadBack)
    (values : ∀ branch ∈ branches, branch.2.ReadBack) (last : ∀ x ∈ otherwise, x.ReadBack)
    {rest : List Token} (ended : Ended false rest) :
    expr? false 0 ((Expr.choice operand branches otherwise).tokens ++ rest) =
      some (.choice operand branches otherwise, rest) := by
  obtain ⟨⟨condition, result⟩, branches, rfl⟩ := List.exists_cons_of_ne_nil further
  obtain ⟨first, tests⟩ := List.forall_mem_cons.mp tests
  obtain ⟨second, values⟩ := List.forall_mem_cons.mp values
  have read := branches?_tokens first second tests values last rest
  rw [tokens_choice, Expr.tokensBranches]
  simp only [List.append_assoc, List.cons_append]
  refine expr?_of_primary? rfl ?_ ended
  rw [Token.ofKeyword, primary?_keyword, if_neg (by decide), if_pos rfl, choice?_eq]
  cases operand with
  | none =>
    refine (if_pos rfl).trans ?_
    change (branches? (condition.enclosed ++ .ofKeyword .THEN :: (result.enclosed ++ _))).map _ = _
    rw [read]
    rfl
  | some x =>
    have part := operands x rfl
    obtain ⟨t, later, begins, -, other⟩ := part.begins
    -- An operand does not start with `WHEN`, a reserved word.
    have noWhen (ts : List Token) : ¬ (look (x.enclosed ++ ts)).isKeyword .WHEN = true := by
      rw [begins]
      exact Bool.eq_false_iff.mp (other .WHEN rfl)
    change (if (look (x.enclosed ++ _)).isKeyword .WHEN then _
      else (expr? false 0 (x.enclosed ++ _)).bind _) = _
    rw [if_neg (noWhen _), part.expr? (ended_keyword (by decide) _), Option.bind_some]
    refine (if_pos rfl).trans ?_
    change (branches? (condition.enclosed ++ .ofKeyword .THEN :: (result.enclosed ++ _))).map _ = _
    rw [read]
    rfl

/-! ### Expressions -/

theorem isItem_of_argument {args : List Expr}
    (arguments : ∀ x ∈ args, x ≠ .elided → x.WellFormed)
    (read : ∀ x ∈ args, x ≠ .elided → ∀ rest, Ended false rest →
      expr? false 0 (x.tokens ++ rest) = some (x, rest)) : ∀ x ∈ args, IsItem true x := by
  intro x mem
  by_cases absent : x = .elided
  · exact .inr ⟨rfl, absent⟩
  · exact .inl ((arguments x mem absent).readBack (read x mem absent))

/-- **A well-formed expression is read back from its tokens**, up to where they end. -/
theorem expr?_tokens {x : Expr} (wellFormed : x.WellFormed) {rest : List Token}
    (ended : Ended false rest) : expr? false 0 (x.tokens ++ rest) = some (x, rest) := by
  -- One case for each way to be well formed; the parts are read back by the induction hypotheses
  -- and `readBack`.
  induction wellFormed generalizing rest with
  | number value => exact expr?_of_primary? rfl (primary?_number value rest) ended
  | string value => exact expr?_of_primary? rfl (primary?_string value .double rest) ended
  | null => exact expr?_of_primary? rfl (primary?_keyword ..) ended
  | identifier valid =>
    refine expr?_of_operand? ?_ ended.stops
    rw [Expr.tokens, operand?_identifier valid ended.toFollows]
    exact accesses?_of_no_dot _ rest ended.noDot
  | function bare arguments enough ih =>
    rw [Expr.tokens_call]
    exact expr?_function ended bare enough (isItem_of_argument arguments fun x mem other _ =>
      ih x mem other)
  | method named receiver further arguments ihReceiver ih =>
    rw [Expr.tokens_call]
    exact expr?_method (receiver.readBack fun _ => ihReceiver) ended named further
      (isItem_of_argument arguments fun x mem other _ => ih x mem other)
  | property bare inner ih =>
    exact expr?_property (inner.readBack fun _ => ih) ended bare
  | wordProperty word inner ih =>
    rw [Expr.tokens_call, CallForm.layout.eq_def]
    simp only [List.map_singleton, word, if_true]
    exact expr?_wordProperty (inner.readBack fun _ => ih) ended word
  | @quotedProperty name x named plain other inner ih =>
    rw [Expr.tokens_call, CallForm.layout.eq_def]
    simp only [List.map_singleton]
    by_cases word : isWord name = true
    · rw [if_pos word]
      exact expr?_wordProperty (inner.readBack fun _ => ih) ended word
    · rw [if_neg word]
      exact expr?_quotedProperty (inner.readBack fun _ => ih) ended named plain other
  | keyProperty named inner ih =>
    exact expr?_keyProperty (inner.readBack fun _ => ih) ended named
  | leading before inner ih => exact expr?_leading ended before (inner.readBack fun _ => ih)
  | trailing after inner ih => exact expr?_trailing ended after (inner.readBack fun _ => ih)
  | binary between other left right ihLeft ihRight =>
    exact expr?_binary ended between other (left.readBack fun _ => ihLeft)
      (right.readBack fun _ => ihRight)
  | named inner valid ih => exact expr?_named ended (inner.readBack fun _ => ih) valid
  | braces inner ih =>
    rw [Expr.braces, Expr.tokens_call]
    exact expr?_braces ended fun x mem => (inner x mem).readBack fun _ => ih x mem
  | tuple several inner ih =>
    rw [Expr.tuple, Expr.tokens_call]
    exact expr?_tuple ended several fun x mem => (inner x mem).readBack fun _ => ih x mem
  | cast inner named ih => exact expr?_cast ended (inner.readBack fun _ => ih) named
  | choice operands further tests values last ihOperands ihTests ihValues ihLast =>
    exact expr?_choice (fun x mem => (operands x mem).readBack fun _ => ihOperands x mem) further
      (fun branch mem => (tests branch mem).readBack fun _ => ihTests branch mem)
      (fun branch mem => (values branch mem).readBack fun _ => ihValues branch mem)
      (fun x mem => (last x mem).readBack fun _ => ihLast x mem) ended

end MdxReader
