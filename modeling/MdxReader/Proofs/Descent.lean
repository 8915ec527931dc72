import MdxReader.Expr
import MdxReader.Operator

/-!
# Recursive descent

A second reader of expressions, on a plain list of tokens.  It is the textbook one: `expr cast m`
reads an operand and then goes on while the operator that comes next binds tighter than `m`
(*precedence climbing*); brackets, argument lists, `CASE` and `CAST` call it again.  There is no
stack, no limit on nesting and no place in the text.

What the grammar fixes is fixed here once more: which tokens are operators, how strongly they bind,
what they are called in a tree and which keywords can be names.  That the tables of the program have
the same entries is proved in `MdxReader.Proofs.Descent.Equations`.

Every function takes tokens off the front of the list and hands back what is left, together with
the proof that it took some (`Taken`), which is what the recursion ends by.  What a function takes
is `Taken.pair`; the equations for these pairs are in `MdxReader.Proofs.Descent.Equations`.
-/

namespace MdxReader.Descent

/-- The token that comes next. -/
def look (ts : List Token) : Token := ts.headD .endOfText

/-! ### Names -/

/-- The keywords that can be bare names; all others are reserved. -/
def bareKeywords : List Keyword :=
  [.DIMENSION, .PROPERTIES, .EXPLAIN, .PLAN, .FOR, .MAXROWS, .FIRSTROWSET, .RETURN]

/-- The name that a token holds, where a name is needed: reserved words and `[]` are none. -/
def name? : Token → Option Name
  | .word text => some ⟨text, .bare⟩
  | .keyword k spelling => if k ∈ bareKeywords then some ⟨spelling, .bare⟩ else none
  | .bracketed text => if text.isEmpty then none else some ⟨text, .quoted⟩
  | _ => none

/-- The part of a key that a token holds; `&[]` is none. -/
def keyPart? : Token → Option Name
  | .bracketedKey text => if text.isEmpty then none else some ⟨text, .quoted⟩
  | .wordKey text => some ⟨text, .bare⟩
  | _ => none

/-- The token is a part of a key, be it empty. -/
def isKey : Token → Bool
  | .bracketedKey _ => true
  | .wordKey _ => true
  | _ => false

/-- All the parts of a key that come next, perhaps none. -/
def keyParts : List Token → Option (List Name × List Token)
  | [] => some ([], [])
  | t :: ts =>
    if isKey t then
      match keyPart? t, keyParts ts with
      | some part, some (parts, rest) => some (part :: parts, rest)
      | _, _ => none
    else some ([], t :: ts)

/-- A key whose first token was taken already. -/
def key? (first : Token) (ts : List Token) : Option (Key × List Token) :=
  match keyPart? first, keyParts ts with
  | some part, some (parts, rest) => some (⟨part, parts⟩, rest)
  | _, _ => none

/-- One segment of an identifier: a name or a key. -/
def segment? : List Token → Option (Segment × List Token)
  | [] => none
  | t :: ts =>
    if isKey t then (key? t ts).map fun (key, rest) => (.key key, rest)
    else (name? t).map fun name => (.name name, ts)

/-- The parts of a key take tokens off the front, and perhaps none. -/
theorem length_keyParts {ts rest : List Token} {parts : List Name}
    (h : keyParts ts = some (parts, rest)) : rest.length ≤ ts.length := by
  induction ts generalizing parts rest with
  | nil =>
    simp only [keyParts, Option.some.injEq, Prod.mk.injEq] at h
    obtain ⟨-, rfl⟩ := h
    exact Nat.le_refl _
  | cons t ts ih =>
    unfold keyParts at h
    split at h
    · split at h
      · rename_i part parts' rest' _ found
        simp only [Option.some.injEq, Prod.mk.injEq] at h
        obtain ⟨-, rfl⟩ := h
        exact Nat.le_succ_of_le (ih found)
      · cases h
    · simp only [Option.some.injEq, Prod.mk.injEq] at h
      obtain ⟨-, rfl⟩ := h
      exact Nat.le_refl _

theorem length_key {first : Token} {ts rest : List Token} {key : Key}
    (h : key? first ts = some (key, rest)) : rest.length ≤ ts.length := by
  unfold key? at h
  split at h
  · rename_i found
    simp only [Option.some.injEq, Prod.mk.injEq] at h
    obtain ⟨-, rfl⟩ := h
    exact length_keyParts found
  · cases h

/-- A segment takes at least one token. -/
theorem length_segment {ts rest : List Token} {segment : Segment}
    (h : segment? ts = some (segment, rest)) : rest.length < ts.length := by
  unfold segment? at h
  split at h
  · cases h
  · rw [List.length_cons]
    split at h
    · simp only [Option.map_eq_some_iff, Prod.exists, Prod.mk.injEq] at h
      obtain ⟨key, rest', found, -, rfl⟩ := h
      exact Nat.lt_succ_of_le (length_key found)
    · simp only [Option.map_eq_some_iff, Prod.mk.injEq] at h
      obtain ⟨name, -, -, rfl⟩ := h
      exact Nat.lt_succ_self _

/-- The segments that follow `id` behind dots. -/
def moreSegments (id : Identifier) (ts : List Token) : Option (Identifier × List Token) :=
  match ts with
  | .symbol .dot :: later =>
    match found : segment? later with
    | some (segment, rest) =>
      have := length_segment found
      moreSegments (id.dotted segment) rest
    | none => none
  | _ => some (id, ts)
termination_by ts.length
decreasing_by simp only [List.length_cons]; omega

/-- A dot goes on with the identifier, and a segment must follow. -/
theorem moreSegments_dot (id : Identifier) (later : List Token) :
    moreSegments id (.symbol .dot :: later) =
      (segment? later).bind fun (segment, rest) => moreSegments (id.dotted segment) rest := by
  rw [moreSegments]
  split <;> rename_i found <;> simp only [found, Option.bind_some, Option.bind_none]

/-- Without a dot the identifier is complete. -/
theorem moreSegments_of_no_dot (id : Identifier) (ts : List Token)
    (h : (look ts).isSymbol .dot = false) : moreSegments id ts = some (id, ts) := by
  rw [moreSegments]
  rintro later rfl
  cases h

/-- An identifier, all of whose segments are part of the name. -/
def identifier? (ts : List Token) : Option (Identifier × List Token) :=
  (segment? ts).bind fun (first, rest) => moreSegments (.single first) rest

theorem length_moreSegments {id found : Identifier} {ts rest : List Token}
    (h : moreSegments id ts = some (found, rest)) : rest.length ≤ ts.length := by
  fun_induction moreSegments id ts with
  | case1 id later segment rest' taken shorter ih =>
    have := ih h
    rw [List.length_cons]
    omega
  | case2 => cases h
  | case3 =>
    simp only [Option.some.injEq, Prod.mk.injEq] at h
    obtain ⟨-, rfl⟩ := h
    exact Nat.le_refl _

theorem length_identifier {ts rest : List Token} {id : Identifier}
    (h : identifier? ts = some (id, rest)) : rest.length < ts.length := by
  obtain ⟨⟨first, between⟩, taken, more⟩ := Option.bind_eq_some_iff.mp h
  exact Nat.lt_of_le_of_lt (length_moreSegments more) (length_segment taken)

/-! ### What a dot accesses -/

/-- A bracketed name behind a dot: a further segment of an identifier, or a property of anything
else.  With `&` as its first character it is a key property of either. -/
def attachName (x : Expr) (name : String) : Option Expr :=
  match name.toList with
  | [] | ['&'] => none
  | '&' :: stripped => some (.call .keyProperty (String.ofList stripped) [x])
  | _ =>
    match x with
    | .identifier id => some (.identifier (id.dotted (.name ⟨name, .quoted⟩)))
    | x => some (.call .quotedProperty name [x])

/-- A key behind a dot.  A bare key of one part is a property.  Any other key is a further segment
of an identifier; of anything else one part is a property and more are an error. -/
def attachKey (x : Expr) : Key → Option Expr
  | ⟨⟨text, .bare⟩, []⟩ => some (.call .quotedProperty text [x])
  | key =>
    match x, key with
    | .identifier id, key => some (.identifier (id.dotted (.key key)))
    | x, ⟨⟨text, _⟩, []⟩ => some (.call .keyProperty text [x])
    | _, _ => none

/-- What the token behind a dot makes of `x`, a method call apart. -/
def attach? (x : Expr) (t : Token) (ts : List Token) : Option (Expr × List Token) :=
  match t with
  | .bracketed name => (attachName x name).map fun y => (y, ts)
  | .bracketedKey _ | .wordKey _ =>
    (key? t ts).bind fun (key, rest) => (attachKey x key).map fun y => (y, rest)
  | t => (name? t).map fun name => (.call .property name.text [x], ts)

/-- What is attached begins with a token that was taken before. -/
theorem length_attach {x y : Expr} {t : Token} {ts rest : List Token}
    (h : attach? x t ts = some (y, rest)) : rest.length ≤ ts.length := by
  have keyed (h : ((key? t ts).bind fun (key, rest) =>
      (attachKey x key).map fun y => (y, rest)) = some (y, rest)) : rest.length ≤ ts.length := by
    obtain ⟨⟨key, between⟩, taken, attached⟩ := Option.bind_eq_some_iff.mp h
    obtain ⟨z, -, made⟩ := Option.map_eq_some_iff.mp attached
    cases made
    exact length_key taken
  unfold attach? at h
  split at h
  · obtain ⟨z, -, made⟩ := Option.map_eq_some_iff.mp h
    cases made
    exact Nat.le_refl _
  · exact keyed h
  · exact keyed h
  · obtain ⟨z, -, made⟩ := Option.map_eq_some_iff.mp h
    cases made
    exact Nat.le_refl _

/-- The method that a name behind a dot calls: an argument list has to follow. -/
def method? (t : Token) (ts : List Token) : Option String :=
  if (look ts).isSymbol .openParen then (name? t).map Name.text else none

/-! ### Operators -/

/-- How strongly an operator binds. -/
def strength : Operator → Nat
  | .named => 1
  | .or | .xor | .range => 2
  | .and => 3
  | .not => 4
  | .equal | .notEqual | .less | .greater | .lessEqual | .greaterEqual => 5
  | .identical | .within | .notWithin | .matching | .notMatching => 5
  | .isNull | .isNotNull | .isEmpty | .isNotEmpty => 5
  | .add | .subtract | .concat => 6
  | .multiply | .divide => 7
  | .negate | .positive | .existing => 8

/-- The name an operator has in a tree. -/
def title : Operator → String
  | .named => "AS"
  | .or => "OR"
  | .xor => "XOR"
  | .range => ":"
  | .and => "AND"
  | .not => "NOT"
  | .equal => "="
  | .notEqual => "<>"
  | .less => "<"
  | .greater => ">"
  | .lessEqual => "<="
  | .greaterEqual => ">="
  | .identical => "IS"
  | .within | .notWithin => "IN"
  | .matching | .notMatching => "MATCHES"
  | .isNull => "IS NULL"
  | .isNotNull => "IS NOT NULL"
  | .isEmpty => "IS EMPTY"
  | .isNotEmpty => "IS NOT EMPTY"
  | .add | .positive => "+"
  | .subtract | .negate => "-"
  | .concat => "||"
  | .multiply => "*"
  | .divide => "/"
  | .existing => "EXISTING"

/-- The operator that a token is in front of an operand. -/
def leading? : Token → Option Operator
  | .symbol .minus => some .negate
  | .symbol .plus => some .positive
  | .keyword .EXISTING _ => some .existing
  | .keyword .NOT _ => some .not
  | _ => none

/-- The operator that a token is behind an operand, all by itself. -/
def following? : Token → Option Operator
  | .keyword .AS _ => some .named
  | .keyword .OR _ => some .or
  | .keyword .XOR _ => some .xor
  | .symbol .colon => some .range
  | .keyword .AND _ => some .and
  | .symbol .equal => some .equal
  | .symbol .notEqual => some .notEqual
  | .symbol .less => some .less
  | .symbol .greater => some .greater
  | .symbol .lessEqual => some .lessEqual
  | .symbol .greaterEqual => some .greaterEqual
  | .keyword .IN _ => some .within
  | .keyword .MATCHES _ => some .matching
  | .symbol .plus => some .add
  | .symbol .minus => some .subtract
  | .symbol .concat => some .concat
  | .symbol .star => some .multiply
  | .symbol .slash => some .divide
  | _ => none

/-- The operator is a test for null or empty, which stands behind its operand. -/
def isTest : Operator → Bool
  | .isNull | .isNotNull | .isEmpty | .isNotEmpty => true
  | _ => false

/-- What comes behind an operand. -/
inductive Upcoming where
  /-- No operator. -/
  | nothing
  /-- `IS NOT` or `NOT` without the keyword that would complete it. -/
  | dangling
  /-- An operator of one token and `more` behind it. -/
  | operator (operator : Operator) (more : Nat)

/-- What `IS` begins behind an operand. -/
def afterIs (ts : List Token) : Upcoming :=
  if (look ts).isKeyword .NULL then .operator .isNull 1
  else if (look ts).isKeyword .EMPTY then .operator .isEmpty 1
  else if (look ts).isKeyword .NOT then
    if (look (ts.drop 1)).isKeyword .NULL then .operator .isNotNull 2
    else if (look (ts.drop 1)).isKeyword .EMPTY then .operator .isNotEmpty 2
    else .dangling
  else .operator .identical 0

/-- What `NOT` begins behind an operand. -/
def afterNot (ts : List Token) : Upcoming :=
  if (look ts).isKeyword .IN then .operator .notWithin 1
  else if (look ts).isKeyword .MATCHES then .operator .notMatching 1
  else .dangling

/-- The operator that starts at the next token.  Directly inside a `CAST`, `AS` is none: it begins
the type. -/
def upcoming (cast : Bool) : List Token → Upcoming
  | [] => .nothing
  | t :: ts =>
    if t.isKeyword .IS then afterIs ts
    else if t.isKeyword .NOT then afterNot ts
    else
      match following? t with
      | some .named => if cast then .nothing else .operator .named 0
      | some operator => .operator operator 0
      | none => .nothing

/-- An operator between two operands; a negated one is `NOT` around its positive form. -/
def joined (operator : Operator) (left right : Expr) : Expr :=
  match operator with
  | .notWithin => .call .leading "NOT" [.call .binary "IN" [left, right]]
  | .notMatching => .call .leading "NOT" [.call .binary "MATCHES" [left, right]]
  | operator => .call .binary (title operator) [left, right]

/-- One item in parentheses is grouping and vanishes, more are a tuple. -/
def grouped : List Expr → Expr
  | [x] => x
  | items => .tuple items

/-- The type of a `CAST` from its `AS` to the closing parenthesis, three tokens. -/
def castType? (ts : List Token) : Option Name :=
  if (look ts).isKeyword .AS && (look (ts.drop 2)).isSymbol .closeParen then
    name? (look (ts.drop 1))
  else none

/-! ### Expressions -/

/-- A value and the tokens that are left, fewer than `bound`. -/
structure Taken (α : Type) (bound : Nat) where
  value : α
  rest : List Token
  short : rest.length < bound

namespace Taken

variable {α β : Type} {bound : Nat}

/-- The value and the tokens that are left. -/
def pair (taken : Taken α bound) : α × List Token := (taken.value, taken.rest)

/-- The same under a greater bound. -/
def widen {wider : Nat} (taken : Taken α bound) (h : bound ≤ wider) : Taken α wider :=
  ⟨taken.value, taken.rest, Nat.lt_of_lt_of_le taken.short h⟩

/-- Another value from the same tokens. -/
def map (f : α → β) (taken : Taken α bound) : Taken β bound :=
  ⟨f taken.value, taken.rest, taken.short⟩

end Taken

mutual

/-- An expression all of whose operators bind tighter than `m`: an operand, and what follows. -/
def expr (cast : Bool) (m : Nat) (ts : List Token) : Option (Taken Expr ts.length) :=
  match operand cast ts with
  | some ⟨left, rest, short⟩ => (climb cast m left rest).map fun all => all.widen short
  | none => none
termination_by (ts.length, 3)

/-- An operator in front and the expression it binds, or a primary with its accesses. -/
def operand (cast : Bool) : (ts : List Token) → Option (Taken Expr ts.length)
  | [] => none
  | t :: ts =>
    match leading? t with
    | some operator =>
      (expr cast (strength operator) ts).map fun x =>
        (x.map fun x => .call .leading (title operator) [x]).widen (Nat.le_succ _)
    | none =>
      match primary t ts with
      | some ⟨x, rest, short⟩ => (accesses x rest).map fun all => all.widen short
      | none => none
termination_by ts => (ts.length, 2)

/-- Goes on while the operator that starts at the next token binds tighter than `m`.  `AS` takes
an identifier, an operator between operands an expression that binds tighter than itself. -/
def climb (cast : Bool) (m : Nat) (left : Expr) (ts : List Token) :
    Option (Taken Expr (ts.length + 1)) :=
  match ts with
  | [] => some ⟨left, [], Nat.lt_succ_self _⟩
  | t :: later =>
    match upcoming cast (t :: later) with
    | .nothing => some ⟨left, t :: later, Nat.lt_succ_self _⟩
    | .dangling => none
    | .operator operator more =>
      have fewer : (later.drop more).length < (t :: later).length := by
        rw [List.length_drop, List.length_cons]; omega
      if strength operator ≤ m then some ⟨left, t :: later, Nat.lt_succ_self _⟩
      else if isTest operator then
        (climb cast m (.call .trailing (title operator) [left]) (later.drop more)).map fun all =>
          all.widen (Nat.succ_le_succ (Nat.le_of_lt fewer))
      else if operator = .named then
        match found : identifier? (later.drop more) with
        | some (id, rest) =>
          have shorter : rest.length < (t :: later).length :=
            Nat.lt_trans (length_identifier found) fewer
          (climb cast m (.call .binary (title operator) [left, .identifier id]) rest).map fun all =>
            all.widen (Nat.succ_le_succ (Nat.le_of_lt shorter))
        | none => none
      else
        match expr cast (strength operator) (later.drop more) with
        | some ⟨right, rest, short⟩ =>
          have shorter : rest.length < (t :: later).length := Nat.lt_trans short fewer
          (climb cast m (joined operator left right) rest).map fun all =>
            all.widen (Nat.succ_le_succ (Nat.le_of_lt shorter))
        | none => none
termination_by (ts.length, 0)

/-- A literal, an identifier, a set, a tuple, a group, a function call, a `CASE` or a `CAST` that
starts with `t`. -/
def primary (t : Token) (ts : List Token) : Option (Taken Expr (ts.length + 1)) :=
  match t with
  | .number value => some ⟨.number value, ts, Nat.lt_succ_self _⟩
  | .string value _ => some ⟨.string value, ts, Nat.lt_succ_self _⟩
  | .word name => nameOrFunction name ts
  | .keyword k spelling =>
    if k = .NULL then some ⟨.null, ts, Nat.lt_succ_self _⟩
    else if k = .CASE then choice ts
    else if k = .CAST then typed ts
    else if k ∈ bareKeywords then nameOrFunction spelling ts
    else none
  | .bracketed name =>
    if name.isEmpty then none
    else some ⟨.identifier (.ofName ⟨name, .quoted⟩), ts, Nat.lt_succ_self _⟩
  | .bracketedKey _ | .wordKey _ =>
    match found : key? t ts with
    | some (key, rest) =>
      some ⟨.identifier (.single (.key key)), rest, Nat.lt_succ_of_le (length_key found)⟩
    | none => none
  | .symbol s =>
    if s = .openParen then
      (items false .closeParen ts).map fun xs => (xs.map grouped).widen (Nat.le_succ _)
    else if s = .openBrace then
      if (look ts).isSymbol .closeBrace then
        some ⟨.braces [], ts.drop 1, Nat.lt_succ_of_le (List.drop_sublist 1 ts).length_le⟩
      else (items false .closeBrace ts).map fun xs => (xs.map .braces).widen (Nat.le_succ _)
    else none
  | .endOfText => none
termination_by (ts.length + 1, 1)

/-- A bare name, or the function it calls if an argument list follows. -/
def nameOrFunction (name : String) (ts : List Token) : Option (Taken Expr (ts.length + 1)) :=
  if (look ts).isSymbol .openParen then
    if (look (ts.drop 1)).isSymbol .closeParen then
      some ⟨.call .function name [], ts.drop 2, by rw [List.length_drop]; omega⟩
    else
      have fewer : (ts.drop 1).length ≤ ts.length := by rw [List.length_drop]; omega
      (items true .closeParen (ts.drop 1)).map fun args =>
        (args.map fun args => .call .function name args).widen (Nat.le_succ_of_le fewer)
  else some ⟨.identifier (.ofName ⟨name, .bare⟩), ts, Nat.lt_succ_self _⟩
termination_by (ts.length + 1, 0)

/-- The accesses that follow `x` behind dots: method calls, properties, further segments. -/
def accesses (x : Expr) (ts : List Token) : Option (Taken Expr (ts.length + 1)) :=
  match ts with
  | [] => some ⟨x, [], Nat.lt_succ_self _⟩
  | t :: later =>
    if t.isSymbol .dot then
      match method? (look later) (later.drop 1) with
      | some name =>
        if (look (later.drop 2)).isSymbol .closeParen then
          -- An empty argument list is one argument that was left out.
          have shorter : (later.drop 3).length < (t :: later).length := by
            rw [List.length_drop, List.length_cons]; omega
          (accesses (.call .method name [x, .elided]) (later.drop 3)).map fun all =>
            all.widen (Nat.succ_le_succ (Nat.le_of_lt shorter))
        else
          have fewer : (later.drop 2).length < (t :: later).length := by
            rw [List.length_drop, List.length_cons]; omega
          match items true .closeParen (later.drop 2) with
          | some ⟨args, rest, short⟩ =>
            have shorter : rest.length < (t :: later).length := Nat.lt_trans short fewer
            (accesses (.call .method name (x :: args)) rest).map fun all =>
              all.widen (Nat.succ_le_succ (Nat.le_of_lt shorter))
          | none => none
      | none =>
        match found : attach? x (look later) (later.drop 1) with
        | some (y, rest) =>
          have shorter : rest.length < (t :: later).length := by
            have := length_attach found
            rw [List.length_drop] at this
            rw [List.length_cons]; omega
          (accesses y rest).map fun all =>
            all.widen (Nat.succ_le_succ (Nat.le_of_lt shorter))
        | none => none
    else some ⟨x, t :: later, Nat.lt_succ_self _⟩
termination_by (ts.length, 0)

/-- The items up to the closing symbol, commas between them.  With `gaps`, an item may be left
out. -/
def items (gaps : Bool) (closing : Symbol) (ts : List Token) :
    Option (Taken (List Expr) ts.length) :=
  match ts with
  | [] => none
  | t :: later =>
    if gaps && (t.isSymbol .comma || t.isSymbol .closeParen) then
      moreItems gaps closing .elided (t :: later)
    else
      match expr false 0 (t :: later) with
      | some ⟨x, rest, short⟩ =>
        (moreItems gaps closing x rest).map fun all => all.widen (Nat.le_of_lt short)
      | none => none
termination_by (ts.length, 4)

/-- The item `x`, and those that follow it. -/
def moreItems (gaps : Bool) (closing : Symbol) (x : Expr) (ts : List Token) :
    Option (Taken (List Expr) ts.length) :=
  match ts with
  | [] => none
  | t :: later =>
    if t.isSymbol .comma then
      (items gaps closing later).map fun xs => (xs.map (x :: ·)).widen (Nat.le_succ _)
    else if t.isSymbol closing then some ⟨[x], later, Nat.lt_succ_self _⟩
    else none
termination_by (ts.length, 0)

/-- What follows `CASE`. -/
def choice (ts : List Token) : Option (Taken Expr (ts.length + 1)) :=
  if (look ts).isKeyword .WHEN then
    have fewer : (ts.drop 1).length ≤ ts.length := by rw [List.length_drop]; omega
    (branches (ts.drop 1)).map fun all =>
      (all.map fun (found, otherwise) => .choice none found otherwise).widen
        (Nat.le_succ_of_le fewer)
  else
    match expr false 0 ts with
    | some ⟨x, rest, short⟩ =>
      if (look rest).isKeyword .WHEN then
        have fewer : (rest.drop 1).length ≤ ts.length := by rw [List.length_drop]; omega
        (branches (rest.drop 1)).map fun all =>
          (all.map fun (found, otherwise) => .choice (some x) found otherwise).widen
            (Nat.le_succ_of_le fewer)
      else none
    | none => none
termination_by (ts.length + 1, 0)

/-- The branches of a `CASE` from behind a `WHEN` on, and the result of its `ELSE`. -/
def branches (ts : List Token) :
    Option (Taken (List (Expr × Expr) × Option Expr) ts.length) :=
  match expr false 0 ts with
  | some ⟨condition, rest, short⟩ =>
    (branchResult condition rest).map fun all => all.widen (Nat.le_of_lt short)
  | none => none
termination_by (ts.length, 4)

/-- The branches from behind the condition of the first on. -/
def branchResult (condition : Expr) (ts : List Token) :
    Option (Taken (List (Expr × Expr) × Option Expr) ts.length) :=
  match ts with
  | [] => none
  | t :: later =>
    if t.isKeyword .THEN then
      match expr false 0 later with
      | some ⟨result, rest, short⟩ =>
        (moreBranches condition result rest).map fun all =>
          all.widen (Nat.le_succ_of_le (Nat.le_of_lt short))
      | none => none
    else none
termination_by (ts.length, 0)

/-- The branches from behind the first one on. -/
def moreBranches (condition result : Expr) (ts : List Token) :
    Option (Taken (List (Expr × Expr) × Option Expr) ts.length) :=
  match ts with
  | [] => none
  | t :: later =>
    if t.isKeyword .WHEN then
      (branches later).map fun all =>
        (all.map fun (found, otherwise) => ((condition, result) :: found, otherwise)).widen
          (Nat.le_succ _)
    else if t.isKeyword .ELSE then
      match expr false 0 later with
      | some ⟨otherwise, rest, short⟩ =>
        if (look rest).isKeyword .END then
          some ⟨([(condition, result)], some otherwise), rest.drop 1,
            by rw [List.length_drop, List.length_cons]; omega⟩
        else none
      | none => none
    else if t.isKeyword .END then
      some ⟨([(condition, result)], none), later, Nat.lt_succ_self _⟩
    else none
termination_by (ts.length, 0)

/-- What follows `CAST`. -/
def typed (ts : List Token) : Option (Taken Expr (ts.length + 1)) :=
  if (look ts).isSymbol .openParen then
    have fewer : (ts.drop 1).length ≤ ts.length := by rw [List.length_drop]; omega
    match expr true 0 (ts.drop 1) with
    | some ⟨x, rest, short⟩ =>
      match castType? rest with
      | some type =>
        some ⟨.call .cast "CAST" [x, .typeName type.text], rest.drop 3,
          by rw [List.length_drop]; omega⟩
      | none => none
    | none => none
  else none
termination_by (ts.length + 1, 0)

end

end MdxReader.Descent
