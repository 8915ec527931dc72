import MdxReader.Proofs.Descent

/-!
# Equations of recursive descent

The functions of `MdxReader.Proofs.Descent` without the proofs they carry: each `f?` yields the
value and the tokens left of `f`.  The equations here are what later modules use, and none of them
mentions how the recursion ends.
-/

namespace MdxReader.Descent

/-! ### The tables of the program -/

/-- The keywords that can be names are those that the program has not reserved. -/
theorem mem_bareKeywords {k : Keyword} : k ∈ bareKeywords ↔ k ∉ Keyword.reserved := by
  cases k <;> decide

/-- A keyword is a name unless the program has it among the reserved ones. -/
theorem name?_keyword (k : Keyword) (spelling : String) :
    name? (.keyword k spelling) = if k.isReserved then none else some ⟨spelling, .bare⟩ := by
  simp only [name?, mem_bareKeywords, Keyword.mem_reserved]
  cases k.isReserved <;> rfl

/-- The parts of a key are the tokens that the program takes for them. -/
theorem isKey_eq (t : Token) : isKey t = t.isKeyPart := by
  cases t <;> rfl

/-- A key goes on as long as its parts do; the first token that is none is left. -/
theorem keyParts_cons (t : Token) (ts : List Token) :
    keyParts (t :: ts) =
      if t.isKeyPart then
        (keyPart? t).bind fun part => (keyParts ts).map fun (parts, rest) => (part :: parts, rest)
      else some ([], t :: ts) := by
  rw [keyParts, isKey_eq]
  cases keyPart? t <;> cases keyParts ts <;> rfl

/-- A segment is a key or a name, as its first token tells. -/
theorem segment?_cons (t : Token) (ts : List Token) :
    segment? (t :: ts) =
      if t.isKeyPart then (key? t ts).map fun (key, rest) => (.key key, rest)
      else (name? t).map fun name => (.name name, ts) := by
  rw [segment?, isKey_eq]

/-- **The program has the strengths of the grammar.** -/
theorem strength_eq (operator : Operator) : strength operator = operator.strength := by
  cases operator <;> rfl

/-- Calls are named after their operators as the program names them. -/
theorem title_eq (operator : Operator) : title operator = operator.symbol := by
  cases operator <;> rfl

/-- The operators in front of an operand are those of the program. -/
theorem leading?_eq (t : Token) : leading? t = Operator.leading? t := by
  cases t with
  | symbol s => cases s <;> rfl
  | keyword k spelling => cases k <;> rfl
  | _ => rfl

/-- The operators behind an operand are those of the program. -/
theorem following?_eq (t : Token) : following? t = Operator.following? t := by
  cases t with
  | symbol s => cases s <;> rfl
  | keyword k spelling => cases k <;> rfl
  | _ => rfl

/-- The tests are the operators behind their operands. -/
theorem isTest_iff (operator : Operator) : isTest operator = true ↔ operator.fixity = .after := by
  cases operator <;> decide

/-- The negated operators are those that the program shows as `NOT` around a positive form. -/
theorem joined_eq (operator : Operator) (left right : Expr) :
    joined operator left right = if operator.isNegated then
      .call .leading Operator.not.symbol [.call .binary operator.symbol [left, right]]
    else .call .binary operator.symbol [left, right] := by
  cases operator <;> rfl

/-! ### Pairs -/

/-- What `expr` takes, as a pair. -/
def expr? (cast : Bool) (m : Nat) (ts : List Token) : Option (Expr × List Token) :=
  (expr cast m ts).map Taken.pair

/-- What `operand` takes, as a pair. -/
def operand? (cast : Bool) (ts : List Token) : Option (Expr × List Token) :=
  (operand cast ts).map Taken.pair

/-- What `climb` takes, as a pair. -/
def climb? (cast : Bool) (m : Nat) (x : Expr) (ts : List Token) : Option (Expr × List Token) :=
  (climb cast m x ts).map Taken.pair

/-- What `primary` takes, as a pair. -/
def primary? (t : Token) (ts : List Token) : Option (Expr × List Token) :=
  (primary t ts).map Taken.pair

/-- What `nameOrFunction` takes, as a pair. -/
def nameOrFunction? (name : String) (ts : List Token) : Option (Expr × List Token) :=
  (nameOrFunction name ts).map Taken.pair

/-- What `accesses` takes, as a pair. -/
def accesses? (x : Expr) (ts : List Token) : Option (Expr × List Token) :=
  (accesses x ts).map Taken.pair

/-- What `items` takes, as a pair. -/
def items? (gaps : Bool) (closing : Symbol) (ts : List Token) : Option (List Expr × List Token) :=
  (items gaps closing ts).map Taken.pair

/-- What `moreItems` takes, as a pair. -/
def moreItems? (gaps : Bool) (closing : Symbol) (x : Expr) (ts : List Token) :
    Option (List Expr × List Token) :=
  (moreItems gaps closing x ts).map Taken.pair

/-- What `choice` takes, as a pair. -/
def choice? (ts : List Token) : Option (Expr × List Token) :=
  (choice ts).map Taken.pair

/-- What `branches` takes, as a pair. -/
def branches? (ts : List Token) : Option ((List (Expr × Expr) × Option Expr) × List Token) :=
  (branches ts).map Taken.pair

/-- What `branchResult` takes, as a pair. -/
def branchResult? (condition : Expr) (ts : List Token) :
    Option ((List (Expr × Expr) × Option Expr) × List Token) :=
  (branchResult condition ts).map Taken.pair

/-- What `moreBranches` takes, as a pair. -/
def moreBranches? (condition result : Expr) (ts : List Token) :
    Option ((List (Expr × Expr) × Option Expr) × List Token) :=
  (moreBranches condition result ts).map Taken.pair

/-- What `typed` takes, as a pair. -/
def typed? (ts : List Token) : Option (Expr × List Token) :=
  (typed ts).map Taken.pair

section Pairs

variable {α β : Type} {bound wider : Nat}

/-- A looser bound on what is left changes neither the value nor the tokens. -/
theorem pair_widen (x : Option (Taken α bound)) (h : bound ≤ wider) :
    (x.map fun all => all.widen h).map Taken.pair = x.map Taken.pair := by
  cases x <;> rfl

/-- What is made of the value is made of it under the looser bound too. -/
theorem pair_map_widen (f : α → β) (x : Option (Taken α bound)) (h : bound ≤ wider) :
    (x.map fun all => (all.map f).widen h).map Taken.pair =
      (x.map Taken.pair).map fun (a, rest) => (f a, rest) := by
  cases x <;> rfl

end Pairs

/-! ### Expressions and operands -/

/-- An expression is an operand with the operators that bind it tighter than `m`. -/
theorem expr?_eq (cast : Bool) (m : Nat) (ts : List Token) :
    expr? cast m ts = (operand? cast ts).bind fun (x, rest) => climb? cast m x rest := by
  unfold expr? operand? climb?
  rw [expr]
  cases operand cast ts with
  | none => rfl
  | some left => exact pair_widen _ _

/-- An operator in front takes an operand with the operators that bind it tighter. -/
theorem operand?_of_leading {cast : Bool} {t : Token} {operator : Operator} (ts : List Token)
    (h : Operator.leading? t = some operator) :
    operand? cast (t :: ts) = (expr? cast operator.strength ts).map fun (x, rest) =>
      (.call .leading operator.symbol [x], rest) := by
  rw [← leading?_eq] at h
  unfold operand? expr?
  rw [operand]
  simp only [h, strength_eq, title_eq]
  exact pair_map_widen _ _ _

/-- Any other operand is a primary with what is accessed of it. -/
theorem operand?_of_primary {cast : Bool} {t : Token} (ts : List Token)
    (h : Operator.leading? t = none) :
    operand? cast (t :: ts) = (primary? t ts).bind fun (x, rest) => accesses? x rest := by
  rw [← leading?_eq] at h
  unfold operand? primary? accesses?
  rw [operand]
  simp only [h]
  cases primary t ts with
  | none => rfl
  | some x => exact pair_widen _ _

/-! ### Climbing -/

section Climb

variable {cast : Bool} {m more : Nat} {ts : List Token} {operator : Operator}

/-- No operator comes, so the expression ends here. -/
theorem climb?_of_nothing (x : Expr) (h : upcoming cast ts = .nothing) :
    climb? cast m x ts = some (x, ts) := by
  unfold climb?
  cases ts with
  | nil => rw [climb]; rfl
  | cons t later =>
    rw [climb]
    simp only [h]
    rfl

/-- `IS NOT` or `NOT` without what has to follow it. -/
theorem climb?_of_dangling (x : Expr) (h : upcoming cast ts = .dangling) :
    climb? cast m x ts = none := by
  unfold climb?
  cases ts with
  | nil => cases h
  | cons t later =>
    rw [climb]
    simp only [h]
    rfl

/-- An operator that binds no tighter than `m` is left where it is. -/
theorem climb?_of_weak (x : Expr) (h : upcoming cast ts = .operator operator more)
    (weak : operator.strength ≤ m) : climb? cast m x ts = some (x, ts) := by
  unfold climb?
  cases ts with
  | nil => cases h
  | cons t later =>
    rw [climb]
    simp only [h, strength_eq, weak, if_true]
    rfl

/-- A test is complete with what stands in front of it. -/
theorem climb?_of_after (x : Expr) (h : upcoming cast ts = .operator operator more)
    (strong : m < operator.strength) (behind : operator.fixity = .after) :
    climb? cast m x ts =
      climb? cast m (.call .trailing operator.symbol [x]) (ts.drop (more + 1)) := by
  conv => lhs; unfold climb?
  cases ts with
  | nil => cases h
  | cons t later =>
    rw [climb]
    have test := (isTest_iff operator).mpr behind
    simp only [h, strength_eq, title_eq, Nat.not_le.mpr strong, test, if_true, if_false]
    exact pair_widen _ _

/-- `AS` takes a name, and the expression goes on as an operand of its own. -/
theorem climb?_of_named (x : Expr) (h : upcoming cast ts = .operator .named more)
    (strong : m < Operator.named.strength) :
    climb? cast m x ts = (identifier? (ts.drop (more + 1))).bind fun (id, rest) =>
      climb? cast m (.call .binary Operator.named.symbol [x, .identifier id]) rest := by
  conv => lhs; unfold climb?
  cases ts with
  | nil => cases h
  | cons t later =>
    rw [climb]
    have between : isTest .named = false := rfl
    simp only [h, strength_eq, title_eq, Nat.not_le.mpr strong, between, Bool.false_eq_true,
      if_true, if_false, List.drop_succ_cons]
    split
    · rename_i id rest found
      rw [pair_widen, found]
      rfl
    · rename_i found
      rw [found]
      rfl

/-- The right side takes only what binds tighter, so equal strengths group to the left. -/
theorem climb?_of_between (x : Expr) (h : upcoming cast ts = .operator operator more)
    (strong : m < operator.strength) (between : operator.fixity = .between)
    (other : operator ≠ .named) :
    climb? cast m x ts = (expr? cast operator.strength (ts.drop (more + 1))).bind
      fun (y, rest) => climb? cast m (joined operator x y) rest := by
  conv => lhs; unfold climb?
  cases ts with
  | nil => cases h
  | cons t later =>
    rw [climb, List.drop_succ_cons]
    have infixed : isTest operator ≠ true := by simp [isTest_iff, between]
    simp only [h, strength_eq, Nat.not_le.mpr strong, infixed, other, if_false]
    unfold expr?
    cases expr cast operator.strength (later.drop more) with
    | none => rfl
    | some right => exact pair_widen _ _

end Climb

/-! ### Accesses -/

/-- Nothing is accessed without a dot. -/
theorem accesses?_of_no_dot (x : Expr) (ts : List Token) (h : (look ts).isSymbol .dot = false) :
    accesses? x ts = some (x, ts) := by
  unfold accesses?
  cases ts with
  | nil => rw [accesses]; rfl
  | cons t later =>
    have absent : t.isSymbol .dot = false := h
    rw [accesses]
    simp only [absent, Bool.false_eq_true, if_false]
    rfl

section Dot

variable {t : Token} (dot : t.isSymbol .dot = true) (later : List Token)

include dot

/-- A method without arguments has one that was left out. -/
theorem accesses?_of_empty_method (x : Expr) {name : String}
    (h : method? (look later) (later.drop 1) = some name)
    (closed : (look (later.drop 2)).isSymbol .closeParen = true) :
    accesses? x (t :: later) =
      accesses? (.call .method name [x, .elided]) (later.drop 3) := by
  conv => lhs; unfold accesses?
  rw [accesses]
  simp only [dot, h, closed, if_true]
  exact pair_widen _ _

/-- The receiver is the first argument of a method. -/
theorem accesses?_of_method (x : Expr) {name : String}
    (h : method? (look later) (later.drop 1) = some name)
    (further : (look (later.drop 2)).isSymbol .closeParen = false) :
    accesses? x (t :: later) = (items? true .closeParen (later.drop 2)).bind
      fun (args, rest) => accesses? (.call .method name (x :: args)) rest := by
  conv => lhs; unfold accesses?
  rw [accesses]
  simp only [dot, h, further, if_true, Bool.false_eq_true, if_false]
  unfold items?
  cases items true .closeParen (later.drop 2) with
  | none => rfl
  | some args => exact pair_widen _ _

/-- What is no method is attached to the receiver: a name, a property or a key. -/
theorem accesses?_of_attach (x : Expr) (h : method? (look later) (later.drop 1) = none) :
    accesses? x (t :: later) = (attach? x (look later) (later.drop 1)).bind
      fun (y, rest) => accesses? y rest := by
  conv => lhs; unfold accesses?
  rw [accesses]
  simp only [dot, h, if_true]
  split
  · rename_i y rest found
    rw [pair_widen, found]
    rfl
  · rename_i found
    rw [found]
    rfl

end Dot

/-! ### Items -/

/-- An item may be left out where a function has arguments, and only in front of a comma or the end.
-/
theorem items?_eq (gaps : Bool) (closing : Symbol) (t : Token) (later : List Token) :
    items? gaps closing (t :: later) =
      if gaps && (t.isSymbol .comma || t.isSymbol .closeParen) then
        moreItems? gaps closing .elided (t :: later)
      else (expr? false 0 (t :: later)).bind fun (x, rest) => moreItems? gaps closing x rest := by
  unfold items? moreItems? expr?
  rw [items]
  split
  · rfl
  · cases expr false 0 (t :: later) with
    | none => rfl
    | some x => exact pair_widen _ _

/-- A comma goes on with the items, and the closing symbol ends them. -/
theorem moreItems?_eq (gaps : Bool) (closing : Symbol) (x : Expr) (t : Token)
    (later : List Token) :
    moreItems? gaps closing x (t :: later) =
      if t.isSymbol .comma then
        (items? gaps closing later).map fun (xs, rest) => (x :: xs, rest)
      else if t.isSymbol closing then some ([x], later)
      else none := by
  unfold moreItems? items?
  rw [moreItems]
  split
  · exact pair_map_widen _ _ _
  · split <;> rfl

/-! ### Primaries -/

/-- A parenthesis behind a name makes it a call, one without arguments if it is closed at once. -/
theorem nameOrFunction?_eq (name : String) (ts : List Token) :
    nameOrFunction? name ts =
      if (look ts).isSymbol .openParen then
        if (look (ts.drop 1)).isSymbol .closeParen then
          some (.call .function name [], ts.drop 2)
        else (items? true .closeParen (ts.drop 1)).map fun (args, rest) =>
          (.call .function name args, rest)
      else some (.identifier (.ofName ⟨name, .bare⟩), ts) := by
  unfold nameOrFunction? items?
  rw [nameOrFunction]
  split
  · split
    · rfl
    · exact pair_map_widen _ _ _
  · rfl

theorem primary?_number (value : Decimal) (ts : List Token) :
    primary? (.number value) ts = some (.number value, ts) := by
  unfold primary?
  rw [primary]
  rfl

theorem primary?_string (value : String) (quote : Quote) (ts : List Token) :
    primary? (.string value quote) ts = some (.string value, ts) := by
  unfold primary?
  rw [primary]
  rfl

theorem primary?_word (name : String) (ts : List Token) :
    primary? (.word name) ts = nameOrFunction? name ts := by
  unfold primary?
  rw [primary]
  rfl

/-- Of the keywords that are reserved only three begin a primary. -/
theorem primary?_keyword (k : Keyword) (spelling : String) (ts : List Token) :
    primary? (.keyword k spelling) ts =
      if k = .NULL then some (.null, ts)
      else if k = .CASE then choice? ts
      else if k = .CAST then typed? ts
      else if k.isReserved then none
      else nameOrFunction? spelling ts := by
  unfold primary? choice? typed? nameOrFunction?
  rw [primary]
  simp only [apply_ite (Option.map Taken.pair), mem_bareKeywords, Keyword.mem_reserved]
  cases k.isReserved <;> rfl

/-- An empty name in brackets is no primary. -/
theorem primary?_bracketed (name : String) (ts : List Token) :
    primary? (.bracketed name) ts =
      if name.isEmpty then none
      else some (.identifier (.ofName ⟨name, .quoted⟩), ts) := by
  unfold primary?
  rw [primary]
  split <;> rfl

/-- A key by itself is an identifier of one segment. -/
theorem primary?_of_isKeyPart {t : Token} (ts : List Token) (h : t.isKeyPart = true) :
    primary? t ts = (key? t ts).map fun (key, rest) =>
      (.identifier (.single (.key key)), rest) := by
  unfold primary?
  rw [primary.eq_def]
  cases t with
  | bracketedKey name | wordKey name =>
    simp only
    split
    · rename_i found
      simp only [found, Option.map_some, Taken.pair]
    · rename_i found
      simp only [found, Option.map_none]
  | _ => cases h

/-- One expression in parentheses stands for itself, several are a tuple. -/
theorem primary?_openParen (ts : List Token) :
    primary? (.symbol .openParen) ts =
      (items? false .closeParen ts).map fun (xs, rest) => (grouped xs, rest) := by
  unfold primary? items?
  rw [primary]
  exact pair_map_widen _ _ _

/-- Braces are a set, which may be empty. -/
theorem primary?_openBrace (ts : List Token) :
    primary? (.symbol .openBrace) ts =
      if (look ts).isSymbol .closeBrace then some (.braces [], ts.drop 1)
      else (items? false .closeBrace ts).map fun (xs, rest) => (.braces xs, rest) := by
  unfold primary? items?
  rw [primary]
  simp only [reduceCtorEq, if_true, if_false]
  split
  · rfl
  · exact pair_map_widen _ _ _

/-- No other symbol begins a primary. -/
theorem primary?_symbol {s : Symbol} (ts : List Token) (paren : s ≠ .openParen)
    (brace : s ≠ .openBrace) : primary? (.symbol s) ts = none := by
  unfold primary?
  rw [primary]
  simp only [paren, brace, if_false]
  rfl

theorem primary?_endOfText (ts : List Token) : primary? .endOfText ts = none := by
  unfold primary?
  rw [primary]
  rfl

/-- Between `CASE` and the first `WHEN` there may be an operand. -/
theorem choice?_eq (ts : List Token) :
    choice? ts =
      if (look ts).isKeyword .WHEN then
        (branches? (ts.drop 1)).map fun ((found, otherwise), rest) =>
          (.choice none found otherwise, rest)
      else (expr? false 0 ts).bind fun (x, rest) =>
        if (look rest).isKeyword .WHEN then
          (branches? (rest.drop 1)).map fun ((found, otherwise), rest) =>
            (.choice (some x) found otherwise, rest)
        else none := by
  unfold choice? branches? expr?
  rw [choice]
  split
  · exact pair_map_widen _ _ _
  · cases expr false 0 ts with
    | none => rfl
    | some x =>
      simp only [Option.map_some, Option.bind_some, Taken.pair]
      split
      · exact pair_map_widen _ _ _
      · rfl

/-- A branch begins with its condition. -/
theorem branches?_eq (ts : List Token) :
    branches? ts = (expr? false 0 ts).bind fun (condition, rest) =>
      branchResult? condition rest := by
  unfold branches? branchResult? expr?
  rw [branches]
  cases expr false 0 ts with
  | none => rfl
  | some condition => exact pair_widen _ _

/-- `THEN` must follow a condition, and a result must follow `THEN`. -/
theorem branchResult?_eq (condition : Expr) (t : Token) (later : List Token) :
    branchResult? condition (t :: later) =
      if t.isKeyword .THEN then
        (expr? false 0 later).bind fun (result, rest) => moreBranches? condition result rest
      else none := by
  unfold branchResult? moreBranches? expr?
  rw [branchResult]
  split
  · cases expr false 0 later with
    | none => rfl
    | some result => exact pair_widen _ _
  · rfl

/-- Behind a result comes another branch, the `ELSE` or the end. -/
theorem moreBranches?_eq (condition result : Expr) (t : Token) (later : List Token) :
    moreBranches? condition result (t :: later) =
      if t.isKeyword .WHEN then
        (branches? later).map fun ((found, otherwise), rest) =>
          (((condition, result) :: found, otherwise), rest)
      else if t.isKeyword .ELSE then
        (expr? false 0 later).bind fun (otherwise, rest) =>
          if (look rest).isKeyword .END then
            some (([(condition, result)], some otherwise), rest.drop 1)
          else none
      else if t.isKeyword .END then some (([(condition, result)], none), later)
      else none := by
  unfold moreBranches? branches? expr?
  rw [moreBranches]
  split
  · exact pair_map_widen _ _ _
  · split
    · cases expr false 0 later with
      | none => rfl
      | some otherwise =>
        simp only [Option.map_some, Option.bind_some, Taken.pair]
        split <;> rfl
    · split <;> rfl

/-- The type of a `CAST` stands behind `AS`, and the parenthesis closes it. -/
theorem typed?_eq (ts : List Token) :
    typed? ts =
      if (look ts).isSymbol .openParen then
        (expr? true 0 (ts.drop 1)).bind fun (x, rest) =>
          (castType? rest).map fun type =>
            (.call .cast "CAST" [x, .typeName type.text], rest.drop 3)
      else none := by
  unfold typed? expr?
  rw [typed]
  split
  · cases expr true 0 (ts.drop 1) with
    | none => rfl
    | some x =>
      simp only [Option.map_some, Option.bind_some, Taken.pair]
      cases castType? x.rest <;> rfl
  · rfl

end MdxReader.Descent
