import MdxReader.Proofs.Nesting
import MdxReader.Proofs.Writing

/-!
# Every well-formed expression can be written

The tokens of a well-formed expression all have a source form (`Expr.WellFormed.writable`), so
scanning takes them back from the text.  Recursive descent takes the expression back from the tokens
(`expr?_tokens`), and reading is recursive descent.  So the text of an expression is read as this
expression (`read_text`).
-/

namespace MdxReader

open Text ReadM

/-! ### The tokens can be written -/

/-- The token has a source form that scanning takes for it. -/
def Token.Writable (t : Token) : Prop := t.Sound ∧ t ≠ .endOfText

/-- Keywords are words too, so any word is scanned as one or the other. -/
theorem writable_ofWord {text : String} (word : isWord text = true) :
    (Token.ofWord text).Writable := by
  unfold Token.ofWord
  cases found : Keyword.ofWord? text with
  | none => exact ⟨⟨word, found⟩, by nofun⟩
  | some k => exact ⟨⟨word, found⟩, by nofun⟩

theorem writable_ofKeyword (k : Keyword) : (Token.ofKeyword k).Writable := by
  have all : Keyword.all.all (fun k => Keyword.ofWord? k.spelling == some k) = true := by
    decide +kernel
  have found := eq_of_beq (List.all_eq_true.mp all k k.mem_all)
  exact ⟨Token.sound_keyword_iff.mpr found, by nofun⟩

theorem writable_symbol (s : Symbol) : (Token.symbol s).Writable := ⟨trivial, by nofun⟩

theorem writable_bracketed (name : String) : (Token.bracketed name).Writable :=
  ⟨trivial, by nofun⟩

theorem Name.Valid.writable {name : Name} (valid : name.Valid) : name.token.Writable := by
  obtain ⟨text, quoting⟩ := name
  cases quoting with
  | bare => exact writable_ofWord valid.1
  | quoted => exact writable_bracketed text

theorem Name.ValidPart.writable {name : Name} (valid : name.ValidPart) :
    name.partToken.Writable := by
  obtain ⟨text, quoting⟩ := name
  cases quoting with
  | bare => exact ⟨valid, by nofun⟩
  | quoted => exact ⟨trivial, by nofun⟩

/-- All tokens of a list can be written. -/
def AllWritable (ts : List Token) : Prop := ∀ t ∈ ts, t.Writable

namespace AllWritable

variable {t : Token} {ts us : List Token}

theorem nil : AllWritable [] := by nofun

theorem cons (first : t.Writable) (later : AllWritable ts) : AllWritable (t :: ts) :=
  List.forall_mem_cons.mpr ⟨first, later⟩

theorem single (only : t.Writable) : AllWritable [t] := cons only nil

theorem append (front : AllWritable ts) (back : AllWritable us) : AllWritable (ts ++ us) :=
  List.forall_mem_append.mpr ⟨front, back⟩

theorem flatMap {α : Type} {items : List α} {write : α → List Token}
    (each : ∀ a ∈ items, AllWritable (write a)) : AllWritable (items.flatMap write) :=
  List.forall_mem_flatMap.mpr each

end AllWritable

theorem Segment.Valid.writable {segment : Segment} (valid : segment.Valid) :
    AllWritable segment.tokens := by
  cases segment with
  | name found => exact .single (Name.Valid.writable valid)
  | key found => exact List.forall_mem_map.mpr fun part mem => (valid part mem).writable

theorem Segment.Attachable.valid {segment : Segment} (attachable : segment.Attachable) :
    segment.Valid := by
  cases segment with
  | name found =>
    obtain ⟨text, quoting⟩ := found
    obtain ⟨rfl, named, -⟩ := attachable
    exact named
  | key found => exact attachable.1

namespace Identifier

theorem WellFormed.valid {id : Identifier} (wellFormed : id.WellFormed) : id.Valid := by
  induction id with
  | single segment => exact wellFormed
  | dotted qualifier segment ih => exact ⟨ih wellFormed.1, wellFormed.2.valid⟩

/-- An identifier is written as its segments with dots in between. -/
theorem Valid.writable {id : Identifier} (valid : id.Valid) : AllWritable id.tokens := by
  induction id with
  | single segment => exact Segment.Valid.writable valid
  | dotted qualifier segment ih =>
    exact (ih valid.1).append (.cons (writable_symbol .dot) valid.2.writable)

end Identifier

/-- Operators are written with keywords and symbols only. -/
theorem writable_operatorTokens (fixity : Fixity) (symbol : String) :
    AllWritable (operatorTokens fixity symbol) := by
  have all (operator : Operator) : ∀ t ∈ operator.tokens, t.Writable := by
    cases operator <;>
      simp only [Operator.tokens, List.forall_mem_cons, List.not_mem_nil, false_imp_iff,
        implies_true, and_true, writable_ofKeyword, writable_symbol]
  unfold operatorTokens
  simp only
  cases found : Operator.all.find? _ with
  -- No operator has this place and name, and nothing is written.
  | none => exact .nil
  | some operator => exact all operator

/-- Commas are symbols, so a list is written if its members are. -/
theorem writable_commas {parts : List (List Token)} (writable : ∀ part ∈ parts, AllWritable part) :
    AllWritable (commas parts) := by
  fun_induction commas parts with
  | case1 => exact .nil
  | case2 part => exact writable part List.mem_cons_self
  | case3 part more _ ih =>
    obtain ⟨first, others⟩ := List.forall_mem_cons.mp writable
    exact first.append (.cons (writable_symbol .comma) (ih others))

namespace Expr

/-- Parentheses are put around what is written. -/
theorem writable_enclosed {x : Expr} (writable : AllWritable x.tokens) :
    AllWritable x.enclosed := by
  unfold enclosed enclose
  split
  · exact writable
  · exact writable
  · exact writable
  · exact .append (.cons (writable_symbol _) writable) (.single (writable_symbol _))

theorem writable_items {xs : List Expr} (writable : ∀ x ∈ xs, AllWritable x.tokens) :
    AllWritable (commas (xs.map enclosed)) :=
  writable_commas (List.forall_mem_map.mpr fun x mem => writable_enclosed (writable x mem))

/-- What was left out has no tokens. -/
theorem writable_arguments {args : List Expr}
    (writable : ∀ x ∈ args, x ≠ elided → AllWritable x.tokens) :
    AllWritable (commas (args.map enclosed)) := by
  refine writable_items fun x mem => ?_
  by_cases absent : x = elided
  · subst absent
    exact .nil
  · exact writable x mem absent

theorem writable_option {x : Option Expr} (writable : ∀ y ∈ x, AllWritable y.tokens) :
    AllWritable (tokensOption x) := by
  cases x with
  | none => exact .nil
  | some y => exact writable_enclosed (writable y rfl)

/-- `WHEN` and `THEN` stand in front of the parts. -/
theorem writable_branches {branches : List (Expr × Expr)}
    (tests : ∀ branch ∈ branches, AllWritable branch.1.tokens)
    (values : ∀ branch ∈ branches, AllWritable branch.2.tokens) :
    AllWritable (tokensBranches branches) := by
  induction branches with
  | nil => exact .nil
  | cons branch branches ih =>
    obtain ⟨test, tests⟩ := List.forall_mem_cons.mp tests
    obtain ⟨value, values⟩ := List.forall_mem_cons.mp values
    exact .append (.append (.cons (writable_ofKeyword _) (writable_enclosed test))
      (.cons (writable_ofKeyword _) (writable_enclosed value))) (ih tests values)

/-- **All tokens of a well-formed expression can be written.** -/
theorem WellFormed.writable {x : Expr} (wellFormed : x.WellFormed) : AllWritable x.tokens := by
  have symbol := writable_symbol
  have keyword := writable_ofKeyword
  have quoted (name : String) :
      Token.Writable (if isWord name then .wordKey name else .bracketed name) := by
    split
    · rename_i word
      exact ⟨word, by nofun⟩
    · exact writable_bracketed name
  -- What is written around the parts are symbols, keywords and words; the parts follow by
  -- induction.
  induction wellFormed with
  | number value => exact .single ⟨trivial, by nofun⟩
  | string value => exact .single ⟨trivial, by nofun⟩
  | null => exact .single (keyword .NULL)
  | identifier valid => exact valid.valid.writable
  | function bare arguments enough ih =>
    rw [tokens_call]
    exact .append (.cons (writable_ofWord bare.1) (.cons (symbol _) (writable_arguments ih)))
      (.single (symbol _))
  | method named receiver further arguments ihReceiver ih =>
    rw [tokens_call]
    exact .append (.append (writable_enclosed ihReceiver) (.cons (symbol _)
      (.cons (writable_bracketed _) (.cons (symbol _) (writable_arguments ih)))))
      (.single (symbol _))
  | property bare inner ih =>
    exact .append (writable_enclosed ih) (.cons (symbol _) (.single (writable_ofWord bare.1)))
  | wordProperty word inner ih | quotedProperty named plain other inner ih =>
    exact .append (writable_enclosed ih) (.cons (symbol _) (.single (quoted _)))
  | keyProperty named inner ih =>
    exact .append (writable_enclosed ih) (.cons (symbol _) (.single (writable_bracketed _)))
  | leading before inner ih =>
    exact .append (writable_operatorTokens _ _) (writable_enclosed ih)
  | trailing after inner ih =>
    exact .append (writable_enclosed ih) (writable_operatorTokens _ _)
  | binary between other left right ihLeft ihRight =>
    exact .append (.append (writable_enclosed ihLeft) (writable_operatorTokens _ _))
      (writable_enclosed ihRight)
  | named inner valid ih =>
    exact .append (.append (writable_enclosed ih) (writable_operatorTokens _ _)) valid.writable
  | braces inner ih =>
    rw [Expr.braces, tokens_call]
    exact .append (.cons (symbol _) (writable_items ih)) (.single (symbol _))
  | tuple several inner ih =>
    rw [Expr.tuple, tokens_call]
    exact .append (.cons (symbol _) (writable_items ih)) (.single (symbol _))
  | cast inner named ih =>
    exact .append (.append (.cons (keyword _) (.cons (symbol _) (writable_enclosed ih)))
      (.cons (keyword _) (.single (writable_bracketed _)))) (.single (symbol _))
  | choice operands further tests values last ihOperands ihTests ihValues ihLast =>
    rw [tokens_choice]
    refine .cons (keyword _) (.append (writable_option ihOperands)
      (.append (writable_branches ihTests ihValues) (.append ?_ (.single (keyword _)))))
    split
    · exact .cons (keyword _) (writable_option ihLast)
    · exact .nil

end Expr

/-! ### Texts -/

/-- Nothing is left to read where only the end of the text is ahead. -/
theorem expectEnd_of_token {r : Reader} (ended : r.token = .endOfText) :
    expectEnd r = .ok () r := by
  change (if r.token = .endOfText then _ else _ : ReadM Unit) r = _
  rw [if_pos ended]
  rfl

/-- Where only the end is left the text has ended. -/
theorem expectEnd_of_tokens {r : Reader} (h : r.tokens = [.endOfText]) :
    expectEnd r = .ok () r := expectEnd_of_token (List.cons.inj h).1

/-- An expression behind which the text is over is the whole text. -/
theorem wholeExpression_of_tokens {r after : Reader} {x : Expr} (h : expression r = .ok x after)
    (ends : after.tokens = [.endOfText]) : wholeExpression r = .ok x after :=
  (bind_of_ok h).trans ((bind_of_ok (expectEnd_of_tokens ends)).trans rfl)

/-- **Every well-formed expression can be written**: its text is read as this expression, under
every limit that is as great as the text is long. -/
theorem read_text {x : Expr} (wellFormed : x.WellFormed) {limit : Nat}
    (long : x.text.length ≤ limit) :
    read .expression x.text limit = .ok (.expression x) := by
  obtain ⟨tokens, scanned, spelled⟩ := exists_tokensOf_spaced wellFormed.writable
  -- From the text to its tokens, from the tokens to the tree, and from recursive descent to the
  -- reading.
  have descent : Descent.expr? false 0 (tokens.map Located.token) = some (x, [.endOfText]) := by
    rw [spelled]
    exact expr?_tokens wellFormed ⟨⟨⟨rfl, rfl⟩, rfl⟩, rfl⟩
  obtain ⟨r, after, start, found, -, left, -⟩ := exists_expression_of_descent scanned long descent
  have whole : wholeExpression r = .ok x after := wholeExpression_of_tokens found left
  have reading : Goal.expression.reading r = .ok (.expression x) after :=
    (bind_of_ok whole).trans rfl
  have start : Reader.ofText x.text limit = .ok r := start
  unfold read readWithEvents
  simp only [start, Reader.attempt, reading]

/-- A name with a bracket, a string with quotes and a newline, an argument that was left out, and a
reserved word as a name behind `AS`. -/
theorem read_text_method :
    read .expression "( ( \"\"\"x\"\"\n\" ) . [a]]b] ( , ( 1.50 ) ) ) AS [select] . &k" 57 =
      .ok (.expression (.call .binary "AS" [
        .call .method "a]b" [.string "\"x\"\n", .elided, .number ⟨150, 2, by decide, by decide⟩],
        .identifier (.dotted (.single (.name ⟨"select", .quoted⟩)) (.key ⟨⟨"k", .bare⟩, []⟩))])) := by
  have bracketed : Name.Valid ⟨"select", .quoted⟩ := show "select" ≠ "" by decide
  have word : Name.ValidPart ⟨"k", .bare⟩ := show isWord "k" = true by decide +kernel
  have arguments : ∀ x ∈ [Expr.elided, .number ⟨150, 2, by decide, by decide⟩],
      x ≠ .elided → x.WellFormed :=
    List.forall_mem_cons.mpr ⟨fun given => absurd rfl given,
      List.forall_mem_singleton.mpr fun _ => .number _⟩
  have wellFormed : Expr.WellFormed (.call .binary "AS" [
      .call .method "a]b" [.string "\"x\"\n", .elided, .number ⟨150, 2, by decide, by decide⟩],
      .identifier (.dotted (.single (.name ⟨"select", .quoted⟩)) (.key ⟨⟨"k", .bare⟩, []⟩))]) :=
    .named (.method (by decide) (.string _) (by nofun) arguments)
      ⟨bracketed, List.forall_mem_singleton.mpr word⟩
  exact read_text wellFormed (by decide +kernel)

end MdxReader
