import MdxReader.Proofs.FirstWord
import MdxReader.Proofs.Identifiers
import MdxReader.Proofs.Writing

/-!
# How texts begin

Expressions and statements are disjoint languages (`read_expression_disjoint`): their first two
tokens tell them apart.

* An expression begins with a token that can begin an operand (`beginsExpression_of_expr`).  Of the
  keywords that open statements that leaves `EXPLAIN`, which is a name as well.
* As a name, `EXPLAIN` is complete in front of `PLAN`: nothing continues it there, so that it is not
  the expression of a whole text.
-/

namespace MdxReader

open Descent

/-- The token can be the first of an expression. -/
def Token.beginsExpression : Token → Bool
  | .number _ | .string _ _ | .word _ | .bracketed _ | .bracketedKey _ | .wordKey _ => true
  | .keyword k _ => !k.isReserved || k ∈ [Keyword.NULL, .CASE, .CAST, .NOT, .EXISTING]
  | .symbol s => s ∈ [Symbol.plus, .minus, .openParen, .openBrace]
  | .endOfText => false

section Beginning

variable {cast : Bool} {m : ℕ} {t : Token} {ts rest : List Token} {x : Expr}

theorem beginsExpression_of_leading {operator : Operator}
    (h : Operator.leading? t = some operator) : t.beginsExpression = true := by
  unfold Operator.leading? at h
  split at h <;> first | rfl | cases h

theorem beginsExpression_of_primary (h : primary? t ts = some (x, rest)) :
    t.beginsExpression = true := by
  cases t with
  | keyword k spelling =>
    by_contra other
    simp only [Token.beginsExpression, List.mem_cons, List.not_mem_nil, or_false, not_or,
      Bool.or_eq_true, Bool.not_eq_true', decide_eq_true_eq, Bool.not_eq_false] at other
    obtain ⟨reserved, null, choice, cast, -⟩ := other
    rw [primary?_keyword, if_neg null, if_neg choice, if_neg cast, if_pos reserved] at h
    cases h
  | symbol s =>
    by_contra other
    simp only [Token.beginsExpression, List.mem_cons, List.not_mem_nil, or_false, not_or,
      decide_eq_true_eq] at other
    obtain ⟨-, -, paren, brace⟩ := other
    rw [primary?_symbol ts paren brace] at h
    cases h
  | endOfText =>
    rw [primary?_endOfText] at h
    cases h
  | _ => rfl

/-- **What an expression begins with.** -/
theorem beginsExpression_of_expr (h : expr? cast m ts = some (x, rest)) :
    (look ts).beginsExpression = true := by
  rw [expr?_eq] at h
  obtain ⟨⟨y, between⟩, operand, -⟩ := Option.bind_eq_some_iff.mp h
  obtain ⟨t, later, rfl, ⟨operator, -, leads, -⟩ | ⟨z, last, first, -⟩⟩ := cases_operand? operand
  · exact beginsExpression_of_leading leads
  · exact beginsExpression_of_primary first

/-- Of the keywords that open statements, `EXPLAIN` alone can begin an expression. -/
theorem eq_explain_of_opening {k : Keyword} (mem : k ∈ openings) (opening : t.isKeyword k = true)
    (begins : t.beginsExpression = true) : k = .EXPLAIN := by
  obtain ⟨spelling, rfl⟩ := Token.isKeyword_iff.mp opening
  have barred : ∀ k ∈ openings, k ≠ .EXPLAIN →
      k.isReserved = true ∧ k ∉ [Keyword.NULL, .CASE, .CAST, .NOT, .EXISTING] := by
    decide
  by_contra other
  obtain ⟨reserved, noOperand⟩ := barred k mem other
  simp [Token.beginsExpression, reserved, noOperand] at begins

/-- In front of `PLAN`, the name `EXPLAIN` is a complete expression. -/
theorem expr?_explain {spelling : String} (plans : t.isKeyword .PLAN = true) :
    expr? cast m (.keyword .EXPLAIN spelling :: t :: ts) =
      some (.identifier (.ofName ⟨spelling, .bare⟩), t :: ts) := by
  obtain ⟨plan, rfl⟩ := Token.isKeyword_iff.mp plans
  have name : primary? (.keyword .EXPLAIN spelling) (.keyword .PLAN plan :: ts) =
      some (.identifier (.ofName ⟨spelling, .bare⟩), .keyword .PLAN plan :: ts) := by
    rw [primary?_keyword]
    exact nameOrFunction?_eq spelling _
  exact expr?_of_primary? rfl name ⟨⟨⟨rfl, rfl⟩, rfl⟩, rfl⟩

end Beginning

/-- Behind `EXPLAIN`, a statement goes on with `PLAN`. -/
theorem Grammar.isKeyword_of_explain {t : Token} {ts rest : List Token} {found : Statement}
    (explained : t.isKeyword .EXPLAIN = true) (h : statement (t :: ts) = some (found, rest)) :
    (look ts).isKeyword .PLAN = true := by
  have begins : (look (t :: ts)).isKeyword .EXPLAIN = true := explained
  rw [statement_of_explain begins] at h
  obtain ⟨_, _, marked, -⟩ := Parser.bind_eq_some h
  obtain ⟨_, _, explains, planned⟩ := Parser.bind_eq_some marked
  obtain ⟨_, _, plans, -⟩ := Parser.bind_eq_some planned
  rw [(Parser.keyword_eq_some explains).2] at plans
  exact (Parser.keyword_eq_some plans).1

section Texts

variable {text : String} {limit : ℕ} {tree : Tree}

/-- A text that is read as an expression does not begin as statements do, unless with an `EXPLAIN`
that no `PLAN` follows. -/
theorem explain_of_opening {first : Located} {later : List Located}
    (h : read .expression text limit = .ok tree) (scanned : tokensOf text = .ok (first :: later))
    {k : Keyword} (mem : k ∈ openings) (opening : first.token.isKeyword k = true) :
    k = .EXPLAIN ∧ (look (later.map Located.token)).isKeyword .PLAN = false := by
  obtain ⟨x, rest, -, found, ends⟩ := exists_expr_of_read h scanned
  obtain rfl := eq_explain_of_opening mem opening (beginsExpression_of_expr found)
  refine ⟨rfl, ?_⟩
  obtain ⟨spelling, explain⟩ := Token.isKeyword_iff.mp opening
  cases later with
  | nil => rfl
  | cons second later =>
    by_contra planned
    have plans : second.token.isKeyword .PLAN = true := by
      rwa [Bool.not_eq_false] at planned
    rw [List.map_cons, List.map_cons, explain, expr?_explain plans] at found
    cases found
    exact Token.ne_endOfText_of_isKeyword plans ends

/-- **Expressions and statements are disjoint languages**, and so are expressions and queries: no
text is read as both, whatever the limits are. -/
theorem read_expression_disjoint (text : String) (limit limit' : ℕ) :
    ¬ ((read .expression text limit).isOk = true ∧ (read .statement text limit').isOk = true) ∧
      ¬ ((read .expression text limit).isOk = true ∧ (read .select text limit').isOk = true) := by
  constructor
  · rintro ⟨isExpression, isStatement⟩
    obtain ⟨x, expressed⟩ := exists_of_isOk isExpression
    obtain ⟨s, stated⟩ := exists_of_isOk isStatement
    obtain ⟨first, later, scanned, k, mem, opening⟩ := exists_opening_of_read stated
    obtain ⟨rfl, noPlan⟩ := explain_of_opening expressed scanned mem opening
    obtain ⟨_, _, _, _, found, -, -⟩ :=
      Parser.run'_map_bind_eq_some (run'_parser_of_read stated scanned)
    have plans := Grammar.isKeyword_of_explain opening found
    rw [noPlan] at plans
    cases plans
  · rintro ⟨isExpression, isSelect⟩
    obtain ⟨x, expressed⟩ := exists_of_isOk isExpression
    obtain ⟨s, queried⟩ := exists_of_isOk isSelect
    obtain ⟨tokens, scanned⟩ := exists_tokensOf_of_read queried
    obtain ⟨_, _, _, _, found, -, -⟩ :=
      Parser.run'_map_bind_eq_some (run'_parser_of_read queried scanned)
    have opening := Grammar.isOpening_of_select found
    cases tokens with
    | nil => obtain defines | selects := opening <;> contradiction
    | cons first later =>
      -- Neither of the two keywords is `EXPLAIN`.
      obtain defines | selects := opening
      · obtain ⟨same, -⟩ := explain_of_opening expressed scanned (by decide) defines
        cases same
      · obtain ⟨same, -⟩ := explain_of_opening expressed scanned (by decide) selects
        cases same

end Texts

end MdxReader
