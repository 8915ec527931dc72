import MdxReader.Proofs.Identifiers
import MdxReader.Proofs.Slots

/-!
# Drillthroughs

A `DRILLTHROUGH` is read part by part where the tokens ahead are known.  In the `RETURN` list an
identifier is read with all its segments, as it is everywhere outside of expressions.  What an
expression makes of the same text, if it makes an identifier of it at all, is the same identifier
(`read_returned`).
-/

namespace MdxReader

open ReadM

/-- `SELECT FROM c` -/
def Select.plain : Select := ⟨[], .empty, .plain, none, []⟩

/-! ### The parts of a drillthrough -/

section Parts

variable {r atOptions between atSelect atReturn last : Reader} {ts : List Token}

/-- The token neither continues the source of a query nor begins what may follow that. -/
def EndsSource (t : Token) : Prop :=
  t.isSymbol .dot = false ∧ ∀ k ∈ [Keyword.WHERE, .CELL, .PROPERTIES], t.isKeyword k = false

theorem exists_select_of_tokens
    (h : r.tokens = .ofKeyword .SELECT :: .ofKeyword .FROM :: .word "c" :: ts)
    (clean : .endOfText ∈ ts) (ends : EndsSource (Descent.look ts)) :
    ∃ after, select r = .ok .plain after ∧ after.tokens = ts := by
  obtain ⟨atFrom, selects, ahead₁, -⟩ := exists_expectKeyword_of_tokens h (by simp [clean])
  obtain ⟨atCube, comes, ahead₂, -⟩ := exists_expectKeyword_of_tokens ahead₁ (by simp [clean])
  obtain ⟨after, sourced, left, -⟩ := exists_source_of_tokens ahead₂ clean ends.1
  rw [← left, after.look_tokens] at ends
  have noSlicer : slicer after = .ok none after := slicer_of_no_where (ends.2 _ (by decide))
  exact ⟨after, select_of_parts (withClause_of_tokens h) selects (selection_of_tokens ahead₁) comes
    rfl sourced noSlicer ⟨ends.2 _ (by decide), ends.2 _ (by decide)⟩, left⟩

theorem statement_of_drillthrough (drills : r.token.isKeyword .DRILLTHROUGH = true) :
    statement r = keepingDepth (do return .drillthrough (← drillthrough)) r := by
  have noMark : r.token.isKeyword .EXPLAIN = false := by
    obtain ⟨spelling, token⟩ := Token.isKeyword_iff.mp drills
    rw [token]
    rfl
  have plain : plainStatement r = (do
      return .drillthrough (← drillthrough) : ReadM Statement) r := by
    change (if r.token.isKeyword .DRILLTHROUGH = true then _ else _ : ReadM Statement) r = _
    rw [if_pos drills]
  rw [statement_of_no_explain noMark]
  unfold keepingDepth
  rw [plain]

theorem isKeyword_of_expectKeyword {k : Keyword} {u : Unit} {after : Reader}
    (h : expectKeyword k r = .ok u after) : r.token.isKeyword k = true := by
  by_contra absent
  change (if r.token.isKeyword k = true then _ else _ : ReadM Unit) r = _ at h
  rw [if_neg absent] at h
  cases h

/-- **The parts of a drillthrough**, and the end of the text behind them. -/
theorem exists_wholeStatement_of_parts {one : Option ℕ × Option ℕ} {maxRows firstRowSet : Option ℕ}
    {query : Select} {ids : List Identifier}
    (drills : expectKeyword .DRILLTHROUGH r = .ok () atOptions)
    (first : drillOption (none, none) atOptions = .ok one between)
    (second : drillOption one between = .ok (maxRows, firstRowSet) atSelect)
    (selected : select atSelect = .ok query atReturn) (items : returned atReturn = .ok ids last)
    (ended : last.token = .endOfText) :
    ∃ after, wholeStatement r =
      .ok (.drillthrough ⟨maxRows, firstRowSet, query, ids⟩) after := by
  have drilled : drillthrough r = .ok ⟨maxRows, firstRowSet, query, ids⟩ last := by
    unfold drillthrough
    rw [bind_of_ok drills, bind_of_ok first, bind_of_ok second]
    exact (bind_of_ok selected).trans ((bind_of_ok items).trans rfl)
  have stated : statement r =
      .ok (.drillthrough ⟨maxRows, firstRowSet, query, ids⟩) { last with depth := r.depth } := by
    rw [statement_of_drillthrough (isKeyword_of_expectKeyword drills)]
    unfold keepingDepth
    rw [bind_of_ok drilled]
    rfl
  have ends : endStatement { last with depth := r.depth } = .ok () { last with depth := r.depth } :=
    endStatement_of_token ended
  refine ⟨{ last with depth := r.depth }, ?_⟩
  unfold wholeStatement
  rw [bind_of_ok stated, bind_of_ok ends]
  rfl

/-- Where the first option fails, the statement does. -/
theorem exists_error_of_option {e : ReadError}
    (drills : expectKeyword .DRILLTHROUGH r = .ok () atOptions)
    (failed : drillOption (none, none) atOptions = .error e last) :
    ∃ after, wholeStatement r = .error e after := by
  have drilled : drillthrough r = .error e last := by
    unfold drillthrough
    rw [bind_of_ok drills]
    exact bind_of_error failed
  have stated : statement r = .error e { last with depth := r.depth } := by
    rw [statement_of_drillthrough (isKeyword_of_expectKeyword drills)]
    unfold keepingDepth
    rw [bind_of_error drilled]
  exact ⟨_, bind_of_error stated⟩

/-- No option is there. -/
theorem drillOption_of_ne {found : Option ℕ × Option ℕ}
    (absent : r.token.isKeyword .MAXROWS = false ∧ r.token.isKeyword .FIRSTROWSET = false) :
    drillOption found r = .ok found r := by
  unfold drillOption
  rw [bind_get, absent.1, absent.2, Bool.and_false, Bool.and_false]
  rfl

end Parts

/-- What every reader at these tokens reads is the statement of the text. -/
theorem read_statement_of_tokens {text : String} {limit : ℕ} {found : Statement}
    {all : List Located} (scanned : tokensOf text = .ok all)
    (reads : ∀ r : Reader, r.tokens = all.map Located.token →
      ∃ last, wholeStatement r = .ok found last) :
    read .statement text limit = .ok (.statement found) := by
  obtain ⟨r, start, ahead, -⟩ := Reader.exists_ofText limit scanned
  obtain ⟨last, read⟩ := reads r (congrArg _ ahead)
  exact read_of_ok start ((bind_of_ok read).trans rfl)

/-! ### Identifiers that are returned -/

section Returned

variable {r : Reader} {ts : List Token} {id : Identifier}

/-- The tokens in front of what is returned. -/
def returnOpening : List Token :=
  [.ofKeyword .DRILLTHROUGH, .ofKeyword .SELECT, .ofKeyword .FROM, .word "c", .ofKeyword .RETURN]

theorem exists_wholeStatement_of_identifier {rest : List Token}
    (h : r.tokens = returnOpening ++ ts) (clean : .endOfText ∈ ts)
    (taken : Descent.identifier? ts = some (id, rest))
    (ended : Descent.look rest = .endOfText) :
    ∃ last, wholeStatement r = .ok (.drillthrough ⟨none, none, .plain, [id]⟩) last := by
  have ends : EndsSource (.ofKeyword .RETURN) := ⟨rfl, by decide⟩
  obtain ⟨atSelect, drills, ahead₁, -⟩ := exists_expectKeyword_of_tokens h (by simp [clean])
  obtain ⟨atReturn, selected, ahead₂⟩ := exists_select_of_tokens ahead₁ (by simp [clean]) ends
  obtain ⟨atItems, moved, ahead₃, -⟩ := exists_advance_of_tokens ahead₂ nofun clean
  have single : Grammar.identifiers atItems.tokens = some ([id], rest) := by
    have first : Grammar.identifier atItems.tokens = some (id, rest) :=
      (congrArg _ ahead₃).trans taken
    have noComma : (Descent.look rest).isSymbol .comma = false := by
      rw [ended]
      rfl
    refine (Parser.bind_of_some first).trans ?_
    rw [Parser.bind_of_some (Parser.further_of_no_comma noComma)]
    rfl
  obtain ⟨last, found, left, -⟩ := exists_of_parses parses_identifiers calm_identifiers single
    (ahead₃ ▸ clean)
  have items : returned atReturn = .ok [id] last := by
    have returns : atReturn.token.isKeyword .RETURN = true := by
      rw [token_of_tokens ahead₂]
      rfl
    change (if atReturn.token.isKeyword .RETURN = true then _ else _ : ReadM _) atReturn = _
    rw [if_pos returns, bind_of_ok moved, found]
  have noOption (one : Option ℕ × Option ℕ) : drillOption one atSelect = .ok one atSelect :=
    drillOption_of_ne (by rw [token_of_tokens ahead₁]; exact ⟨rfl, rfl⟩)
  rw [← left, last.look_tokens] at ended
  exact exists_wholeStatement_of_parts drills (noOption _) (noOption _) selected items ended

/-- **Both readers of identifiers agree.**  A text without opening parentheses that is read as an
expression, and is a single identifier as such, can be returned by a drillthrough: that identifier
is all that is returned then.  The limits make no difference. -/
theorem read_returned {text : String} {limit : ℕ} {tokens : List Located}
    (scanned : tokensOf text = .ok tokens)
    (noParen : .symbol .openParen ∉ tokens.map Located.token)
    (h : read .expression text limit = .ok (.expression (.identifier id))) (limit' : ℕ) :
    read .statement ("DRILLTHROUGH SELECT FROM c RETURN " ++ text) limit' =
      .ok (.statement (.drillthrough ⟨none, none, .plain, [id]⟩)) := by
  obtain ⟨x, rest, same, found, ends⟩ := exists_expr_of_read h scanned
  cases same
  obtain ⟨ts, -, known⟩ := (scans_of_tokensOf scanned).exists_map_eq
  have clean : .endOfText ∈ tokens.map Located.token := by simp [known]
  have bare : Descent.look (tokens.map Located.token) ≠ .symbol .openParen := by
    intro paren
    cases tokens with
    | nil => cases paren
    | cons first later => exact noParen (paren ▸ List.mem_cons_self)
  have taken := Descent.identifier?_of_expr bare found
  have writable : AllWritable returnOpening :=
    .cons (writable_ofKeyword _) (writable_query.append (.single (writable_ofKeyword _)))
  have opens : (tokensOf "DRILLTHROUGH SELECT FROM c RETURN").map (·.map Located.token) =
      .ok (returnOpening ++ [Token.endOfText]) :=
    map_tokensOf_of_spaced writable (by decide)
  have space : "DRILLTHROUGH SELECT FROM c RETURN" ++ String.singleton ' ' =
      "DRILLTHROUGH SELECT FROM c RETURN " := by
    decide
  obtain ⟨all, scannedAll, allTokens⟩ :=
    exists_tokensOf_behind scanned opens (by simp) (congrArg (· ++ text) space)
  exact read_statement_of_tokens scannedAll fun r ahead =>
    exists_wholeStatement_of_identifier (ahead.trans allTokens) clean taken ends

/-- A name, a key of two parts and a further name, with a comment in front of it. -/
theorem read_returned_key : ∃ tokens id,
    tokensOf "Time.&[2024]&Q1 /* of */.[Jan]" = .ok tokens ∧
    .symbol .openParen ∉ tokens.map Located.token ∧
    read .expression "Time.&[2024]&Q1 /* of */.[Jan]" 30 = .ok (.expression (.identifier id)) ∧
    read .statement "DRILLTHROUGH SELECT FROM c RETURN Time.&[2024]&Q1 /* of */.[Jan]" 0 =
      .ok (.statement (.drillthrough ⟨none, none, .plain, [id]⟩)) := by
  have scanned : tokensOf "Time.&[2024]&Q1 /* of */.[Jan]" = .ok [
      ⟨.word "Time", ⟨0, 1, 1⟩⟩, ⟨.symbol .dot, ⟨4, 1, 5⟩⟩, ⟨.bracketedKey "2024", ⟨5, 1, 6⟩⟩,
      ⟨.wordKey "Q1", ⟨12, 1, 13⟩⟩, ⟨.symbol .dot, ⟨24, 1, 25⟩⟩, ⟨.bracketed "Jan", ⟨25, 1, 26⟩⟩,
      ⟨.endOfText, ⟨30, 1, 31⟩⟩] := by
    decide +kernel
  have alone : read .expression "Time.&[2024]&Q1 /* of */.[Jan]" 30 =
      .ok (.expression (.identifier (.dotted (.dotted (.single (.name ⟨"Time", .bare⟩))
        (.key ⟨⟨"2024", .quoted⟩, [⟨"Q1", .bare⟩]⟩)) (.name ⟨"Jan", .quoted⟩)))) :=
    (read_ok_iff .expression scanned (by decide) _).mpr (by cbv)
  have noParen : Token.symbol .openParen ∉ [Token.word "Time", .symbol .dot, .bracketedKey "2024",
      .wordKey "Q1", .symbol .dot, .bracketed "Jan", .endOfText] := by
    decide
  have text : "DRILLTHROUGH SELECT FROM c RETURN " ++ "Time.&[2024]&Q1 /* of */.[Jan]" =
      "DRILLTHROUGH SELECT FROM c RETURN Time.&[2024]&Q1 /* of */.[Jan]" := by
    decide
  exact ⟨_, _, scanned, noParen, alone, text ▸ read_returned scanned noParen alone 0⟩

end Returned

end MdxReader
