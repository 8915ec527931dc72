import MdxReader.Proofs.Joined
import MdxReader.Proofs.Respelling
import MdxReader.Proofs.RoundTrip
import MdxReader.Proofs.Surroundings.Expressions

/-!
# Stretches of tokens

Where the tokens ahead of a reader are known, it can be told what a reading comes to and where it
leaves the reader.

An expression that makes up a text is a stretch of tokens, and they are read as the same expression
wherever they stand (`ReadsAs`): deeper, under a limit that is as much higher, and in front of
whatever does not continue it (`readsAs_of_read`).
-/

namespace MdxReader

open ReadM

/-! ### Known tokens -/

section Known

variable {α β : Type} {r : Reader} {t : Token} {ts : List Token}

theorem token_of_tokens (h : r.tokens = t :: ts) : r.token = t := (List.cons.inj h).1

theorem bind_get (f : Reader → ReadM α) : (MonadState.get >>= f) r = f r r := rfl

theorem bind_of_error {x : ReadM α} {f : α → ReadM β} {after : Reader} {e : ReadError}
    (h : x r = .error e after) : (x >>= f) r = .error e after := by
  change EStateM.bind x f r = _
  unfold EStateM.bind
  rw [h]

theorem atKeyword_of_ne {k : Keyword} {x y : ReadM α} (absent : r.token.isKeyword k = false) :
    (do if ← atKeyword k then x else y) r = y r := by
  change (if r.token.isKeyword k = true then x else y) r = _
  rw [if_neg (Bool.eq_false_iff.mp absent)]

theorem atSymbol_of_ne {s : Symbol} {x y : ReadM α} (absent : r.token.isSymbol s = false) :
    (do if ← atSymbol s then x else y) r = y r := by
  change (if r.token.isSymbol s = true then x else y) r = _
  rw [if_neg (Bool.eq_false_iff.mp absent)]

/-- A demand on the nesting that is met. -/
theorem checkHeight_of_le {height : ℕ} (fits : r.depth + height ≤ r.limit) :
    checkHeight height r = .ok () r := by
  change (if r.limit < r.depth + height then _ else _ : ReadM Unit) r = _
  rw [if_neg (Nat.not_lt.mpr fits)]
  rfl

theorem exists_advance_of_tokens (h : r.tokens = t :: ts) (inner : t ≠ .endOfText)
    (clean : .endOfText ∈ ts) :
    ∃ after, advance r = .ok () after ∧ after.tokens = ts ∧ r.Reaches after := by
  have token := token_of_tokens h
  have more : r.token ≠ .endOfText := token ▸ inner
  cases moved : advance r with
  | ok u after =>
    have tokens := tokens_of_advance more moved
    rw [h] at tokens
    exact ⟨after, rfl, (List.cons.inj tokens).2.symm, reaches_of_advance moved⟩
  | error e after =>
    have known : r.Clean := by
      rw [Reader.Clean, h]
      exact List.mem_cons_of_mem t clean
    exact absurd known (not_clean_of_advance more moved)

theorem exists_expect_of_tokens {s : Symbol} (h : r.tokens = .symbol s :: ts)
    (clean : .endOfText ∈ ts) :
    ∃ after, expect s r = .ok () after ∧ after.tokens = ts ∧ r.Reaches after := by
  obtain ⟨after, moved, tokens, reached⟩ := exists_advance_of_tokens h nofun clean
  refine ⟨after, ?_, tokens, reached⟩
  have there : r.token.isSymbol s = true := by
    rw [token_of_tokens h]
    exact beq_self_eq_true s
  change (if r.token.isSymbol s = true then advance else _ : ReadM Unit) r = _
  rw [if_pos there, moved]

theorem exists_expectKeyword_of_tokens {k : Keyword} {spelling : String}
    (h : r.tokens = .keyword k spelling :: ts) (clean : .endOfText ∈ ts) :
    ∃ after, expectKeyword k r = .ok () after ∧ after.tokens = ts ∧ r.Reaches after := by
  obtain ⟨after, moved, tokens, reached⟩ := exists_advance_of_tokens h nofun clean
  refine ⟨after, ?_, tokens, reached⟩
  have there : r.token.isKeyword k = true := by
    rw [token_of_tokens h]
    exact beq_self_eq_true k
  change (if r.token.isKeyword k = true then advance else _ : ReadM Unit) r = _
  rw [if_pos there, moved]

/-- **A reading that never is too deep does what its parser does**, under every limit. -/
theorem exists_of_parses {x : ReadM α} {p : Parser α} {a : α} {rest : List Token}
    (parses : Parses id x p) (calm : Calm x) (found : p r.tokens = some (a, rest))
    (clean : .endOfText ∈ r.tokens) :
    ∃ after, x r = .ok a after ∧ after.tokens = rest ∧ r.Reaches after := by
  have means := parses r
  have leads := calm r
  unfold Means at means
  unfold Leads at leads
  rw [found] at means
  cases made : x r with
  | ok b after =>
    rw [made] at means leads
    cases means.1
    exact ⟨after, rfl, rfl, leads.1⟩
  | error e after =>
    rw [made] at means leads
    obtain nothing | tooDeep := means clean
    · cases nothing
    · exact (leads tooDeep).elim

/-- Where its parser fails a reading fails. -/
theorem exists_error_of_parses {x : ReadM α} {p : Parser α} (parses : Parses id x p)
    (fails : p r.tokens = none) : ∃ e after, x r = .error e after := by
  have means := parses r
  unfold Means at means
  rw [fails] at means
  cases made : x r with
  | ok b after =>
    rw [made] at means
    cases means.1
  | error e after => exact ⟨e, after, rfl⟩

theorem exists_name_of_tokens {found : Name} (h : r.tokens = t :: ts)
    (named : Descent.name? t = some found) (clean : .endOfText ∈ ts) :
    ∃ after, name r = .ok found after ∧ after.tokens = ts ∧ r.Reaches after := by
  refine exists_of_parses parses_name calm_name ?_ (h ▸ List.mem_cons_of_mem t clean)
  rw [h]
  exact congrArg (Option.map fun name => (name, ts)) named

theorem exists_identifier_of_tokens {text : String} (h : r.tokens = .word text :: ts)
    (clean : .endOfText ∈ ts) (single : (Descent.look ts).isSymbol .dot = false) :
    ∃ after, identifier r = .ok (.ofName ⟨text, .bare⟩) after ∧ after.tokens = ts ∧
      r.Reaches after := by
  refine exists_of_parses parses_identifier calm_identifier ?_ (h ▸ List.mem_cons_of_mem _ clean)
  rw [h]
  exact Descent.moreSegments_of_no_dot _ ts single

end Known

theorem exists_tokensOf_of_map {text : String} {ts : List Token}
    (h : (tokensOf text).map (·.map Located.token) = .ok ts) :
    ∃ tokens, tokensOf text = .ok tokens ∧ tokens.map Located.token = ts := by
  cases scanned : tokensOf text with
  | error e =>
    rw [scanned] at h
    cases h
  | ok tokens =>
    rw [scanned] at h
    exact ⟨tokens, rfl, Except.ok.inj h⟩

/-- The tokens of a text with single spaces between them. -/
theorem map_tokensOf_of_spaced {text : String} {ts : List Token} (writable : AllWritable ts)
    (written : spaced ts = text) :
    (tokensOf text).map (·.map Located.token) = .ok (ts ++ [Token.endOfText]) :=
  written ▸ map_tokensOf_spaced writable

/-- The tokens of a text behind another one, which has no comments. -/
theorem exists_tokensOf_behind {opening text whole : String} {tokens : List Located}
    {front : List Token} (scanned : tokensOf text = .ok tokens)
    (opens : (tokensOf opening).map (·.map Located.token) = .ok (front ++ [Token.endOfText]))
    (noComment : ∀ c ∈ opening.toList, c ≠ '/' ∧ c ≠ '-')
    (texts : opening ++ String.singleton ' ' ++ text = whole) :
    ∃ all, tokensOf whole = .ok all ∧
      all.map Located.token = front ++ tokens.map Located.token := by
  obtain ⟨found, scannedOpening, known⟩ := exists_tokensOf_of_map opens
  obtain ⟨all, scannedAll, allTokens⟩ := exists_tokensOf_append scannedOpening scanned
    (show Gap.space.Closes ' ' opening.toList from ⟨by decide, .inr ⟨noComment, rfl⟩⟩)
  rw [texts] at scannedAll
  rw [known, List.dropLast_concat] at allTokens
  exact ⟨all, scannedAll, allTokens⟩

/-- The tokens of a text between two others; a line break ends a comment at its end. -/
theorem exists_tokensOf_between {opening text closing opening' closing' : String}
    {tokens : List Located} {front ts back : List Token} (scanned : tokensOf text = .ok tokens)
    (known : tokens.map Located.token = ts ++ [Token.endOfText])
    (opens : (tokensOf opening).map (·.map Located.token) = .ok (front ++ [Token.endOfText]))
    (noComment : ∀ c ∈ opening.toList, c ≠ '/' ∧ c ≠ '-')
    (closes : (tokensOf closing).map (·.map Located.token) = .ok back)
    (space : opening ++ String.singleton ' ' = opening')
    (newline : String.singleton '\n' ++ closing = closing') :
    ∃ all, tokensOf (opening' ++ text ++ closing') = .ok all ∧
      all.map Located.token = front ++ (ts ++ back) := by
  obtain ⟨found, scannedClosing, closed⟩ := exists_tokensOf_of_map closes
  obtain ⟨behind, scannedBehind, tokensBehind⟩ := exists_tokensOf_append scanned scannedClosing
    (show Gap.space.Closes '\n' text.toList from ⟨by decide, .inl rfl⟩)
  have texts : opening ++ String.singleton ' ' ++ (text ++ String.singleton '\n' ++ closing) =
      opening' ++ text ++ closing' := by
    rw [← space, ← newline]
    simp only [String.append_assoc]
  obtain ⟨all, scannedAll, allTokens⟩ :=
    exists_tokensOf_behind scannedBehind opens noComment texts
  rw [tokensBehind, closed, known, List.dropLast_concat] at allTokens
  exact ⟨all, scannedAll, allTokens⟩

/-- The tokens of a text in front of closing parentheses. -/
theorem exists_tokensOf_closed {text : String} {tokens : List Located} {ts : List Token}
    (scanned : tokensOf text = .ok tokens)
    (known : tokens.map Located.token = ts ++ [Token.endOfText]) (n : ℕ) :
    ∃ all, tokensOf (text ++ "\n" ++ String.ofList (List.replicate n ')')) = .ok all ∧
      all.map Located.token =
        ts ++ (List.replicate n (Token.symbol .closeParen) ++ [Token.endOfText]) := by
  have spelled : ∀ rest, symbolAt? (')' :: rest) = some .closeParen := fun _ => rfl
  obtain ⟨nothing, scannedNothing, ends⟩ : ∃ found, tokensOf "" = .ok found ∧
      found.map Located.token = [.endOfText] :=
    exists_tokensOf_of_map (map_tokensOf_of_spaced .nil rfl)
  obtain ⟨closing, scannedClosing, closes⟩ :=
    exists_tokensOf_replicate spelled rfl (by decide) (by decide) scannedNothing n
  obtain ⟨all, scannedAll, allTokens⟩ := exists_tokensOf_append scanned scannedClosing
    (show Gap.space.Closes '\n' text.toList from ⟨by decide, .inl rfl⟩)
  have texts : text ++ String.singleton '\n' ++ (String.ofList (List.replicate n ')') ++ "") =
      text ++ "\n" ++ String.ofList (List.replicate n ')') := by
    rw [String.append_empty]
    rfl
  rw [texts] at scannedAll
  refine ⟨all, scannedAll, ?_⟩
  rw [allTokens, closes, ends, known, List.dropLast_concat]

/-! ### A single operand -/

/-- The token goes on behind an operand: with an access, or as an operator. -/
def Token.continues (t : Token) : Bool :=
  t.isSymbol .dot || t.isKeyword .IS || t.isKeyword .NOT || (Operator.following? t).isSome

theorem Token.continues_of_stops {t : Token} (stops : t.stops = true) : t.continues = false := by
  unfold continues
  rw [isSymbol_of_stops stops (by decide), isKeyword_of_stops stops (by decide) (by decide),
    isKeyword_of_stops stops (by decide) (by decide), following?_of_stops stops]
  rfl

section Operand

variable {r : Reader}

/-- An operand behind which nothing goes on is complete, and it is the whole expression. -/
theorem Engine.run_reach {node : Node} (fits : r.depth + node.height ≤ r.limit)
    (ends : r.token.continues = false) : (start.reach node).run r = .ok node r := by
  simp only [Token.continues, Bool.or_eq_false_iff, Option.isSome_eq_false_iff,
    Option.isNone_iff_eq_none] at ends
  obtain ⟨⟨⟨noDot, noIs⟩, noNot⟩, nothing⟩ := ends
  have room : checkHeight node.height r = .ok () r := checkHeight_of_le fits
  have access : (start.reach node).step r = .ok (.more (start.push node)) r := by
    have pushed : (start.reach node).accessStep node r = .ok (start.push node) r := by
      unfold accessStep
      rw [atSymbol_of_ne noDot]
      exact (bind_of_ok room).trans rfl
    exact (bind_of_ok pushed).trans rfl
  have operator : (start.push node).step r = .ok (.done node) r := by
    change operatorStep _ r = _
    unfold operatorStep
    rw [bind_get, noIs, noNot, nothing]
    change (start.push node).closeLevel r = _
    refine (bind_of_ok room).trans ?_
    change EStateM.Result.ok (Outcome.done ⟨node.expr, max 0 node.height⟩) r = _
    rw [Nat.zero_max]
  rw [run_apply, access]
  simp only
  rw [run_apply, operator]

/-- What a single step makes of the operand is the whole expression if nothing goes on behind
it. -/
theorem Engine.run_of_operand {node : Node} {after : Reader}
    (atom : start.operandStep r = .ok (start.reach node) after) (reached : r.Reaches after)
    (fits : r.depth + node.height ≤ r.limit) (ends : after.token.continues = false) :
    start.run r = .ok node after := by
  have operand : start.step r = .ok (.more (start.reach node)) after :=
    (bind_of_ok atom).trans rfl
  rw [run_apply, operand]
  rw [← reached.depth, ← reached.limit] at fits
  exact run_reach fits ends

/-- A number behind which nothing goes on is the whole expression. -/
theorem Engine.exists_run_of_number {d : Decimal} {ts : List Token}
    (tokens : r.tokens = .number d :: ts) (clean : .endOfText ∈ ts)
    (ends : (Descent.look ts).continues = false) (fits : r.depth ≤ r.limit) :
    ∃ after, start.run r = .ok (.leaf (.number d)) after ∧ after.tokens = ts ∧
      r.Reaches after := by
  obtain ⟨after, moved, left, reached⟩ := exists_advance_of_tokens tokens nofun clean
  have stands : r.token = .number d := token_of_tokens tokens
  have atom : start.operandStep r = .ok (start.reach (.leaf (.number d))) after := by
    unfold operandStep
    rw [bind_get, stands]
    change start.atom r = _
    unfold Engine.atom
    rw [bind_get, bind_of_ok moved, stands]
    rfl
  rw [← left, after.look_tokens] at ends
  exact ⟨after, run_of_operand atom reached fits ends, left, reached⟩

end Operand

/-- A run that comes to the end of the text reads the text as an expression. -/
theorem read_of_run {text : String} {limit : ℕ} {r after : Reader} {node : Node}
    (start : Reader.ofText text limit = .ok r) (ran : Engine.start.run r = .ok node after)
    (left : after.tokens = [.endOfText]) :
    read .expression text limit = .ok (.expression node.expr) := by
  have found : ReadM.expression r = .ok node.expr after := (bind_of_ok ran).trans rfl
  have whole : wholeExpression r = .ok node.expr after := wholeExpression_of_tokens found left
  exact read_of_ok start ((bind_of_ok whole).trans rfl)

/-! ### Expressions -/

/-- **The tokens are read as the expression wherever they stand** so deep and under this limit, in
front of what never continues an expression. -/
def ReadsAs (ts : List Token) (x : Expr) (limit depth : ℕ) : Prop :=
  ∀ (r : Reader) (rest : List Token), r.tokens = ts ++ rest →
    (Descent.look rest).stops = true → .endOfText ∈ rest → r.limit = limit → r.depth = depth →
    ∃ node after, Engine.start.run r = .ok node after ∧ node.expr = x ∧ after.tokens = rest

section ReadsAs

variable {text : String} {limit : ℕ} {x : Expr}

/-- The tokens of a text that is an expression are read as this expression. -/
theorem readsAs_of_tokens {tokens : List Located} {ts : List Token}
    (h : read .expression text limit = .ok (.expression x)) (scanned : tokensOf text = .ok tokens)
    (known : tokens.map Located.token = ts ++ [Token.endOfText]) (inner : .endOfText ∉ ts)
    (deeper : ℕ) : ReadsAs ts x (limit + deeper) deeper := by
  intro r rest ahead stops clean limited deep
  obtain ⟨alone, y, last, begins, found, ended, same⟩ := exists_expression_of_read h
  cases same
  obtain ⟨node, _, ran, made⟩ := bind_eq_ok found
  cases made
  have tokens : alone.tokens = ts ++ [Token.endOfText] := by
    unfold Reader.tokens
    rw [Reader.ahead_of_ofText begins, Feed.ahead_ofText scanned, known]
  let place : Surroundings := ⟨deeper, some rest, by rintro _ ⟨⟩; exact ⟨stops, clean⟩⟩
  have beside : place.Beside alone r := by
    refine ⟨⟨ts, inner, tokens, ahead⟩, ?_, ?_⟩
    · rw [limited, Reader.limit_of_ofText begins]
    · rw [deep, Reader.depth_of_ofText begins, Nat.zero_add]
  have agree := Surroundings.agree_run Engine.start beside
  rw [ran] at agree
  generalize Engine.start.run r = result at agree ⊢
  cases agree with
  | ok _ beside' =>
    obtain ⟨us, inner', left, right⟩ := beside'.ahead
    -- Nothing of the expression is left, so all that is ahead is what follows it.
    have none : us = [] := by
      cases us with
      | nil => rfl
      | cons t us =>
        have first : last.token = t := token_of_tokens left
        rw [ended] at first
        exact absurd (first ▸ List.mem_cons_self) inner'
    rw [none, List.nil_append] at right
    exact ⟨node, _, rfl, rfl, right⟩
  | lost _ bad _ => exact bad.elim

/-- **A text that is read as an expression** is a stretch of tokens that is read as it. -/
theorem exists_readsAs_of_read (h : read .expression text limit = .ok (.expression x)) :
    ∃ tokens ts, tokensOf text = .ok tokens ∧ tokens.map Located.token = ts ++ [Token.endOfText] ∧
      ∀ deeper, ReadsAs ts x (limit + deeper) deeper := by
  obtain ⟨tokens, scanned⟩ := exists_tokensOf_of_read h
  obtain ⟨ts, inner, known⟩ := (scans_of_tokensOf scanned).exists_map_eq
  exact ⟨tokens, ts, scanned, known, readsAs_of_tokens h scanned known inner⟩

theorem ReadsAs.expression {ts rest : List Token} {depth : ℕ} {r : Reader}
    (h : ReadsAs ts x limit depth) (ahead : r.tokens = ts ++ rest)
    (stops : (Descent.look rest).stops = true) (clean : .endOfText ∈ rest)
    (limited : r.limit = limit) (deep : r.depth = depth) :
    ∃ after, ReadM.expression r = .ok x after ∧ after.tokens = rest := by
  obtain ⟨node, after, ran, rfl, left⟩ := h r rest ahead stops clean limited deep
  exact ⟨after, (bind_of_ok ran).trans rfl, left⟩

end ReadsAs

end MdxReader
