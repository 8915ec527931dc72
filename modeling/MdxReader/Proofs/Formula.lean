import MdxReader.Proofs.Stretches

/-!
# The formula of a definition

A formula in `WITH` is an expression in its surroundings: `SELECT` follows it
(`read_formula`).  The older form is a text in single quotes, and that text is read one level
deeper, under a limit that is one higher (`read_quotedFormula`).

Which form it is, the first token alone decides.  So an expression that begins with a string in
single quotes is no formula, although it is an expression.
-/

namespace MdxReader

open ReadM

/-- `WITH MEMBER m AS formula SELECT FROM c` -/
def Select.ofFormula (formula : Expr) : Select where
  definitions := [.member (.ofName ⟨"m", .bare⟩) formula []]
  projection := .empty
  source := .cube ⟨"c", .bare⟩
  slicer := none
  cellProperties := []

/-- The tokens in front of the formula. -/
def formulaOpening : List Token :=
  [.ofKeyword .WITH, .ofKeyword .MEMBER, .word "m", .ofKeyword .AS]

/-- The tokens behind the formula. -/
def formulaClosing : List Token :=
  [.ofKeyword .SELECT, .ofKeyword .FROM, .word "c", .endOfText]

/-! ### The query around the formula -/

section Query

variable {r : Reader} {ts : List Token}

/-- What follows the formula in its definition: no more properties, and no more definitions. -/
def EndsDefinition (t : Token) : Prop := t.isSymbol .comma = false ∧ beginsDefinition t = false

/-- The definitions begin with the first one. -/
theorem exists_definitions_of_tokens
    (h : r.tokens = .ofKeyword .WITH :: .ofKeyword .MEMBER :: ts) (clean : .endOfText ∈ ts) :
    ∃ atMember, atMember.tokens = .ofKeyword .MEMBER :: ts ∧ r.Reaches atMember ∧
      withClause r = (do
        let found ← whileToken beginsDefinition moreDefinitions
          (fun _ _ => Spends.moreDefinitions) []
        return found.reverse : ReadM (List Definition)) atMember := by
  obtain ⟨atMember, opened, ahead, reached⟩ := exists_advance_of_tokens h nofun (by simp [clean])
  have there : r.token.isKeyword .WITH = true := by
    rw [token_of_tokens h]
    rfl
  have begins : beginsDefinition atMember.token = true := by
    rw [token_of_tokens ahead]
    rfl
  refine ⟨atMember, ahead, reached, ?_⟩
  change (if r.token.isKeyword .WITH = true then _ else _ : ReadM (List Definition)) r = _
  rw [if_pos there, bind_of_ok opened]
  unfold definitions
  rw [bind_get, if_pos begins]

/-- The first definition, up to its formula. -/
theorem exists_member_of_tokens {m : String}
    (h : r.tokens = .ofKeyword .MEMBER :: .word m :: .ofKeyword .AS :: ts)
    (clean : .endOfText ∈ ts) :
    ∃ start, start.tokens = ts ∧ r.Reaches start ∧
      moreDefinitions [] r = (do
        let x ← formula
        let properties ← itemsAfter memberProperty .memberProperty []
        return [.member (.ofName ⟨m, .bare⟩) x properties] : ReadM (List Definition)) start := by
  obtain ⟨atName, member, ahead₁, reached₁⟩ := exists_advance_of_tokens h nofun (by simp [clean])
  obtain ⟨atAs, named, ahead₂, reached₂⟩ :=
    exists_identifier_of_tokens ahead₁ (by simp [clean]) rfl
  obtain ⟨start, defined, ahead₃, reached₃⟩ := exists_expectKeyword_of_tokens ahead₂ clean
  have there : r.token.isKeyword .MEMBER = true := by
    rw [token_of_tokens h]
    rfl
  refine ⟨start, ahead₃, (reached₁.trans reached₂).trans reached₃, ?_⟩
  unfold moreDefinitions
  rw [bind_get, bind_of_ok member, bind_of_ok named, bind_of_ok defined]
  simp only [if_pos there]

/-- Without a comma there are no properties. -/
theorem memberProperties_of_no_comma (absent : r.token.isSymbol .comma = false) :
    itemsAfter memberProperty .memberProperty [] r = .ok [] r := by
  have noComma : whileToken (·.isSymbol .comma) (moreItems memberProperty)
      (fun _ _ => Spends.moreItems .memberProperty) [] r = .ok [] r := by
    rw [whileToken_apply, if_neg (Bool.eq_false_iff.mp absent)]
  exact (bind_of_ok noComma).trans rfl

/-- **Where the formula begins**, and what the definitions come to. -/
theorem exists_formula_of_tokens (h : r.tokens = formulaOpening ++ ts) (clean : .endOfText ∈ ts) :
    ∃ start, start.tokens = ts ∧ r.Reaches start ∧
      (∀ e after, formula start = .error e after → withClause r = .error e after) ∧
      ∀ x after, formula start = .ok x after → EndsDefinition after.token →
        withClause r = .ok [.member (.ofName ⟨"m", .bare⟩) x []] after := by
  obtain ⟨atMember, ahead, reached, clause⟩ := exists_definitions_of_tokens h (by simp [clean])
  obtain ⟨start, rest, reached', round⟩ := exists_member_of_tokens ahead clean
  have begins : beginsDefinition atMember.token = true := by
    rw [token_of_tokens ahead]
    rfl
  refine ⟨start, rest, reached.trans reached', ?_, ?_⟩
  · intro e after failed
    rw [clause]
    apply bind_of_error
    rw [whileToken_apply, if_pos begins]
    exact bind_of_error (round.trans (bind_of_error failed))
  · intro x after found ends
    have first : moreDefinitions [] atMember =
        .ok [.member (.ofName ⟨"m", .bare⟩) x []] after := by
      rw [round, bind_of_ok found, bind_of_ok (memberProperties_of_no_comma ends.1)]
      rfl
    have all : whileToken beginsDefinition moreDefinitions (fun _ _ => Spends.moreDefinitions) []
        atMember = .ok [.member (.ofName ⟨"m", .bare⟩) x []] after := by
      rw [whileToken_apply, if_pos begins, bind_of_ok first, whileToken_apply,
        if_neg (Bool.eq_false_iff.mp ends.2)]
    rw [clause, bind_of_ok all]
    rfl

theorem exists_cubeName_of_tokens {cube : String} (h : r.tokens = .word cube :: ts)
    (clean : .endOfText ∈ ts) (single : (Descent.look ts).isSymbol .dot = false) :
    ∃ last, cubeName r = .ok ⟨cube, .bare⟩ last ∧ last.tokens = ts ∧ r.Reaches last := by
  refine exists_of_parses parses_cubeName calm_cubeName ?_ (h ▸ List.mem_cons_of_mem _ clean)
  rw [h]
  exact if_neg (Bool.eq_false_iff.mp single)

/-- A cube without sub-selects around it. -/
theorem exists_source_of_tokens {cube : String} (h : r.tokens = .word cube :: ts)
    (clean : .endOfText ∈ ts) (single : (Descent.look ts).isSymbol .dot = false) :
    ∃ last, source r = .ok (.cube ⟨cube, .bare⟩) last ∧ last.tokens = ts ∧
      last.limit = r.limit ∧ last.depth = r.depth := by
  obtain ⟨last, named, ahead, reached⟩ := exists_cubeName_of_tokens h clean single
  have plain : ¬ r.token.isSymbol .openParen = true := by
    rw [token_of_tokens h]
    nofun
  refine ⟨{ last with depth := r.depth }, ?_, ahead, reached.limit, rfl⟩
  have opened : whileToken (·.isSymbol .openParen) openSubselect
      (fun _ _ => Spends.openSubselect) [] r = .ok [] r := by
    rw [whileToken_apply, if_neg plain]
  unfold source keepingDepth
  rw [bind_get, bind_of_ok opened, bind_of_ok named]
  rfl

/-- Nothing is selected. -/
theorem selection_of_tokens (h : r.tokens = .ofKeyword .FROM :: ts) :
    selection r = .ok (.items []) r := by
  have there : r.token.isKeyword .FROM = true := by
    rw [token_of_tokens h]
    rfl
  change (if r.token.isKeyword .FROM = true then _ else _ : ReadM Selection) r = _
  rw [if_pos there]
  rfl

theorem slicer_of_no_where (absent : r.token.isKeyword .WHERE = false) : slicer r = .ok none r :=
  (atKeyword_of_ne absent).trans rfl

/-- **The parts of a query**, one behind the other, without properties of cells. -/
theorem select_of_parts {definitions : List Definition} {selected : Selection}
    {projection : Projection} {found : Source} {condition : Option Expr}
    {atSelect atItems atFrom atSource behind last : Reader}
    (defined : withClause r = .ok definitions atSelect)
    (selects : expectKeyword .SELECT atSelect = .ok () atItems)
    (items : selection atItems = .ok selected atFrom)
    (comes : expectKeyword .FROM atFrom = .ok () atSource)
    (judged : selected.projection = .ok projection) (sourced : source atSource = .ok found behind)
    (sliced : slicer behind = .ok condition last)
    (absent : last.token.isKeyword .CELL = false ∧ last.token.isKeyword .PROPERTIES = false) :
    select r = .ok ⟨definitions, projection, found, condition, []⟩ last := by
  have noProperties : propertyList .CELL last = .ok [] last :=
    (atKeyword_of_ne absent.1).trans ((atKeyword_of_ne absent.2).trans rfl)
  have queried : cubeQuery definitions selected atSource =
      .ok (.select ⟨definitions, projection, found, condition, []⟩) last := by
    unfold cubeQuery
    rw [judged]
    change (source >>= _) atSource = _
    rw [bind_of_ok sourced, bind_of_ok sliced, bind_of_ok noProperties]
    rfl
  have query : ReadM.query false r =
      .ok (.select ⟨definitions, projection, found, condition, []⟩) last := by
    unfold ReadM.query
    rw [bind_of_ok defined, bind_of_ok selects, bind_of_ok items, bind_of_ok comes]
    exact queried
  exact (bind_of_ok query).trans rfl

/-- The end of the text ends a statement. -/
theorem endStatement_of_token (ended : r.token = .endOfText) : endStatement r = .ok () r := by
  have noSemicolon : r.token.isSymbol .semicolon = false := by
    rw [ended]
    rfl
  exact (atSymbol_of_ne noSemicolon).trans (expectEnd_of_token ended)

/-- The parts of a query and the end of the text behind them. -/
theorem wholeSelect_of_parts {definitions : List Definition} {selected : Selection}
    {projection : Projection} {found : Source} {condition : Option Expr}
    {atSelect atItems atFrom atSource behind last : Reader}
    (defined : withClause r = .ok definitions atSelect)
    (selects : expectKeyword .SELECT atSelect = .ok () atItems)
    (items : selection atItems = .ok selected atFrom)
    (comes : expectKeyword .FROM atFrom = .ok () atSource)
    (judged : selected.projection = .ok projection) (sourced : source atSource = .ok found behind)
    (sliced : slicer behind = .ok condition last) (ended : last.tokens = [.endOfText]) :
    wholeSelect r = .ok ⟨definitions, projection, found, condition, []⟩ last := by
  have absent : last.token.isKeyword .CELL = false ∧ last.token.isKeyword .PROPERTIES = false := by
    rw [token_of_tokens ended]
    exact ⟨rfl, rfl⟩
  have select := select_of_parts defined selects items comes judged sourced sliced absent
  unfold wholeSelect
  rw [bind_of_ok select, bind_of_ok (endStatement_of_token (token_of_tokens ended))]
  rfl

/-- What the query comes to where its definitions are followed by all that it needs. -/
theorem exists_wholeSelect_of_tokens {definitions : List Definition} {after : Reader}
    (defined : withClause r = .ok definitions after) (h : after.tokens = formulaClosing) :
    ∃ last, wholeSelect r = .ok ⟨definitions, .empty, .cube ⟨"c", .bare⟩, none, []⟩ last := by
  obtain ⟨atFrom, selects, ahead₁, -⟩ := exists_expectKeyword_of_tokens h (by simp)
  obtain ⟨atCube, comes, ahead₂, -⟩ := exists_expectKeyword_of_tokens ahead₁ (by simp)
  obtain ⟨last, sourced, ahead₃, -⟩ := exists_source_of_tokens ahead₂ (by simp) rfl
  have noSlicer : slicer last = .ok none last :=
    slicer_of_no_where (by rw [token_of_tokens ahead₃]; rfl)
  exact ⟨last, wholeSelect_of_parts defined selects (selection_of_tokens ahead₁) comes rfl sourced
    noSlicer ahead₃⟩

/-- An error of the definitions is one of the query. -/
theorem wholeSelect_of_error {e : ReadError} {after : Reader}
    (failed : withClause r = .error e after) : wholeSelect r = .error e after :=
  have query : ReadM.query false r = .error e after := bind_of_error failed
  bind_of_error (bind_of_error query)

/-- The query needs its `SELECT`. -/
theorem exists_error_of_definitions {definitions : List Definition} {after : Reader}
    (defined : withClause r = .ok definitions after)
    (other : after.token.isKeyword .SELECT = false) :
    ∃ e, wholeSelect r = .error e after := by
  have missing : expectKeyword .SELECT after =
      .error (after.unexpected (.keyword .SELECT)) after := (atKeyword_of_ne other).trans rfl
  have query : ReadM.query false r = .error (after.unexpected (.keyword .SELECT)) after :=
    (bind_of_ok defined).trans (bind_of_error missing)
  exact ⟨_, bind_of_error (bind_of_error query)⟩

end Query

/-! ### Whole texts -/

/-- **A query around a formula**: where the formula begins, and what the query comes to. -/
theorem exists_formula_of_text {text : String} (limit : Nat) {tokens : List Located}
    {ts : List Token} (scanned : tokensOf text = .ok tokens)
    (known : tokens.map Located.token = formulaOpening ++ ts) (clean : .endOfText ∈ ts) :
    ∃ start : Reader, start.tokens = ts ∧ start.limit = limit ∧ start.depth = 0 ∧
      (∀ e after, formula start = .error e after → read .select text limit = .error e) ∧
      (∀ x after, formula start = .ok x after → after.tokens = formulaClosing →
        read .select text limit = .ok (.select (.ofFormula x))) ∧
      ∀ x after, formula start = .ok x after → EndsDefinition after.token →
        after.token.isKeyword .SELECT = false → ∃ e, read .select text limit = .error e := by
  obtain ⟨r, begins, ahead, -⟩ := Reader.exists_ofText limit scanned
  have tokens : r.tokens = formulaOpening ++ ts := (congrArg _ ahead).trans known
  obtain ⟨start, rest, reached, fails, defines⟩ := exists_formula_of_tokens tokens clean
  refine ⟨start, rest, ?_, ?_, ?_, ?_, ?_⟩
  · rw [reached.limit, Reader.limit_of_ofText begins]
  · rw [reached.depth, Reader.depth_of_ofText begins]
  · intro e after failed
    exact read_of_error begins (bind_of_error (wholeSelect_of_error (fails e after failed)))
  · intro x after found closing
    have ends : EndsDefinition after.token := by
      rw [token_of_tokens closing]
      exact ⟨rfl, rfl⟩
    obtain ⟨last, selected⟩ := exists_wholeSelect_of_tokens (defines x after found ends) closing
    exact read_of_ok begins ((bind_of_ok selected).trans rfl)
  · intro x after found ends other
    obtain ⟨e, failed⟩ := exists_error_of_definitions (defines x after found ends) other
    exact ⟨e, read_of_error begins (bind_of_error failed)⟩

/-! ### An expression as a formula -/

theorem formula_of_ne {r : Reader} (other : ∀ s, r.token ≠ .string s .single) :
    formula r = expression r := by
  unfold formula
  rw [bind_get]
  cases token : r.token with
  | string s quote =>
    cases quote with
    | double => rfl
    | single => exact absurd token (other s)
  | _ => rfl

theorem formula_of_string {r : Reader} {s : String} (token : r.token = .string s .single) :
    formula r = (do
      let x ← inside s wholeExpression
      advance
      return x : ReadM Expr) r := by
  unfold formula
  rw [bind_get, token]

/-! ### The texts around the formula -/

theorem writable_formulaOpening : AllWritable formulaOpening :=
  .cons (writable_ofKeyword _) (.cons (writable_ofKeyword _)
    (.cons ⟨⟨by decide, by decide⟩, nofun⟩ (.single (writable_ofKeyword _))))

theorem writable_source : AllWritable [.ofKeyword .FROM, .word "c"] :=
  .cons (writable_ofKeyword _) (.single ⟨⟨by decide, by decide⟩, nofun⟩)

/-- The tokens behind the formula, without the end of the text. -/
theorem writable_query : AllWritable [.ofKeyword .SELECT, .ofKeyword .FROM, .word "c"] :=
  .cons (writable_ofKeyword _) writable_source

theorem tokensOf_formulaClosing :
    (tokensOf "SELECT FROM c").map (·.map Located.token) = .ok formulaClosing :=
  map_tokensOf_of_spaced writable_query (by decide)

/-- The tokens of a query around a text. -/
theorem exists_tokensOf_formula {text : String} {tokens : List Located} {ts : List Token}
    (scanned : tokensOf text = .ok tokens)
    (known : tokens.map Located.token = ts ++ [.endOfText]) :
    ∃ all, tokensOf ("WITH MEMBER m AS " ++ text ++ "\nSELECT FROM c") = .ok all ∧
      all.map Located.token = formulaOpening ++ (ts ++ formulaClosing) := by
  have opens : (tokensOf "WITH MEMBER m AS").map (·.map Located.token) =
      .ok (formulaOpening ++ [Token.endOfText]) :=
    map_tokensOf_of_spaced writable_formulaOpening (by decide)
  exact exists_tokensOf_between scanned known opens (by simp) tokensOf_formulaClosing (by decide)
    (by decide)

/-- An operator or an access follows a string, or else it is the whole expression. -/
theorem expr?_string (s : String) (quote : Quote) (ts : List Token)
    (dot : (Descent.look ts).isSymbol .dot = false) (nothing : Descent.upcoming false ts = .nothing) :
    Descent.expr? false 0 (.string s quote :: ts) = some (.string s, ts) := by
  rw [Descent.expr?_eq, Descent.operand?_of_primary ts rfl, Descent.primary?_string]
  simp only [Option.bind_some]
  rw [Descent.accesses?_of_no_dot _ ts dot]
  simp only [Option.bind_some]
  exact Descent.climb?_of_nothing _ nothing

/-- What follows a string at the beginning of an expression ends no definition. -/
theorem ends_of_read {text : String} {limit : Nat} {tree : Tree} {tokens : List Located}
    {s : String} {quote : Quote} {t : Token} {ts : List Token}
    (h : read .expression text limit = .ok tree) (scanned : tokensOf text = .ok tokens)
    (known : tokens.map Located.token = .string s quote :: t :: ts) (inner : t ≠ .endOfText) :
    EndsDefinition t ∧ t.isKeyword .SELECT = false := by
  have parsed := run'_parser_of_read h scanned
  rw [known] at parsed
  -- Where nothing continues the expression, it is over, but the text is not.
  have goesOn (dot : t.isSymbol .dot = false)
      (nothing : Descent.upcoming false (t :: ts) = .nothing) : False := by
    have string := expr?_string s quote (t :: ts) dot nothing
    have unfinished : Parser.ended (t :: ts) = none := by
      unfold Parser.ended
      exact if_neg inner
    have fails : Grammar.wholeExpression (.string s quote :: t :: ts) = none := by
      unfold Grammar.wholeExpression
      rw [Parser.bind_of_some (p := Grammar.expression) string, Parser.bind_of_none unfinished]
    have none : Goal.expression.parser.run' (.string s quote :: t :: ts) = Option.none := by
      unfold Goal.parser
      rw [Parser.run'_map]
      exact congrArg (fun found => (found.map Prod.fst).map Tree.expression) fails
    rw [none] at parsed
    cases parsed
  cases t with
  | symbol symbol =>
    refine ⟨⟨?_, rfl⟩, rfl⟩
    refine Bool.eq_false_iff.mpr fun comma => ?_
    have found : symbol = .comma := beq_iff_eq.mp comma
    subst found
    exact goesOn rfl rfl
  | keyword k spelling =>
    refine ⟨⟨rfl, Bool.eq_false_iff.mpr fun begins => ?_⟩, Bool.eq_false_iff.mpr fun selects => ?_⟩
    · have found : k = .MEMBER ∨ k = .SET := by
        simpa [beginsDefinition, Token.isKeyword] using begins
      rcases found with rfl | rfl <;> exact goesOn rfl rfl
    · have found : k = .SELECT := beq_iff_eq.mp selects
      subst found
      exact goesOn rfl rfl
  | _ => exact ⟨⟨rfl, rfl⟩, rfl⟩

/-- Reading a text inside another one leaves the reader where it is. -/
theorem exists_events_of_inside {α : Type} {text : String} {reading : ReadM α} {r after : Reader}
    {a : α} (h : inside text reading r = .ok a after) :
    ∃ events, after = { r with events := events } := by
  unfold inside at h
  split at h
  · cases h
  · split at h
    · cases h
    · split at h
      · cases h
        exact ⟨_, rfl⟩
      · cases h

/-- What a string in single quotes comes to as a formula, if to anything. -/
theorem exists_advance_of_formula {r : Reader} {s : String} {ts : List Token}
    (h : r.tokens = .string s .single :: ts) (clean : .endOfText ∈ ts) {x : Expr} {between : Reader}
    (read : inside s wholeExpression r = .ok x between) :
    ∃ after, formula r = .ok x after ∧ after.tokens = ts := by
  obtain ⟨events, rfl⟩ := exists_events_of_inside read
  obtain ⟨after, moved, ahead, -⟩ :=
    exists_advance_of_tokens (r := { r with events := events }) h nofun clean
  refine ⟨after, ?_, ahead⟩
  rw [formula_of_string (token_of_tokens h), bind_of_ok read, bind_of_ok moved]
  rfl

section Plain

variable {text : String} {limit : Nat} {x : Expr} {tokens : List Located}

theorem read_formula_of_expression (h : read .expression text limit = .ok (.expression x))
    (scanned : tokensOf text = .ok tokens)
    (plain : ∀ s, (tokens.map Located.token).head? ≠ some (.string s .single)) :
    read .select ("WITH MEMBER m AS " ++ text ++ "\nSELECT FROM c") limit =
      .ok (.select (.ofFormula x)) := by
  obtain ⟨ts, inner, known⟩ := (scans_of_tokensOf scanned).exists_map_eq
  obtain ⟨all, scannedAll, allTokens⟩ := exists_tokensOf_formula scanned known
  obtain ⟨start, ahead, limited, depth, -, reads, -⟩ :=
    exists_formula_of_text limit scannedAll allTokens (by simp [formulaClosing])
  have readsAs : ReadsAs ts x limit 0 := readsAs_of_tokens h scanned known inner 0
  obtain ⟨after, reading, right⟩ :=
    readsAs.expression ahead rfl (by simp [formulaClosing]) limited depth
  have unquoted : ∀ s, start.token ≠ .string s .single := by
    intro s quoted
    cases ts with
    | nil =>
      rw [token_of_tokens (ahead.trans (List.nil_append _))] at quoted
      cases quoted
    | cons t ts =>
      rw [token_of_tokens ahead] at quoted
      rw [known] at plain
      exact plain s (congrArg some quoted)
  exact reads x after ((formula_of_ne unquoted).trans reading) right

theorem exists_error_of_quoted {s : String} (h : read .expression text limit = .ok (.expression x))
    (scanned : tokensOf text = .ok tokens)
    (quoted : (tokens.map Located.token).head? = some (.string s .single))
    (more : tokens.map Located.token ≠ [.string s .single, .endOfText]) :
    ∃ e, read .select ("WITH MEMBER m AS " ++ text ++ "\nSELECT FROM c") limit = .error e := by
  obtain ⟨ts, inner, known⟩ := (scans_of_tokensOf scanned).exists_map_eq
  obtain ⟨all, scannedAll, allTokens⟩ := exists_tokensOf_formula scanned known
  obtain ⟨start, ahead, -, -, fails, -, stops⟩ :=
    exists_formula_of_text limit scannedAll allTokens (by simp [formulaClosing])
  rw [known] at quoted more
  obtain ⟨t, us, rfl⟩ : ∃ t us, ts = .string s .single :: t :: us := by
    cases ts with
    | nil => cases quoted
    | cons first ts =>
      cases quoted
      cases ts with
      | nil => exact absurd rfl more
      | cons t us => exact ⟨t, us, rfl⟩
  have inside : t ≠ .endOfText := by
    rintro rfl
    exact inner (by simp)
  obtain ⟨ends, other⟩ := ends_of_read h scanned known inside
  cases read : ReadM.inside s wholeExpression start with
  | error e between =>
    refine ⟨e, fails e between ?_⟩
    rw [formula_of_string (token_of_tokens ahead)]
    exact bind_of_error read
  | ok y between =>
    obtain ⟨after, found, rest⟩ :=
      exists_advance_of_formula ahead (by simp [formulaClosing]) read
    have token : after.token = t := token_of_tokens rest
    rw [← token] at ends other
    exact stops y after found ends other

/-- **An expression is a formula**, under the same limit and with the same tree, unless it begins
with a string in single quotes.  Then it is none, although more than that string follows. -/
theorem read_formula (h : read .expression text limit = .ok (.expression x))
    (scanned : tokensOf text = .ok tokens)
    (more : ∀ s, tokens.map Located.token ≠ [.string s .single, .endOfText]) :
    ((∀ s, (tokens.map Located.token).head? ≠ some (.string s .single)) →
      read .select ("WITH MEMBER m AS " ++ text ++ "\nSELECT FROM c") limit =
        .ok (.select (.ofFormula x))) ∧
    ((∃ s, (tokens.map Located.token).head? = some (.string s .single)) →
      ∃ e, read .select ("WITH MEMBER m AS " ++ text ++ "\nSELECT FROM c") limit = .error e) := by
  refine ⟨read_formula_of_expression h scanned, ?_⟩
  rintro ⟨s, quoted⟩
  exact exists_error_of_quoted h scanned quoted (more s)

end Plain

/-- A string in double quotes may begin a formula, and strings in single quotes may follow. -/
theorem read_formula_concat : ∃ x, read .expression "\"a\" || 'b'" 2 = .ok (.expression x) ∧
    read .select "WITH MEMBER m AS \"a\" || 'b'\nSELECT FROM c" 2 = .ok (.select (.ofFormula x)) := by
  obtain ⟨x, alone⟩ : ∃ x, read .expression "\"a\" || 'b'" 2 = .ok (.expression x) :=
    exists_expression_of_isOk (by decide +kernel)
  obtain ⟨tokens, scanned, known⟩ : ∃ tokens, tokensOf "\"a\" || 'b'" = .ok tokens ∧
      tokens.map Located.token =
        [.string "a" .double, .symbol .concat, .string "b" .single, .endOfText] :=
    exists_tokensOf_of_map (by decide +kernel)
  have longer : ∀ s, tokens.map Located.token ≠ [.string s .single, .endOfText] := by simp [known]
  have plain : ∀ s, (tokens.map Located.token).head? ≠ some (.string s .single) := by simp [known]
  have text : "WITH MEMBER m AS " ++ "\"a\" || 'b'" ++ "\nSELECT FROM c" =
      "WITH MEMBER m AS \"a\" || 'b'\nSELECT FROM c" := by
    decide
  exact ⟨x, alone, text ▸ (read_formula alone scanned longer).1 plain⟩

/-- Two strings in single quotes are joined by an expression that is no formula. -/
theorem exists_expression_no_formula : ∃ x tokens,
    read .expression "'a' || 'b'" 256 = .ok (.expression x) ∧
    tokensOf "'a' || 'b'" = .ok tokens ∧
    (∀ s, tokens.map Located.token ≠ [.string s .single, .endOfText]) ∧
    ∀ tree, read .select ("WITH MEMBER m AS " ++ "'a' || 'b'" ++ "\nSELECT FROM c") 256 ≠
      .ok tree := by
  obtain ⟨x, alone⟩ : ∃ x, read .expression "'a' || 'b'" 256 = .ok (.expression x) :=
    exists_expression_of_isOk (by decide +kernel)
  obtain ⟨tokens, scanned, known⟩ : ∃ tokens, tokensOf "'a' || 'b'" = .ok tokens ∧
      tokens.map Located.token =
        [.string "a" .single, .symbol .concat, .string "b" .single, .endOfText] :=
    exists_tokensOf_of_map (by decide +kernel)
  have longer (s : String) : tokens.map Located.token ≠ [.string s .single, .endOfText] := by
    simp [known]
  have quoted : (tokens.map Located.token).head? = some (.string "a" .single) := by
    rw [known]
    rfl
  obtain ⟨e, failed⟩ := exists_error_of_quoted alone scanned quoted (longer "a")
  refine ⟨x, tokens, alone, scanned, longer, fun tree accepted => ?_⟩
  rw [failed] at accepted
  cases accepted

/-! ### A quoted formula -/

/-- A quoted formula is a text of its own, one level deeper. -/
def Surroundings.quoted : Surroundings where
  deeper := 1
  behind := none
  proper := nofun

/-- A whole text is read alike one level deeper. -/
theorem Surroundings.agree_wholeExpression {r r' : Reader} (h : quoted.Beside r r') :
    quoted.Agree Never (wholeExpression r) (wholeExpression r') := by
  refine .andThen (agree_expression h) fun x after after' _ beside => ?_
  rcases beside.cases with inside | past
  · refine .andThen ?_ fun _ _ _ _ ended => .pure ended _
    change quoted.Agree Never
      ((if after.token = .endOfText then Pure.pure () else failExpecting .endOfText : ReadM Unit)
        after)
      ((if after'.token = .endOfText then Pure.pure () else failExpecting .endOfText : ReadM Unit)
        after')
    rw [inside.token]
    split
    · exact .pure beside ()
    · exact .failExpecting beside
  · exact absurd rfl past.follows

/-- A reader at the beginning of a text does not depend on the limit. -/
theorem ofText_limit (text : String) (limit limit' : Nat) :
    Reader.ofText text limit' =
      (Reader.ofText text limit).map fun r => { r with limit := limit' } := by
  unfold Reader.ofText
  split <;> rfl

section Quoted

variable {text : String} {limit : Nat} {r : Reader}

/-- The reader at the beginning of a text inside. -/
def Reader.within (r₀ r : Reader) : Reader :=
  { r₀ with limit := r.limit, depth := r.depth + 1, events := r.events }

theorem exists_inside_of_result {α : Type} (reading : ReadM α) {r₀ : Reader}
    (start : Reader.ofText text limit = .ok r₀) (room : r.depth + 1 ≤ r.limit) :
    (∀ a after, reading (r₀.within r) = .ok a after →
      ∃ last, inside text reading r = .ok a last) ∧
    ∀ e after, reading (r₀.within r) = .error e after →
      ∃ last, inside text reading r = .error e last := by
  have begins : Reader.ofText text r.limit = .ok { r₀ with limit := r.limit } := by
    rw [ofText_limit text limit, start]
    rfl
  have fits : ¬ r.limit < r.depth + 1 := Nat.not_lt.mpr room
  unfold inside
  rw [begins]
  simp only [if_neg fits]
  constructor
  · intro a after found
    unfold Reader.within at found
    rw [found]
    exact ⟨_, rfl⟩
  · intro e after found
    unfold Reader.within at found
    rw [found]
    exact ⟨_, rfl⟩

theorem inside_of_error {α : Type} {reading : ReadM α} {e : ReadError}
    (start : Reader.ofText text limit = .error e) : inside text reading r = .error e r := by
  unfold inside
  rw [ofText_limit text limit, start]
  rfl

/-- **A text is read inside another one** as it is by itself, under a limit that is one higher. -/
theorem exists_inside_of_read (text : String) (limited : r.limit = limit + 1) (depth : r.depth = 0) :
    (∀ x, read .expression text limit = .ok (.expression x) →
      ∃ last, inside text wholeExpression r = .ok x last) ∧
    ∀ e, read .expression text limit = .error e →
      ∃ last, inside text wholeExpression r = .error (e.raised 1) last := by
  cases start : Reader.ofText text limit with
  | error e =>
    have failed : read .expression text limit = .error e := by
      unfold read readWithEvents
      rw [start]
    have scan : e.raised 1 = e := by
      unfold Reader.ofText at start
      split at start <;> cases start
      rfl
    rw [failed]
    refine ⟨fun _ found => (by cases found), ?_⟩
    rintro _ ⟨⟩
    exact ⟨r, scan.symm ▸ inside_of_error start⟩
  | ok r₀ =>
    have beside : Surroundings.quoted.Beside r₀ (r₀.within r) := by
      refine ⟨⟨rfl, rfl, rfl⟩, ?_, ?_⟩
      · exact limited.trans (congrArg (· + 1) (Reader.limit_of_ofText start).symm)
      · exact congrArg (· + 1) (depth.trans (Reader.depth_of_ofText start).symm)
    have agree := Surroundings.agree_wholeExpression beside
    have room : r.depth + 1 ≤ r.limit := by omega
    obtain ⟨reads, fails⟩ := exists_inside_of_result wholeExpression start room
    generalize inner : wholeExpression (r₀.within r) = result at agree
    cases whole : wholeExpression r₀ with
    | ok x after =>
      have done : read .expression text limit = .ok (.expression x) :=
        read_of_ok start ((bind_of_ok whole).trans rfl)
      rw [whole] at agree
      rw [done]
      refine ⟨?_, fun _ found => by cases found⟩
      rintro _ ⟨⟩
      cases agree with
      | ok _ beside' => exact reads _ _ inner
      | lost follows _ _ => exact absurd rfl follows
    | error e after =>
      have failed : read .expression text limit = .error e :=
        read_of_error start (bind_of_error whole)
      rw [whole] at agree
      rw [failed]
      refine ⟨fun _ found => (by cases found), ?_⟩
      rintro _ ⟨⟩
      cases agree with
      | error same =>
        rw [same rfl] at inner
        exact fails _ _ inner
      | excused follows => exact absurd rfl follows

/-- Without a level to spare no text is read inside. -/
theorem inside_ne_ok {α : Type} {reading : ReadM α} (limited : r.limit = 0) (a : α)
    (after : Reader) : inside text reading r ≠ .ok a after := by
  intro h
  unfold inside at h
  split at h
  · cases h
  · rw [if_pos (by omega)] at h
    cases h

end Quoted

/-- The tokens of a query around a quoted formula. -/
theorem exists_tokensOf_quoted (text : String) :
    ∃ all, tokensOf ("WITH MEMBER m AS '" ++ String.ofList (doubled '\x27' text) ++
        "' SELECT FROM c") = .ok all ∧
      all.map Located.token = formulaOpening ++ .string text .single :: formulaClosing := by
  have writable : AllWritable (formulaOpening ++ .string text .single ::
      [.ofKeyword .SELECT, .ofKeyword .FROM, .word "c"]) :=
    writable_formulaOpening.append (.cons ⟨trivial, nofun⟩ writable_query)
  obtain ⟨all, scanned, known⟩ := exists_tokensOf_spaced writable
  have texts : spaced (formulaOpening ++ .string text .single ::
      [.ofKeyword .SELECT, .ofKeyword .FROM, .word "c"]) =
      "WITH MEMBER m AS '" ++ String.ofList (doubled '\x27' text) ++ "' SELECT FROM c" := by
    apply String.toList_injective
    simp [formulaOpening, toList_spaced_cons, behind, Token.text, Token.ofKeyword, Keyword.spelling,
      Quote.mark]
  exact ⟨all, texts ▸ scanned, known⟩

/-- A query whose formula is a text in single quotes. -/
theorem read_quoted_of_expression (text : String) (limit : Nat) :
    let query := "WITH MEMBER m AS '" ++ String.ofList (doubled '\x27' text) ++ "' SELECT FROM c"
    (∀ x, read .expression text limit = .ok (.expression x) →
      read .select query (limit + 1) = .ok (.select (.ofFormula x))) ∧
    ∀ e, read .expression text limit = .error e →
      read .select query (limit + 1) = .error (e.raised 1) := by
  intro query
  obtain ⟨all, scanned, known⟩ := exists_tokensOf_quoted text
  have clean : .endOfText ∈ formulaClosing := by simp [formulaClosing]
  obtain ⟨start, ahead, limited, depth, fails, reads, -⟩ :=
    exists_formula_of_text (limit + 1) scanned known (List.mem_cons_of_mem _ clean)
  obtain ⟨accepted, rejected⟩ := exists_inside_of_read text limited depth
  constructor
  · intro x h
    obtain ⟨between, read⟩ := accepted x h
    obtain ⟨after, found, rest⟩ := exists_advance_of_formula ahead clean read
    exact reads x after found rest
  · intro e h
    obtain ⟨last, failed⟩ := rejected e h
    have formulaOf := formula_of_string (token_of_tokens ahead)
    exact fails _ last (formulaOf.trans (bind_of_error failed))

/-- Without a level to spare no quoted formula is read. -/
theorem read_quoted_ne_ok (text : String) (tree : Tree) :
    read .select ("WITH MEMBER m AS '" ++ String.ofList (doubled '\x27' text) ++
      "' SELECT FROM c") 0 ≠ .ok tree := by
  intro h
  obtain ⟨all, scanned, known⟩ := exists_tokensOf_quoted text
  obtain ⟨start, ahead, limited, -, fails, -, -⟩ :=
    exists_formula_of_text 0 scanned known (by simp [formulaClosing])
  cases read : inside text wholeExpression start with
  | ok x after => exact absurd read (inside_ne_ok limited x after)
  | error e after =>
    have failed := (formula_of_string (token_of_tokens ahead)).trans (bind_of_error read)
    rw [fails e after failed] at h
    cases h

/-- **A quoted formula is transparent.**  It is the expression in its quotes, and so are its errors,
except that the limit is one higher; without that level there is none. -/
theorem read_quotedFormula (text : String) (limit : Nat) :
    let query := "WITH MEMBER m AS '" ++ String.ofList (doubled '\x27' text) ++ "' SELECT FROM c"
    (∀ tree, read .select query (limit + 1) = .ok tree ↔
      ∃ x, read .expression text limit = .ok (.expression x) ∧ tree = .select (.ofFormula x)) ∧
    (∀ e, read .expression text limit = .error e → (∀ l, e ≠ .tooDeep l) →
      read .select query (limit + 1) = .error e) ∧
    (∀ l, read .expression text limit = .error (.tooDeep l) →
      read .select query (limit + 1) = .error (.tooDeep (l + 1))) ∧
    ∀ tree, read .select query 0 ≠ .ok tree := by
  intro query
  obtain ⟨accepted, rejected⟩ := read_quoted_of_expression text limit
  refine ⟨fun tree => ⟨fun h => ?_, ?_⟩, fun e h shallow => ?_, fun l h => rejected _ h,
    read_quoted_ne_ok text⟩
  · cases alone : read .expression text limit with
    | ok found =>
      obtain ⟨_, x, _, _, _, _, rfl⟩ := exists_expression_of_read alone
      rw [accepted x alone] at h
      cases h
      exact ⟨x, rfl, rfl⟩
    | error e =>
      rw [rejected e alone] at h
      cases h
  · rintro ⟨x, found, rfl⟩
    exact accepted x found
  · exact (rejected e h).trans (congrArg Except.error (ReadError.raised_of_ne_tooDeep shallow 1))

/-- A text with quotes of its own, which needs two levels, and a quote that is never closed. -/
theorem read_quotedFormula_concat :
    (∃ x, read .expression "'a' || \"b\"" 2 = .ok (.expression x) ∧
      read .select "WITH MEMBER m AS '''a'' || \"b\"' SELECT FROM c" 3 =
        .ok (.select (.ofFormula x))) ∧
    read .select "WITH MEMBER m AS '''' SELECT FROM c" 1 =
      .error (.scan (.unterminatedString .start)) := by
  have text : "WITH MEMBER m AS '" ++ String.ofList (doubled '\x27' "'a' || \"b\"") ++
      "' SELECT FROM c" = "WITH MEMBER m AS '''a'' || \"b\"' SELECT FROM c" := by
    decide +kernel
  have text' : "WITH MEMBER m AS '" ++ String.ofList (doubled '\x27' "'") ++
      "' SELECT FROM c" = "WITH MEMBER m AS '''' SELECT FROM c" := by
    decide +kernel
  obtain ⟨x, alone⟩ : ∃ x, read .expression "'a' || \"b\"" 2 = .ok (.expression x) :=
    exists_expression_of_isOk (by decide +kernel)
  have fault : (Feed.ofText "'").pull.1 = .error (.unterminatedString .start) := by
    decide +kernel
  have failed : read .expression "'" 0 = .error (.scan (.unterminatedString .start)) := by
    unfold read readWithEvents Reader.ofText
    cases pulled : (Feed.ofText "'").pull with
    | mk answer feed =>
      rw [pulled] at fault
      cases fault
      rfl
  have accepted := ((read_quotedFormula "'a' || \"b\"" 2).1 (.select (.ofFormula x))).mpr
    ⟨x, alone, rfl⟩
  have rejected := (read_quotedFormula "'" 0).2.1 _ failed nofun
  exact ⟨⟨x, alone, text ▸ accepted⟩, text' ▸ rejected⟩

end MdxReader
