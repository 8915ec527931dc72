import MdxReader.Proofs.Selects

/-!
# The slots of a query

An expression means the same wherever a query has room for one (`read_slots`): behind `WHERE`, on an
axis, as the property of a member, and behind `WHERE` of a sub-select, however deep that lies.  What
follows it there is the end of the text, `ON`, `SELECT` or a closing parenthesis, and none of them
continues an expression.  Sub-selects use up a level each, which a limit that is as much higher
makes up for.
-/

namespace MdxReader

open ReadM

/-- The cube that all queries here are of. -/
def Source.plain : Source := .cube ⟨"c", .bare⟩

theorem isSystem_plain : Source.plain.isSystem = false := by decide

/-- Sub-selects without slicers around a source. -/
def Source.within (source : Source) : ℕ → Source
  | 0 => source
  | n + 1 => .subselect .empty (source.within n) none

/-- The number `1`. -/
def Decimal.one : Decimal := ⟨1, 0, by decide, by decide⟩

namespace Select

/-- `SELECT FROM c WHERE x` -/
def ofSlicer (x : Expr) : Select := ⟨[], .empty, .plain, some x, []⟩

/-- `SELECT x ON axis FROM c` -/
def onAxis (x : Expr) (axis : Axis) : Select :=
  ⟨[], .axes [⟨false, x, [], axis⟩], .plain, none, []⟩

/-- `SELECT x ON 0 FROM c` -/
def ofAxis (x : Expr) : Select := ⟨[], .axes [⟨false, x, [], .columns⟩], .plain, none, []⟩

/-- `WITH MEMBER m AS 1, p = x SELECT FROM c` -/
def ofProperty (x : Expr) : Select :=
  ⟨[.member (.ofName ⟨"m", .bare⟩) (.number .one) [⟨⟨"p", .bare⟩, x⟩]], .empty, .plain, none, []⟩

/-- `SELECT FROM (SELECT FROM c WHERE x)` with `n` more sub-selects in between. -/
def ofNested (x : Expr) (n : ℕ) : Select :=
  ⟨[], .empty, (Source.subselect .empty .plain (some x)).within n, none, []⟩

end Select

/-- The text is read as the query, by itself and as a statement. -/
def ReadsQuery (text : String) (limit : ℕ) (query : Select) : Prop :=
  read .select text limit = .ok (.select query) ∧
    read .statement text limit = .ok (.statement (.select query))

/-- What every reader at these tokens reads is the query of the text. -/
theorem readsQuery_of_tokens {text : String} {limit : ℕ} {query : Select} {all : List Located}
    (scanned : tokensOf text = .ok all)
    (reads : ∀ r : Reader, r.tokens = all.map Located.token → r.limit = limit → r.depth = 0 →
      ∃ last, wholeSelect r = .ok query last)
    (named : query.ofSystem = false) : ReadsQuery text limit query := by
  obtain ⟨r, start, ahead, -⟩ := Reader.exists_ofText limit scanned
  obtain ⟨last, found⟩ := reads r (congrArg _ ahead) (Reader.limit_of_ofText start)
    (Reader.depth_of_ofText start)
  have stated := (wholeStatement_of_wholeSelect (Reader.at_of_ofText start) found).1 named
  exact ⟨read_of_ok start ((bind_of_ok found).trans rfl),
    read_of_ok start ((bind_of_ok stated).trans rfl)⟩

/-! ### Known tokens of a query -/

section Known

variable {r : Reader} {ts rest : List Token} {x : Expr} {limit : ℕ}

theorem withClause_of_tokens (h : r.tokens = .ofKeyword .SELECT :: ts) :
    withClause r = .ok [] r := by
  refine (atKeyword_of_ne ?_).trans rfl
  rw [token_of_tokens h]
  rfl

/-- A slicer, in front of what ends it. -/
theorem exists_slicer_of_tokens (readsAs : ReadsAs ts x limit r.depth)
    (h : r.tokens = .ofKeyword .WHERE :: (ts ++ rest)) (stops : (Descent.look rest).stops = true)
    (clean : .endOfText ∈ rest) (limited : r.limit = limit) :
    ∃ after, slicer r = .ok (some x) after ∧ after.tokens = rest := by
  obtain ⟨start, moved, ahead, reached⟩ :=
    exists_advance_of_tokens h nofun (List.mem_append_right ts clean)
  obtain ⟨after, found, left⟩ := readsAs.expression ahead stops clean
    (reached.limit.trans limited) reached.depth
  have there : r.token.isKeyword .WHERE = true := by
    rw [token_of_tokens h]
    rfl
  refine ⟨after, ?_, left⟩
  change (if r.token.isKeyword .WHERE = true then _ else _ : ReadM (Option Expr)) r = _
  rw [if_pos there, bind_of_ok moved, ExprReading.reading_plain, bind_of_ok found]
  rfl

end Known

/-! ### Behind `WHERE` -/

section Slicer

variable {r : Reader} {ts : List Token} {x : Expr} {limit : ℕ}

/-- The tokens in front of a slicer. -/
def slicerOpening : List Token :=
  [.ofKeyword .SELECT, .ofKeyword .FROM, .word "c", .ofKeyword .WHERE]

theorem exists_wholeSelect_ofSlicer (readsAs : ReadsAs ts x limit 0)
    (h : r.tokens = slicerOpening ++ (ts ++ [Token.endOfText])) (limited : r.limit = limit)
    (deep : r.depth = 0) : ∃ last, wholeSelect r = .ok (.ofSlicer x) last := by
  obtain ⟨atFrom, selects, ahead₁, reached₁⟩ := exists_expectKeyword_of_tokens h (by simp)
  obtain ⟨atCube, comes, ahead₂, reached₂⟩ := exists_expectKeyword_of_tokens ahead₁ (by simp)
  obtain ⟨atWhere, sourced, ahead₃, limit', depth'⟩ :=
    exists_source_of_tokens ahead₂ (by simp) rfl
  have deep' : atWhere.depth = 0 := by rw [depth', reached₂.depth, reached₁.depth, deep]
  have readsAs' : ReadsAs ts x limit atWhere.depth := deep'.symm ▸ readsAs
  have limited' : atWhere.limit = limit := by rw [limit', reached₂.limit, reached₁.limit, limited]
  obtain ⟨last, sliced, ended⟩ :=
    exists_slicer_of_tokens readsAs' ahead₃ rfl List.mem_cons_self limited'
  exact ⟨last, wholeSelect_of_parts (withClause_of_tokens h) selects (selection_of_tokens ahead₁)
    comes rfl sourced sliced ended⟩

end Slicer

/-! ### On an axis -/

section Axis

variable {r after : Reader} {ts : List Token} {x : Expr} {limit : ℕ}

/-- No expression begins with `FROM`, `NON` or an asterisk. -/
theorem fails_expression (token : r.token = .symbol .star ∨
    ∃ spelling, r.token = .keyword .FROM spelling ∨ r.token = .keyword .NON spelling) :
    Surroundings.Fails expression r := by
  have atom : Engine.start.operandStep r = Engine.start.atom r := by
    unfold Engine.operandStep
    obtain token | ⟨spelling, token | token⟩ := token <;> rw [bind_get, token] <;> rfl
  have fails : Surroundings.Fails Engine.start.atom r := by
    unfold Engine.atom
    refine .get (.next fun _ after => ?_)
    obtain token | ⟨spelling, token | token⟩ := token <;> rw [token] <;> exact .throw _ after
  obtain ⟨e, last, failed⟩ := fails
  have step : Engine.start.step r = .error e last := bind_of_error (atom.trans failed)
  refine .bind ⟨e, last, ?_⟩
  rw [Engine.run_apply, step]

theorem starts_of_expression (h : expression r = .ok x after) :
    r.token.isKeyword .FROM = false ∧ r.token.isKeyword .NON = false ∧
      r.token.isSymbol .star = false := by
  have barred : ¬ (r.token = .symbol .star ∨
      ∃ spelling, r.token = .keyword .FROM spelling ∨ r.token = .keyword .NON spelling) := by
    intro token
    obtain ⟨e, last, failed⟩ := fails_expression token
    rw [failed] at h
    cases h
  simp only [← Bool.not_eq_true, Token.isKeyword_iff, Token.isSymbol_iff]
  exact ⟨fun ⟨s, token⟩ => barred (.inr ⟨s, .inl token⟩),
    fun ⟨s, token⟩ => barred (.inr ⟨s, .inr token⟩), fun token => barred (.inl token)⟩

/-- The tokens behind what is selected. -/
def cubeClosing : List Token := [.ofKeyword .FROM, .word "c", .endOfText]

/-- The tokens behind the expression of an axis. -/
def axisClosing : List Token :=
  [.ofKeyword .ON, .number ⟨0, 0, by decide, by decide⟩, .ofKeyword .FROM, .word "c", .endOfText]

/-- An expression in front of `ON` is an item, once an axis follows. -/
theorem exists_item_of_tokens {us : List Token} (readsAs : ReadsAs ts x limit 0)
    (h : r.tokens = ts ++ .ofKeyword .ON :: us) (clean : .endOfText ∈ us)
    (limited : r.limit = limit) (deep : r.depth = 0) : ∃ place atAxis, atAxis.tokens = us ∧
      ReadM.item r = (do return ⟨false, x, [], some (← axis), place⟩ : ReadM Item) atAxis ∧
      selection r = (do return .items (← separated ReadM.item .item) : ReadM Selection) r := by
  obtain ⟨atOn, found, ahead⟩ := readsAs.expression h rfl (by simp [clean]) limited deep
  obtain ⟨noFrom, noNon, noStar⟩ := starts_of_expression found
  obtain ⟨atAxis, moved, left, -⟩ := exists_advance_of_tokens ahead nofun clean
  have on : atOn.token = .ofKeyword .ON := token_of_tokens ahead
  have noProperties : propertyList .DIMENSION atOn = .ok [] atOn :=
    (atKeyword_of_ne (by rw [on]; rfl)).trans ((atKeyword_of_ne (by rw [on]; rfl)).trans rfl)
  have plain : nonEmpty r = .ok false r := (atKeyword_of_ne noNon).trans rfl
  refine ⟨atOn.place, atAxis, left, ?_, (atKeyword_of_ne noFrom).trans (atSymbol_of_ne noStar)⟩
  unfold ReadM.item
  rw [bind_of_ok plain, ExprReading.reading_plain, bind_of_ok found, bind_of_ok noProperties,
    bind_get, on]
  exact bind_of_ok moved

/-- An expression on an axis is all that is selected. -/
theorem exists_selection_of_tokens {us : List Token} {onto : Axis} (readsAs : ReadsAs ts x limit 0)
    (h : r.tokens = ts ++ .ofKeyword .ON :: us) (clean : .endOfText ∈ us)
    (named : Grammar.axis us = some (onto, cubeClosing)) (limited : r.limit = limit)
    (deep : r.depth = 0) :
    ∃ place after, selection r = .ok (.items [⟨false, x, [], some onto, place⟩]) after ∧
      after.tokens = cubeClosing := by
  obtain ⟨place, atAxis, ahead, item, selected⟩ :=
    exists_item_of_tokens readsAs h clean limited deep
  obtain ⟨after, found, left, -⟩ :=
    exists_of_parses parses_axis calm_axis (ahead ▸ named) (ahead ▸ clean)
  have made : ReadM.item r = .ok ⟨false, x, [], some onto, place⟩ after :=
    item.trans ((bind_of_ok found).trans rfl)
  refine ⟨place, after, ?_, left⟩
  have noComma : ¬ after.token.isSymbol .comma = true := by
    rw [token_of_tokens left]
    decide
  have loop : whileToken (·.isSymbol .comma) (moreItems ReadM.item)
      (fun _ _ => Spends.moreItems .item) [⟨false, x, [], some onto, place⟩] after =
      .ok [⟨false, x, [], some onto, place⟩] after := by
    rw [whileToken_apply, if_neg noComma]
  have items : separated ReadM.item .item r =
      .ok [⟨false, x, [], some onto, place⟩] after :=
    (bind_of_ok made).trans ((bind_of_ok loop).trans rfl)
  exact selected.trans ((bind_of_ok items).trans rfl)

theorem exists_wholeSelect_onAxis {us : List Token} {onto : Axis} (readsAs : ReadsAs ts x limit 0)
    (h : r.tokens = .ofKeyword .SELECT :: (ts ++ .ofKeyword .ON :: us)) (clean : .endOfText ∈ us)
    (named : Grammar.axis us = some (onto, cubeClosing)) (limited : r.limit = limit)
    (deep : r.depth = 0) : ∃ last, wholeSelect r = .ok (.onAxis x onto) last := by
  obtain ⟨atItems, selects, ahead₁, reached⟩ := exists_expectKeyword_of_tokens h (by simp [clean])
  obtain ⟨place, atFrom, items, ahead₂⟩ := exists_selection_of_tokens readsAs ahead₁ clean named
    (reached.limit.trans limited) (reached.depth.trans deep)
  obtain ⟨atCube, comes, ahead₃, -⟩ := exists_expectKeyword_of_tokens ahead₂ (by simp)
  obtain ⟨last, sourced, ended, -⟩ := exists_source_of_tokens ahead₃ (by simp) rfl
  have noSlicer : slicer last = .ok none last :=
    slicer_of_no_where (by rw [token_of_tokens ended]; rfl)
  exact ⟨last, wholeSelect_of_parts (withClause_of_tokens h) selects items comes rfl sourced
    noSlicer ended⟩

end Axis

/-! ### The property of a member -/

section Property

variable {r : Reader} {ts : List Token} {x : Expr} {limit : ℕ}

/-- The tokens in front of the property of a member. -/
def propertyOpening : List Token :=
  formulaOpening ++ [.number .one, .symbol .comma, .word "p", .symbol .equal]

/-- A single property of a member. -/
theorem exists_properties_of_tokens (readsAs : ReadsAs ts x limit 0)
    (h : r.tokens = .symbol .comma :: .word "p" :: .symbol .equal :: (ts ++ formulaClosing))
    (limited : r.limit = limit) (deep : r.depth = 0) :
    ∃ after, itemsAfter memberProperty .memberProperty [] r = .ok [⟨⟨"p", .bare⟩, x⟩] after ∧
      after.tokens = formulaClosing := by
  have clean : Token.endOfText ∈ ts ++ formulaClosing := by simp [formulaClosing]
  obtain ⟨atName, moved, ahead₁, reached₁⟩ := exists_advance_of_tokens h (by simp) (by simp [clean])
  obtain ⟨atEqual, named, ahead₂, reached₂⟩ := exists_name_of_tokens ahead₁ rfl (by simp [clean])
  obtain ⟨start, defined, ahead₃, reached₃⟩ := exists_expect_of_tokens ahead₂ clean
  have reached := (reached₁.trans reached₂).trans reached₃
  obtain ⟨after, found, left⟩ := readsAs.expression ahead₃ rfl (by simp [formulaClosing])
    (reached.limit.trans limited) (reached.depth.trans deep)
  have property : memberProperty atName = .ok ⟨⟨"p", .bare⟩, x⟩ after := by
    unfold memberProperty
    rw [bind_of_ok named, bind_of_ok defined, ExprReading.reading_plain, bind_of_ok found]
    rfl
  have comma : r.token.isSymbol .comma = true := by
    rw [token_of_tokens h]
    rfl
  have noComma : ¬ after.token.isSymbol .comma = true := by
    rw [token_of_tokens left]
    decide
  have first : moreItems memberProperty [] r = .ok [⟨⟨"p", .bare⟩, x⟩] after :=
    (bind_of_ok moved).trans ((bind_of_ok property).trans rfl)
  have loop : whileToken (·.isSymbol .comma) (moreItems memberProperty)
      (fun _ _ => Spends.moreItems .memberProperty) [] r = .ok [⟨⟨"p", .bare⟩, x⟩] after := by
    rw [whileToken_apply, if_pos comma, bind_of_ok first, whileToken_apply, if_neg noComma]
  exact ⟨after, (bind_of_ok loop).trans rfl, left⟩

theorem exists_wholeSelect_ofProperty (readsAs : ReadsAs ts x limit 0)
    (h : r.tokens = propertyOpening ++ (ts ++ formulaClosing)) (limited : r.limit = limit)
    (deep : r.depth = 0) : ∃ last, wholeSelect r = .ok (.ofProperty x) last := by
  have clean : Token.endOfText ∈ ts ++ formulaClosing := by simp [formulaClosing]
  obtain ⟨atMember, ahead, reached, clause⟩ := exists_definitions_of_tokens h (by simp [clean])
  obtain ⟨start, rest, reached', round⟩ := exists_member_of_tokens ahead (by simp [clean])
  have limited' : start.limit = limit := by rw [reached'.limit, reached.limit, limited]
  have deep' : start.depth = 0 := by rw [reached'.depth, reached.depth, deep]
  obtain ⟨atComma, ran, ahead₁, reached₁⟩ :=
    Engine.exists_run_of_number rest (by simp [clean]) rfl (deep' ▸ Nat.zero_le _)
  obtain ⟨atSelect, properties, ahead₂⟩ := exists_properties_of_tokens readsAs ahead₁
    (reached₁.limit.trans limited') (reached₁.depth.trans deep')
  have number : formula start = .ok (.number .one) atComma := by
    rw [formula_of_ne (by rw [token_of_tokens rest]; simp)]
    exact (bind_of_ok ran).trans rfl
  have begins : beginsDefinition atMember.token = true := by
    rw [token_of_tokens ahead]
    rfl
  have ends : ¬ beginsDefinition atSelect.token = true := by
    rw [token_of_tokens ahead₂]
    decide
  have first : moreDefinitions [] atMember =
      .ok [.member (.ofName ⟨"m", .bare⟩) (.number .one) [⟨⟨"p", .bare⟩, x⟩]] atSelect := by
    rw [round, bind_of_ok number, bind_of_ok properties]
    rfl
  have loop : whileToken beginsDefinition moreDefinitions (fun _ _ => Spends.moreDefinitions) []
      atMember = .ok [.member (.ofName ⟨"m", .bare⟩) (.number .one) [⟨⟨"p", .bare⟩, x⟩]]
        atSelect := by
    rw [whileToken_apply, if_pos begins, bind_of_ok first, whileToken_apply, if_neg ends]
  have defined : withClause r =
      .ok [.member (.ofName ⟨"m", .bare⟩) (.number .one) [⟨⟨"p", .bare⟩, x⟩]] atSelect := by
    rw [clause, bind_of_ok loop]
    rfl
  exact exists_wholeSelect_of_tokens defined ahead₂

end Property

/-! ### In sub-selects -/

section Nested

variable {r : Reader} {ts : List Token} {x : Expr} {limit : ℕ}

/-- The tokens that open a sub-select. -/
def subselectOpening : List Token := [.symbol .openParen, .ofKeyword .SELECT, .ofKeyword .FROM]

/-- The tokens that open sub-selects, one inside the other. -/
def subselectOpenings : ℕ → List Token
  | 0 => []
  | n + 1 => subselectOpening ++ subselectOpenings n

/-- A source is put into sub-selects from the inside out. -/
theorem Source.within_subselect (source : Source) (n : ℕ) :
    (Source.subselect .empty source none).within n = source.within (n + 1) := by
  induction n with
  | zero => rfl
  | succ n ih => exact congrArg (Source.subselect .empty · none) ih

/-- One more sub-select is opened, one level deeper. -/
theorem exists_openSubselect_of_tokens (opened : List Projection)
    (h : r.tokens = subselectOpening ++ ts) (clean : .endOfText ∈ ts)
    (room : r.depth + 1 ≤ r.limit) :
    ∃ after, openSubselect opened r = .ok (.empty :: opened) after ∧ after.tokens = ts ∧
      after.limit = r.limit ∧ after.depth = r.depth + 1 := by
  have gone : descend r = .ok () { r with depth := r.depth + 1 } := by
    rw [descend_apply, if_neg (Nat.not_lt.mpr room)]
  have h' : ({ r with depth := r.depth + 1 } : Reader).tokens = subselectOpening ++ ts := h
  obtain ⟨atSelect, moved, ahead₁, reached₁⟩ := exists_advance_of_tokens h' nofun (by simp [clean])
  obtain ⟨atFrom, selects, ahead₂, reached₂⟩ :=
    exists_expectKeyword_of_tokens ahead₁ (by simp [clean])
  obtain ⟨after, comes, left, reached₃⟩ := exists_expectKeyword_of_tokens ahead₂ clean
  have reached := (reached₁.trans reached₂).trans reached₃
  refine ⟨after, ?_, left, reached.limit, reached.depth⟩
  unfold openSubselect
  rw [bind_of_ok gone, bind_of_ok moved, bind_of_ok selects,
    bind_of_ok (selection_of_tokens ahead₂)]
  exact (bind_of_ok (show judge (.ok Projection.empty) atFrom = .ok .empty atFrom from rfl)).trans
    ((bind_of_ok comes).trans rfl)

/-- Sub-selects are opened as long as parentheses follow. -/
theorem exists_opened_of_tokens {cube : String} (n : ℕ) (opened : List Projection)
    (h : r.tokens = subselectOpenings n ++ .word cube :: ts) (clean : .endOfText ∈ ts)
    (room : r.depth + n ≤ r.limit) :
    ∃ after, whileToken (·.isSymbol .openParen) openSubselect
        (fun _ _ => Spends.openSubselect) opened r =
          .ok (List.replicate n .empty ++ opened) after ∧
      after.tokens = .word cube :: ts ∧ after.limit = r.limit ∧ after.depth = r.depth + n := by
  induction n generalizing r opened with
  | zero =>
    have plain : ¬ r.token.isSymbol .openParen = true := by
      rw [token_of_tokens h]
      nofun
    refine ⟨r, ?_, h, rfl, rfl⟩
    rw [whileToken_apply, if_neg plain]
    rfl
  | succ n ih =>
    rw [subselectOpenings, List.append_assoc] at h
    have opens : r.token.isSymbol .openParen = true := by
      rw [token_of_tokens h]
      rfl
    obtain ⟨next, first, ahead, limit', depth'⟩ :=
      exists_openSubselect_of_tokens opened h (by simp [clean]) (by omega)
    obtain ⟨after, others, left, limit'', depth''⟩ := ih (.empty :: opened) ahead (by omega)
    refine ⟨after, ?_, left, limit''.trans limit', by omega⟩
    rw [whileToken_apply, if_pos opens, bind_of_ok first, others]
    simp [List.replicate_succ']

/-- Sub-selects without slicers are closed. -/
theorem exists_closed_of_tokens (base n : ℕ) (source : Source)
    (h : r.tokens = List.replicate n (Token.symbol .closeParen) ++ [Token.endOfText]) :
    ∃ after, closeSubselects base (List.replicate n .empty) source r =
        .ok (source.within n) after ∧ after.tokens = [.endOfText] := by
  induction n generalizing r source with
  | zero => exact ⟨r, rfl, h⟩
  | succ n ih =>
    have h' : ({ r with depth := base + (List.replicate n Projection.empty).length + 1 } :
        Reader).tokens = .symbol .closeParen ::
          (List.replicate n (.symbol .closeParen) ++ [Token.endOfText]) := h
    obtain ⟨next, closes, ahead, -⟩ := exists_expect_of_tokens h' (by simp)
    obtain ⟨after, closed, left⟩ := ih (.subselect .empty source none) ahead
    refine ⟨after, ?_, left⟩
    have noSlicer : slicer { r with depth := base + (List.replicate n Projection.empty).length + 1 }
        = .ok none { r with depth := base + (List.replicate n Projection.empty).length + 1 } :=
      slicer_of_no_where (by rw [token_of_tokens h']; rfl)
    rw [Source.within_subselect] at closed
    rw [List.replicate_succ, closeSubselects]
    exact (bind_of_ok noSlicer).trans ((bind_of_ok closes).trans closed)

/-- The innermost sub-select has the slicer, as many levels deep as there are sub-selects. -/
theorem exists_source_nested {n : ℕ} (readsAs : ReadsAs ts x limit (r.depth + (n + 1)))
    (h : r.tokens = subselectOpenings (n + 1) ++ .word "c" :: .ofKeyword .WHERE ::
      (ts ++ (List.replicate (n + 1) (Token.symbol .closeParen) ++ [Token.endOfText])))
    (limited : r.limit = limit) (room : r.depth + (n + 1) ≤ limit) :
    ∃ last, source r = .ok ((Source.subselect .empty .plain (some x)).within n) last ∧
      last.tokens = [.endOfText] := by
  obtain ⟨atCube, opened, ahead₁, limit₁, -⟩ :=
    exists_opened_of_tokens (n + 1) [] h (by simp) (limited ▸ room)
  obtain ⟨behind, named, ahead₂, reached⟩ := exists_cubeName_of_tokens ahead₁ (by simp) rfl
  -- On the way out the depth is that of the sub-select, which is where its slicer is read.
  let atWhere : Reader :=
    { behind with depth := r.depth + (List.replicate n Projection.empty).length + 1 }
  have deep : atWhere.depth = r.depth + (n + 1) := by
    change r.depth + (List.replicate n Projection.empty).length + 1 = _
    rw [List.length_replicate, Nat.add_assoc]
  have limited' : atWhere.limit = limit := by
    rw [show atWhere.limit = behind.limit from rfl, reached.limit, limit₁, limited]
  have readsAs' : ReadsAs ts x limit atWhere.depth := deep.symm ▸ readsAs
  obtain ⟨atClosing, sliced, ahead₃⟩ :=
    exists_slicer_of_tokens readsAs' ahead₂ rfl (by simp) limited'
  rw [List.replicate_succ, List.cons_append] at ahead₃
  obtain ⟨next, closes, ahead₄, -⟩ := exists_expect_of_tokens ahead₃ (by simp)
  obtain ⟨last, closed, ended⟩ :=
    exists_closed_of_tokens r.depth n (.subselect .empty .plain (some x)) ahead₄
  have inside : closeSubselects r.depth (List.replicate (n + 1) .empty ++ [])
      (.cube ⟨"c", .bare⟩) behind =
        .ok ((Source.subselect .empty .plain (some x)).within n) last := by
    rw [List.append_nil, List.replicate_succ, closeSubselects]
    exact (bind_of_ok sliced).trans ((bind_of_ok closes).trans closed)
  refine ⟨{ last with depth := r.depth }, ?_, ended⟩
  unfold source keepingDepth
  rw [bind_get, bind_of_ok opened, bind_of_ok named, inside]

theorem exists_wholeSelect_ofNested {n : ℕ} (readsAs : ReadsAs ts x limit (n + 1))
    (h : r.tokens = .ofKeyword .SELECT :: .ofKeyword .FROM :: (subselectOpenings (n + 1) ++
      .word "c" :: .ofKeyword .WHERE ::
        (ts ++ (List.replicate (n + 1) (Token.symbol .closeParen) ++ [Token.endOfText]))))
    (limited : r.limit = limit) (deep : r.depth = 0) (room : n + 1 ≤ limit) :
    ∃ last, wholeSelect r = .ok (.ofNested x n) last := by
  obtain ⟨atFrom, selects, ahead₁, reached₁⟩ := exists_expectKeyword_of_tokens h (by simp)
  obtain ⟨atSource, comes, ahead₂, reached₂⟩ := exists_expectKeyword_of_tokens ahead₁ (by simp)
  have deep' : atSource.depth + (n + 1) = n + 1 := by
    rw [reached₂.depth, reached₁.depth, deep, Nat.zero_add]
  have limited' : atSource.limit = limit := by rw [reached₂.limit, reached₁.limit, limited]
  obtain ⟨last, sourced, ended⟩ := exists_source_nested (deep'.symm ▸ readsAs) ahead₂ limited'
    (deep'.symm ▸ room)
  have noSlicer : slicer last = .ok none last :=
    slicer_of_no_where (by rw [token_of_tokens ended]; rfl)
  exact ⟨last, wholeSelect_of_parts (withClause_of_tokens h) selects (selection_of_tokens ahead₁)
    comes rfl sourced noSlicer ended⟩

end Nested

/-! ### Whole texts -/

section Texts

variable {text : String} {limit : ℕ} {x : Expr}

/-- The tokens of a text behind `WHERE`. -/
theorem exists_tokensOf_slicer {tokens : List Located} (scanned : tokensOf text = .ok tokens) :
    ∃ all, tokensOf ("SELECT FROM c WHERE " ++ text) = .ok all ∧
      all.map Located.token = slicerOpening ++ tokens.map Located.token := by
  have writable : AllWritable slicerOpening := writable_query.append (.single (writable_ofKeyword _))
  have opens : (tokensOf "SELECT FROM c WHERE").map (·.map Located.token) =
      .ok (slicerOpening ++ [Token.endOfText]) := map_tokensOf_of_spaced writable (by decide)
  have space : "SELECT FROM c WHERE" ++ String.singleton ' ' = "SELECT FROM c WHERE " := by decide
  exact exists_tokensOf_behind scanned opens (by simp) (congrArg (· ++ text) space)

theorem readsQuery_ofSlicer (h : read .expression text limit = .ok (.expression x)) :
    ReadsQuery ("SELECT FROM c WHERE " ++ text) limit (.ofSlicer x) := by
  obtain ⟨tokens, ts, scanned, known, readsAs⟩ := exists_readsAs_of_read h
  obtain ⟨all, scannedAll, allTokens⟩ := exists_tokensOf_slicer scanned
  rw [known] at allTokens
  exact readsQuery_of_tokens scannedAll
    (fun r ahead => exists_wholeSelect_ofSlicer (readsAs 0) (ahead.trans allTokens)) isSystem_plain

theorem readsQuery_ofAxis (h : read .expression text limit = .ok (.expression x)) :
    ReadsQuery ("SELECT " ++ text ++ "\nON 0 FROM c") limit (.ofAxis x) := by
  obtain ⟨tokens, ts, scanned, known, readsAs⟩ := exists_readsAs_of_read h
  have opens : (tokensOf "SELECT").map (·.map Located.token) =
      .ok ([.ofKeyword .SELECT] ++ [Token.endOfText]) :=
    map_tokensOf_of_spaced (.single (writable_ofKeyword _)) (by decide)
  have writable : AllWritable [.ofKeyword .ON, .number ⟨0, 0, by decide, by decide⟩,
      .ofKeyword .FROM, .word "c"] :=
    .cons (writable_ofKeyword _) (.cons ⟨trivial, nofun⟩ writable_source)
  have closes : (tokensOf "ON 0 FROM c").map (·.map Located.token) = .ok axisClosing :=
    map_tokensOf_of_spaced writable (by decide)
  obtain ⟨all, scannedAll, allTokens⟩ :=
    exists_tokensOf_between scanned known opens (by simp) closes rfl rfl
  -- The axis with the number 0 has a name.
  have named : Grammar.axis axisClosing.tail = some (.columns, cubeClosing) := rfl
  refine readsQuery_of_tokens scannedAll (fun r ahead => ?_) isSystem_plain
  exact exists_wholeSelect_onAxis (readsAs 0) (ahead.trans allTokens)
    (by simp) named

theorem readsQuery_ofProperty (h : read .expression text limit = .ok (.expression x)) :
    ReadsQuery ("WITH MEMBER m AS 1, p = " ++ text ++ "\nSELECT FROM c") limit
      (.ofProperty x) := by
  obtain ⟨tokens, ts, scanned, known, readsAs⟩ := exists_readsAs_of_read h
  have opens : (tokensOf "WITH MEMBER m AS 1, p =").map (·.map Located.token) =
      .ok (propertyOpening ++ [Token.endOfText]) := by decide +kernel
  obtain ⟨all, scannedAll, allTokens⟩ :=
    exists_tokensOf_between scanned known opens (by simp) tokensOf_formulaClosing rfl rfl
  exact readsQuery_of_tokens scannedAll
    (fun r ahead => exists_wholeSelect_ofProperty (readsAs 0) (ahead.trans allTokens)) rfl

/-- The tokens of a query put into sub-selects; the parentheses are closed further back. -/
theorem exists_tokensOf_nested {more : String} {further : List Located} {us : List Token}
    (scanned : tokensOf more = .ok further)
    (known : further.map Located.token = .ofKeyword .SELECT :: .ofKeyword .FROM :: us) (n : ℕ) :
    ∃ all, tokensOf (String.join (List.replicate n "SELECT FROM (") ++ more) = .ok all ∧
      all.map Located.token =
        .ofKeyword .SELECT :: .ofKeyword .FROM :: (subselectOpenings n ++ us) := by
  have spelled : ∀ rest, symbolAt? ('(' :: rest) = some .openParen := fun _ => rfl
  have opens : (tokensOf "SELECT FROM").map (·.map Located.token) =
      .ok ([.ofKeyword .SELECT, .ofKeyword .FROM] ++ [Token.endOfText]) :=
    map_tokensOf_of_spaced (.cons (writable_ofKeyword _) (.single (writable_ofKeyword _)))
      (by decide)
  induction n with
  | zero => exact ⟨further, by simpa using scanned, known⟩
  | succ n ih =>
    obtain ⟨inner, scannedInner, innerTokens⟩ := ih
    obtain ⟨behind, scannedBehind, tokensBehind⟩ :=
      exists_tokensOf_symbol spelled rfl (by decide) (by decide) scannedInner
    have texts : "SELECT FROM" ++ String.singleton ' ' ++ (String.singleton '(' ++
        (String.join (List.replicate n "SELECT FROM (") ++ more)) =
        String.join (List.replicate (n + 1) "SELECT FROM (") ++ more := by
      apply String.toList_injective
      simp [List.replicate_succ]
    obtain ⟨all, scannedAll, allTokens⟩ :=
      exists_tokensOf_behind scannedBehind opens (by simp) texts
    refine ⟨all, scannedAll, ?_⟩
    rw [allTokens, tokensBehind, innerTokens]
    rfl

theorem readsQuery_ofNested (h : read .expression text limit = .ok (.expression x)) (n : ℕ) :
    ReadsQuery (String.join (List.replicate (n + 1) "SELECT FROM (") ++ "SELECT FROM c WHERE " ++
      text ++ "\n" ++ String.ofList (List.replicate (n + 1) ')')) (limit + (n + 1))
      (.ofNested x n) := by
  obtain ⟨tokens, ts, scanned, known, readsAs⟩ := exists_readsAs_of_read h
  obtain ⟨behind, scannedBehind, tokensBehind⟩ := exists_tokensOf_closed scanned known (n + 1)
  obtain ⟨query, scannedQuery, tokensQuery⟩ := exists_tokensOf_slicer scannedBehind
  obtain ⟨all, scannedAll, allTokens⟩ :=
    exists_tokensOf_nested scannedQuery (tokensQuery.trans (congrArg _ tokensBehind)) (n + 1)
  simp only [← String.append_assoc] at scannedAll
  have named : (Select.ofNested x n).ofSystem = false := by cases n <;> rfl
  refine readsQuery_of_tokens scannedAll (fun r ahead limited deep => ?_) named
  exact exists_wholeSelect_ofNested (readsAs (n + 1)) (ahead.trans allTokens) limited deep
    (Nat.le_add_left _ _)

/-- **An expression means the same in every slot.**  What a text is read as by itself, it is under
the same limit behind `WHERE`, on an axis and as the property of a member.  Inside sub-selects it is
the slicer of the innermost one, and the only slicer, under a limit that is higher by their
number. -/
theorem read_slots (h : read .expression text limit = .ok (.expression x)) :
    ReadsQuery ("SELECT FROM c WHERE " ++ text) limit (.ofSlicer x) ∧
    ReadsQuery ("SELECT " ++ text ++ "\nON 0 FROM c") limit (.ofAxis x) ∧
    ReadsQuery ("WITH MEMBER m AS 1, p = " ++ text ++ "\nSELECT FROM c") limit (.ofProperty x) ∧
    ∀ n, ReadsQuery (String.join (List.replicate (n + 1) "SELECT FROM (") ++
        "SELECT FROM c WHERE " ++ text ++ "\n" ++ String.ofList (List.replicate (n + 1) ')'))
      (limit + (n + 1)) (.ofNested x n) :=
  ⟨readsQuery_ofSlicer h, readsQuery_ofAxis h, readsQuery_ofProperty h, readsQuery_ofNested h⟩

/-- An alias and a comment, which the line break ends. -/
theorem read_slots_comment : ∃ x, read .expression "a AS b -- c" 1 = .ok (.expression x) ∧
    ReadsQuery "SELECT FROM c WHERE a AS b -- c" 1 (.ofSlicer x) ∧
    ReadsQuery "SELECT a AS b -- c\nON 0 FROM c" 1 (.ofAxis x) ∧
    ReadsQuery "WITH MEMBER m AS 1, p = a AS b -- c\nSELECT FROM c" 1 (.ofProperty x) ∧
    ReadsQuery "SELECT FROM (SELECT FROM (SELECT FROM c WHERE a AS b -- c\n))" 3
      (.ofNested x 1) := by
  obtain ⟨x, alone⟩ : ∃ x, read .expression "a AS b -- c" 1 = .ok (.expression x) :=
    exists_expression_of_isOk (by decide +kernel)
  obtain ⟨slicer, axis, property, nested⟩ := read_slots alone
  have slicerText : "SELECT FROM c WHERE " ++ "a AS b -- c" =
      "SELECT FROM c WHERE a AS b -- c" := by
    decide +kernel
  have axisText : "SELECT " ++ "a AS b -- c" ++ "\nON 0 FROM c" =
      "SELECT a AS b -- c\nON 0 FROM c" := by
    decide +kernel
  have propertyText : "WITH MEMBER m AS 1, p = " ++ "a AS b -- c" ++ "\nSELECT FROM c" =
      "WITH MEMBER m AS 1, p = a AS b -- c\nSELECT FROM c" := by
    decide +kernel
  have nestedText : String.join (List.replicate 2 "SELECT FROM (") ++ "SELECT FROM c WHERE " ++
      "a AS b -- c" ++ "\n" ++ String.ofList (List.replicate 2 ')') =
      "SELECT FROM (SELECT FROM (SELECT FROM c WHERE a AS b -- c\n))" := by
    decide +kernel
  rw [← slicerText, ← axisText, ← propertyText, ← nestedText]
  exact ⟨x, alone, slicer, axis, property, nested 1⟩

end Texts

end MdxReader
