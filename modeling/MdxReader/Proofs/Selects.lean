import MdxReader.Proofs.Formula

/-!
# Queries as statements

A `SELECT` query can be read as such and as a statement.  Up to `FROM` both readings are the same
(`ReadM.query_eq`).  Behind it they part only at `$SYSTEM`, where the schema rowsets are: for a
query it may be the name of a cube, for a statement a table has to follow.  So whatever is read as a
query is read as a statement too, unless its cube is called like that (`read_select_statement`).
-/

namespace MdxReader

open ReadM

/-! ### The name of the schema -/

/-- The name is `$SYSTEM` in any letter case, without brackets. -/
def Name.isSystem (name : Name) : Bool :=
  name.quoting == .bare && Text.lowerCase name.text == "$system"

/-- The source is a cube that is called `$SYSTEM`. -/
def Source.isSystem : Source → Bool
  | cube name => name.isSystem
  | subselect _ _ _ => false

/-- A query that begins like one of the schema: it defines nothing, and its cube is called
`$SYSTEM`. -/
def Select.ofSystem (query : Select) : Bool :=
  query.definitions.isEmpty && query.source.isSystem

/-- No keyword is spelled like the schema. -/
theorem lowerCase_ne_of_ofWord {word : String} {k : Keyword} (h : Keyword.ofWord? word = some k) :
    Text.lowerCase word ≠ "$system" := by
  intro same
  have capitals := (isUpper_of_mem_spelling k).2
  rw [← upperCase_of_ofWord h, Text.upperCase, String.toList_ofList,
    List.forall_mem_map] at capitals
  have small := congrArg String.toList same
  rw [Text.lowerCase, String.toList_ofList] at small
  obtain ⟨c, rest, letters, dollar, -⟩ := List.map_eq_cons_iff.mp small
  -- The first character would be a letter that is written `$`.
  have letter := capitals c (letters ▸ List.mem_cons_self)
  rw [Char.isUpper_toUpper_eq_isAlpha, ← Char.isLower_toLower_eq_isAlpha, dollar] at letter
  cases letter

namespace ReadM

variable {r after : Reader}

/-- What every round yields, a loop yields that has one. -/
theorem of_whileToken {σ : Type} {good : σ → Prop} {test : Token → Bool} {round : σ → ReadM σ}
    {spends : ∀ acc r, test r.token = true → Spends (round acc) r}
    (each : ∀ acc r next after, round acc r = .ok next after → good next) {acc last : σ}
    (passes : test r.token = true) (h : whileToken test round spends acc r = .ok last after) :
    good last := by
  rw [whileToken_apply, if_pos passes] at h
  obtain ⟨first, _, found, h⟩ := bind_eq_ok h
  exact invariant_of_whileToken (fun _ _ _ _ _ _ found => each _ _ _ _ found) (each _ _ _ _ found) h

/-- A name is the one of the schema if its token is. -/
theorem isSystem_of_name {found : Name} (sound : r.Sound) (h : name r = .ok found after) :
    found.isSystem = isSystem r.token := by
  unfold name at h
  rw [bind_get] at h
  cases token : r.token with
  | word text =>
    rw [token] at h
    obtain ⟨_, _, _, made⟩ := bind_eq_ok h
    cases made
    rfl
  | keyword k spelling =>
    rw [token] at h
    obtain ⟨_, _, _, h⟩ := bind_eq_ok h
    split at h
    · cases h
    · cases h
      have keyword := sound.1
      rw [token] at keyword
      have other := lowerCase_ne_of_ofWord keyword.2
      simpa [Name.isSystem, isSystem] using other
  | bracketed text =>
    rw [token] at h
    obtain ⟨_, _, _, h⟩ := bind_eq_ok h
    split at h
    · cases h
    · cases h
      rfl
  | _ =>
    rw [token] at h
    cases h

/-! ### Sources -/

/-- Opening a sub-select leaves one open. -/
theorem ne_nil_of_openSubselect {opened next : List Projection}
    (h : openSubselect opened r = .ok next after) : next ≠ [] := by
  obtain ⟨_, _, _, h⟩ := bind_eq_ok h
  obtain ⟨_, _, _, h⟩ := bind_eq_ok h
  obtain ⟨_, _, _, h⟩ := bind_eq_ok h
  obtain ⟨_, _, _, h⟩ := bind_eq_ok h
  obtain ⟨projection, _, _, h⟩ := bind_eq_ok h
  obtain ⟨_, _, _, h⟩ := bind_eq_ok h
  cases h
  exact List.cons_ne_nil _ _

/-- Closing sub-selects puts them around the source. -/
theorem exists_subselect_of_closeSubselects {base : Nat} {opened : List Projection}
    (some : opened ≠ []) {inner found : Source}
    (h : closeSubselects base opened inner r = .ok found after) :
    ∃ projection source slicer, found = .subselect projection source slicer := by
  induction opened generalizing r inner with
  | nil => exact absurd rfl some
  | cons projection around ih =>
    obtain ⟨_, _, _, h⟩ := bind_eq_ok h
    obtain ⟨slicer, _, _, h⟩ := bind_eq_ok h
    obtain ⟨_, between, _, h⟩ := bind_eq_ok h
    cases around with
    | nil =>
      cases h
      exact ⟨_, _, _, rfl⟩
    | cons => exact ih (List.cons_ne_nil _ _) h

/-- A source is a sub-select if a bracket comes first, and else a cube. -/
theorem cases_source {found : Source} (h : source r = .ok found after) :
    (r.token.isSymbol .openParen = true ∧
        ∃ projection source slicer, found = .subselect projection source slicer) ∨
      ∃ cube last, cubeName r = .ok cube last ∧ found = .cube cube := by
  unfold source keepingDepth at h
  split at h
  · rename_i inner last read
    cases h
    obtain ⟨base, _, got, read⟩ := bind_eq_ok read
    cases got
    obtain ⟨opened, between, entered, read⟩ := bind_eq_ok read
    obtain ⟨cube, named, taken, closed⟩ := bind_eq_ok read
    by_cases bracket : r.token.isSymbol .openParen = true
    · have some : opened ≠ [] :=
        of_whileToken (fun _ _ _ _ opens => ne_nil_of_openSubselect opens) bracket entered
      exact .inl ⟨bracket, exists_subselect_of_closeSubselects some closed⟩
    · rw [whileToken_apply, if_neg bracket] at entered
      cases entered
      cases closed
      exact .inr ⟨cube, _, taken, rfl⟩
  · cases h

/-- A source is the cube of the schema if its token is the name of it. -/
theorem isSystem_of_source {found : Source} (sound : r.Sound) (h : source r = .ok found after) :
    found.isSystem = isSystem r.token := by
  rcases cases_source h with ⟨bracket, _, _, _, rfl⟩ | ⟨cube, last, named, rfl⟩
  · rw [Token.isSymbol_iff.mp bracket]
    rfl
  · obtain ⟨_, _, named, h⟩ := bind_eq_ok named
    rw [bind_get] at h
    split at h
    · cases h
    · cases h
      exact isSystem_of_name sound named

/-! ### Queries -/

/-- What a query has in front of its source: definitions, and what it selects. -/
def opening : ReadM (List Definition × Selection) := do
  let definitions ← withClause
  expectKeyword .SELECT
  let selected ← selection
  expectKeyword .FROM
  return (definitions, selected)

/-- A query from behind `FROM` on. -/
def ending (rowsets : Bool) (front : List Definition × Selection) : ReadM Query := do
  if rowsets && front.1.isEmpty then
    match ← systemTable with
    | some table => rowsetQuery front.2 table
    | none => cubeQuery front.1 front.2
  else cubeQuery front.1 front.2

theorem query_eq (rowsets : Bool) : query rowsets = opening >>= ending rowsets := by
  simp only [query, opening, bind_assoc, pure_bind]
  rfl

/-- A judgement changes nothing. -/
theorem eq_of_judge {α : Type} {x : Except ReadError α} {a : α} (h : judge x r = .ok a after) :
    after = r := by
  cases x with
  | error e => cases h
  | ok b =>
    cases h
    rfl

theorem good_opening {d l : Nat} (here : r.At d l) :
    Leads opening (fun front _ => front.2.Good d l) True r := by
  refine (good_withClause here).bind fun definitions _ moved _ => ?_
  have here := here.after moved
  refine Leads.expectKeyword.bind fun _ _ moved _ => ?_
  refine (good_selection (here.after moved)).bind fun selected _ _ good => ?_
  exact Leads.expectKeyword.bind fun _ _ _ _ => Leads.pure good

/-- A query of a cube names the schema where its source does. -/
theorem exists_of_cubeQuery {definitions : List Definition} {selected : Selection} {found : Query}
    (sound : r.Sound) (h : cubeQuery definitions selected r = .ok found after) :
    ∃ query, found = .select query ∧
      query.ofSystem = (definitions.isEmpty && isSystem r.token) := by
  obtain ⟨projection, _, judged, h⟩ := bind_eq_ok h
  rw [eq_of_judge judged] at h
  obtain ⟨source, _, sourced, h⟩ := bind_eq_ok h
  obtain ⟨slicer, _, _, h⟩ := bind_eq_ok h
  obtain ⟨properties, _, _, h⟩ := bind_eq_ok h
  cases h
  refine ⟨_, rfl, ?_⟩
  rw [Select.ofSystem, isSystem_of_source sound sourced]

/-- Away from the schema both readings go on alike. -/
theorem ending_of_other {front : List Definition × Selection}
    (other : (front.1.isEmpty && isSystem r.token) = false) :
    ending true front r = ending false front r := by
  unfold ending
  cases bare : front.1.isEmpty with
  | false => rfl
  | true =>
    rw [bare, Bool.true_and] at other
    have absent : systemTable r = .ok none r := by
      unfold systemTable
      rw [bind_get, other]
      rfl
    exact bind_of_ok absent

/-- The name of the schema has to be followed by a table, but no dot follows the name of a cube. -/
theorem exists_error_of_ending {front : List Definition × Selection} {found : Query}
    (system : (front.1.isEmpty && isSystem r.token) = true)
    (h : ending false front r = .ok found after) : ∃ t place last,
      ending true front r = .error (.unexpected (.symbol .dot) (.token t) place) last := by
  obtain ⟨bare, system⟩ := Bool.and_eq_true_iff.mp system
  obtain ⟨projection, _, judged, h⟩ := bind_eq_ok h
  rw [eq_of_judge judged] at h
  obtain ⟨source, _, sourced, -⟩ := bind_eq_ok h
  obtain ⟨spelling, token⟩ : ∃ spelling, r.token = .word spelling := by
    cases token : r.token with
    | word spelling => exact ⟨spelling, rfl⟩
    | _ =>
      rw [token] at system
      cases system
  rcases cases_source sourced with ⟨bracket, -⟩ | ⟨cube, last, named, -⟩
  · rw [token] at bracket
    cases bracket
  -- The name is a single word, and what follows it was found to be no dot.
  obtain ⟨_, atNext, named, h⟩ := bind_eq_ok named
  unfold name at named
  rw [bind_get, token] at named
  obtain ⟨_, _, moved, made⟩ := bind_eq_ok named
  cases made
  rw [bind_get] at h
  split at h
  · cases h
  · rename_i single
    have missing : expect .dot atNext =
        .error (.unexpected (.symbol .dot) (.token atNext.token) atNext.place) atNext :=
      (atSymbol_of_ne (Bool.eq_false_iff.mpr single)).trans rfl
    have failed : systemTable r =
        .error (.unexpected (.symbol .dot) (.token atNext.token) atNext.place) atNext := by
      unfold systemTable
      rw [bind_get, if_pos system, bind_of_ok moved, bind_of_error missing]
    refine ⟨atNext.token, atNext.place, atNext, ?_⟩
    unfold ending
    rw [bare]
    exact bind_of_error failed

/-- **Whatever is read as a query of a cube is read as a statement too**, or else its cube is
called like the schema. -/
theorem query_true_of_query {d l : Nat} {found : Query} (here : r.At d l)
    (h : query false r = .ok found after) : ∃ select, found = .select select ∧
      (select.ofSystem = false → query true r = .ok found after) ∧
      (select.ofSystem = true → ∃ t place last,
        query true r = .error (.unexpected (.symbol .dot) (.token t) place) last) := by
  rw [query_eq] at h ⊢
  obtain ⟨front, behind, opened, h⟩ := bind_eq_ok h
  rw [bind_of_ok opened]
  have sound := ((good_opening here).ok opened).1.sound here.sound
  obtain ⟨select, rfl, names⟩ := exists_of_cubeQuery sound h
  refine ⟨select, rfl, fun other => ?_, fun system => ?_⟩
  · rw [ending_of_other (names ▸ other)]
    exact h
  · exact exists_error_of_ending (names ▸ system) h

/-- A statement that is a query of a cube was read as one. -/
theorem query_false_of_query {select : Select} (h : query true r = .ok (.select select) after) :
    query false r = .ok (.select select) after := by
  rw [query_eq] at h ⊢
  obtain ⟨front, behind, opened, h⟩ := bind_eq_ok h
  rw [bind_of_ok opened]
  cases bare : front.1.isEmpty && isSystem behind.token with
  | false => rwa [ending_of_other bare] at h
  | true =>
    obtain ⟨bare, system⟩ := Bool.and_eq_true_iff.mp bare
    unfold ending at h
    rw [bare] at h
    obtain ⟨table, _, found, h⟩ := bind_eq_ok h
    unfold systemTable at found
    rw [bind_get, if_pos system] at found
    obtain ⟨_, _, _, found⟩ := bind_eq_ok found
    obtain ⟨_, _, _, found⟩ := bind_eq_ok found
    obtain ⟨_, _, _, made⟩ := bind_eq_ok found
    cases made
    obtain ⟨_, _, _, h⟩ := bind_eq_ok h
    obtain ⟨_, _, _, h⟩ := bind_eq_ok h
    cases h

/-! ### Statements -/

/-- A query begins with one of two words. -/
theorem isKeyword_of_query {rowsets : Bool} {found : Query}
    (h : query rowsets r = .ok found after) :
    r.token.isKeyword .WITH = true ∨ r.token.isKeyword .SELECT = true := by
  by_cases defines : r.token.isKeyword .WITH = true
  · exact .inl defines
  · obtain ⟨definitions, _, defined, h⟩ := bind_eq_ok h
    have none : withClause r = .ok [] r :=
      (atKeyword_of_ne (Bool.eq_false_iff.mpr defines)).trans rfl
    rw [none] at defined
    cases defined
    obtain ⟨_, _, selects, -⟩ := bind_eq_ok h
    change (if r.token.isKeyword .SELECT = true then _ else _ : ReadM Unit) r = _ at selects
    split at selects
    · exact .inr (by assumption)
    · cases selects

/-- The other statements begin with other words. -/
theorem isKeyword_eq_false_of_query {rowsets : Bool} {found : Query}
    (h : query rowsets r = .ok found after) {k : Keyword} (defines : k ≠ .WITH)
    (selects : k ≠ .SELECT) : r.token.isKeyword k = false := by
  rcases isKeyword_of_query h with there | there
  all_goals
    obtain ⟨spelling, token⟩ := Token.isKeyword_iff.mp there
    rw [token]
    exact beq_eq_false_iff_ne.mpr (by first | exact defines.symm | exact selects.symm)

/-- A statement without a mark is a plain one. -/
theorem statement_of_no_explain (explains : r.token.isKeyword .EXPLAIN = false) :
    statement r = keepingDepth plainStatement r := by
  have unmarked : whileToken (·.isKeyword .EXPLAIN) explainMark (fun _ _ => Spends.explainMark) 0
      r = .ok 0 r := by
    rw [whileToken_apply, if_neg (Bool.eq_false_iff.mp explains)]
  have unwrapped : (do
      let found ← plainStatement
      return Nat.repeat .explain 0 found) = plainStatement := bind_pure plainStatement
  unfold statement keepingDepth
  rw [bind_of_ok unmarked, unwrapped]

/-- A statement that is no other one is a query. -/
theorem statement_of_query (explains : r.token.isKeyword .EXPLAIN = false)
    (drills : r.token.isKeyword .DRILLTHROUGH = false) :
    statement r = keepingDepth (do
      match ← query true with
      | .select found => return .select found
      | .rowset found => return .rowset found) r := by
  have plain : plainStatement r = (do
      match ← query true with
      | .select found => return .select found
      | .rowset found => return .rowset found : ReadM Statement) r := atKeyword_of_ne drills
  rw [statement_of_no_explain explains]
  unfold keepingDepth
  rw [plain]

theorem pos_of_explainMark {count next : Nat} (h : explainMark count r = .ok next after) :
    0 < next := by
  obtain ⟨_, _, _, h⟩ := bind_eq_ok h
  obtain ⟨_, _, _, h⟩ := bind_eq_ok h
  obtain ⟨_, _, _, h⟩ := bind_eq_ok h
  obtain ⟨_, _, _, h⟩ := bind_eq_ok h
  cases h
  exact Nat.succ_pos count

/-- A statement that turns out to be a query of a cube was read as a query. -/
theorem exists_query_of_statement {select : Select} (h : statement r = .ok (.select select) after) :
    ∃ last, query true r = .ok (.select select) last ∧ after = { last with depth := r.depth } := by
  unfold statement keepingDepth at h
  split at h
  · rename_i found last read
    cases h
    obtain ⟨marks, between, marked, read⟩ := bind_eq_ok read
    obtain ⟨plain, _, read, made⟩ := bind_eq_ok read
    by_cases explains : r.token.isKeyword .EXPLAIN = true
    · -- At least one mark is put around the statement.
      have pos : 0 < marks := of_whileToken (fun _ _ _ _ => pos_of_explainMark) explains marked
      obtain ⟨n, rfl⟩ := Nat.exists_eq_add_of_lt pos
      rw [Nat.zero_add] at made
      cases made
    · rw [whileToken_apply, if_neg explains] at marked
      cases marked
      cases made
      change (if r.token.isKeyword .DRILLTHROUGH = true then _ else _ : ReadM Statement) r = _
        at read
      split at read
      · obtain ⟨_, _, _, made⟩ := bind_eq_ok read
        cases made
      · obtain ⟨found, _, queried, made⟩ := bind_eq_ok read
        cases found with
        | rowset => cases made
        | select found =>
          cases made
          exact ⟨_, queried, rfl⟩
  · cases h

variable {d l : Nat} {select : Select}

/-- **A statement that is a query is read as a query.** -/
theorem wholeSelect_of_wholeStatement (here : r.At d l)
    (h : wholeStatement r = .ok (.select select) after) : wholeSelect r = .ok select after := by
  obtain ⟨found, between, stated, ends⟩ := bind_eq_ok h
  obtain ⟨_, last, ended, made⟩ := bind_eq_ok ends
  cases made
  obtain ⟨behind, queried, rfl⟩ := exists_query_of_statement stated
  have depth := ((good_query here true).ok queried).1.depth
  rw [← depth] at ended
  have selected : ReadM.select r = .ok select behind :=
    (bind_of_ok (query_false_of_query queried)).trans rfl
  exact (bind_of_ok selected).trans ((bind_of_ok ended).trans rfl)

/-- **A query is read as a statement**, or lacks the dot behind the name of the schema. -/
theorem wholeStatement_of_wholeSelect (here : r.At d l) (h : wholeSelect r = .ok select after) :
    (select.ofSystem = false → wholeStatement r = .ok (.select select) after) ∧
      (select.ofSystem = true → ∃ t place last,
        wholeStatement r = .error (.unexpected (.symbol .dot) (.token t) place) last) := by
  obtain ⟨_, between, selected, ends⟩ := bind_eq_ok h
  obtain ⟨_, last, ended, made⟩ := bind_eq_ok ends
  cases made
  obtain ⟨found, _, queried, made⟩ := bind_eq_ok selected
  obtain ⟨_, rfl, other, system⟩ := query_true_of_query here queried
  cases made
  have stated := statement_of_query (isKeyword_eq_false_of_query queried nofun nofun)
    (isKeyword_eq_false_of_query queried nofun nofun)
  have depth := ((good_query here false).ok queried).1.depth
  refine ⟨fun names => ?_, fun names => ?_⟩
  · have found : statement r = .ok (.select select) between := by
      rw [stated]
      unfold keepingDepth
      rw [bind_of_ok (other names), ← depth]
      rfl
    exact (bind_of_ok found).trans ((bind_of_ok ended).trans rfl)
  · obtain ⟨t, place, last, failed⟩ := system names
    refine ⟨t, place, { last with depth := r.depth }, bind_of_error ?_⟩
    rw [stated]
    unfold keepingDepth
    rw [bind_of_error failed]

end ReadM

/-! ### Whole texts -/

/-- **The two ways to read a query agree.**  What is a query as a statement is the same query when
it is read as such.  And a query is the same statement, unless it begins like one of the schema:
then the statement lacks a dot. -/
theorem read_select_statement (text : String) (limit : Nat) :
    (∀ query, read .statement text limit = .ok (.statement (.select query)) →
      read .select text limit = .ok (.select query)) ∧
    ∀ query, read .select text limit = .ok (.select query) →
      (query.ofSystem = false → read .statement text limit = .ok (.statement (.select query))) ∧
      (query.ofSystem = true → ∃ t place,
        read .statement text limit = .error (.unexpected (.symbol .dot) (.token t) place)) := by
  constructor
  · intro query h
    obtain ⟨r, _, start, found⟩ := exists_ofText_of_read h
    obtain ⟨_, _, whole, made⟩ := bind_eq_ok found
    cases made
    have selected := wholeSelect_of_wholeStatement (Reader.at_of_ofText start) whole
    exact read_of_ok start ((bind_of_ok selected).trans rfl)
  · intro query h
    obtain ⟨r, _, start, found⟩ := exists_ofText_of_read h
    obtain ⟨_, _, whole, made⟩ := bind_eq_ok found
    cases made
    obtain ⟨other, system⟩ := wholeStatement_of_wholeSelect (Reader.at_of_ofText start) whole
    refine ⟨fun names => ?_, fun names => ?_⟩
    · exact read_of_ok start ((bind_of_ok (other names)).trans rfl)
    · obtain ⟨t, place, last, failed⟩ := system names
      exact ⟨t, place, read_of_error start (bind_of_error failed)⟩

theorem exists_select_of_isOk {text : String} {limit : Nat}
    (h : (read .select text limit).isOk = true) :
    ∃ query, read .select text limit = .ok (.select query) := by
  obtain ⟨tree, found⟩ := exists_of_isOk h
  obtain ⟨_, _, _, whole⟩ := exists_ofText_of_read found
  obtain ⟨query, _, _, made⟩ := bind_eq_ok whole
  cases made
  exact ⟨query, found⟩

/-- A dot is missing behind the name of the schema, but not where something is defined. -/
theorem read_select_statement_system :
    (∃ query, read .select "SELECT FROM $System;" 0 = .ok (.select query) ∧
      query.ofSystem = true ∧ ∃ t place,
        read .statement "SELECT FROM $System;" 0 =
          .error (.unexpected (.symbol .dot) (.token t) place)) ∧
    ∃ query, read .statement "WITH SET s AS 1 SELECT FROM $System" 1 =
        .ok (.statement (.select query)) ∧
      read .select "WITH SET s AS 1 SELECT FROM $System" 1 = .ok (.select query) := by
  constructor
  · obtain ⟨query, found⟩ : ∃ query, read .select "SELECT FROM $System;" 0 = .ok (.select query) :=
      exists_select_of_isOk (by decide +kernel)
    have fails : ¬ (read .statement "SELECT FROM $System;" 0).isOk = true := by decide +kernel
    obtain ⟨other, system⟩ := (read_select_statement _ _).2 query found
    have names : query.ofSystem = true := by
      by_contra no
      exact fails (other (Bool.eq_false_iff.mpr no) ▸ rfl)
    exact ⟨query, found, names, system names⟩
  · obtain ⟨query, found⟩ :
        ∃ query, read .select "WITH SET s AS 1 SELECT FROM $System" 1 = .ok (.select query) :=
      exists_select_of_isOk (by decide +kernel)
    have defined : (read .statement "WITH SET s AS 1 SELECT FROM $System" 1).isOk = true := by
      decide +kernel
    obtain ⟨other, system⟩ := (read_select_statement _ _).2 query found
    have names : query.ofSystem = false := by
      rw [← Bool.not_eq_true]
      intro yes
      obtain ⟨t, place, failed⟩ := system yes
      rw [failed] at defined
      cases defined
    have stated := other names
    exact ⟨query, stated, (read_select_statement _ _).1 query stated⟩

end MdxReader
