import MdxReader.Proofs.CubeNames
import MdxReader.Proofs.Drillthrough
import MdxReader.Proofs.Literals

/-!
# Row counts and axis numbers

Where a number of rows or the number of an axis is asked for, a literal is taken exactly if its
value is a whole number that has room in 64 or in 32 bits (`read_counts`).  How the literal is
written makes no difference: `20e-1` and `2.0` are the number 2, and `2.5` is refused.  An axis
number goes through both widths, which is the same as going through the narrower one
(`Decimal.filter_below?`).
-/

namespace MdxReader

open ReadM

/-! ### Whole numbers below a bound -/

namespace Decimal

variable {d : Decimal} {bound n : ℕ}

/-- The natural number that the decimal denotes, if there is one and it is below the bound. -/
def below? (d : Decimal) (bound : ℕ) : Option ℕ := d.toNat?.filter (· < bound)

theorem below?_eq_some_iff : d.below? bound = some n ↔ 10 ^ d.scale ∣ d.mantissa ∧
    d.mantissa / 10 ^ d.scale < bound ∧ n = d.mantissa / 10 ^ d.scale := by
  have positive : 0 < 10 ^ d.scale := Nat.pow_pos (by decide)
  rw [below?, Option.filter_eq_some_iff, toNat?_eq_some, decide_eq_true_iff, Nat.pow_eq]
  constructor
  · rintro ⟨multiple, small⟩
    have quotient : d.mantissa / 10 ^ d.scale = n := by
      rw [multiple, Nat.mul_div_cancel _ positive]
    rw [quotient]
    exact ⟨Dvd.intro_left n multiple.symm, small, rfl⟩
  · rintro ⟨whole, small, rfl⟩
    exact ⟨(Nat.div_mul_cancel whole).symm, small⟩

/-- Of two bounds one behind the other only the lower one counts. -/
theorem filter_below? {low high : ℕ} (le : low ≤ high) :
    (d.below? high).filter (· < low) = d.below? low := by
  unfold below?
  rw [Option.filter_filter]
  congr 1
  funext n
  rw [← Bool.decide_and, decide_eq_decide]
  omega

end Decimal

/-- Under every limit, the text is read exactly if the decimal is a whole number below the bound,
and it is read as what is made of that number. -/
def ReadsWhole (goal : Goal) (text : String) (d : Decimal) (bound : ℕ) (made : ℕ → Tree) : Prop :=
  ∀ limit tree, read goal text limit = .ok tree ↔
    10 ^ d.scale ∣ d.mantissa ∧ d.mantissa / 10 ^ d.scale < bound ∧
      tree = made (d.mantissa / 10 ^ d.scale)

theorem readsWhole_of_reads {goal : Goal} {text : String} {d : Decimal} {bound : ℕ}
    {made : ℕ → Tree}
    (accepts : ∀ n, d.below? bound = some n → ∀ limit, read goal text limit = .ok (made n))
    (rejects : d.below? bound = none → ∀ limit, ∃ e, read goal text limit = .error e) :
    ReadsWhole goal text d bound made := by
  intro limit tree
  constructor
  · intro h
    cases fits : d.below? bound with
    | none =>
      obtain ⟨e, failed⟩ := rejects fits limit
      rw [failed] at h
      cases h
    | some n =>
      rw [accepts n fits limit] at h
      cases h
      obtain ⟨whole, small, rfl⟩ := Decimal.below?_eq_some_iff.mp fits
      exact ⟨whole, small, rfl⟩
  · rintro ⟨whole, small, rfl⟩
    exact accepts _ (Decimal.below?_eq_some_iff.mpr ⟨whole, small, rfl⟩) limit

/-! ### Row counts -/

section Rows

variable {r : Reader} {d : Decimal} {k : Keyword} {put : ℕ → Option ℕ × Option ℕ}

/-- The keyword begins the first option of a drillthrough, whose count is put where it belongs. -/
def BeginsOption (k : Keyword) (put : ℕ → Option ℕ × Option ℕ) : Prop :=
  ∀ r : Reader, r.token.isKeyword k = true → drillOption (none, none) r = (do
    advance
    return put (← count (.countAfter k)) : ReadM (Option ℕ × Option ℕ)) r

theorem beginsOption_maxRows : BeginsOption .MAXROWS fun n => (some n, none) := by
  intro r there
  unfold drillOption
  rw [bind_get, there]
  rfl

theorem beginsOption_firstRowSet : BeginsOption .FIRSTROWSET fun n => (none, some n) := by
  intro r there
  have other : r.token.isKeyword .MAXROWS = false := by
    obtain ⟨spelling, token⟩ := Token.isKeyword_iff.mp there
    rw [token]
    rfl
  unfold drillOption
  rw [bind_get, there, other]
  rfl

/-- The tokens of a drillthrough with a single option. -/
def drillTokens (k : Keyword) (d : Decimal) : List Token :=
  .ofKeyword .DRILLTHROUGH :: .ofKeyword k :: .number d :: .ofKeyword .SELECT :: cubeClosing

/-- What the option comes to is decided by the count. -/
theorem exists_option_of_tokens (begins : BeginsOption k put) (h : r.tokens = drillTokens k d) :
    ∃ atOption atCount, expectKeyword .DRILLTHROUGH r = .ok () atOption ∧
      atCount.tokens = .number d :: .ofKeyword .SELECT :: cubeClosing ∧
      drillOption (none, none) atOption =
        (do return put (← count (.countAfter k)) : ReadM (Option ℕ × Option ℕ)) atCount := by
  obtain ⟨atOption, drills, ahead, -⟩ := exists_expectKeyword_of_tokens h (by simp [cubeClosing])
  obtain ⟨atCount, moved, left, -⟩ := exists_advance_of_tokens ahead nofun (by simp [cubeClosing])
  have there : atOption.token.isKeyword k = true := by
    rw [token_of_tokens ahead]
    exact beq_self_eq_true k
  exact ⟨atOption, atCount, drills, left, (begins atOption there).trans (bind_of_ok moved)⟩

theorem exists_wholeStatement_of_count {n : ℕ} (begins : BeginsOption k put)
    (h : r.tokens = drillTokens k d) (counts : countOf? (.number d) = some n) :
    ∃ last, wholeStatement r =
      .ok (.drillthrough ⟨(put n).1, (put n).2, .plain, []⟩) last := by
  obtain ⟨atOption, atCount, drills, ahead, option⟩ := exists_option_of_tokens begins h
  have counted : Grammar.count atCount.tokens = some (n, .ofKeyword .SELECT :: cubeClosing) := by
    rw [ahead, Grammar.count_cons, counts]
    rfl
  obtain ⟨atSelect, found, left, -⟩ := exists_of_parses (parses_count (.countAfter k))
    (calm_count _) counted (by simp [ahead, cubeClosing])
  have first : drillOption (none, none) atOption = .ok (put n) atSelect :=
    option.trans ((bind_of_ok found).trans rfl)
  have second : drillOption (put n) atSelect = .ok ((put n).1, (put n).2) atSelect :=
    drillOption_of_ne (by rw [token_of_tokens left]; exact ⟨rfl, rfl⟩)
  obtain ⟨last, selected, ended⟩ :=
    exists_select_of_tokens left List.mem_cons_self ⟨rfl, by decide⟩
  have token : last.token = .endOfText := token_of_tokens ended
  have nothing : returned last = .ok [] last :=
    (atKeyword_of_ne (by rw [token]; rfl)).trans rfl
  exact exists_wholeStatement_of_parts drills first second selected nothing token

theorem exists_error_of_count (begins : BeginsOption k put) (h : r.tokens = drillTokens k d)
    (fails : countOf? (.number d) = none) : ∃ e last, wholeStatement r = .error e last := by
  obtain ⟨atOption, atCount, drills, ahead, option⟩ := exists_option_of_tokens begins h
  have nothing : Grammar.count atCount.tokens = none := by
    rw [ahead, Grammar.count_cons, fails]
    rfl
  obtain ⟨e, last, failed⟩ := exists_error_of_parses (parses_count (.countAfter k)) nothing
  exact ⟨e, exists_error_of_option drills (option.trans (bind_of_error failed))⟩

theorem readsWhole_of_drillTokens {text : String} {all : List Located}
    (begins : BeginsOption k put) (scanned : tokensOf text = .ok all)
    (known : all.map Located.token = drillTokens k d) :
    ReadsWhole .statement text d (2 ^ 64) fun n =>
      .statement (.drillthrough ⟨(put n).1, (put n).2, .plain, []⟩) := by
  refine readsWhole_of_reads (fun n fits limit => ?_) fun fails limit => ?_
  · exact read_statement_of_tokens scanned fun r ahead =>
      exists_wholeStatement_of_count begins (ahead.trans known) fits
  · obtain ⟨r, start, ahead, -⟩ := Reader.exists_ofText limit scanned
    have tokens : r.tokens = drillTokens k d := (congrArg _ ahead).trans known
    obtain ⟨e, last, failed⟩ := exists_error_of_count begins tokens fails
    exact ⟨e, read_of_error start (bind_of_error failed)⟩

end Rows

/-! ### Axis numbers -/

namespace Axis

/-- The axis has a name of its own, which stands for its number. -/
def IsNamed : Axis → Prop
  | ordinal _ => False
  | _ => True

theorem isNamed_ofOrdinal : ∀ n, (ofOrdinal n).IsNamed ↔ n < 5
  | 0 | 1 | 2 | 3 | 4 => iff_of_true trivial (by decide)
  | n + 5 => iff_of_false id (Nat.not_lt.mpr (Nat.le_add_left 5 n))

end Axis

namespace Grammar

variable {d : Decimal} {us ts : List Token}

theorem axisNumber_of_number : axisNumber (.number d :: ts) =
    (d.below? countBound).map fun n => (n, ts) :=
  (Parser.ifKeyword_of_ne rfl).trans (count_cons _ _)

theorem axisNumber_of_parens :
    axisNumber (.ofKeyword .AXIS :: .symbol .openParen :: .number d :: .symbol .closeParen :: ts) =
      (d.below? countBound).map fun n => (n, ts) := by
  have counted : count (.number d :: .symbol .closeParen :: ts) =
      (d.below? countBound).map fun n => (n, .symbol .closeParen :: ts) := count_cons _ _
  refine (Parser.ifKeyword_of_look rfl).trans ?_
  refine (Parser.bind_of_some (Parser.symbol_of_look rfl)).trans ?_
  cases fits : d.below? countBound with
  | none => exact Parser.bind_of_none (counted.trans (congrArg _ fits))
  | some n => exact (Parser.bind_of_some (counted.trans (congrArg _ fits))).trans rfl

/-- The number of an axis has to fit both a count and an axis. -/
theorem numberedAxis_of_axisNumber
    (number : axisNumber us = (d.below? countBound).map fun n => (n, ts)) :
    numberedAxis us = (d.below? Axis.bound).map fun n => (Axis.ofOrdinal n, ts) := by
  have narrow : Axis.bound ≤ countBound := by decide
  rw [← Decimal.filter_below? narrow, numberedAxis, Parser.bind_apply, number]
  cases d.below? countBound with
  | none => rfl
  | some n =>
    rw [Option.filter_some]
    by_cases small : n < Axis.bound
    · simp only [Option.map_some, Option.bind_some, axisOf?_eq, small, decide_true, if_true]
      rfl
    · simp only [Option.map_some, Option.bind_some, axisOf?_eq, small, decide_false, if_false,
        Bool.false_eq_true]
      rfl

theorem axis_of_number : axis (.number d :: ts) =
    (d.below? Axis.bound).map fun n => (Axis.ofOrdinal n, ts) :=
  numberedAxis_of_axisNumber axisNumber_of_number

theorem axis_of_parens :
    axis (.ofKeyword .AXIS :: .symbol .openParen :: .number d :: .symbol .closeParen :: ts) =
      (d.below? Axis.bound).map fun n => (Axis.ofOrdinal n, ts) :=
  numberedAxis_of_axisNumber axisNumber_of_parens

end Grammar

section Axes

variable {r : Reader} {ts us : List Token} {x : Expr} {limit : ℕ}

/-- Where what is selected cannot be read, neither can the query, also as a statement. -/
theorem exists_error_of_selection {atItems last : Reader} {e : ReadError}
    (h : r.tokens = .ofKeyword .SELECT :: ts) (selects : expectKeyword .SELECT r = .ok () atItems)
    (failed : selection atItems = .error e last) :
    wholeSelect r = .error e last ∧ ∃ after, wholeStatement r = .error e after := by
  have token := token_of_tokens h
  have queried (rowsets : Bool) : query rowsets r = .error e last := by
    unfold query
    rw [bind_of_ok (withClause_of_tokens h), bind_of_ok selects, bind_of_error failed]
  have stated : statement r = .error e { last with depth := r.depth } := by
    rw [statement_of_query (by rw [token]; rfl) (by rw [token]; rfl)]
    unfold keepingDepth
    rw [bind_of_error (queried true)]
  exact ⟨bind_of_error (bind_of_error (queried false)), _, bind_of_error stated⟩

/-- Without an axis behind `ON` there is no query. -/
theorem exists_error_of_axis (readsAs : ReadsAs ts x limit 0)
    (h : r.tokens = .ofKeyword .SELECT :: (ts ++ .ofKeyword .ON :: us)) (clean : .endOfText ∈ us)
    (fails : Grammar.axis us = none) (limited : r.limit = limit) (deep : r.depth = 0) :
    ∃ e, (∃ last, wholeSelect r = .error e last) ∧ ∃ last, wholeStatement r = .error e last := by
  obtain ⟨atItems, selects, ahead, reached⟩ := exists_expectKeyword_of_tokens h (by simp [clean])
  obtain ⟨place, atAxis, left, item, selected⟩ := exists_item_of_tokens readsAs ahead clean
    (reached.limit.trans limited) (reached.depth.trans deep)
  obtain ⟨e, last, failed⟩ := exists_error_of_parses parses_axis (left ▸ fails)
  have missing : ReadM.item atItems = .error e last := item.trans (bind_of_error failed)
  have nothing : selection atItems = .error e last :=
    selected.trans (bind_of_error (bind_of_error missing))
  obtain ⟨query, statement⟩ := exists_error_of_selection h selects nothing
  exact ⟨e, ⟨last, query⟩, statement⟩

end Axes

/-- `SELECT x ON n FROM c` -/
def Select.onNumber (n : ℕ) : Select :=
  .onAxis (.identifier (.ofName ⟨"x", .bare⟩)) (.ofOrdinal n)

/-- What comes behind `ON` is an axis if the decimal is its number, and so is the text a query. -/
theorem readsWhole_of_axis {text : String} {d : Decimal} {all : List Located} {us : List Token}
    (scanned : tokensOf text = .ok all)
    (known : all.map Located.token = .ofKeyword .SELECT :: .word "x" :: .ofKeyword .ON :: us)
    (clean : .endOfText ∈ us) (numbered : Grammar.axis us =
      (d.below? Axis.bound).map fun n => (Axis.ofOrdinal n, cubeClosing)) :
    ReadsWhole .select text d (2 ^ 32) (fun n => .select (.onNumber n)) ∧
      ReadsWhole .statement text d (2 ^ 32) fun n => .statement (.select (.onNumber n)) := by
  have alone : (tokensOf "x").map (·.map Located.token) = .ok ([.word "x"] ++ [Token.endOfText]) :=
    map_tokensOf_of_spaced (.single ⟨⟨by decide, by decide⟩, nofun⟩) (by decide)
  have spells : SpellsName "x" ⟨"x", .bare⟩ := ⟨.word "x", alone, .word "x"⟩
  obtain ⟨tokens, scannedName, name⟩ := exists_tokensOf_of_map alone
  have readsAs (limit : ℕ) : ReadsAs [.word "x"] _ limit 0 :=
    readsAs_of_tokens (spells.read_as_expression limit) scannedName name (by decide) 0
  have accepts (n : ℕ) (fits : d.below? Axis.bound = some n) (limit : ℕ) :
      ReadsQuery text limit (.onNumber n) := by
    refine readsQuery_of_tokens scanned (fun r ahead limited deep => ?_) isSystem_plain
    exact exists_wholeSelect_onAxis (readsAs limit) (ahead.trans known) clean
      (numbered.trans (congrArg _ fits)) limited deep
  have rejects (fails : d.below? Axis.bound = none) (limit : ℕ) :
      ∃ e, read .select text limit = .error e ∧ read .statement text limit = .error e := by
    obtain ⟨r, start, ahead, -⟩ := Reader.exists_ofText limit scanned
    obtain ⟨e, ⟨last, query⟩, last', statement⟩ :=
      exists_error_of_axis (readsAs limit) ((congrArg _ ahead).trans known) clean
        (numbered.trans (congrArg _ fails)) (Reader.limit_of_ofText start)
        (Reader.depth_of_ofText start)
    exact ⟨e, read_of_error start (bind_of_error query),
      read_of_error start (bind_of_error statement)⟩
  exact ⟨readsWhole_of_reads (fun n fits limit => (accepts n fits limit).1)
      fun fails limit => (rejects fails limit).imp fun _ => And.left,
    readsWhole_of_reads (fun n fits limit => (accepts n fits limit).2)
      fun fails limit => (rejects fails limit).imp fun _ => And.right⟩

/-! ### Whole texts -/

theorem tokensOf_cubeClosing :
    (tokensOf "FROM c").map (·.map Located.token) = .ok cubeClosing :=
  map_tokensOf_of_spaced writable_source (by decide)

theorem tokensOf_axisOpening : (tokensOf "SELECT x ON").map (·.map Located.token) =
    .ok ([.ofKeyword .SELECT, .word "x", .ofKeyword .ON] ++ [Token.endOfText]) := by
  have writable : AllWritable [.ofKeyword .SELECT, .word "x", .ofKeyword .ON] :=
    .cons (writable_ofKeyword _)
      (.cons ⟨⟨by decide, by decide⟩, nofun⟩ (.single (writable_ofKeyword _)))
  exact map_tokensOf_of_spaced writable (by decide)

/-- A space in front of a text is no token. -/
theorem exists_tokensOf_space {text : String} {ts : List Token}
    (h : (tokensOf text).map (·.map Located.token) = .ok ts) :
    ∃ all, tokensOf (String.singleton ' ' ++ text) = .ok all ∧ all.map Located.token = ts := by
  obtain ⟨tokens, scanned, known⟩ := exists_tokensOf_of_map h
  have nothing : (tokensOf "").map (·.map Located.token) = .ok ([] ++ [Token.endOfText]) :=
    map_tokensOf_of_spaced .nil rfl
  obtain ⟨all, scannedAll, allTokens⟩ := exists_tokensOf_behind scanned nothing nofun
    (congrArg (· ++ text) String.empty_append)
  exact ⟨all, scannedAll, allTokens.trans known⟩

section Texts

variable {literal : String} {d : Decimal}

/-- A literal that is scanned as the decimal is a spelling of it. -/
theorem spelled_of_tokens {n : Numeral} (spelled : n.Spelled literal.toList)
    (scanned : (tokensOf literal).map (·.map Located.token) = .ok [.number d, .endOfText]) :
    (Token.number d).Spelled literal.toList := by
  obtain ⟨last, found⟩ := tokensOf_of_spelled spelled
  rw [String.ofList_toList] at found
  cases value : n.value? with
  | none =>
    rw [found, value] at scanned
    cases scanned
  | some number =>
    rw [found, value] at scanned
    cases scanned
    exact ⟨n, spelled, value⟩

variable (spelled : (Token.number d).Spelled literal.toList)

include spelled

/-- The tokens of a text around a literal. -/
theorem exists_tokensOf_literal {opening opening' closing closing' : String}
    {front back : List Token}
    (opens : (tokensOf opening).map (·.map Located.token) = .ok (front ++ [Token.endOfText]))
    (noComment : ∀ c ∈ opening.toList, c ≠ '/' ∧ c ≠ '-')
    (closes : (tokensOf closing).map (·.map Located.token) = .ok back)
    (space : opening ++ String.singleton ' ' = opening')
    (space' : String.singleton ' ' ++ closing = closing') :
    ∃ all, tokensOf (opening' ++ literal ++ closing') = .ok all ∧
      all.map Located.token = front ++ .number d :: back := by
  obtain ⟨further, scannedClosing, closed⟩ := exists_tokensOf_space closes
  have ends : EndsNumber (String.singleton ' ' ++ closing).toList := by
    rw [String.toList_append]
    rintro _ ⟨⟩
    exact ⟨rfl, by decide⟩
  obtain ⟨behind, scannedBehind, tokensBehind⟩ :=
    exists_tokensOf_numeral spelled ends scannedClosing
  have texts : opening ++ String.singleton ' ' ++ (literal ++ (String.singleton ' ' ++ closing)) =
      opening' ++ literal ++ closing' := by
    rw [space, space', String.append_assoc]
  obtain ⟨all, scannedAll, allTokens⟩ := exists_tokensOf_behind scannedBehind opens noComment texts
  rw [tokensBehind, closed] at allTokens
  exact ⟨all, scannedAll, allTokens⟩

/-- The tokens of a query with the literal in the parentheses of an axis. -/
theorem exists_tokensOf_parens :
    ∃ all, tokensOf ("SELECT x ON AXIS(" ++ literal ++ ") FROM c") = .ok all ∧
      all.map Located.token = .ofKeyword .SELECT :: .word "x" :: .ofKeyword .ON ::
        .ofKeyword .AXIS :: .symbol .openParen :: .number d :: .symbol .closeParen ::
          cubeClosing := by
  obtain ⟨further, scannedClosing, closed⟩ := exists_tokensOf_space tokensOf_cubeClosing
  have close : ∀ rest, symbolAt? (')' :: rest) = some .closeParen := fun _ => rfl
  obtain ⟨closing, scannedClose, tokensClose⟩ :=
    exists_tokensOf_symbol close rfl (by decide) (by decide) scannedClosing
  have ends : EndsNumber
      (String.singleton ')' ++ (String.singleton ' ' ++ "FROM c")).toList := by
    rw [String.toList_append]
    rintro _ ⟨⟩
    exact ⟨rfl, by decide⟩
  obtain ⟨number, scannedNumber, tokensNumber⟩ :=
    exists_tokensOf_numeral spelled ends scannedClose
  have paren : ∀ rest, symbolAt? ('(' :: rest) = some .openParen := fun _ => rfl
  obtain ⟨inside, scannedInside, tokensInside⟩ :=
    exists_tokensOf_symbol paren rfl (by decide) (by decide) scannedNumber
  have word : Text.isWord "AXIS" = true := by decide
  have stop : (String.singleton '(' ++ (literal ++ (String.singleton ')' ++
      (String.singleton ' ' ++ "FROM c")))).toList.head?.any Text.isNamePart = false := by
    rw [String.toList_append]
    rfl
  obtain ⟨behind, scannedBehind, tokensBehind⟩ := exists_tokensOf_word word stop scannedInside
  have texts : "SELECT x ON" ++ String.singleton ' ' ++ ("AXIS" ++ (String.singleton '(' ++
      (literal ++ (String.singleton ')' ++ (String.singleton ' ' ++ "FROM c"))))) =
      "SELECT x ON AXIS(" ++ literal ++ ") FROM c" := by
    apply String.toList_injective
    simp
  obtain ⟨all, scannedAll, allTokens⟩ :=
    exists_tokensOf_behind scannedBehind tokensOf_axisOpening (by simp) texts
  rw [tokensBehind, tokensInside, tokensNumber, tokensClose, closed] at allTokens
  exact ⟨all, scannedAll, allTokens⟩

theorem readsWhole_drillthrough {k : Keyword} {put : ℕ → Option ℕ × Option ℕ}
    {opening opening' : String} (begins : BeginsOption k put)
    (written : spaced [.ofKeyword .DRILLTHROUGH, .ofKeyword k] = opening)
    (noComment : ∀ c ∈ opening.toList, c ≠ '/' ∧ c ≠ '-')
    (space : opening ++ String.singleton ' ' = opening') :
    ReadsWhole .statement (opening' ++ literal ++ " SELECT FROM c") d (2 ^ 64) fun n =>
      .statement (.drillthrough ⟨(put n).1, (put n).2, .plain, []⟩) := by
  have writable : AllWritable [.ofKeyword .DRILLTHROUGH, .ofKeyword k] :=
    .cons (writable_ofKeyword _) (.single (writable_ofKeyword _))
  have opens := map_tokensOf_of_spaced writable written
  have space' : String.singleton ' ' ++ "SELECT FROM c" = " SELECT FROM c" := by decide
  obtain ⟨all, scanned, known⟩ :=
    exists_tokensOf_literal spelled opens noComment tokensOf_formulaClosing space space'
  exact readsWhole_of_drillTokens begins scanned known

theorem readsWhole_onNumber :
    ReadsWhole .select ("SELECT x ON " ++ literal ++ " FROM c") d (2 ^ 32)
        (fun n => .select (.onNumber n)) ∧
      ReadsWhole .statement ("SELECT x ON " ++ literal ++ " FROM c") d (2 ^ 32)
        fun n => .statement (.select (.onNumber n)) := by
  have space : "SELECT x ON" ++ String.singleton ' ' = "SELECT x ON " := by decide
  have space' : String.singleton ' ' ++ "FROM c" = " FROM c" := by decide
  obtain ⟨all, scanned, known⟩ := exists_tokensOf_literal spelled tokensOf_axisOpening (by simp)
    tokensOf_cubeClosing space space'
  exact readsWhole_of_axis scanned known (by simp [cubeClosing]) Grammar.axis_of_number

theorem readsWhole_onParens :
    ReadsWhole .select ("SELECT x ON AXIS(" ++ literal ++ ") FROM c") d (2 ^ 32)
        (fun n => .select (.onNumber n)) ∧
      ReadsWhole .statement ("SELECT x ON AXIS(" ++ literal ++ ") FROM c") d (2 ^ 32)
        fun n => .statement (.select (.onNumber n)) := by
  obtain ⟨all, scanned, known⟩ := exists_tokensOf_parens spelled
  exact readsWhole_of_axis scanned known (by simp [cubeClosing]) Grammar.axis_of_parens

end Texts

/-- **Row counts and axis numbers are exact.**  A literal that is scanned as some decimal is taken
as a number of rows exactly if the decimal is a whole number below `2 ^ 64`, and as the number of an
axis, in parentheses or not, exactly if it is one below `2 ^ 32`.  It is that number which is read,
and the axes with the first five have names. -/
theorem read_counts {literal : String} {numeral : Numeral} {d : Decimal}
    (spelled : numeral.Spelled literal.toList)
    (scanned : (tokensOf literal).map (·.map Located.token) = .ok [.number d, .endOfText]) :
    ReadsWhole .statement ("DRILLTHROUGH MAXROWS " ++ literal ++ " SELECT FROM c") d (2 ^ 64)
      (fun n => .statement (.drillthrough ⟨some n, none, .plain, []⟩)) ∧
    ReadsWhole .statement ("DRILLTHROUGH FIRSTROWSET " ++ literal ++ " SELECT FROM c") d (2 ^ 64)
      (fun n => .statement (.drillthrough ⟨none, some n, .plain, []⟩)) ∧
    (∀ text ∈ ["SELECT x ON " ++ literal ++ " FROM c",
        "SELECT x ON AXIS(" ++ literal ++ ") FROM c"],
      ReadsWhole .select text d (2 ^ 32) (fun n => .select (.onNumber n)) ∧
      ReadsWhole .statement text d (2 ^ 32) (fun n => .statement (.select (.onNumber n)))) ∧
    ∀ n, (Axis.ofOrdinal n).toOrdinal = n ∧ ((Axis.ofOrdinal n).IsNamed ↔ n < 5) := by
  have number := spelled_of_tokens spelled scanned
  have maxRows : "DRILLTHROUGH MAXROWS" ++ String.singleton ' ' = "DRILLTHROUGH MAXROWS " := by
    decide
  have firstRowSet : "DRILLTHROUGH FIRSTROWSET" ++ String.singleton ' ' =
      "DRILLTHROUGH FIRSTROWSET " := by
    decide
  refine ⟨?_, ?_, ?_, fun n => ⟨Axis.toOrdinal_ofOrdinal n, Axis.isNamed_ofOrdinal n⟩⟩
  · exact readsWhole_drillthrough number beginsOption_maxRows (by decide) (by simp) maxRows
  · exact readsWhole_drillthrough number beginsOption_firstRowSet (by decide) (by simp) firstRowSet
  · simp only [List.forall_mem_cons, List.not_mem_nil, false_implies, implies_true, and_true]
    exact ⟨readsWhole_onNumber number, readsWhole_onParens number⟩

/-- An axis with a name, whose number has an exponent, and `2 ^ 32`, which is a number of rows but
of no axis. -/
theorem read_counts_exponent : ∃ (low high : Numeral) (d d' : Decimal),
    low.Spelled "20e-1".toList ∧ high.Spelled "42949672960e-1".toList ∧
    (tokensOf "20e-1").map (·.map Located.token) = .ok [.number d, .endOfText] ∧
    (tokensOf "42949672960e-1").map (·.map Located.token) = .ok [.number d', .endOfText] ∧
    read .select "SELECT x ON AXIS(20e-1) FROM c" 0 =
      .ok (.select (.onAxis (.identifier (.ofName ⟨"x", .bare⟩)) .pages)) ∧
    read .statement "DRILLTHROUGH FIRSTROWSET 42949672960e-1 SELECT FROM c" 0 =
      .ok (.statement (.drillthrough ⟨none, some 4294967296, .plain, []⟩)) ∧
    ∀ tree, read .select "SELECT x ON 42949672960e-1 FROM c" 0 ≠ .ok tree := by
  have spelled : ∀ whole, IsDigits whole →
      Numeral.Spelled ⟨whole, [], some ⟨'e', true, ['1']⟩⟩ (whole ++ ['e', '-', '1']) :=
    fun whole digits => ⟨digits, nofun, ['e', '-', '1'], by simp, .inl rfl, ⟨nofun, by simp⟩,
      ['-'], rfl, rfl⟩
  have low : Numeral.Spelled _ "20e-1".toList := spelled "20".toList ⟨by simp, by simp⟩
  have high : Numeral.Spelled _ "42949672960e-1".toList :=
    spelled "42949672960".toList ⟨by simp, by simp⟩
  have scanned : (tokensOf "20e-1").map (·.map Located.token) =
      .ok [.number ⟨20, 1, by decide, by decide⟩, .endOfText] := by
    decide +kernel
  have scanned' : (tokensOf "42949672960e-1").map (·.map Located.token) =
      .ok [.number ⟨42949672960, 1, by decide, by decide⟩, .endOfText] := by
    decide +kernel
  obtain ⟨-, -, axes, -⟩ := read_counts low scanned
  obtain ⟨-, rows, axes', -⟩ := read_counts high scanned'
  have named := (axes _ (.tail _ (.head _))).1 0 (.select (.onNumber 2))
  have counted := rows 0 (.statement (.drillthrough ⟨none, some 4294967296, .plain, []⟩))
  refine ⟨_, _, _, _, low, high, scanned, scanned', ?_, ?_, fun tree found => ?_⟩
  · exact named.mpr ⟨by decide, by decide, rfl⟩
  · exact counted.mpr ⟨by decide, by decide, rfl⟩
  · have small := (((axes' _ (.head _)).1 0 tree).mp found).2.1
    exact absurd small (by decide)

end MdxReader
