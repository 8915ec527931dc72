import MdxReader.Proofs.Stretches

/-!
# Cube names

A text is a cube name exactly if it is a single name (`read_cubeName`), which is then read as an
expression as well.  Nothing of that depends on the limit on nesting, since names are not nested.
Any name can be given in brackets.
-/

namespace MdxReader

open ReadM

/-! ### Tokens that are names -/

/-- The token is the name: in brackets and not empty, or a bare word that is not reserved. -/
inductive Token.Names : Token → Name → Prop
  | bracketed {text : String} (some : text ≠ "") : Names (.bracketed text) ⟨text, .quoted⟩
  | word (spelling : String) : Names (.word spelling) ⟨spelling, .bare⟩
  | keyword {k : Keyword} (spelling : String) (free : k.isReserved = false) :
    Names (.keyword k spelling) ⟨spelling, .bare⟩

theorem Token.names_iff {t : Token} {name : Name} :
    t.Names name ↔ Descent.name? t = some name := by
  constructor
  · intro names
    cases names with
    | bracketed some => exact if_neg (mt String.isEmpty_iff.mp some)
    | word spelling => rfl
    | keyword spelling free =>
      exact (Descent.name?_keyword _ spelling).trans (if_neg (Bool.eq_false_iff.mp free))
  · intro held
    cases t with
    | word spelling =>
      cases held
      exact .word spelling
    | keyword k spelling =>
      rw [Descent.name?_keyword] at held
      obtain ⟨free, made⟩ := Option.ite_none_left_eq_some.mp held
      cases made
      exact .keyword spelling (Bool.eq_false_iff.mpr free)
    | bracketed text =>
      obtain ⟨some, made⟩ := Option.ite_none_left_eq_some.mp held
      cases made
      exact .bracketed (mt String.isEmpty_iff.mpr some)
    | _ => cases held

theorem Token.Names.ne_endOfText {t : Token} {name : Name} (names : t.Names name) :
    t ≠ .endOfText := by
  rintro rfl
  cases names

section Operand

variable {r : Reader} {t : Token} {ts : List Token} {name : Name}

/-- Where a name stands, the next operand is an atom: no operator and no bracket is a name. -/
theorem Engine.operandStep_of_names (names : r.token.Names name) :
    start.operandStep r = start.atom r := by
  unfold operandStep
  rw [bind_get]
  generalize r.token = t at names ⊢
  cases names with
  | bracketed some => rfl
  | word spelling => rfl
  | @keyword k spelling free => cases k <;> first | rfl | cases free

/-- A name behind which nothing goes on, no argument list either, is the whole expression. -/
theorem Engine.exists_run_of_names (tokens : r.tokens = t :: ts) (names : t.Names name)
    (clean : .endOfText ∈ ts) (ends : (Descent.look ts).continues = false)
    (noParen : (Descent.look ts).isSymbol .openParen = false) (fits : r.depth ≤ r.limit) :
    ∃ after, start.run r = .ok (.leaf (.identifier (.ofName name))) after ∧
      after.tokens = ts ∧ r.Reaches after := by
  obtain ⟨after, moved, left, reached⟩ :=
    exists_advance_of_tokens tokens names.ne_endOfText clean
  have stands : r.token = t := token_of_tokens tokens
  rw [← left, after.look_tokens] at ends noParen
  have bare (spelling : String) : start.nameOrFunction spelling after =
      .ok (start.reach (.leaf (.identifier (.ofName ⟨spelling, .bare⟩)))) after :=
    atSymbol_of_ne noParen
  have atom : start.operandStep r =
      .ok (start.reach (.leaf (.identifier (.ofName name)))) after := by
    rw [operandStep_of_names (stands ▸ names)]
    unfold Engine.atom
    rw [bind_get, bind_of_ok moved, stands]
    cases names with
    | bracketed some =>
      simp only [String.isEmpty_iff, some, if_false]
      rfl
    | word spelling => exact bare spelling
    | @keyword k spelling free =>
      have noNull : k ≠ .NULL := by
        rintro rfl
        cases free
      simp only [noNull, free, if_false, Bool.false_eq_true]
      exact bare spelling
  exact ⟨after, run_of_operand atom reached fits ends, left, reached⟩

end Operand

/-! ### Single names as texts -/

/-- The text is nothing but the name, comments and white space apart. -/
def SpellsName (text : String) (name : Name) : Prop :=
  ∃ t, (tokensOf text).map (·.map Located.token) = .ok [t, .endOfText] ∧ t.Names name

section Texts

variable {text : String} {name : Name}

/-- What is read as a cube name is a single name. -/
theorem exists_spellsName_of_read {limit : ℕ} {tree : Tree}
    (h : read .cubeName text limit = .ok tree) :
    ∃ name, SpellsName text name ∧ tree = .cubeName name := by
  obtain ⟨tokens, scanned⟩ := exists_tokensOf_of_read h
  obtain ⟨ts, inner, known⟩ := (scans_of_tokensOf scanned).exists_map_eq
  obtain ⟨found, rest, _, _, named, behind, rfl⟩ :=
    Parser.run'_map_bind_eq_some (run'_parser_of_read h scanned)
  obtain ⟨_, _, ended, made⟩ := Parser.bind_eq_some behind
  cases made
  obtain ⟨_, between, taken, single⟩ := Parser.bind_eq_some named
  obtain ⟨_, held, made⟩ := Option.map_eq_some_iff.mp taken
  cases made
  obtain ⟨-, made⟩ := Option.ite_none_left_eq_some.mp single
  cases made
  obtain ⟨ends, -⟩ := Option.ite_none_right_eq_some.mp ended
  rw [known] at held ends
  cases ts with
  | nil => cases held
  | cons t us =>
    -- The end of the text comes behind the name, so that there is no other token.
    have last : us = [] := by
      cases us with
      | nil => rfl
      | cons u us =>
        refine absurd ?_ inner
        rw [← show u = .endOfText from ends]
        simp
    subst last
    refine ⟨found, ⟨t, ?_, Token.names_iff.mpr held⟩, rfl⟩
    rw [scanned]
    exact congrArg Except.ok known

namespace SpellsName

variable (spells : SpellsName text name) (limit : ℕ)

include spells

theorem exists_ofText : ∃ r t, Reader.ofText text limit = .ok r ∧
    r.tokens = [t, .endOfText] ∧ t.Names name := by
  obtain ⟨t, tokens, names⟩ := spells
  obtain ⟨all, scanned, known⟩ := exists_tokensOf_of_map tokens
  obtain ⟨r, start, ahead, -⟩ := Reader.exists_ofText limit scanned
  exact ⟨r, t, start, (congrArg (List.map Located.token) ahead).trans known, names⟩

/-- A single name is read as a cube name, whatever the limit is. -/
theorem read_as_cubeName : read .cubeName text limit = .ok (.cubeName name) := by
  obtain ⟨r, t, start, tokens, names⟩ := spells.exists_ofText limit
  have named : Grammar.name r.tokens = some (name, [.endOfText]) := by
    rw [tokens]
    exact congrArg (Option.map fun name => (name, [Token.endOfText])) (Token.names_iff.mp names)
  have taken : Grammar.cubeName r.tokens = some (name, [.endOfText]) := Parser.bind_of_some named
  obtain ⟨after, found, left, -⟩ :=
    exists_of_parses parses_cubeName calm_cubeName taken (by simp [tokens])
  have whole : wholeCubeName r = .ok name after := by
    unfold wholeCubeName
    rw [bind_of_ok found, bind_of_ok (expectEnd_of_tokens left)]
    rfl
  exact read_of_ok start ((bind_of_ok whole).trans rfl)

/-- A single name is read as an expression, whatever the limit is. -/
theorem read_as_expression :
    read .expression text limit = .ok (.expression (.identifier (.ofName name))) := by
  obtain ⟨r, t, start, tokens, names⟩ := spells.exists_ofText limit
  have room : r.depth ≤ r.limit := by
    rw [Reader.depth_of_ofText start]
    exact Nat.zero_le _
  obtain ⟨after, ran, left, -⟩ :=
    Engine.exists_run_of_names tokens names List.mem_cons_self rfl rfl room
  exact read_of_run start ran left

end SpellsName

/-- Every name but the empty one can be given in brackets. -/
theorem spellsName_inBrackets (some : text ≠ "") :
    SpellsName (Token.inBrackets text) ⟨text, .quoted⟩ := by
  have written : spaced [.bracketed text] = Token.inBrackets text := by
    simp [spaced, Token.text]
  have tokens :=
    map_tokensOf_spaced (List.forall_mem_singleton.mpr (writable_bracketed text))
  rw [written] at tokens
  exact ⟨.bracketed text, tokens, .bracketed some⟩

/-- **Cube names are single names.**  A text is read as a cube name exactly if it is nothing but the
name, and then it is read as an expression as well: as the identifier that is this one name.  Every
name but the empty one is read if it stands in brackets, with closing brackets doubled.  The limits
make no difference. -/
theorem read_cubeName (text : String) :
    (∀ limit tree, read .cubeName text limit = .ok tree ↔
      ∃ name, SpellsName text name ∧ tree = .cubeName name) ∧
    (∀ name, SpellsName text name → ∀ limit,
      read .expression text limit = .ok (.expression (.identifier (.ofName name)))) ∧
    ∀ s, s ≠ "" → ∀ limit, read .cubeName (Token.inBrackets s) limit =
      .ok (.cubeName ⟨s, .quoted⟩) := by
  refine ⟨fun limit tree => ⟨exists_spellsName_of_read, ?_⟩, ?_, ?_⟩
  · rintro ⟨name, spells, rfl⟩
    exact spells.read_as_cubeName limit
  · intro name spells limit
    exact spells.read_as_expression limit
  · intro s some limit
    exact (spellsName_inBrackets some).read_as_cubeName limit

end Texts

/-- A keyword that is not reserved, between comments, and a bracket in brackets. -/
theorem read_cubeName_comment :
    SpellsName "/* the */ plan -- [a]" ⟨"plan", .bare⟩ ∧
    read .cubeName "/* the */ plan -- [a]" 0 = .ok (.cubeName ⟨"plan", .bare⟩) ∧
    read .expression "/* the */ plan -- [a]" 0 =
      .ok (.expression (.identifier (.ofName ⟨"plan", .bare⟩))) ∧
    "a]" ≠ "" ∧ read .cubeName "[a]]]" 0 = .ok (.cubeName ⟨"a]", .quoted⟩) := by
  obtain ⟨iff, expression, brackets⟩ := read_cubeName "/* the */ plan -- [a]"
  have spells : SpellsName "/* the */ plan -- [a]" ⟨"plan", .bare⟩ :=
    ⟨.keyword .PLAN "plan", by decide +kernel, .keyword "plan" rfl⟩
  have written : Token.inBrackets "a]" = "[a]]]" := by decide
  have some : "a]" ≠ "" := by decide
  exact ⟨spells, (iff 0 _).mpr ⟨_, spells, rfl⟩, expression _ spells 0, some,
    written ▸ brackets "a]" some 0⟩

end MdxReader
