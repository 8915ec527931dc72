import MdxReader.Proofs.Descent.Equations

/-!
# Identifiers as expressions

Two readers of identifiers share the tokens: `identifier?` takes every segment behind a dot, while
an expression begins with one segment and attaches what follows (`accesses?`), be it as a segment or
as a property of what there is so far.  An expression that comes to an identifier was attached
nothing but segments, so that both take the same tokens and make the same identifier of them
(`identifier?_of_expr`).  A group, which vanishes, is the one exception.
-/

namespace MdxReader.Descent

variable {cast : Bool} {m : Nat} {ts rest : List Token} {x : Expr} {id : Identifier}

/-! ### Operands and operators -/

theorem length_expr? (h : expr? cast m ts = some (x, rest)) : rest.length < ts.length := by
  obtain ⟨taken, -, made⟩ := Option.map_eq_some_iff.mp h
  cases made
  exact taken.short

theorem length_items? {gaps : Bool} {closing : Symbol} {args : List Expr}
    (h : items? gaps closing ts = some (args, rest)) : rest.length < ts.length := by
  obtain ⟨taken, -, made⟩ := Option.map_eq_some_iff.mp h
  cases made
  exact taken.short

/-- An operand begins with an operator, or it is a primary and what is accessed of it. -/
theorem cases_operand? (h : operand? cast ts = some (x, rest)) : ∃ t later, ts = t :: later ∧
    ((∃ operator args, Operator.leading? t = some operator ∧
        x = .call .leading operator.symbol args) ∨
      ∃ y between, primary? t later = some (y, between) ∧
        accesses? y between = some (x, rest)) := by
  cases ts with
  | nil =>
    unfold operand? at h
    rw [Descent.operand] at h
    cases h
  | cons t ts =>
    refine ⟨t, ts, rfl, ?_⟩
    cases leads : Operator.leading? t with
    | some operator =>
      rw [operand?_of_leading ts leads] at h
      obtain ⟨⟨y, between⟩, -, made⟩ := Option.map_eq_some_iff.mp h
      cases made
      exact .inl ⟨operator, [y], rfl, rfl⟩
    | none =>
      rw [operand?_of_primary ts leads] at h
      obtain ⟨⟨y, between⟩, first, accessed⟩ := Option.bind_eq_some_iff.mp h
      exact .inr ⟨y, between, first, accessed⟩

theorem fixity_of_following {t : Token} {operator : Operator}
    (h : Operator.following? t = some operator) : operator.fixity = .between := by
  unfold Operator.following? at h
  split at h <;> cases h <;> rfl

/-- No operator that stands in front of its operand comes behind one. -/
theorem fixity_of_upcoming {operator : Operator} {more : Nat}
    (h : upcoming cast ts = .operator operator more) : operator.fixity ≠ .before := by
  unfold upcoming at h
  split at h
  · cases h
  · split at h
    · unfold afterIs at h
      repeat' split at h
      all_goals cases h <;> decide
    · split at h
      · unfold afterNot at h
        repeat' split at h
        all_goals cases h <;> decide
      · split at h
        · split at h
          · cases h
          · cases h
            decide
        · rename_i found
          cases h
          rw [fixity_of_following (following?_eq _ ▸ found)]
          decide
        · cases h

theorem exists_call_of_joined (operator : Operator) (left right : Expr) :
    ∃ form name args, joined operator left right = .call form name args := by
  unfold joined
  split <;> exact ⟨_, _, _, rfl⟩

/-- Climbing leaves everything as it is, or goes on from fewer tokens with a call. -/
theorem cases_climb? {y : Expr} (h : climb? cast m x ts = some (y, rest)) :
    (y = x ∧ rest = ts) ∨ ∃ form name args later, later.length < ts.length ∧
      climb? cast m (.call form name args) later = some (y, rest) := by
  cases comes : upcoming cast ts with
  | nothing =>
    rw [climb?_of_nothing x comes] at h
    cases h
    exact .inl ⟨rfl, rfl⟩
  | dangling =>
    rw [climb?_of_dangling x comes] at h
    cases h
  | operator operator more =>
    have fewer : (ts.drop (more + 1)).length < ts.length := by
      cases ts with
      | nil => cases comes
      | cons t ts =>
        rw [List.length_drop, List.length_cons]
        omega
    by_cases weak : operator.strength ≤ m
    · rw [climb?_of_weak x comes weak] at h
      cases h
      exact .inl ⟨rfl, rfl⟩
    · rw [Nat.not_le] at weak
      refine .inr ?_
      cases stands : operator.fixity with
      | before => exact absurd stands (fixity_of_upcoming comes)
      | after =>
        rw [climb?_of_after x comes weak stands] at h
        exact ⟨_, _, _, _, fewer, h⟩
      | between =>
        by_cases named : operator = .named
        · subst named
          rw [climb?_of_named x comes weak] at h
          obtain ⟨⟨name, later⟩, taken, goesOn⟩ := Option.bind_eq_some_iff.mp h
          exact ⟨_, _, _, later, Nat.lt_trans (length_identifier taken) fewer, goesOn⟩
        · rw [climb?_of_between x comes weak stands named] at h
          obtain ⟨⟨y, later⟩, taken, goesOn⟩ := Option.bind_eq_some_iff.mp h
          obtain ⟨form, name, args, call⟩ := exists_call_of_joined operator x y
          simp only [call] at goesOn
          exact ⟨_, _, _, later, Nat.lt_trans (length_expr? taken) fewer, goesOn⟩

/-- Climbing that comes to an identifier left everything as it was. -/
theorem eq_of_climb? (h : climb? cast m x ts = some (.identifier id, rest)) :
    x = .identifier id ∧ rest = ts := by
  induction size : ts.length using Nat.strongRecOn generalizing x ts with
  | _ n ih =>
    obtain ⟨rfl, same⟩ | ⟨form, name, args, later, fewer, goesOn⟩ := cases_climb? h
    · exact ⟨rfl, same⟩
    · obtain ⟨call, -⟩ := ih _ (size ▸ fewer) goesOn rfl
      cases call

/-! ### Segments -/

theorem segment?_of_name {t : Token} {name : Name} (plain : t.isKeyPart = false)
    (named : name? t = some name) : segment? (t :: ts) = some (.name name, ts) := by
  rw [segment?_cons, if_neg (Bool.eq_false_iff.mp plain), named]
  rfl

theorem segment?_of_key {t : Token} {key : Key} (part : t.isKeyPart = true)
    (taken : key? t ts = some (key, rest)) : segment? (t :: ts) = some (.key key, rest) := by
  rw [segment?_cons, if_pos part, taken]
  rfl

/-! ### Accesses -/

/-- An access is a method call, or attaches what is behind the dot. -/
theorem cases_accesses? {y : Expr} (h : accesses? x ts = some (y, rest)) :
    ((look ts).isSymbol .dot = false ∧ y = x ∧ rest = ts) ∨
    (∃ name args later, later.length < ts.length ∧
      accesses? (.call .method name args) later = some (y, rest)) ∨
    ∃ later z between, ts = .symbol .dot :: later ∧
      attach? x (look later) (later.drop 1) = some (z, between) ∧
      accesses? z between = some (y, rest) := by
  cases dot : (look ts).isSymbol .dot with
  | false =>
    rw [accesses?_of_no_dot x ts dot] at h
    cases h
    exact .inl ⟨rfl, rfl, rfl⟩
  | true =>
    refine .inr ?_
    cases ts with
    | nil => cases dot
    | cons t later =>
      obtain rfl : t = .symbol .dot := Token.isSymbol_iff.mp dot
      cases called : method? (look later) (later.drop 1) with
      | none =>
        rw [accesses?_of_attach rfl later x called] at h
        obtain ⟨⟨z, between⟩, attached, goesOn⟩ := Option.bind_eq_some_iff.mp h
        exact .inr ⟨later, z, between, rfl, attached, goesOn⟩
      | some name =>
        refine .inl ?_
        cases closed : (look (later.drop 2)).isSymbol .closeParen with
        | true =>
          rw [accesses?_of_empty_method rfl later x called closed] at h
          refine ⟨_, _, _, ?_, h⟩
          rw [List.length_drop, List.length_cons]
          omega
        | false =>
          rw [accesses?_of_method rfl later x called closed] at h
          obtain ⟨⟨args, between⟩, taken, goesOn⟩ := Option.bind_eq_some_iff.mp h
          have fewer := length_items? taken
          refine ⟨_, _, _, ?_, goesOn⟩
          rw [List.length_drop] at fewer
          rw [List.length_cons]
          omega

/-- A bracketed name that makes an identifier is a further segment of one. -/
theorem eq_of_attachName {name : String} (h : attachName x name = some (.identifier id)) :
    name ≠ "" ∧ ∃ start, x = .identifier start ∧ id = start.dotted (.name ⟨name, .quoted⟩) := by
  unfold attachName at h
  split at h
  · cases h
  · cases h
  · cases h
  · rename_i some _ _
    refine ⟨fun none => some (congrArg String.toList none), ?_⟩
    split at h
    · cases h
      exact ⟨_, rfl, rfl⟩
    · cases h

/-- A key that makes an identifier is a further segment of one. -/
theorem eq_of_attachKey {key : Key} (h : attachKey x key = some (.identifier id)) :
    ∃ start, x = .identifier start ∧ id = start.dotted (.key key) := by
  unfold attachKey at h
  split at h
  · cases h
  · split at h
    · cases h
      exact ⟨_, rfl, rfl⟩
    · cases h
    · cases h

/-- A key that is attached is taken as a segment is. -/
theorem exists_segment_of_attachKey {t : Token} (part : t.isKeyPart = true)
    (h : ((key? t ts).bind fun taken => (attachKey x taken.1).map fun y => (y, taken.2)) =
      some (.identifier id, rest)) :
    ∃ start segment, x = .identifier start ∧ id = start.dotted segment ∧
      segment? (t :: ts) = some (segment, rest) := by
  obtain ⟨⟨key, between⟩, taken, found⟩ := Option.bind_eq_some_iff.mp h
  obtain ⟨_, attached, made⟩ := Option.map_eq_some_iff.mp found
  cases made
  obtain ⟨start, rfl, rfl⟩ := eq_of_attachKey attached
  exact ⟨start, _, rfl, rfl, segment?_of_key part taken⟩

/-- What is attached makes an identifier of an identifier only, with the segment behind the dot. -/
theorem exists_segment_of_attach? {later : List Token}
    (h : attach? x (look later) (later.drop 1) = some (.identifier id, rest)) :
    ∃ start segment, x = .identifier start ∧ id = start.dotted segment ∧
      segment? later = some (segment, rest) := by
  cases later with
  | nil => cases h
  | cons t later =>
    change attach? x t later = _ at h
    cases t with
    | bracketed name =>
      obtain ⟨y, attached, made⟩ := Option.map_eq_some_iff.mp h
      cases made
      obtain ⟨some, start, rfl, rfl⟩ := eq_of_attachName attached
      exact ⟨start, _, rfl, rfl, segment?_of_name rfl (if_neg (mt String.isEmpty_iff.mp some))⟩
    | bracketedKey name | wordKey name => exact exists_segment_of_attachKey rfl h
    | _ =>
      simp only [attach?] at h
      obtain ⟨_, -, made⟩ := Option.map_eq_some_iff.mp h
      cases made

/-- Accesses that come to an identifier are further segments of one. -/
theorem moreSegments_of_accesses? (h : accesses? x ts = some (.identifier id, rest)) :
    ∃ start, x = .identifier start ∧ moreSegments start ts = some (id, rest) := by
  induction size : ts.length using Nat.strongRecOn generalizing x ts with
  | _ n ih =>
    obtain ⟨noDot, rfl, rfl⟩ | ⟨name, args, later, fewer, goesOn⟩ |
      ⟨later, z, between, rfl, attached, goesOn⟩ := cases_accesses? h
    · exact ⟨id, rfl, moreSegments_of_no_dot id _ noDot⟩
    · obtain ⟨start, call, -⟩ := ih _ (size ▸ fewer) goesOn rfl
      cases call
    · have fewer : between.length < n := by
        have kept := length_attach attached
        rw [List.length_drop] at kept
        rw [← size, List.length_cons]
        omega
      obtain ⟨_, rfl, more⟩ := ih _ fewer goesOn rfl
      obtain ⟨start, segment, rfl, rfl, taken⟩ := exists_segment_of_attach? attached
      refine ⟨start, rfl, ?_⟩
      rw [moreSegments_dot, taken]
      exact more

/-! ### Whole identifiers -/

theorem eq_of_nameOrFunction? {name : String}
    (h : nameOrFunction? name ts = some (.identifier id, rest)) :
    id = .ofName ⟨name, .bare⟩ ∧ rest = ts := by
  rw [nameOrFunction?_eq] at h
  split at h
  · split at h
    · cases h
    · obtain ⟨_, -, made⟩ := Option.map_eq_some_iff.mp h
      cases made
  · cases h
    exact ⟨rfl, rfl⟩

theorem choice?_ne_identifier : choice? ts ≠ some (.identifier id, rest) := by
  intro h
  rw [choice?_eq] at h
  split at h
  · obtain ⟨_, -, made⟩ := Option.map_eq_some_iff.mp h
    cases made
  · obtain ⟨⟨y, between⟩, -, found⟩ := Option.bind_eq_some_iff.mp h
    obtain ⟨-, found⟩ := Option.ite_none_right_eq_some.mp found
    obtain ⟨_, -, made⟩ := Option.map_eq_some_iff.mp found
    cases made

theorem typed?_ne_identifier : typed? ts ≠ some (.identifier id, rest) := by
  intro h
  rw [typed?_eq] at h
  obtain ⟨-, found⟩ := Option.ite_none_right_eq_some.mp h
  obtain ⟨⟨y, between⟩, -, found⟩ := Option.bind_eq_some_iff.mp found
  obtain ⟨_, -, made⟩ := Option.map_eq_some_iff.mp found
  cases made

/-- A primary that is an identifier is a single segment, unless it is in parentheses. -/
theorem exists_segment_of_primary? {t : Token} (noParen : t ≠ .symbol .openParen)
    (h : primary? t ts = some (.identifier id, rest)) :
    ∃ segment, id = .single segment ∧ segment? (t :: ts) = some (segment, rest) := by
  cases t with
  | word name =>
    rw [primary?_word] at h
    obtain ⟨rfl, rfl⟩ := eq_of_nameOrFunction? h
    exact ⟨_, rfl, rfl⟩
  | keyword k spelling =>
    rw [primary?_keyword] at h
    split at h
    · cases h
    · split at h
      · exact absurd h choice?_ne_identifier
      · split at h
        · exact absurd h typed?_ne_identifier
        · split at h
          · cases h
          · rename_i free
            obtain ⟨rfl, rfl⟩ := eq_of_nameOrFunction? h
            exact ⟨_, rfl, segment?_of_name rfl ((name?_keyword k spelling).trans (if_neg free))⟩
  | bracketed name =>
    rw [primary?_bracketed] at h
    obtain ⟨some, made⟩ := Option.ite_none_left_eq_some.mp h
    cases made
    exact ⟨_, rfl, segment?_of_name rfl (if_neg some)⟩
  | bracketedKey name | wordKey name =>
    rw [primary?_of_isKeyPart ts rfl] at h
    obtain ⟨⟨key, between⟩, taken, made⟩ := Option.map_eq_some_iff.mp h
    cases made
    exact ⟨_, rfl, segment?_of_key rfl taken⟩
  | symbol s =>
    by_cases brace : s = .openBrace
    · subst brace
      rw [primary?_openBrace] at h
      split at h
      · cases h
      · obtain ⟨_, -, made⟩ := Option.map_eq_some_iff.mp h
        cases made
    · rw [primary?_symbol ts (fun same => noParen (congrArg Token.symbol same)) brace] at h
      cases h
  | number value =>
    rw [primary?_number] at h
    cases h
  | string value quote =>
    rw [primary?_string] at h
    cases h
  | endOfText =>
    rw [primary?_endOfText] at h
    cases h

/-- **An expression that is an identifier was taken like an identifier**, unless it begins with a
parenthesis. -/
theorem identifier?_of_expr (noParen : look ts ≠ .symbol .openParen)
    (h : expr? cast m ts = some (.identifier id, rest)) : identifier? ts = some (id, rest) := by
  rw [expr?_eq] at h
  obtain ⟨⟨x, between⟩, taken, climbed⟩ := Option.bind_eq_some_iff.mp h
  obtain ⟨rfl, rfl⟩ := eq_of_climb? climbed
  obtain ⟨t, later, rfl, ⟨operator, args, -, call⟩ | ⟨x, between, first, accessed⟩⟩ :=
    cases_operand? taken
  · cases call
  · obtain ⟨start, rfl, more⟩ := moreSegments_of_accesses? accessed
    obtain ⟨segment, rfl, single⟩ := exists_segment_of_primary? (t := t) noParen first
    unfold identifier?
    rw [single]
    exact more

end MdxReader.Descent
