import MdxReader.Proofs.Meaning

/-!
# The engine reads by precedence

Every step of an engine keeps its meaning, whatever the limit on nesting, as long as the limit lets
it pass (`Engine.means_step`).  So the reading of an expression yields what recursive descent reads
from the tokens ahead (`ReadM.yields_expression`).
-/

namespace MdxReader

open Descent ReadM

namespace Engine

variable {e : Engine} {r : Reader}

/-! ### Operands -/

theorem meaning_of_operand (waits : e.phase = .operand) (ts : List Token) :
    e.meaning ts = (e.nextItem? ts).bind fun (x, rest) => e.close? x rest := by
  unfold meaning
  rw [waits]

/-- Where no argument is left out and no operator comes first, a primary comes. -/
theorem meaning_of_primary (waits : e.phase = .operand) {t : Token} (ts : List Token)
    (starts : Operator.leading? t = none)
    (present : ((t.isSymbol .comma || t.isSymbol .closeParen) && e.top.acceptsGap) = false) :
    e.meaning (t :: ts) = (primary? t ts).bind fun (x, rest) =>
      resume? (e.top :: e.below) x rest := by
  rw [meaning_of_operand waits, nextItem?, if_neg, operand?_of_primary ts starts]
  · simp only [Option.bind_assoc, resume?_cons]
    rfl
  · rw [Bool.and_comm]
    exact Bool.eq_false_iff.mp present

/-- A new level reads what its frame reads. -/
theorem meaning_start (frame : Frame) (inner : frame ≠ .whole) (height : Nat)
    (below : List Level) (levels : Nat) (h : levels = below.length + 1) (ts : List Token) :
    (Engine.mk (.start frame height) below .operand levels h).meaning ts =
      (frame.read? ts).bind fun (x, rest) => resume? below x rest := by
  have item : (Engine.mk (.start frame height) below .operand levels h).nextItem? ts =
      frame.item? ts := by
    -- A new level has no operator waiting, so its next item is a whole expression.
    unfold nextItem? Frame.item?
    simp only [Level.acceptsGap, Level.start, List.isEmpty_nil, Bool.and_true]
    split
    · rfl
    · rw [expr?_eq]
      congr 1
      funext x
      simp only [Level.unwind?, unwind, List.map_nil, List.isEmpty_nil, if_true]
      exact Option.bind_fun_some _
  rw [meaning_of_operand rfl, item, Frame.read?, Option.bind_assoc]
  congr 1
  funext x
  exact close?_of_ne inner below x.1 x.2

theorem means_enter (frame : Frame) (inner : frame ≠ .whole) (height : Nat)
    {v : Option (Expr × List Token)}
    (h : ((frame.read? r.tokens).bind fun (x, rest) => resume? (e.top :: e.below) x rest) = v) :
    Means (e.enter frame height) meaning v r := by
  unfold enter
  refine Means.checkHeight (Means.note (Means.pure ?_))
  rw [meaning_start _ inner]
  exact h

theorem means_nameOrFunction (e : Engine) (name : String) (r : Reader) :
    Means (e.nameOrFunction name) meaning
      ((nameOrFunction? name r.tokens).bind fun (x, rest) => resume? (e.top :: e.below) x rest)
      r := by
  unfold nameOrFunction
  rw [nameOrFunction?_eq]
  refine Means.atSymbol (fun opens => ?_) fun plain => ?_
  · refine Means.advance (Token.ne_endOfText_of_isSymbol opens) fun after moved => ?_
    have opened : (look r.tokens).isSymbol .openParen = true := opens
    rw [if_pos opened, moved]
    simp only [List.drop_succ_cons, List.drop_zero]
    refine Means.atSymbol (fun closes => ?_) fun further => ?_
    · refine Means.advance (Token.ne_endOfText_of_isSymbol closes) fun last left => Means.pure ?_
      have closed : (look after.tokens).isSymbol .closeParen = true := closes
      -- A call without arguments is complete and opens no level.
      rw [if_pos closed, left]
      rfl
    · have open' : (look after.tokens).isSymbol .closeParen = false := further
      refine means_enter _ (by nofun) _ ?_
      rw [if_neg (Bool.eq_false_iff.mp open'), after.tokens_eq, Frame.read?_items]
      rfl
  · have absent : (look r.tokens).isSymbol .openParen = false := plain
    rw [if_neg (Bool.eq_false_iff.mp absent)]
    exact Means.pure rfl

/-- A literal, an identifier, or the start of a function call; a bracket, `CASE` and `CAST` come
before it in `operandStep`. -/
theorem means_atom (e : Engine) (r : Reader)
    (bracketless : ∀ s, r.token = .symbol s → s ≠ .openParen ∧ s ≠ .openBrace)
    (plain : ∀ k w, r.token = .keyword k w → k ≠ .CASE ∧ k ≠ .CAST) :
    Means e.atom meaning
      ((primary? r.token (r.tokens.drop 1)).bind fun (x, rest) =>
        resume? (e.top :: e.below) x rest) r := by
  unfold atom
  refine Means.get ?_
  by_cases ended : r.token = .endOfText
  · -- There is no token to move past, and whatever comes of it, an error follows.
    rw [ended, primary?_endOfText]
    refine Means.of_failing (fun next after found => ?_) rfl
    obtain ⟨_, _, _, thrown⟩ := bind_eq_ok found
    cases thrown
  · refine Means.advance ended fun after moved => ?_
    rw [moved, List.drop_succ_cons, List.drop_zero]
    cases token : r.token with
    | number value =>
      rw [primary?_number]
      exact Means.pure rfl
    | string value quote =>
      rw [primary?_string]
      exact Means.pure rfl
    | word name =>
      rw [primary?_word]
      exact e.means_nameOrFunction name after
    | keyword k spelling =>
      obtain ⟨notCase, notCast⟩ := plain k spelling token
      rw [primary?_keyword, if_neg notCase, if_neg notCast]
      simp only
      by_cases null : k = .NULL
      · rw [if_pos null, if_pos null]
        exact Means.pure rfl
      · rw [if_neg null, if_neg null]
        cases reserved : k.isReserved with
        | true => exact Means.throw rfl
        | false => exact e.means_nameOrFunction spelling after
    | bracketed name =>
      rw [primary?_bracketed]
      simp only
      cases empty : name.isEmpty with
      | true => exact Means.throw rfl
      | false => exact Means.pure rfl
    -- A key starts here and may have further parts.
    | bracketedKey name | wordKey name =>
      rw [primary?_of_isKeyPart _ rfl]
      refine Means.bind (yields_keyFrom _ _ after) (fun key last found => Means.pure ?_)
        fun found => ?_
      · rw [found]
        rfl
      · rw [found]
        rfl
    | symbol s =>
      obtain ⟨paren, brace⟩ := bracketless s token
      rw [primary?_symbol _ paren brace]
      exact Means.throw rfl
    | endOfText => exact absurd token ended

theorem fixity_of_leading {t : Token} {operator : Operator}
    (h : Operator.leading? t = some operator) : operator.fixity = .before := by
  unfold Operator.leading? at h
  split at h <;> cases h <;> rfl

/-- An operator that waits is completed with the next operand. -/
theorem meaning_await (e : Engine) (operator : Operator) (ts : List Token) :
    (e.await operator).meaning ts =
      ((operand? e.top.frame.isCast ts).bind fun (x, rest) =>
        unwind e.top.frame.isCast (operator :: e.top.operators) (e.top.operands.map Node.expr) x
          rest).bind fun (x, rest) => e.close? x rest := by
  have present : (e.await operator).top.acceptsGap = false := by
    simp [await, Level.acceptsGap, Level.pushOperator]
  rw [meaning_of_operand rfl, nextItem?, present]
  rfl

/-- An operator in front binds the expression behind it. -/
theorem meaning_of_leading (waits : e.phase = .operand) {t : Token} {operator : Operator}
    (ts : List Token) (found : Operator.leading? t = some operator) :
    e.meaning (t :: ts) = (e.await operator).meaning ts := by
  have present : (t.isSymbol .comma || t.isSymbol .closeParen) = false := by
    unfold Operator.leading? at found
    split at found <;> first | rfl | cases found
  rw [meaning_of_operand waits, meaning_await, nextItem?, if_neg]
  · rw [operand?_of_leading ts found, expr?_eq]
    simp only [unwind, Operator.combine?, fixity_of_leading found, Option.bind_some,
      Option.bind_assoc, Option.map_bind, Function.comp_apply, Option.bind_map]
    rfl
  · change ¬ (e.top.acceptsGap && (t.isSymbol .comma || t.isSymbol .closeParen)) = true
    rw [present, Bool.and_false]
    exact Bool.false_ne_true

/-- An argument that is left out is complete at once. -/
theorem meaning_of_gap (e : Engine) (waits : e.phase = .operand) {t : Token} (ts : List Token)
    (gap : ((t.isSymbol .comma || t.isSymbol .closeParen) && e.top.acceptsGap) = true) :
    (e.push (.leaf .elided)).meaning (t :: ts) = e.meaning (t :: ts) := by
  obtain ⟨ends, accepts⟩ := Bool.and_eq_true_iff.mp gap
  -- A gap is accepted only where an argument would begin.
  have empty : e.top.operands = [] ∧ e.top.operators = [] := by
    simp only [Level.acceptsGap, Bool.and_eq_true, List.isEmpty_iff] at accepts
    exact ⟨accepts.1.2, accepts.2⟩
  have quiet : upcoming e.top.frame.isCast (t :: ts) = .nothing := by
    simp only [Bool.or_eq_true, Token.isSymbol_iff] at ends
    rcases ends with rfl | rfl <;> rfl
  rw [meaning_of_operand waits, nextItem?, if_pos (by rw [Bool.and_comm]; exact gap)]
  unfold meaning push
  simp only [Level.push, empty.1, empty.2, unwindAll, unwind, climb?_of_nothing _ quiet]
  rfl

/-- **A step at an operand keeps the meaning.** -/
theorem means_operandStep (e : Engine) (r : Reader) (waits : e.phase = .operand) :
    Means e.operandStep meaning (e.meaning r.tokens) r := by
  unfold operandStep
  refine Means.get ?_
  rw [r.tokens_eq]
  -- The cases are those of `operandStep`, in its order.
  cases leads : Operator.leading? r.token with
  | some operator =>
    have more : r.token ≠ .endOfText := by
      rintro ended
      rw [ended] at leads
      cases leads
    refine Means.checkHeight (Means.advance more fun after moved => Means.pure ?_)
    rw [meaning_of_leading waits _ leads, moved]
    rfl
  | none =>
    simp only
    by_cases paren : r.token.isSymbol .openParen = true
    · rw [if_pos paren]
      have token := Token.isSymbol_iff.mp paren
      refine Means.advance (Token.ne_endOfText_of_isSymbol paren) fun after moved => ?_
      refine means_enter _ (by nofun) _ ?_
      rw [meaning_of_primary waits _ leads (by rw [token]; rfl), moved, token, after.tokens_eq]
      rw [Frame.read?_parens]
      rfl
    rw [if_neg paren]
    by_cases brace : r.token.isSymbol .openBrace = true
    · rw [if_pos brace]
      have token := Token.isSymbol_iff.mp brace
      refine Means.advance (Token.ne_endOfText_of_isSymbol brace) fun after moved => ?_
      rw [meaning_of_primary waits _ leads (by rw [token]; rfl), moved, token]
      simp only [List.drop_succ_cons, List.drop_zero]
      refine Means.atSymbol (fun closes => ?_) fun further => ?_
      · -- The empty set.
        have closed : (look after.tokens).isSymbol .closeBrace = true := closes
        refine Means.advance (Token.ne_endOfText_of_isSymbol closes) fun last left => Means.pure ?_
        rw [primary?_openBrace, if_pos closed, left]
        rfl
      · refine means_enter _ (by nofun) _ ?_
        rw [after.tokens_eq, Frame.read?_braces _ further]
    rw [if_neg brace]
    by_cases isCase : r.token.isKeyword .CASE = true
    · rw [if_pos isCase]
      obtain ⟨spelling, token⟩ := Token.isKeyword_iff.mp isCase
      refine Means.advance (Token.ne_endOfText_of_isKeyword isCase) fun after moved => ?_
      rw [meaning_of_primary waits _ leads (by rw [token]; rfl), moved, token, primary?_keyword]
      simp only [reduceCtorEq, if_true, if_false, List.drop_succ_cons, List.drop_zero]
      refine Means.atKeyword (fun conditional => ?_) fun further => ?_
      · have tested : (look after.tokens).isKeyword .WHEN = true := conditional
        refine Means.advance (Token.ne_endOfText_of_isKeyword conditional) fun last left => ?_
        refine means_enter _ (by nofun) _ ?_
        rw [choice?_eq, if_pos tested, left, Frame.read?_condition]
        rfl
      · refine means_enter _ (by nofun) _ ?_
        rw [Frame.read?_operand after.tokens further]
    rw [if_neg isCase]
    by_cases isCast : r.token.isKeyword .CAST = true
    · rw [if_pos isCast]
      obtain ⟨spelling, token⟩ := Token.isKeyword_iff.mp isCast
      refine Means.advance (Token.ne_endOfText_of_isKeyword isCast) fun after moved => ?_
      rw [meaning_of_primary waits _ leads (by rw [token]; rfl), moved, token, primary?_keyword]
      simp only [reduceCtorEq, if_true, if_false, List.drop_succ_cons, List.drop_zero]
      refine Means.expectClosing (fun opens last left => ?_) fun absent => ?_
      · refine means_enter _ (by nofun) _ ?_
        rw [left, Frame.read?_cast _ opens]
      · have missing : (look after.tokens).isSymbol .openParen = false := absent
        rw [typed?_eq, if_neg (Bool.eq_false_iff.mp missing)]
        rfl
    rw [if_neg isCast]
    by_cases gap : ((r.token.isSymbol .comma || r.token.isSymbol .closeParen) &&
        e.top.acceptsGap) = true
    · rw [if_pos gap]
      exact Means.pure (e.meaning_of_gap waits _ gap)
    · rw [if_neg gap, meaning_of_primary waits _ leads (Bool.eq_false_iff.mpr gap)]
      refine e.means_atom r (fun s token => ⟨?_, ?_⟩) fun k w token => ⟨?_, ?_⟩
      all_goals rintro rfl
      · exact paren (Token.isSymbol_iff.mpr token)
      · exact brace (Token.isSymbol_iff.mpr token)
      · exact isCase (Token.isKeyword_iff.mpr ⟨w, token⟩)
      · exact isCast (Token.isKeyword_iff.mpr ⟨w, token⟩)

/-! ### Accesses -/

/-- What is left of the accesses behind `x` after one of them. -/
def resumeAccess (x : Expr) : Access → List Token → Option (Expr × List Token)
  | .reached next, ts => accesses? next.expr ts
  | .method name, ts =>
    (items? true .closeParen ts).bind fun (args, rest) =>
      accesses? (.call .method name (x :: args)) rest

section Access

variable {dot t : Token} (isDot : dot.isSymbol .dot = true) {receiver : Node}

include isDot

/-- A name behind a dot is a method where an argument list follows. -/
theorem means_methodOr {name : Name} (held : name? t = some name) {plain : ReadM Access}
    (h : Means plain (resumeAccess receiver.expr)
      ((attach? receiver.expr t r.tokens).bind fun (y, rest) => accesses? y rest) r) :
    Means (methodOr receiver name.text plain) (resumeAccess receiver.expr)
      (accesses? receiver.expr (dot :: t :: r.tokens)) r := by
  unfold methodOr
  refine Means.atSymbol (fun opens => ?_) fun absent => ?_
  · have called : method? t r.tokens = some name.text := by
      unfold method?
      rw [r.look_tokens, if_pos opens, held]
      rfl
    refine Means.advance (Token.ne_endOfText_of_isSymbol opens) fun after moved => ?_
    rw [moved] at called ⊢
    refine Means.atSymbol (fun closes => ?_) fun further => ?_
    · refine Means.advance (Token.ne_endOfText_of_isSymbol closes) fun last left => Means.pure ?_
      rw [accesses?_of_empty_method isDot (t :: r.token :: after.tokens) _ called closes, left]
      rfl
    · rw [accesses?_of_method isDot (t :: r.token :: after.tokens) _ called further]
      exact Means.pure rfl
  · -- Without a parenthesis behind it the name is attached, whatever it is.
    have plainly : method? t r.tokens = none := by
      unfold method?
      rw [r.look_tokens, if_neg (Bool.eq_false_iff.mp absent)]
    rw [accesses?_of_attach isDot (t :: r.tokens) _ plainly]
    exact h

/-- What holds no name is attached. -/
theorem accesses?_of_nameless (x : Expr) (ts : List Token) (nameless : name? t = none) :
    accesses? x (dot :: t :: ts) = (attach? x t ts).bind fun (y, rest) => accesses? y rest := by
  have plainly : method? t ts = none := by
    unfold method?
    rw [nameless]
    split <;> rfl
  exact accesses?_of_attach isDot (t :: ts) x plainly

end Access

theorem toOption_bracketedAccess (receiver : Node) {name : String} (place : Position)
    (named : name.isEmpty = false) :
    (bracketedAccess receiver name place).toOption.map Node.expr =
      attachName receiver.expr name := by
  unfold bracketedAccess attachName
  split
  · rename_i single
    rw [single]
    rfl
  · rename_i stripped more keyed
    rw [keyed]
    cases stripped with
    | nil => exact absurd rfl more
    | cons c cs => rfl
  · rename_i single keyed
    symm
    split
    · rename_i empty
      simp [String.toList_eq_nil_iff.mp empty] at named
    · rename_i found
      exact absurd found single
    · rename_i found
      exact absurd found (keyed _)
    · -- Neither an ampersand alone nor one in front: an ordinary name.
      obtain ⟨x, height⟩ := receiver
      cases x <;> rfl

theorem toOption_keyAccess (receiver : Node) (key : Key) (place : Position) :
    (keyAccess receiver key place).toOption.map Node.expr = attachKey receiver.expr key := by
  obtain ⟨⟨text, quoting⟩, more⟩ := key
  obtain ⟨x, height⟩ := receiver
  cases more with
  | nil =>
    cases quoting with
    | bare => rfl
    | quoted => cases x <;> rfl
  | cons part parts => cases quoting <;> cases x <;> rfl

/-- **What follows a dot** is what recursive descent reads there. -/
theorem means_memberAccess {dot : Token} (isDot : dot.isSymbol .dot = true) (receiver : Node)
    (r : Reader) :
    Means (memberAccess receiver) (resumeAccess receiver.expr)
      (accesses? receiver.expr (dot :: r.tokens)) r := by
  unfold memberAccess
  refine Means.get ?_
  by_cases ended : r.token = .endOfText
  · -- Both readings want something behind the dot.
    rw [ended, r.tokens_eq, ended, accesses?_of_nameless isDot _ _ rfl]
    refine Means.of_failing (fun next after found => ?_) rfl
    obtain ⟨_, _, _, thrown⟩ := bind_eq_ok found
    cases thrown
  refine Means.advance ended fun after moved => ?_
  rw [moved]
  cases token : r.token with
  | word name =>
    have held : name? (.word name) = some ⟨name, .bare⟩ := rfl
    exact means_methodOr isDot held (Means.pure rfl)
  | keyword k spelling =>
    simp only
    cases reserved : k.isReserved with
    | true =>
      have nameless : name? (.keyword k spelling) = none :=
        (name?_keyword k spelling).trans (if_pos reserved)
      rw [accesses?_of_nameless isDot _ _ nameless]
      refine Means.throw ?_
      simp only [attach?, nameless, Option.map_none, Option.bind_none]
    | false =>
      have held : name? (.keyword k spelling) = some ⟨spelling, .bare⟩ := by
        simp only [name?_keyword, reserved, Bool.false_eq_true, if_false]
      refine means_methodOr isDot held (Means.pure ?_)
      simp only [attach?, held, Option.map_some, Option.bind_some]
      rfl
  | bracketed name =>
    simp only
    cases named : name.isEmpty with
    | true =>
      have nameless : name? (.bracketed name) = none := if_pos named
      have unattached : attachName receiver.expr name = none := by
        rw [String.isEmpty_iff.mp named]
        rfl
      rw [accesses?_of_nameless isDot _ _ nameless]
      refine Means.throw ?_
      simp only [attach?, unattached, Option.map_none, Option.bind_none]
    | false =>
      have held : name? (.bracketed name) = some ⟨name, .quoted⟩ := by
        simp only [name?, named, Bool.false_eq_true, if_false]
      refine means_methodOr isDot held ?_
      rw [attach?, ← toOption_bracketedAccess receiver r.place named]
      refine Means.judge rfl (fun node found => Means.pure ?_) fun found => ?_
      · rw [found]
        rfl
      · rw [found]
        rfl
  | bracketedKey name | wordKey name =>
    rw [accesses?_of_nameless isDot _ _ rfl, attach?]
    refine Means.bind (yields_keyFrom _ _ after) (fun key last read => ?_) fun read => ?_
    · simp only [read, Option.bind_some]
      rw [← toOption_keyAccess receiver key r.place]
      refine Means.judge rfl (fun node found => Means.pure ?_) fun found => ?_
      · rw [found]
        rfl
      · rw [found]
        rfl
    · rw [read]
      rfl
  | endOfText => exact absurd token ended
  | number _ | string _ _ | symbol _ =>
    rw [accesses?_of_nameless isDot _ _ rfl]
    exact Means.throw rfl

/-- **A step at an access keeps the meaning.** -/
theorem means_accessStep (e : Engine) (node : Node) (r : Reader) :
    Means (e.accessStep node) meaning (resume? (e.top :: e.below) node.expr r.tokens) r := by
  unfold accessStep
  rw [resume?_cons]
  refine Means.atSymbol (fun dot => ?_) fun absent => ?_
  · refine Means.advance (Token.ne_endOfText_of_isSymbol dot) fun after moved => ?_
    rw [moved]
    refine Means.chain (means_memberAccess dot node after) (fun access last found => ?_)
      fun none => ?_
    · rw [← found]
      cases access with
      | reached next => exact Means.checkHeight (Means.pure rfl)
      | method name =>
        refine means_enter _ (by nofun) _ ?_
        rw [last.tokens_eq, Frame.read?_items]
        simp only [Option.bind_map, resumeAccess, Option.bind_assoc, resume?_cons]
        rfl
    · rw [none]
      rfl
  · rw [accesses?_of_no_dot _ r.tokens absent]
    exact Means.checkHeight (Means.pure rfl)

/-! ### Operators -/

theorem meaning_of_operator (waits : e.phase = .operator) (ts : List Token) :
    e.meaning ts = (unwindAll e.top.frame.isCast e.top.operators e.top.operands ts).bind
      fun (x, rest) => e.close? x rest := by
  unfold meaning
  rw [waits]

theorem associativity_of_between {operator : Operator} (between : operator.fixity = .between) :
    operator.associativity = .left := by
  unfold Operator.associativity
  rw [between]

section Push

variable {operator : Operator} {more : Nat} {ts : List Token} (waits : e.phase = .operator)
  (found : upcoming e.top.frame.isCast ts = .operator operator more)

include waits found

/-- The operators that yield to the one that comes next can be applied first. -/
theorem meaning_of_reduce : e.meaning ts =
    ((reduce? operator.strength .left e.top.operators e.top.operands).bind
      fun (waiting, nodes) => unwindAll e.top.frame.isCast waiting nodes ts).bind
        fun (x, rest) => e.close? x rest := by
  rw [meaning_of_operator waits]
  rw [unwindAll_of_reduce fun m x strong => climb?_of_weak x found strong]

variable (left : r.tokens = ts.drop (more + 1))

include left

theorem means_pushBinary (between : operator.fixity = .between) (other : operator ≠ .named) :
    Means (e.pushBinary operator) Outcome.meaning (e.meaning ts) r := by
  unfold pushBinary Level.reduce?
  rw [meaning_of_reduce waits found, associativity_of_between between]
  cases reduced : reduce? operator.strength .left e.top.operators e.top.operands with
  | none => exact Means.failBreaking rfl
  | some lists =>
    obtain ⟨waiting, nodes⟩ := lists
    refine Means.checkHeight (Means.checkHeight (Means.pure ?_))
    simp only [Option.bind_some]
    -- Everything that is left binds less tightly, so the operator goes on top of it.
    rw [unwindAll_of_between found between other (threshold_lt_of_reduce reduced), ← left]
    exact meaning_await _ _ _

theorem means_pushTrailing (behind : operator.fixity = .after) :
    Means (e.pushTrailing operator) Outcome.meaning (e.meaning ts) r := by
  unfold pushTrailing Level.reduce?
  rw [meaning_of_reduce waits found]
  cases reduced : reduce? operator.strength .left e.top.operators e.top.operands with
  | none => exact Means.failBreaking rfl
  | some lists =>
    obtain ⟨waiting, nodes⟩ := lists
    simp only [Option.map_some, Option.bind_some]
    cases nodes with
    | nil =>
      rw [applied?_nil]
      exact Means.failBreaking rfl
    | cons node nodes =>
      simp only [Operator.applied?, behind]
      refine Means.checkHeight (Means.pure ?_)
      have climbed := climb?_of_after node.expr found (threshold_lt_of_reduce reduced) behind
      rw [← left] at climbed
      simp only [unwindAll]
      rw [unwind_congr waiting (nodes.map Node.expr) climbed]
      rfl

end Push

/-- `AS` names everything to its left. -/
theorem means_pushName (waits : e.phase = .operator) {more : Nat} {ts : List Token}
    (found : upcoming e.top.frame.isCast ts = .operator .named more)
    (left : r.tokens = ts.drop (more + 1)) :
    Means e.pushName Outcome.meaning (e.meaning ts) r := by
  unfold pushName Level.reduce?
  rw [meaning_of_reduce waits found]
  cases reduced : reduce? Operator.named.strength .left e.top.operators e.top.operands with
  -- The identifier is read before the stack is looked at; no outcome of it matters here.
  | none =>
    exact Means.bind (yields_identifier r) (fun id after read => Means.failBreaking rfl)
      fun _ => rfl
  | some lists =>
    obtain ⟨waiting, nodes⟩ := lists
    simp only [Option.map_some, Option.bind_some]
    cases nodes with
    | nil =>
      exact Means.bind (yields_identifier r) (fun id after read => Means.failBreaking rfl)
        fun _ => rfl
    | cons node nodes =>
      simp only [unwindAll]
      rw [unwind_of_named _ found (threshold_lt_of_reduce reduced), ← left]
      refine Means.bind (yields_identifier r) (fun id after read => ?_) fun read => ?_
      · rw [read]
        exact Means.checkHeight (Means.pure rfl)
      · rw [read]
        rfl

section Tests

variable {t : Token} (waits : e.phase = .operator)

include waits

/-- Nothing completes a `NOT` that is not followed by what it needs. -/
theorem meaning_of_dangling {ts : List Token}
    (found : upcoming e.top.frame.isCast ts = .dangling) : e.meaning ts = none := by
  rw [meaning_of_operator waits]
  unfold unwindAll
  split
  · cases e.top.operators <;> simp only [unwind, climb?_of_dangling _ found, Option.bind_none]
  · rfl

theorem means_identityStep (is : t.isKeyword .IS = true) :
    Means e.identityStep Outcome.meaning (e.meaning (t :: r.tokens)) r := by
  have found : upcoming e.top.frame.isCast (t :: r.tokens) = afterIs r.tokens := if_pos is
  unfold afterIs at found
  unfold identityStep nullTest
  refine Means.atKeyword_bind (fun null => ?_) fun notNull => ?_
  · rw [r.look_tokens, if_pos null] at found
    refine Means.advance (Token.ne_endOfText_of_isKeyword null) fun after moved => ?_
    rw [moved] at found ⊢
    exact means_pushTrailing waits found rfl rfl
  rw [r.look_tokens, if_neg (Bool.eq_false_iff.mp notNull)] at found
  refine Means.atKeyword_bind (fun empty => ?_) fun notEmpty => ?_
  · rw [if_pos empty] at found
    refine Means.advance (Token.ne_endOfText_of_isKeyword empty) fun after moved => ?_
    rw [moved] at found ⊢
    exact means_pushTrailing waits found rfl rfl
  rw [if_neg (Bool.eq_false_iff.mp notEmpty)] at found
  refine Means.atKeyword_bind (fun negated => ?_) fun positive => ?_
  · -- `IS NOT` has to go on with `NULL` or `EMPTY`.
    rw [if_pos negated] at found
    refine Means.nested (Means.advance (Token.ne_endOfText_of_isKeyword negated)
      fun after moved => ?_)
    rw [moved] at found ⊢
    simp only [List.drop_succ_cons, List.drop_zero, after.look_tokens] at found
    refine Means.atKeyword_bind (fun null => ?_) fun notNull => ?_
    · rw [if_pos null] at found
      refine Means.advance (Token.ne_endOfText_of_isKeyword null) fun last left => ?_
      rw [left] at found ⊢
      exact means_pushTrailing waits found rfl rfl
    rw [if_neg (Bool.eq_false_iff.mp notNull)] at found
    refine Means.atKeyword_bind (fun empty => ?_) fun notEmpty => ?_
    · rw [if_pos empty] at found
      refine Means.advance (Token.ne_endOfText_of_isKeyword empty) fun last left => ?_
      rw [left] at found ⊢
      exact means_pushTrailing waits found rfl rfl
    rw [if_neg (Bool.eq_false_iff.mp notEmpty)] at found
    exact Means.of_failing (fun _ _ thrown => nomatch thrown) (meaning_of_dangling waits found)
  · rw [if_neg (Bool.eq_false_iff.mp positive)] at found
    exact means_pushBinary waits found rfl rfl (by decide)

theorem means_negationStep (negated : t.isKeyword .NOT = true) :
    Means e.negationStep Outcome.meaning (e.meaning (t :: r.tokens)) r := by
  have found : upcoming e.top.frame.isCast (t :: r.tokens) = afterNot r.tokens := by
    obtain ⟨spelling, rfl⟩ := Token.isKeyword_iff.mp negated
    rfl
  unfold afterNot at found
  unfold negationStep
  refine Means.atKeyword (fun within => ?_) fun notWithin => ?_
  · rw [r.look_tokens, if_pos within] at found
    refine Means.advance (Token.ne_endOfText_of_isKeyword within) fun after moved => ?_
    rw [moved] at found ⊢
    exact means_pushBinary waits found rfl rfl (by decide)
  rw [r.look_tokens, if_neg (Bool.eq_false_iff.mp notWithin)] at found
  refine Means.atKeyword (fun matching => ?_) fun notMatching => ?_
  · rw [if_pos matching] at found
    refine Means.advance (Token.ne_endOfText_of_isKeyword matching) fun after moved => ?_
    rw [moved] at found ⊢
    exact means_pushBinary waits found rfl rfl (by decide)
  rw [if_neg (Bool.eq_false_iff.mp notMatching)] at found
  exact Means.failExpecting (meaning_of_dangling waits found)

end Tests

/-! ### The end of a level -/

theorem means_leave (e : Engine) (node : Node) {v : Option (Expr × List Token)}
    (h : resume? e.below node.expr r.tokens = v) :
    Means (e.leave node) Outcome.meaning v r := by
  unfold leave
  refine Means.checkHeight ?_
  split
  · rename_i outer below levels
    refine Means.note (Means.pure ?_)
    rw [levels] at h
    exact h
  · -- The outermost level is never left, it is finished.
    rename_i levels
    rw [levels] at h
    exact Means.failBreaking h.symm

/-- A level of a frame goes on with the next item. -/
theorem meaning_resume (e : Engine) {frame : Frame} (inner : frame ≠ .whole) (height : Nat)
    (ts : List Token) :
    (e.resume frame height).meaning ts =
      (frame.read? ts).bind fun (x, rest) => resume? e.below x rest :=
  meaning_start frame inner height e.below e.levels e.levels_eq ts

theorem means_closeItems (e : Engine) (bracket : Bracket) (items : List Expr) (x : Expr)
    (height : Nat) :
    Means (e.closeItems bracket (x :: items) height) Outcome.meaning
      (((Frame.items bracket items).complete? x r.tokens).bind fun (y, rest) =>
        resume? e.below y rest) r := by
  unfold closeItems Frame.complete?
  simp only
  rw [r.tokens_eq, moreItems?_eq]
  refine Means.atSymbol (fun comma => ?_) fun notComma => ?_
  · refine Means.advance (Token.ne_endOfText_of_isSymbol comma) fun after moved => Means.pure ?_
    rw [if_pos comma, moved]
    change (e.resume (.items bracket (x :: items)) height).meaning after.tokens = _
    -- The items found so far stand in the frame, the newest first.
    rw [meaning_resume _ (by nofun), after.tokens_eq, Frame.read?_items]
    simp only [Option.bind_map, Option.map_map, List.reverse_cons, List.append_assoc]
    rfl
  · rw [if_neg (Bool.eq_false_iff.mp notComma)]
    refine Means.expectClosing (fun closes after moved => ?_) fun absent => ?_
    · refine means_leave e _ ?_
      rw [if_pos closes, moved, expr_node, List.reverse_cons]
      rfl
    · rw [if_neg (Bool.eq_false_iff.mp absent)]
      rfl

theorem means_closeCast (e : Engine) (x : Expr) (height : Nat) :
    Means (e.closeCast x height) Outcome.meaning
      ((Frame.cast.complete? x r.tokens).bind fun (y, rest) => resume? e.below y rest) r := by
  unfold closeCast Frame.complete?
  simp only
  -- A comma has an error of its own, but no descent goes on with it either.
  refine Means.atSymbol (fun comma => Means.failBreaking ?_) fun notComma => ?_
  · rw [r.tokens_eq, Token.isSymbol_iff.mp comma]
    rfl
  refine Means.expectKeyword (fun named after moved => ?_) fun absent => ?_
  · refine Means.bind (yields_name after) (fun type last read => ?_) fun read => ?_
    · obtain ⟨found, held, made⟩ := Option.map_eq_some_iff.mp read
      obtain ⟨rfl, left⟩ := Prod.mk.inj made
      rw [moved, after.tokens_eq, left]
      have typed : castType? (r.token :: after.token :: last.tokens) =
          if last.token.isSymbol .closeParen then some found else none := by
        change (if (r.token.isKeyword .AS && last.token.isSymbol .closeParen) = true then
          name? after.token else none) = _
        rw [named, Bool.true_and, held]
      rw [typed]
      refine Means.expectClosing (fun closes final past => ?_) fun open' => ?_
      · rw [if_pos closes, past]
        exact means_leave e _ rfl
      · rw [if_neg (Bool.eq_false_iff.mp open')]
        rfl
    · have untyped : castType? r.tokens = none := by
        rw [Option.map_eq_none_iff] at read
        rw [moved, after.tokens_eq]
        unfold castType?
        split
        · exact read
        · rfl
      rw [untyped]
      rfl
  · have untyped : castType? r.tokens = none := by
      unfold castType?
      rw [r.look_tokens, absent]
      rfl
    rw [untyped]
    rfl

theorem means_closeCase (e : Engine) (operand : Option Expr) (branches : List (Expr × Expr))
    (stage : CaseStage) (x : Expr) (height : Nat) :
    Means (e.closeCase operand branches stage x height) Outcome.meaning
      (((Frame.case operand branches stage).complete? x r.tokens).bind fun (y, rest) =>
        resume? e.below y rest) r := by
  unfold closeCase Frame.complete?
  cases stage with
  | operand =>
    simp only
    rw [r.look_tokens]
    refine Means.expectKeyword (fun tested after moved => Means.pure ?_) fun absent => ?_
    · rw [if_pos tested, moved]
      change (e.resume _ height).meaning after.tokens = _
      rw [meaning_resume _ (by simp), Frame.read?_condition]
      rfl
    · rw [if_neg (Bool.eq_false_iff.mp absent)]
      rfl
  | condition =>
    simp only
    rw [r.tokens_eq, branchResult?_eq]
    refine Means.expectKeyword (fun decided after moved => Means.pure ?_) fun absent => ?_
    · rw [if_pos decided, moved]
      change (e.resume _ height).meaning after.tokens = _
      rw [meaning_resume _ (by simp), Frame.read?, Option.map_bind]
      rfl
    · rw [if_neg (Bool.eq_false_iff.mp absent)]
      rfl
  | result condition =>
    simp only
    rw [r.tokens_eq, moreBranches?_eq]
    refine Means.atKeyword (fun tested => ?_) fun untested => ?_
    · refine Means.advance (Token.ne_endOfText_of_isKeyword tested) fun after moved =>
        Means.pure ?_
      rw [if_pos tested, moved]
      change (e.resume _ height).meaning after.tokens = _
      rw [meaning_resume _ (by simp), Frame.read?_condition]
      simp only [Option.map_map, List.reverse_cons, List.append_assoc]
      rfl
    rw [if_neg (Bool.eq_false_iff.mp untested)]
    refine Means.atKeyword (fun other => ?_) fun last => ?_
    · refine Means.advance (Token.ne_endOfText_of_isKeyword other) fun after moved =>
        Means.pure ?_
      rw [if_pos other, moved]
      change (e.resume _ height).meaning after.tokens = _
      rw [meaning_resume _ (by simp), Frame.read?, Option.map_bind]
      congr 2
      funext z
      simp only [Frame.complete?, Function.comp_apply, List.reverse_cons]
      split <;> rfl
    rw [if_neg (Bool.eq_false_iff.mp last)]
    refine Means.atKeyword (fun ends => ?_) fun open' => ?_
    · refine Means.advance (Token.ne_endOfText_of_isKeyword ends) fun after moved => ?_
      refine means_leave e _ ?_
      rw [if_pos ends, moved, List.reverse_cons]
      rfl
    · rw [if_neg (Bool.eq_false_iff.mp open')]
      exact Means.failExpecting rfl
  | otherwise =>
    simp only
    rw [r.look_tokens]
    refine Means.expectKeyword (fun ends after moved => ?_) fun absent => ?_
    · rw [if_pos ends, moved]
      exact means_leave e _ rfl
    · rw [if_neg (Bool.eq_false_iff.mp absent)]
      rfl

theorem means_closeFrame (e : Engine) (x : Expr) (height : Nat) :
    Means (e.closeFrame x height) Outcome.meaning (e.close? x r.tokens) r := by
  unfold closeFrame Engine.close?
  cases e.top.frame with
  | whole => exact Means.pure rfl
  | items bracket items => exact e.means_closeItems bracket items x height
  | cast => exact e.means_closeCast x height
  | case operand branches stage => exact e.means_closeCase operand branches stage x height

/-- **The end of a level keeps the meaning**: no operator comes, so everything that waits is
applied. -/
theorem means_closeLevel (waits : e.phase = .operator)
    (quiet : upcoming e.top.frame.isCast r.tokens = .nothing) :
    Means e.closeLevel Outcome.meaning (e.meaning r.tokens) r := by
  unfold closeLevel Level.finish? Level.reduce?
  -- Where nothing comes next, no `climb` takes a token, not even at strength 0.
  rw [meaning_of_operator waits,
    unwindAll_of_reduce (fun m x (_ : 0 ≤ m) => climb?_of_nothing x quiet)]
  cases reduced : reduce? 0 .left e.top.operators e.top.operands with
  | none => exact Means.failBreaking rfl
  | some lists =>
    obtain ⟨waiting, nodes⟩ := lists
    obtain rfl := eq_nil_of_reduce reduced
    simp only [Option.map_some, Option.bind_some]
    cases nodes with
    | nil => exact Means.failBreaking rfl
    | cons node others =>
      simp only [unwindAll, unwind, climb?_of_nothing _ quiet, Option.bind_some]
      cases others with
      | nil => exact Means.checkHeight (e.means_closeFrame node.expr _)
      | cons other others => exact Means.failBreaking rfl

theorem expectsType_eq (e : Engine) : e.expectsType = e.top.frame.isCast := by
  unfold expectsType
  cases e.top.frame <;> rfl

theorem fixity_of_following {t : Token} {operator : Operator}
    (h : Operator.following? t = some operator) : operator.fixity = .between := by
  unfold Operator.following? at h
  split at h <;> cases h <;> rfl

/-- Behind neither `IS` nor `NOT`, the token alone decides which operator comes. -/
theorem upcoming_of_following (cast : Bool) {t : Token} (is : ¬ t.isKeyword .IS = true)
    (negated : ¬ t.isKeyword .NOT = true) (ts : List Token) :
    upcoming cast (t :: ts) = (Operator.following? t).elim .nothing fun operator =>
      if operator = .named ∧ cast = true then .nothing else .operator operator 0 := by
  rw [upcoming, if_neg is, if_neg negated, following?_eq]
  cases Operator.following? t with
  | none => rfl
  | some operator => cases operator <;> cases cast <;> rfl

/-- **A step at an operator keeps the meaning.** -/
theorem means_operatorStep (e : Engine) (r : Reader) (waits : e.phase = .operator) :
    Means e.operatorStep Outcome.meaning (e.meaning r.tokens) r := by
  unfold operatorStep
  refine Means.get ?_
  by_cases is : r.token.isKeyword .IS = true
  · rw [if_pos is]
    refine Means.advance (Token.ne_endOfText_of_isKeyword is) fun after moved => ?_
    rw [moved]
    exact means_identityStep waits is
  rw [if_neg is]
  by_cases negated : r.token.isKeyword .NOT = true
  · rw [if_pos negated]
    refine Means.advance (Token.ne_endOfText_of_isKeyword negated) fun after moved => ?_
    rw [moved]
    exact means_negationStep waits negated
  rw [if_neg negated]
  have comes := upcoming_of_following e.top.frame.isCast is negated (r.tokens.drop 1)
  rw [← r.tokens_eq] at comes
  have more {operator : Operator} (found : Operator.following? r.token = some operator) :
      r.token ≠ .endOfText := by
    rintro ended
    rw [ended] at found
    cases found
  split
  · -- `AS` names what stands before it, or ends the operand of a `CAST`.
    rename_i found
    simp only [found, Option.elim_some, true_and] at comes
    rw [expectsType_eq]
    cases cast : e.top.frame.isCast with
    | true => exact means_closeLevel waits (by rw [comes, cast]; rfl)
    | false =>
      have named : upcoming e.top.frame.isCast r.tokens = .operator .named 0 := by
        rw [comes, cast]
        rfl
      refine Means.advance (more found) fun after moved => ?_
      exact means_pushName waits named (by rw [moved]; rfl)
  · rename_i operator other found
    rw [found, Option.elim_some, if_neg fun both => other both.1] at comes
    refine Means.advance (more found) fun after moved => ?_
    exact means_pushBinary waits comes (by rw [moved]; rfl) (fixity_of_following found) other
  · rename_i found
    rw [found, Option.elim_none] at comes
    exact means_closeLevel waits comes

/-! ### Runs -/

/-- **Every step keeps the meaning.** -/
theorem means_step (e : Engine) (r : Reader) :
    Means e.step Outcome.meaning (e.meaning r.tokens) r := by
  unfold step
  cases phase : e.phase with
  | operand =>
    exact Means.chain (e.means_operandStep r phase) (fun _ _ kept => Means.pure kept) id
  | access node =>
    have waits : e.meaning r.tokens = resume? (e.top :: e.below) node.expr r.tokens := by
      unfold meaning
      rw [phase]
    rw [waits]
    exact Means.chain (e.means_accessStep node r) (fun _ _ kept => Means.pure kept) id
  | operator => exact e.means_operatorStep r phase

/-- **An engine reads what it means.** -/
theorem yields_run (e : Engine) (r : Reader) :
    Means e.run (fun node ts => some (node.expr, ts)) (e.meaning r.tokens) r := by
  -- The meaning is kept by the first step, and by induction by those that follow.
  induction bound : e.measure r using Nat.strongRecOn generalizing e r with
  | _ n ih =>
    have stepped := e.means_step r
    unfold Means at stepped ⊢
    rw [run_apply]
    cases found : e.step r with
    | ok outcome after =>
      rw [found] at stepped
      obtain ⟨kept, passes⟩ := stepped
      cases outcome with
      | more next =>
        have later := ih _ (bound ▸ measure_lt found) next after rfl
        unfold Means at later
        simp only
        cases finished : next.run after with
        | ok node last =>
          rw [finished] at later
          exact ⟨later.1.trans kept, passes.trans later.2⟩
        | error e last =>
          rw [finished] at later
          exact fun h => kept ▸ later (passes.clean h)
      | done node => exact ⟨kept, passes⟩
    | error e after =>
      rw [found] at stepped
      exact stepped

/-- An engine that was not run yet reads one expression. -/
theorem meaning_of_start (ts : List Token) : start.meaning ts = expr? false 0 ts := by
  have item : start.nextItem? ts =
      (operand? false ts).bind fun (x, rest) => unwind false [] [] x rest := rfl
  rw [meaning_of_operand rfl, item, expr?_eq, Option.bind_assoc]
  congr 1
  funext x
  simp only [unwind, List.isEmpty_nil, if_true]
  cases climb? false 0 x.1 x.2 <;> rfl

end Engine

/-- **The reading of an expression yields what recursive descent reads** from the tokens ahead, up
to the limit on nesting. -/
theorem ReadM.yields_expression (r : Reader) :
    Yields expression (expr? false 0 r.tokens) r := by
  unfold expression
  rw [← Engine.meaning_of_start]
  refine Means.chain (Engine.start.yields_run r) (fun node after kept => Means.pure kept) id

end MdxReader
