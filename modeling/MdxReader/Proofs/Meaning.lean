import MdxReader.Proofs.Descent.Equations
import MdxReader.Proofs.Tokens
import MdxReader.Reading.Expression

/-!
# What an engine is about to read

The levels of an engine are the calls that recursive descent would have open: an operator that
waits is a call of `Descent.climb` that waits for its right operand, a frame is a call that waits
for its next item.  `Engine.meaning e ts` finishes all of them by recursive descent, on the tokens
`ts`.  Every step of the engine keeps this meaning (`Engine.means_step`), so the engine and
recursive descent read the same (`ReadM.yields_expression`).

The stack of an engine is folded late: an operator stays on it although its operand is complete,
until one comes that binds no tighter.  Recursive descent returns from `climb` at once.  The two
agree since a `climb` that the next operator does not concern takes no token
(`unwindAll_of_reduce`).
-/

namespace MdxReader

open Descent ReadM

/-! ### Operators that wait -/

/-- The call of an operator on `x` and what stands to the left of it, newest first; the operands
that are left over come along. -/
def Operator.combine? (operator : Operator) (x : Expr) (operands : List Expr) :
    Option (Expr × List Expr) :=
  match operator.fixity, operands with
  | .before, rest => some (.call .leading operator.symbol [x], rest)
  | .after, rest => some (.call .trailing operator.symbol [x], rest)
  | .between, left :: rest => some (joined operator left x, rest)
  | .between, [] => none

/-- How tight an operator has to bind to go on with the newest operand. -/
def threshold : List Operator → Nat
  | [] => 0
  | operator :: _ => operator.strength

/-- Completes the operators that wait, newest first, with `x` as the operand of the newest. -/
def unwind (cast : Bool) : List Operator → List Expr → Expr → List Token →
    Option (Expr × List Token)
  | [], operands, x, ts =>
    (climb? cast 0 x ts).bind fun (y, rest) => if operands.isEmpty then some (y, rest) else none
  | operator :: waiting, operands, x, ts =>
    (climb? cast operator.strength x ts).bind fun (y, rest) =>
      (operator.combine? y operands).bind fun (z, operands) => unwind cast waiting operands z rest

/-- Completes the operators that wait where the newest operand is complete. -/
def unwindAll (cast : Bool) (waiting : List Operator) (operands : List Node) (ts : List Token) :
    Option (Expr × List Token) :=
  match operands with
  | node :: nodes => unwind cast waiting (nodes.map Node.expr) node.expr ts
  | [] => none

theorem applied?_nil (operator : Operator) : operator.applied? [] = none := by
  unfold Operator.applied?
  cases operator.fixity <;> rfl

/-- Applying an operator to nodes is combining their expressions. -/
theorem applied?_cons (operator : Operator) (node : Node) (nodes : List Node) :
    (operator.applied? (node :: nodes)).map (List.map Node.expr) =
      (operator.combine? node.expr (nodes.map Node.expr)).map fun (y, rest) => y :: rest := by
  unfold Operator.applied? Operator.combine?
  cases operator.fixity with
  | before => rfl
  | after => rfl
  | between =>
    cases nodes with
    | nil => rfl
    | cons left rest =>
      simp only [List.map_cons, joined_eq]
      split <;> rfl

/-- If nothing that comes next binds tighter, the newest operator that waits is applied. -/
theorem unwind_cons_of_climb {cast : Bool} {operator : Operator} {ts : List Token} (x : Expr)
    (waiting : List Operator) (operands : List Expr)
    (stops : climb? cast operator.strength x ts = some (x, ts)) :
    unwind cast (operator :: waiting) operands x ts =
      (operator.combine? x operands).bind fun (z, rest) => unwind cast waiting rest z ts := by
  rw [unwind, stops]
  rfl

/-- **Folding late changes nothing.**  If no `climb` at strength `q` or more takes a token, the
operators that yield to `q` can be applied first. -/
theorem unwindAll_of_reduce {cast : Bool} {q : Nat} {ts : List Token}
    (stops : ∀ m x, q ≤ m → climb? cast m x ts = some (x, ts)) (waiting : List Operator)
    (nodes : List Node) :
    unwindAll cast waiting nodes ts = (reduce? q .left waiting nodes).bind
      fun (waiting, nodes) => unwindAll cast waiting nodes ts := by
  induction waiting generalizing nodes with
  | nil => rfl
  | cons operator waiting ih =>
    unfold reduce?
    split
    · rename_i yields
      -- The newest operator yields, so its `climb` takes nothing and it can be applied at once.
      have strong : q ≤ operator.strength := of_decide_eq_true yields
      cases nodes with
      | nil => simp only [applied?_nil, unwindAll, Option.bind_none]
      | cons node nodes =>
        have applied := applied?_cons operator node nodes
        have unwound : unwindAll cast (operator :: waiting) (node :: nodes) ts = _ :=
          unwind_cons_of_climb node.expr waiting (nodes.map Node.expr) (stops _ node.expr strong)
        rw [unwound]
        cases found : operator.applied? (node :: nodes) with
        | none =>
          rw [found, Option.map_none, eq_comm, Option.map_eq_none_iff] at applied
          rw [applied]
          rfl
        | some reduced =>
          rw [found, Option.map_some, eq_comm, Option.map_eq_some_iff] at applied
          obtain ⟨⟨z, rest⟩, combined, exprs⟩ := applied
          rw [combined]
          simp only [Option.bind_some]
          rw [← ih reduced]
          cases reduced with
          | nil => cases exprs
          | cons first others =>
            obtain ⟨rfl, rfl⟩ := List.cons.inj exprs
            rfl
    · -- The newest operator waits, and `reduce?` stops before it.
      rfl

/-- What is left after a reduction yields no more. -/
theorem threshold_of_reduce {q : Nat} {waiting waiting' : List Operator} {nodes nodes' : List Node}
    (h : reduce? q .left waiting nodes = some (waiting', nodes')) :
    waiting' = [] ∨ threshold waiting' < q := by
  induction waiting generalizing nodes with
  | nil =>
    cases h
    exact .inl rfl
  | cons operator waiting ih =>
    unfold reduce? at h
    split at h
    · split at h
      · exact ih h
      · cases h
    · rename_i waits
      cases h
      exact .inr (Nat.lt_of_not_le fun strong => waits (decide_eq_true strong))

/-- Behind folding only operators wait that bind less tight. -/
theorem threshold_lt_of_reduce {operator : Operator} {waiting waiting' : List Operator}
    {nodes nodes' : List Node}
    (h : reduce? operator.strength .left waiting nodes = some (waiting', nodes')) :
    threshold waiting' < operator.strength := by
  rcases threshold_of_reduce h with rfl | weaker
  · -- With nothing waiting the threshold is 0, which no operator fails.
    exact operator.strength_pos
  · exact weaker

/-- Everything yields to the end of a level. -/
theorem eq_nil_of_reduce {waiting waiting' : List Operator} {nodes nodes' : List Node}
    (h : reduce? 0 .left waiting nodes = some (waiting', nodes')) : waiting' = [] :=
  (threshold_of_reduce h).resolve_right (Nat.not_lt_zero _)

/-- An unwinding begins with a climb. -/
theorem unwind_congr {cast : Bool} {x y : Expr} {ts us : List Token} (waiting : List Operator)
    (operands : List Expr)
    (h : climb? cast (threshold waiting) x ts = climb? cast (threshold waiting) y us) :
    unwind cast waiting operands x ts = unwind cast waiting operands y us := by
  cases waiting with
  | nil => simp only [unwind, threshold] at h ⊢; rw [h]
  | cons operator waiting => simp only [unwind, threshold] at h ⊢; rw [h]

/-- An operator between operands that nothing yields to goes on the stack. -/
theorem unwindAll_of_between {cast : Bool} {operator : Operator} {more : Nat} {ts : List Token}
    (found : upcoming cast ts = .operator operator more) (between : operator.fixity = .between)
    (other : operator ≠ .named) {waiting : List Operator}
    (weaker : threshold waiting < operator.strength) (nodes : List Node) :
    unwindAll cast waiting nodes ts = (operand? cast (ts.drop (more + 1))).bind
      fun (y, rest) => unwind cast (operator :: waiting) (nodes.map Node.expr) y rest := by
  cases nodes with
  | nil =>
    -- An operator between operands has nothing to its left, and both sides fail.
    simp only [unwindAll, List.map_nil, unwind, Operator.combine?, between, Option.bind_none]
    cases operand? cast (ts.drop (more + 1)) with
    | none => rfl
    | some y => simp only [Option.bind_fun_none]
  | cons node nodes =>
    simp only [unwindAll, List.map_cons]
    have climbed := climb?_of_between node.expr found weaker between other
    rw [expr?_eq, Option.bind_assoc] at climbed
    cases waiting with
    | nil =>
      simp only [threshold] at climbed
      simp only [unwind, climbed, Operator.combine?, between, Option.bind_assoc,
        Option.bind_some]
    | cons next waiting =>
      simp only [threshold] at climbed
      simp only [unwind, climbed, Operator.combine?, between, Option.bind_assoc,
        Option.bind_some]

/-- `AS` takes the identifier behind it. -/
theorem unwind_of_named {cast : Bool} {more : Nat} {ts : List Token} (x : Expr)
    (found : upcoming cast ts = .operator .named more) {waiting : List Operator}
    (weaker : threshold waiting < Operator.named.strength) (operands : List Expr) :
    unwind cast waiting operands x ts = (identifier? (ts.drop (more + 1))).bind fun (id, rest) =>
      unwind cast waiting operands (.call .binary Operator.named.symbol [x, .identifier id])
        rest := by
  have climbed := climb?_of_named x found weaker
  cases waiting with
  | nil =>
    simp only [threshold] at climbed
    simp only [unwind, climbed, Option.bind_assoc]
  | cons next waiting =>
    simp only [threshold] at climbed
    simp only [unwind, climbed, Option.bind_assoc]

/-! ### Frames -/

/-- The expression that a bracket makes of its items. -/
def Bracket.expr (bracket : Bracket) (items : List Expr) : Expr := (bracket.node items 0).expr

theorem expr_node (bracket : Bracket) (items : List Expr) (height : Nat) :
    (bracket.node items height).expr = bracket.expr items := by
  unfold Bracket.expr Bracket.node
  split <;> rfl

theorem parens_expr : ∀ items : List Expr, Bracket.parens.expr items = grouped items
  | [] => rfl
  | [_] => rfl
  | _ :: _ :: _ => rfl

namespace Frame

/-- The `AS` of a `CAST` is no alias. -/
def isCast : Frame → Bool
  | cast => true
  | _ => false

/-- The next item of a frame. -/
def item? (frame : Frame) (ts : List Token) : Option (Expr × List Token) :=
  if frame.hasArguments && ((look ts).isSymbol .comma || (look ts).isSymbol .closeParen) then
    some (.elided, ts)
  else expr? frame.isCast 0 ts

/-- What a frame makes of its next item `x`, of those that follow and of its end. -/
def complete? (frame : Frame) (x : Expr) (ts : List Token) : Option (Expr × List Token) :=
  match frame with
  | whole => some (x, ts)
  | items bracket found =>
    (moreItems? bracket.hasArguments bracket.closing x ts).map fun (xs, rest) =>
      (bracket.expr (found.reverse ++ xs), rest)
  | cast =>
    (castType? ts).map fun type => (.call .cast "CAST" [x, .typeName type.text], ts.drop 3)
  | case operand found stage =>
    match stage with
    | .operand =>
      if (look ts).isKeyword .WHEN then
        (branches? (ts.drop 1)).map fun ((more, otherwise), rest) =>
          (.choice (some x) (found.reverse ++ more) otherwise, rest)
      else none
    | .condition =>
      (branchResult? x ts).map fun ((more, otherwise), rest) =>
        (.choice operand (found.reverse ++ more) otherwise, rest)
    | .result condition =>
      (moreBranches? condition x ts).map fun ((more, otherwise), rest) =>
        (.choice operand (found.reverse ++ more) otherwise, rest)
    | .otherwise =>
      if (look ts).isKeyword .END then
        some (.choice operand found.reverse (some x), ts.drop 1)
      else none

/-- What a frame makes of the tokens from its next item on. -/
def read? (frame : Frame) (ts : List Token) : Option (Expr × List Token) :=
  (frame.item? ts).bind fun (x, rest) => frame.complete? x rest

/-- A frame of items reads on behind those it has. -/
theorem read?_items (bracket : Bracket) (found : List Expr) (t : Token) (ts : List Token) :
    (items bracket found).read? (t :: ts) =
      (items? bracket.hasArguments bracket.closing (t :: ts)).map fun (xs, rest) =>
        (bracket.expr (found.reverse ++ xs), rest) := by
  rw [items?_eq, read?]
  by_cases gap : (bracket.hasArguments && (t.isSymbol .comma || t.isSymbol .closeParen)) = true
  · have first : (items bracket found).item? (t :: ts) = some (.elided, t :: ts) := if_pos gap
    rw [first, if_pos gap]
    rfl
  · have first : (items bracket found).item? (t :: ts) = expr? false 0 (t :: ts) := if_neg gap
    rw [first, if_neg gap, Option.map_bind]
    rfl

/-- A `CASE` that waits for a condition reads on with its branches. -/
theorem read?_condition (operand : Option Expr) (found : List (Expr × Expr)) (ts : List Token) :
    (case operand found .condition).read? ts =
      (branches? ts).map fun ((more, otherwise), rest) =>
        (.choice operand (found.reverse ++ more) otherwise, rest) := by
  unfold read? item? complete?
  rw [branches?_eq, Option.map_bind]
  rfl

theorem read?_parens (t : Token) (ts : List Token) :
    (items .parens []).read? (t :: ts) = primary? (.symbol .openParen) (t :: ts) := by
  rw [read?_items, primary?_openParen]
  simp only [parens_expr]
  rfl

theorem read?_braces {t : Token} (ts : List Token) (further : t.isSymbol .closeBrace = false) :
    (items .braces []).read? (t :: ts) = primary? (.symbol .openBrace) (t :: ts) := by
  have open' : ¬ (look (t :: ts)).isSymbol .closeBrace = true := Bool.eq_false_iff.mp further
  rw [read?_items, primary?_openBrace, if_neg open']
  rfl

theorem read?_operand (ts : List Token) (further : (look ts).isKeyword .WHEN = false) :
    (case none [] .operand).read? ts = choice? ts := by
  unfold read? item? complete?
  rw [choice?_eq, if_neg (Bool.eq_false_iff.mp further)]
  rfl

theorem read?_cast {t : Token} (ts : List Token) (opens : t.isSymbol .openParen = true) :
    cast.read? ts = typed? (t :: ts) := by
  have opened : (look (t :: ts)).isSymbol .openParen = true := opens
  unfold read? item? complete?
  rw [typed?_eq, if_pos opened]
  rfl

end Frame

/-! ### Levels and engines -/

/-- Completes the operators that wait in a level, with `x` as the newest operand. -/
def Level.unwind? (level : Level) (x : Expr) (ts : List Token) : Option (Expr × List Token) :=
  unwind level.frame.isCast level.operators (level.operands.map Node.expr) x ts

/-- Goes on, in the innermost of some levels, with what a dot accesses of `x`, and completes all of
them.  The level of the whole expression is the last. -/
def resume? : List Level → Expr → List Token → Option (Expr × List Token)
  | [], _, _ => none
  | top :: below, x, ts =>
    (accesses? x ts).bind fun (y, rest) => (top.unwind? y rest).bind fun (z, rest) =>
      match top.frame with
      | .whole => some (z, rest)
      | frame => (frame.complete? z rest).bind fun (w, rest) => resume? below w rest

/-- Completes levels from behind the next item `x` of the innermost one. -/
def close? (frame : Frame) (below : List Level) (x : Expr) (ts : List Token) :
    Option (Expr × List Token) :=
  match frame with
  | .whole => some (x, ts)
  | frame => (frame.complete? x ts).bind fun (w, rest) => resume? below w rest

theorem resume?_cons (top : Level) (below : List Level) (x : Expr) (ts : List Token) :
    resume? (top :: below) x ts = (accesses? x ts).bind fun (y, rest) =>
      (top.unwind? y rest).bind fun (z, rest) => close? top.frame below z rest := rfl

/-- A frame that is complete is an operand of the level below. -/
theorem close?_of_ne {frame : Frame} (inner : frame ≠ .whole) (below : List Level) (x : Expr)
    (ts : List Token) :
    close? frame below x ts =
      (frame.complete? x ts).bind fun (w, rest) => resume? below w rest := by
  cases frame with
  | whole => exact absurd rfl inner
  | _ => rfl

namespace Engine

/-- The end of an engine's expression where its next item is `x`. -/
def close? (e : Engine) (x : Expr) (ts : List Token) : Option (Expr × List Token) :=
  MdxReader.close? e.top.frame e.below x ts

/-- The next item of the innermost level, from its next operand on. -/
def nextItem? (e : Engine) (ts : List Token) : Option (Expr × List Token) :=
  if e.top.acceptsGap && ((look ts).isSymbol .comma || (look ts).isSymbol .closeParen) then
    some (.elided, ts)
  else (operand? e.top.frame.isCast ts).bind fun (x, rest) => e.top.unwind? x rest

/-- **What an engine is about to read** from given tokens: the whole expression, and the tokens
behind it. -/
def meaning (e : Engine) (ts : List Token) : Option (Expr × List Token) :=
  match e.phase with
  | .operand => (e.nextItem? ts).bind fun (x, rest) => e.close? x rest
  | .access node => resume? (e.top :: e.below) node.expr ts
  | .operator =>
    (unwindAll e.top.frame.isCast e.top.operators e.top.operands ts).bind
      fun (x, rest) => e.close? x rest

end Engine

/-- What is about to be read after a step. -/
def Outcome.meaning : Outcome → List Token → Option (Expr × List Token)
  | more e, ts => e.meaning ts
  | done node, ts => some (node.expr, ts)

end MdxReader
