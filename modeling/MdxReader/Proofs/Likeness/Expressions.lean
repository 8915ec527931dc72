import MdxReader.Proofs.Likeness

/-!
# Expressions side by side

Expressions are alike if they are equal but for numbers, which are alike, and so is everything that
holds expressions: the operands, frames and levels of an engine, and the engine itself.  Every step
takes engines that are alike to outcomes that are (`Engine.matches_step`).  By induction on the
steps the whole readings of an expression match (`ReadM.matches_expression`).
-/

namespace MdxReader

variable {L : Likeness}

/-! ### What is alike -/

mutual

/-- Expressions are alike if they are equal but for numbers that are alike. -/
inductive Expr.Like (L : Likeness) : Expr → Expr → Prop
  | number {d d' : Decimal} (value : L.number d d') : Expr.Like L (.number d) (.number d')
  | string (s : String) : Expr.Like L (.string s) (.string s)
  | typeName (name : String) : Expr.Like L (.typeName name) (.typeName name)
  | null : Expr.Like L .null .null
  | identifier (id : Identifier) : Expr.Like L (.identifier id) (.identifier id)
  | call (form : CallForm) (name : String) {args args' : List Expr}
      (each : List.Forall₂ (Expr.Like L) args args') :
      Expr.Like L (.call form name args) (.call form name args')
  | choice {operand operand' : Option Expr} {branches branches' : List (Expr × Expr)}
      {otherwise otherwise' : Option Expr} (first : Option.Rel (Expr.Like L) operand operand')
      (each : List.Forall₂ (Expr.BranchLike L) branches branches')
      (last : Option.Rel (Expr.Like L) otherwise otherwise') :
      Expr.Like L (.choice operand branches otherwise) (.choice operand' branches' otherwise')

/-- Branches are alike if their conditions and their results are. -/
inductive Expr.BranchLike (L : Likeness) : Expr × Expr → Expr × Expr → Prop
  | mk {a a' b b' : Expr} (condition : Expr.Like L a a') (result : Expr.Like L b b') :
      Expr.BranchLike L (a, b) (a', b')

end

/-- An argument that was left out holds no number. -/
theorem Expr.like_elided : Expr.elided.Like L .elided := .call _ _ .nil

/-- Operands are alike if their expressions are, and equally high. -/
structure Node.Like (L : Likeness) (n n' : Node) : Prop where
  expr : n.expr.Like L n'.expr
  height : n.height = n'.height

/-- Leaves are equally high. -/
theorem Node.like_leaf {x x' : Expr} (h : x.Like L x') : (leaf x).Like L (leaf x') := ⟨h, rfl⟩

/-- What is put on top of operands that are equally high is equally high. -/
theorem Node.like_above {x x' : Expr} {below below' : Nat} (h : x.Like L x')
    (same : below = below') : (above x below).Like L (above x' below') :=
  ⟨h, congrArg (· + 1) same⟩

/-- Stages of `CASE` are alike if they are the same stage, with conditions that are alike where one
waits for its result. -/
inductive CaseStage.Like (L : Likeness) : CaseStage → CaseStage → Prop
  | operand : Like L .operand .operand
  | condition : Like L .condition .condition
  | result {x x' : Expr} (condition : x.Like L x') : Like L (.result x) (.result x')
  | otherwise : Like L .otherwise .otherwise

/-- Brackets are alike if they are the same bracket, around the arguments of the same name; the
receivers of a method are alike. -/
inductive Bracket.Like (L : Likeness) : Bracket → Bracket → Prop
  | parens : Like L .parens .parens
  | braces : Like L .braces .braces
  | function (name : String) : Like L (.function name) (.function name)
  | method {x x' : Expr} (receiver : x.Like L x') (name : String) :
      Like L (.method x name) (.method x' name)

/-- Frames are alike if they are of the same kind and what they have collected is alike, one by one.
-/
inductive Frame.Like (L : Likeness) : Frame → Frame → Prop
  | whole : Like L .whole .whole
  | items {bracket bracket' : Bracket} {items items' : List Expr} (around : bracket.Like L bracket')
      (each : List.Forall₂ (Expr.Like L) items items') :
      Like L (.items bracket items) (.items bracket' items')
  | cast : Like L .cast .cast
  | case {operand operand' : Option Expr} {branches branches' : List (Expr × Expr)}
      {stage stage' : CaseStage} (first : Option.Rel (Expr.Like L) operand operand')
      (each : List.Forall₂ (Expr.BranchLike L) branches branches') (now : stage.Like L stage') :
      Like L (.case operand branches stage) (.case operand' branches' stage')

/-- Levels are alike if all they hold is. -/
structure Level.Like (L : Likeness) (l l' : Level) : Prop where
  frame : l.frame.Like L l'.frame
  operands : List.Forall₂ (Node.Like L) l.operands l'.operands
  operators : l.operators = l'.operators
  height : l.height = l'.height

/-- Phases are alike if the same comes next; a node that accesses may follow has one like it. -/
inductive Phase.Like (L : Likeness) : Phase → Phase → Prop
  | operand : Like L .operand .operand
  | access {n n' : Node} (node : n.Like L n') : Like L (.access n) (.access n')
  | operator : Like L .operator .operator

/-- Engines are alike if their levels are, and they wait for the same. -/
structure Engine.Like (L : Likeness) (e e' : Engine) : Prop where
  top : e.top.Like L e'.top
  below : List.Forall₂ (Level.Like L) e.below e'.below
  phase : e.phase.Like L e'.phase
  levels : e.levels = e'.levels

/-- Steps come to outcomes that are alike if both go on, with engines that are alike, or both are
done, with nodes that are. -/
inductive Outcome.Like (L : Likeness) : Outcome → Outcome → Prop
  | more {e e' : Engine} (engine : e.Like L e') : Like L (.more e) (.more e')
  | done {n n' : Node} (node : n.Like L n') : Like L (.done n) (.done n')

/-- Accesses are alike if both reach nodes that are alike or both begin a method of the same name.
-/
inductive Access.Like (L : Likeness) : Access → Access → Prop
  | reached {n n' : Node} (node : n.Like L n') : Like L (.reached n) (.reached n')
  | method (name : String) : Like L (.method name) (.method name)

/-! ### Levels -/

/-- Brackets that are alike make expressions that are alike of items that are. -/
theorem Bracket.like_node {bracket bracket' : Bracket} {items items' : List Expr} {height : Nat}
    (around : bracket.Like L bracket') (each : List.Forall₂ (Expr.Like L) items items') :
    (bracket.node items height).Like L (bracket'.node items' height) := by
  cases around with
  | parens =>
    cases each with
    | nil => exact Node.like_above (.call _ _ .nil) rfl
    | cons first later =>
      cases later with
      | nil => exact ⟨first, rfl⟩
      | cons second later =>
        exact Node.like_above (.call _ _ (.cons first (.cons second later))) rfl
  | braces => exact Node.like_above (.call _ _ each) rfl
  | function name => exact Node.like_above (.call _ _ each) rfl
  | method receiver name => exact Node.like_above (.call _ _ (.cons receiver each)) rfl

/-- They are closed by the same symbol. -/
theorem Bracket.Like.closing {bracket bracket' : Bracket} (h : bracket.Like L bracket') :
    bracket.closing = bracket'.closing := by
  cases h <;> rfl

/-- An item may be left out in both frames or in neither. -/
theorem Frame.Like.hasArguments {frame frame' : Frame} (h : frame.Like L frame') :
    frame.hasArguments = frame'.hasArguments := by
  cases h with
  | items around each => cases around <;> rfl
  | _ => rfl

theorem Frame.Like.kind {frame frame' : Frame} (h : frame.Like L frame') :
    frame.kind = frame'.kind := by
  cases h with
  | items around each => cases around <;> rfl
  | _ => rfl

/-- An operator applies to operands that are alike in the same way, or to neither. -/
theorem Operator.like_applied (operator : Operator) {nodes nodes' : List Node}
    (h : List.Forall₂ (Node.Like L) nodes nodes') :
    Option.Rel (List.Forall₂ (Node.Like L)) (operator.applied? nodes)
      (operator.applied? nodes') := by
  have single {form : CallForm} {name : String} {n n' : Node} (node : n.Like L n') :
      (Node.above (.call form name [n.expr]) n.height).Like L
        (.above (.call form name [n'.expr]) n'.height) :=
    Node.like_above (.call _ _ (.cons node.expr .nil)) node.height
  unfold applied?
  cases operator.fixity with
  | before =>
    cases h with
    | nil => exact .none
    | cons node rest => exact .some (.cons (single node) rest)
  | after =>
    cases h with
    | nil => exact .none
    | cons node rest => exact .some (.cons (single node) rest)
  | between =>
    cases h with
    | nil => exact .none
    | cons right rest =>
      cases rest with
      | nil => exact .none
      | @cons left left' _ _ node rest =>
        have joined := Node.like_above
          (.call .binary operator.symbol (.cons node.expr (.cons right.expr .nil)))
          (congr (congrArg max node.height) right.height)
        simp only
        cases operator.isNegated with
        | true => exact .some (.cons (single joined) rest)
        | false => exact .some (.cons joined rest)

/-- Folding is ruled by the operators, which are equal, so it succeeds on both stacks or on neither
and leaves equally much. -/
theorem like_reduce (strength : Nat) (associativity : Associativity) (operators : List Operator)
    {nodes nodes' : List Node} (h : List.Forall₂ (Node.Like L) nodes nodes') :
    Option.Rel (fun a b => a.1 = b.1 ∧ List.Forall₂ (Node.Like L) a.2 b.2)
      (reduce? strength associativity operators nodes)
      (reduce? strength associativity operators nodes') := by
  induction operators generalizing nodes nodes' with
  | nil => exact .some ⟨rfl, h⟩
  | cons operator waiting ih =>
    unfold reduce?
    cases operator.yields strength associativity with
    | false => exact .some ⟨rfl, h⟩
    | true =>
      have applied := operator.like_applied h
      simp only [if_true]
      generalize operator.applied? nodes = left at applied ⊢
      generalize operator.applied? nodes' = right at applied ⊢
      cases applied with
      | none => exact .none
      | some reduced => exact ih reduced

namespace Level.Like

variable {l l' : Level}

/-- Levels fold alike, or fail alike. -/
theorem reduce (h : l.Like L l') (strength : Nat) (associativity : Associativity) :
    Option.Rel (Level.Like L) (l.reduce? strength associativity)
      (l'.reduce? strength associativity) := by
  have reduced := like_reduce strength associativity l.operators h.operands
  unfold Level.reduce?
  rw [← h.operators]
  generalize MdxReader.reduce? strength associativity l.operators l.operands = left at reduced ⊢
  generalize MdxReader.reduce? strength associativity l.operators l'.operands = right at reduced ⊢
  cases reduced with
  | none => exact .none
  | some both => exact .some ⟨h.frame, both.2, both.1, h.height⟩

/-- What is left of two levels at their ends is alike, or missing in both. -/
theorem finish (h : l.Like L l') : Option.Rel (Node.Like L) l.finish? l'.finish? := by
  have reduced := h.reduce 0 .left
  unfold finish?
  generalize l.reduce? 0 .left = left at reduced ⊢
  generalize l'.reduce? 0 .left = right at reduced ⊢
  cases reduced with
  | none => exact .none
  | @some a a' both =>
    obtain ⟨frame, operands, operators, height⟩ := a
    obtain ⟨frame', operands', operators', height'⟩ := a'
    have operands := both.operands
    cases operands with
    | nil => exact .none
    | cons first later =>
      cases later with
      | nil => exact .some first
      | cons second later => exact .none

/-- Whether an item may be left out is told by the frame and by how much is on the stacks. -/
theorem acceptsGap (h : l.Like L l') : l.acceptsGap = l'.acceptsGap := by
  have operands := h.operands
  unfold Level.acceptsGap
  rw [h.frame.hasArguments, h.operators]
  generalize l.operands = left at operands ⊢
  generalize l'.operands = right at operands ⊢
  cases operands <;> rfl

/-- The newest operands are equally high. -/
theorem newestHeight (h : l.Like L l') : l.newestHeight = l'.newestHeight := by
  have operands := h.operands
  unfold Level.newestHeight
  generalize l.operands = left at operands ⊢
  generalize l'.operands = right at operands ⊢
  cases operands with
  | nil => rfl
  | cons first later => exact first.height

theorem push (h : l.Like L l') {n n' : Node} (node : n.Like L n') :
    (l.push n).Like L (l'.push n') :=
  ⟨h.frame, .cons node h.operands, h.operators, h.height⟩

theorem pushOperator (h : l.Like L l') (operator : Operator) :
    (l.pushOperator operator).Like L (l'.pushOperator operator) :=
  ⟨h.frame, h.operands, congrArg (operator :: ·) h.operators, h.height⟩

end Level.Like

theorem Level.like_start {frame frame' : Frame} (h : frame.Like L frame') (height : Nat) :
    (start frame height).Like L (start frame' height) := ⟨h, .nil, rfl, rfl⟩

open ReadM

namespace Engine

variable {e e' : Engine}

theorem Like.reach (h : e.Like L e') {n n' : Node} (node : n.Like L n') :
    (e.reach n).Like L (e'.reach n') := ⟨h.top, h.below, .access node, h.levels⟩

theorem Like.push (h : e.Like L e') {n n' : Node} (node : n.Like L n') :
    (e.push n).Like L (e'.push n') := ⟨h.top.push node, h.below, .operator, h.levels⟩

theorem Like.await (h : e.Like L e') (operator : Operator) :
    (e.await operator).Like L (e'.await operator) :=
  ⟨h.top.pushOperator operator, h.below, .operand, h.levels⟩

/-- A level that goes on with the next item starts anew on both sides. -/
theorem Like.resume (h : e.Like L e') {frame frame' : Frame} (like : frame.Like L frame')
    (height : Nat) : (e.resume frame height).Like L (e'.resume frame' height) :=
  ⟨Level.like_start like height, h.below, .operand, h.levels⟩

theorem like_start : start.Like L start := ⟨Level.like_start .whole 0, .nil, .operand, rfl⟩

/-! ### Operands and accesses -/

/-- The heights are equal, so the limit lets both engines pass or neither. -/
theorem matches_checkPending (h : e.Like L e') : Matches L Eq e.checkPending e'.checkPending := by
  unfold checkPending
  rw [h.levels, h.top.operators]
  exact Stable.checkHeight _

/-- A level is entered with frames that are alike, at equal depth. -/
theorem matches_enter (h : e.Like L e') {frame frame' : Frame} (like : frame.Like L frame')
    (height : Nat) : Matches L (Engine.Like L) (e.enter frame height) (e'.enter frame' height) := by
  have checks : Matches L Eq (checkHeight e.levels) (checkHeight e'.levels) :=
    h.levels ▸ Stable.checkHeight _
  have notes : Matches L Eq (note (.opened frame.kind e.levels))
      (note (.opened frame'.kind e'.levels)) := like.kind ▸ h.levels ▸ Stable.note _
  refine checks.andThen fun _ => notes.andThen fun _ => Matches.pure ?_
  exact ⟨Level.like_start like height, .cons h.top h.below, .operand,
    congrArg (· + 1) h.levels⟩

/-- A name in front of a parenthesis begins a call in both texts. -/
theorem matches_nameOrFunction (h : e.Like L e') (name : String) :
    Matches L (Engine.Like L) (e.nameOrFunction name) (e'.nameOrFunction name) := by
  refine (Stable.atSymbol _).bind fun _ => Matches.ite ?_ ?_
  · refine Stable.advance.bind fun _ => (Stable.atSymbol _).bind fun _ => Matches.ite ?_ ?_
    · exact Stable.advance.bind fun _ =>
        Matches.pure (h.reach (Node.like_above (.call _ _ .nil) rfl))
    · exact matches_enter h (.items (.function name) .nil) 0
  · exact Matches.pure (h.reach (Node.like_leaf (.identifier _)))

/-- The token that makes an operand is taken before it is judged; tokens that are alike are judged
alike. -/
theorem matches_atom (h : e.Like L e') : Matches L (Engine.Like L) e.atom e'.atom := by
  refine Matches.get fun r r' like => Stable.advance.bind fun _ => ?_
  have unexpected : Matches L (Engine.Like L) (throw (r.unexpected .expression) : ReadM Engine)
      (throw (r'.unexpected .expression)) := Matches.throw (like.unexpected .expression)
  have leaf {x x' : Expr} (alike : x.Like L x') : Matches L (Engine.Like L)
      (pure (e.reach (.leaf x))) (pure (e'.reach (.leaf x'))) :=
    Matches.pure (h.reach (Node.like_leaf alike))
  have key : Matches L (Engine.Like L)
      (do
        let key ← keyFrom r.place r.token
        return e.reach (.leaf (.identifier (.single (.key key)))))
      (do
        let key ← keyFrom r'.place r'.token
        return e'.reach (.leaf (.identifier (.single (.key key))))) :=
    (matches_keyFrom like.token like.place).andThen fun _ => leaf (.identifier _)
  have token := like.token
  generalize r.token = t at token key ⊢
  generalize r'.token = t' at token key ⊢
  cases token with
  | same =>
    cases t with
    | number value => exact leaf (.number (L.number_refl value))
    | string value quote => exact leaf (.string value)
    | word name => exact matches_nameOrFunction h name
    | keyword k spelling =>
      exact Matches.ite (leaf .null) (Matches.ite unexpected (matches_nameOrFunction h spelling))
    | bracketed name =>
      exact Matches.ite (Matches.throw (.emptyName like.place)) (leaf (.identifier _))
    | bracketedKey name => exact key
    | wordKey name => exact key
    | symbol s => exact unexpected
    | endOfText => exact unexpected
  | respelled reserved spelling =>
    simp only [reserved, if_true]
    exact Matches.ite (leaf .null) unexpected
  | number value => exact leaf (.number value)

/-- What may come where an operand is expected comes in both texts. -/
theorem matches_operandStep (h : e.Like L e') :
    Matches L (Engine.Like L) e.operandStep e'.operandStep := by
  refine Matches.get fun r r' like => ?_
  rw [like.token.leading]
  cases Operator.leading? r'.token with
  | some operator =>
    refine (matches_checkPending h).andThen fun _ => ?_
    exact Stable.advance.bind fun _ => Matches.pure (h.await operator)
  | none =>
    simp only [like.token.isSymbol, like.token.isKeyword, h.top.acceptsGap]
    refine Matches.ite ?_ (Matches.ite ?_ (Matches.ite ?_ (Matches.ite ?_ (Matches.ite ?_ ?_))))
    · exact Stable.advance.bind fun _ => matches_enter h (.items .parens .nil) 0
    · refine Stable.advance.bind fun _ => (Stable.atSymbol _).bind fun _ => Matches.ite ?_ ?_
      · exact Stable.advance.bind fun _ =>
          Matches.pure (h.reach (Node.like_above (.call _ _ .nil) rfl))
      · exact matches_enter h (.items .braces .nil) 0
    · refine Stable.advance.bind fun _ => (Stable.atKeyword _).bind fun _ => Matches.ite ?_ ?_
      · exact Stable.advance.bind fun _ => matches_enter h (.case .none .nil .condition) 0
      · exact matches_enter h (.case .none .nil .operand) 0
    · refine Stable.advance.bind fun _ => (Stable.expect _).bind fun _ => ?_
      exact matches_enter h .cast 0
    · exact Matches.pure (h.push (Node.like_leaf Expr.like_elided))
    · exact matches_atom h

section Accesses

variable {n n' : Node}

/-- A parenthesis behind the name makes both accesses methods. -/
theorem matches_methodOr (h : n.Like L n') (name : String) {plain plain' : ReadM Access}
    (absent : Matches L (Access.Like L) plain plain') :
    Matches L (Access.Like L) (methodOr n name plain) (methodOr n' name plain') := by
  refine (Stable.atSymbol _).bind fun _ => Matches.ite ?_ absent
  refine Stable.advance.bind fun _ => (Stable.atSymbol _).bind fun _ => Matches.ite ?_ ?_
  · refine Stable.advance.bind fun _ => Matches.pure (.reached (Node.like_above ?_ h.height))
    exact .call _ _ (.cons h.expr (.cons Expr.like_elided .nil))
  · exact Matches.pure (.method name)

theorem like_property (h : n.Like L n') (form : CallForm) (name : String) :
    (property form name n).Like L (property form name n') :=
  Node.like_above (.call _ _ (.cons h.expr .nil)) h.height

/-- The name in brackets is the same, so it is an error on both sides or on neither. -/
theorem like_bracketedAccess (h : n.Like L n') (name : String) {p p' : Position}
    (place : L.place p p') :
    Judgement.Like L (Node.Like L) (bracketedAccess n name p) (bracketedAccess n' name p') := by
  have expr := h.expr
  unfold bracketedAccess
  split
  · exact .error (.emptyName place)
  · exact .ok (like_property h _ _)
  · generalize n.expr = x at expr ⊢
    generalize n'.expr = x' at expr ⊢
    cases expr with
    | identifier id => exact .ok (Node.like_leaf (.identifier _))
    | _ => exact .ok (like_property h _ _)

/-- The receivers are both identifiers or neither is, so the key does the same to both. -/
theorem like_keyAccess (h : n.Like L n') (key : Key) {p p' : Position} (place : L.place p p') :
    Judgement.Like L (Node.Like L) (keyAccess n key p) (keyAccess n' key p') := by
  have expr := h.expr
  unfold keyAccess
  generalize n.expr = x at expr ⊢
  generalize n'.expr = x' at expr ⊢
  cases key.more with
  | nil =>
    cases key.first.quoting with
    | bare => exact .ok (like_property h _ _)
    | quoted =>
      cases expr with
      | identifier id => exact .ok (Node.like_leaf (.identifier _))
      | _ => exact .ok (like_property h _ _)
  | cons second later =>
    cases expr with
    | identifier id => cases key.first.quoting <;> exact .ok (Node.like_leaf (.identifier _))
    | _ => cases key.first.quoting <;> exact .error (.broken _ place)

/-- What is behind the dot is taken and judged as it is behind the other dot. -/
theorem matches_memberAccess (h : n.Like L n') :
    Matches L (Access.Like L) (memberAccess n) (memberAccess n') := by
  refine Matches.get fun r r' like => Stable.advance.bind fun _ => ?_
  have unexpected : Matches L (Access.Like L)
      (throw (r.unexpected .identifierAfterDot) : ReadM Access)
      (throw (r'.unexpected .identifierAfterDot)) :=
    Matches.throw (like.unexpected .identifierAfterDot)
  have plain (name : String) : Matches L (Access.Like L)
      (pure (.reached (property .property name n)))
      (pure (.reached (property .property name n'))) :=
    Matches.pure (.reached (like_property h _ _))
  have byKey {t t' : Token} (token : t.Like L t') : Matches L (Access.Like L)
      (do
        let key ← keyFrom r.place t
        return Access.reached (← judge (keyAccess n key r.place)))
      (do
        let key ← keyFrom r'.place t'
        return Access.reached (← judge (keyAccess n' key r'.place))) := by
    refine (matches_keyFrom token like.place).andThen fun key => ?_
    exact (Matches.judge (like_keyAccess h key like.place)).bind fun _ _ node =>
      Matches.pure (.reached node)
  have token := like.token
  generalize r.token = t at token ⊢
  generalize r'.token = t' at token ⊢
  cases token with
  | same =>
    cases t with
    | word name => exact matches_methodOr h name (plain name)
    | keyword k spelling =>
      refine Matches.ite ?_ (matches_methodOr h spelling (plain spelling))
      exact Matches.throw (.reservedWord (L.spelling_refl _) like.place)
    | bracketed name =>
      refine Matches.ite (Matches.throw (.emptyName like.place)) (matches_methodOr h name ?_)
      exact (Matches.judge (like_bracketedAccess h name like.place)).bind fun _ _ node =>
        Matches.pure (.reached node)
    | bracketedKey name => exact byKey (.same _)
    | wordKey name => exact byKey (.same _)
    | _ => exact unexpected
  | respelled reserved spelling =>
    simp only [reserved, if_true]
    exact Matches.throw (.reservedWord spelling like.place)
  | number value => exact unexpected

/-- The height of what was reached is demanded of both readers. -/
theorem matches_accessStep (engines : e.Like L e') (h : n.Like L n') :
    Matches L (Engine.Like L) (e.accessStep n) (e'.accessStep n') := by
  refine (Stable.atSymbol _).bind fun _ => Matches.ite ?_ ?_
  · refine Stable.advance.bind fun _ => (matches_memberAccess h).bind fun access access' alike => ?_
    cases alike with
    | reached node =>
      simp only [node.height]
      exact (Stable.checkHeight _).bind fun _ => Matches.pure (engines.reach node)
    | method name =>
      simp only [h.height]
      exact matches_enter engines (.items (.method h.expr name) .nil) _
  · rw [h.height]
    exact (Stable.checkHeight _).bind fun _ => Matches.pure (engines.push h)

end Accesses

/-! ### Operators -/

/-- Folding fails for both engines or for neither. -/
theorem matches_pushBinary (h : e.Like L e') (operator : Operator) :
    Matches L (Outcome.Like L) (e.pushBinary operator) (e'.pushBinary operator) := by
  have reduced := h.top.reduce operator.strength operator.associativity
  unfold pushBinary
  generalize e.top.reduce? operator.strength operator.associativity = left at reduced ⊢
  generalize e'.top.reduce? operator.strength operator.associativity = right at reduced ⊢
  cases reduced with
  | none => exact Matches.failBreaking _
  | @some top top' like =>
    have engines : Engine.Like L { e with top } { e' with top := top' } :=
      ⟨like, h.below, h.phase, h.levels⟩
    simp only [like.newestHeight]
    refine (Stable.checkHeight _).bind fun _ => ?_
    exact (matches_checkPending engines).andThen fun _ =>
      Matches.pure (.more (engines.await operator))

/-- An operator behind its operand is applied at once. -/
theorem matches_pushTrailing (h : e.Like L e') (operator : Operator) :
    Matches L (Outcome.Like L) (e.pushTrailing operator) (e'.pushTrailing operator) := by
  have reduced := h.top.reduce operator.strength .left
  unfold pushTrailing
  generalize e.top.reduce? operator.strength .left = left at reduced ⊢
  generalize e'.top.reduce? operator.strength .left = right at reduced ⊢
  cases reduced with
  | none => exact Matches.failBreaking _
  | @some top top' like =>
    have applied := operator.like_applied like.operands
    simp only
    generalize operator.applied? top.operands = left at applied ⊢
    generalize operator.applied? top'.operands = right at applied ⊢
    cases applied with
    | none => exact Matches.failBreaking _
    | @some operands operands' nodes =>
      have tops : Level.Like L { top with operands } { top' with operands := operands' } :=
        ⟨like.frame, nodes, like.operators, like.height⟩
      simp only [tops.newestHeight]
      exact (Stable.checkHeight _).bind fun _ =>
        Matches.pure (.more ⟨tops, h.below, .operator, h.levels⟩)

/-- The name behind `AS` is the same one. -/
theorem matches_pushName (h : e.Like L e') :
    Matches L (Outcome.Like L) e.pushName e'.pushName := by
  refine stable_identifier.bind fun name => ?_
  have reduced := h.top.reduce Operator.named.strength .left
  generalize e.top.reduce? Operator.named.strength .left = left at reduced ⊢
  generalize e'.top.reduce? Operator.named.strength .left = right at reduced ⊢
  cases reduced with
  | none => exact Matches.failBreaking _
  | @some top top' like =>
    obtain ⟨frame, operands, operators, height⟩ := top
    obtain ⟨frame', operands', operators', height'⟩ := top'
    have operands := like.operands
    cases operands with
    | nil => exact Matches.failBreaking _
    | cons node later =>
      have named := Node.like_above (.call .binary Operator.named.symbol
        (.cons node.expr (.cons (.identifier name) .nil))) node.height
      simp only [named.height]
      refine (Stable.checkHeight _).bind fun _ => Matches.pure (.more ?_)
      exact ⟨⟨like.frame, .cons named later, like.operators, like.height⟩, h.below, .operator,
        h.levels⟩

theorem stable_nullTest : Stable L nullTest := by
  refine (Stable.atKeyword _).bind fun _ => Matches.ite (Stable.pure _) ?_
  refine (Stable.atKeyword _).bind fun _ => Matches.ite (Stable.pure _) ?_
  refine (Stable.atKeyword _).bind fun _ => Matches.ite ?_ (Stable.pure _)
  refine Stable.advance.bind fun _ => ?_
  refine (Stable.atKeyword _).bind fun _ => Matches.ite (Stable.pure _) ?_
  exact (Stable.atKeyword _).bind fun _ => Matches.ite (Stable.pure _) (Matches.failExpecting _)

/-- What is behind `IS` is told by keywords. -/
theorem matches_identityStep (h : e.Like L e') :
    Matches L (Outcome.Like L) e.identityStep e'.identityStep := by
  refine stable_nullTest.bind fun test => ?_
  cases test with
  | some operator => exact Stable.advance.bind fun _ => matches_pushTrailing h operator
  | none => exact matches_pushBinary h _

/-- What is behind `NOT` is told by keywords. -/
theorem matches_negationStep (h : e.Like L e') :
    Matches L (Outcome.Like L) e.negationStep e'.negationStep := by
  refine (Stable.atKeyword _).bind fun _ => Matches.ite ?_ ?_
  · exact Stable.advance.bind fun _ => matches_pushBinary h _
  · refine (Stable.atKeyword _).bind fun _ => Matches.ite ?_ (Matches.failExpecting _)
    exact Stable.advance.bind fun _ => matches_pushBinary h _

/-! ### The end of a level -/

/-- The level below is alike, so it goes on alike; without one both engines fail. -/
theorem matches_leave (h : e.Like L e') {n n' : Node} (node : n.Like L n') :
    Matches L (Outcome.Like L) (e.leave n) (e'.leave n') := by
  obtain ⟨top, below, phase, levels, levels_eq⟩ := e
  obtain ⟨top', below', phase', levels', levels_eq'⟩ := e'
  obtain ⟨-, around, -, same⟩ := h
  unfold leave
  simp only [node.height] at same ⊢
  refine (Stable.checkHeight _).bind fun _ => ?_
  cases around with
  | nil => exact Matches.failBreaking _
  | cons outer rest =>
    simp only [same]
    refine (Stable.note _).bind fun _ => Matches.pure (.more ?_)
    exact ⟨outer, rest, .access node, rfl⟩

/-- A comma goes on with the level and the closing symbol leaves it. -/
theorem matches_closeItems (h : e.Like L e') {bracket bracket' : Bracket}
    {items items' : List Expr} (around : bracket.Like L bracket')
    (each : List.Forall₂ (Expr.Like L) items items') (height : Nat) :
    Matches L (Outcome.Like L) (e.closeItems bracket items height)
      (e'.closeItems bracket' items' height) := by
  refine (Stable.atSymbol _).bind fun _ => Matches.ite ?_ ?_
  · exact Stable.advance.bind fun _ =>
      Matches.pure (.more (h.resume (.items around each) height))
  · rw [around.closing]
    refine (Stable.expectClosing _ _).bind fun _ => matches_leave h ?_
    exact Bracket.like_node around (List.rel_reverse each)

/-- The comma is judged before `AS`, on both sides. -/
theorem matches_closeCast (h : e.Like L e') {x x' : Expr} (expr : x.Like L x') (height : Nat) :
    Matches L (Outcome.Like L) (e.closeCast x height) (e'.closeCast x' height) := by
  refine (Stable.atSymbol _).bind fun _ => Matches.ite (Matches.failBreaking _) ?_
  refine (Stable.expectKeyword _).bind fun _ => stable_name.bind fun type => ?_
  refine (Stable.expect _).bind fun _ => matches_leave h (Node.like_above ?_ rfl)
  exact .call _ _ (.cons expr (.cons (.typeName type.text) .nil))

/-- The stage tells which keyword is expected, and the frame that follows. -/
theorem matches_closeCase (h : e.Like L e') {operand operand' : Option Expr}
    {branches branches' : List (Expr × Expr)} {stage stage' : CaseStage} {x x' : Expr}
    (first : Option.Rel (Expr.Like L) operand operand')
    (each : List.Forall₂ (Expr.BranchLike L) branches branches') (now : stage.Like L stage')
    (expr : x.Like L x') (height : Nat) :
    Matches L (Outcome.Like L) (e.closeCase operand branches stage x height)
      (e'.closeCase operand' branches' stage' x' height) := by
  have more {frame frame' : Frame} (like : frame.Like L frame') : Matches L (Outcome.Like L)
      (pure (.more (e.resume frame height))) (pure (.more (e'.resume frame' height))) :=
    Matches.pure (.more (h.resume like height))
  cases now with
  | operand =>
    exact (Stable.expectKeyword _).bind fun _ => more (.case (.some expr) each .condition)
  | condition =>
    exact (Stable.expectKeyword _).bind fun _ => more (.case first each (.result expr))
  | result condition =>
    have branches := List.Forall₂.cons (Expr.BranchLike.mk condition expr) each
    refine (Stable.atKeyword _).bind fun _ => Matches.ite ?_ ?_
    · exact Stable.advance.bind fun _ => more (.case first branches .condition)
    refine (Stable.atKeyword _).bind fun _ => Matches.ite ?_ ?_
    · exact Stable.advance.bind fun _ => more (.case first branches .otherwise)
    refine (Stable.atKeyword _).bind fun _ => Matches.ite ?_ (Matches.failExpecting _)
    refine Stable.advance.bind fun _ => matches_leave h (Node.like_above ?_ rfl)
    exact .choice first (List.rel_reverse branches) .none
  | otherwise =>
    refine (Stable.expectKeyword _).bind fun _ => matches_leave h (Node.like_above ?_ rfl)
    exact .choice first (List.rel_reverse each) (.some expr)

/-- What a level has come to is given to its frame. -/
theorem matches_closeLevel (h : e.Like L e') :
    Matches L (Outcome.Like L) e.closeLevel e'.closeLevel := by
  have finished := h.top.finish
  have frame := h.top.frame
  have height := h.top.height
  unfold closeLevel closeFrame
  generalize e.top.finish? = left at finished ⊢
  generalize e'.top.finish? = right at finished ⊢
  cases finished with
  | none => exact Matches.failBreaking _
  | some node =>
    simp only [node.height, height]
    refine (Stable.checkHeight _).bind fun _ => ?_
    generalize e.top.frame = inner at frame ⊢
    generalize e'.top.frame = inner' at frame ⊢
    cases frame with
    | whole => exact Matches.pure (.done ⟨node.expr, rfl⟩)
    | items around each => exact matches_closeItems h around (.cons node.expr each) _
    | cast => exact matches_closeCast h node.expr _
    | case first each now => exact matches_closeCase h first each now node.expr _

/-- `AS` names a type on the level of a `CAST` only. -/
theorem Like.expectsType (h : e.Like L e') : e.expectsType = e'.expectsType := by
  have frame := h.top.frame
  unfold Engine.expectsType
  generalize e.top.frame = inner at frame ⊢
  generalize e'.top.frame = inner' at frame ⊢
  cases frame <;> rfl

/-- Operators and ends of levels are told by tokens that are alike. -/
theorem matches_operatorStep (h : e.Like L e') :
    Matches L (Outcome.Like L) e.operatorStep e'.operatorStep := by
  refine Matches.get fun r r' like => ?_
  simp only [like.token.isKeyword, like.token.following, h.expectsType]
  refine Matches.ite ?_ (Matches.ite ?_ ?_)
  · exact Stable.advance.bind fun _ => matches_identityStep h
  · exact Stable.advance.bind fun _ => matches_negationStep h
  · split
    · exact Matches.ite (matches_closeLevel h) (Stable.advance.bind fun _ => matches_pushName h)
    · exact Stable.advance.bind fun _ => matches_pushBinary h _
    · exact matches_closeLevel h

/-- **Every step takes engines that are alike to outcomes that are**, whatever they wait for. -/
theorem matches_step (h : e.Like L e') : Matches L (Outcome.Like L) e.step e'.step := by
  have phase := h.phase
  unfold step
  generalize e.phase = now at phase ⊢
  generalize e'.phase = now' at phase ⊢
  cases phase with
  | operand => exact (matches_operandStep h).bind fun _ _ next => Matches.pure (.more next)
  | access node => exact (matches_accessStep h node).bind fun _ _ next => Matches.pure (.more next)
  | operator => exact matches_operatorStep h

/-! ### Expressions -/

/-- **Runs match**, since their steps do. -/
theorem matches_run (h : e.Like L e') : Matches L (Node.Like L) e.run e'.run := by
  intro r r' like
  -- The measure of the engine falls with every step of the left run.
  induction bound : e.measure r using Nat.strongRecOn generalizing e e' r r' with
  | _ n ih =>
    have agree := matches_step h r r' like
    rw [run_apply, run_apply]
    generalize stepped : e.step r = result at agree ⊢
    generalize e'.step r' = result' at agree ⊢
    cases agree with
    | ok values readers =>
      cases values with
      | more next => exact ih _ (bound ▸ measure_lt stepped) next _ _ readers rfl
      | done node => exact .ok node readers
    | error errors => exact .error errors
    | excused lenient => exact .excused lenient

end Engine

/-- Of texts that are alike expressions are read that are. -/
theorem ReadM.matches_expression : Matches L (Expr.Like L) expression expression :=
  (Engine.matches_run Engine.like_start).bind fun _ _ node => Matches.pure node.expr

end MdxReader
