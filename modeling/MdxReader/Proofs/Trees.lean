import MdxReader.Proofs.Height
import MdxReader.Proofs.Leads
import MdxReader.Proofs.WellFormed

/-!
# The trees of expressions

Everything an engine holds is well formed and no higher than it says (`Engine.Good`), and every step
keeps it so (`Engine.good_step`).  Since the last demand on the nesting is about the whole tree, an
expression is well formed and within the limit (`ReadM.good_expression`).

Two things need care.  An argument that was left out is an operand for the moment between two steps;
the token behind it lets nothing else happen to it than to become an item of its frame.  And an
empty argument list is found before a level is opened, so a function that has a single argument does
not leave it out.
-/

namespace MdxReader

open Descent ReadM Text

/-! ### Names -/

namespace Descent

/-- A name that is read is a bare one, or not empty in brackets. -/
theorem valid_of_name {t : Token} {name : Name} (sound : t.Sound) (h : name? t = some name) :
    name.Valid := by
  cases t with
  | word spelling =>
    cases h
    exact ⟨sound.1, by rw [Keyword.isReservedWord, sound.2]; rfl⟩
  | keyword k spelling =>
    rw [name?_keyword] at h
    split at h
    · cases h
    · -- A keyword that is not reserved is a name like any other.
      rename_i free
      cases h
      refine ⟨sound.1, ?_⟩
      rw [Keyword.isReservedWord, sound.2]
      exact Bool.eq_false_iff.mpr free
  | bracketed text =>
    simp only [name?] at h
    split at h
    · cases h
    · rename_i nonempty
      cases h
      exact fun empty => nonempty (String.isEmpty_iff.mpr empty)
  | _ => cases h

/-- A part of a key may be any word, or anything but nothing in brackets. -/
theorem validPart_of_keyPart {t : Token} {part : Name} (sound : t.Sound)
    (h : keyPart? t = some part) : part.ValidPart := by
  cases t with
  | wordKey spelling =>
    cases h
    exact sound
  | bracketedKey text =>
    simp only [keyPart?] at h
    split at h
    · cases h
    · rename_i nonempty
      cases h
      exact fun empty => nonempty (String.isEmpty_iff.mpr empty)
  | _ => cases h

theorem validPart_of_keyParts {ts rest : List Token} {parts : List Name}
    (sound : ∀ t ∈ ts, t.Sound) (h : keyParts ts = some (parts, rest)) :
    ∀ part ∈ parts, part.ValidPart := by
  induction ts generalizing parts with
  | nil =>
    cases h
    nofun
  | cons t ts ih =>
    unfold keyParts at h
    split at h
    · split at h
      · rename_i part parts' rest' taken later
        cases h
        intro other mem
        rcases List.mem_cons.mp mem with rfl | further
        · exact validPart_of_keyPart (sound t List.mem_cons_self) taken
        · exact ih (fun u mem => sound u (List.mem_cons_of_mem _ mem)) later other further
      · cases h
    · cases h
      nofun

theorem valid_of_key {first : Token} {ts rest : List Token} {key : Key} (starts : first.Sound)
    (sound : ∀ t ∈ ts, t.Sound) (h : key? first ts = some (key, rest)) : key.Valid := by
  unfold key? at h
  split at h
  · rename_i part parts rest' taken later
    cases h
    intro other mem
    rcases List.mem_cons.mp mem with rfl | further
    · exact validPart_of_keyPart starts taken
    · exact validPart_of_keyParts sound later other further
  · cases h

theorem valid_of_segment {ts rest : List Token} {segment : Segment} (sound : ∀ t ∈ ts, t.Sound)
    (h : segment? ts = some (segment, rest)) : segment.Valid := by
  unfold segment? at h
  split at h
  · cases h
  · rename_i t ts
    have first := sound t List.mem_cons_self
    split at h
    · obtain ⟨⟨key, rest'⟩, taken, made⟩ := Option.map_eq_some_iff.mp h
      cases made
      exact valid_of_key first (fun u mem => sound u (List.mem_cons_of_mem _ mem)) taken
    · obtain ⟨name, taken, made⟩ := Option.map_eq_some_iff.mp h
      cases made
      exact valid_of_name first taken

end Descent

theorem Feed.sound_aheadIn {lexemes : List Lexeme} (ending : Except ScanError Position)
    (sound : ∀ next, .ok next ∈ lexemes → next.token.Sound) :
    ∀ next ∈ aheadIn ending lexemes, next.token.Sound := by
  intro next mem
  obtain answer | ⟨place, -, rfl⟩ := mem_aheadIn mem
  · exact sound next answer
  · trivial

/-- The tokens ahead of a sound reader are sound. -/
theorem Reader.sound_tokens {r : Reader} (sound : r.Sound) : ∀ t ∈ r.tokens, t.Sound := by
  intro t mem
  obtain ⟨next, ahead, rfl⟩ := List.mem_map.mp mem
  rcases List.mem_cons.mp ahead with rfl | later
  · exact sound.1
  · split at later
    · cases later
    · exact Feed.sound_aheadIn _ sound.2 next later

namespace ReadM

variable {α : Type} {r : Reader}

/-- What a reading is known to yield. -/
theorem Yields.ok {reading : ReadM α} {p : Option (α × List Token)} {a : α} {after : Reader}
    (h : Yields reading p r) (found : reading r = .ok a after) : p = some (a, after.tokens) := by
  unfold Yields Means at h
  rw [found] at h
  exact h.1.symm

variable {deep : Prop}

theorem leads_name (sound : r.Sound) : Leads name (fun found _ => found.Valid) deep r := by
  refine calm_name.leads fun found after read => ?_
  obtain ⟨held, taken, made⟩ := Option.map_eq_some_iff.mp ((yields_name r).ok read)
  obtain ⟨rfl, -⟩ := Prod.mk.inj made
  exact valid_of_name sound.1 taken

theorem leads_keyFrom {place : Position} {first : Token} (starts : first.Sound)
    (sound : r.Sound) : Leads (keyFrom place first) (fun key _ => key.Valid) deep r := by
  refine (calm_keyFrom place first).leads fun key after read => ?_
  exact valid_of_key starts (Reader.sound_tokens sound) ((yields_keyFrom place first r).ok read)

theorem leads_segment (sound : r.Sound) : Leads segment (fun found _ => found.Valid) deep r := by
  refine calm_segment.leads fun found after read => ?_
  exact valid_of_segment (Reader.sound_tokens sound) ((yields_segment r).ok read)

/-- **An identifier has valid segments.** -/
theorem leads_identifier (sound : r.Sound) : Leads identifier (fun id _ => id.Valid) deep r := by
  refine (leads_segment sound).bind fun first after reached valid => ?_
  refine Leads.whileToken valid fun id between later _ valid => ?_
  refine Leads.advance.bind fun _ last moved _ => ?_
  exact (leads_segment (moved.sound (later.sound (reached.sound sound)))).bind
    fun segment _ _ next => Leads.pure ⟨valid, next⟩

end ReadM

/-! ### Nodes -/

/-- The expression is well formed and at most `height` high. -/
def Expr.Fine (x : Expr) (height : Nat) : Prop := x.WellFormed ∧ x.height ≤ height

theorem Expr.Fine.mono {x : Expr} {height higher : Nat} (h : x.Fine height)
    (le : height ≤ higher) : x.Fine higher := ⟨h.1, Nat.le_trans h.2 le⟩

namespace Node

/-- The tree of a node is well formed, and no higher than the node says. -/
def Good (node : Node) : Prop := node.expr.Fine node.height

/-- What has no parts may be pushed with height 0. -/
theorem good_leaf {x : Expr} (wellFormed : x.WellFormed) (flat : x.height = 0) :
    (leaf x).Good := ⟨wellFormed, Nat.le_of_eq flat⟩

/-- A call is one higher than its arguments are said to be. -/
theorem good_above {form : CallForm} {name : String} {args : List Expr} {height : Nat}
    (wellFormed : (Expr.call form name args).WellFormed) (below : ∀ x ∈ args, x.height ≤ height) :
    (above (.call form name args) height).Good := ⟨wellFormed, Expr.height_call_le below⟩

theorem good_identifier {id : Identifier} (wellFormed : id.WellFormed) :
    (leaf (.identifier id)).Good := good_leaf (.identifier wellFormed) (by simp [Expr.height])

/-- A `CASE` has at least one branch. -/
theorem good_choice {operand : Option Expr} {branches : List (Expr × Expr)}
    {otherwise : Option Expr} {height : Nat} (operandFine : ∀ x ∈ operand, x.Fine height)
    (nonempty : branches ≠ [])
    (branchesFine : ∀ branch ∈ branches, branch.1.Fine height ∧ branch.2.Fine height)
    (otherwiseFine : ∀ x ∈ otherwise, x.Fine height) :
    (above (.choice operand branches otherwise) height).Good := by
  constructor
  · exact .choice (fun x mem => (operandFine x mem).1) nonempty
      (fun branch mem => (branchesFine branch mem).1.1)
      (fun branch mem => (branchesFine branch mem).2.1) fun x mem => (otherwiseFine x mem).1
  · have operandLow := Expr.heightOption_le_iff.mpr fun x mem => (operandFine x mem).2
    have branchesLow := Expr.heightBranches_le_iff.mpr fun branch mem =>
      ⟨(branchesFine branch mem).1.2, (branchesFine branch mem).2.2⟩
    have otherwiseLow := Expr.heightOption_le_iff.mpr fun x mem => (otherwiseFine x mem).2
    rw [height_above]
    simp only [above, Expr.height]
    omega

end Node

theorem height_elided : Expr.elided.height = 0 := by simp [Expr.elided, Expr.height]

/-- That an identifier is well formed is said of the expression it makes. -/
theorem wellFormed_of_identifier {id : Identifier} (h : (Expr.identifier id).WellFormed) :
    id.WellFormed := by
  cases h
  assumption

/-- Applying an operator to good nodes makes a good node. -/
theorem good_of_applied {operator : Operator} {nodes nodes' : List Node}
    (other : operator ≠ .named) (good : ∀ node ∈ nodes, node.Good)
    (h : operator.applied? nodes = some nodes') : ∀ node ∈ nodes', node.Good := by
  unfold Operator.applied? at h
  split at h
  · rename_i node rest before
    cases h
    obtain ⟨⟨wellFormed, low⟩, others⟩ := List.forall_mem_cons.mp good
    refine List.forall_mem_cons.mpr ⟨?_, others⟩
    exact Node.good_above (.leading before wellFormed) (by simpa using low)
  · rename_i node rest behind
    cases h
    obtain ⟨⟨wellFormed, low⟩, others⟩ := List.forall_mem_cons.mp good
    refine List.forall_mem_cons.mpr ⟨?_, others⟩
    exact Node.good_above (.trailing behind wellFormed) (by simpa using low)
  · -- The newest operand is the right one.
    rename_i right left rest between
    obtain ⟨⟨rightFormed, rightLow⟩, more⟩ := List.forall_mem_cons.mp good
    obtain ⟨⟨leftFormed, leftLow⟩, others⟩ := List.forall_mem_cons.mp more
    have joined : (Node.above (.call .binary operator.symbol [left.expr, right.expr])
        (max left.height right.height)).Good := by
      refine Node.good_above (.binary between other leftFormed rightFormed) ?_
      simp only [List.forall_mem_cons, List.not_mem_nil, false_implies, implies_true, and_true]
      omega
    simp only at h
    split at h
    · -- A negated operator is `NOT` around the call.
      cases h
      refine List.forall_mem_cons.mpr ⟨?_, others⟩
      exact Node.good_above (.leading rfl joined.1) (by simpa using joined.2)
    · cases h
      exact List.forall_mem_cons.mpr ⟨joined, others⟩
  · cases h

/-- `AS` never waits, so what is folded are calls of operators only. -/
theorem good_of_reduce {q : Nat} {associativity : Associativity}
    {waiting waiting' : List Operator} {nodes nodes' : List Node}
    (unnamed : ∀ operator ∈ waiting, operator ≠ .named) (good : ∀ node ∈ nodes, node.Good)
    (h : reduce? q associativity waiting nodes = some (waiting', nodes')) :
    (∀ operator ∈ waiting', operator ≠ .named) ∧ ∀ node ∈ nodes', node.Good := by
  induction waiting generalizing nodes with
  | nil =>
    cases h
    exact ⟨unnamed, good⟩
  | cons operator waiting ih =>
    obtain ⟨other, others⟩ := List.forall_mem_cons.mp unnamed
    unfold reduce? at h
    split at h
    · split at h
      · rename_i reduced applied
        exact ih others (good_of_applied other good applied) h
      · cases h
    · cases h
      exact ⟨unnamed, good⟩

/-! ### Frames and levels -/

namespace Bracket

/-- What a bracket was opened with is good. -/
def Good (height : Nat) : Bracket → Prop
  | parens | braces => True
  | function name => BareName name
  | method receiver name => receiver.Fine height ∧ name ≠ ""

/-- The bracket can hold an item: an expression, or an argument that was left out. -/
def Holds (bracket : Bracket) (height : Nat) (x : Expr) : Prop :=
  x.height ≤ height ∧ (x.WellFormed ∨ bracket.hasArguments = true ∧ x = .elided)

variable {bracket : Bracket} {height higher : Nat} {x : Expr}

/-- Items may be said to be higher than they are. -/
theorem Good.mono (h : bracket.Good height) (le : height ≤ higher) : bracket.Good higher := by
  cases bracket with
  | method receiver name => exact ⟨h.1.mono le, h.2⟩
  | _ => exact h

theorem Holds.mono (h : bracket.Holds height x) (le : height ≤ higher) :
    bracket.Holds higher x := ⟨Nat.le_trans h.1 le, h.2⟩

theorem Holds.argument (h : bracket.Holds height x) : x ≠ .elided → x.WellFormed :=
  fun present => h.2.resolve_right fun gap => present gap.2

theorem Holds.wellFormed (h : bracket.Holds height x) (full : bracket.hasArguments = false) :
    x.WellFormed := h.2.resolve_right fun gap => by simp [full] at gap

/-- What a bracket makes of its items is good. -/
theorem good_node {items : List Expr} (good : bracket.Good height)
    (holds : ∀ x ∈ items, bracket.Holds height x) (nonempty : items ≠ [])
    (single : ∀ name, bracket = .function name → items ≠ [.elided]) :
    (bracket.node items height).Good := by
  have low : ∀ x ∈ items, x.height ≤ height := fun x mem => (holds x mem).1
  cases bracket with
  | parens =>
    have wellFormed : ∀ x ∈ items, x.WellFormed := fun x mem => (holds x mem).wellFormed rfl
    -- A single item in parentheses is itself; only more of them are a tuple.
    match items, nonempty with
    | [x], _ => exact ⟨wellFormed x List.mem_cons_self, low x List.mem_cons_self⟩
    | x :: y :: more, _ => exact Node.good_above (.tuple (by simp) wellFormed) low
  | braces =>
    exact Node.good_above (.braces fun x mem => (holds x mem).wellFormed rfl) low
  | function name =>
    exact Node.good_above (.function good (fun x mem => (holds x mem).argument) (single name rfl))
      low
  | method receiver name =>
    refine Node.good_above
      (.method good.2 good.1.1 nonempty fun x mem => (holds x mem).argument) ?_
    exact List.forall_mem_cons.mpr ⟨good.1.2, low⟩

end Bracket

/-- What was read of a branch is good; `ELSE` comes behind at least one. -/
def CaseStage.Good (branches : List (Expr × Expr)) (height : Nat) : CaseStage → Prop
  | operand | condition => True
  | result tested => tested.Fine height
  | otherwise => branches ≠ []

/-- Everything a frame holds is good and at most `height` high. -/
def Frame.Good (height : Nat) : Frame → Prop
  | whole | cast => True
  | items bracket found => bracket.Good height ∧ ∀ x ∈ found, bracket.Holds height x
  | case operand branches stage =>
    (∀ x ∈ operand, x.Fine height) ∧
      (∀ branch ∈ branches, branch.1.Fine height ∧ branch.2.Fine height) ∧
      stage.Good branches height

theorem Frame.Good.mono {frame : Frame} {height higher : Nat} (h : frame.Good height)
    (le : height ≤ higher) : frame.Good higher := by
  cases frame with
  -- The height of a level only grows, so what is good for less stays good.
  | items bracket items => exact ⟨h.1.mono le, fun x mem => (h.2 x mem).mono le⟩
  | case operand branches stage =>
    refine ⟨fun x mem => (h.1 x mem).mono le, fun branch mem => ?_, ?_⟩
    · exact ⟨(h.2.1 branch mem).1.mono le, (h.2.1 branch mem).2.mono le⟩
    · cases stage with
      | result tested => exact Expr.Fine.mono h.2.2 le
      | otherwise => exact h.2.2
      | _ => trivial
  | _ => trivial

/-- Everything a level holds is good, and `AS` does not wait. -/
structure Level.Good (level : Level) : Prop where
  frame : level.frame.Good level.height
  operands : ∀ node ∈ level.operands, node.Good
  operators : ∀ operator ∈ level.operators, operator ≠ .named

namespace Level

theorem good_start {frame : Frame} {height : Nat} (h : frame.Good height) :
    (start frame height).Good := ⟨h, by simp [start], by simp [start]⟩

theorem Good.push {level : Level} {node : Node} (h : level.Good) (good : node.Good) :
    (level.push node).Good := ⟨h.frame, List.forall_mem_cons.mpr ⟨good, h.operands⟩, h.operators⟩

theorem Good.pushOperator {level : Level} {operator : Operator} (h : level.Good)
    (other : operator ≠ .named) : (level.pushOperator operator).Good :=
  ⟨h.frame, h.operands, List.forall_mem_cons.mpr ⟨other, h.operators⟩⟩

theorem Good.reduce {level level' : Level} {q : Nat} {associativity : Associativity}
    (h : level.Good) (reduced : level.reduce? q associativity = some level') : level'.Good := by
  unfold Level.reduce? at reduced
  obtain ⟨⟨waiting, nodes⟩, found, rfl⟩ := Option.map_eq_some_iff.mp reduced
  obtain ⟨unnamed, good⟩ := good_of_reduce h.operators h.operands found
  exact ⟨h.frame, good, unnamed⟩

theorem Good.finish {level : Level} {node : Node} (h : level.Good)
    (finished : level.finish? = some node) : node.Good := by
  unfold finish? at finished
  split at finished
  · rename_i frame last operators height reduced
    cases finished
    exact (h.reduce reduced).operands node List.mem_cons_self
  · cases finished

end Level

/-! ### Engines -/

namespace Engine

variable {e : Engine} {r : Reader}

/-- All levels are good. -/
structure Settled (e : Engine) : Prop where
  top : e.top.Good
  below : ∀ level ∈ e.below, level.Good

/-- The first argument of a function is not left out in front of the closing parenthesis. -/
def Opens (e : Engine) (r : Reader) : Prop :=
  ∀ name, e.top.frame = .items (.function name) [] → e.top.acceptsGap = true →
    r.token.isSymbol .closeParen = false

/-- An argument was left out, and what comes next makes it an item of its frame. -/
structure Gap (e : Engine) (bracket : Bracket) (items : List Expr) (r : Reader) : Prop where
  frame : e.top.frame = .items bracket items
  hasArguments : bracket.hasArguments = true
  good : e.top.frame.Good e.top.height
  operands : e.top.operands = [.leaf .elided]
  operators : e.top.operators = []
  below : ∀ level ∈ e.below, level.Good
  next : r.token.isSymbol .comma = true ∨
    r.token.isSymbol .closeParen = true ∧ ∀ name, bracket = .function name → items ≠ []

/-- **Everything an engine holds is good.** -/
def Good (e : Engine) (r : Reader) : Prop :=
  r.Sound ∧
    match e.phase with
    | .operand => e.Settled ∧ e.Opens r
    | .access node => e.Settled ∧ node.Good
    | .operator => e.Settled ∨ ∃ bracket items, e.Gap bracket items r

/-- The expression of a run that ended is well formed and within the limit. -/
def Finished (node : Node) (r : Reader) : Prop :=
  node.expr.WellFormed ∧ r.depth + node.expr.height ≤ r.limit

/-- An outcome is good. -/
def GoodOn : Outcome → Reader → Prop := Outcome.Holds Good Finished

theorem good_reach {node : Node} (sound : r.Sound) (settled : e.Settled) (good : node.Good) :
    (e.reach node).Good r := ⟨sound, ⟨settled.top, settled.below⟩, good⟩

theorem good_push {node : Node} (sound : r.Sound) (settled : e.Settled) (good : node.Good) :
    (e.push node).Good r := ⟨sound, .inl ⟨settled.top.push good, settled.below⟩⟩

theorem good_await {operator : Operator} (sound : r.Sound) (settled : e.Settled)
    (other : operator ≠ .named) : (e.await operator).Good r := by
  refine ⟨sound, ⟨settled.top.pushOperator other, settled.below⟩, fun name _ accepts => ?_⟩
  simp [await, Level.acceptsGap, Level.pushOperator] at accepts

/-- The first argument of a function is there, as the parenthesis is not closed at once. -/
theorem good_enter {frame : Frame} {height : Nat} (sound : r.Sound) (settled : e.Settled)
    (good : frame.Good height) (opens : ∀ name, frame = .items (.function name) [] →
      r.token.isSymbol .closeParen = false) : Leads (e.enter frame height) Good True r := by
  refine Leads.checkHeight (fun _ => Leads.note (Leads.pure ?_)) fun _ => trivial
  refine ⟨sound, ⟨Level.good_start good, ?_⟩, fun name same _ => opens name same⟩
  exact List.forall_mem_cons.mpr ⟨settled.top, settled.below⟩

/-- A level goes on with its next item. -/
theorem good_resume {frame : Frame} {height : Nat} (sound : r.Sound)
    (below : ∀ level ∈ e.below, level.Good) (good : frame.Good height)
    (more : ∀ name, frame ≠ .items (.function name) []) : (e.resume frame height).Good r :=
  ⟨sound, ⟨Level.good_start good, below⟩, fun name same _ => absurd same (more name)⟩

/-! ### Operands -/

/-- What may be a function is a bare name. -/
theorem good_nameOrFunction {name : String} (bare : BareName name) (sound : r.Sound)
    (settled : e.Settled) : Leads (e.nameOrFunction name) Good True r := by
  refine Leads.ite (fun _ => ?_) fun _ => Leads.pure ?_
  · refine Leads.advance.bind fun _ after moved _ => ?_
    refine Leads.ite (fun _ => ?_) fun further => ?_
    · refine Leads.advance.bind fun _ last left _ => Leads.pure ?_
      refine good_reach (left.sound (moved.sound sound)) settled ?_
      exact Node.good_above (.function bare (by simp) (by simp)) (by simp)
    · -- No closing parenthesis comes first: this is where `Opens` of a function begins to hold.
      refine good_enter (moved.sound sound) settled ⟨bare, by simp⟩ fun _ _ => ?_
      exact Bool.eq_false_iff.mpr further
  · exact good_reach sound settled (Node.good_identifier bare)

/-- A word that was scanned as one is no reserved word. -/
theorem bareName_of_word {name : String} (sound : (Token.word name).Sound) : BareName name :=
  valid_of_name sound rfl

/-- A keyword that is not reserved is a name as it is spelled. -/
theorem bareName_of_keyword {k : Keyword} {spelling : String}
    (sound : (Token.keyword k spelling).Sound) (free : ¬ k.isReserved = true) :
    BareName spelling :=
  valid_of_name sound ((name?_keyword k spelling).trans (if_neg free))

/-- What a token makes by itself is well formed. -/
theorem good_atom (sound : r.Sound) (settled : e.Settled) : Leads e.atom Good True r := by
  refine Leads.get (Leads.advance.bind fun _ after moved _ => ?_)
  have later := moved.sound sound
  have first := sound.1
  cases token : r.token with
  | number value =>
    exact Leads.pure (good_reach later settled (Node.good_leaf (.number _) (by simp [Expr.height])))
  | string value quote =>
    exact Leads.pure (good_reach later settled (Node.good_leaf (.string _) (by simp [Expr.height])))
  | word name =>
    rw [token] at first
    exact good_nameOrFunction (bareName_of_word first) later settled
  | keyword k spelling =>
    rw [token] at first
    refine Leads.ite (fun _ => Leads.pure ?_) fun _ => ?_
    · exact good_reach later settled (Node.good_leaf .null (by simp [Expr.height]))
    · refine Leads.ite (fun _ => Leads.throw nofun) fun free => ?_
      exact good_nameOrFunction (bareName_of_keyword first free) later settled
  | bracketed name =>
    refine Leads.ite (fun _ => Leads.throw nofun) fun nonempty => Leads.pure ?_
    refine good_reach later settled (Node.good_identifier fun empty => nonempty ?_)
    exact String.isEmpty_iff.mpr empty
  | bracketedKey name | wordKey name =>
    rw [token] at first
    refine (leads_keyFrom first later).bind fun key last left valid => Leads.pure ?_
    exact good_reach (left.sound later) settled (Node.good_identifier valid)
  | symbol s => exact Leads.throw nofun
  | endOfText => exact Leads.throw nofun

/-- An argument that is left out leaves a gap that the next token fills. -/
theorem good_gap (sound : r.Sound) (settled : e.Settled) (opens : e.Opens r)
    (gap : ((r.token.isSymbol .comma || r.token.isSymbol .closeParen) && e.top.acceptsGap) = true) :
    (e.push (.leaf .elided)).Good r := by
  obtain ⟨ends, accepts⟩ := Bool.and_eq_true_iff.mp gap
  have accepts' := accepts
  simp only [Level.acceptsGap, Bool.and_eq_true, List.isEmpty_iff] at accepts'
  obtain ⟨⟨hasArguments, operands⟩, operators⟩ := accepts'
  cases frame : e.top.frame with
  | items bracket items =>
    refine ⟨sound, .inr ⟨bracket, items, frame, ?_, settled.top.frame, ?_, operators,
      settled.below, ?_⟩⟩
    · rw [frame] at hasArguments
      exact hasArguments
    · simp [push, Level.push, operands]
    · rcases Bool.or_eq_true_iff.mp ends with comma | closes
      · exact .inl comma
      · refine .inr ⟨closes, ?_⟩
        -- A function with nothing before the gap was not opened in front of a closing parenthesis.
        rintro name rfl rfl
        have open' := opens name frame accepts
        rw [closes] at open'
        cases open'
  | _ =>
    rw [frame] at hasArguments
    cases hasArguments

/-- An argument is left out only where one may be. -/
theorem good_operandStep (sound : r.Sound) (settled : e.Settled) (opens : e.Opens r) :
    Leads e.operandStep Good True r := by
  refine Leads.get ?_
  split
  · rename_i operator leads
    refine Leads.checkHeight (fun _ => ?_) fun _ => trivial
    refine Leads.advance.bind fun _ after moved _ => Leads.pure ?_
    refine good_await (moved.sound sound) settled ?_
    -- `AS` is not among the operators in front of an operand.
    rintro rfl
    unfold Operator.leading? at leads
    split at leads <;> cases leads
  refine Leads.ite (fun _ => ?_) fun _ => ?_
  · refine Leads.advance.bind fun _ after moved _ => ?_
    exact good_enter (moved.sound sound) settled ⟨trivial, by simp⟩ (by rintro _ ⟨⟩)
  refine Leads.ite (fun _ => ?_) fun _ => ?_
  · refine Leads.advance.bind fun _ after moved _ => ?_
    refine Leads.atSymbol (fun _ => ?_) ?_
    · refine Leads.advance.bind fun _ last left _ => Leads.pure ?_
      refine good_reach (left.sound (moved.sound sound)) settled ?_
      exact Node.good_above (.braces (by simp)) (by simp)
    · exact good_enter (moved.sound sound) settled ⟨trivial, by simp⟩ (by rintro _ ⟨⟩)
  refine Leads.ite (fun _ => ?_) fun _ => ?_
  · refine Leads.advance.bind fun _ after moved _ => ?_
    refine Leads.atKeyword (fun _ => ?_) ?_
    · refine Leads.advance.bind fun _ last left _ => ?_
      exact good_enter (left.sound (moved.sound sound)) settled
        ⟨by simp, by simp, trivial⟩ (by rintro _ ⟨⟩)
    · exact good_enter (moved.sound sound) settled ⟨by simp, by simp, trivial⟩ (by rintro _ ⟨⟩)
  refine Leads.ite (fun _ => ?_) fun _ => ?_
  · refine Leads.advance.bind fun _ after moved _ => ?_
    refine Leads.expectClosing.bind fun _ last left _ => ?_
    exact good_enter (left.sound (moved.sound sound)) settled trivial (by rintro _ ⟨⟩)
  exact Leads.ite (fun gap => Leads.pure (good_gap sound settled opens gap)) fun _ =>
    good_atom sound settled

/-! ### Accesses -/

/-- What a dot leads to is good: a node, or the name of a method. -/
def GoodAccess : Access → Prop
  | .reached next => next.Good
  | .method name => name ≠ ""

theorem ne_empty_of_isWord {text : String} (h : isWord text = true) : text ≠ "" := by
  rintro rfl
  simp [isWord] at h

section Access

variable {receiver next : Node} (good : receiver.Good)

include good

/-- A property is put on top of its receiver. -/
theorem good_property {form : CallForm} {name : String}
    (wellFormed : (Expr.call form name [receiver.expr]).WellFormed) :
    (property form name receiver).Good :=
  Node.good_above wellFormed (by simpa using good.2)

/-- The name of a method is not empty. -/
theorem good_methodOr {name : String} {plain : ReadM Access} (named : name ≠ "")
    (h : Leads plain (fun access _ => GoodAccess access) True r) :
    Leads (methodOr receiver name plain) (fun access _ => GoodAccess access) True r := by
  refine Leads.atSymbol (fun _ => ?_) h
  refine Leads.advance.bind fun _ after _ _ => ?_
  refine Leads.atSymbol (fun _ => ?_) (Leads.pure named)
  refine Leads.advance.bind fun _ last _ _ => Leads.pure ?_
  refine Node.good_above (.method named good.1 (by simp) (by simp)) ?_
  simp only [List.forall_mem_cons, height_elided, List.not_mem_nil, false_implies, implies_true,
    and_true, Nat.zero_le]
  exact good.2

/-- A property has a name, and a key has a part. -/
theorem good_bracketedAccess {name : String} {place : Position} (named : name ≠ "")
    (h : bracketedAccess receiver name place = .ok next) : next.Good := by
  unfold bracketedAccess at h
  split at h
  · cases h
  · rename_i stripped nonempty found
    cases h
    -- An ampersand with something behind it: the name of a key.
    refine good_property good (.keyProperty ?_ good.1)
    intro empty
    rw [String.ofList_eq_empty_iff] at empty
    exact nonempty empty
  · rename_i single keyed
    have plain : ¬ StartsWithAmpersand name := fun ⟨rest, found⟩ => keyed rest found
    split at h
    · rename_i id found
      cases h
      have wellFormed := wellFormed_of_identifier (found ▸ good.1)
      exact Node.good_identifier ⟨wellFormed, rfl, named, plain⟩
    · rename_i other
      cases h
      exact good_property good (.quotedProperty named plain other good.1)

/-- A key of several parts is attached to identifiers only. -/
theorem good_keyAccess {key : Key} {place : Position} (valid : key.Valid)
    (h : keyAccess receiver key place = .ok next) : next.Good := by
  obtain ⟨⟨text, quoting⟩, more⟩ := key
  have first : (⟨text, quoting⟩ : Name).ValidPart := valid _ List.mem_cons_self
  unfold keyAccess at h
  split at h
  · rename_i single bare
    cases single
    cases bare
    cases h
    exact good_property good (.wordProperty first good.1)
  · -- An identifier takes the key as a segment, unless it is a single bare part.
    rename_i id found longer
    cases h
    have wellFormed := wellFormed_of_identifier (found ▸ good.1)
    refine Node.good_identifier ⟨wellFormed, valid, fun single => ?_⟩
    cases quoting with
    | quoted => rfl
    | bare => exact absurd rfl (longer single)
  · rename_i single quoted _
    cases quoted
    cases h
    exact good_property good (.keyProperty first good.1)
  · cases h

theorem good_memberAccess (sound : r.Sound) :
    Leads (memberAccess receiver) (fun access _ => GoodAccess access) True r := by
  refine Leads.get (Leads.advance.bind fun _ after moved _ => ?_)
  have later := moved.sound sound
  have first := sound.1
  cases token : r.token with
  | word name =>
    rw [token] at first
    have bare := bareName_of_word first
    exact good_methodOr good (ne_empty_of_isWord bare.1)
      (Leads.pure (good_property good (.property bare good.1)))
  | keyword k spelling =>
    rw [token] at first
    refine Leads.ite (fun _ => Leads.throw nofun) fun free => ?_
    have bare := bareName_of_keyword first free
    exact good_methodOr good (ne_empty_of_isWord bare.1)
      (Leads.pure (good_property good (.property bare good.1)))
  | bracketed name =>
    refine Leads.ite (fun _ => Leads.throw nofun) fun nonempty => ?_
    have named : name ≠ "" := fun empty => nonempty (String.isEmpty_iff.mpr empty)
    have judged : Leads (judge (bracketedAccess receiver name r.place)) (fun next _ => next.Good)
        True after :=
      Leads.judge (fun _ found => good_bracketedAccess good named found) fun _ _ _ => trivial
    exact good_methodOr good named (judged.bind fun _ _ _ good => Leads.pure good)
  | bracketedKey name | wordKey name =>
    rw [token] at first
    refine (leads_keyFrom first later).bind fun key last left valid => ?_
    have judged : Leads (judge (keyAccess receiver key r.place)) (fun next _ => next.Good)
        True last :=
      Leads.judge (fun _ found => good_keyAccess good valid found) fun _ _ _ => trivial
    exact judged.bind fun _ _ _ good => Leads.pure good
  | _ => exact Leads.throw nofun

theorem good_accessStep (sound : r.Sound) (settled : e.Settled) :
    Leads (e.accessStep receiver) Good True r := by
  refine Leads.atSymbol (fun _ => ?_) ?_
  · refine Leads.advance.bind fun _ after moved _ => ?_
    have later := moved.sound sound
    refine (good_memberAccess good later).bind fun access last left fine => ?_
    cases access with
    | reached next =>
      refine Leads.checkHeight (fun _ => Leads.pure ?_) fun _ => trivial
      exact good_reach (left.sound later) settled fine
    | method name =>
      -- The receiver waits in the frame of the method, with its height as that of the level.
      exact good_enter (left.sound later) settled ⟨⟨good, fine⟩, by simp⟩ (by nofun)
  · refine Leads.checkHeight (fun _ => Leads.pure ?_) fun _ => trivial
    exact good_push sound settled good

end Access

/-! ### Operators -/

section Operators

variable (sound : r.Sound) (settled : e.Settled)

include sound settled

/-- What is pushed is another operator than `AS`. -/
theorem good_pushBinary {operator : Operator} (other : operator ≠ .named) :
    Leads (e.pushBinary operator) GoodOn True r := by
  unfold pushBinary
  split
  · rename_i top reduced
    refine Leads.checkHeight (fun _ => ?_) fun _ => trivial
    refine Leads.checkHeight (fun _ => Leads.pure ?_) fun _ => trivial
    have reducedSettled : Settled { e with top } :=
      ⟨settled.top.reduce reduced, settled.below⟩
    exact good_await sound reducedSettled other
  · exact Leads.failBreaking

theorem good_pushTrailing {operator : Operator} (other : operator ≠ .named) :
    Leads (e.pushTrailing operator) GoodOn True r := by
  unfold pushTrailing
  split
  · rename_i top reduced
    have good := settled.top.reduce reduced
    split
    · rename_i operands applied
      refine Leads.checkHeight (fun _ => Leads.pure ?_) fun _ => trivial
      refine ⟨sound, .inl ⟨⟨good.frame, ?_, good.operators⟩, settled.below⟩⟩
      exact good_of_applied other good.operands applied
    · exact Leads.failBreaking
  · exact Leads.failBreaking

/-- `AS` is applied at once, and the identifier behind it is well formed. -/
theorem good_pushName : Leads e.pushName GoodOn True r := by
  refine (leads_identifier sound).bind fun id after moved valid => ?_
  split
  · rename_i frame node operands operators height reduced
    have good := settled.top.reduce reduced
    obtain ⟨first, others⟩ := List.forall_mem_cons.mp good.operands
    refine Leads.checkHeight (fun _ => Leads.pure ?_) fun _ => trivial
    refine ⟨moved.sound sound, .inl ⟨⟨good.frame, ?_, good.operators⟩, settled.below⟩⟩
    refine List.forall_mem_cons.mpr ⟨?_, others⟩
    -- An identifier is a leaf, so the height is that of what is named.
    refine Node.good_above (.named first.1 valid) ?_
    simpa [Expr.height] using first.2
  · exact Leads.failBreaking

theorem good_identityStep : Leads e.identityStep GoodOn True r := by
  refine leads_nullTest.bind fun found after moved tests => ?_
  cases found with
  | some operator =>
    have other : operator ≠ .named := by
      obtain rfl | rfl | rfl | rfl := tests operator rfl <;> decide
    refine Leads.advance.bind fun _ last left _ => ?_
    exact good_pushTrailing (left.sound (moved.sound sound)) settled other
  | none => exact good_pushBinary (moved.sound sound) settled (by decide)

theorem good_negationStep : Leads e.negationStep GoodOn True r := by
  refine Leads.atKeyword (fun _ => ?_) (Leads.atKeyword (fun _ => ?_) Leads.failExpecting)
  · exact Leads.advance.bind fun _ after moved _ =>
      good_pushBinary (moved.sound sound) settled (by decide)
  · exact Leads.advance.bind fun _ after moved _ =>
      good_pushBinary (moved.sound sound) settled (by decide)

end Operators

/-! ### The end of a level -/

section End

variable {x : Expr} {height : Nat} (sound : r.Sound) (below : ∀ level ∈ e.below, level.Good)

include sound below

/-- What was inside the brackets is good where they stood. -/
theorem good_leave {node : Node} (good : node.Good) : Leads (e.leave node) GoodOn True r := by
  refine Leads.checkHeight (fun _ => ?_) fun _ => trivial
  split
  · rename_i outer others levels
    rw [levels] at below
    obtain ⟨top, rest⟩ := List.forall_mem_cons.mp below
    exact Leads.note (Leads.pure ⟨sound, ⟨top, rest⟩, good⟩)
  · exact Leads.failBreaking

/-- An item joins those before it, and the closing symbol makes an expression of them. -/
theorem good_closeItems {bracket : Bracket} {items : List Expr} (good : bracket.Good height)
    (holds : ∀ y ∈ x :: items, bracket.Holds height y)
    (single : r.token.isSymbol .comma = true ∨
      ∀ name, bracket = .function name → x :: items ≠ [.elided]) :
    Leads (e.closeItems bracket (x :: items) height) GoodOn True r := by
  refine Leads.ite (fun _ => ?_) fun notComma => ?_
  · refine Leads.advance.bind fun _ after moved _ => Leads.pure ?_
    exact good_resume (moved.sound sound) below ⟨good, holds⟩ (by simp)
  · refine Leads.expectClosing.bind fun _ after moved _ => ?_
    refine good_leave (moved.sound sound) below (Bracket.good_node good ?_ (by simp) ?_)
    · exact fun y mem => holds y (List.mem_reverse.mp mem)
    · intro name same closed
      -- Only where the level really ends does a single item that was left out matter.
      rcases single with comma | notSingle
      · exact notComma comma
      · exact notSingle name same (List.reverse_inj.mp (by simpa using closed))

variable (fine : x.Fine height)

include fine

/-- The type of a `CAST` is its second argument. -/
theorem good_closeCast : Leads (e.closeCast x height) GoodOn True r := by
  refine Leads.atSymbol (fun _ => Leads.failBreaking) ?_
  refine Leads.expectKeyword.bind fun _ after moved _ => ?_
  refine (leads_name (moved.sound sound)).bind fun type last left valid => ?_
  refine Leads.expectClosing.bind fun _ final past _ => ?_
  have typed : type.text ≠ "" := by
    obtain ⟨text, quoting⟩ := type
    cases quoting with
    | quoted => exact valid
    | bare => exact ne_empty_of_isWord valid.1
  refine good_leave (past.sound (left.sound (moved.sound sound))) below ?_
  refine Node.good_above (.cast fine.1 typed) ?_
  simpa [Expr.height] using fine.2

/-- The stage tells which part of the `CASE` has come to its end. -/
theorem good_closeCase {operand : Option Expr} {branches : List (Expr × Expr)}
    {stage : CaseStage} (good : (Frame.case operand branches stage).Good height) :
    Leads (e.closeCase operand branches stage x height) GoodOn True r := by
  obtain ⟨operandFine, branchesFine, staged⟩ := good
  cases stage with
  | operand =>
    refine Leads.expectKeyword.bind fun _ after moved _ => Leads.pure ?_
    refine good_resume (moved.sound sound) below ⟨?_, branchesFine, trivial⟩ (by nofun)
    rintro _ ⟨⟩
    exact fine
  | condition =>
    refine Leads.expectKeyword.bind fun _ after moved _ => Leads.pure ?_
    exact good_resume (moved.sound sound) below ⟨operandFine, branchesFine, fine⟩ (by nofun)
  | result condition =>
    have more : ∀ branch ∈ (condition, x) :: branches,
        branch.1.Fine height ∧ branch.2.Fine height :=
      List.forall_mem_cons.mpr ⟨⟨staged, fine⟩, branchesFine⟩
    refine Leads.atKeyword (fun _ => ?_) (Leads.atKeyword (fun _ => ?_)
      (Leads.atKeyword (fun _ => ?_) Leads.failExpecting))
    · refine Leads.advance.bind fun _ after moved _ => Leads.pure ?_
      exact good_resume (moved.sound sound) below ⟨operandFine, more, trivial⟩ (by nofun)
    · refine Leads.advance.bind fun _ after moved _ => Leads.pure ?_
      exact good_resume (moved.sound sound) below
        ⟨operandFine, more, List.cons_ne_nil _ _⟩ (by nofun)
    · refine Leads.advance.bind fun _ after moved _ => ?_
      refine good_leave (moved.sound sound) below ?_
      exact Node.good_choice operandFine (by simp)
        (fun branch mem => more branch (List.mem_reverse.mp mem)) (by nofun)
  -- `ELSE` is reached only behind a branch, so there is one.
  | otherwise =>
    refine Leads.expectKeyword.bind fun _ after moved _ => ?_
    refine good_leave (moved.sound sound) below ?_
    refine Node.good_choice operandFine ?_
      (fun branch mem => branchesFine branch (List.mem_reverse.mp mem)) ?_
    · exact fun none => staged (List.reverse_eq_nil_iff.mp none)
    · rintro _ ⟨⟩
      exact fine

end End

/-- A level that is settled ends with a good node. -/
theorem good_closeLevel (sound : r.Sound) (settled : e.Settled) :
    Leads e.closeLevel GoodOn True r := by
  unfold closeLevel
  split
  · rename_i node finished
    have good := settled.top.finish finished
    have frame := settled.top.frame.mono (Nat.le_max_left _ node.height)
    have fine := good.mono (Nat.le_max_right e.top.height _)
    -- This is the demand that bounds the whole tree in the outermost level.
    refine Leads.checkHeight (fun fits => ?_) fun _ => trivial
    unfold closeFrame
    cases same : e.top.frame with
    | whole => exact Leads.pure ⟨good.1, Nat.le_trans (Nat.add_le_add_left good.2 _) fits⟩
    | items bracket items =>
      rw [same] at frame
      refine good_closeItems sound settled.below frame.1 ?_ (.inr ?_)
      · exact List.forall_mem_cons.mpr ⟨⟨fine.2, .inl fine.1⟩, frame.2⟩
      · intro name _ single
        exact good.1.ne_elided (List.cons.inj single).1
    | cast => exact good_closeCast sound settled.below fine
    | case operand branches stage =>
      rw [same] at frame
      exact good_closeCase sound settled.below fine frame
  · exact Leads.failBreaking

/-- A level with a gap ends with an argument that was left out. -/
theorem good_closeLevel_of_gap {bracket : Bracket} {items : List Expr} (sound : r.Sound)
    (gap : e.Gap bracket items r) : Leads e.closeLevel GoodOn True r := by
  -- Nothing waits, so the gap itself is what the level ends with.
  have finished : e.top.finish? = some (.leaf .elided) := by
    simp only [Level.finish?, Level.reduce?, gap.operands, gap.operators, reduce?, Option.map_some]
  unfold closeLevel
  rw [finished]
  refine Leads.checkHeight (fun _ => ?_) fun _ => trivial
  have good := gap.good
  unfold closeFrame
  rw [gap.frame] at good ⊢
  rw [Node.height_leaf, Nat.max_zero]
  refine good_closeItems sound gap.below good.1 ?_ ?_
  · refine List.forall_mem_cons.mpr ⟨⟨?_, .inr ⟨gap.hasArguments, rfl⟩⟩, good.2⟩
    exact Nat.le_trans (Nat.le_of_eq height_elided) (Nat.zero_le _)
  · rcases gap.next with comma | ⟨-, more⟩
    · exact .inl comma
    · refine .inr fun name same single => more name same ?_
      exact (List.cons.inj single).2

/-- An argument that was left out is followed by a comma or the end. -/
theorem good_operatorStep (sound : r.Sound)
    (h : e.Settled ∨ ∃ bracket items, e.Gap bracket items r) :
    Leads e.operatorStep GoodOn True r := by
  rcases h with settled | ⟨bracket, items, gap⟩
  · refine Leads.get (Leads.ite (fun _ => ?_) fun _ => Leads.ite (fun _ => ?_) fun _ => ?_)
    · exact Leads.advance.bind fun _ _ moved _ => good_identityStep (moved.sound sound) settled
    · exact Leads.advance.bind fun _ _ moved _ => good_negationStep (moved.sound sound) settled
    split
    · refine Leads.ite (fun _ => good_closeLevel sound settled) fun _ => ?_
      exact Leads.advance.bind fun _ _ moved _ => good_pushName (moved.sound sound) settled
    · rename_i operator other _
      exact Leads.advance.bind fun _ _ moved _ =>
        good_pushBinary (moved.sound sound) settled other
    · exact good_closeLevel sound settled
  · -- A comma or a closing parenthesis is no operator.
    have ends : e.operatorStep r = e.closeLevel r := by
      have token : r.token = .symbol .comma ∨ r.token = .symbol .closeParen :=
        gap.next.imp Token.isSymbol_iff.mp fun closes => Token.isSymbol_iff.mp closes.1
      change (if r.token.isKeyword .IS = true then _ else _ : ReadM Outcome) r = _
      rcases token with token | token <;> rw [token] <;> rfl
    have closed := good_closeLevel_of_gap sound gap
    unfold Leads at closed ⊢
    rw [ends]
    exact closed

/-- **Every step keeps an engine good.** -/
theorem good_step (e : Engine) (r : Reader) (good : e.Good r) : Leads e.step GoodOn True r := by
  obtain ⟨sound, held⟩ := good
  unfold step
  cases phase : e.phase with
  | operand =>
    rw [phase] at held
    exact (good_operandStep sound held.1 held.2).bind fun _ _ _ good => Leads.pure good
  | access node =>
    rw [phase] at held
    exact (good_accessStep held.2 sound held.1).bind fun _ _ _ good => Leads.pure good
  | operator =>
    rw [phase] at held
    exact good_operatorStep sound held

theorem good_start (sound : r.Sound) : start.Good r :=
  ⟨sound, ⟨Level.good_start trivial, by simp [start]⟩, by nofun⟩

end Engine

/-- **An expression is well formed and within the limit.** -/
theorem ReadM.good_expression {r : Reader} (sound : r.Sound) :
    Leads expression (fun x _ => x.WellFormed ∧ r.depth + x.height ≤ r.limit) True r := by
  refine (Engine.leads_run Engine.good_step Engine.start r (Engine.good_start sound)).bind
    fun node after moved finished => Leads.pure ⟨finished.1, ?_⟩
  have low := finished.2
  rw [moved.depth, moved.limit] at low
  exact low

end MdxReader
