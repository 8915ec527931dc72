import MdxReader.Proofs.Likeness.Equality
import MdxReader.Proofs.Parsing.Statements
import MdxReader.Proofs.Spelling
import MdxReader.Proofs.Statements

/-!
# Reading depends on the tokens only

A text that is read was scanned to its end (`exists_tokensOf_of_read`).  And two texts with equal
tokens give the same, wherever the tokens stand and however reserved keywords are spelled.

There are two equalities of numbers, by value and by digits as well (`Precision`), and so of tokens
and of trees.  Both are kept by reading, but a message tells the digits of a number: texts whose
tokens are equal by value can have errors with different messages (`found_differs_in_digits`).
-/

namespace MdxReader

open ReadM

/-! ### A text that is read was scanned -/

/-- With a result, the reading has seen the end of the text. -/
def ReadM.Finishes {α : Type} (reading : ReadM α) : Prop :=
  ∀ r a after, reading r = .ok a after → after.Clean

section Finishes

variable {α β : Type} {x : ReadM α}

theorem ReadM.Finishes.bind {f : α → ReadM β} (h : ∀ a, Finishes (f a)) : Finishes (x >>= f) := by
  intro r b after found
  obtain ⟨a, _, _, last⟩ := bind_eq_ok found
  exact h a _ _ _ last

theorem ReadM.Finishes.map (h : Finishes x) (f : α → β) :
    Finishes (x >>= fun a => Pure.pure (f a)) := by
  intro r b after found
  obtain ⟨_, _, last, made⟩ := bind_eq_ok found
  cases made
  exact h _ _ _ last

theorem ReadM.finishes_expectEnd : Finishes expectEnd := fun _ _ _ h => clean_of_expectEnd h

theorem ReadM.finishes_endStatement : Finishes endStatement :=
  fun _ _ _ h => clean_of_endStatement h

end Finishes

theorem Goal.finishes_reading (goal : Goal) : Finishes goal.reading := by
  cases goal with
  | expression => exact .map (.bind fun _ => .map finishes_expectEnd _) _
  | select => exact .map (.bind fun _ => .map finishes_endStatement _) _
  | statement => exact .map (.bind fun _ => .map finishes_endStatement _) _
  | cubeName => exact .map (.bind fun _ => .map finishes_expectEnd _) _

/-- **A text that is read can be scanned**, whatever it is read as and under every limit. -/
theorem exists_tokensOf_of_read {goal : Goal} {text : String} {limit : Nat} {tree : Tree}
    (h : read goal text limit = .ok tree) : ∃ tokens, tokensOf text = .ok tokens := by
  unfold read readWithEvents at h
  cases start : Reader.ofText text limit with
  | error e =>
    rw [start] at h
    cases h
  | ok r =>
    rw [start] at h
    simp only [Reader.attempt] at h
    split at h
    · rename_i tree' after found
      have means := goal.parses_reading r
      unfold Means at means
      rw [found] at means
      have clean := clean_of_passes means.2 (goal.finishes_reading r tree' after found)
      exact Reader.exists_tokensOf_of_clean start clean
    · cases h

/-! ### Results that are the same -/

/-- How closely numbers are compared. -/
inductive Precision where
  /-- `1.50` equals `1.5`. -/
  | value
  /-- `1.50` equals only itself. -/
  | digits

namespace Precision

/-- Equality of numbers. -/
def numbers : Precision → Decimal → Decimal → Prop
  | value, d, d' => d.sameValue d' = true
  | digits, d, d' => d = d'

/-- Equality of tokens. -/
def tokens : Precision → Token → Token → Prop
  | value, t, t' => t.same t' = true
  | digits, t, t' => t = t'

/-- Equality of trees. -/
def trees : Precision → Tree → Tree → Prop
  | value, tree, tree' => tree.same tree' = true
  | digits, tree, tree' => tree = tree'

/-- What was found is described the same, or, by value, by equal numbers. -/
def found : Precision → Found → Found → Prop
  | value, a, b => a.describe = b.describe ∨
      ∃ d d' : Decimal, a = .token (.number d) ∧ b = .token (.number d') ∧ d.sameValue d' = true
  | digits, a, b => a.describe = b.describe

instance (precision : Precision) (t t' : Token) : Decidable (precision.tokens t t') :=
  match precision with
  | value => inferInstanceAs (Decidable (t.same t' = true))
  | digits => inferInstanceAs (Decidable (t = t'))

end Precision

/-- Tokens that are equal, or the same reserved keyword in two spellings. -/
inductive Token.Respelled (equal : Token → Token → Prop) : Token → Token → Prop
  | equal {t t' : Token} (same : equal t t') : Respelled equal t t'
  | keyword {k : Keyword} (reserved : k.isReserved = true) (s s' : String) :
      Respelled equal (.keyword k s) (.keyword k s')

/-- Errors of one kind that tell the same but for their places and the letter case of a reserved
word. -/
inductive ReadError.Same (found : Found → Found → Prop) : ReadError → ReadError → Prop
  | scan (e : ScanError) : Same found (.scan e) (.scan e)
  | unexpected (expected : Expected) {a b : Found} (described : found a b) (p p' : Position) :
      Same found (.unexpected expected a p) (.unexpected expected b p')
  | reservedWord {s s' : String} (letters : Text.upperCase s = Text.upperCase s')
      (p p' : Position) : Same found (.reservedWord s p) (.reservedWord s' p')
  | emptyName (p p' : Position) : Same found (.emptyName p) (.emptyName p')
  | dottedCubeName (p p' : Position) : Same found (.dottedCubeName p) (.dottedCubeName p')
  | broken (rule : Rule) (p p' : Position) : Same found (.broken rule p) (.broken rule p')
  | tooDeep (limit : Nat) : Same found (.tooDeep limit) (.tooDeep limit)

/-- Two trees that are equal, or two errors that tell the same. -/
inductive SameResult (trees : Tree → Tree → Prop) (found : Found → Found → Prop) :
    Except ReadError Tree → Except ReadError Tree → Prop
  | ok {tree tree' : Tree} (equal : trees tree tree') :
      SameResult trees found (.ok tree) (.ok tree')
  | error {e e' : ReadError} (told : e.Same found e') :
      SameResult trees found (.error e) (.error e')

/-! ### Texts with equal tokens -/

theorem Decimal.toNat?_eq_some {d : Decimal} {n : Nat} :
    d.toNat? = some n ↔ d.mantissa = n * Nat.pow 10 d.scale := by
  have positive : 0 < Nat.pow 10 d.scale := Nat.pow_pos (by decide)
  unfold Decimal.toNat?
  split
  · rename_i whole
    rw [Option.some.injEq, Nat.div_eq_iff_eq_mul_left positive (Nat.dvd_of_mod_eq_zero whole)]
  · rename_i fraction
    refine ⟨nofun, fun multiple => absurd ?_ fraction⟩
    rw [multiple, Nat.mul_mod_left]

/-- Numbers of one value count the same. -/
theorem Decimal.toNat_eq_of_sameValue {d d' : Decimal} (h : d.sameValue d' = true) :
    d.toNat? = d'.toNat? := by
  have same : d.mantissa * Nat.pow 10 d'.scale = d'.mantissa * Nat.pow 10 d.scale := by
    simpa [Decimal.sameValue] using h
  have positive : 0 < Nat.pow 10 d.scale := Nat.pow_pos (by decide)
  have positive' : 0 < Nat.pow 10 d'.scale := Nat.pow_pos (by decide)
  ext n
  rw [Decimal.toNat?_eq_some, Decimal.toNat?_eq_some]
  constructor
  · intro multiple
    rw [multiple, Nat.mul_right_comm] at same
    exact (Nat.eq_of_mul_eq_mul_right positive same).symm
  · intro multiple
    rw [multiple, Nat.mul_right_comm] at same
    exact Nat.eq_of_mul_eq_mul_right positive' same

/-- Places are overlooked, and of a keyword's spelling the letter case, and of a number what the
precision allows. -/
def Likeness.ofTokens (precision : Precision) : Likeness where
  place _ _ := True
  spelling s s' := Text.upperCase s = Text.upperCase s'
  number := precision.numbers
  lenient := False
  place_refl _ := trivial
  spelling_refl _ := rfl
  number_refl d := by
    cases precision with
    | value => simp [Precision.numbers, Decimal.sameValue]
    | digits => rfl
  toNat_eq d d' h := by
    cases precision with
    | value => exact Decimal.toNat_eq_of_sameValue h
    | digits => exact congrArg Decimal.toNat? h

variable {precision : Precision}

/-- Tokens of texts are spelled as what they are, so keywords differ in letter case only. -/
theorem Token.Respelled.like {t t' : Token} (h : Respelled precision.tokens t t') (sound : t.Sound)
    (sound' : t'.Sound) : t.Like (.ofTokens precision) t' := by
  cases h with
  | keyword reserved s s' =>
    refine .respelled reserved ?_
    exact (upperCase_of_ofWord sound.2).trans (upperCase_of_ofWord sound'.2).symm
  | equal same =>
    cases precision with
    | digits =>
      rw [show t = t' from same]
      exact .same t'
    | value =>
      have equal : t.same t' = true := same
      unfold Token.same at equal
      split at equal
      · exact .number equal
      · rw [eq_of_beq equal]
        exact .same t'

theorem like_lexemes {found found' : List Located}
    (each : List.Forall₂ (fun a b => Token.Respelled precision.tokens a.token b.token) found found')
    (sound : ∀ next ∈ found, next.token.Sound) (sound' : ∀ next ∈ found', next.token.Sound) :
    List.Forall₂ (Answer.Like (Located.Like (.ofTokens precision))) (found.map .ok)
      (found'.map .ok) := by
  induction each with
  | nil => exact .nil
  | cons first _ ih =>
    have here := first.like (sound _ List.mem_cons_self) (sound' _ List.mem_cons_self)
    refine .cons (.ok ⟨here, trivial⟩) (ih (fun next mem => ?_) fun next mem => ?_)
    · exact sound next (List.mem_cons_of_mem _ mem)
    · exact sound' next (List.mem_cons_of_mem _ mem)

/-- **Texts with equal tokens have feeds that are alike.** -/
theorem Feed.like_of_tokens {text text' : String} {tokens tokens' : List Located}
    (scanned : tokensOf text = .ok tokens) (scanned' : tokensOf text' = .ok tokens')
    (each : List.Forall₂ (fun a b => Token.Respelled precision.tokens a.token b.token)
      tokens tokens') :
    (ofText text).Like (.ofTokens precision) (ofText text') := by
  have soundIn {text : String} {found : List Located}
      (upcoming : (ofText text).upcoming = found.map .ok) (next : Located) (mem : next ∈ found) :
      next.token.Sound := by
    have listed : .ok next ∈ (ofText text).upcoming := upcoming ▸ List.mem_map_of_mem mem
    exact (sound_ofText listed).1
  obtain ⟨found, last, upcoming, ending, rfl⟩ := tokens_eq_ok scanned
  obtain ⟨found', last', upcoming', ending', rfl⟩ := tokens_eq_ok scanned'
  -- Both lists end with the end of the text, so what comes before corresponds.
  have turned := List.rel_reverse each
  simp only [List.reverse_append, List.reverse_singleton, List.singleton_append,
    List.forall₂_cons] at turned
  have inner := List.rel_reverse turned.2
  rw [List.reverse_reverse, List.reverse_reverse] at inner
  constructor
  · rw [upcoming, upcoming']
    exact like_lexemes inner (soundIn upcoming) (soundIn upcoming')
  · rw [ending, ending']
    exact .ok trivial

theorem Token.Like.found {t t' : Token} (h : t.Like (.ofTokens precision) t') :
    precision.found (.token t) (.token t') := by
  cases precision with
  | digits =>
    cases h with
    | same => exact rfl
    | respelled reserved spelling => exact rfl
    | number equal =>
      rw [show _ = _ from equal]
      exact rfl
  | value =>
    cases h with
    | same => exact .inl rfl
    | respelled reserved spelling => exact .inl rfl
    | number equal => exact .inr ⟨_, _, rfl, rfl, equal⟩

theorem ReadError.Like.same {e e' : ReadError} (h : e.Like (.ofTokens precision) e') :
    e.Same precision.found e' := by
  cases h with
  | scan e => exact .scan e
  | unexpected expected token place => exact .unexpected expected token.found _ _
  | endOfAxis expected place =>
    refine .unexpected expected ?_ _ _
    cases precision with
    | value => exact .inl rfl
    | digits => exact rfl
  | reservedWord letters place => exact .reservedWord letters _ _
  | emptyName place => exact .emptyName _ _
  | dottedCubeName place => exact .dottedCubeName _ _
  | broken rule place => exact .broken rule _ _
  | tooDeep limit => exact .tooDeep limit

theorem Judgement.Like.sameResult {x x' : Except ReadError Tree}
    (h : Like (.ofTokens precision) (Tree.Like (.ofTokens precision)) x x') :
    SameResult precision.trees precision.found x x' := by
  cases h with
  | error errors => exact .error errors.same
  | ok trees =>
    refine .ok ?_
    cases precision with
    | value => exact trees.same fun _ _ equal => equal
    | digits => exact trees.eq fun _ _ equal => equal

/-- **Reading depends on the tokens only.**  A text that is read can be scanned.  And two texts
whose tokens are equal, by value or by digits, give trees that are equal in the same sense or errors
that tell the same, whatever they are read as and under every limit: where the tokens stand and how
reserved keywords are spelled makes no difference. -/
theorem read_determined_by_tokens (goal : Goal) (limit : Nat) :
    (∀ text tree, read goal text limit = .ok tree → ∃ tokens, tokensOf text = .ok tokens) ∧
    ∀ (precision : Precision) (text text' : String) (tokens tokens' : List Located),
      tokensOf text = .ok tokens → tokensOf text' = .ok tokens' →
      List.Forall₂ (fun a b => Token.Respelled precision.tokens a.token b.token) tokens tokens' →
      SameResult precision.trees precision.found (read goal text limit)
        (read goal text' limit) := by
  refine ⟨fun text tree => exists_tokensOf_of_read, ?_⟩
  intro precision text text' tokens tokens' scanned scanned' each
  have feeds := Feed.like_of_tokens scanned scanned' each
  have start := Reader.like_ofText feeds (Nat.le_refl limit) (.inr rfl)
  rcases read_like goal start with alike | ⟨lenient, -⟩
  · exact alike.sameResult
  · exact lenient.elim

/-- Other letter case, another line and another way to write a number make no difference. -/
theorem read_determined_by_tokens_slicer :
    (∃ tokens, tokensOf "SELECT FROM c WHERE 1" = .ok tokens) ∧
    SameResult Precision.value.trees Precision.value.found
      (read .statement "SELECT FROM c WHERE 1" 9)
      (read .statement "select\nFrom c where 1.0" 9) := by
  obtain ⟨tree, found⟩ := exists_of_isOk (x := read .statement "SELECT FROM c WHERE 1" 9)
    (by decide +kernel)
  have scanned : tokensOf "SELECT FROM c WHERE 1" = .ok [
      ⟨.keyword .SELECT "SELECT", ⟨0, 1, 1⟩⟩, ⟨.keyword .FROM "FROM", ⟨7, 1, 8⟩⟩,
      ⟨.word "c", ⟨12, 1, 13⟩⟩, ⟨.keyword .WHERE "WHERE", ⟨14, 1, 15⟩⟩,
      ⟨.number ⟨1, 0, by decide, by decide⟩, ⟨20, 1, 21⟩⟩, ⟨.endOfText, ⟨21, 1, 22⟩⟩] := by
    decide +kernel
  have scanned' : tokensOf "select\nFrom c where 1.0" = .ok [
      ⟨.keyword .SELECT "select", ⟨0, 1, 1⟩⟩, ⟨.keyword .FROM "From", ⟨7, 2, 1⟩⟩,
      ⟨.word "c", ⟨12, 2, 6⟩⟩, ⟨.keyword .WHERE "where", ⟨14, 2, 8⟩⟩,
      ⟨.number ⟨10, 1, by decide, by decide⟩, ⟨20, 2, 14⟩⟩, ⟨.endOfText, ⟨23, 2, 17⟩⟩] := by
    decide +kernel
  refine ⟨(read_determined_by_tokens .statement 9).1 _ tree found,
    (read_determined_by_tokens .statement 9).2 .value _ _ _ _ scanned scanned' ?_⟩
  refine .cons (.keyword rfl _ _) (.cons (.keyword rfl _ _) (.cons (.equal (by decide)) ?_))
  exact .cons (.keyword rfl _ _) (.cons (.equal (by decide)) (.cons (.equal (by decide)) .nil))

/-- What an error says was found. -/
def foundIn? : Except ReadError Tree → Option String
  | .error (.unexpected _ found _) => some found.describe
  | _ => none

/-- Where digits count, errors describe what was found in the same words. -/
theorem SameResult.foundIn {trees : Tree → Tree → Prop} {x x' : Except ReadError Tree}
    (h : SameResult trees Precision.digits.found x x') : foundIn? x = foundIn? x' := by
  cases h with
  | ok equal => rfl
  | error told =>
    cases told with
    | unexpected expected described => exact congrArg some described
    | _ => rfl

/-- **Equality by value is not enough for the same message.**  The tokens of `1 1` and `1 1.0` are
equal by value, but one error names `number 1` and the other `number 1.0`. -/
theorem found_differs_in_digits : ∃ tokens tokens' : List Located,
    tokensOf "1 1" = .ok tokens ∧ tokensOf "1 1.0" = .ok tokens' ∧
    List.Forall₂ (fun a b => Token.Respelled Precision.value.tokens a.token b.token)
      tokens tokens' ∧
    ¬ SameResult Precision.value.trees Precision.digits.found (read .expression "1 1" 256)
      (read .expression "1 1.0" 256) := by
  refine ⟨[⟨.number ⟨1, 0, by decide, by decide⟩, ⟨0, 1, 1⟩⟩,
      ⟨.number ⟨1, 0, by decide, by decide⟩, ⟨2, 1, 3⟩⟩, ⟨.endOfText, ⟨3, 1, 4⟩⟩],
    [⟨.number ⟨1, 0, by decide, by decide⟩, ⟨0, 1, 1⟩⟩,
      ⟨.number ⟨10, 1, by decide, by decide⟩, ⟨2, 1, 3⟩⟩, ⟨.endOfText, ⟨5, 1, 6⟩⟩],
    by decide +kernel, by decide +kernel, ?_, fun same => ?_⟩
  · exact .cons (.equal (by decide)) (.cons (.equal (by decide)) (.cons (.equal (by decide)) .nil))
  · have words := same.foundIn
    have differ : foundIn? (read .expression "1 1" 256) ≠
        foundIn? (read .expression "1 1.0" 256) := by
      decide +kernel
    exact differ words

end MdxReader
