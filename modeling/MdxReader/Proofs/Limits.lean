import MdxReader.Proofs.Likeness.Equality
import MdxReader.Proofs.Room

/-!
# What the limit on nesting does

A limit only ever turns a result into the complaint that the nesting is too deep
(`read_eq_of_limits`).  Read side by side under two limits, a text gives the same on both sides, its
errors with all their places, until the lower limit is hit; and a limit as great as the text is long
is never hit, because every level that counts is paid for by a character
(`MdxReader.Proofs.Room`).
-/

namespace MdxReader

/-- Nothing is overlooked but that the limit on the left side is the lower one. -/
def Likeness.exact : Likeness where
  place := Eq
  spelling := Eq
  number := Eq
  lenient := True
  place_refl _ := rfl
  spelling_refl _ := rfl
  number_refl _ := rfl
  toNat_eq _ _ := congrArg Decimal.toNat?

theorem Token.Like.eq {t t' : Token} (h : t.Like .exact t') : t = t' := by
  cases h with
  | same => rfl
  | respelled reserved spelling => rw [show _ = _ from spelling]
  | number value => rw [show _ = _ from value]

theorem ReadError.Like.eq {e e' : ReadError} (h : e.Like .exact e') : e = e' := by
  cases h with
  | scan => rfl
  | tooDeep => rfl
  | unexpected expected token place => rw [token.eq, show _ = _ from place]
  | reservedWord spelling place => rw [show _ = _ from spelling, show _ = _ from place]
  | endOfAxis expected place => rw [show _ = _ from place]
  | emptyName place => rw [show _ = _ from place]
  | dottedCubeName place => rw [show _ = _ from place]
  | broken rule place => rw [show _ = _ from place]

theorem Judgement.Like.eq {x x' : Except ReadError Tree} (h : Like .exact (Tree.Like .exact) x x') :
    x = x' := by
  cases h with
  | ok trees => rw [trees.eq fun _ _ => id]
  | error errors => rw [errors.eq]

/-- Under the lower of two limits the result is the same, or the limit is hit. -/
theorem read_eq_or_tooDeep (goal : Goal) (text : String) {l l' : Nat} (le : l ≤ l') :
    read goal text l = read goal text l' ∨ ∃ n, read goal text l = .error (.tooDeep n) := by
  have start : Judgement.Like .exact (Reader.Like .exact) (Reader.ofText text l)
      (Reader.ofText text l') := Reader.like_ofText (Feed.like_refl _) le (.inl trivial)
  rcases read_like goal start with alike | ⟨_, hit⟩
  · exact .inl alike.eq
  · exact .inr hit

/-- A limit of at least the length of the text is never reached. -/
theorem read_ne_tooDeep (goal : Goal) {text : String} {l : Nat} (long : text.length ≤ l) (n : Nat) :
    read goal text l ≠ .error (.tooDeep n) := by
  intro hit
  unfold read readWithEvents at hit
  cases start : Reader.ofText text l with
  | error e =>
    -- Before the first token nothing but scanning can fail.
    rw [start] at hit
    cases hit
    unfold Reader.ofText at start
    split at start <;> cases start
  | ok r =>
    rw [start] at hit
    simp only [Reader.attempt] at hit
    split at hit
    · cases hit
    · rename_i e after failed
      cases hit
      exact Goal.shallow_of_length_le start long failed n rfl

/-- **The limit only ever turns a result into a complaint about the nesting.**  Whatever a text
gives under a limit, be it a tree or an error with its place, it gives under all higher ones, unless
it is that complaint; and under a limit as great as the text is long it never is. -/
theorem read_eq_of_limits (goal : Goal) (text : String) :
    (∀ l l', l ≤ l' → (∀ n, read goal text l ≠ .error (.tooDeep n)) →
      read goal text l' = read goal text l) ∧
    ∀ l, text.length ≤ l → ∀ n, read goal text l ≠ .error (.tooDeep n) := by
  refine ⟨?_, fun l long n => read_ne_tooDeep goal long n⟩
  intro l l' le shallow
  rcases read_eq_or_tooDeep goal text le with same | ⟨n, hit⟩
  · exact same.symm
  · exact absurd hit (shallow n)

/-- A mark, a text in quotes and two parentheses are four levels; three are not enough. -/
theorem read_eq_of_limits_formula :
    (read .statement "EXPLAIN PLAN FOR WITH SET s AS '((1))' SELECT FROM c" 3).isOk = false ∧
    (read .statement "EXPLAIN PLAN FOR WITH SET s AS '((1))' SELECT FROM c" 4).isOk = true ∧
    read .statement "EXPLAIN PLAN FOR WITH SET s AS '((1))' SELECT FROM c" 60 =
      read .statement "EXPLAIN PLAN FOR WITH SET s AS '((1))' SELECT FROM c" 4 := by
  have enough : (read .statement "EXPLAIN PLAN FOR WITH SET s AS '((1))' SELECT FROM c" 4).isOk =
      true := by
    decide +kernel
  refine ⟨by decide +kernel, enough, (read_eq_of_limits _ _).1 4 60 (by decide) ?_⟩
  intro n hit
  rw [hit] at enough
  cases enough

end MdxReader
