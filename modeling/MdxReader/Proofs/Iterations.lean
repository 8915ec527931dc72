import MdxReader.Proofs.Words
import MdxReader.Reading.Expression

/-!
# The steps of a run

An engine takes no token in some of its steps: where an argument is left out, where no dot follows
an operand, and at the end of the expression.  None of these can be repeated without a token in
between, which is what `Engine.measure` is made for: it counts a token twice and the phase once, and
every step lowers it.  So the measure of an engine bounds the steps that are left
(`Engine.runFor_eq_run`), an expression is read or refused within three steps for each character of
its text and two more, and no phase comes back before a token was taken
(`Engine.runFor_of_ofText`).
-/

namespace MdxReader

namespace Engine

/-- What an engine comes to within `n` steps, or nothing if it would go on. -/
def runFor (e : Engine) : Nat → Reader → Option (EStateM.Result ReadError Reader Node)
  | 0, _ => none
  | n + 1, r =>
    match e.step r with
    | .ok (.more next) after => next.runFor n after
    | .ok (.done node) after => some (.ok node after)
    | .error error after => some (.error error after)

/-- The engine and the reader after `n` steps, or nothing if the expression is over by then. -/
def after? (e : Engine) : Nat → Reader → Option (Engine × Reader)
  | 0, r => some (e, r)
  | n + 1, r =>
    match e.step r with
    | .ok (.more next) after => next.after? n after
    | _ => none

variable {e e' : Engine} {r r' : Reader} {n : Nat}

/-- **Steps that the measure bounds are enough**: the run is over by then, with the same result. -/
theorem runFor_eq_run (enough : e.measure r < n) : e.runFor n r = some (e.run r) := by
  induction n generalizing e r with
  | zero => exact absurd enough (Nat.not_lt_zero _)
  | succ n ih =>
    rw [runFor, run_apply]
    cases found : e.step r with
    | error error after => rfl
    | ok outcome after =>
      cases outcome with
      | done node => rfl
      | more next =>
        have lower := measure_lt found
        exact ih (by omega)

/-- Every step lowers the measure by one at least. -/
theorem measure_after (h : e.after? n r = some (e', r')) : e'.measure r' + n ≤ e.measure r := by
  induction n generalizing e r with
  | zero =>
    cases h
    exact Nat.le_refl _
  | succ n ih =>
    rw [after?] at h
    split at h
    · rename_i next between found
      have lower := measure_lt found
      have later := ih h
      omega
    · cases h

/-- A phase that comes back, or one of the same rank, was paid for with a token. -/
theorem remaining_lt_of_after (h : e.after? (n + 1) r = some (e', r'))
    (back : e'.phase.rank = e.phase.rank) : r'.remaining < r.remaining := by
  have lower := measure_after h
  unfold measure at lower
  omega

/-- **The steps of an expression are few.**  From the first token of a text on, an engine comes to
its result within three steps for each character and two more, whatever the limit is.  And wherever
an engine is, it does not come back to its phase without taking a token. -/
theorem runFor_of_ofText {text : String} {limit : Nat} {first : Reader}
    (start : Reader.ofText text limit = .ok first) :
    Engine.start.runFor (3 * text.length + 2) first = some (Engine.start.run first) ∧
      ∀ (e e' : Engine) (r r' : Reader) (n : Nat), e.after? (n + 1) r = some (e', r') →
        e'.phase.rank = e.phase.rank → r'.remaining < r.remaining := by
  refine ⟨runFor_eq_run ?_, fun e e' r r' n => remaining_lt_of_after⟩
  have short := Reader.remaining_of_ofText start
  change 2 * first.remaining + 1 < 3 * text.length + 2
  omega

/-- A left-out argument costs no token, but behind it comes one: `f(,-x)` is read within twenty
steps, and with the first of them a token is gone. -/
theorem runFor_of_ofText_gap : ∃ first next after,
    Reader.ofText "f(,-x)" 2 = .ok first ∧
      Engine.start.runFor 20 first = some (Engine.start.run first) ∧
      Engine.start.after? 1 first = some (next, after) ∧ next.phase.rank = 1 ∧
      after.remaining < first.remaining := by
  have stepped : (match Reader.ofText "f(,-x)" 2 with
      | .ok first => (Engine.start.after? 1 first).any fun (next, _) => next.phase.rank == 1
      | .error _ => false) = true := by
    decide +kernel
  cases start : Reader.ofText "f(,-x)" 2 with
  | error e =>
    rw [start] at stepped
    cases stepped
  | ok first =>
    rw [start] at stepped
    obtain ⟨enough, spends⟩ := runFor_of_ofText start
    cases went : Engine.start.after? 1 first with
    | none =>
      simp only [went] at stepped
      cases stepped
    | some reached =>
      obtain ⟨next, after⟩ := reached
      simp only [went] at stepped
      have rank : next.phase.rank = 1 := beq_iff_eq.mp stepped
      exact ⟨first, next, after, rfl, enough, went, rank, spends _ _ _ _ 0 went rank⟩

end Engine

end MdxReader
