import MdxReader.Reading.Whole

/-!
# Where expressions are read

The readings of statements leave open how expressions are read (`ExprReading`).  One way is to ask a
watch before every step of an engine (`ExprReading.watched`): it raises an alarm in place of the
step.  So what is true of every state of every expression inside of a reading is said by the watches
that are never heard in it.
-/

namespace MdxReader

open ReadM

/-- Sequences do the same from a reader if their parts do, each where it is come to. -/
theorem ReadM.bind_congr_apply {α β : Type} {x y : ReadM β} {f g : β → ReadM α} {r : Reader}
    (first : x r = y r) (next : ∀ b after, y r = .ok b after → f b after = g b after) :
    (x >>= f) r = (y >>= g) r := by
  change EStateM.bind x f r = EStateM.bind y g r
  unfold EStateM.bind
  rw [first]
  cases found : y r with
  | ok b after => exact next b after found
  | error e after => rfl

/-- The reading that a goal asks for, where expressions are read in some other way. -/
def Goal.readingWith (way : ExprReading) (goal : Goal) : ReadM Tree := @Goal.reading way goal

/-! ### Under a watch -/

namespace Engine

/-- Runs an engine, and asks a watch before every step whether to raise an alarm. -/
def watched (watch : Engine → Reader → Option ReadError) (e : Engine) : ReadM Node := fun r =>
  match watch e r with
  | some alarm => .error alarm r
  | none =>
    match found : e.step r with
    | .ok (.more next) after =>
      have := measure_lt found
      next.watched watch after
    | .ok (.done node) after => .ok node after
    | .error error after => .error error after
termination_by r => e.measure r

variable {watch : Engine → Reader → Option ReadError} {e : Engine} {r : Reader}

theorem keeps_watched (watch : Engine → Reader → Option ReadError) (e : Engine) :
    Keeps (e.watched watch) := by
  intro r node after h
  induction bound : e.measure r using Nat.strongRecOn generalizing e r with
  | _ n ih =>
    unfold watched at h
    split at h
    · cases h
    · split at h
      · rename_i next between found
        exact Nat.le_trans (ih _ (bound ▸ measure_lt found) next _ h rfl)
          (e.keeps_step _ _ _ found)
      · rename_i found
        cases h
        exact e.keeps_step _ _ _ found
      · cases h

/-- A watch without anything to say where an invariant holds is not heard. -/
theorem watched_eq_run {invariant : Engine → Reader → Prop}
    (kept : ∀ e r next after, invariant e r → e.step r = .ok (.more next) after →
      invariant next after)
    (silent : ∀ e r, invariant e r → watch e r = none) (start : invariant e r) :
    e.watched watch r = e.run r := by
  induction bound : e.measure r using Nat.strongRecOn generalizing e r with
  | _ n ih =>
    rw [run_apply]
    unfold watched
    rw [silent e r start]
    simp only
    split
    · rename_i next after found
      rw [found]
      exact ih _ (bound ▸ measure_lt found) (kept e r next after start found) rfl
    · rename_i found
      rw [found]
    · rename_i found
      rw [found]

end Engine

namespace ExprReading

/-- Expressions are read under a watch. -/
@[reducible]
def watched (watch : Engine → Reader → Option ReadError) : ExprReading where
  reading := do return (← Engine.start.watched watch).expr
  keeps := .bind (Engine.keeps_watched watch _) fun _ => .pure _

theorem reading_watched {watch : Engine → Reader → Option ReadError}
    {invariant : Engine → Reader → Prop} {r : Reader}
    (kept : ∀ e r next after, invariant e r → e.step r = .ok (.more next) after →
      invariant next after)
    (silent : ∀ e r, invariant e r → watch e r = none) (start : invariant Engine.start r) :
    (watched watch).reading r = expression r :=
  bind_congr_apply (Engine.watched_eq_run kept silent start) fun _ _ _ => rfl

end ExprReading

end MdxReader
