import MdxReader.Proofs.Leads

/-!
# What can go wrong

Two of the rules that a text could break, and one of the expectations it could disappoint, would
only ever tell of a mistake in the reader itself (`ReadError.Internal`).  An error is
`ReadError.Regular` if it is none of these, and is about the limit on nesting only where there is
reason for it.

`ReadM.Gives` says what a reading gives, in success and in failure.  `ReadM.Safe` is the use of it
here: from every reader of which an invariant holds, all errors are regular, and the invariant holds
again of the reader that is left.  There is one rule for each building block of a reading; with them
the readings of names, lists and counts are safe.
-/

namespace MdxReader

/-! ### Regular errors -/

/-- The errors that would tell of a mistake in the reader itself, by their words. -/
def ReadError.Internal : ReadError → Prop
  | unexpected expected _ _ => expected.describe = "key"
  | broken rule _ =>
    rule.complaint = "Malformed expression" ∨ rule.complaint = "Expected a SELECT statement"
  | _ => False

/-- The error is not internal, and it is about the limit on nesting only if `deep`. -/
def ReadError.Regular (deep : Prop) (e : ReadError) : Prop :=
  ¬ e.Internal ∧ ∀ limit, e = .tooDeep limit → deep

/-- No two expectations are described by the same word as a key. -/
theorem Expected.eq_key_of_describe {expected : Expected} (h : expected.describe = "key") :
    expected = .key := by
  cases expected with
  | key => rfl
  | symbol s => exact absurd h (by cases s <;> decide)
  | keyword k => exact absurd h (by cases k <;> decide)
  | commaOr closing => exact absurd h (by cases closing <;> decide)
  | countAfter k => exact absurd h (by cases k <;> decide)
  | _ => exact absurd h (by decide)

/-- The rule for stacks is the only one with that text. -/
theorem Rule.eq_wellFormed_of_complaint {rule : Rule}
    (h : rule.complaint = "Malformed expression") : rule = .wellFormed := by
  cases rule with
  | wellFormed => rfl
  | axisInRange n =>
    -- The number of the axis is in the middle; the first letters tell the two apart.
    have first := congrArg (fun text : String => text.toList.head?) h
    simp [complaint] at first
  | _ => exact absurd h (by decide)

/-- The rule for queries of tables is the only one with that text. -/
theorem Rule.eq_selectOnly_of_complaint {rule : Rule}
    (h : rule.complaint = "Expected a SELECT statement") : rule = .selectOnly := by
  cases rule with
  | selectOnly => rfl
  | axisInRange n =>
    have first := congrArg (fun text : String => text.toList.head?) h
    simp [complaint] at first
  | _ => exact absurd h (by decide)

namespace ReadError

variable {deep : Prop}

/-- What was expected was anything but a key. -/
theorem regular_unexpected {expected : Expected} (found : Found) (place : Position)
    (other : expected ≠ .key) : (unexpected expected found place).Regular deep :=
  ⟨fun internal => other (Expected.eq_key_of_describe internal), nofun⟩

/-- Neither of the two rules that only some readings may break. -/
theorem regular_broken {rule : Rule} (place : Position) (formed : rule ≠ .wellFormed)
    (free : rule ≠ .selectOnly) : (broken rule place).Regular deep := by
  refine ⟨?_, nofun⟩
  rintro (malformed | restricted)
  · exact formed (Rule.eq_wellFormed_of_complaint malformed)
  · exact free (Rule.eq_selectOnly_of_complaint restricted)

end ReadError

namespace ReadM

/-- Going deeper is a matter of the limit alone. -/
theorem descend_apply (r : Reader) :
    descend r = if r.limit < r.depth + 1 then .error (.tooDeep r.limit) r
      else .ok () { r with depth := r.depth + 1 } := by
  by_cases reached : r.limit < r.depth + 1
  · rw [if_pos reached]
    change ((if r.limit < r.depth + 1 then _ else _ : ReadM Unit) >>= _) r = _
    rw [if_pos reached]
    rfl
  · rw [if_neg reached]
    change ((if r.limit < r.depth + 1 then _ else _ : ReadM Unit) >>= _) r = _
    rw [if_neg reached]
    rfl

/-! ### What a reading gives -/

section Gives

variable {α β : Type} {good : α → Reader → Prop} {bad : ReadError → Reader → Prop} {r : Reader}

/-- **What a reading gives**: a `good` result or a `bad` error, each with the reader that is
left. -/
def Gives (reading : ReadM α) (good : α → Reader → Prop) (bad : ReadError → Reader → Prop)
    (r : Reader) : Prop :=
  match reading r with
  | .ok a after => good a after
  | .error e after => bad e after

theorem Gives.ok {reading : ReadM α} {a : α} {after : Reader} (h : Gives reading good bad r)
    (found : reading r = .ok a after) : good a after := by
  unfold Gives at h
  rw [found] at h
  exact h

theorem Gives.error {reading : ReadM α} {e : ReadError} {after : Reader}
    (h : Gives reading good bad r) (found : reading r = .error e after) : bad e after := by
  unfold Gives at h
  rw [found] at h
  exact h

/-- What a reading gives is told by its results and by its errors. -/
theorem Gives.of_cases {reading : ReadM α}
    (ok : ∀ a after, reading r = .ok a after → good a after)
    (error : ∀ e after, reading r = .error e after → bad e after) : Gives reading good bad r := by
  unfold Gives
  split
  · rename_i a after found
    exact ok a after found
  · rename_i e after found
    exact error e after found

/-- Less may be said of what a reading gives. -/
theorem Gives.mono {reading : ReadM α} {better : α → Reader → Prop}
    {worse : ReadError → Reader → Prop} (h : Gives reading better worse r)
    (ok : ∀ a after, better a after → good a after)
    (error : ∀ e after, worse e after → bad e after) : Gives reading good bad r :=
  Gives.of_cases (fun a after found => ok a after (h.ok found)) fun e after found =>
    error e after (h.error found)

/-- Errors of the first reading are errors of both, and its results are where the second one starts.
-/
theorem Gives.bind {x : ReadM β} {f : β → ReadM α} {between : β → Reader → Prop}
    (first : Gives x between bad r)
    (next : ∀ b after, between b after → Gives (f b) good bad after) :
    Gives (x >>= f) good bad r := by
  change match EStateM.bind x f r with | .ok a after => _ | .error e after => _
  unfold EStateM.bind
  cases found : x r with
  | error e after => exact first.error found
  | ok b after => exact next b after (first.ok found)

theorem Gives.get {f : Reader → ReadM α} (h : Gives (f r) good bad r) :
    Gives (MonadState.get >>= f) good bad r := h

/-- What every round of a loop preserves, the loop preserves. -/
theorem Gives.whileToken {test : Token → Bool} {round : α → ReadM α}
    {spends : ∀ acc r, test r.token = true → Spends (round acc) r} {acc : α} (start : good acc r)
    (kept : ∀ acc r, test r.token = true → good acc r → Gives (round acc) good bad r) :
    Gives (ReadM.whileToken test round spends acc) good bad r := by
  -- The induction is on the tokens that remain: by `spends` every round uses one up.
  induction left : r.remaining using Nat.strongRecOn generalizing r acc with
  | _ n ih =>
    unfold Gives
    rw [whileToken_apply]
    by_cases passes : test r.token = true
    · rw [if_pos passes]
      have once := kept acc r passes start
      have shorter : Gives (round acc) (fun next after => good next after ∧
          after.remaining < r.remaining) bad r :=
        Gives.of_cases
          (fun next after found => ⟨once.ok found, spends acc r passes next after found⟩)
          fun e after found => once.error found
      refine shorter.bind fun next after ⟨holds, spent⟩ => ?_
      exact ih _ (left ▸ spent) holds rfl
    · rw [if_neg passes]
      exact start

end Gives

/-! ### Safe readings -/

/-- A property of readers that moving on and noting an event preserve. -/
structure Invariant where
  holds : Reader → Prop
  advance : ∀ {r after : Reader}, holds r → ReadM.advance r = .ok () after → holds after
  note : ∀ {r : Reader} (event : LevelEvent), holds r →
    holds { r with events := event :: r.events }

section Safe

variable {α β : Type} {invariant : Invariant} {deep : Prop} {good : α → Prop}

/-- **A reading is safe** if it keeps an invariant, has `good` results only, and fails with regular
errors only. -/
def Safe (invariant : Invariant) (deep : Prop) (reading : ReadM α) (good : α → Prop) : Prop :=
  ∀ r, invariant.holds r →
    Gives reading (fun a after => good a ∧ invariant.holds after) (fun e _ => e.Regular deep) r

/-- Nothing is said of the result. -/
def Anything (_ : α) : Prop := True

/-- Less may be said of the results. -/
theorem Safe.mono {reading : ReadM α} {better : α → Prop} (h : Safe invariant deep reading better)
    (weaker : ∀ a, better a → good a) : Safe invariant deep reading good := by
  intro r holds
  exact (h r holds).mono (fun a after ⟨fine, still⟩ => ⟨weaker a fine, still⟩) fun _ _ => id

theorem Safe.pure {a : α} (h : good a) : Safe invariant deep (Pure.pure a) good :=
  fun _ holds => ⟨h, holds⟩

theorem Safe.throw {e : ReadError} (h : e.Regular deep) :
    Safe invariant deep (MonadExcept.throw e) good := fun _ _ => h

/-- The second reading is safe for the results that the first one may have. -/
theorem Safe.bind {x : ReadM β} {f : β → ReadM α} {between : β → Prop}
    (first : Safe invariant deep x between)
    (next : ∀ b, between b → Safe invariant deep (f b) good) :
    Safe invariant deep (x >>= f) good := by
  intro r holds
  exact (first r holds).bind fun b after ⟨fine, still⟩ => next b fine after still

/-- Looking at the reader is safe. -/
theorem Safe.get {f : Reader → ReadM α} (h : ∀ r, Safe invariant deep (f r) good) :
    Safe invariant deep (MonadState.get >>= f) good := fun r holds => h r r holds

theorem Safe.ite {c : Prop} [Decidable c] {x y : ReadM α} (yes : c → Safe invariant deep x good)
    (no : ¬ c → Safe invariant deep y good) : Safe invariant deep (if c then x else y) good := by
  by_cases h : c
  · rw [if_pos h]
    exact yes h
  · rw [if_neg h]
    exact no h

theorem Safe.atSymbol {s : Symbol} {x y : ReadM α} (there : Safe invariant deep x good)
    (absent : Safe invariant deep y good) :
    Safe invariant deep (do if ← ReadM.atSymbol s then x else y) good :=
  Safe.get fun _ => Safe.ite (fun _ => there) fun _ => absent

theorem Safe.atKeyword {k : Keyword} {x y : ReadM α} (there : Safe invariant deep x good)
    (absent : Safe invariant deep y good) :
    Safe invariant deep (do if ← ReadM.atKeyword k then x else y) good :=
  Safe.get fun _ => Safe.ite (fun _ => there) fun _ => absent

theorem Safe.advance : Safe invariant deep ReadM.advance Anything := by
  intro r holds
  refine Gives.of_cases (fun u after found => ⟨trivial, invariant.advance holds found⟩) ?_
  intro e after found
  unfold ReadM.advance at found
  split at found
  · cases found
  · cases found
    exact ⟨id, nofun⟩

/-- Noting an event cannot fail, and leaves the invariant alone. -/
theorem Safe.note {event : LevelEvent} : Safe invariant deep (ReadM.note event) Anything :=
  fun _ holds => ⟨trivial, invariant.note event holds⟩

/-- Expecting something else than a key is a regular failure. -/
theorem Safe.failExpecting {expected : Expected} (other : expected ≠ .key) :
    Safe invariant deep (ReadM.failExpecting expected) good :=
  Safe.get fun _ => Safe.throw (ReadError.regular_unexpected _ _ other)

/-- Breaking any other rule is a regular failure. -/
theorem Safe.failBreaking {rule : Rule} (formed : rule ≠ .wellFormed) (free : rule ≠ .selectOnly) :
    Safe invariant deep (ReadM.failBreaking rule) good :=
  Safe.get fun _ => Safe.throw (ReadError.regular_broken _ formed free)

theorem Safe.expectClosing {s : Symbol} {expected : Expected} (other : expected ≠ .key) :
    Safe invariant deep (ReadM.expectClosing s expected) Anything :=
  Safe.atSymbol Safe.advance (Safe.failExpecting other)

theorem Safe.expect {s : Symbol} : Safe invariant deep (ReadM.expect s) Anything :=
  Safe.expectClosing nofun

theorem Safe.expectKeyword {k : Keyword} :
    Safe invariant deep (ReadM.expectKeyword k) Anything :=
  Safe.atKeyword Safe.advance (Safe.failExpecting nofun)

theorem Safe.expectEnd : Safe invariant deep ReadM.expectEnd Anything :=
  Safe.get fun _ => Safe.ite (fun _ => Safe.pure trivial) fun _ => Safe.failExpecting nofun

/-- A judgement is safe if its results and its errors are. -/
theorem Safe.judge {x : Except ReadError α} (fine : ∀ a, x = .ok a → good a)
    (fault : ∀ e, x = .error e → e.Regular deep) : Safe invariant deep (ReadM.judge x) good := by
  cases x with
  | ok a => exact Safe.pure (fine a rfl)
  | error e => exact Safe.throw (fault e rfl)

/-- A demand on the nesting is safe where the limit may be hit. -/
theorem Safe.checkHeight (h : deep) (height : Nat) :
    Safe invariant deep (ReadM.checkHeight height) Anything :=
  Safe.get fun _ => Safe.ite (fun _ => Safe.throw ⟨id, fun _ _ => h⟩) fun _ => Safe.pure trivial

/-- A loop is safe if its rounds are, for all that they collect. -/
theorem Safe.whileToken {test : Token → Bool} {round : α → ReadM α}
    {spends : ∀ acc r, test r.token = true → Spends (round acc) r} {acc : α} (start : good acc)
    (kept : ∀ acc, good acc → Safe invariant deep (round acc) good) :
    Safe invariant deep (ReadM.whileToken test round spends acc) good := by
  intro r holds
  exact Gives.whileToken ⟨start, holds⟩ fun acc r _ ⟨fine, still⟩ => kept acc fine r still

/-! ### Names -/

theorem safe_name : Safe invariant deep name Anything := by
  refine Safe.get fun r => ?_
  split
  · exact Safe.advance.bind fun _ _ => Safe.pure trivial
  · refine Safe.advance.bind fun _ _ => ?_
    exact Safe.ite (fun _ => Safe.throw ⟨id, nofun⟩) fun _ => Safe.pure trivial
  · refine Safe.advance.bind fun _ _ => ?_
    exact Safe.ite (fun _ => Safe.throw ⟨id, nofun⟩) fun _ => Safe.pure trivial
  · exact Safe.failExpecting nofun

/-- Only tokens that are parts of keys are asked for the part they hold. -/
theorem regular_keyPart {place : Position} {t : Token} {e : ReadError} (part : t.isKeyPart = true)
    (h : keyPart place t = .error e) : e.Regular deep := by
  cases t with
  | bracketedKey text =>
    simp only [keyPart] at h
    split at h
    · cases h
      exact ⟨id, by simp⟩
    · cases h
  | wordKey text => cases h
  | _ => cases part

/-- The token was seen to be a part of a key, so no key is missing. -/
theorem safe_keyPart {place : Position} {t : Token} (part : t.isKeyPart = true) :
    Safe invariant deep (judge (keyPart place t)) Anything :=
  Safe.judge (fun _ _ => trivial) fun _ found => regular_keyPart part found

theorem safe_keyFrom (place : Position) {first : Token} (part : first.isKeyPart = true) :
    Safe invariant deep (keyFrom place first) Anything := by
  refine (safe_keyPart part).bind fun _ _ => ?_
  have more : Safe invariant deep
      (ReadM.whileToken Token.isKeyPart moreKey (fun _ _ => Spends.moreKey) []) Anything := by
    intro r holds
    refine Gives.whileToken ⟨trivial, holds⟩ fun parts r here still => ?_
    -- The token that a round takes is the one that passed the test of the loop.
    have round : Safe invariant deep
        (do advance; return (← judge (keyPart r.place r.token)) :: parts) Anything :=
      Safe.advance.bind fun _ _ => (safe_keyPart here).bind fun _ _ => Safe.pure trivial
    exact round r still.2
  exact more.bind fun _ _ => Safe.pure trivial

theorem safe_segment : Safe invariant deep segment Anything := by
  refine Safe.get fun r => Safe.ite (fun part => ?_) fun _ => ?_
  · refine Safe.advance.bind fun _ _ => ?_
    exact (safe_keyFrom r.place part).bind fun _ _ => Safe.pure trivial
  · exact safe_name.bind fun _ _ => Safe.pure trivial

theorem safe_identifier : Safe invariant deep identifier Anything := by
  refine safe_segment.bind fun _ _ => Safe.whileToken trivial fun id _ => ?_
  exact Safe.advance.bind fun _ _ => safe_segment.bind fun _ _ => Safe.pure trivial

/-! ### Lists and counts -/

/-- How many items there are makes no difference. -/
theorem safe_itemsAfter {item : ReadM α} (each : Safe invariant deep item Anything)
    (keeps : Keeps item) (items : List α) :
    Safe invariant deep (itemsAfter item keeps items) Anything := by
  have loop : Safe invariant deep (ReadM.whileToken (·.isSymbol .comma) (moreItems item)
      (fun _ _ => Spends.moreItems keeps) items) Anything :=
    Safe.whileToken trivial fun found _ =>
      Safe.advance.bind fun _ _ => each.bind fun _ _ => Safe.pure trivial
  exact loop.bind fun _ _ => Safe.pure trivial

theorem safe_separated {item : ReadM α} (each : Safe invariant deep item Anything)
    (keeps : Keeps item) : Safe invariant deep (separated item keeps) Anything :=
  each.bind fun _ _ => safe_itemsAfter each keeps _

theorem safe_cubeName : Safe invariant deep cubeName Anything := by
  refine safe_name.bind fun _ _ => Safe.get fun r => ?_
  exact Safe.ite (fun _ => Safe.throw ⟨id, nofun⟩) fun _ => Safe.pure trivial

theorem safe_count {expected : Expected} (other : expected ≠ .key) :
    Safe invariant deep (count expected) Anything := by
  refine Safe.get fun r => ?_
  split
  · exact Safe.advance.bind fun _ _ => Safe.pure trivial
  · exact Safe.failExpecting other

end Safe

end ReadM

/-! ### Runs of an engine -/

open ReadM

/-- What every step preserves, a run preserves. -/
theorem Engine.gives_run {invariant : Engine → Reader → Prop} {good : Node → Reader → Prop}
    {bad : ReadError → Reader → Prop}
    (kept : ∀ e r, invariant e r → Gives e.step (Outcome.Holds invariant good) bad r)
    (e : Engine) (r : Reader) (start : invariant e r) : Gives e.run good bad r := by
  -- The measure of the engine falls with every step, also where the reader stays.
  induction bound : e.measure r using Nat.strongRecOn generalizing e r with
  | _ n ih =>
    have stepped := kept e r start
    unfold Gives
    rw [run_apply]
    cases found : e.step r with
    | error error after => exact stepped.error found
    | ok outcome after =>
      have holds := stepped.ok found
      cases outcome with
      | done node => exact holds
      | more next => exact ih _ (bound ▸ measure_lt found) next after holds rfl

end MdxReader
