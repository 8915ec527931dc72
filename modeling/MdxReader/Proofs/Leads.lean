import MdxReader.Proofs.Words
import MdxReader.Reading.Expression

/-!
# What readings lead to

`Reader.Reaches` collects what all readings have in common: they leave the limit and the depth as
they are, make the remaining tokens no more, and keep a sound reader sound.
`ReadM.Leads reading good deep r` says that every result of a reading from `r` is `good`, at a
reader that `r` reaches, and that the reading runs into the limit on nesting only if `deep` holds.
With `deep` true this is a statement about results only; with `deep` false it says as well that the
limit is never hit.

There is one rule for each building block of a reading, and for loops an invariant.
-/

namespace MdxReader

/-! ### Readers that can be reached -/

/-- What moving on never changes, or only in one direction. -/
structure Reader.Reaches (r after : Reader) : Prop where
  limit : after.limit = r.limit
  depth : after.depth = r.depth
  remaining : after.remaining ≤ r.remaining
  sound : r.Sound → after.Sound

namespace Reader.Reaches

variable {r between after : Reader}

theorem refl (r : Reader) : r.Reaches r := ⟨rfl, rfl, Nat.le_refl _, id⟩

theorem trans (first : r.Reaches between) (second : between.Reaches after) : r.Reaches after where
  limit := second.limit.trans first.limit
  depth := second.depth.trans first.depth
  remaining := Nat.le_trans second.remaining first.remaining
  sound h := second.sound (first.sound h)

end Reader.Reaches

namespace ReadM

/-- Moving on keeps the limit and the depth. -/
theorem reaches_of_advance {r after : Reader} (h : advance r = .ok () after) :
    r.Reaches after := by
  refine ⟨?_, ?_, (remaining_of_advance h).1, ?_⟩ <;> unfold advance Feed.pull at h
  all_goals
    cases upcoming : r.feed.upcoming with
    | nil =>
      cases ending : r.feed.ending with
      | ok place =>
        simp only [upcoming, ending, Except.map] at h
        cases h
        first | rfl | exact fun sound => ⟨trivial, sound.2⟩
      | error e =>
        simp only [upcoming, ending, Except.map] at h
        cases h
    | cons lexeme later =>
      simp only [upcoming] at h
      cases lexeme with
      | ok next =>
        cases h
        first
        | rfl
        | exact fun sound => ⟨sound.2 next (by simp [upcoming]),
            fun other mem => sound.2 other (by simp [upcoming, mem])⟩
      | error e => cases h

/-! ### Rules -/

section Leads

variable {α β : Type} {good : α → Reader → Prop} {deep : Prop} {r : Reader}

/-- **A reading leads to `good` results**, at readers it reaches, and runs into the limit on
nesting only if `deep`. -/
def Leads (reading : ReadM α) (good : α → Reader → Prop) (deep : Prop) (r : Reader) : Prop :=
  match reading r with
  | .ok a after => r.Reaches after ∧ good a after
  | .error e _ => (∃ limit, e = .tooDeep limit) → deep

/-- What a reading leads to holds of each of its results. -/
theorem Leads.ok {reading : ReadM α} {a : α} {after : Reader} (h : Leads reading good deep r)
    (found : reading r = .ok a after) : r.Reaches after ∧ good a after := by
  unfold Leads at h
  rw [found] at h
  exact h

/-- A statement about results only. -/
theorem Leads.of_ok {reading : ReadM α}
    (h : ∀ a after, reading r = .ok a after → r.Reaches after ∧ good a after) :
    Leads reading good True r := by
  unfold Leads
  split
  · rename_i a after found
    exact h a after found
  · exact fun _ => trivial

/-- Less may be said of the results, and it may be known where the reader got to. -/
theorem Leads.mono {reading : ReadM α} {better : α → Reader → Prop}
    (h : Leads reading better deep r)
    (weaker : ∀ a after, r.Reaches after → better a after → good a after) :
    Leads reading good deep r := by
  unfold Leads at h ⊢
  split <;> rename_i found <;> rw [found] at h
  · exact ⟨h.1, weaker _ _ h.1 h.2⟩
  · exact h

/-- What every result is known to be can be added. -/
theorem Leads.and_ok {reading : ReadM α} {known : α → Reader → Prop}
    (h : Leads reading good deep r) (always : ∀ a after, reading r = .ok a after → known a after) :
    Leads reading (fun a after => good a after ∧ known a after) deep r := by
  unfold Leads at h ⊢
  split <;> rename_i found <;> rw [found] at h
  · exact ⟨h.1, h.2, always _ _ found⟩
  · exact h

theorem Leads.pure {a : α} (h : good a r) : Leads (Pure.pure a) good deep r :=
  ⟨.refl r, h⟩

theorem Leads.throw {e : ReadError} (shallow : ∀ limit, e ≠ .tooDeep limit) :
    Leads (MonadExcept.throw e) good deep r :=
  fun ⟨limit, same⟩ => absurd same (shallow limit)

theorem Leads.failExpecting {expected : Expected} :
    Leads (ReadM.failExpecting expected) good deep r := fun ⟨_, same⟩ => nomatch same

theorem Leads.failBreaking {rule : Rule} : Leads (ReadM.failBreaking rule) good deep r :=
  fun ⟨_, same⟩ => nomatch same

/-- The second reading starts where the first one got to. -/
theorem Leads.bind {x : ReadM β} {f : β → ReadM α} {between : β → Reader → Prop}
    (first : Leads x between deep r)
    (next : ∀ b after, r.Reaches after → between b after → Leads (f b) good deep after) :
    Leads (x >>= f) good deep r := by
  unfold Leads at first
  change match EStateM.bind x f r with | .ok a after => _ | .error e _ => _
  unfold EStateM.bind
  cases found : x r with
  | error e after =>
    rw [found] at first
    exact first
  | ok b middle =>
    rw [found] at first
    have second := next b middle first.1 first.2
    unfold Leads at second
    simp only
    cases done : f b middle with
    | ok a after =>
      rw [done] at second
      exact ⟨first.1.trans second.1, second.2⟩
    | error e after =>
      rw [done] at second
      exact second

theorem Leads.get {f : Reader → ReadM α} (h : Leads (f r) good deep r) :
    Leads (MonadState.get >>= f) good deep r := h

theorem Leads.ite {c : Prop} [Decidable c] {x y : ReadM α} (yes : c → Leads x good deep r)
    (no : ¬ c → Leads y good deep r) : Leads (if c then x else y) good deep r := by
  split
  · exact yes (by assumption)
  · exact no (by assumption)

theorem Leads.atSymbol {s : Symbol} {x y : ReadM α}
    (there : r.token.isSymbol s = true → Leads x good deep r)
    (absent : Leads y good deep r) : Leads (do if ← ReadM.atSymbol s then x else y) good deep r :=
  Leads.ite there fun _ => absent

theorem Leads.atKeyword {k : Keyword} {x y : ReadM α}
    (there : r.token.isKeyword k = true → Leads x good deep r)
    (absent : Leads y good deep r) : Leads (do if ← ReadM.atKeyword k then x else y) good deep r :=
  Leads.ite there fun _ => absent

/-- Moving on takes a token, unless there is none. -/
theorem Leads.advance : Leads ReadM.advance
    (fun _ after => r.token ≠ .endOfText → after.remaining < r.remaining) deep r := by
  unfold Leads
  cases found : ReadM.advance r with
  | ok u after => exact ⟨reaches_of_advance found, (remaining_of_advance found).2⟩
  | error e after =>
    -- Moving on fails with what the feed answers, and the feed knows no limit.
    rintro ⟨limit, rfl⟩
    unfold ReadM.advance at found
    split at found <;> cases found

theorem Leads.expectClosing {s : Symbol} {expected : Expected} :
    Leads (ReadM.expectClosing s expected)
      (fun _ after => after.remaining < r.remaining) deep r :=
  Leads.atSymbol
    (fun there => Leads.advance.mono fun _ _ _ spent =>
      spent (Token.ne_endOfText_of_isSymbol there))
    Leads.failExpecting

theorem Leads.expectKeyword {k : Keyword} :
    Leads (ReadM.expectKeyword k) (fun _ after => after.remaining < r.remaining) deep r :=
  Leads.atKeyword
    (fun there => Leads.advance.mono fun _ _ _ spent =>
      spent (Token.ne_endOfText_of_isKeyword there))
    Leads.failExpecting

/-- A judgement is too deep only if its error is. -/
theorem Leads.judge {x : Except ReadError α} (fine : ∀ a, x = .ok a → good a r)
    (shallow : ∀ e, x = .error e → (∃ limit, e = .tooDeep limit) → deep) :
    Leads (ReadM.judge x) good deep r := by
  cases x with
  | ok a => exact Leads.pure (fine a rfl)
  | error e => exact shallow e rfl

/-- A demand on the nesting that passes, or would have to be excused. -/
theorem Leads.checkHeight {height : Nat} {f : Unit → ReadM α}
    (fits : r.depth + height ≤ r.limit → Leads (f ()) good deep r)
    (excess : r.limit < r.depth + height → deep) :
    Leads (ReadM.checkHeight height >>= f) good deep r := by
  change Leads ((if r.limit < r.depth + height then MonadExcept.throw (.tooDeep r.limit)
    else Pure.pure ()) >>= f) good deep r
  split
  · rename_i tooDeep
    exact fun _ => excess tooDeep
  · rename_i within
    exact fits (Nat.le_of_not_lt within)

theorem Leads.note {event : LevelEvent} {f : Unit → ReadM α}
    (h : Leads (f ()) good deep { r with events := event :: r.events }) :
    Leads (ReadM.note event >>= f) good deep r := by
  have noted : Leads (ReadM.note event)
      (fun _ after => after = { r with events := event :: r.events }) deep r :=
    ⟨⟨rfl, rfl, Nat.le_refl _, id⟩, rfl⟩
  exact noted.bind fun _ _ _ same => same ▸ h

/-- An invariant of the rounds holds after the loop. -/
theorem Leads.whileToken {test : Token → Bool} {round : α → ReadM α}
    {spends : ∀ acc r, test r.token = true → Spends (round acc) r} {invariant : α → Prop} {acc : α}
    (start : invariant acc)
    (kept : ∀ acc between, r.Reaches between → test between.token = true → invariant acc →
      Leads (round acc) (fun next _ => invariant next) deep between) :
    Leads (ReadM.whileToken test round spends acc) (fun last _ => invariant last) deep r := by
  -- The induction is on the tokens that remain: by `spends` every round uses one up.
  induction left : r.remaining using Nat.strongRecOn generalizing r acc with
  | _ n ih =>
    unfold Leads
    rw [whileToken_apply]
    by_cases passes : test r.token = true
    · rw [if_pos passes]
      have round := kept acc r (.refl r) passes start
      refine (round.and_ok (spends acc r passes)).bind fun next after reached ⟨holds, spent⟩ => ?_
      exact ih _ (left ▸ spent) holds (fun acc between later => kept acc between
        (reached.trans later)) rfl
    · rw [if_neg passes]
      exact ⟨.refl r, start⟩

/-- The reading never runs into the limit on nesting. -/
def Calm (reading : ReadM α) : Prop := ∀ r, Leads reading (fun _ _ => True) False r

/-- What is known of the results is led to by a calm reading. -/
theorem Calm.leads {reading : ReadM α} (h : Calm reading)
    (always : ∀ a after, reading r = .ok a after → good a after) :
    Leads reading good deep r := by
  have calm := (h r).and_ok always
  unfold Leads at calm ⊢
  split <;> rename_i found <;> rw [found] at calm
  · exact ⟨calm.1, calm.2.2⟩
  · exact fun tooDeep => absurd tooDeep calm

end Leads

/-! ### Names -/

theorem calm_name : Calm name := by
  intro r
  refine Leads.get ?_
  split
  · exact Leads.advance.bind fun _ _ _ _ => Leads.pure trivial
  · refine Leads.advance.bind fun _ _ _ _ => ?_
    exact Leads.ite (fun _ => Leads.throw nofun) fun _ => Leads.pure trivial
  · refine Leads.advance.bind fun _ _ _ _ => ?_
    exact Leads.ite (fun _ => Leads.throw nofun) fun _ => Leads.pure trivial
  · exact Leads.failExpecting

/-- A part of a key is judged without the limit. -/
theorem shallow_keyPart {place : Position} {t : Token} {e : ReadError}
    (h : keyPart place t = .error e) : ∀ limit, e ≠ .tooDeep limit := by
  unfold keyPart at h
  split at h
  · split at h <;> cases h
    nofun
  · cases h
  · cases h
    nofun

theorem calm_moreKey (parts : List Name) : Calm (moreKey parts) := by
  intro r
  refine Leads.get (Leads.advance.bind fun _ after _ _ => ?_)
  have judged : Leads (judge (keyPart r.place r.token)) (fun _ _ => True) False after :=
    Leads.judge (fun _ _ => trivial) fun e found ⟨limit, same⟩ => shallow_keyPart found limit same
  exact judged.bind fun _ _ _ _ => Leads.pure trivial

theorem calm_keyFrom (place : Position) (first : Token) : Calm (keyFrom place first) := by
  intro r
  have judged : Leads (judge (keyPart place first)) (fun _ _ => True) False r :=
    Leads.judge (fun _ _ => trivial) fun e found ⟨limit, same⟩ => shallow_keyPart found limit same
  refine judged.bind fun _ after _ _ => ?_
  -- Nothing has to be known of the parts, only that no round hits the limit.
  have more : Leads (whileToken Token.isKeyPart moreKey (fun _ _ => Spends.moreKey) [])
      (fun _ _ => True) False after :=
    Leads.whileToken trivial fun parts between _ _ _ => calm_moreKey parts between
  exact more.bind fun _ _ _ _ => Leads.pure trivial

theorem calm_segment : Calm segment := by
  intro r
  refine Leads.get (Leads.ite (fun _ => ?_) fun _ => ?_)
  · refine Leads.advance.bind fun _ after _ _ => ?_
    exact (calm_keyFrom _ _ after).bind fun _ _ _ _ => Leads.pure trivial
  · exact (calm_name r).bind fun _ _ _ _ => Leads.pure trivial

theorem calm_identifier : Calm identifier := by
  intro r
  refine (calm_segment r).bind fun _ after _ _ => ?_
  refine Leads.whileToken trivial fun id between _ _ _ => ?_
  refine Leads.advance.bind fun _ last _ _ => ?_
  exact (calm_segment last).bind fun _ _ _ _ => Leads.pure trivial

theorem calm_cubeName : Calm cubeName := fun r =>
  (calm_name r).bind fun _ _ _ _ => Leads.get (Leads.ite (fun _ => Leads.throw nofun) fun _ =>
    Leads.pure trivial)

/-! ### Lists -/

section Lists

variable {α : Type} {good : α → Prop} {deep : Prop} {r : Reader} {item : ReadM α}
  (each : ∀ between, r.Reaches between → Leads item (fun a _ => good a) deep between)

include each

/-- What holds of every item that is read holds of all. -/
theorem Leads.itemsAfter (keeps : Keeps item) {items : List α} (before : ∀ a ∈ items, good a) :
    Leads (ReadM.itemsAfter item keeps items) (fun all _ => ∀ a ∈ all, good a) deep r := by
  have loop : Leads (ReadM.whileToken (·.isSymbol .comma) (moreItems item)
      (fun _ _ => Spends.moreItems keeps) items) (fun all _ => ∀ a ∈ all, good a) deep r := by
    -- The items are found newest first; only at the end is the order put right.
    refine Leads.whileToken before fun found between reached _ fine => ?_
    refine Leads.advance.bind fun _ after moved _ => ?_
    exact (each after (reached.trans moved)).bind fun a _ _ next =>
      Leads.pure (List.forall_mem_cons.mpr ⟨next, fine⟩)
  exact loop.bind fun all _ _ fine => Leads.pure fun a mem => fine a (List.mem_reverse.mp mem)

/-- All items of a list are good if each one is. -/
theorem Leads.separated (keeps : Keeps item) :
    Leads (ReadM.separated item keeps) (fun all _ => ∀ a ∈ all, good a) deep r := by
  refine (each r (.refl r)).bind fun first after moved fine => ?_
  exact Leads.itemsAfter (fun between reached => each between (moved.trans reached)) keeps
    (List.forall_mem_cons.mpr ⟨fine, by nofun⟩)

end Lists

theorem calm_identifiers : Calm identifiers := fun r => by
  have each : Leads identifiers (fun all _ => ∀ id ∈ all, True) False r :=
    Leads.separated (fun between _ => calm_identifier between) .identifier
  exact each.mono fun _ _ _ _ => trivial

end ReadM

/-! ### Runs of an engine -/

open ReadM

/-- The tests that `IS` begins, `IS [NOT] NULL` and `IS [NOT] EMPTY`. -/
theorem Engine.leads_nullTest {deep : Prop} {r : Reader} :
    Leads nullTest (fun test _ => ∀ operator, test = some operator →
      operator = .isNull ∨ operator = .isEmpty ∨ operator = .isNotNull ∨ operator = .isNotEmpty)
      deep r := by
  refine Leads.atKeyword (fun _ => Leads.pure (by simp)) ?_
  refine Leads.atKeyword (fun _ => Leads.pure (by simp)) ?_
  refine Leads.atKeyword (fun _ => Leads.advance.bind fun _ _ _ _ => ?_) (Leads.pure (by simp))
  refine Leads.atKeyword (fun _ => Leads.pure (by simp)) ?_
  exact Leads.atKeyword (fun _ => Leads.pure (by simp)) Leads.failExpecting

/-- An invariant holds as long as a run goes on, and `good` in its end. -/
def Outcome.Holds (invariant : Engine → Reader → Prop) (good : Node → Reader → Prop) :
    Outcome → Reader → Prop
  | more e, r => invariant e r
  | done node, r => good node r

/-- **What every step preserves, a run preserves.** -/
theorem Engine.leads_run {invariant : Engine → Reader → Prop} {good : Node → Reader → Prop}
    {deep : Prop}
    (kept : ∀ e r, invariant e r → Leads e.step (Outcome.Holds invariant good) deep r)
    (e : Engine) (r : Reader) (start : invariant e r) : Leads e.run good deep r := by
  -- The measure of the engine falls with every step, also where the reader stays.
  induction bound : e.measure r using Nat.strongRecOn generalizing e r with
  | _ n ih =>
    have stepped := kept e r start
    unfold Leads at stepped ⊢
    rw [run_apply]
    cases found : e.step r with
    | error error after =>
      rw [found] at stepped
      exact stepped
    | ok outcome after =>
      rw [found] at stepped
      obtain ⟨reached, holds⟩ := stepped
      cases outcome with
      | done node => exact ⟨reached, holds⟩
      | more next =>
        have later := ih _ (bound ▸ measure_lt found) next after holds rfl
        unfold Leads at later
        simp only
        cases finished : next.run after with
        | ok node last =>
          rw [finished] at later
          exact ⟨reached.trans later.1, later.2⟩
        | error error last =>
          rw [finished] at later
          exact later

end MdxReader
