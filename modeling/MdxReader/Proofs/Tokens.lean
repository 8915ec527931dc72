import MdxReader.Proofs.Descent.Equations
import MdxReader.Reading.Names

/-!
# Readings as functions of the tokens ahead

`Reader.ahead` lists the tokens a reader still has in front of it, its own first: up to the end of
the text, or up to where scanning fails.  What a reading does is then said of that list alone.
`ReadM.Means reading k v r` says that if the reading succeeds, going on with `k` on the tokens left
gives `v`; and that where nothing is wrong with the text, it fails only if `v` is no result, or
because of the limit on nesting.

With `k` the identity this says which function of the tokens a reading computes.  For the readings
of names those functions are the ones of recursive descent (`ReadM.means_identifier`).
-/

namespace MdxReader

/-! ### The tokens ahead -/

/-- The tokens in a list of answers, up to the end of the text or the first error. -/
def Feed.aheadIn (ending : Except ScanError Position) : List Lexeme → List Located
  | .ok next :: later => if next.token = .endOfText then [next] else next :: aheadIn ending later
  | .error _ :: _ => []
  | [] =>
    match ending with
    | .ok place => [⟨.endOfText, place⟩]
    | .error _ => []

/-- The tokens of a feed, up to the end of the text or the first error. -/
def Feed.ahead (feed : Feed) : List Located := aheadIn feed.ending feed.upcoming

/-- What is ahead is one of the answers, or the end of the text. -/
theorem Feed.mem_aheadIn {ending : Except ScanError Position} {lexemes : List Lexeme}
    {next : Located} (mem : next ∈ aheadIn ending lexemes) :
    .ok next ∈ lexemes ∨ ∃ place, ending = .ok place ∧ next = ⟨.endOfText, place⟩ := by
  induction lexemes with
  | nil =>
    unfold aheadIn at mem
    cases ending with
    | ok place => exact .inr ⟨place, rfl, List.mem_singleton.mp mem⟩
    | error e => cases mem
  | cons lexeme later ih =>
    cases lexeme with
    | error e => cases mem
    | ok first =>
      rw [aheadIn] at mem
      split at mem
      · rw [List.mem_singleton.mp mem]
        exact .inl List.mem_cons_self
      · rcases List.mem_cons.mp mem with rfl | further
        · exact .inl List.mem_cons_self
        · exact (ih further).imp_left (List.mem_cons_of_mem _)

namespace Reader

/-- The token the reader stands at and those behind it, up to the end of the text or the first
error. -/
def ahead (r : Reader) : List Located :=
  ⟨r.token, r.place⟩ :: if r.token = .endOfText then [] else r.feed.ahead

/-- The tokens ahead without their places. -/
def tokens (r : Reader) : List Token := r.ahead.map Located.token

/-- The end of the text is ahead, so nothing on the way to it is wrong. -/
def Clean (r : Reader) : Prop := .endOfText ∈ r.tokens

/-- The reader got to `after` by taking tokens off the front. -/
structure Passes (r after : Reader) : Prop where
  suffix : after.ahead <:+ r.ahead
  clean : r.Clean → after.Clean

theorem Passes.refl (r : Reader) : r.Passes r := ⟨List.suffix_refl _, id⟩

theorem Passes.trans {r between after : Reader} (first : r.Passes between)
    (second : between.Passes after) : r.Passes after :=
  ⟨second.suffix.trans first.suffix, fun h => second.clean (first.clean h)⟩

theorem look_tokens (r : Reader) : Descent.look r.tokens = r.token := rfl

theorem tokens_eq (r : Reader) : r.tokens = r.token :: r.tokens.drop 1 := rfl

end Reader

namespace ReadM

/-- Moving on takes the first token off those ahead. -/
theorem ahead_of_advance {r after : Reader} (more : r.token ≠ .endOfText)
    (h : advance r = .ok () after) : r.ahead = ⟨r.token, r.place⟩ :: after.ahead := by
  unfold advance Feed.pull at h
  simp only [Reader.ahead, more, if_false, List.cons.injEq, true_and]
  -- What comes next is the next answer of the feed, or the one that repeats.
  cases upcoming : r.feed.upcoming with
  | nil =>
    cases ending : r.feed.ending with
    | ok place =>
      simp only [upcoming, ending, Except.map] at h
      cases h
      simp [Feed.ahead, Feed.aheadIn, upcoming, ending]
    | error e =>
      simp only [upcoming, ending, Except.map] at h
      cases h
  | cons lexeme later =>
    cases lexeme with
    | ok next =>
      simp only [upcoming] at h
      cases h
      simp only [Feed.ahead, Feed.aheadIn, upcoming]
      split <;> rfl
    | error e =>
      simp only [upcoming] at h
      cases h

theorem tokens_of_advance {r after : Reader} (more : r.token ≠ .endOfText)
    (h : advance r = .ok () after) : r.tokens = r.token :: after.tokens := by
  unfold Reader.tokens
  rw [ahead_of_advance more h]
  rfl

theorem passes_of_advance {r after : Reader} (more : r.token ≠ .endOfText)
    (h : advance r = .ok () after) : r.Passes after where
  suffix := by
    rw [ahead_of_advance more h]
    exact List.suffix_cons _ _
  clean clean := by
    rw [Reader.Clean, tokens_of_advance more h, List.mem_cons] at clean
    exact clean.resolve_left (Ne.symm more)

/-- Where the next token cannot be scanned, the end of the text is not ahead. -/
theorem not_clean_of_advance {r after : Reader} {e : ReadError} (more : r.token ≠ .endOfText)
    (h : advance r = .error e after) : ¬ r.Clean := by
  unfold advance Feed.pull at h
  have unfinished (none : r.feed.ahead = []) : ¬ r.Clean := by
    simp [Reader.Clean, Reader.tokens, Reader.ahead, more, none, Ne.symm more]
  -- An error cuts off what is ahead before the end of the text comes.
  apply unfinished
  cases upcoming : r.feed.upcoming with
  | nil =>
    cases ending : r.feed.ending with
    | ok place =>
      simp only [upcoming, ending, Except.map] at h
      cases h
    | error e =>
      simp [Feed.ahead, Feed.aheadIn, upcoming, ending]
  | cons lexeme later =>
    cases lexeme with
    | ok next =>
      simp only [upcoming] at h
      cases h
    | error e => simp [Feed.ahead, Feed.aheadIn, upcoming]

/-- A demand on the nesting fails in one way only. -/
theorem tooDeep_of_checkHeight {height : Nat} {e : ReadError} {r after : Reader}
    (h : checkHeight height r = .error e after) : ∃ limit, e = .tooDeep limit := by
  change (if r.limit < r.depth + height then _ else _ : ReadM Unit) r = _ at h
  split at h
  · cases h
    exact ⟨_, rfl⟩
  · cases h

/-! ### What a reading means -/

section Means

variable {α β : Type}

/-- **A reading means `v`** where the tokens left are taken over by `k`: it has a result with which
`k` gives `v`, or else, if nothing is wrong with the text, `v` is none or the nesting too deep. -/
def Means (reading : ReadM α) (k : α → List Token → Option β) (v : Option β) (r : Reader) : Prop :=
  match reading r with
  | .ok a after => k a after.tokens = v ∧ r.Passes after
  | .error e _ => r.Clean → v = none ∨ ∃ limit, e = .tooDeep limit

/-- The reading yields `v`: a value and the tokens left. -/
def Yields (reading : ReadM α) (v : Option (α × List Token)) (r : Reader) : Prop :=
  Means reading (fun a ts => some (a, ts)) v r

variable {k : α → List Token → Option β} {v : Option β} {r : Reader}

theorem Means.pure {a : α} (h : k a r.tokens = v) : Means (Pure.pure a) k v r :=
  ⟨h, .refl r⟩

theorem Means.throw {e : ReadError} (h : v = none) : Means (MonadExcept.throw e) k v r :=
  fun _ => .inl h

theorem Means.failExpecting {expected : Expected} (h : v = none) :
    Means (ReadM.failExpecting expected) k v r := fun _ => .inl h

theorem Means.failBreaking {rule : Rule} (h : v = none) :
    Means (ReadM.failBreaking rule) k v r := fun _ => .inl h

/-- A reading that comes to no result means none. -/
theorem Means.of_failing {reading : ReadM α} (fails : ∀ a after, reading r ≠ .ok a after)
    (h : v = none) : Means reading k v r := by
  unfold Means
  split
  · rename_i a after found
    exact absurd found (fails a after)
  · exact fun _ => .inl h

/-- What is left to do after a reading that came to `a` is taken over by the next one. -/
theorem Means.chain_of_ok {γ δ : Type} {x : ReadM γ} {f : γ → ReadM α}
    {h : γ → List Token → Option δ} {p : Option δ} (first : Means x h p r)
    (next : ∀ a after, x r = .ok a after → h a after.tokens = p → Means (f a) k v after)
    (none : p = none → v = none) : Means (x >>= f) k v r := by
  unfold Means at first
  change match EStateM.bind x f r with | .ok a after => _ | .error e _ => _
  unfold EStateM.bind
  cases found : x r with
  | ok a between =>
    rw [found] at first
    obtain ⟨yielded, passes⟩ := first
    have second := next a between found yielded
    unfold Means at second
    simp only
    cases done : f a between with
    | ok b after =>
      rw [done] at second
      exact ⟨second.1, passes.trans second.2⟩
    | error e after =>
      rw [done] at second
      exact fun h => second (passes.clean h)
  -- Where the first reading fails, so does the whole, and nothing was left to take over.
  | error e between =>
    rw [found] at first
    exact fun h => (first h).imp none id

/-- What is left to do after a reading is taken over by the next one. -/
theorem Means.chain {γ δ : Type} {x : ReadM γ} {f : γ → ReadM α} {h : γ → List Token → Option δ}
    {p : Option δ} (first : Means x h p r)
    (next : ∀ a after, h a after.tokens = p → Means (f a) k v after)
    (none : p = none → v = none) : Means (x >>= f) k v r :=
  Means.chain_of_ok first (fun a after _ => next a after) none

/-- What a reading yields is passed on to the next one. -/
theorem Means.bind {γ : Type} {x : ReadM γ} {f : γ → ReadM α} {p : Option (γ × List Token)}
    (first : Yields x p r)
    (next : ∀ a after, p = some (a, after.tokens) → Means (f a) k v after)
    (none : p = none → v = none) : Means (x >>= f) k v r :=
  Means.chain first (fun a after yielded => next a after yielded.symm) none

theorem Means.get {f : Reader → ReadM α} (h : Means (f r) k v r) :
    Means (MonadState.get >>= f) k v r := h

theorem Means.advance {f : Unit → ReadM α} (more : r.token ≠ .endOfText)
    (next : ∀ after, r.tokens = r.token :: after.tokens → Means (f ()) k v after) :
    Means (ReadM.advance >>= f) k v r := by
  have moved : Yields ReadM.advance (some ((), r.tokens.drop 1)) r := by
    unfold Yields Means
    cases found : ReadM.advance r with
    | ok u after =>
      have tokens := tokens_of_advance more found
      exact ⟨by rw [tokens]; rfl, passes_of_advance more found⟩
    -- Only a text with a fault keeps the reader from moving on.
    | error e after => exact fun h => absurd h (not_clean_of_advance more found)
  refine Means.bind moved (fun u after found => next after ?_) nofun
  rw [Option.some.injEq, Prod.mk.injEq] at found
  rw [← found.2]
  exact r.tokens_eq

/-- The limit on nesting is excused. -/
theorem Means.checkHeight {f : Unit → ReadM α} {height : Nat} (h : Means (f ()) k v r) :
    Means (ReadM.checkHeight height >>= f) k v r := by
  change match EStateM.bind (ReadM.checkHeight height) f r with | .ok a after => _ | .error e _ => _
  unfold EStateM.bind
  cases found : ReadM.checkHeight height r with
  | ok u after =>
    rw [eq_of_checkHeight found]
    exact h
  | error e after => exact fun _ => .inr (tooDeep_of_checkHeight found)

/-- An event changes nothing that is ahead. -/
theorem Means.note {f : Unit → ReadM α} {event : LevelEvent}
    (h : Means (f ()) k v { r with events := event :: r.events }) :
    Means (ReadM.note event >>= f) k v r := by
  have noted : r.Passes { r with events := event :: r.events } := ⟨List.suffix_refl _, id⟩
  have same : (ReadM.note event >>= f) r = f () { r with events := event :: r.events } := rfl
  unfold Means at h ⊢
  rw [same]
  split <;> rename_i found <;> rw [found] at h
  · exact ⟨h.1, noted.trans h.2⟩
  · exact h

theorem Means.atSymbol {s : Symbol} {x y : ReadM α}
    (there : r.token.isSymbol s = true → Means x k v r)
    (absent : r.token.isSymbol s = false → Means y k v r) :
    Means (do if ← ReadM.atSymbol s then x else y) k v r := by
  change Means (if r.token.isSymbol s = true then x else y) k v r
  split
  · exact there (by assumption)
  · exact absent (Bool.eq_false_iff.mpr (by assumption))

theorem Means.atKeyword {kw : Keyword} {x y : ReadM α}
    (there : r.token.isKeyword kw = true → Means x k v r)
    (absent : r.token.isKeyword kw = false → Means y k v r) :
    Means (do if ← ReadM.atKeyword kw then x else y) k v r := by
  change Means (if r.token.isKeyword kw = true then x else y) k v r
  split
  · exact there (by assumption)
  · exact absent (Bool.eq_false_iff.mpr (by assumption))

/-- A branch on a keyword inside a reading that goes on. -/
theorem Means.atKeyword_bind {γ : Type} {kw : Keyword} {x y : ReadM γ} {f : γ → ReadM α}
    (there : r.token.isKeyword kw = true → Means (x >>= f) k v r)
    (absent : r.token.isKeyword kw = false → Means (y >>= f) k v r) :
    Means ((do if ← ReadM.atKeyword kw then x else y) >>= f) k v r := by
  change Means ((if r.token.isKeyword kw = true then x else y) >>= f) k v r
  split
  · exact there (by assumption)
  · exact absent (Bool.eq_false_iff.mpr (by assumption))

theorem Means.nested {γ δ : Type} {x : ReadM γ} {g : γ → ReadM δ} {f : δ → ReadM α}
    (h : Means (x >>= fun a => g a >>= f) k v r) : Means ((x >>= g) >>= f) k v r := by
  rw [bind_assoc]
  exact h

theorem Means.expectClosing {s : Symbol} {expected : Expected} {f : Unit → ReadM α}
    (there : r.token.isSymbol s = true → ∀ after, r.tokens = r.token :: after.tokens →
      Means (f ()) k v after)
    (absent : r.token.isSymbol s = false → v = none) :
    Means (ReadM.expectClosing s expected >>= f) k v r := by
  change Means ((if r.token.isSymbol s = true then ReadM.advance
    else ReadM.failExpecting expected) >>= f) k v r
  split
  · rename_i found
    exact Means.advance (Token.ne_endOfText_of_isSymbol found) (there found)
  · rename_i found
    exact fun _ => .inl (absent (Bool.eq_false_iff.mpr found))

theorem Means.expectKeyword {kw : Keyword} {f : Unit → ReadM α}
    (there : r.token.isKeyword kw = true → ∀ after, r.tokens = r.token :: after.tokens →
      Means (f ()) k v after)
    (absent : r.token.isKeyword kw = false → v = none) :
    Means (ReadM.expectKeyword kw >>= f) k v r := by
  change Means ((if r.token.isKeyword kw = true then ReadM.advance
    else ReadM.failExpecting (.keyword kw)) >>= f) k v r
  split
  · rename_i found
    exact Means.advance (Token.ne_endOfText_of_isKeyword found) (there found)
  · rename_i found
    exact fun _ => .inl (absent (Bool.eq_false_iff.mpr found))

/-- A judgement that agrees with an option. -/
theorem Means.judge {γ : Type} {x : Except ReadError γ} {p : Option γ} {f : γ → ReadM α}
    (agrees : x.toOption = p) (next : ∀ a, p = some a → Means (f a) k v r)
    (none : p = none → v = none) : Means (ReadM.judge x >>= f) k v r := by
  cases x with
  | ok a => exact next a agrees.symm
  | error e => exact fun _ => .inl (none agrees.symm)

/-- A reading means what one that agrees with it at the reader means. -/
theorem Means.congr {x y : ReadM α} (same : x r = y r) (h : Means y k v r) : Means x k v r := by
  unfold Means
  rw [same]
  exact h

/-- One round of a loop. -/
theorem whileToken_apply (test : Token → Bool) (round : α → ReadM α)
    (spends : ∀ acc r, test r.token = true → Spends (round acc) r) (acc : α) (r : Reader) :
    whileToken test round spends acc r =
      if test r.token = true then (round acc >>= whileToken test round spends) r
      else .ok acc r := by
  conv => lhs; unfold whileToken
  split
  · change _ = EStateM.bind _ _ r
    unfold EStateM.bind
    split <;> rename_i found <;> simp only [found]
  · rfl

/-- A loop goes on with a round, or stops. -/
theorem Means.of_whileToken {test : Token → Bool} {round : α → ReadM α} {acc : α}
    {spends : ∀ acc r, test r.token = true → Spends (round acc) r}
    (goesOn : test r.token = true →
      Means (round acc >>= ReadM.whileToken test round spends) k v r)
    (stops : test r.token = false → k acc r.tokens = v) :
    Means (ReadM.whileToken test round spends acc) k v r := by
  cases passes : test r.token with
  | true =>
    refine Means.congr ?_ (goesOn passes)
    rw [whileToken_apply, if_pos passes]
  | false =>
    refine Means.congr ?_ (Means.pure (stops passes))
    rw [whileToken_apply, if_neg (by simp [passes])]
    rfl

end Means

/-! ### Names -/

/-- A name is what its token holds. -/
theorem yields_name (r : Reader) :
    Yields name ((Descent.name? r.token).map fun found => (found, r.tokens.drop 1)) r := by
  unfold name
  refine Means.get ?_
  cases token : r.token with
  | word text =>
    refine Means.advance (by simp [token]) fun after moved => Means.pure ?_
    rw [moved]
    rfl
  | keyword k spelling =>
    refine Means.advance (by simp [token]) fun after moved => ?_
    rw [moved]
    cases reserved : k.isReserved with
    | true => exact Means.throw (by simp [Descent.name?_keyword, reserved])
    | false => exact Means.pure (by simp [Descent.name?_keyword, reserved])
  | bracketed text =>
    refine Means.advance (by simp [token]) fun after moved => ?_
    rw [moved]
    cases empty : text.isEmpty with
    | true => exact Means.throw (by simp [Descent.name?, empty])
    | false => exact Means.pure (by simp [Descent.name?, empty])
  | _ => exact Means.failExpecting rfl

theorem toOption_keyPart (place : Position) (t : Token) :
    (keyPart place t).toOption = Descent.keyPart? t := by
  cases t with
  | bracketedKey text =>
    simp only [keyPart, Descent.keyPart?]
    split <;> rfl
  | _ => rfl

theorem yields_moreKey (parts : List Name) {r : Reader} (h : r.token.isKeyPart = true) :
    Yields (moreKey parts)
      ((Descent.keyPart? r.token).map fun part => (part :: parts, r.tokens.drop 1)) r := by
  unfold moreKey
  refine Means.get (Means.advance (Token.ne_endOfText_of_isKeyPart h) fun after moved => ?_)
  rw [moved]
  refine Means.judge (toOption_keyPart _ _) (fun part found => Means.pure ?_) fun found => ?_
  · rw [found]
    rfl
  · rw [found]
    rfl

/-- The further parts of a key are the key tokens that come next. -/
theorem yields_moreKeys (parts : List Name) (r : Reader) :
    Yields (whileToken Token.isKeyPart moreKey (fun _ _ => Spends.moreKey) parts)
      ((Descent.keyParts r.tokens).map fun (more, rest) => (more.reverse ++ parts, rest)) r := by
  -- The induction is on the tokens ahead: a round of the loop takes the first of them.
  induction tokens : r.tokens generalizing r parts with
  | nil => cases tokens
  | cons t ts ih =>
    obtain rfl : r.token = t := (List.cons.inj tokens).1
    rw [Descent.keyParts_cons]
    refine Means.of_whileToken (fun passes => ?_) fun fails => ?_
    · refine Means.bind (yields_moreKey parts passes) (fun next after found => ?_) fun found => ?_
      · obtain ⟨part, taken, made⟩ := Option.map_eq_some_iff.mp found
        obtain ⟨rfl, rest⟩ := Prod.mk.inj made
        rw [tokens] at rest
        have more := ih (part :: parts) after rest.symm
        simp only [passes, if_true, taken, Option.bind_some]
        cases keys : Descent.keyParts ts with
        | none =>
          rw [keys] at more
          exact more
        | some found =>
          rw [keys] at more
          simp only [Option.map_some, List.reverse_cons, List.append_assoc]
          exact more
      · rw [Option.map_eq_none_iff] at found
        simp only [passes, if_true, found, Option.bind_none, Option.map_none]
    · simp only [fails, Bool.false_eq_true, if_false, Option.map_some, tokens]
      rfl

/-- A key whose first part was taken already. -/
theorem yields_keyFrom (place : Position) (first : Token) (r : Reader) :
    Yields (keyFrom place first) (Descent.key? first r.tokens) r := by
  unfold keyFrom Descent.key?
  refine Means.judge (toOption_keyPart _ _) (fun part taken => ?_) fun taken => ?_
  · refine Means.bind (yields_moreKeys [] r) (fun more after found => Means.pure ?_) fun found => ?_
    · obtain ⟨⟨parts, rest⟩, keys, made⟩ := Option.map_eq_some_iff.mp found
      obtain ⟨rfl, rfl⟩ := Prod.mk.inj made
      simp only [taken, keys, List.append_nil, List.reverse_reverse]
    · rw [Option.map_eq_none_iff] at found
      simp only [taken, found]
  · simp only [taken]

/-- A segment is a key or a name. -/
theorem yields_segment (r : Reader) : Yields segment (Descent.segment? r.tokens) r := by
  unfold segment
  rw [r.tokens_eq, Descent.segment?_cons]
  refine Means.get ?_
  cases part : r.token.isKeyPart with
  | true =>
    refine Means.advance (Token.ne_endOfText_of_isKeyPart part) fun after moved => ?_
    rw [moved]
    refine Means.bind (yields_keyFrom _ _ after) (fun key last found => Means.pure ?_)
      fun found => ?_
    · simp only [if_true, List.drop_succ_cons, List.drop_zero, found, Option.map_some]
    · simp only [if_true, List.drop_succ_cons, List.drop_zero, found, Option.map_none]
  | false =>
    refine Means.bind (yields_name r) (fun name after found => Means.pure ?_) fun found => ?_
    · obtain ⟨taken, held, made⟩ := Option.map_eq_some_iff.mp found
      obtain ⟨rfl, rest⟩ := Prod.mk.inj made
      simp only [Bool.false_eq_true, if_false, held, Option.map_some, rest]
    · rw [Option.map_eq_none_iff] at found
      simp only [Bool.false_eq_true, if_false, found, Option.map_none]

theorem yields_nextSegment (id : Identifier) {r : Reader} (dot : r.token.isSymbol .dot = true) :
    Yields (moreSegments id) ((Descent.segment? (r.tokens.drop 1)).map fun (segment, rest) =>
      (id.dotted segment, rest)) r := by
  unfold moreSegments
  refine Means.advance (Token.ne_endOfText_of_isSymbol dot) fun after moved => ?_
  rw [moved, List.drop_succ_cons, List.drop_zero]
  refine Means.bind (yields_segment after) (fun segment last found => Means.pure ?_) fun found => ?_
  · rw [found]
    rfl
  · rw [found]
    rfl

/-- The further segments are those behind the dots that come next. -/
theorem yields_moreSegments (id : Identifier) (r : Reader) :
    Yields (whileToken (·.isSymbol .dot) moreSegments (fun _ _ => Spends.moreSegments) id)
      (Descent.moreSegments id r.tokens) r := by
  induction size : r.tokens.length using Nat.strongRecOn generalizing r id with
  | _ n ih =>
    refine Means.of_whileToken (fun dot => ?_) fun absent => ?_
    · have tokens : r.tokens = .symbol .dot :: r.tokens.drop 1 := by
        rw [← Token.isSymbol_iff.mp dot]
        exact r.tokens_eq
      rw [tokens, Descent.moreSegments_dot]
      refine Means.bind (yields_nextSegment id dot) (fun next after found => ?_) fun found => ?_
      · obtain ⟨⟨segment, rest⟩, taken, made⟩ := Option.map_eq_some_iff.mp found
        obtain ⟨rfl, rfl⟩ := Prod.mk.inj made
        -- A round takes a dot and at least one token of a segment.
        have shorter := Descent.length_segment taken
        have smaller : after.tokens.length < n := by
          rw [List.length_drop] at shorter
          omega
        rw [taken]
        exact ih _ smaller _ after rfl
      · rw [Option.map_eq_none_iff] at found
        rw [found]
        rfl
    · exact (Descent.moreSegments_of_no_dot id r.tokens absent).symm

/-- **An identifier** is the one that recursive descent reads. -/
theorem yields_identifier (r : Reader) : Yields identifier (Descent.identifier? r.tokens) r := by
  unfold identifier Descent.identifier?
  refine Means.bind (yields_segment r) (fun first after found => ?_) fun found => ?_
  · rw [found]
    exact yields_moreSegments (.single first) after
  · rw [found]
    rfl

end ReadM

end MdxReader
