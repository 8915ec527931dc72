import MdxReader.Proofs.Leads

/-!
# One expression in two places

An expression may stand by itself or inside a larger text, and some levels deeper.  `Surroundings`
say how the second place differs from the first: how many levels deeper it is, under a limit that is
as much higher, and which tokens follow in place of the end of the text.

Two readers stand *beside* each other if the same part of the expression is ahead of both
(`Surroundings.Beside`).  From there a reading takes both of them forward in step
(`Surroundings.Agree`): to the same value, or to the same error.  Only where tokens follow, errors by
itself are excused, since the expression is then not one that is complete.  So are two states from
which no complete expression is reached any more: an opening parenthesis of arguments right in front
of the end of the text may be closed by what follows.

There is one rule for each building block of a reading, and by these rules the readings of names
agree.
-/

namespace MdxReader

/-- Tokens that can follow an expression and never continue it. -/
def Token.stops : Token → Bool
  | .endOfText => true
  | .symbol s => s == .closeParen
  | .keyword k _ => k == .SELECT || k == .ON
  | _ => false

namespace Token

variable {t : Token}

/-- The only symbol of an expression that may stop one is the closing parenthesis. -/
theorem isSymbol_of_stops (h : t.stops = true) {s : Symbol} (apart : s ≠ .closeParen) :
    t.isSymbol s = false := by
  cases t with
  | symbol other =>
    have found : other = .closeParen := beq_iff_eq.mp h
    rw [found]
    exact beq_eq_false_iff_ne.mpr apart.symm
  | _ => rfl

/-- The only keywords that stop an expression are `SELECT` and `ON`. -/
theorem isKeyword_of_stops (h : t.stops = true) {k : Keyword} (select : k ≠ .SELECT)
    (on : k ≠ .ON) : t.isKeyword k = false := by
  cases t with
  | keyword other spelling =>
    simp only [stops, Bool.or_eq_true, beq_iff_eq] at h
    simp only [isKeyword, beq_eq_false_iff_ne]
    rintro rfl
    exact h.elim select on
  | _ => rfl

theorem isKeyPart_of_stops (h : t.stops = true) : t.isKeyPart = false := by
  cases t <;> first | rfl | cases h

/-- What stops an expression is no operator behind an operand. -/
theorem following?_of_stops (h : t.stops = true) : Operator.following? t = none := by
  cases t with
  | symbol s =>
    have found : s = .closeParen := beq_iff_eq.mp h
    rw [found]
    rfl
  | keyword k spelling =>
    simp only [stops, Bool.or_eq_true, beq_iff_eq] at h
    obtain rfl | rfl := h <;> rfl
  | _ => rfl

end Token

/-- How the place of an expression in another text differs from a text of its own. -/
structure Surroundings where
  /-- The levels around it. -/
  deeper : Nat
  /-- The tokens in place of the end of the text; none if the rest of the text is the same. -/
  behind : Option (List Token)
  /-- What follows does not continue the expression, and nothing is wrong with it. -/
  proper : ∀ rest, behind = some rest → (Descent.look rest).stops = true ∧ .endOfText ∈ rest

/-- An error that tells the limit of a place that is deeper. -/
def ReadError.raised (deeper : Nat) : ReadError → ReadError
  | tooDeep limit => tooDeep (limit + deeper)
  | e => e

/-- Only the error about the limit knows how deep its text lies. -/
theorem ReadError.raised_of_ne_tooDeep {e : ReadError} (shallow : ∀ l, e ≠ .tooDeep l) (n : Nat) :
    e.raised n = e := by
  cases e with
  | tooDeep l => exact absurd rfl (shallow l)
  | _ => rfl

namespace Surroundings

open ReadM

variable (S : Surroundings) {α β : Type}

/-- The same tokens of the expression are ahead of two readers; behind them the text ends, and goes
on. -/
def Extends (r r' : Reader) : Prop :=
  match S.behind with
  | none => r'.token = r.token ∧ r'.place = r.place ∧ r'.feed = r.feed
  | some rest =>
    ∃ ts, .endOfText ∉ ts ∧ r.tokens = ts ++ [.endOfText] ∧ r'.tokens = ts ++ rest

/-- The right reader is where the left one is, inside the surroundings. -/
structure Beside (r r' : Reader) : Prop where
  ahead : S.Extends r r'
  limit : r'.limit = r.limit + S.deeper
  depth : r'.depth = r.depth + S.deeper

/-- Two readers at the same token of the expression. -/
structure Inside (r r' : Reader) : Prop where
  beside : S.Beside r r'
  token : r'.token = r.token
  place : S.behind = none → r'.place = r.place
  more : S.behind ≠ none → r.token ≠ .endOfText

/-- Two readers behind the expression: the left one is at the end of its text. -/
structure Past (r r' : Reader) : Prop where
  beside : S.Beside r r'
  follows : S.behind ≠ none
  left : r.token = .endOfText
  right : r'.token.stops = true

/-- What comes out on both sides is the same.  Where the text goes on, an error on the left side is
excused, and so is a value that is `hopeless` at the end of the text. -/
inductive Agree (hopeless : α → Prop) :
    EStateM.Result ReadError Reader α → EStateM.Result ReadError Reader α → Prop
  | ok (a : α) {after after' : Reader} (beside : S.Beside after after') :
      Agree hopeless (.ok a after) (.ok a after')
  | error {e e' : ReadError} {after after' : Reader}
      (same : S.behind = none → e' = e.raised S.deeper) :
      Agree hopeless (.error e after) (.error e' after')
  | excused {e : ReadError} {after : Reader} {result : EStateM.Result ReadError Reader α}
      (follows : S.behind ≠ none) : Agree hopeless (.error e after) result
  | lost {a : α} {after : Reader} {result : EStateM.Result ReadError Reader α}
      (follows : S.behind ≠ none) (bad : hopeless a) (ended : after.token = .endOfText) :
      Agree hopeless (.ok a after) result

/-- No value is hopeless. -/
def Never (_ : α) : Prop := False

variable {S} {hopeless : α → Prop} {hopeless' : β → Prop} {r r' : Reader}

/-- Readers beside each other are at the same token, or both behind the expression. -/
theorem Beside.cases (h : S.Beside r r') : S.Inside r r' ∨ S.Past r r' := by
  have ahead := h.ahead
  unfold Extends at ahead
  cases found : S.behind with
  | none =>
    rw [found] at ahead
    obtain ⟨token, place, -⟩ := ahead
    exact .inl ⟨h, token, fun _ => place, fun other => absurd found other⟩
  | some rest =>
    rw [found] at ahead
    have follows : S.behind ≠ none := by simp [found]
    obtain ⟨ts, inner, left, right⟩ := ahead
    cases ts with
    | nil =>
      have ended : r.token = .endOfText := by
        rw [r.tokens_eq] at left
        exact (List.cons.inj left).1
      have stops : r'.token.stops = true := by
        rw [← r'.look_tokens, right]
        exact (S.proper rest found).1
      exact .inr ⟨h, follows, ended, stops⟩
    | cons t ts =>
      rw [r.tokens_eq] at left
      rw [r'.tokens_eq] at right
      have first := (List.cons.inj left).1
      have second := (List.cons.inj right).1
      have more : r.token ≠ .endOfText := by
        intro ended
        rw [ended] at first
        exact inner (by simp [← first])
      exact .inl ⟨h, second.trans first.symm, fun none => absurd none follows, fun _ => more⟩

/-! ### Rules -/

theorem Agree.pure (h : S.Beside r r') (a : α) :
    S.Agree hopeless ((Pure.pure a : ReadM α) r) ((Pure.pure a : ReadM α) r') := .ok a h

/-- The errors are the same, but for the limit that they may tell. -/
theorem Agree.throw {e e' : ReadError} (same : S.behind = none → e' = e.raised S.deeper) :
    S.Agree hopeless ((MonadExcept.throw e : ReadM α) r) ((MonadExcept.throw e' : ReadM α) r') :=
  .error same

/-- A result that is excused whatever comes out on the right side: an error, or a hopeless value. -/
def Lost (hopeless : α → Prop) : EStateM.Result ReadError Reader α → Prop
  | .ok a after => hopeless a ∧ after.token = .endOfText
  | .error _ _ => True

/-- Where the text goes on, a result that is excused agrees with any other. -/
theorem Agree.of_lost {result result' : EStateM.Result ReadError Reader α}
    (follows : S.behind ≠ none) (h : Lost hopeless result) : S.Agree hopeless result result' := by
  cases result with
  | ok a after => exact .lost follows h.1 h.2
  | error e after => exact .excused follows

/-- Readings agree one after the other, if what is hopeless after the first one is lost in the
second. -/
theorem Agree.bind {x x' : ReadM α} {f f' : α → ReadM β} (first : S.Agree hopeless (x r) (x' r'))
    (next : ∀ a after after', x r = .ok a after → S.Beside after after' →
      S.Agree hopeless' (f a after) (f' a after'))
    (lost : ∀ a after, hopeless a → after.token = .endOfText → Lost hopeless' (f a after)) :
    S.Agree hopeless' ((x >>= f) r) ((x' >>= f') r') := by
  change S.Agree hopeless' (EStateM.bind x f r) (EStateM.bind x' f' r')
  unfold EStateM.bind
  generalize found : x r = result at first ⊢
  generalize x' r' = result' at first ⊢
  cases first with
  | ok a beside => exact next a _ _ found beside
  | error same => exact .error same
  | excused follows => exact .excused follows
  | lost follows bad ended => exact .of_lost follows (lost _ _ bad ended)

theorem Agree.get {f f' : Reader → ReadM α} (h : S.Agree hopeless (f r r) (f' r' r')) :
    S.Agree hopeless ((MonadState.get >>= f) r) ((MonadState.get >>= f') r') := h

/-- A sequence whose first part loses nothing. -/
theorem Agree.andThen {x x' : ReadM α} {f f' : α → ReadM β} (first : S.Agree Never (x r) (x' r'))
    (next : ∀ a after after', x r = .ok a after → S.Beside after after' →
      S.Agree hopeless' (f a after) (f' a after')) :
    S.Agree hopeless' ((x >>= f) r) ((x' >>= f') r') :=
  .bind first next fun _ _ bad => bad.elim

/-- Moving on inside the expression. -/
theorem Inside.advance (h : S.Inside r r') : S.Agree Never (advance r) (advance r') := by
  have ahead := h.beside.ahead
  unfold Extends at ahead
  cases found : S.behind with
  | none =>
    rw [found] at ahead
    obtain ⟨-, -, feed⟩ := ahead
    unfold ReadM.advance
    rw [feed]
    obtain ⟨answer, later⟩ := r.feed.pull
    cases answer with
    | ok next =>
      refine .ok () ⟨?_, h.beside.limit, h.beside.depth⟩
      simp [Extends, found]
    | error e => exact .error fun _ => rfl
  | some rest =>
    rw [found] at ahead
    have follows : S.behind ≠ none := by simp [found]
    obtain ⟨ts, inner, left, right⟩ := ahead
    have more := h.more follows
    have more' : r'.token ≠ .endOfText := h.token ▸ more
    cases step : ReadM.advance r with
    | error e after => exact .excused follows
    | ok u after =>
      cases step' : ReadM.advance r' with
      | error e after' =>
        have clean : r'.Clean := by
          rw [Reader.Clean, right]
          exact List.mem_append_right ts (S.proper rest found).2
        exact absurd clean (not_clean_of_advance more' step')
      | ok u after' =>
        rw [tokens_of_advance more step] at left
        rw [tokens_of_advance more' step'] at right
        have moved := reaches_of_advance step
        have moved' := reaches_of_advance step'
        refine .ok () ⟨?_, ?_, ?_⟩
        · unfold Extends
          rw [found]
          cases ts with
          | nil => exact absurd (List.cons.inj left).1 more
          | cons t ts =>
            exact ⟨ts, fun mem => inner (List.mem_cons_of_mem t mem), (List.cons.inj left).2,
              (List.cons.inj right).2⟩
        · rw [moved'.limit, h.beside.limit, moved.limit]
        · rw [moved'.depth, h.beside.depth, moved.depth]

/-- Inside the expression both sides find the same token at the same place. -/
theorem Inside.unexpected (h : S.Inside r r') (expected : Expected) (same : S.behind = none) :
    r'.unexpected expected = (r.unexpected expected).raised S.deeper := by
  unfold Reader.unexpected
  rw [h.token, h.place same]
  rfl

/-- A demand on the nesting is met on both sides or on none. -/
theorem Agree.checkHeight {height : Nat} {f f' : Unit → ReadM α} (h : S.Beside r r')
    (next : S.Agree hopeless (f () r) (f' () r')) :
    S.Agree hopeless ((ReadM.checkHeight height >>= f) r)
      ((ReadM.checkHeight height >>= f') r') := by
  have limit := h.limit
  have depth := h.depth
  have demand (r : Reader) : ReadM.checkHeight height r =
      (if r.limit < r.depth + height then MonadExcept.throw (ReadError.tooDeep r.limit)
        else Pure.pure () : ReadM Unit) r :=
    rfl
  change S.Agree hopeless (EStateM.bind _ _ r) (EStateM.bind _ _ r')
  unfold EStateM.bind
  rw [demand r, demand r']
  by_cases reached : r.limit < r.depth + height
  · rw [if_pos reached, if_pos (by omega)]
    exact .error fun _ => congrArg ReadError.tooDeep limit
  · rw [if_neg reached, if_neg (by omega)]
    exact next

theorem Agree.note {event : LevelEvent} {f f' : Unit → ReadM α} (h : S.Beside r r')
    (next : ∀ after after', S.Beside after after' → S.Agree hopeless (f () after) (f' () after')) :
    S.Agree hopeless ((ReadM.note event >>= f) r) ((ReadM.note event >>= f') r') :=
  next _ _ ⟨h.ahead, h.limit, h.depth⟩

/-- Fails whatever comes out on the right side, which is no matter where the text goes on. -/
def Fails (reading : ReadM α) (r : Reader) : Prop := ∃ e after, reading r = .error e after

/-- Behind the expression it is enough that the left reading fails. -/
theorem Past.agree {x x' : ReadM α} (h : S.Past r r') (fails : Fails x r) :
    S.Agree hopeless (x r) (x' r') := by
  obtain ⟨e, after, found⟩ := fails
  rw [found]
  exact .excused h.follows

theorem Fails.get {f : Reader → ReadM α} (h : Fails (f r) r) : Fails (MonadState.get >>= f) r := h

theorem Fails.throw (e : ReadError) (r : Reader) : Fails (MonadExcept.throw e : ReadM α) r :=
  ⟨_, _, rfl⟩

theorem Fails.failExpecting (expected : Expected) (r : Reader) :
    Fails (ReadM.failExpecting expected : ReadM α) r := ⟨_, _, rfl⟩

/-- A reading fails if the first part of it does. -/
theorem Fails.bind {x : ReadM α} {f : α → ReadM β} (h : Fails x r) : Fails (x >>= f) r := by
  obtain ⟨e, after, found⟩ := h
  refine ⟨e, after, ?_⟩
  change EStateM.bind x f r = _
  unfold EStateM.bind
  rw [found]

/-- A sequence fails if what comes second always does. -/
theorem Fails.next {x : ReadM α} {f : α → ReadM β} (h : ∀ a after, Fails (f a) after) :
    Fails (x >>= f) r := by
  cases found : x r with
  | ok a after =>
    obtain ⟨e, last, failed⟩ := h a after
    exact ⟨e, last, (bind_of_ok found).trans failed⟩
  | error e after => exact Fails.bind ⟨e, after, found⟩

/-- A branch on a symbol that does not follow. -/
theorem Agree.atSymbol {s : Symbol} (apart : s ≠ .closeParen) {x y x' y' : ReadM α}
    (h : S.Beside r r')
    (there : S.Inside r r' → r.token.isSymbol s = true → S.Agree hopeless (x r) (x' r'))
    (absent : r.token.isSymbol s = false → S.Agree hopeless (y r) (y' r')) :
    S.Agree hopeless ((do if ← ReadM.atSymbol s then x else y) r)
      ((do if ← ReadM.atSymbol s then x' else y') r') := by
  change S.Agree hopeless ((if r.token.isSymbol s = true then x else y) r)
    ((if r'.token.isSymbol s = true then x' else y') r')
  rcases h.cases with inside | past
  · rw [inside.token]
    split
    · exact there inside (by assumption)
    · exact absent (Bool.eq_false_iff.mpr (by assumption))
  · have left : r.token.isSymbol s = false := by
      rw [past.left]
      rfl
    rw [left, Token.isSymbol_of_stops past.right apart]
    exact absent left

/-- A branch on a keyword that does not follow. -/
theorem Agree.atKeyword {k : Keyword} (select : k ≠ .SELECT) (on : k ≠ .ON) {x y x' y' : ReadM α}
    (h : S.Beside r r')
    (there : S.Inside r r' → r.token.isKeyword k = true → S.Agree hopeless (x r) (x' r'))
    (absent : r.token.isKeyword k = false → S.Agree hopeless (y r) (y' r')) :
    S.Agree hopeless ((do if ← ReadM.atKeyword k then x else y) r)
      ((do if ← ReadM.atKeyword k then x' else y') r') := by
  change S.Agree hopeless ((if r.token.isKeyword k = true then x else y) r)
    ((if r'.token.isKeyword k = true then x' else y') r')
  rcases h.cases with inside | past
  · rw [inside.token]
    split
    · exact there inside (by assumption)
    · exact absent (Bool.eq_false_iff.mpr (by assumption))
  · have left : r.token.isKeyword k = false := by
      rw [past.left]
      rfl
    rw [left, Token.isKeyword_of_stops past.right select on]
    exact absent left

/-- A branch on a closing parenthesis, which may follow: on the left side it is then missing, and the
reading that goes on without it is lost. -/
theorem Agree.atCloseParen {x y x' y' : ReadM α} (h : S.Beside r r')
    (there : S.Inside r r' → S.Agree hopeless (x r) (x' r'))
    (absent : S.Agree hopeless (y r) (y' r'))
    (lost : r.token = .endOfText → Lost hopeless (y r)) :
    S.Agree hopeless ((do if ← ReadM.atSymbol .closeParen then x else y) r)
      ((do if ← ReadM.atSymbol .closeParen then x' else y') r') := by
  change S.Agree hopeless ((if r.token.isSymbol .closeParen = true then x else y) r)
    ((if r'.token.isSymbol .closeParen = true then x' else y') r')
  rcases h.cases with inside | past
  · rw [inside.token]
    split
    · exact there inside
    · exact absent
  · refine .of_lost past.follows ?_
    have left : r.token.isSymbol .closeParen = false := by
      rw [past.left]
      rfl
    rw [left]
    exact lost past.left

/-- Both sides fail; the tokens they find are the same unless the text goes on. -/
theorem Agree.failExpecting {expected : Expected} (h : S.Beside r r') :
    S.Agree hopeless ((ReadM.failExpecting expected : ReadM α) r)
      ((ReadM.failExpecting expected : ReadM α) r') := by
  rcases h.cases with inside | past
  · exact .error fun same => inside.unexpected expected same
  · exact past.agree (.failExpecting expected r)

theorem Agree.failBreaking {rule : Rule} (h : S.Beside r r') :
    S.Agree hopeless ((ReadM.failBreaking rule : ReadM α) r)
      ((ReadM.failBreaking rule : ReadM α) r') := by
  rcases h.cases with inside | past
  · exact .error fun same => congrArg (ReadError.broken rule) (inside.place same)
  · exact past.agree ⟨_, _, rfl⟩

/-- A demanded symbol is there on both sides, or missing at the end of the left text. -/
theorem Agree.expectClosing {s : Symbol} {expected : Expected} (h : S.Beside r r') :
    S.Agree Never (ReadM.expectClosing s expected r) (ReadM.expectClosing s expected r') := by
  rcases h.cases with inside | past
  · change S.Agree Never
      ((if r.token.isSymbol s = true then ReadM.advance else ReadM.failExpecting expected) r)
      ((if r'.token.isSymbol s = true then ReadM.advance else ReadM.failExpecting expected) r')
    rw [inside.token]
    split
    · exact inside.advance
    · exact .failExpecting h
  · refine past.agree ⟨r.unexpected expected, r, ?_⟩
    change (if r.token.isSymbol s = true then ReadM.advance
      else ReadM.failExpecting expected) r = _
    rw [past.left]
    rfl

theorem Agree.expect {s : Symbol} (h : S.Beside r r') :
    S.Agree Never (ReadM.expect s r) (ReadM.expect s r') := .expectClosing h

theorem Agree.expectKeyword {k : Keyword} (h : S.Beside r r') :
    S.Agree Never (ReadM.expectKeyword k r) (ReadM.expectKeyword k r') := by
  rcases h.cases with inside | past
  · change S.Agree Never
      ((if r.token.isKeyword k = true then ReadM.advance else ReadM.failExpecting _) r)
      ((if r'.token.isKeyword k = true then ReadM.advance else ReadM.failExpecting _) r')
    rw [inside.token]
    split
    · exact inside.advance
    · exact .failExpecting h
  · refine past.agree ⟨r.unexpected (.keyword k), r, ?_⟩
    change (if r.token.isKeyword k = true then ReadM.advance else ReadM.failExpecting _) r = _
    rw [past.left]
    rfl

/-- Judgements that come to the same value, or to the same error. -/
inductive Judged (S : Surroundings) : Except ReadError α → Except ReadError α → Prop
  | ok (a : α) : Judged S (.ok a) (.ok a)
  | error {e e' : ReadError} (same : S.behind = none → e' = e.raised S.deeper) :
      Judged S (.error e) (.error e')

/-- Judgements that agree are readings that do. -/
theorem Agree.judge {x x' : Except ReadError α} (h : S.Beside r r') (judged : Judged S x x') :
    S.Agree hopeless (ReadM.judge x r) (ReadM.judge x' r') := by
  cases judged with
  | ok a => exact .ok a h
  | error same => exact .error same

/-- A loop whose test no following token passes.  Its rounds start inside the expression. -/
theorem Agree.whileToken {test : Token → Bool} {round : α → ReadM α}
    {spends : ∀ acc r, test r.token = true → Spends (round acc) r}
    (ends : ∀ t : Token, t.stops = true → test t = false)
    (rounds : ∀ acc (r r' : Reader), S.Inside r r' → test r.token = true →
      S.Agree Never (round acc r) (round acc r')) (acc : α) (h : S.Beside r r') :
    S.Agree Never (ReadM.whileToken test round spends acc r)
      (ReadM.whileToken test round spends acc r') := by
  -- Every round takes a token of the left reader, so there are fewer and fewer of them.
  induction left : r.remaining using Nat.strongRecOn generalizing r r' acc with
  | _ n ih =>
    rw [whileToken_apply, whileToken_apply]
    rcases h.cases with inside | past
    · rw [inside.token]
      split
      · rename_i passes
        refine .andThen (rounds acc r r' inside passes) fun next after after' read beside => ?_
        exact ih _ (left ▸ spends acc r passes next after read) next beside rfl
      · exact .ok acc h
    · have none : test r.token = false := by
        rw [past.left]
        exact ends _ rfl
      rw [none, ends _ past.right]
      exact .ok acc h

/-! ### Names -/

/-- At the end of a text there is no name. -/
theorem fails_name (ended : r.token = .endOfText) : Fails name r := by
  unfold name
  refine .get ?_
  rw [ended]
  exact .failExpecting _ _

theorem agree_name (h : S.Beside r r') : S.Agree Never (name r) (name r') := by
  rcases h.cases with inside | past
  · unfold name
    refine .get ?_
    rw [inside.token]
    cases r.token with
    | word text => exact .andThen inside.advance fun _ _ _ _ moved => .pure moved _
    | keyword k spelling =>
      refine .andThen inside.advance fun _ _ _ _ moved => ?_
      cases k.isReserved with
      | true => exact .throw fun same => by rw [inside.place same]; rfl
      | false => exact .pure moved _
    | bracketed text =>
      refine .andThen inside.advance fun _ _ _ _ moved => ?_
      cases text.isEmpty with
      | true => exact .throw fun same => by rw [inside.place same]; rfl
      | false => exact .pure moved _
    | _ => exact .failExpecting h
  · exact past.agree (fails_name past.left)

/-- Only the place in an error may differ. -/
theorem judged_keyPart {p p' : Position} (t : Token) (places : S.behind = none → p' = p) :
    Judged S (keyPart p t) (keyPart p' t) := by
  cases t with
  | bracketedKey text =>
    unfold keyPart
    simp only
    split
    · exact .error fun same => by rw [places same]; rfl
    · exact .ok _
  | wordKey text => exact .ok _
  | _ => exact .error fun same => by rw [places same]; rfl

theorem agree_keyFrom {p p' : Position} (t : Token) (places : S.behind = none → p' = p)
    (h : S.Beside r r') : S.Agree Never (keyFrom p t r) (keyFrom p' t r') := by
  have rounds : ∀ parts (r r' : Reader), S.Inside r r' → r.token.isKeyPart = true →
      S.Agree Never (moreKey parts r) (moreKey parts r') := by
    intro parts r r' inside _
    unfold moreKey
    refine .get (.andThen inside.advance fun _ _ _ _ moved => ?_)
    rw [inside.token]
    exact .andThen (.judge moved (judged_keyPart r.token inside.place)) fun part _ _ _ beside =>
      .pure beside _
  unfold keyFrom
  refine .andThen (.judge h (judged_keyPart t places)) fun first _ _ _ beside => ?_
  refine .andThen ?_ fun more _ _ _ beside => .pure beside _
  exact .whileToken (fun _ => Token.isKeyPart_of_stops) rounds [] beside

theorem agree_segment (h : S.Beside r r') : S.Agree Never (ReadM.segment r) (ReadM.segment r') := by
  unfold ReadM.segment
  refine .get ?_
  rcases h.cases with inside | past
  · rw [inside.token]
    split
    · refine .andThen inside.advance fun _ _ _ _ moved => ?_
      exact .andThen (agree_keyFrom r.token inside.place moved) fun _ _ _ _ beside => .pure beside _
    · exact .andThen (agree_name h) fun _ _ _ _ beside => .pure beside _
  · refine past.agree ?_
    rw [past.left]
    exact .bind (fails_name past.left)

theorem agree_identifier (h : S.Beside r r') : S.Agree Never (identifier r) (identifier r') := by
  have rounds : ∀ id (r r' : Reader), S.Inside r r' → r.token.isSymbol .dot = true →
      S.Agree Never (moreSegments id r) (moreSegments id r') := by
    intro id r r' inside _
    exact .andThen inside.advance fun _ _ _ _ moved =>
      .andThen (agree_segment moved) fun _ _ _ _ beside => .pure beside _
  refine .andThen (agree_segment h) fun first _ _ _ beside => ?_
  exact .whileToken (fun _ stops => Token.isSymbol_of_stops stops (by decide)) rounds _ beside

end Surroundings

end MdxReader
