import Mathlib.Data.List.Forall2
import MdxReader.Proofs.Tokens
import MdxReader.Reading.Expression

/-!
# Two readings side by side

Which differences between two readers make no difference to what they read?  A `Likeness` names
those that are overlooked: in the places of tokens, in how reserved keywords are spelled, in how
numbers are written, and, if it is lenient, in the limit, which may then be lower on the left side.

`ReadM.Agree` compares what comes out: values that are related and readers that are alike again, or
errors that tell the same, or on the left side an excused complaint about the limit.  Two readings
*match* if they agree from all readers that are alike (`ReadM.Matches`), and a reading is *stable*
if it matches itself on the same values.  There is one rule for each building block of a reading,
the rule for loops goes by induction on the tokens that remain, and the readings of names are stable
by these rules.
-/

namespace MdxReader

/-- Differences that are overlooked when two readings are compared. -/
structure Likeness where
  place : Position → Position → Prop
  spelling : String → String → Prop
  number : Decimal → Decimal → Prop
  /-- The limit on the left side may be the lower one. -/
  lenient : Prop
  place_refl : ∀ p, place p p
  spelling_refl : ∀ s, spelling s s
  number_refl : ∀ d, number d d
  /-- Numbers that are alike count the same. -/
  toNat_eq : ∀ d d', number d d' → d.toNat? = d'.toNat?

variable {L : Likeness}

/-! ### What is alike -/

/-- Tokens are alike if they are equal but for the spelling of a reserved keyword, or numbers that
are alike. -/
inductive Token.Like (L : Likeness) : Token → Token → Prop
  | same (t : Token) : Like L t t
  | respelled {k : Keyword} {s s' : String} (reserved : k.isReserved = true)
      (spelling : L.spelling s s') : Like L (.keyword k s) (.keyword k s')
  | number {d d' : Decimal} (value : L.number d d') : Like L (.number d) (.number d')

namespace Token.Like

variable {t t' : Token}

/-- What looks neither at the spelling of keywords nor at numbers is the same for tokens that are
alike. -/
theorem congr {β : Type} (h : Like L t t') (f : Token → β)
    (keywords : ∀ k s s', f (.keyword k s) = f (.keyword k s'))
    (numbers : ∀ d d', f (.number d) = f (.number d')) : f t = f t' := by
  cases h with
  | same => rfl
  | respelled reserved spelling => exact keywords _ _ _
  | number value => exact numbers _ _

/-- Symbols are alike only if they are equal. -/
theorem isSymbol (h : Like L t t') (s : Symbol) : t.isSymbol s = t'.isSymbol s :=
  h.congr (Token.isSymbol · s) (fun _ _ _ => rfl) fun _ _ => rfl

/-- Keywords that are alike may be spelled differently, but are the same keyword. -/
theorem isKeyword (h : Like L t t') (k : Keyword) : t.isKeyword k = t'.isKeyword k :=
  h.congr (Token.isKeyword · k) (fun _ _ _ => rfl) fun _ _ => rfl

theorem isKeyPart (h : Like L t t') : t.isKeyPart = t'.isKeyPart :=
  h.congr Token.isKeyPart (fun _ _ _ => rfl) fun _ _ => rfl

/-- Which operator stands in front of an operand does not depend on how it is spelled. -/
theorem leading (h : Like L t t') : Operator.leading? t = Operator.leading? t' :=
  h.congr Operator.leading? (fun k _ _ => by cases k <;> rfl) fun _ _ => rfl

theorem following (h : Like L t t') : Operator.following? t = Operator.following? t' :=
  h.congr Operator.following? (fun k _ _ => by cases k <;> rfl) fun _ _ => rfl

/-- Numbers that are alike are the same count or none. -/
theorem countOf (h : Like L t t') : ReadM.countOf? t = ReadM.countOf? t' := by
  cases h with
  | same => rfl
  | respelled reserved spelling => rfl
  | number value => exact congrArg (Option.filter (· < ReadM.countBound)) (L.toNat_eq _ _ value)

/-- The end of the text is like nothing else. -/
theorem endOfText_iff (h : Like L t t') : t = .endOfText ↔ t' = .endOfText := by
  cases h with
  | same => exact Iff.rfl
  | respelled reserved spelling => exact ⟨nofun, nofun⟩
  | number value => exact ⟨nofun, nofun⟩

end Token.Like

/-- Tokens that are alike at places that are alike. -/
structure Located.Like (L : Likeness) (a b : Located) : Prop where
  token : a.token.Like L b.token
  place : L.place a.place b.place

/-- Answers are alike if they are the same errors or hold what is alike. -/
inductive Answer.Like {α : Type} (rel : α → α → Prop) :
    Except ScanError α → Except ScanError α → Prop
  | ok {a b : α} (held : rel a b) : Like rel (.ok a) (.ok b)
  | error (e : ScanError) : Like rel (.error e) (.error e)

/-- Feeds are alike if all their answers are. -/
structure Feed.Like (L : Likeness) (feed feed' : Feed) : Prop where
  upcoming : List.Forall₂ (Answer.Like (Located.Like L)) feed.upcoming feed'.upcoming
  ending : Answer.Like L.place feed.ending feed'.ending

/-- The next answers of feeds that are alike are alike, and so are the feeds behind them. -/
theorem Feed.Like.pull {feed feed' : Feed} (h : feed.Like L feed') :
    Answer.Like (Located.Like L) feed.pull.1 feed'.pull.1 ∧ feed.pull.2.Like L feed'.pull.2 := by
  obtain ⟨answers, final⟩ := feed
  obtain ⟨answers', final'⟩ := feed'
  obtain ⟨upcoming, ending⟩ := h
  cases upcoming with
  | nil =>
    refine ⟨?_, .nil, ending⟩
    cases ending with
    | ok place => exact .ok ⟨.same _, place⟩
    | error e => exact .error e
  | cons first later => exact ⟨first, later, ending⟩

/-- Readers are alike if what is ahead of them is, and they are equally deep under one limit. -/
structure Reader.Like (L : Likeness) (r r' : Reader) : Prop where
  token : r.token.Like L r'.token
  place : L.place r.place r'.place
  feed : r.feed.Like L r'.feed
  depth : r.depth = r'.depth
  limit_le : r.limit ≤ r'.limit
  limit_eq : L.lenient ∨ r.limit = r'.limit

/-- Errors are alike if they tell the same, about tokens and places that are alike. -/
inductive ReadError.Like (L : Likeness) : ReadError → ReadError → Prop
  | scan (e : ScanError) : Like L (.scan e) (.scan e)
  | unexpected (expected : Expected) {t t' : Token} {p p' : Position} (token : t.Like L t')
      (place : L.place p p') :
      Like L (.unexpected expected (.token t) p) (.unexpected expected (.token t') p')
  | endOfAxis (expected : Expected) {p p' : Position} (place : L.place p p') :
      Like L (.unexpected expected .endOfAxis p) (.unexpected expected .endOfAxis p')
  | reservedWord {s s' : String} {p p' : Position} (spelling : L.spelling s s')
      (place : L.place p p') : Like L (.reservedWord s p) (.reservedWord s' p')
  | emptyName {p p' : Position} (place : L.place p p') : Like L (.emptyName p) (.emptyName p')
  | dottedCubeName {p p' : Position} (place : L.place p p') :
      Like L (.dottedCubeName p) (.dottedCubeName p')
  | broken (rule : Rule) {p p' : Position} (place : L.place p p') :
      Like L (.broken rule p) (.broken rule p')
  | tooDeep (limit : Nat) : Like L (.tooDeep limit) (.tooDeep limit)

/-- What two readers that are alike find instead of what they expect is alike. -/
theorem Reader.Like.unexpected {r r' : Reader} (h : r.Like L r') (expected : Expected) :
    (r.unexpected expected).Like L (r'.unexpected expected) :=
  .unexpected expected h.token h.place

/-- Judgements are alike if they come to related values or fail with errors that are alike. -/
inductive Judgement.Like {α : Type} (L : Likeness) (rel : α → α → Prop) :
    Except ReadError α → Except ReadError α → Prop
  | ok {a a' : α} (values : rel a a') : Like L rel (.ok a) (.ok a')
  | error {e e' : ReadError} (errors : e.Like L e') : Like L rel (.error e) (.error e')

namespace ReadM

variable {α β : Type} {rel : α → α → Prop}

/-! ### Readings that match -/

/-- What comes out of two readings is the same, but for what is overlooked. -/
inductive Agree (L : Likeness) (rel : α → α → Prop) :
    EStateM.Result ReadError Reader α → EStateM.Result ReadError Reader α → Prop
  | ok {a a' : α} {after after' : Reader} (values : rel a a') (readers : after.Like L after') :
      Agree L rel (.ok a after) (.ok a' after')
  | error {e e' : ReadError} {after after' : Reader} (errors : e.Like L e') :
      Agree L rel (.error e after) (.error e' after')
  | excused {limit : Nat} {after : Reader} {result : EStateM.Result ReadError Reader α}
      (lenient : L.lenient) : Agree L rel (.error (.tooDeep limit) after) result

/-- **Two readings match**: from readers that are alike they agree, on values related by `rel`. -/
def Matches (L : Likeness) (rel : α → α → Prop) (x x' : ReadM α) : Prop :=
  ∀ r r' : Reader, r.Like L r' → Agree L rel (x r) (x' r')

/-- **A reading is stable**: it comes to the same value from readers that are alike. -/
def Stable (L : Likeness) (reading : ReadM α) : Prop := Matches L Eq reading reading

theorem Matches.pure {a a' : α} (h : rel a a') :
    Matches L rel (Pure.pure a) (Pure.pure a') := fun _ _ like => .ok h like

theorem Stable.pure (a : α) : Stable L (Pure.pure a : ReadM α) := Matches.pure rfl

theorem Matches.throw {e e' : ReadError} (h : e.Like L e') :
    Matches L rel (MonadExcept.throw e) (MonadExcept.throw e') := fun _ _ _ => .error h

/-- What matches one after another matches together, if the second readings match on all results of
the first that are related. -/
theorem Matches.bind {rel' : β → β → Prop} {x x' : ReadM α} {f f' : α → ReadM β}
    (first : Matches L rel x x') (next : ∀ a a', rel a a' → Matches L rel' (f a) (f' a')) :
    Matches L rel' (x >>= f) (x' >>= f') := by
  intro r r' like
  have agree := first r r' like
  change Agree L rel' (EStateM.bind x f r) (EStateM.bind x' f' r')
  unfold EStateM.bind
  generalize x r = result at agree ⊢
  generalize x' r' = result' at agree ⊢
  cases agree with
  | ok values readers => exact next _ _ values _ _ readers
  | error errors => exact .error errors
  | excused lenient => exact .excused lenient

/-- Readings that come to the same value are followed by what goes on with that value. -/
theorem Matches.andThen {rel' : β → β → Prop} {x x' : ReadM α} {f f' : α → ReadM β}
    (first : Matches L Eq x x') (next : ∀ a, Matches L rel' (f a) (f' a)) :
    Matches L rel' (x >>= f) (x' >>= f') := by
  apply Matches.bind first
  rintro a _ rfl
  exact next a

/-- The result of a stable reading is passed on as it is. -/
theorem Stable.bind {rel' : β → β → Prop} {x : ReadM α} {f f' : α → ReadM β}
    (first : Stable L x) (next : ∀ a, Matches L rel' (f a) (f' a)) :
    Matches L rel' (x >>= f) (x >>= f') := Matches.andThen first next

/-- Readings may look at their readers, as far as what they do with them matches. -/
theorem Matches.get {f f' : Reader → ReadM α}
    (h : ∀ r r' : Reader, r.Like L r' → Matches L rel (f r) (f' r')) :
    Matches L rel (MonadState.get >>= f) (MonadState.get >>= f') :=
  fun r r' like => h r r' like r r' like

/-- A condition that does not depend on the reader. -/
theorem Matches.ite {c : Prop} [Decidable c] {x x' y y' : ReadM α} (there : Matches L rel x x')
    (absent : Matches L rel y y') :
    Matches L rel (if c then x else y) (if c then x' else y') := by
  split
  · exact there
  · exact absent

/-- Moving on looks at one answer, and both answers are alike. -/
theorem Stable.advance : Stable L advance := by
  intro r r' like
  have next := like.feed.pull
  unfold ReadM.advance
  generalize r.feed.pull = pulled at next ⊢
  generalize r'.feed.pull = pulled' at next ⊢
  obtain ⟨answer, feed⟩ := pulled
  obtain ⟨answer', feed'⟩ := pulled'
  obtain ⟨answers, feeds⟩ := next
  cases answers with
  | ok held =>
    exact .ok rfl ⟨held.token, held.place, feeds, like.depth, like.limit_le, like.limit_eq⟩
  | error e => exact .error (.scan e)

/-- Which symbol comes next is the same for readers that are alike. -/
theorem Stable.atSymbol (s : Symbol) : Stable L (atSymbol s) := by
  refine Matches.get fun r r' like => ?_
  rw [like.token.isSymbol]
  exact Stable.pure _

theorem Stable.atKeyword (k : Keyword) : Stable L (atKeyword k) := by
  refine Matches.get fun r r' like => ?_
  rw [like.token.isKeyword]
  exact Stable.pure _

/-- The errors name what was found, so they are alike and need not be equal. -/
theorem Matches.failExpecting (expected : Expected) :
    Matches L rel (ReadM.failExpecting expected) (ReadM.failExpecting expected) :=
  Matches.get fun _ _ like => Matches.throw (like.unexpected expected)

theorem Matches.failBreaking (rule : Rule) :
    Matches L rel (ReadM.failBreaking rule) (ReadM.failBreaking rule) :=
  Matches.get fun _ _ like => Matches.throw (.broken rule like.place)

theorem Stable.expectClosing (s : Symbol) (expected : Expected) :
    Stable L (expectClosing s expected) :=
  (Stable.atSymbol s).bind fun _ => Matches.ite Stable.advance (Matches.failExpecting expected)

theorem Stable.expect (s : Symbol) : Stable L (expect s) := Stable.expectClosing s _

theorem Stable.expectKeyword (k : Keyword) : Stable L (expectKeyword k) :=
  (Stable.atKeyword k).bind fun _ => Matches.ite Stable.advance (Matches.failExpecting _)

theorem Stable.expectEnd : Stable L expectEnd := by
  refine Matches.get fun r r' like => ?_
  have ended := like.token.endOfText_iff
  by_cases reached : r'.token = .endOfText
  · rw [if_pos reached, if_pos (ended.mpr reached)]
    exact Stable.pure ()
  · rw [if_neg reached, if_neg (mt ended.mp reached)]
    exact Matches.failExpecting _

/-- Judgements that are alike are readings that match. -/
theorem Matches.judge {x x' : Except ReadError α} (h : Judgement.Like L rel x x') :
    Matches L rel (ReadM.judge x) (ReadM.judge x') := by
  cases h with
  | ok values => exact Matches.pure values
  | error errors => exact Matches.throw errors

/-- A demand on the nesting that is met under the lower limit is met under the higher one. -/
theorem Stable.checkHeight (height : Nat) : Stable L (checkHeight height) := by
  intro r r' like
  have depth := like.depth
  have limits := like.limit_le
  change Agree L Eq ((if r.limit < r.depth + height then _ else _ : ReadM Unit) r)
    ((if r'.limit < r'.depth + height then _ else _ : ReadM Unit) r')
  by_cases reached : r.limit < r.depth + height
  · rw [if_pos reached]
    rcases like.limit_eq with lenient | same
    · exact .excused lenient
    · rw [if_pos (by omega), same]
      exact .error (.tooDeep _)
  · rw [if_neg reached, if_neg (by omega)]
    exact .ok rfl like

/-- An event is noted for both readers. -/
theorem Stable.note (event : LevelEvent) : Stable L (note event) := by
  intro r r' like
  exact .ok rfl ⟨like.token, like.place, like.feed, like.depth, like.limit_le, like.limit_eq⟩

/-- **Loops match** if their tests do not tell tokens apart that are alike, and their rounds
match. -/
theorem Matches.whileToken {test : Token → Bool} {round : α → ReadM α}
    {spends : ∀ acc r, test r.token = true → Spends (round acc) r}
    (same : ∀ t t' : Token, t.Like L t' → test t = test t')
    (rounds : ∀ acc acc', rel acc acc' → Matches L rel (round acc) (round acc')) {acc acc' : α}
    (start : rel acc acc') :
    Matches L rel (whileToken test round spends acc) (whileToken test round spends acc') := by
  intro r r' like
  -- Every round takes a token of the left reader, so there are fewer and fewer of them.
  induction left : r.remaining using Nat.strongRecOn generalizing r r' acc acc' with
  | _ n ih =>
    rw [whileToken_apply, whileToken_apply, ← same _ _ like.token]
    by_cases passes : test r.token = true
    · rw [if_pos passes, if_pos passes]
      have agree := rounds acc acc' start r r' like
      have spent := spends acc r passes
      change Agree L rel (EStateM.bind _ _ r) (EStateM.bind _ _ r')
      unfold EStateM.bind
      unfold Spends at spent
      generalize round acc r = result at agree spent ⊢
      generalize round acc' r' = result' at agree ⊢
      cases agree with
      | ok values readers => exact ih _ (left ▸ spent _ _ rfl) values _ _ readers rfl
      | error errors => exact .error errors
      | excused lenient => exact .excused lenient
    · rw [if_neg passes, if_neg passes]
      exact .ok start like

/-- A loop whose rounds are stable is stable. -/
theorem Stable.whileToken {test : Token → Bool} {round : α → ReadM α}
    {spends : ∀ acc r, test r.token = true → Spends (round acc) r}
    (same : ∀ t t' : Token, t.Like L t' → test t = test t')
    (rounds : ∀ acc, Stable L (round acc)) (acc : α) :
    Stable L (whileToken test round spends acc) := by
  refine Matches.whileToken same ?_ rfl
  rintro acc _ rfl
  exact rounds acc

/-! ### Names and lists -/

theorem stable_name : Stable L name := by
  refine Matches.get fun r r' like => ?_
  have token := like.token
  generalize r.token = t at token ⊢
  generalize r'.token = t' at token ⊢
  cases token with
  | same =>
    cases t with
    | word text => exact Stable.advance.bind fun _ => Stable.pure _
    | keyword k spelling =>
      refine Stable.advance.bind fun _ => Matches.ite ?_ (Stable.pure _)
      exact Matches.throw (.reservedWord (L.spelling_refl _) like.place)
    | bracketed text =>
      refine Stable.advance.bind fun _ => Matches.ite ?_ (Stable.pure _)
      exact Matches.throw (.emptyName like.place)
    | _ => exact Matches.failExpecting _
  | respelled reserved spelling =>
    -- A reserved keyword is no name, however it is spelled.
    simp only [reserved, if_true]
    exact Stable.advance.bind fun _ => Matches.throw (.reservedWord spelling like.place)
  | number value => exact Matches.failExpecting _

/-- Tokens that are alike are both parts of a key or neither is, and the parts are equal. -/
theorem like_keyPart {t t' : Token} {p p' : Position} (token : t.Like L t')
    (place : L.place p p') : Judgement.Like L Eq (keyPart p t) (keyPart p' t') := by
  cases token with
  | same =>
    cases t with
    | bracketedKey text =>
      by_cases empty : text.isEmpty = true
      · simp only [keyPart, if_pos empty]
        exact .error (.emptyName place)
      · simp only [keyPart, if_neg empty]
        exact .ok rfl
    | wordKey text => exact .ok rfl
    | _ => exact .error (.unexpected .key (.same _) place)
  | respelled reserved spelling =>
    exact .error (.unexpected .key (.respelled reserved spelling) place)
  | number value => exact .error (.unexpected .key (.number value) place)

/-- The first part of a key was taken before; the rest comes from the readers. -/
theorem matches_keyFrom {t t' : Token} {p p' : Position} (token : t.Like L t')
    (place : L.place p p') : Matches L Eq (keyFrom p t) (keyFrom p' t') := by
  have more (parts : List Name) : Stable L (moreKey parts) := by
    refine Matches.get fun r r' like => Stable.advance.bind fun _ => ?_
    exact (Matches.judge (like_keyPart like.token like.place)).andThen fun _ => Stable.pure _
  have loop : Stable L (whileToken Token.isKeyPart moreKey (fun _ _ => Spends.moreKey) []) :=
    Stable.whileToken (fun _ _ like => like.isKeyPart) more []
  refine (Matches.judge (like_keyPart token place)).andThen fun first => ?_
  exact loop.bind fun _ => Stable.pure _

theorem stable_segment : Stable L segment := by
  refine Matches.get fun r r' like => ?_
  rw [like.token.isKeyPart]
  refine Matches.ite (Stable.advance.bind fun _ => ?_) (stable_name.bind fun _ => Stable.pure _)
  exact (matches_keyFrom like.token like.place).andThen fun _ => Stable.pure _

theorem stable_identifier : Stable L identifier := by
  have more (id : Identifier) : Stable L (moreSegments id) :=
    Stable.advance.bind fun _ => stable_segment.bind fun _ => Stable.pure _
  exact stable_segment.bind fun first =>
    Stable.whileToken (fun _ _ like => like.isSymbol .dot) more (.single first)

/-- Items match one by one. -/
theorem Matches.itemsAfter {item : ReadM α} {keeps : Keeps item}
    (h : Matches L rel item item) {items items' : List α} (before : List.Forall₂ rel items items') :
    Matches L (List.Forall₂ rel) (itemsAfter item keeps items) (itemsAfter item keeps items') := by
  have more (items items' : List α) (before : List.Forall₂ rel items items') :
      Matches L (List.Forall₂ rel) (moreItems item items) (moreItems item items') :=
    Stable.advance.bind fun _ => h.bind fun _ _ values => Matches.pure (.cons values before)
  have loop : Matches L (List.Forall₂ rel)
      (ReadM.whileToken (·.isSymbol .comma) (moreItems item)
        (fun _ _ => Spends.moreItems keeps) items)
      (ReadM.whileToken (·.isSymbol .comma) (moreItems item)
        (fun _ _ => Spends.moreItems keeps) items') :=
    Matches.whileToken (fun _ _ like => like.isSymbol .comma) more before
  exact loop.bind fun _ _ all => Matches.pure (List.rel_reverse all)

/-- Lists of items match in length, and item by item. -/
theorem Matches.separated {item : ReadM α} {keeps : Keeps item} (h : Matches L rel item item) :
    Matches L (List.Forall₂ rel) (separated item keeps) (separated item keeps) :=
  h.bind fun _ _ values => Matches.itemsAfter h (.cons values .nil)

theorem stable_identifiers : Stable L identifiers := by
  have all : Matches L (List.Forall₂ Eq) identifiers identifiers :=
    Matches.separated stable_identifier
  rwa [List.forall₂_eq_eq_eq] at all

theorem stable_cubeName : Stable L cubeName := by
  refine stable_name.bind fun found => Matches.get fun r r' like => ?_
  rw [like.token.isSymbol]
  exact Matches.ite (Matches.throw (.dottedCubeName like.place)) (Stable.pure _)

/-- The result is the count itself, so numbers that are alike give equal results. -/
theorem stable_count (expected : Expected) : Stable L (count expected) := by
  refine Matches.get fun r r' like => ?_
  rw [like.token.countOf]
  cases countOf? r'.token with
  | some n => exact Stable.advance.bind fun _ => Stable.pure n
  | none => exact Matches.failExpecting expected

end ReadM

end MdxReader
