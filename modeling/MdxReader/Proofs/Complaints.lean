import MdxReader.Proofs.Faults
import MdxReader.Proofs.Places
import MdxReader.Proofs.Words
import MdxReader.Reading.Whole

/-!
# What a complaint is about

An error has the place of the token it complains of: not that of a token near it, and not that of
the token the reader has come to since (`ReadError.PointsInto`).  A reading may take a token before
it is judged, and keys are judged only once all their parts are there, so the place of the token is
carried along.

A reader that `Follows` a text stands at one of its tokens and has only such tokens ahead.
`ReadM.Points` says of a reading that it keeps to that and fails only with errors that a `Standard`
accepts: here the ones that point at their token (`Standard.exact`).  There is one lemma for each
function that reads a part of an expression.
-/

namespace MdxReader

open ReadM

/-! ### The tokens of a text -/

/-- Some call of the scanner returns the token, and marks its place. -/
def Scanner.Returns (s : Scanner) (t : Token) (place : Position) : Prop :=
  ∃ n, (s.after n).next.1 = .ok t ∧ (s.after n).next.2.mark = place

/-- What a later call returns is returned. -/
theorem Scanner.Returns.later {s : Scanner} {t : Token} {place : Position}
    (h : s.next.2.Returns t place) : s.Returns t place := by
  obtain ⟨n, answer, mark⟩ := h
  exact ⟨n + 1, answer, mark⟩

/-- A token begins at a place of a text.  The end of the text is one of the tokens. -/
def StandsAt (text : String) (t : Token) (place : Position) : Prop :=
  (Scanner.ofText text).Returns t place

namespace Scanner.Answers

variable {s : Scanner} {lexemes : List Lexeme} {ending : Except ScanError Position}

/-- **The tokens among the answers of a scanner are returned**, each with its place. -/
theorem returns (h : s.Answers lexemes ending) :
    ∀ next, .ok next ∈ lexemes → s.Returns next.token next.place := by
  induction h with
  | final => exact fun _ mem => absurd mem List.not_mem_nil
  | @more s later ending _ _ ih =>
    intro next mem
    rcases List.mem_cons.mp mem with same | further
    · cases answer : s.next.1 with
      | error e =>
        rw [answer] at same
        cases same
      | ok t =>
        rw [answer] at same
        cases same
        exact ⟨0, answer, rfl⟩
    · exact (ih next further).later

/-- The answer that repeats is returned too. -/
theorem returns_ending (h : s.Answers lexemes ending) {place : Position}
    (last : ending = .ok place) : s.Returns .endOfText place := by
  induction h with
  | more _ _ ih => exact (ih last).later
  | @final s final =>
    -- It is the end of the text, or an error.
    cases answer : s.next.1 with
    | error e =>
      rw [answer] at last
      cases last
    | ok t =>
      rw [answer] at last final
      cases last
      cases t with
      | endOfText => exact ⟨0, answer, rfl⟩
      | _ => cases final

end Scanner.Answers

namespace Feed

variable {text : String}

theorem standsAt_of_mem {next : Located} (mem : .ok next ∈ (ofText text).upcoming) :
    StandsAt text next.token next.place := (answers_ofText text).returns next mem

theorem standsAt_of_ending {place : Position} (ending : (ofText text).ending = .ok place) :
    StandsAt text .endOfText place := (answers_ofText text).returns_ending ending

theorem standsAt_of_ahead {next : Located} (mem : next ∈ (ofText text).ahead) :
    StandsAt text next.token next.place := by
  obtain answer | ⟨place, ending, rfl⟩ := mem_aheadIn mem
  · exact standsAt_of_mem answer
  · exact standsAt_of_ending ending

/-- Which tokens were read before makes no difference to an error. -/
theorem located_eq_error {lexemes : List Lexeme} {read read' : List Located} {e : ScanError}
    (h : located read lexemes = .error e) : located read' lexemes = .error e := by
  induction lexemes generalizing read read' with
  | nil => cases h
  | cons lexeme later ih =>
    cases lexeme with
    | error fault => exact h
    | ok next => exact ih h

/-- The first error is among the answers up to the one that repeats, or it is that one. -/
theorem tokens_eq_error {feed : Feed} {e : ScanError} :
    feed.tokens = .error e ↔ located [] feed.upcoming = .error e ∨
      (∃ found, located [] feed.upcoming = .ok found) ∧ feed.ending = .error e := by
  unfold tokens
  cases located [] feed.upcoming with
  | error fault => simp [bind, Except.bind]
  | ok found => cases feed.ending <;> simp [bind, Except.bind, pure, Except.pure]

/-- An error that comes next is the first one. -/
theorem tokens_of_pull_error {feed after : Feed} {e : ScanError}
    (h : feed.pull = (.error e, after)) : feed.tokens = .error e := by
  rw [tokens_eq_error]
  unfold pull at h
  split at h
  · rename_i lexeme later upcoming
    cases h
    rw [upcoming]
    exact .inl rfl
  · rename_i upcoming
    rw [upcoming]
    cases ending : feed.ending with
    | error fault =>
      rw [ending] at h
      cases h
      exact .inr ⟨⟨[], rfl⟩, rfl⟩
    | ok place =>
      rw [ending] at h
      cases h

/-- A token that is taken leaves the first error what it was. -/
theorem tokens_of_pull_ok {feed after : Feed} {next : Located} {e : ScanError}
    (h : feed.pull = (.ok next, after)) (fault : after.tokens = .error e) :
    feed.tokens = .error e := by
  rw [tokens_eq_error] at fault ⊢
  unfold pull at h
  split at h
  · rename_i lexeme later upcoming
    obtain ⟨rfl, rfl⟩ := Prod.mk.inj h
    rw [upcoming]
    rcases fault with first | ⟨⟨found, read⟩, last⟩
    · have again : located [next] later = .error e := located_eq_error first
      exact .inl again
    · obtain ⟨tokens, same, -⟩ := located_eq_ok read
      refine .inr ⟨⟨tokens.reverse ++ [next], ?_⟩, last⟩
      rw [show later = _ from same]
      exact located_map_ok [next] tokens
  · obtain ⟨-, rfl⟩ := Prod.mk.inj h
    exact fault

end Feed

/-! ### Errors and their tokens -/

namespace ReadError

/-- The token is the one that the error complains of. -/
def About : ReadError → Token → Prop
  | unexpected _ found _, t => found = .token t
  | reservedWord word _, t => ∃ k : Keyword, t = .keyword k word ∧ k.isReserved = true
  | emptyName _, t => t = .bracketed "" ∨ t = .bracketedKey "" ∨ t = .bracketed "&"
  | dottedCubeName _, t => t = .symbol .dot
  | broken .keyAfterIdentifier _, t => t.isKeyPart = true
  | broken .singleCast _, t => t = .symbol .comma
  | broken _ _, _ => True
  | scan _, _ | tooDeep _, _ => False

/-- **The error points into the text**: it has the place of a token, and that token is the one it
complains of.  What cannot be scanned is told as it is when all tokens are asked for, and what is
too deep with the limit there is. -/
def PointsInto (text : String) (limit : Nat) : ReadError → Prop
  | scan fault => tokensOf text = .error fault
  | tooDeep l => l = limit
  | e => ∃ t place, e.place? = some place ∧ StandsAt text t place ∧ e.About t

variable {text : String} {limit : Nat}

/-- An error that a token is wrong with points at it, whatever else it tells. -/
theorem About.pointsInto {e : ReadError} {t : Token} {place : Position} (about : e.About t)
    (placed : e.place? = some place) (stands : StandsAt text t place) :
    e.PointsInto text limit := by
  cases e with
  | scan fault => exact about.elim
  | tooDeep l => exact about.elim
  | _ => exact ⟨t, place, placed, stands, about⟩

end ReadError

/-! ### Readers of a text -/

namespace Reader

variable {text : String} {limit : Nat} {r after : Reader}

/-- The reader reads the text: what is ahead of it are the last tokens of the text, or of what can
be scanned of it. -/
structure Follows (text : String) (limit : Nat) (r : Reader) : Prop where
  suffix : r.ahead <:+ (Feed.ofText text).ahead
  inner : ∀ next, .ok next ∈ r.feed.upcoming → next.token ≠ .endOfText
  /-- At the end of the text nothing else is to come. -/
  last : r.token = .endOfText → r.feed = ⟨[], .ok r.place⟩
  fault : ∀ e, r.feed.tokens = .error e → tokensOf text = .error e
  limit : r.limit = limit

/-- The reader stands at a token of the text. -/
theorem Follows.here (follows : r.Follows text limit) : StandsAt text r.token r.place :=
  Feed.standsAt_of_ahead (follows.suffix.mem List.mem_cons_self)

/-- What a feed gives next, where the feed is known to follow a text. -/
theorem follows_of_pull {feed feed' : Feed} {next : Located} {events : List LevelEvent}
    {depth : Nat} (suffix : feed.ahead <:+ (Feed.ofText text).ahead)
    (inner : ∀ next, .ok next ∈ feed.upcoming → next.token ≠ .endOfText)
    (fault : ∀ e, feed.tokens = .error e → tokensOf text = .error e)
    (pulled : feed.pull = (.ok next, feed')) :
    (Reader.mk next.token next.place feed' limit depth events).Follows text limit := by
  have later : ∀ e, feed'.tokens = .error e → tokensOf text = .error e :=
    fun e found => fault e (Feed.tokens_of_pull_ok pulled found)
  unfold Feed.pull at pulled
  split at pulled
  · rename_i lexeme rest upcoming
    cases pulled
    rw [upcoming] at inner
    have more := inner next List.mem_cons_self
    refine ⟨?_, fun next mem => inner next (List.mem_cons_of_mem _ mem),
      fun ended => absurd ended more, later, rfl⟩
    -- The token that was taken is the first of those that were ahead.
    have whole : feed.ahead = next :: Feed.aheadIn feed.ending rest := by
      rw [Feed.ahead, upcoming, Feed.aheadIn, if_neg more]
    rw [whole] at suffix
    unfold Reader.ahead
    rw [if_neg more]
    exact suffix
  · rename_i upcoming
    cases ending : feed.ending with
    | error e =>
      rw [ending] at pulled
      cases pulled
    | ok place =>
      rw [ending] at pulled
      cases pulled
      have ended : feed = ⟨[], .ok place⟩ := by rw [← upcoming, ← ending]
      have whole : feed.ahead = [⟨.endOfText, place⟩] := by rw [ended]; rfl
      rw [whole] at suffix
      exact ⟨suffix, inner, fun _ => ended, later, rfl⟩

/-- A reader at the beginning of a text follows it. -/
theorem follows_of_ofText (h : ofText text limit = .ok r) : r.Follows text limit := by
  unfold ofText at h
  split at h
  · rename_i first feed pulled
    cases h
    exact follows_of_pull (List.suffix_refl _) (fun _ mem => (Feed.sound_ofText mem).2)
      (fun _ => id) pulled
  · cases h

/-- Before the first token nothing but scanning can fail. -/
theorem pointsInto_of_ofText {e : ReadError} (h : ofText text limit = .error e) :
    e.PointsInto text limit := by
  unfold ofText at h
  split at h
  · cases h
  · rename_i fault feed pulled
    cases h
    exact Feed.tokens_of_pull_error pulled

/-- The tokens that the feed still has are ahead of the reader too. -/
theorem Follows.suffix_feed (follows : r.Follows text limit) : r.feed.ahead <:+ r.ahead := by
  by_cases ended : r.token = .endOfText
  · refine ⟨[], ?_⟩
    rw [List.nil_append, follows.last ended, Reader.ahead, if_pos ended, ended]
    rfl
  · unfold Reader.ahead
    rw [if_neg ended]
    exact List.suffix_cons _ _

/-- Moving on takes the first of the tokens that were ahead. -/
theorem Follows.advance (follows : r.Follows text limit) (h : ReadM.advance r = .ok () after) :
    after.Follows text limit := by
  unfold ReadM.advance at h
  split at h
  · rename_i next feed pulled
    cases h
    have moved : (Reader.mk next.token next.place feed limit r.depth r.events).Follows text limit :=
      follows_of_pull (follows.suffix_feed.trans follows.suffix) follows.inner follows.fault pulled
    exact ⟨moved.suffix, moved.inner, moved.last, moved.fault, follows.limit⟩
  · cases h

end Reader

/-- Which errors a reading of a text may fail with: those that point into it at least. -/
structure Standard (text : String) (limit : Nat) where
  accepts : ReadError → Prop
  pointing : ∀ e : ReadError, e.PointsInto text limit → accepts e

/-- Nothing but errors that point into the text. -/
def Standard.exact (text : String) (limit : Nat) : Standard text limit where
  accepts := ReadError.PointsInto text limit
  pointing _ h := h

namespace ReadM

variable {α β : Type} {text : String} {limit : Nat} {v : Standard text limit} {good : α → Prop}

/-! ### Readings that point at what they complain of -/

/-- **A reading points at what it complains of**: it keeps to the text, has `good` results only, and
fails with accepted errors only. -/
def Points (v : Standard text limit) (reading : ReadM α) (good : α → Prop) : Prop :=
  ∀ r : Reader, r.Follows text limit →
    Gives reading (fun a after => good a ∧ after.Follows text limit) (fun e _ => v.accepts e) r

/-- Less may be said of the results. -/
theorem Points.mono {reading : ReadM α} {better : α → Prop} (h : Points v reading better)
    (weaker : ∀ a, better a → good a) : Points v reading good := fun r follows =>
  (h r follows).mono (fun a _ ⟨fine, still⟩ => ⟨weaker a fine, still⟩) fun _ _ => id

theorem Points.pure {a : α} (h : good a) : Points v (Pure.pure a) good :=
  fun _ follows => ⟨h, follows⟩

/-- An error that is known to point into the text may be thrown anywhere. -/
theorem Points.throw {e : ReadError} (h : e.PointsInto text limit) :
    Points v (MonadExcept.throw e) good := fun _ _ => v.pointing e h

/-- The second reading starts where the first one left the text. -/
theorem Points.bind {x : ReadM β} {f : β → ReadM α} {between : β → Prop}
    (first : Points v x between) (next : ∀ b, between b → Points v (f b) good) :
    Points v (x >>= f) good := fun r follows =>
  (first r follows).bind fun b after ⟨fine, still⟩ => next b fine after still

/-- What is looked at stands in the text, however far the reading goes from there. -/
theorem Points.get {f : Reader → ReadM α}
    (h : ∀ r : Reader, StandsAt text r.token r.place → r.limit = limit → Points v (f r) good) :
    Points v (MonadState.get >>= f) good := fun r follows =>
  h r follows.here follows.limit r follows

theorem Points.ite {c : Prop} [Decidable c] {x y : ReadM α} (yes : c → Points v x good)
    (no : ¬ c → Points v y good) : Points v (if c then x else y) good := by
  by_cases h : c
  · rw [if_pos h]
    exact yes h
  · rw [if_neg h]
    exact no h

theorem Points.atSymbol {s : Symbol} {x y : ReadM α} (there : Points v x good)
    (absent : Points v y good) : Points v (do if ← ReadM.atSymbol s then x else y) good :=
  Points.get fun _ _ _ => Points.ite (fun _ => there) fun _ => absent

theorem Points.atKeyword {k : Keyword} {x y : ReadM α} (there : Points v x good)
    (absent : Points v y good) : Points v (do if ← ReadM.atKeyword k then x else y) good :=
  Points.get fun _ _ _ => Points.ite (fun _ => there) fun _ => absent

/-- What cannot be scanned is the first error of the text. -/
theorem Points.advance : Points v ReadM.advance Anything := by
  intro r follows
  refine Gives.of_cases (fun u after found => ⟨trivial, follows.advance found⟩) ?_
  intro e after found
  unfold ReadM.advance at found
  split at found
  · cases found
  · rename_i fault feed pulled
    cases found
    exact v.pointing _ (follows.fault _ (Feed.tokens_of_pull_error pulled))

theorem Points.note {event : LevelEvent} : Points v (ReadM.note event) Anything :=
  fun _ follows =>
    ⟨trivial, follows.suffix, follows.inner, follows.last, follows.fault, follows.limit⟩

/-- The token that is named in the error is the one the reader stands at. -/
theorem Points.failExpecting {expected : Expected} :
    Points v (ReadM.failExpecting expected) good :=
  Points.get fun _ stands _ => Points.throw (ReadError.About.pointsInto rfl rfl stands)

/-- The rules that any token may break are broken by the one that comes next. -/
theorem Points.failBreaking {rule : Rule}
    (about : ∀ (t : Token) (place : Position), (ReadError.broken rule place).About t) :
    Points v (ReadM.failBreaking rule) good :=
  Points.get fun r stands _ => Points.throw ((about r.token r.place).pointsInto rfl stands)

theorem Points.expectClosing {s : Symbol} {expected : Expected} :
    Points v (ReadM.expectClosing s expected) Anything :=
  Points.atSymbol Points.advance Points.failExpecting

theorem Points.expect {s : Symbol} : Points v (ReadM.expect s) Anything := Points.expectClosing

theorem Points.expectKeyword {k : Keyword} : Points v (ReadM.expectKeyword k) Anything :=
  Points.atKeyword Points.advance Points.failExpecting

theorem Points.expectEnd : Points v ReadM.expectEnd Anything :=
  Points.get fun _ _ _ => Points.ite (fun _ => Points.pure trivial) fun _ => Points.failExpecting

/-- The limit is the one the text is read under. -/
theorem Points.checkHeight (height : Nat) : Points v (ReadM.checkHeight height) Anything :=
  Points.get fun _ _ fixed => Points.ite (fun _ => Points.throw fixed) fun _ => Points.pure trivial

/-- A judgement points at its token if its errors do. -/
theorem Points.judge {x : Except ReadError α} (fine : ∀ a, x = .ok a → good a)
    (fault : ∀ e, x = .error e → v.accepts e) : Points v (ReadM.judge x) good := by
  cases x with
  | ok a => exact Points.pure (fine a rfl)
  | error e => exact fun _ _ => fault e rfl

theorem Points.whileToken {test : Token → Bool} {round : α → ReadM α}
    {spends : ∀ acc r, test r.token = true → Spends (round acc) r} {acc : α} (start : good acc)
    (kept : ∀ acc, good acc → Points v (round acc) good) :
    Points v (ReadM.whileToken test round spends acc) good := fun _ follows =>
  Gives.whileToken ⟨start, follows⟩ fun acc r _ ⟨fine, still⟩ => kept acc fine r still

/-! ### Names -/

theorem isEmpty_eq {name : String} (h : name.isEmpty = true) : name = "" :=
  String.isEmpty_iff.mp h

/-- A reserved word and an empty name are complained of at their own places, though taken before. -/
theorem points_name : Points v name Anything := by
  refine Points.get fun r stands _ => ?_
  split
  · exact Points.advance.bind fun _ _ => Points.pure trivial
  · rename_i k spelling token
    rw [token] at stands
    refine Points.advance.bind fun _ _ => Points.ite (fun reserved => ?_) fun _ =>
      Points.pure trivial
    exact Points.throw (ReadError.About.pointsInto ⟨k, rfl, reserved⟩ rfl stands)
  · rename_i text token
    rw [token] at stands
    refine Points.advance.bind fun _ _ => Points.ite (fun empty => ?_) fun _ => Points.pure trivial
    rw [isEmpty_eq empty] at stands
    exact Points.throw (ReadError.About.pointsInto (.inl rfl) rfl stands)
  · exact Points.failExpecting

/-- What is wrong with a part of a key is wrong with its token. -/
theorem pointsInto_of_keyPart {place : Position} {t : Token} {e : ReadError}
    (stands : StandsAt text t place) (h : keyPart place t = .error e) :
    e.PointsInto text limit := by
  unfold keyPart at h
  split at h
  · rename_i text
    split at h
    · rename_i empty
      cases h
      rw [isEmpty_eq empty] at stands
      exact ReadError.About.pointsInto (.inr (.inl rfl)) rfl stands
    · cases h
  · cases h
  · cases h
    exact ReadError.About.pointsInto rfl rfl stands

theorem points_keyPart {place : Position} {t : Token} (stands : StandsAt text t place) :
    Points v (judge (keyPart place t)) Anything :=
  Points.judge (fun _ _ => trivial) fun _ found => v.pointing _ (pointsInto_of_keyPart stands found)

theorem points_moreKey (parts : List Name) : Points v (moreKey parts) Anything :=
  Points.get fun _ stands _ => Points.advance.bind fun _ _ =>
    (points_keyPart stands).bind fun _ _ => Points.pure trivial

/-- The first part of a key was taken before; it stands in the text all the same. -/
theorem points_keyFrom {place : Position} {first : Token} (stands : StandsAt text first place) :
    Points v (keyFrom place first) Anything := by
  refine (points_keyPart stands).bind fun _ _ => ?_
  have more : Points v (ReadM.whileToken Token.isKeyPart moreKey (fun _ _ => Spends.moreKey) [])
      Anything := Points.whileToken trivial fun parts _ => points_moreKey parts
  exact more.bind fun _ _ => Points.pure trivial

theorem points_segment : Points v segment Anything := by
  refine Points.get fun r stands _ => Points.ite (fun _ => ?_) fun _ => ?_
  · refine Points.advance.bind fun _ _ => ?_
    exact (points_keyFrom stands).bind fun _ _ => Points.pure trivial
  · exact points_name.bind fun _ _ => Points.pure trivial

theorem points_identifier : Points v identifier Anything := by
  refine points_segment.bind fun _ _ => Points.whileToken trivial fun id _ => ?_
  exact Points.advance.bind fun _ _ => points_segment.bind fun _ _ => Points.pure trivial

/-- The dot behind the name of a cube is what is wrong, not the name. -/
theorem points_cubeName : Points v cubeName Anything := by
  refine points_name.bind fun _ _ => Points.get fun r stands _ => ?_
  refine Points.ite (fun dot => ?_) fun _ => Points.pure trivial
  exact Points.throw (ReadError.About.pointsInto (Token.isSymbol_iff.mp dot) rfl stands)

end ReadM

/-! ### Operands -/

namespace Engine

variable {text : String} {limit : Nat} {v : Standard text limit}

theorem points_enter (e : Engine) (frame : Frame) (height : Nat) :
    Points v (e.enter frame height) Anything :=
  (Points.checkHeight _).bind fun _ _ => Points.note.bind fun _ _ => Points.pure trivial

theorem points_nameOrFunction (e : Engine) (name : String) :
    Points v (e.nameOrFunction name) Anything := by
  refine Points.atSymbol (Points.advance.bind fun _ _ => ?_) (Points.pure trivial)
  refine Points.atSymbol ?_ (e.points_enter _ _)
  exact Points.advance.bind fun _ _ => Points.pure trivial

/-- The token that is no operand was taken before, and its place is kept. -/
theorem points_atom (e : Engine) : Points v e.atom Anything := by
  refine Points.get fun r stands _ => Points.advance.bind fun _ _ => ?_
  have misplaced : Points v (throw (r.unexpected .expression) : ReadM Engine) Anything :=
    Points.throw (ReadError.About.pointsInto rfl rfl stands)
  split
  · exact Points.pure trivial
  · exact Points.pure trivial
  · exact e.points_nameOrFunction _
  · refine Points.ite (fun _ => Points.pure trivial) fun _ => ?_
    exact Points.ite (fun _ => misplaced) fun _ => e.points_nameOrFunction _
  · rename_i name token
    rw [token] at stands
    refine Points.ite (fun empty => ?_) fun _ => Points.pure trivial
    rw [isEmpty_eq empty] at stands
    exact Points.throw (ReadError.About.pointsInto (.inl rfl) rfl stands)
  · exact (points_keyFrom stands).bind fun _ _ => Points.pure trivial
  · exact (points_keyFrom stands).bind fun _ _ => Points.pure trivial
  · exact misplaced
  · exact misplaced

/-- Nothing but the limit and the next token can be wrong in front of an atom. -/
theorem points_operandStep (e : Engine) : Points v e.operandStep Anything := by
  refine Points.get fun r _ _ => ?_
  split
  · refine (Points.checkHeight _).bind fun _ _ => ?_
    exact Points.advance.bind fun _ _ => Points.pure trivial
  refine Points.ite (fun _ => ?_) fun _ => ?_
  · exact Points.advance.bind fun _ _ => e.points_enter _ _
  refine Points.ite (fun _ => ?_) fun _ => ?_
  · refine Points.advance.bind fun _ _ => Points.atSymbol ?_ (e.points_enter _ _)
    exact Points.advance.bind fun _ _ => Points.pure trivial
  refine Points.ite (fun _ => ?_) fun _ => ?_
  · refine Points.advance.bind fun _ _ => Points.atKeyword ?_ (e.points_enter _ _)
    exact Points.advance.bind fun _ _ => e.points_enter _ _
  refine Points.ite (fun _ => ?_) fun _ => ?_
  · exact Points.advance.bind fun _ _ => Points.expect.bind fun _ _ => e.points_enter _ _
  exact Points.ite (fun _ => Points.pure trivial) fun _ => e.points_atom

/-! ### Accesses -/

theorem points_methodOr {receiver : Node} {name : String} {plain : ReadM Access}
    (h : Points v plain Anything) : Points v (methodOr receiver name plain) Anything := by
  refine Points.atSymbol (Points.advance.bind fun _ _ => Points.atSymbol ?_ (Points.pure trivial)) h
  exact Points.advance.bind fun _ _ => Points.pure trivial

/-- A name in brackets that is nothing but the mark of a key is empty. -/
theorem points_bracketedAccess {receiver : Node} {name : String} {place : Position}
    (stands : StandsAt text (.bracketed name) place) :
    Points v (judge (bracketedAccess receiver name place)) Anything := by
  refine Points.judge (fun _ _ => trivial) fun e found => v.pointing e ?_
  unfold bracketedAccess at found
  split at found
  · rename_i mark
    cases found
    have same : name = "&" := String.toList_injective mark
    rw [same] at stands
    exact ReadError.About.pointsInto (.inr (.inr rfl)) rfl stands
  · cases found
  · split at found <;> cases found

/-- What is wrong is the first part of the key, which stands behind the dot. -/
theorem points_keyAccess {receiver : Node} {key : Key} {t : Token} {place : Position}
    (part : t.isKeyPart = true) (stands : StandsAt text t place) :
    Points v (judge (keyAccess receiver key place)) Anything := by
  refine Points.judge (fun _ _ => trivial) fun e found => v.pointing e ?_
  unfold keyAccess at found
  split at found <;> cases found
  exact ReadError.About.pointsInto part rfl stands

/-- What is wrong is what stands behind the dot, though more may have been taken since. -/
theorem points_memberAccess (receiver : Node) : Points v (memberAccess receiver) Anything := by
  refine Points.get fun r stands _ => Points.advance.bind fun _ _ => ?_
  have misplaced : Points v (throw (r.unexpected .identifierAfterDot) : ReadM Access) Anything :=
    Points.throw (ReadError.About.pointsInto rfl rfl stands)
  -- A key of several parts is judged when all of them were taken, at the place of the first.
  have key (part : r.token.isKeyPart = true) : Points v (do
      let key ← keyFrom r.place r.token
      return Access.reached (← judge (keyAccess receiver key r.place))) Anything :=
    (points_keyFrom stands).bind fun _ _ =>
      (points_keyAccess part stands).bind fun _ _ => Points.pure trivial
  split
  · exact points_methodOr (Points.pure trivial)
  · rename_i k spelling token
    rw [token] at stands
    refine Points.ite (fun reserved => ?_) fun _ => points_methodOr (Points.pure trivial)
    exact Points.throw (ReadError.About.pointsInto ⟨k, rfl, reserved⟩ rfl stands)
  · rename_i name token
    rw [token] at stands
    refine Points.ite (fun empty => ?_) fun _ => points_methodOr ?_
    · rw [isEmpty_eq empty] at stands
      exact Points.throw (ReadError.About.pointsInto (.inl rfl) rfl stands)
    · exact (points_bracketedAccess stands).bind fun _ _ => Points.pure trivial
  · rename_i token
    exact key (by rw [token]; rfl)
  · rename_i token
    exact key (by rw [token]; rfl)
  all_goals exact misplaced

theorem points_accessStep (e : Engine) (node : Node) : Points v (e.accessStep node) Anything := by
  refine Points.atSymbol ?_ ?_
  · refine Points.advance.bind fun _ _ => (points_memberAccess node).bind fun access _ => ?_
    cases access with
    | reached next => exact (Points.checkHeight _).bind fun _ _ => Points.pure trivial
    | method name => exact e.points_enter _ _
  · exact (Points.checkHeight _).bind fun _ _ => Points.pure trivial

/-! ### Operators and ends -/

theorem points_pushBinary (e : Engine) (operator : Operator) :
    Points v (e.pushBinary operator) Anything := by
  unfold pushBinary
  split
  · refine (Points.checkHeight _).bind fun _ _ => ?_
    exact (Points.checkHeight _).bind fun _ _ => Points.pure trivial
  · exact Points.failBreaking fun _ _ => trivial

theorem points_pushTrailing (e : Engine) (operator : Operator) :
    Points v (e.pushTrailing operator) Anything := by
  unfold pushTrailing
  split
  · split
    · exact (Points.checkHeight _).bind fun _ _ => Points.pure trivial
    · exact Points.failBreaking fun _ _ => trivial
  · exact Points.failBreaking fun _ _ => trivial

theorem points_pushName (e : Engine) : Points v e.pushName Anything := by
  refine points_identifier.bind fun name _ => ?_
  split
  · exact (Points.checkHeight _).bind fun _ _ => Points.pure trivial
  · exact Points.failBreaking fun _ _ => trivial

theorem points_nullTest : Points v nullTest Anything := by
  refine Points.atKeyword (Points.pure trivial) (Points.atKeyword (Points.pure trivial) ?_)
  refine Points.atKeyword (Points.advance.bind fun _ _ => ?_) (Points.pure trivial)
  exact Points.atKeyword (Points.pure trivial) (Points.atKeyword (Points.pure trivial)
    Points.failExpecting)

theorem points_identityStep (e : Engine) : Points v e.identityStep Anything := by
  refine points_nullTest.bind fun test _ => ?_
  cases test with
  | some operator => exact Points.advance.bind fun _ _ => e.points_pushTrailing operator
  | none => exact e.points_pushBinary _

theorem points_negationStep (e : Engine) : Points v e.negationStep Anything := by
  refine Points.atKeyword ?_ (Points.atKeyword ?_ Points.failExpecting)
  · exact Points.advance.bind fun _ _ => e.points_pushBinary _
  · exact Points.advance.bind fun _ _ => e.points_pushBinary _

theorem points_leave (e : Engine) (node : Node) : Points v (e.leave node) Anything := by
  refine (Points.checkHeight _).bind fun _ _ => ?_
  split
  · exact Points.note.bind fun _ _ => Points.pure trivial
  · exact Points.failBreaking fun _ _ => trivial

theorem points_closeItems (e : Engine) (bracket : Bracket) (items : List Expr) (height : Nat) :
    Points v (e.closeItems bracket items height) Anything := by
  refine Points.atSymbol ?_ ?_
  · exact Points.advance.bind fun _ _ => Points.pure trivial
  · exact Points.expectClosing.bind fun _ _ => e.points_leave _

/-- The comma in a `CAST` is what is wrong. -/
theorem points_closeCast (e : Engine) (expr : Expr) (height : Nat) :
    Points v (e.closeCast expr height) Anything := by
  intro r follows
  change Gives (if r.token.isSymbol .comma = true then failBreaking .singleCast else _) _ _ r
  by_cases comma : r.token.isSymbol .comma = true
  · rw [if_pos comma]
    exact v.pointing _ (ReadError.About.pointsInto (Token.isSymbol_iff.mp comma) rfl follows.here)
  · rw [if_neg comma]
    have type : Points v (do
        expectKeyword .AS
        let type ← name
        expect .closeParen
        e.leave (.above (.call .cast "CAST" [expr, .typeName type.text]) height)) Anything :=
      Points.expectKeyword.bind fun _ _ => points_name.bind fun _ _ =>
        Points.expect.bind fun _ _ => e.points_leave _
    exact type r follows

/-- The keyword that is missing is missed where the reader stands. -/
theorem points_closeCase (e : Engine) (operand : Option Expr) (branches : List (Expr × Expr))
    (stage : CaseStage) (expr : Expr) (height : Nat) :
    Points v (e.closeCase operand branches stage expr height) Anything := by
  cases stage with
  | operand => exact Points.expectKeyword.bind fun _ _ => Points.pure trivial
  | condition => exact Points.expectKeyword.bind fun _ _ => Points.pure trivial
  | result condition =>
    refine Points.atKeyword ?_ (Points.atKeyword ?_ (Points.atKeyword ?_ Points.failExpecting))
    · exact Points.advance.bind fun _ _ => Points.pure trivial
    · exact Points.advance.bind fun _ _ => Points.pure trivial
    · exact Points.advance.bind fun _ _ => e.points_leave _
  | otherwise => exact Points.expectKeyword.bind fun _ _ => e.points_leave _

/-- What was folded is too high for the limit, or the level is not closed here. -/
theorem points_closeLevel (e : Engine) : Points v e.closeLevel Anything := by
  unfold closeLevel
  split
  · refine (Points.checkHeight _).bind fun _ _ => ?_
    unfold closeFrame
    split
    · exact Points.pure trivial
    · exact e.points_closeItems _ _ _
    · exact e.points_closeCast _ _
    · exact e.points_closeCase _ _ _ _ _
  · exact Points.failBreaking fun _ _ => trivial

/-- A token that continues nothing ends the level, and is judged there. -/
theorem points_operatorStep (e : Engine) : Points v e.operatorStep Anything := by
  refine Points.get fun r _ _ => Points.ite (fun _ => ?_) fun _ => Points.ite (fun _ => ?_) ?_
  · exact Points.advance.bind fun _ _ => e.points_identityStep
  · exact Points.advance.bind fun _ _ => e.points_negationStep
  intro _
  split
  · refine Points.ite (fun _ => e.points_closeLevel) fun _ => ?_
    exact Points.advance.bind fun _ _ => e.points_pushName
  · exact Points.advance.bind fun _ _ => e.points_pushBinary _
  · exact e.points_closeLevel

/-- **Every step keeps to the text**, and points at what it complains of. -/
theorem points_step (e : Engine) : Points v e.step Anything := by
  unfold step
  split
  · exact e.points_operandStep.bind fun _ _ => Points.pure trivial
  · exact (e.points_accessStep _).bind fun _ _ => Points.pure trivial
  · exact e.points_operatorStep

theorem points_run (e : Engine) : Points v e.run Anything := by
  intro r follows
  have kept (e : Engine) (r : Reader) (follows : r.Follows text limit) :
      Gives e.step (Outcome.Holds (fun _ r => r.Follows text limit)
        fun _ after => Anything () ∧ after.Follows text limit) (fun e _ => v.accepts e) r := by
    refine (e.points_step r follows).mono (fun outcome after ⟨_, later⟩ => ?_) fun _ _ => id
    cases outcome with
    | more e => exact later
    | done node => exact ⟨trivial, later⟩
  exact gives_run kept e r follows

end Engine

/-! ### Whole texts -/

namespace ReadM

variable {text : String} {limit : Nat} {v : Standard text limit}

theorem points_expression : Points v expression Anything :=
  Engine.start.points_run.bind fun _ _ => Points.pure trivial

theorem points_wholeExpression : Points v wholeExpression Anything :=
  points_expression.bind fun _ _ => Points.expectEnd.bind fun _ _ => Points.pure trivial

theorem points_wholeCubeName : Points v wholeCubeName Anything :=
  points_cubeName.bind fun _ _ => Points.expectEnd.bind fun _ _ => Points.pure trivial

/-- What a reading points at, it points at from the beginning of a text. -/
theorem Points.accepts_of_read {goal : Goal} (points : Points v goal.reading Anything)
    {e : ReadError} (h : read goal text limit = .error e) : v.accepts e := by
  unfold read readWithEvents at h
  cases start : Reader.ofText text limit with
  | error fault =>
    rw [start] at h
    cases h
    exact v.pointing _ (Reader.pointsInto_of_ofText start)
  | ok r =>
    simp only [start, Reader.attempt] at h
    split at h
    · cases h
    · rename_i fault after found
      cases h
      exact (points r (Reader.follows_of_ofText start)).error found

end ReadM

/-- **Errors in expressions and in names of cubes are located exactly.**  If such a text cannot be
scanned, the error is the one that scanning gives.  Any other error with a place has the place of a
token that is the one complained of. -/
theorem pointsInto_of_read {goal : Goal} (short : goal = .expression ∨ goal = .cubeName)
    {text : String} {limit : Nat} {e : ReadError} (h : read goal text limit = .error e) :
    e.PointsInto text limit := by
  have points : Points (Standard.exact text limit) goal.reading Anything := by
    rcases short with rfl | rfl
    · exact points_wholeExpression.bind fun _ _ => Points.pure trivial
    · exact points_wholeCubeName.bind fun _ _ => Points.pure trivial
  exact points.accepts_of_read h

/-- The error of a result that is one. -/
def fault? {ε α : Type} : Except ε α → Option ε
  | .error e => some e
  | .ok _ => none

theorem eq_error_of_fault? {ε α : Type} {x : Except ε α} {e : ε} (h : fault? x = some e) :
    x = .error e := by
  cases x with
  | ok a => cases h
  | error found => exact congrArg _ (Option.some.inj h)

/-- The key has two parts and a token was looked at behind them, but what is wrong is that it
begins where it does. -/
theorem pointsInto_of_read_key :
    read .expression "(a + 1).&[x]&[y] * 2" 9 = .error (.broken .keyAfterIdentifier ⟨8, 1, 9⟩) ∧
      (ReadError.broken .keyAfterIdentifier ⟨8, 1, 9⟩).PointsInto "(a + 1).&[x]&[y] * 2" 9 := by
  have failed : read .expression "(a + 1).&[x]&[y] * 2" 9 =
      .error (.broken .keyAfterIdentifier ⟨8, 1, 9⟩) :=
    eq_error_of_fault? (by decide +kernel)
  exact ⟨failed, pointsInto_of_read (.inl rfl) failed⟩

end MdxReader
