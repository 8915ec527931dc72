import MdxReader.Proofs.Grammar
import MdxReader.Proofs.Tokens

/-!
# Readings as parsers

`ReadM.Parses view x p` says that the reading `x` does what the parser `p` does with the tokens
ahead of a reader, where `view` is taken of its value (`MdxReader.Proofs.Tokens`).  There is one
rule for each building block that the readings of statements are put together from.

A loop that collects items is a repetition (`Parses.whileToken`).  A loop that collects what is to
be done afterwards has no parser of its own; it is taken together with what follows it
(`means_whileToken_bind`).
-/

namespace MdxReader

open Descent

namespace ReadM

section Parses

variable {α β γ δ : Type} {view : α → β} {x y : ReadM α} {p q : Parser β}

/-- **A reading parses** what a parser does: from every reader it comes to a value of which the view
is the parser's value, and to the same tokens. -/
def Parses (view : α → β) (x : ReadM α) (p : Parser β) : Prop :=
  ∀ r : Reader, Means x (fun a ts => some (view a, ts)) (p r.tokens) r

theorem Parses.pure (a : α) : Parses view (Pure.pure a) (Pure.pure (view a)) :=
  fun _ => Means.pure rfl

theorem Parses.failBreaking {rule : Rule} :
    Parses view (ReadM.failBreaking rule) failure := fun _ => Means.failBreaking rfl

theorem Parses.bind {view' : γ → δ} {f : α → ReadM γ} {g : β → Parser δ} (first : Parses view x p)
    (next : ∀ a, Parses view' (f a) (g (view a))) : Parses view' (x >>= f) (p >>= g) := by
  intro r
  refine Means.chain (first r) (fun a after yielded => ?_) fun none => Parser.bind_of_none none
  rw [Parser.bind_of_some yielded.symm]
  exact next a after

/-- The value of the first reading is passed on as it is. -/
theorem Parses.andThen {view' : γ → δ} {x : ReadM α} {p : Parser α} {f : α → ReadM γ}
    {g : α → Parser δ} (first : Parses id x p) (next : ∀ a, Parses view' (f a) (g a)) :
    Parses view' (x >>= f) (p >>= g) := Parses.bind first next

theorem Parses.judge {x : Except ReadError α} {o : Option α} (agrees : x.toOption = o) :
    Parses id (ReadM.judge x) (Parser.ofOption o) := by
  intro r
  cases x with
  | ok a =>
    rw [← agrees]
    exact Means.pure rfl
  | error e =>
    rw [← agrees]
    exact fun _ => .inl rfl

/-- What a reading comes to is taken over by the rest of a parser. -/
theorem Means.into {g : β → Parser δ} {r : Reader}
    (h : Means x (fun a ts => some (view a, ts)) (p r.tokens) r) :
    Means x (fun a => g (view a)) ((p >>= g) r.tokens) r := by
  rw [← bind_pure x]
  refine Means.chain h (fun a after yielded => Means.pure ?_) fun none => Parser.bind_of_none none
  rw [Parser.bind_of_some yielded.symm]

/-- Moving past a token that is there is taking it. -/
theorem Means.past {r : Reader} {f : Unit → ReadM α} (more : r.token ≠ .endOfText)
    (next : Parses view (f ()) p) :
    Means (ReadM.advance >>= f) (fun a ts => some (view a, ts)) (p (r.tokens.drop 1)) r := by
  refine Means.advance more fun after moved => ?_
  rw [moved]
  exact next after

theorem Parses.ifKeyword {k : Keyword} (there : Parses view x p) (absent : Parses view y q) :
    Parses view (do if ← atKeyword k then do advance; x else y) (Parser.ifKeyword k p q) := by
  intro r
  refine Means.atKeyword (fun here => ?_) fun other => ?_
  · have comes : (look r.tokens).isKeyword k = true := here
    rw [Parser.ifKeyword_of_look comes]
    exact Means.past (Token.ne_endOfText_of_isKeyword here) there
  · have misses : (look r.tokens).isKeyword k = false := other
    rw [Parser.ifKeyword_of_ne misses]
    exact absent r

theorem Parses.ifSymbol {s : Symbol} (there : Parses view x p) (absent : Parses view y q) :
    Parses view (do if ← atSymbol s then do advance; x else y) (Parser.ifSymbol s p q) := by
  intro r
  refine Means.atSymbol (fun here => ?_) fun other => ?_
  · rw [show Parser.ifSymbol s p q r.tokens = p (r.tokens.drop 1) from if_pos here]
    exact Means.past (Token.ne_endOfText_of_isSymbol here) there
  · rw [show Parser.ifSymbol s p q r.tokens = q r.tokens from if_neg (Bool.eq_false_iff.mp other)]
    exact absent r

theorem Parses.expectKeyword (k : Keyword) : Parses id (expectKeyword k) (Parser.keyword k) := by
  intro r
  rw [← bind_pure (ReadM.expectKeyword k)]
  refine Means.expectKeyword (fun here after moved => Means.pure ?_) fun other => ?_
  · have comes : (look r.tokens).isKeyword k = true := here
    rw [Parser.keyword_of_look comes, moved]
    rfl
  · have misses : (look r.tokens).isKeyword k = false := other
    exact Parser.keyword_eq_none misses

theorem Parses.expect (s : Symbol) : Parses id (expect s) (Parser.symbol s) := by
  intro r
  rw [← bind_pure (ReadM.expect s)]
  refine Means.expectClosing (fun here after moved => Means.pure ?_) fun other => ?_
  · have comes : (look r.tokens).isSymbol s = true := here
    rw [Parser.symbol_of_look comes, moved]
    rfl
  · have misses : (look r.tokens).isSymbol s = false := other
    exact Parser.symbol_eq_none misses

theorem parses_expectEnd : Parses id expectEnd Parser.ended := by
  intro r
  refine Means.get ?_
  unfold Parser.ended
  rw [r.look_tokens]
  by_cases reached : r.token = .endOfText
  · rw [if_pos reached, if_pos reached]
    exact Means.pure rfl
  · rw [if_neg reached, if_neg reached]
    exact Means.failExpecting rfl

/-- A change that leaves alone what is ahead. -/
theorem Means.changing {change : Reader → Reader} {f : Unit → ReadM α}
    {k : α → List Token → Option β} {v : Option β} {r : Reader}
    (same : ∀ r : Reader, (change r).ahead = r.ahead)
    (next : ∀ after, after.tokens = r.tokens → Means (f ()) k v after) :
    Means (modify change >>= f) k v r := by
  have tokens : (change r).tokens = r.tokens := by
    unfold Reader.tokens
    rw [same]
  have passes : r.Passes (change r) := by
    refine ⟨⟨[], same r⟩, fun clean => ?_⟩
    unfold Reader.Clean
    rw [tokens]
    exact clean
  have means := next (change r) tokens
  have step : (modify change >>= f) r = f () (change r) := rfl
  unfold Means at means ⊢
  rw [step]
  split <;> rename_i found <;> rw [found] at means
  · exact ⟨means.1, passes.trans means.2⟩
  · exact fun clean => means (passes.clean clean)

theorem Parses.changing {change : Reader → Reader} {f : Unit → ReadM α}
    (same : ∀ r : Reader, (change r).ahead = r.ahead) (next : Parses view (f ()) p) :
    Parses view (modify change >>= f) p := by
  intro r
  refine Means.changing same fun after tokens => ?_
  rw [← tokens]
  exact next after

/-- Going deeper fails at the limit only, and leaves the tokens alone. -/
theorem Means.descend {f : Unit → ReadM α} {k : α → List Token → Option β} {v : Option β}
    {r : Reader} (next : ∀ after, after.tokens = r.tokens → Means (f ()) k v after) :
    Means (ReadM.descend >>= f) k v r :=
  Means.nested (Means.checkHeight (Means.changing (fun _ => rfl) next))

theorem Means.keepingDepth {k : α → List Token → Option β} {v : Option β} {r : Reader}
    (h : Means x k v r) : Means (keepingDepth x) k v r := by
  unfold Means at h ⊢
  unfold ReadM.keepingDepth
  cases found : x r with
  | ok a after =>
    rw [found] at h
    exact ⟨h.1, h.2.suffix, h.2.clean⟩
  | error e after =>
    rw [found] at h
    exact h

/-- **A loop is a repetition**, newest values first. -/
theorem Parses.whileToken {test : Token → Bool} {round : List α → ReadM (List α)}
    {spends : ∀ acc r, test r.token = true → Spends (round acc) r} {spends' : p.Spends}
    (rounds : ∀ acc r, test r.token = true →
      Means (round acc) (fun all ts => some (all.map view, ts))
        ((do return (← p) :: acc.map view : Parser (List β)) r.tokens) r) (acc : List α) :
    Parses (List.map view) (whileToken test round spends acc)
      (do return (← Parser.repeated test p spends').reverse ++ acc.map view) := by
  intro r
  -- The induction is on the tokens ahead: each round takes some.
  induction size : r.tokens.length using Nat.strongRecOn generalizing r acc with
  | _ n ih =>
    refine Means.of_whileToken (fun passes => ?_) fun fails => ?_
    · have comes : test (look r.tokens) = true := passes
      rw [Parser.bind_congr_at (Parser.repeated_of_look comes), bind_assoc]
      refine Means.chain (rounds acc r passes) (fun next after yielded => ?_) fun none => ?_
      · obtain ⟨b, between, taken, made⟩ := Parser.bind_eq_some yielded.symm
        obtain ⟨values, rfl⟩ := Prod.mk.inj (Option.some.inj made)
        have fewer := spends' _ _ _ taken
        have later := ih _ (size ▸ fewer) next after rfl
        rw [Parser.bind_of_some taken]
        simp only [bind_assoc, pure_bind, List.reverse_cons, List.append_assoc,
          List.singleton_append]
        rw [← values] at later
        exact later
      · rw [Parser.bind_apply] at none ⊢
        cases taken : p r.tokens with
        | none => rfl
        | some pair =>
          rw [taken] at none
          cases none
    · have misses : test (look r.tokens) = false := fails
      rw [Parser.bind_of_some (Parser.repeated_of_ne misses)]
      rfl

end Parses

section Lists

variable {α β : Type} {view : α → β} {item : ReadM α} {keeps : Keeps item} {p : Parser β}
  {keeps' : p.Keeps}

theorem Parses.itemsAfter (h : Parses view item p) (items : List α) :
    Parses (List.map view) (itemsAfter item keeps items)
      (do return items.reverse.map view ++ (← Parser.further p keeps')) := by
  have round (items : List α) (r : Reader) (comma : r.token.isSymbol .comma = true) :
      Means (moreItems item items) (fun all ts => some (all.map view, ts))
        (((do Parser.symbol .comma; p : Parser β) >>= fun b => Pure.pure (b :: items.map view))
          r.tokens) r := by
    have comes : (look r.tokens).isSymbol .comma = true := comma
    rw [bind_assoc, Parser.bind_of_some (Parser.symbol_of_look comes)]
    have next : Parses (List.map view) (do return (← item) :: items)
        (do return (← p) :: items.map view) := Parses.bind h fun a => Parses.pure (a :: items)
    exact Means.past (Token.ne_endOfText_of_isSymbol comma) next
  have loop : Parses (List.map view)
      (ReadM.whileToken (·.isSymbol .comma) (moreItems item)
        (fun _ _ => Spends.moreItems keeps) items)
      (do return (← Parser.further p keeps').reverse ++ items.map view) :=
    Parses.whileToken round items
  have turned : Parses (List.map view) (ReadM.itemsAfter item keeps items)
      ((do return (← Parser.further p keeps').reverse ++ items.map view : Parser (List β)) >>=
        fun all => Pure.pure all.reverse) := by
    refine Parses.bind loop fun all => ?_
    rw [← List.map_reverse]
    exact Parses.pure all.reverse
  simp only [bind_assoc, pure_bind, List.reverse_append, List.reverse_reverse] at turned
  rw [List.map_reverse]
  exact turned

theorem Parses.separated (h : Parses view item p) :
    Parses (List.map view) (separated item keeps) (Parser.separated p keeps') := by
  refine Parses.bind h fun first => ?_
  exact Parses.itemsAfter h [first]

/-- The items behind commas, with none before them. -/
theorem Parses.further {item : ReadM α} {keeps : Keeps item} {p : Parser α} {keeps' : p.Keeps}
    (h : Parses id item p) :
    Parses id (ReadM.itemsAfter item keeps []) (Parser.further p keeps') := by
  have all : Parses (List.map id) (ReadM.itemsAfter item keeps [])
      (do return [].reverse.map id ++ (← Parser.further p keeps')) := Parses.itemsAfter h []
  simp only [List.reverse_nil, List.map_nil, List.nil_append, bind_pure, List.map_id_fun] at all
  exact all

end Lists

/-! ### Loops with something left to do -/

/-- **A loop and what follows it**: a round takes part of what is still to come off, and where the
loop stops the rest is read. -/
theorem means_whileToken_bind {σ α β : Type} {test : Token → Bool} {round : σ → ReadM σ}
    {spends : ∀ acc r, test r.token = true → Spends (round acc) r} {f : σ → ReadM α}
    {result : σ → List Token → Option β} {k : α → List Token → Option β}
    (goesOn : ∀ acc r, test r.token = true →
      Means (round acc) result (result acc r.tokens) r)
    (stops : ∀ acc r, test r.token = false → Means (f acc) k (result acc r.tokens) r)
    (acc : σ) (r : Reader) :
    Means (whileToken test round spends acc >>= f) k (result acc r.tokens) r := by
  -- The induction is on the tokens that remain: every round spends some of them.
  induction left : r.remaining using Nat.strongRecOn generalizing r acc with
  | _ n ih =>
    cases passes : test r.token with
    | true =>
      have unrolled : (whileToken test round spends acc >>= f) r =
          (round acc >>= fun next => whileToken test round spends next >>= f) r := by
        rw [← bind_assoc]
        change EStateM.bind _ _ r = EStateM.bind _ _ r
        unfold EStateM.bind
        rw [whileToken_apply, if_pos passes]
      refine Means.congr unrolled ?_
      refine Means.chain_of_ok (goesOn acc r passes) (fun next after found same => ?_) id
      have fewer := spends acc r passes next after found
      have later := ih _ (left ▸ fewer) next after rfl
      rw [same] at later
      exact later
    | false =>
      have stopped : (whileToken test round spends acc >>= f) r = f acc r := by
        have here : whileToken test round spends acc r = .ok acc r := by
          rw [whileToken_apply, if_neg (by simp [passes])]
        exact bind_of_ok here
      exact Means.congr stopped (stops acc r passes)

end ReadM

end MdxReader
