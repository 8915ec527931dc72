import Mathlib.Data.List.Induction
import MdxReader.Proofs.Spans

/-!
# Where tokens stand

A place is exact if its line and its column are the ones of its offset (`Position.ExactIn`).  A
scanner keeps to exact places whatever it answers (`Scanner.Within.next`, one case for each kind of
answer), and so do all calls in a row, errors among them (`Scanner.Within.after`).

Where a text has tokens, they cover it (`Covers`): there is nothing but gaps between them, and every
one of them stands where its gap ends.
-/

namespace MdxReader

/-! ### Exact places -/

namespace Position

/-- **Line and column are the ones of the offset**: one more than the newlines in front of it, one
more than the characters since the last of them.  The sums are those of counters of 32 bits. -/
structure ExactIn (place : Position) (text : List Char) : Prop where
  within : place.offset ≤ text.length
  line : place.line = 1 + UInt32.ofNat ((text.take place.offset).count '\n')
  column : place.column =
    1 + UInt32.ofNat ((text.take place.offset).reverse.takeWhile (· ≠ '\n')).length

/-- A place in a text: where some beginning of it ends. -/
def ReachedIn (place : Position) (text : List Char) : Prop :=
  ∃ before, before <+: text ∧ place = start.past before

variable {place : Position} {text : List Char}

/-- A counter that starts at one holds the sum as long as that has 32 bits. -/
theorem toNat_one_add {n : ℕ} (small : n + 1 < UInt32.size) :
    (1 + UInt32.ofNat n).toNat = 1 + n := by
  have fits : (UInt32.ofNat n).toNat = n := UInt32.toNat_ofNat_of_lt' (Nat.lt_of_succ_lt small)
  have whole : 1 + n < 2 ^ 32 := Nat.add_comm n 1 ▸ small
  rw [UInt32.toNat_add, fits]
  exact Nat.mod_eq_of_lt whole

/-- **No counter wraps around** in a text that leaves room for the column behind its end. -/
theorem ExactIn.toNat_eq (exact : place.ExactIn text) (short : text.length + 1 < UInt32.size) :
    (place.line : ℕ) = 1 + (text.take place.offset).count '\n' ∧
      (place.column : ℕ) =
        1 + ((text.take place.offset).reverse.takeWhile (· ≠ '\n')).length := by
  have front : (text.take place.offset).length ≤ text.length := List.length_take_le' _ _
  have newlines := List.count_le_length (a := '\n') (l := text.take place.offset)
  have since :
      ((text.take place.offset).reverse.takeWhile (· ≠ '\n')).length ≤
        (text.take place.offset).length :=
    Nat.le_trans (List.takeWhile_sublist _).length_le (Nat.le_of_eq List.length_reverse)
  rw [exact.line, exact.column]
  exact ⟨toNat_one_add (by omega), toNat_one_add (by omega)⟩

end Position

/-! ### Scanners -/

namespace Scanner

/-- A scanner of a text: what is left follows its place, and its mark is a place of the text. -/
structure Within (s : Scanner) (text : List Char) : Prop where
  cursor : ∃ before, text = before ++ s.cursor.rest ∧ s.cursor.place = .past .start before
  mark : s.mark.ReachedIn text

variable {s : Scanner} {text : List Char}

/-- **A call keeps to the text**, whatever the answer is, and an error is in the text. -/
theorem Within.next (within : s.Within text) :
    s.next.2.Within text ∧ ∀ e, s.next.1 = .error e → e.place.ReachedIn text := by
  obtain ⟨⟨before, whole, place⟩, mark⟩ := within
  -- What is moved over behind `before` ends at a place of the text, and so does any part of it.
  have reached {taken part : List Char} {after : Cursor} (moved : s.cursor.Moves taken after)
      (within : part <+: taken) : (s.cursor.place.past part).ReachedIn text := by
    refine ⟨before ++ part, ?_, by rw [place, Position.past_append]⟩
    rw [whole, moved.text]
    exact (List.prefix_append_right_inj before).mpr (within.trans (List.prefix_append _ _))
  have lands {taken : List Char} {after : Cursor} (moved : s.cursor.Moves taken after) :
      ∃ before, text = before ++ after.rest ∧ after.place = .past .start before := by
    refine ⟨before ++ taken, ?_, ?_⟩
    · rw [whole, moved.text, List.append_assoc]
    · rw [moved.place, place, Position.past_append]
  have step := s.step_next
  generalize s.next.1 = answer, s.next.2 = s' at step ⊢
  cases step with
  | endless moved _ part =>
    refine ⟨⟨lands moved, mark⟩, ?_⟩
    rintro e ⟨⟩
    exact reached moved part
  | ended moved =>
    refine ⟨⟨lands moved, ?_⟩, nofun⟩
    rw [moved.place]
    exact reached moved List.prefix_rfl
  | token gap _ span =>
    refine ⟨⟨lands (gap.trans span), ?_⟩, nofun⟩
    rw [gap.place]
    exact reached gap List.prefix_rfl
  | fault gap _ span part found =>
    refine ⟨⟨lands (gap.trans span), ?_⟩, ?_⟩
    · rw [gap.place]
      exact reached gap List.prefix_rfl
    · rintro e ⟨⟩
      rw [found, gap.place, ← Position.past_append]
      exact reached (gap.trans span) ((List.prefix_append_right_inj _).mpr part)

/-- The scanner after some calls, whatever the answers were. -/
def after (s : Scanner) : Nat → Scanner
  | 0 => s
  | n + 1 => s.next.2.after n

/-- **All calls keep to the text.** -/
theorem Within.after (within : s.Within text) (n : Nat) : (s.after n).Within text := by
  induction n generalizing s with
  | zero => exact within
  | succ n ih => exact ih within.next.1

end Scanner

/-! ### Tokens -/

/-- **The tokens cover a text** that begins at a place: a gap, a token where it ends with at least
one character, and so on; what is left behind the last token is a gap. -/
inductive Covers : Position → List Char → List Located → Prop
  | ended {place : Position} {gap : List Char} : IsGap True gap →
      Covers place gap [⟨.endOfText, place.past gap⟩]
  | token {place : Position} {t : Token} {gap span rest : List Char} {later : List Located} :
      IsGap False gap → t.Spelled span → span ≠ [] → t ≠ .endOfText →
      Covers (place.past (gap ++ span)) rest later →
      Covers place (gap ++ span ++ rest) (⟨t, place.past gap⟩ :: later)

/-- What a scanner answers covers what it has left. -/
theorem Scans.covers {s : Scanner} {found : List Located} (scans : Scans s found) :
    Covers s.cursor.place s.cursor.rest found := by
  induction scans with
  | @ended s answer =>
    have step := s.step_next
    rw [answer] at step
    generalize s.next.2 = s' at step ⊢
    cases step with
    | ended moved gap empty =>
      rw [moved.text, empty, List.append_nil, moved.place]
      exact .ended gap
    | token _ _ _ spelled some => exact absurd spelled some
  | @token s t later answer inner _ ih =>
    have step := s.step_next
    rw [answer] at step
    generalize s.next.2 = s' at step ih ⊢
    cases step with
    | ended => exact absurd rfl inner
    | token moved gap taken spelled some =>
      have both := moved.trans taken
      rw [both.place] at ih
      rw [both.text, moved.place]
      exact .token gap spelled some inner ih

namespace Covers

variable {place : Position} {text : List Char} {found : List Located}

/-- No token stands in front of the text it is in. -/
theorem offset_le (covers : Covers place text found) {next : Located} (mem : next ∈ found) :
    place.offset ≤ next.place.offset := by
  induction covers with
  | ended =>
    rw [List.mem_singleton.mp mem, Position.offset_past]
    exact Nat.le_add_right _ _
  | token _ _ _ _ _ ih =>
    rcases List.mem_cons.mp mem with rfl | later
    · rw [Position.offset_past]
      exact Nat.le_add_right _ _
    · have behind := ih later
      rw [Position.offset_past] at behind
      omega

/-- No token stands behind the text it is in. -/
theorem offset_le_past (covers : Covers place text found) {next : Located} (mem : next ∈ found) :
    next.place.offset ≤ (place.past text).offset := by
  induction covers with
  | ended => exact Nat.le_of_eq (congrArg (·.place.offset) (List.mem_singleton.mp mem))
  | @token place t gap span rest later _ _ _ _ _ ih =>
    rcases List.mem_cons.mp mem with rfl | later
    · simp only [Position.offset_past, List.length_append]
      omega
    · rw [Position.past_append]
      exact ih later

end Covers

end MdxReader
