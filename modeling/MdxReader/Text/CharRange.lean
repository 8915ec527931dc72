/-!
# Ranges of code points

A character property of the Unicode standard is given as a table: inclusive ranges of code points
in ascending order.  `covers table n` says whether one of them holds `n`; the search stops at the
first range that begins beyond `n`, so a small code point is settled after a few comparisons.
-/

namespace MdxReader.Text

/-- The code points from `first` to `last`, both included. -/
structure CharRange where
  first : Nat
  last : Nat
  deriving DecidableEq

/-- Whether a range of an ascending table holds the code point `n`. -/
def covers : List CharRange → Nat → Bool
  | [], _ => false
  | range :: later, n =>
    if n < range.first then false else if n ≤ range.last then true else covers later n

/-- A table from pairs of bounds. -/
def CharRange.table (bounds : List (Nat × Nat)) : List CharRange :=
  bounds.map fun (first, last) => ⟨first, last⟩

/-- A covered code point lies in a range of the table. -/
theorem exists_range_of_covers {table : List CharRange} {n : Nat} (h : covers table n = true) :
    ∃ range ∈ table, range.first ≤ n ∧ n ≤ range.last := by
  induction table with
  | nil => simp [covers] at h
  | cons range later ih =>
    unfold covers at h
    split at h
    · simp at h
    · split at h
      · exact ⟨range, List.mem_cons_self .., by omega, by omega⟩
      · obtain ⟨found, mem, bounds⟩ := ih h
        exact ⟨found, List.mem_cons_of_mem _ mem, bounds⟩

end MdxReader.Text
