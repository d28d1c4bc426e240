/-!
# Character ranges

A property of characters is given by the code points that have it, written as closed ranges in
ascending order.

- `Ranges.covers` decides whether a code point lies in one of the ranges. It gives up at the first
  range that starts beyond the code point, so a common character is settled within a few steps.
- `Ranges.covers_iff`: on an ascending table giving up early loses nothing.
-/

namespace PointsTo.Text

/-- Closed ranges of code points, in ascending order. -/
abbrev Ranges := List (Nat × Nat)

namespace Ranges

/-- Whether `n` lies in one of the ranges. -/
def covers : Ranges → Nat → Bool
  | [], _ => false
  | (lo, hi) :: rest, n => if n < lo then false else n ≤ hi || covers rest n

/-- Every range starts after the one before it ends, and none is empty. -/
def ascendingFrom : Nat → Ranges → Bool
  | _, [] => true
  | start, (lo, hi) :: rest => start ≤ lo && lo ≤ hi && ascendingFrom (hi + 1) rest

/-- A range of an ascending table starts no earlier than the table does. -/
theorem le_of_mem_of_ascendingFrom {start : Nat} {table : Ranges}
    (h : table.ascendingFrom start = true) {range : Nat × Nat} (hmem : range ∈ table) :
    start ≤ range.1 := by
  induction table generalizing start with
  | nil => simp at hmem
  | cons first rest ih =>
    obtain ⟨lo, hi⟩ := first
    simp only [ascendingFrom, Bool.and_eq_true, decide_eq_true_eq] at h
    rcases List.mem_cons.1 hmem with rfl | hmem
    · exact h.1.1
    · have := ih h.2 hmem
      omega

/-- **The early exit is safe**: an ascending table covers exactly the members of its ranges. -/
theorem covers_iff {start : Nat} {table : Ranges} (h : table.ascendingFrom start = true) (n : Nat) :
    table.covers n = true ↔ ∃ range ∈ table, range.1 ≤ n ∧ n ≤ range.2 := by
  induction table generalizing start with
  | nil => simp [covers]
  | cons first rest ih =>
    obtain ⟨lo, hi⟩ := first
    simp only [ascendingFrom, Bool.and_eq_true, decide_eq_true_eq] at h
    by_cases hlo : n < lo
    · -- every later range starts even further out
      simp only [covers, hlo, if_true, Bool.false_eq_true, false_iff, not_exists, not_and]
      intro range hmem hle
      rcases List.mem_cons.1 hmem with rfl | hmem
      · omega
      · have := le_of_mem_of_ascendingFrom h.2 hmem
        omega
    · have hle : lo ≤ n := by omega
      simp [covers, hlo, ih h.2, hle]

end Ranges

end PointsTo.Text
