/-! # Tables of code points

    A property of characters is a table of closed ranges of code points. -/

namespace MarkupLint.Text

/-- Whether `n` lies in one of the ranges. -/
def inRanges (table : Array (Nat × Nat)) (n : Nat) : Bool :=
  table.any fun r => decide (r.1 ≤ n ∧ n ≤ r.2)

theorem inRanges_iff (table : Array (Nat × Nat)) (n : Nat) :
    inRanges table n = true ↔ ∃ r ∈ table, r.1 ≤ n ∧ n ≤ r.2 := by
  simp only [inRanges, Array.any_eq_true', decide_eq_true_eq]

end MarkupLint.Text
