/-!
# Sets of code points given by intervals

A set is the list of its maximal intervals, both ends included, in ascending order.
-/

namespace StyleLang.Text

/-- Membership in ascending, disjoint intervals; the scan ends at the first interval above `n`. -/
def inIntervals : List (Nat × Nat) → Nat → Bool
  | [], _ => false
  | (lo, hi) :: rest, n => if n < lo then false else n ≤ hi || inIntervals rest n

theorem inIntervals_mem {table : List (Nat × Nat)} {n : Nat} (h : inIntervals table n = true) :
    ∃ r ∈ table, r.1 ≤ n ∧ n ≤ r.2 := by
  induction table with
  | nil => simp [inIntervals] at h
  | cons r rest ih =>
    obtain ⟨lo, hi⟩ := r
    simp only [inIntervals] at h
    split at h
    · simp at h
    · rename_i hlo
      simp only [Bool.or_eq_true, decide_eq_true_eq] at h
      rcases h with h | h
      · exact ⟨(lo, hi), by simp, by simpa using hlo, h⟩
      · obtain ⟨q, hq, hn⟩ := ih h
        exact ⟨q, by simp [hq], hn⟩

end StyleLang.Text
