/-!
# Runs of code points

A character class of a standard is kept as a list of runs in ascending order. A run steps by a
fixed stride, so an alternation of upper-case and lower-case letters is one run of each class.
-/

namespace Crosswalk.Text
set_option autoImplicit false

/-- The code points `first`, `first + stride`, and so on up to `last`. -/
structure CodeRun where
  first : Nat
  last : Nat
  stride : Nat

/-- A code point in the run is a number of strides from its first. -/
def CodeRun.contains (r : CodeRun) (n : Nat) : Bool :=
  decide (r.first ≤ n) && decide (n ≤ r.last) && (n - r.first) % r.stride == 0

/-- Membership in runs listed in ascending order: the search ends at the first run above `n`. -/
def inRuns : List CodeRun → Nat → Bool
  | [], _ => false
  | r :: rest, n => if n < r.first then false else r.contains n || inRuns rest n

/-- A member of the runs is in one of them. -/
theorem exists_mem_of_inRuns {rs : List CodeRun} {n : Nat} (h : inRuns rs n = true) :
    ∃ r ∈ rs, r.contains n = true := by
  induction rs with
  | nil => simp [inRuns] at h
  | cons r rest ih =>
    by_cases hlt : n < r.first
    · simp [inRuns, hlt] at h
    · simp only [inRuns, hlt, if_false, Bool.or_eq_true] at h
      rcases h with h | h
      · exact ⟨r, List.mem_cons_self, h⟩
      · obtain ⟨q, hq, hn⟩ := ih h
        exact ⟨q, List.mem_cons_of_mem _ hq, hn⟩

end Crosswalk.Text
