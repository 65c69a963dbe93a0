/-!
Sets of characters given by ascending ranges of code points.

A table of a Unicode property is such a list, which is checked when the table is made. Since the
ranges ascend, a search may stop at the first range that starts beyond the code point sought, and
still finds what lies in any of them (`Ranges.has_iff`).
-/

namespace Railroad.Text

/-- Whether the ranges start at `least` or beyond, none of them is empty and each one starts beyond
the end of the one before. -/
def ascendFrom (least : Nat) : List (Nat × Nat) → Bool
  | [] => true
  | (low, high) :: rest => least ≤ low && low ≤ high && ascendFrom (high + 1) rest

/-- Closed ranges of code points, in ascending order. -/
structure Ranges where
  list : List (Nat × Nat)
  ascending : ascendFrom 0 list = true

namespace Ranges

/-- Looks for a code point in ascending ranges. -/
def search : List (Nat × Nat) → Nat → Bool
  | [], _ => false
  | (low, high) :: rest, n => if n < low then false else n ≤ high || search rest n

/-- Whether a code point lies in one of the ranges. -/
def has (ranges : Ranges) (n : Nat) : Bool :=
  search ranges.list n

/-- No range starts before the place from which they ascend. -/
theorem le_of_mem_of_ascendFrom {least : Nat} {ranges : List (Nat × Nat)}
    (ascending : ascendFrom least ranges = true) {r : Nat × Nat} (hr : r ∈ ranges) :
    least ≤ r.1 := by
  induction ranges generalizing least with
  | nil => cases hr
  | cons first rest ih =>
    simp only [ascendFrom, Bool.and_eq_true, decide_eq_true_eq] at ascending
    obtain ⟨⟨low, inhabited⟩, following⟩ := ascending
    rcases List.mem_cons.mp hr with rfl | later
    · exact low
    · have := ih following later
      omega

theorem search_iff {least n : Nat} {ranges : List (Nat × Nat)}
    (ascending : ascendFrom least ranges = true) :
    search ranges n = true ↔ ∃ r ∈ ranges, r.1 ≤ n ∧ n ≤ r.2 := by
  induction ranges generalizing least with
  | nil => simp [search]
  | cons first rest ih =>
    simp only [ascendFrom, Bool.and_eq_true, decide_eq_true_eq] at ascending
    obtain ⟨⟨_, inhabited⟩, following⟩ := ascending
    simp only [List.mem_cons, or_and_right, exists_or, exists_eq_left]
    rw [← ih following, search]
    by_cases before : n < first.1
    · -- The ranges that follow start still later.
      have beyond : search rest n = false := by
        rw [← Bool.not_eq_true, ih following]
        rintro ⟨r, hr, low, -⟩
        have := le_of_mem_of_ascendFrom following hr
        omega
      simp [before, beyond, Nat.not_le.mpr before]
    · simp [before, Nat.le_of_not_lt before]

/-- **The search finds a code point exactly if it lies in one of the ranges.** -/
theorem has_iff {ranges : Ranges} {n : Nat} :
    ranges.has n = true ↔ ∃ r ∈ ranges.list, r.1 ≤ n ∧ n ≤ r.2 :=
  search_iff ranges.ascending

end Ranges

end Railroad.Text
