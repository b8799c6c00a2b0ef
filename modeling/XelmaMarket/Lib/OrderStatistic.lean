import Mathlib.Data.List.Basic
import Mathlib.Data.List.Count
import Mathlib.Data.List.Pairwise
import Mathlib.Order.Lattice

/-!
# Order statistics

Where an entry stands in a sorted list says how many entries lie below and above it. So a middle
entry stays within every interval that holds more than half of the entries, wherever the others lie.
-/

variable {α : Type*} [LinearOrder α] {entries sorted : List α} {lo hi : α} {i : ℕ}

/-- In a sorted list, what has no more than `i` entries below it is at most entry `i`. -/
theorem le_getElem_of_countP (hsorted : sorted.Pairwise (· ≤ ·)) (hi : i < sorted.length)
    (hbelow : sorted.countP (· < lo) ≤ i) : lo ≤ sorted[i] := by
  by_contra hlt
  have hfirst : ∀ a ∈ sorted.take (i + 1), a < lo := by
    intro a hmem
    obtain ⟨j, hj, rfl⟩ := List.getElem_of_mem hmem
    rw [List.length_take] at hj
    rw [List.getElem_take]
    rcases Nat.lt_or_ge j i with hlower | hge
    · have hle := List.pairwise_iff_getElem.mp hsorted j i (by omega) hi hlower
      exact hle.trans_lt (not_le.mp hlt)
    · obtain rfl : j = i := by omega
      exact not_le.mp hlt
  have hcount : (sorted.take (i + 1)).countP (· < lo) = i + 1 := by
    rw [List.countP_eq_length.mpr fun a hmem => decide_eq_true (hfirst a hmem), List.length_take]
    omega
  have hle := (List.take_sublist (i + 1) sorted).countP_le (p := (· < lo))
  omega

/-- In a sorted list, what has fewer entries above it than entry `i` and its successors are is at
least entry `i`. -/
theorem getElem_le_of_countP (hsorted : sorted.Pairwise (· ≤ ·)) (hlength : i < sorted.length)
    (habove : sorted.countP (hi < ·) < sorted.length - i) : sorted[i] ≤ hi := by
  by_contra hlt
  have hlast : ∀ a ∈ sorted.drop i, hi < a := by
    intro a hmem
    obtain ⟨j, hj, rfl⟩ := List.getElem_of_mem hmem
    rw [List.length_drop] at hj
    rw [List.getElem_drop]
    rcases Nat.eq_zero_or_pos j with rfl | hpos
    · exact not_le.mp hlt
    · have hle := List.pairwise_iff_getElem.mp hsorted i (i + j) hlength (by omega) (by omega)
      exact (not_le.mp hlt).trans_le hle
  have hcount : (sorted.drop i).countP (hi < ·) = sorted.length - i := by
    rw [List.countP_eq_length.mpr fun a hmem => decide_eq_true (hlast a hmem), List.length_drop]
  have hle := (List.drop_sublist i sorted).countP_le (p := (hi < ·))
  omega

/-- More than half of the entries lie in an interval. -/
def MostWithin (entries : List α) (lo hi : α) : Prop :=
  entries.length < 2 * entries.countP fun a => lo ≤ a ∧ a ≤ hi

instance (entries : List α) (lo hi : α) : Decidable (MostWithin entries lo hi) :=
  inferInstanceAs (Decidable (_ < _))

omit [LinearOrder α] in
/-- Two properties that exclude each other hold of no more entries together than there are. -/
theorem countP_add_countP_le {p q : α → Bool} (hexclude : ∀ a, p a = true → q a = false) :
    entries.countP p + entries.countP q ≤ entries.length := by
  have hle : entries.countP p ≤ entries.countP fun a => !q a :=
    List.countP_mono_left fun a _ hp => by simp [hexclude a hp]
  have hsplit : entries.length = entries.countP q + entries.countP fun a => !q a := by
    simpa using List.length_eq_countP_add_countP q (l := entries)
  omega

/-- A middle entry lies in every interval that most entries lie in. -/
theorem MostWithin.middle (hmost : MostWithin entries lo hi) (hperm : sorted.Perm entries)
    (hsorted : sorted.Pairwise (· ≤ ·)) (hlength : i < sorted.length)
    (hlower : sorted.length ≤ 2 * i + 2) (hupper : 2 * i ≤ sorted.length) :
    lo ≤ sorted[i] ∧ sorted[i] ≤ hi := by
  have hbelow : entries.countP (· < lo) + (entries.countP fun a => lo ≤ a ∧ a ≤ hi) ≤
      entries.length := by
    refine countP_add_countP_le fun a hlt => decide_eq_false fun hwithin => ?_
    exact absurd hwithin.1 (not_le.mpr (of_decide_eq_true hlt))
  have habove : entries.countP (hi < ·) + (entries.countP fun a => lo ≤ a ∧ a ≤ hi) ≤
      entries.length := by
    refine countP_add_countP_le fun a hgt => decide_eq_false fun hwithin => ?_
    exact absurd hwithin.2 (not_le.mpr (of_decide_eq_true hgt))
  unfold MostWithin at hmost
  have hsame := hperm.length_eq
  constructor
  · refine le_getElem_of_countP hsorted hlength ?_
    rw [hperm.countP_eq]
    omega
  · refine getElem_le_of_countP hsorted hlength ?_
    rw [hperm.countP_eq]
    omega
