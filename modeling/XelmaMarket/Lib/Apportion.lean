import Mathlib.Algebra.BigOperators.Group.List.Basic
import Mathlib.Algebra.BigOperators.Ring.List
import Mathlib.Algebra.Order.BigOperators.Group.List
import Mathlib.Algebra.Order.Group.Int
import Mathlib.Tactic.Linarith
import Mathlib.Tactic.Ring

/-!
# Apportionment with floors

A pool divided in proportion to weights, every share rounded down. The shares never exceed the
pool together, and what the rounding loses is less than one unit a share.
-/

namespace Apportion

/-- The share a weight has of a pool: the floor of the exact share. -/
def share (pool total weight : ℤ) : ℤ :=
  weight * pool / total

variable {pool total weight : ℤ}

theorem share_nonneg (hpool : 0 ≤ pool) (htotal : 0 ≤ total) (hweight : 0 ≤ weight) :
    0 ≤ share pool total weight :=
  Int.ediv_nonneg (mul_nonneg hweight hpool) htotal

theorem share_mul_le (htotal : 0 < total) : share pool total weight * total ≤ weight * pool :=
  Int.ediv_mul_le _ htotal.ne'

theorem lt_share_mul_add (htotal : 0 < total) :
    weight * pool < share pool total weight * total + total := by
  have h := Int.lt_ediv_add_one_mul_self (weight * pool) htotal
  unfold share
  linarith [add_mul (weight * pool / total) 1 total]

/-- A weight whose pool is at least the total gets at least itself. -/
theorem weight_le_share (htotal : 0 < total) (hweight : 0 ≤ weight) (hpool : total ≤ pool) :
    weight ≤ share pool total weight :=
  (Int.le_ediv_iff_mul_le htotal).mpr (mul_le_mul_of_nonneg_left hpool hweight)

/-- The shares of a list of weights. -/
def shares (pool total : ℤ) (weights : List ℤ) : List ℤ :=
  weights.map (share pool total)

theorem sum_shares_mul_le (htotal : 0 < total) (weights : List ℤ) :
    (shares pool total weights).sum * total ≤ weights.sum * pool := by
  induction weights with
  | nil => simp [shares]
  | cons weight rest ih =>
      have hshare := @share_mul_le pool _ weight htotal
      simp only [shares, List.map_cons, List.sum_cons] at ih ⊢
      linarith [add_mul (share pool total weight) ((rest.map (share pool total)).sum) total,
        add_mul weight rest.sum pool]

theorem lt_sum_shares_mul (htotal : 0 < total) {weights : List ℤ} (hne : weights ≠ []) :
    weights.sum * pool < ((shares pool total weights).sum + weights.length) * total := by
  induction weights with
  | nil => exact absurd rfl hne
  | cons weight rest ih =>
      have hshare := @lt_share_mul_add pool _ weight htotal
      have hrest : rest.sum * pool ≤ ((shares pool total rest).sum + rest.length) * total := by
        rcases eq_or_ne rest [] with rfl | hrest
        · simp [shares]
        · exact (ih hrest).le
      simp only [shares, List.map_cons, List.sum_cons, List.length_cons] at hrest ⊢
      push_cast
      linarith [add_mul weight rest.sum pool,
        add_mul (share pool total weight) ((rest.map (share pool total)).sum) total,
        add_mul ((rest.map (share pool total)).sum) (rest.length : ℤ) total,
        add_mul (share pool total weight + (rest.map (share pool total)).sum)
          ((rest.length : ℤ) + 1) total, add_mul (rest.length : ℤ) 1 total]

/-- Shares in proportion to weights that add up to the total do not exceed the pool. -/
theorem sum_shares_le (htotal : 0 < total) {weights : List ℤ} (hsum : weights.sum = total) :
    (shares pool total weights).sum ≤ pool := by
  have h := @sum_shares_mul_le pool _ htotal weights
  rw [hsum, mul_comm total pool] at h
  exact le_of_mul_le_mul_right h htotal

/-- What the rounding of all shares loses is less than their number. -/
theorem lt_sum_shares_add_length (htotal : 0 < total) {weights : List ℤ}
    (hsum : weights.sum = total) :
    pool < (shares pool total weights).sum + weights.length := by
  have hne : weights ≠ [] := by
    rintro rfl
    simp at hsum
    omega
  have h := (@lt_sum_shares_mul pool) htotal hne
  rw [hsum, mul_comm total pool] at h
  exact lt_of_mul_lt_mul_right h htotal.le

/-! ## Exact shares -/

/-- The larger weight gets the larger share. -/
theorem share_mono {larger : ℤ} (hpool : 0 ≤ pool) (htotal : 0 < total) (hle : weight ≤ larger) :
    share pool total weight ≤ share pool total larger :=
  Int.ediv_le_ediv htotal (mul_le_mul_of_nonneg_right hle hpool)

/-- A share stays within a rate when the pool stays within the rate of the total. -/
theorem share_le_rate {rate unit : ℤ} (htotal : 0 < total) (hunit : 0 < unit) (hweight : 0 ≤ weight)
    (hpool : pool * unit ≤ total * rate) : share pool total weight ≤ weight * rate / unit := by
  refine (Int.le_ediv_iff_mul_le hunit).mpr (le_of_mul_le_mul_right ?_ htotal)
  calc share pool total weight * unit * total
      = share pool total weight * total * unit := by ring
    _ ≤ weight * pool * unit := mul_le_mul_of_nonneg_right (share_mul_le htotal) hunit.le
    _ = weight * (pool * unit) := by ring
    _ ≤ weight * (total * rate) := mul_le_mul_of_nonneg_left hpool hweight
    _ = weight * rate * total := by ring

/-- Terms that are bounded by others and have the same sum are equal to them. -/
theorem eq_of_sum_eq {α : Type*} {items : List α} {f g : α → ℤ} (hle : ∀ a ∈ items, f a ≤ g a)
    (hsum : (items.map f).sum = (items.map g).sum) {a : α} (hmem : a ∈ items) : f a = g a := by
  by_contra hne
  exact (List.sum_lt_sum f g hle ⟨a, hmem, lt_of_le_of_ne (hle a hmem) hne⟩).ne hsum

/-- The shares add up to the pool exactly when none of them is rounded. -/
theorem sum_shares_eq_iff (htotal : 0 < total) {weights : List ℤ} (hsum : weights.sum = total) :
    (shares pool total weights).sum = pool ↔ ∀ weight ∈ weights, total ∣ weight * pool := by
  have hexact : (weights.map fun weight => weight * pool).sum = pool * total := by
    rw [List.sum_map_mul_right, List.map_id', hsum, mul_comm]
  have hshares : (weights.map fun weight => share pool total weight * total).sum =
      (shares pool total weights).sum * total := List.sum_map_mul_right ..
  constructor
  · intro hpool weight hmem
    have heq := eq_of_sum_eq (fun weight _ => @share_mul_le pool _ weight htotal)
      (by rw [hshares, hexact, hpool]) hmem
    exact Dvd.intro_left _ heq
  · intro hdvd
    have hterms : weights.map (fun weight => share pool total weight * total) =
        weights.map fun weight => weight * pool :=
      List.map_congr_left fun weight hmem => Int.ediv_mul_cancel (hdvd weight hmem)
    rw [hterms, hexact] at hshares
    exact (mul_right_cancel₀ htotal.ne' hshares).symm

end Apportion
