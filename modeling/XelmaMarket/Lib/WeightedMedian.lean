import Mathlib.Algebra.BigOperators.Group.List.Basic
import Mathlib.Algebra.Order.BigOperators.Group.List
import Mathlib.Algebra.Ring.Int.Defs

/-!
# Weighted medians

A value is a weighted median of some items when the items below it have at most half of the weight,
and so do the items above it. Whoever has less than half of the weight cannot move such a value out
of the range of the others.
-/

namespace WeightedMedian

variable {ι α : Type*} {weight : ι → ℤ} {items : List ι} {p q : ι → Prop} [DecidablePred p]
  [DecidablePred q]

/-- The weight of the items with a property. -/
def weightWhere (weight : ι → ℤ) (items : List ι) (p : ι → Prop) [DecidablePred p] : ℤ :=
  (items.map fun i => if p i then weight i else 0).sum

theorem weightWhere_mono (hweight : ∀ i ∈ items, 0 ≤ weight i) (himp : ∀ i ∈ items, p i → q i) :
    weightWhere weight items p ≤ weightWhere weight items q := by
  refine List.sum_le_sum fun i hi => ?_
  by_cases hp : p i
  · rw [if_pos hp, if_pos (himp i hi hp)]
  · rw [if_neg hp]
    split
    · exact hweight i hi
    · exact le_rfl

theorem weightWhere_nonneg (hweight : ∀ i ∈ items, 0 ≤ weight i) :
    0 ≤ weightWhere weight items p := by
  refine List.sum_nonneg fun x hx => ?_
  obtain ⟨i, hi, rfl⟩ := List.mem_map.mp hx
  split
  · exact hweight i hi
  · exact le_rfl

theorem weightWhere_of_none (hnone : ∀ i ∈ items, ¬ p i) : weightWhere weight items p = 0 := by
  refine List.sum_eq_zero fun x hx => ?_
  obtain ⟨i, hi, rfl⟩ := List.mem_map.mp hx
  exact if_neg (hnone i hi)

/-- The items with a property and those without share the weight. -/
theorem weightWhere_add_not :
    weightWhere weight items p + weightWhere weight items (fun i => ¬ p i) =
      (items.map weight).sum := by
  unfold weightWhere
  rw [← List.sum_map_add]
  refine congrArg List.sum (List.map_congr_left fun i _ => ?_)
  by_cases hp : p i <;> simp [hp]

section Median

variable [LinearOrder α] {value : ι → α} {median : α}

/-- The items below the value have at most half of the weight, and so do the items above it. -/
structure IsWeightedMedian (weight : ι → ℤ) (value : ι → α) (items : List ι) (median : α) :
    Prop where
  below : 2 * weightWhere weight items (fun i => value i < median) ≤ (items.map weight).sum
  above : 2 * weightWhere weight items (fun i => median < value i) ≤ (items.map weight).sum

/-- Where all values are one, that is a weighted median. -/
theorem isWeightedMedian_of_eq (hweight : ∀ i ∈ items, 0 ≤ weight i)
    (hvalue : ∀ i ∈ items, value i = median) : IsWeightedMedian weight value items median := by
  have htotal : 0 ≤ (items.map weight).sum := List.sum_nonneg fun x hx => by
    obtain ⟨i, hi, rfl⟩ := List.mem_map.mp hx
    exact hweight i hi
  constructor
  · rw [weightWhere_of_none fun i hi => (hvalue i hi).not_lt]
    simpa using htotal
  · rw [weightWhere_of_none fun i hi => (hvalue i hi).not_gt]
    simpa using htotal

variable {coalition : ι → Prop} [DecidablePred coalition]

/-- Somebody outside a coalition with less than half of the weight is at most at the median. -/
theorem IsWeightedMedian.exists_le (hmedian : IsWeightedMedian weight value items median)
    (hweight : ∀ i ∈ items, 0 ≤ weight i)
    (hminor : 2 * weightWhere weight items coalition < (items.map weight).sum) :
    ∃ i ∈ items, ¬ coalition i ∧ value i ≤ median := by
  by_contra hnone
  push Not at hnone
  have hothers := weightWhere_mono hweight hnone
  have habove := hmedian.above
  have hsplit := @weightWhere_add_not _ weight items coalition _
  omega

/-- Somebody outside a coalition with less than half of the weight is at least at the median. -/
theorem IsWeightedMedian.exists_ge (hmedian : IsWeightedMedian weight value items median)
    (hweight : ∀ i ∈ items, 0 ≤ weight i)
    (hminor : 2 * weightWhere weight items coalition < (items.map weight).sum) :
    ∃ i ∈ items, ¬ coalition i ∧ median ≤ value i := by
  by_contra hnone
  push Not at hnone
  have hothers := weightWhere_mono hweight hnone
  have hbelow := hmedian.below
  have hsplit := @weightWhere_add_not _ weight items coalition _
  omega

end Median

end WeightedMedian
