import XelmaMarket.Feeds
import XelmaMarket.Lib.ShiftSort

/-!
# The median helpers

The settlement math has a sort and a median of its own, beside those of the submission of several
feeds: the sort shifts the prices in place, and the mean of the two middle prices is taken of a sum
that saturates.
-/

namespace XelmaMarket

/-- Sort prices in place. -/
def sortPricesInPlace (prices : List ℕ) : List ℕ :=
  ShiftSort.shiftSort prices

/-- The median of sorted prices: the middle one, or half the sum of the two middle ones. -/
def medianOfSorted (prices : List ℕ) : Option ℕ :=
  let n := prices.length
  if n = 0 then
    none
  else if n % 2 = 1 then
    prices[n / 2]?
  else
    match prices[n / 2 - 1]?, prices[n / 2]? with
    | some mid1, some mid2 => some (saturatingAddUint 128 mid1 mid2 / 2)
    | _, _ => none

section Median

variable {prices : List ℕ}

/-- The two sorts agree. -/
theorem sortPricesInPlace_eq (prices : List ℕ) : sortPricesInPlace prices = sortPrices prices := by
  obtain ⟨hperm, hsorted⟩ := ShiftSort.shiftSort_spec prices
  obtain ⟨hperm', hsorted'⟩ := sortPrices_sorted prices
  exact (hperm.trans hperm'.symm).eq_of_pairwise (fun _ _ _ _ => le_antisymm) hsorted hsorted'

/-- The place of a price among the sorted ones. -/
theorem getElem?_sortPrices {i : ℕ} (hi : i < prices.length) :
    (sortPrices prices)[i]? = some ((sortPrices prices).getD i 0) := by
  have hlength := (sortPrices_sorted prices).1.length_eq
  rw [List.getElem?_eq_getElem (by omega), List.getD_eq_getElem _ _ (by omega)]

/-- The median helper takes half of the sum of the middle prices, cut off at the largest price. -/
theorem medianOfSorted_eq (hne : prices ≠ []) :
    medianOfSorted (sortPricesInPlace prices) =
      some (if MiddlesFit prices then exactMedian prices else 2 ^ 127 - 1) := by
  have hlength := (sortPrices_sorted prices).1.length_eq
  have hpos : 0 < prices.length := List.length_pos_iff.mpr hne
  rw [sortPricesInPlace_eq]
  simp only [medianOfSorted, hlength, if_neg hpos.ne']
  by_cases hodd : prices.length % 2 = 1
  · have hsame : (prices.length - 1) / 2 = prices.length / 2 := by omega
    have hfits : MiddlesFit prices := fun heven => by omega
    rw [if_pos hodd, if_pos hfits, getElem?_sortPrices (by omega), exactMedian, hsame]
    refine congrArg some ?_
    omega
  · have hbefore : prices.length / 2 - 1 = (prices.length - 1) / 2 := by omega
    have heven : prices.length % 2 = 0 := by omega
    simp only [if_neg hodd, hbefore, getElem?_sortPrices (show (prices.length - 1) / 2 <
      prices.length by omega), getElem?_sortPrices (show prices.length / 2 < prices.length by omega)]
    refine congrArg some ?_
    unfold saturatingAddUint exactMedian
    split
    · next hfits =>
        have hsum := hfits heven
        rw [min_eq_right (by omega)]
    · next hlarge =>
        have hsum := not_lt.mp fun h => hlarge fun _ => h
        rw [min_eq_left (by omega)]
        decide

/-- What the median helpers are for: the sort leaves a sorted permutation, and of a non-empty one
the median is the middle price or the mean of the two middle prices, rounded down, between them and
the one a submission of several feeds finds, if it finds any. -/
structure MedianExact (prices : List ℕ) : Prop where
  permutes : (sortPricesInPlace prices).Perm prices
  sorted : (sortPricesInPlace prices).Pairwise (· ≤ ·)
  odd : prices.length % 2 = 1 →
    medianOfSorted (sortPricesInPlace prices) = (sortPricesInPlace prices)[prices.length / 2]?
  even : prices ≠ [] → prices.length % 2 = 0 → ∃ mid1 mid2 : ℕ,
    (sortPricesInPlace prices)[prices.length / 2 - 1]? = some mid1 ∧
    (sortPricesInPlace prices)[prices.length / 2]? = some mid2 ∧
    medianOfSorted (sortPricesInPlace prices) = some ((mid1 + mid2) / 2) ∧
    mid1 ≤ (mid1 + mid2) / 2 ∧ (mid1 + mid2) / 2 ≤ mid2
  agrees : prices ≠ [] → ∀ median, medianPrice prices = .ok median →
    medianOfSorted (sortPricesInPlace prices) = some median

/-- The median helpers are exact if and only if the two middle prices of an even number of prices
add up to a price. -/
theorem median_exact_iff (prices : List ℕ) : MedianExact prices ↔ MiddlesFit prices := by
  have hlength := (sortPrices_sorted prices).1.length_eq
  constructor
  · intro hexact heven
    by_cases hne : prices = []
    · simp [hne, sortPrices]
    obtain ⟨mid1, mid2, hmid1, hmid2, hmedian, -, -⟩ := hexact.even hne heven
    have hpos : 0 < prices.length := List.length_pos_iff.mpr hne
    rw [sortPricesInPlace_eq, getElem?_sortPrices (by omega)] at hmid1 hmid2
    obtain rfl := Option.some.inj hmid1
    obtain rfl := Option.some.inj hmid2
    rw [medianOfSorted_eq hne] at hmedian
    have hvalue := Option.some.inj hmedian
    have hbefore : prices.length / 2 - 1 = (prices.length - 1) / 2 := by omega
    rw [hbefore] at hvalue
    split at hvalue
    · next hfits => exact hfits heven
    · omega
  · intro hfits
    obtain ⟨hperm, hsorted⟩ := ShiftSort.shiftSort_spec prices
    have hmedian : prices ≠ [] →
        medianOfSorted (sortPricesInPlace prices) = some (exactMedian prices) := fun hne => by
      rw [medianOfSorted_eq hne, if_pos hfits]
    refine ⟨hperm, hsorted, fun hodd => ?_, fun hne heven => ?_, fun hne median hinline => ?_⟩
    · have hsame : (prices.length - 1) / 2 = prices.length / 2 := by omega
      rw [hmedian (List.length_pos_iff.mp (by omega)), sortPricesInPlace_eq,
        getElem?_sortPrices (by omega), exactMedian, hsame]
      refine congrArg some ?_
      omega
    · have hpos : 0 < prices.length := List.length_pos_iff.mpr hne
      have hbefore : prices.length / 2 - 1 = (prices.length - 1) / 2 := by omega
      have hordered : (sortPrices prices).getD ((prices.length - 1) / 2) 0 ≤
          (sortPrices prices).getD (prices.length / 2) 0 := by
        rw [List.getD_eq_getElem _ _ (by omega), List.getD_eq_getElem _ _ (by omega)]
        exact List.pairwise_iff_getElem.mp (sortPrices_sorted prices).2 _ _ _ _ (by omega)
      rw [hmedian hne, sortPricesInPlace_eq, hbefore]
      refine ⟨_, _, getElem?_sortPrices (by omega), getElem?_sortPrices (by omega), rfl, ?_, ?_⟩ <;>
        omega
    · rw [hmedian hne]
      rw [medianPrice_eq hne, if_pos hfits] at hinline
      exact congrArg some (Except.ok.inj hinline)

/-- Of two prices of the largest size the helper finds less than both. -/
theorem median_below_largest : ¬ MedianExact [2 ^ 128 - 1, 2 ^ 128 - 1] ∧
    medianOfSorted (sortPricesInPlace [2 ^ 128 - 1, 2 ^ 128 - 1]) = some (2 ^ 127 - 1) := by
  refine ⟨fun hexact => ?_, by decide⟩
  obtain ⟨mid1, mid2, hmid1, -, hmedian, hbetween, -⟩ := hexact.even (by decide) rfl
  have hfirst : mid1 = 2 ^ 128 - 1 := by
    refine (Option.some.inj (hmid1.symm.trans ?_))
    decide
  have hvalue : (mid1 + mid2) / 2 = 2 ^ 127 - 1 := by
    refine (Option.some.inj (hmedian.symm.trans ?_))
    decide
  omega

end Median

end XelmaMarket
