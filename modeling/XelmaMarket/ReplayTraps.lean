import XelmaMarket.ReplayEngine
import XelmaMarket.Engine

/-!
# Where a replay traps

A transcript is untrusted, and the engine was written for the amounts of the contract. Its checked
arithmetic fails with an error, but three kinds of transcripts make the replay trap: stakes whose
sum overflows, a fee that leaves nothing of a Precision pot for its winners, and a winning pool of
−1 that divides the smallest amount.
-/

namespace XelmaMarket

open Transaction Traverse

/-! ## Competitive UpDown settlements -/

/-- The fee rate of a settlement; without one no fee is taken. -/
def feeRate (feeBps : Option ℕ) : ℤ :=
  feeBps.getD 0

/-- What a competitive UpDown settlement distributes of a pot. -/
def distributedPot (feeBps : Option ℕ) (pot : ℤ) : ℤ :=
  pot - (pot * feeRate feeBps).tdiv 10000

section Fee

variable {winningPool losingPool : ℤ} {feeBps : Option ℕ}

/-- The fee is computed or fails with an error. -/
theorem computeUpdownFee_ne_trap :
    computeUpdownFee winningPool losingPool feeBps ≠ .error .trap := by
  cases feeBps with
  | none => simp [computeUpdownFee, pure, Except.pure]
  | some bpsValue =>
      unfold computeUpdownFee
      intro htrap
      rcases bind_eq_error.mp htrap with h | ⟨totalPot, -, h⟩
      · exact checked_ne_trap h
      rcases bind_eq_error.mp h with h | ⟨product, hproduct, h⟩
      · exact checked_ne_trap h
      obtain ⟨rfl, hrange⟩ := checked_eq_ok.mp hproduct
      rw [divide_denominator hrange, ok_bind] at h
      split at h
      · cases h
      rcases bind_eq_error.mp h with h | ⟨_, -, h⟩
      · exact checked_ne_trap h
      rcases bind_eq_error.mp h with h | ⟨_, -, h⟩
      · exact checked_ne_trap h
      rcases bind_eq_error.mp h with h | ⟨_, -, h⟩
      · exact checked_ne_trap h
      · cases h

/-- What the fee leaves is the distributed pot, and the pot and its product with the rate are
amounts. -/
theorem distributedPot_of_fee {fee : ℤ × ℤ × ℤ} {total : ℤ}
    (hfee : computeUpdownFee winningPool losingPool feeBps = .ok fee)
    (hadd : payoutAdd fee.1 fee.2.1 = .ok total) :
    total = distributedPot feeBps (winningPool + losingPool) ∧
      IsAmount (winningPool + losingPool) ∧
      IsAmount ((winningPool + losingPool) * feeRate feeBps) := by
  obtain ⟨rfl, htotal⟩ := checked_eq_ok.mp hadd
  cases feeBps with
  | none =>
      cases hfee
      simp only [distributedPot, feeRate, Option.getD_none, Nat.cast_zero, mul_zero]
      exact ⟨by simp, htotal, by decide⟩
  | some bpsValue =>
      unfold computeUpdownFee at hfee
      obtain ⟨totalPot, hpot, hfee⟩ := bind_eq_ok.mp hfee
      obtain ⟨rfl, hpotRange⟩ := checked_eq_ok.mp hpot
      obtain ⟨product, hproduct, hfee⟩ := bind_eq_ok.mp hfee
      obtain ⟨rfl, hproductRange⟩ := checked_eq_ok.mp hproduct
      rw [divide_denominator hproductRange, ok_bind] at hfee
      refine ⟨?_, hpotRange, hproductRange⟩
      simp only [distributedPot, feeRate, Option.getD_some]
      generalize ((winningPool + losingPool) * (bpsValue : ℤ)).tdiv 10000 = feeAmount at hfee ⊢
      split at hfee
      · cases hfee
        simp_all
      · simp only [bind_eq_ok, checked_eq_ok] at hfee
        obtain ⟨_, ⟨rfl, -⟩, _, ⟨rfl, -⟩, _, ⟨rfl, -⟩, hfee⟩ := hfee
        cases hfee
        simp only
        omega

/-- The fee on a pot has its sign, and is at most a ten-thousandth of an amount. -/
theorem feeAmount_bounds {pot rate : ℤ} (hrate : 0 ≤ rate) (hproduct : IsAmount (pot * rate)) :
    (0 ≤ pot → 0 ≤ (pot * rate).tdiv 10000) ∧ (pot ≤ 0 → (pot * rate).tdiv 10000 ≤ 0) ∧
      i128Min ≤ 10000 * (pot * rate).tdiv 10000 ∧ 10000 * (pot * rate).tdiv 10000 ≤ i128Max := by
  have hnonneg : 0 ≤ pot → 0 ≤ pot * rate := fun hpot => mul_nonneg hpot hrate
  have hnonpos : pot ≤ 0 → pot * rate ≤ 0 := fun hpot => mul_nonpos_of_nonpos_of_nonneg hpot hrate
  obtain ⟨hmin, hmax⟩ := hproduct
  unfold i128Min at hmin ⊢
  unfold i128Max at hmax ⊢
  generalize pot * rate = product at hnonneg hnonpos hmin hmax ⊢
  have habs : (product.tdiv 10000).natAbs = product.natAbs / 10000 := Int.natAbs_tdiv product 10000
  refine ⟨fun hpot => Int.tdiv_nonneg (hnonneg hpot) (by decide), fun hpot => ?_,
    by omega, by omega⟩
  have hopposite := Int.tdiv_nonneg (a := -product) (b := 10000)
    (neg_nonneg.mpr (hnonpos hpot)) (by decide)
  rw [Int.neg_tdiv] at hopposite
  exact neg_nonneg.mp hopposite

/-- Over a winning pool of −1 the fee is computed when the pot and its product with the rate are
amounts. -/
theorem computeUpdownFee_of_minusOne (hpot : IsAmount (-1 + losingPool))
    (hproduct : IsAmount ((-1 + losingPool) * feeRate feeBps)) :
    ∃ fee, computeUpdownFee (-1) losingPool feeBps = .ok fee ∧
      payoutAdd fee.1 fee.2.1 = .ok (distributedPot feeBps (-1 + losingPool)) := by
  cases feeBps with
  | none =>
      refine ⟨_, rfl, ?_⟩
      simp only [distributedPot, feeRate, Option.getD_none, Nat.cast_zero, mul_zero,
        Int.zero_tdiv, sub_zero]
      exact checked_of_isAmount hpot
  | some bpsValue =>
      simp only [distributedPot, feeRate, Option.getD_some] at hproduct ⊢
      obtain ⟨hpositive, hnegative, hfeeMin, hfeeMax⟩ :=
        feeAmount_bounds (Int.natCast_nonneg bpsValue) hproduct
      unfold computeUpdownFee payoutAdd
      simp only [checked_of_isAmount hpot, ok_bind, checked_of_isAmount hproduct,
        divide_denominator hproduct]
      generalize ((-1 + losingPool) * (bpsValue : ℤ)).tdiv 10000 = feeAmount
        at hpositive hnegative hfeeMin hfeeMax ⊢
      obtain ⟨hmin, hmax⟩ := hpot
      unfold i128Min at hmin hfeeMin
      unfold i128Max at hmax hfeeMax
      have hrange : ∀ {x : ℤ}, -(2 ^ 127) ≤ x → x ≤ 2 ^ 127 - 1 → IsAmount x :=
        fun hmin hmax => ⟨hmin, hmax⟩
      by_cases hfee : feeAmount = 0
      · rw [if_pos hfee, hfee]
        refine ⟨_, rfl, ?_⟩
        rw [sub_zero]
        exact checked_of_isAmount (hrange hmin hmax)
      · rw [if_neg hfee, checked_of_isAmount (hrange (by omega) (by omega)), ok_bind,
          checked_of_isAmount (hrange (by omega) (by omega)), ok_bind,
          checked_of_isAmount (hrange (by omega) (by omega)), ok_bind]
        refine ⟨_, rfl, ?_⟩
        have htotal : -1 - (feeAmount - min feeAmount losingPool) +
            (losingPool - min feeAmount losingPool) = -1 + losingPool - feeAmount := by
          omega
        rw [htotal]
        exact checked_of_isAmount (hrange (by omega) (by omega))

end Fee

/-- A winner's payout traps where it divides the smallest amount by −1. -/
theorem computeUpdownWinnerPayout_eq_trap {stake winningPool total : ℤ} :
    computeUpdownWinnerPayout stake winningPool total = .error .trap ↔
      winningPool = -1 ∧ stake * total = i128Min := by
  unfold computeUpdownWinnerPayout
  by_cases hpool : winningPool = 0
  · rw [if_pos hpool]
    exact ⟨fun h => (nomatch h), fun h => absurd (hpool.symm.trans h.1) (by decide)⟩
  · rw [if_neg hpool, bind_eq_error]
    constructor
    · rintro (h | ⟨product, hproduct, h⟩)
      · exact (checked_ne_trap h).elim
      · obtain ⟨rfl, hrange⟩ := checked_eq_ok.mp hproduct
        exact ((divide_eq_trap hrange).mp h).resolve_left hpool
    · rintro ⟨hminus, hsmallest⟩
      have hrange : IsAmount (stake * total) := hsmallest ▸ by decide
      refine .inr ⟨_, checked_of_isAmount hrange, ?_⟩
      exact (divide_eq_trap hrange).mpr (.inr ⟨hminus, hsmallest⟩)

/-- A position on the winning side whose product with a pot is the smallest amount, after winners
whose products are amounts. -/
def DividesSmallest (positions : List UpDownPosition) (winningSideUp : Bool) (pot : ℤ) : Prop :=
  ∃ front position back, positions = front ++ position :: back ∧
    position.sideUp = winningSideUp ∧ position.amount * pot = i128Min ∧
    ∀ other ∈ front, other.sideUp = winningSideUp → IsAmount (other.amount * pot)

section Positions

variable {positions : List UpDownPosition} {winningSideUp : Bool} {winningPool losingPool : ℤ}
  {feeBps : Option ℕ}

/-- The payout step of a position. -/
def payPosition (winningSideUp : Bool) (winningPool total : ℤ) (position : UpDownPosition) :
    Except Failure UpDownPayoutEntry :=
  if position.sideUp = winningSideUp then do
    let payout ← computeUpdownWinnerPayout position.amount winningPool total
    return ⟨position.index, position.amount, payout, true, false⟩
  else
    return ⟨position.index, position.amount, 0, false, false⟩

/-- The payout of a position traps where it wins and divides the smallest amount by −1. -/
theorem payPosition_eq_trap {total : ℤ} {position : UpDownPosition} :
    payPosition winningSideUp winningPool total position = .error .trap ↔
      position.sideUp = winningSideUp ∧ winningPool = -1 ∧ position.amount * total = i128Min := by
  unfold payPosition
  split
  · rename_i hside
    rw [bind_eq_error, computeUpdownWinnerPayout_eq_trap]
    refine ⟨fun h => ⟨hside, h.resolve_right fun ⟨_, _, h⟩ => (nomatch h)⟩, fun h => .inl h.2⟩
  · rename_i hside
    exact ⟨fun h => (nomatch h), fun h => (hside h.1).elim⟩

/-- Over a pool of −1 the payout of a winner whose product is an amount is computed or traps. -/
theorem payPosition_of_isAmount {total : ℤ} {position : UpDownPosition}
    (hamount : position.sideUp = winningSideUp → IsAmount (position.amount * total))
    {failure : Failure}
    (hfails : payPosition winningSideUp (-1) total position = .error failure) :
    failure = .trap := by
  unfold payPosition computeUpdownWinnerPayout payoutMul at hfails
  split at hfails
  · rename_i hside
    rw [if_neg (by decide), checked_of_isAmount (hamount hside), ok_bind] at hfails
    unfold divide at hfails
    split at hfails
    · cases hfails
    · exact (Except.error.inj hfails).symm
  · cases hfails

/-- The payouts of the positions trap where the first winner does whose division is one of the
smallest amount by −1. -/
theorem mapM_payPosition_eq_trap {total : ℤ} :
    positions.mapM (payPosition winningSideUp winningPool total) = .error .trap ↔
      winningPool = -1 ∧ DividesSmallest positions winningSideUp total := by
  constructor
  · intro htrap
    obtain ⟨front, position, back, rfl, hfails, hfront⟩ := mapM_eq_error_iff.mp htrap
    obtain ⟨hside, hminus, hsmallest⟩ := payPosition_eq_trap.mp hfails
    refine ⟨hminus, front, position, back, rfl, hside, hsmallest, fun other hother hwins => ?_⟩
    obtain ⟨entry, hentry⟩ := hfront other hother
    rw [payPosition, if_pos hwins, computeUpdownWinnerPayout, hminus, if_neg (by decide)] at hentry
    obtain ⟨_, hpayout, -⟩ := bind_eq_ok.mp hentry
    obtain ⟨_, hproduct, -⟩ := bind_eq_ok.mp hpayout
    exact (checked_eq_ok.mp hproduct).2
  · rintro ⟨rfl, front, position, back, rfl, hside, hsmallest, hfront⟩
    rw [List.append_cons]
    refine mapM_append_eq_error (mapM_eq_error_of_mem (a := position) (by simp)
      (payPosition_eq_trap.mpr ⟨hside, rfl, hsmallest⟩) fun other hother failure => ?_)
    refine payPosition_of_isAmount fun hwins => ?_
    rcases List.mem_append.mp hother with hother | hother
    · exact hfront other hother hwins
    · rw [List.mem_singleton.mp hother, hsmallest]
      decide

/-- A competitive settlement traps over a winning pool of −1 that divides the smallest amount. -/
theorem payUpdownPositions_eq_trap :
    payUpdownPositions positions winningSideUp winningPool losingPool feeBps = .error .trap ↔
      winningPool = -1 ∧ IsAmount (-1 + losingPool) ∧
        IsAmount ((-1 + losingPool) * feeRate feeBps) ∧
        DividesSmallest positions winningSideUp (distributedPot feeBps (-1 + losingPool)) := by
  unfold payUpdownPositions
  by_cases hpool : winningPool = 0
  · rw [if_pos hpool]
    exact ⟨fun h => (nomatch h), fun h => absurd (hpool.symm.trans h.1) (by decide)⟩
  · rw [if_neg hpool]
    constructor
    · intro htrap
      rcases bind_eq_error.mp htrap with h | ⟨fee, hfee, h⟩
      · exact (computeUpdownFee_ne_trap h).elim
      rcases bind_eq_error.mp h with h | ⟨total, htotal, h⟩
      · exact (checked_ne_trap h).elim
      obtain ⟨hminus, hsmallest⟩ := mapM_payPosition_eq_trap.mp h
      subst hminus
      obtain ⟨rfl, hpot, hproduct⟩ := distributedPot_of_fee hfee htotal
      exact ⟨rfl, hpot, hproduct, hsmallest⟩
    · rintro ⟨rfl, hpot, hproduct, hsmallest⟩
      obtain ⟨fee, hfee, htotal⟩ := computeUpdownFee_of_minusOne hpot hproduct
      rw [hfee, ok_bind, htotal, ok_bind]
      exact mapM_payPosition_eq_trap.mpr ⟨rfl, hsmallest⟩

/-- A settlement that refunds one-sided pools traps over a losing pool that is not empty. -/
theorem refund_or_pay_eq_trap {sided : Bool} {refunds : List UpDownPayoutEntry}
    (hsided : sided = (decide (winningPool = 0) != decide (losingPool = 0))) :
    (if sided = true then .ok refunds
      else payUpdownPositions positions winningSideUp winningPool losingPool feeBps) =
        .error .trap ↔
      losingPool ≠ 0 ∧ winningPool = -1 ∧ IsAmount (-1 + losingPool) ∧
        IsAmount ((-1 + losingPool) * feeRate feeBps) ∧
        DividesSmallest positions winningSideUp (distributedPot feeBps (-1 + losingPool)) := by
  rw [← payUpdownPositions_eq_trap]
  by_cases hlosing : losingPool = 0
  · refine ⟨fun htrap => ?_, fun h => (h.1 hlosing).elim⟩
    by_cases hwinning : winningPool = 0
    · rw [if_neg (by simp [hsided, hlosing, hwinning]), payUpdownPositions_eq_trap] at htrap
      exact absurd (hwinning.symm.trans htrap.1) (by decide)
    · rw [if_pos (by simp [hsided, hlosing, hwinning])] at htrap
      cases htrap
  · rw [and_iff_right hlosing]
    by_cases hwinning : winningPool = 0
    · rw [if_pos (by simp [hsided, hlosing, hwinning]), payUpdownPositions_eq_trap]
      exact ⟨fun h => (nomatch h), fun h => absurd (hwinning.symm.trans h.1) (by decide)⟩
    · rw [if_neg (by simp [hsided, hlosing, hwinning])]

end Positions

/-! ## Precision settlements -/

section Precision

variable {entries : List PrecisionEntry} {finalPrice : ℕ} {feeBps : Option ℕ}

/-- A step of the replay's sum of the stakes. -/
def addAmount (total : ℤ) (entry : PrecisionEntry) : Except Failure ℤ :=
  if i128Min ≤ total + entry.amount ∧ total + entry.amount ≤ i128Max then
    return total + entry.amount
  else
    throw .trap

/-- The sum of the stakes is the one of the amounts where they add up, and traps elsewhere. -/
theorem foldlM_addAmount {start : ℤ} (hstart : IsAmount start) :
    (AddUpFrom start (entries.map (·.amount)) ∧
        entries.foldlM addAmount start = .ok (start + (entries.map (·.amount)).sum)) ∨
      (¬ AddUpFrom start (entries.map (·.amount)) ∧
        entries.foldlM addAmount start = .error .trap) := by
  induction entries generalizing start with
  | nil => exact .inl ⟨addUpFrom_nil.mpr hstart, by simp [pure, Except.pure]⟩
  | cons entry rest ih =>
      rw [List.foldlM_cons, List.map_cons, addUpFrom_cons, List.sum_cons, ← add_assoc]
      by_cases hnext : IsAmount (start + entry.amount)
      · have hstep : addAmount start entry = .ok (start + entry.amount) := if_pos hnext
        rw [hstep, ok_bind]
        exact (ih hnext).imp (fun h => ⟨⟨hstart, h.1⟩, h.2⟩)
          fun h => ⟨fun hsums => h.1 hsums.2, h.2⟩
      · have hstep : addAmount start entry = .error .trap := if_neg hnext
        exact .inr ⟨fun hsums => hnext hsums.2.isAmount, by rw [hstep]; rfl⟩

/-- The fee takes the whole of a pot: a rate of the whole or more, whose product with the pot
fits. -/
def TakesAll (feeBps : Option ℕ) (pot : ℤ) : Prop :=
  ∃ rate : ℕ, feeBps = some rate ∧ 10000 ≤ rate ∧ pot * rate ≤ i128Max

/-- The fee is computed or fails with an error. -/
theorem computePrecisionFee_ne_trap {pot : ℤ} :
    computePrecisionFee pot feeBps ≠ .error .trap := by
  cases feeBps with
  | none => exact fun h => (nomatch h)
  | some bpsValue =>
      unfold computePrecisionFee
      intro htrap
      simp only at htrap
      split at htrap
      · cases htrap
      rcases bind_eq_error.mp htrap with h | ⟨product, hproduct, h⟩
      · exact checked_ne_trap h
      obtain ⟨rfl, hrange⟩ := checked_eq_ok.mp hproduct
      rw [divide_denominator hrange, ok_bind] at h
      rcases bind_eq_error.mp h with h | ⟨_, -, h⟩
      · exact checked_ne_trap h
      · cases h

/-- What the fee leaves of an amount is an amount. -/
theorem computePrecisionFee_le {pot : ℤ} {fee : ℤ × ℤ} (hfits : pot ≤ i128Max)
    (hfee : computePrecisionFee pot feeBps = .ok fee) : fee.1 ≤ i128Max := by
  unfold computePrecisionFee at hfee
  split at hfee
  · cases hfee
    exact hfits
  · split at hfee
    · cases hfee
      exact hfits
    · obtain ⟨_, -, hfee⟩ := bind_eq_ok.mp hfee
      obtain ⟨_, -, hfee⟩ := bind_eq_ok.mp hfee
      obtain ⟨_, hleft, hfee⟩ := bind_eq_ok.mp hfee
      cases hfee
      obtain ⟨rfl, hrange⟩ := checked_eq_ok.mp hleft
      exact hrange.2

/-- Nothing is left of a pot exactly where the fee takes the whole of it. -/
theorem takesAll_iff {pot : ℤ} (hpot : 0 < pot) (hfits : pot ≤ i128Max) :
    TakesAll feeBps pot ↔
      ∃ fee, computePrecisionFee pot feeBps = .ok fee ∧ fee.1 ≤ 0 := by
  cases feeBps with
  | none =>
      constructor
      · rintro ⟨_, h, -⟩
        cases h
      · rintro ⟨_, h, hle⟩
        cases h
        exact absurd hpot (not_lt.mpr hle)
  | some bpsValue =>
      have hnonneg : 0 ≤ pot * (bpsValue : ℤ) := mul_nonneg hpot.le (Int.natCast_nonneg bpsValue)
      have hfloor : (pot * (bpsValue : ℤ)).tdiv 10000 = pot * bpsValue / 10000 :=
        Int.tdiv_eq_ediv_of_nonneg hnonneg
      -- the floor of the fee reaches the pot where the rate reaches the whole
      have hreach : pot ≤ pot * bpsValue / 10000 ↔ 10000 ≤ bpsValue := by
        rw [Int.le_ediv_iff_mul_le (by decide), mul_le_mul_iff_right₀ hpot]
        norm_cast
      simp only [computePrecisionFee, if_neg (not_le.mpr hpot)]
      constructor
      · rintro ⟨rate, hrate, hwhole, hproduct⟩
        cases hrate
        have hrange : IsAmount (pot * (bpsValue : ℤ)) := ⟨by unfold i128Min; omega, hproduct⟩
        have hleft : IsAmount (pot - (pot * (bpsValue : ℤ)).tdiv 10000) := by
          rw [hfloor]
          unfold IsAmount i128Min
          unfold i128Max at *
          omega
        rw [checked_of_isAmount hrange, ok_bind, divide_denominator hrange, ok_bind,
          checked_of_isAmount hleft, ok_bind]
        refine ⟨_, rfl, ?_⟩
        have hge := hreach.mpr hwhole
        simp only
        omega
      · rintro ⟨fee, hfee, hle⟩
        obtain ⟨product, hproduct, hfee⟩ := bind_eq_ok.mp hfee
        obtain ⟨rfl, hrange⟩ := checked_eq_ok.mp hproduct
        rw [divide_denominator hrange, ok_bind] at hfee
        obtain ⟨distributable, hleft, hfee⟩ := bind_eq_ok.mp hfee
        obtain ⟨rfl, -⟩ := checked_eq_ok.mp hleft
        cases hfee
        refine ⟨bpsValue, rfl, hreach.mp ?_, hrange.2⟩
        simp only at hle
        omega

/-- An equal split pays every winner, or nobody where there is nothing to split. -/
theorem splitPotAmongWinners_spec {distributable : ℤ} {count : ℕ} (hcount : count ≠ 0)
    (hfits : distributable ≤ i128Max) :
    splitPotAmongWinners distributable count ≠ .error .trap ∧
      ∀ payouts, splitPotAmongWinners distributable count = .ok payouts →
        if distributable ≤ 0 then payouts = [] else payouts.length = count := by
  unfold splitPotAmongWinners
  by_cases hnone : distributable ≤ 0
  · rw [if_pos (.inr hnone)]
    refine ⟨fun h => (nomatch h), fun payouts hpayouts => ?_⟩
    rw [if_pos hnone]
    exact (Except.ok.inj hpayouts).symm
  · have hrange : IsAmount distributable := ⟨by unfold i128Min; omega, hfits⟩
    rw [if_neg (not_or.mpr ⟨hcount, hnone⟩),
      divide_of_range hrange (by exact_mod_cast hcount) (by omega), ok_bind]
    constructor
    · intro htrap
      obtain ⟨_, i, _, -, hfails, -⟩ := mapM_eq_error_iff.mp htrap
      split at hfails
      · exact checked_ne_trap hfails
      · cases hfails
    · intro payouts hpayouts
      rw [if_neg hnone, ← (mapM_eq_ok_iff.mp hpayouts).length_eq, List.length_range]

variable {winnerIndices : List ℕ} {winnerPayouts : List ℤ}

/-- The payout of an entry is computed or traps. -/
theorem payEntry_error {entry : PrecisionEntry} {failure : Failure}
    (hfails : payEntry winnerIndices winnerPayouts entry = .error failure) : failure = .trap := by
  unfold payEntry at hfails
  split at hfails
  · cases hfails
  · split at hfails
    · exact (Except.error.inj hfails).symm
    · cases hfails

/-- Every entry is paid where every winner has a payout. -/
theorem payEntry_of_length (hlength : winnerPayouts.length = winnerIndices.length)
    {entry : PrecisionEntry} {failure : Failure} :
    payEntry winnerIndices winnerPayouts entry ≠ .error failure := by
  unfold payEntry
  cases hplace : winnerIndices.idxOf? entry.index with
  | none => exact fun h => (nomatch h)
  | some place =>
      have hlt : place < winnerPayouts.length := by
        rw [hlength]
        exact (List.idxOf?_eq_some_iff.mp hplace).1
      simp only [List.getElem?_eq_getElem hlt]
      exact fun h => (nomatch h)

/-- Without payouts a winner's entry traps. -/
theorem payEntry_of_nil {entry : PrecisionEntry} (hmem : entry.index ∈ winnerIndices) :
    payEntry winnerIndices [] entry = .error .trap := by
  unfold payEntry
  cases hplace : winnerIndices.idxOf? entry.index with
  | none => exact absurd hmem (List.idxOf?_eq_none_iff.mp hplace)
  | some place => rfl

/-- What an entry is paid carries its index. -/
theorem payEntry_index {entry : PrecisionEntry} {paid : PrecisionPayoutEntry}
    (hpaid : payEntry winnerIndices winnerPayouts entry = .ok paid) :
    paid.index = entry.index := by
  unfold payEntry at hpaid
  split at hpaid
  · cases hpaid
    rfl
  · split at hpaid
    · cases hpaid
    · cases hpaid
      rfl

/-- There are winners exactly where somebody revealed, and a winner is an entry. -/
theorem winnerIndices_ne_nil_iff :
    ((findPrecisionWinnersWithPolicy entries finalPrice absoluteScoring).winnerIndices ≠ [] ↔
        ∃ entry ∈ entries, entry.revealed = true) ∧
      ∀ index ∈ (findPrecisionWinnersWithPolicy entries finalPrice absoluteScoring).winnerIndices,
        ∃ entry ∈ entries, entry.index = index := by
  rw [winnerIndices_eq]
  constructor
  · rcases winnerIndices_of_policy entries finalPrice absoluteScoring with
      ⟨hhidden, hnone⟩ | ⟨best, hbest, hrevealed, hleast, -⟩
    · rw [← winnerIndices_eq, hnone]
      refine ⟨fun h => (h rfl).elim, fun ⟨entry, hmem, hentry⟩ => (hhidden entry hmem hentry).elim⟩
    · refine ⟨fun _ => ⟨best, hbest, hrevealed⟩, fun _ => ?_⟩
      refine List.ne_nil_of_mem (List.mem_map_of_mem (a := best) (List.mem_filter.mpr ⟨hbest, ?_⟩))
      exact decide_eq_true ⟨hrevealed, hleast⟩
  · intro index hindex
    obtain ⟨entry, hentry, rfl⟩ := List.mem_map.mp hindex
    exact ⟨entry, (List.mem_filter.mp hentry).1, rfl⟩

/-- The payouts of stakes that add up trap where the fee takes the whole of a pot that somebody
revealed for. -/
theorem computePrecisionPayouts_eq_trap (hsums : AddUpFrom 0 (entries.map (·.amount))) :
    computePrecisionPayouts entries finalPrice feeBps = .error .trap ↔
      0 < (entries.map (·.amount)).sum ∧ (∃ entry ∈ entries, entry.revealed = true) ∧
        TakesAll feeBps (entries.map (·.amount)).sum := by
  have htotal := @foldl_totalPot entries finalPrice ⟨0, [], none⟩ absoluteScoring.mode hsums
  have hfits : (entries.map (·.amount)).sum ≤ i128Max := by
    simpa using (hsums _ List.prefix_rfl).2
  obtain ⟨hrevealed, hindices⟩ := @winnerIndices_ne_nil_iff entries finalPrice
  rw [zero_add] at htotal
  change (findPrecisionWinnersWithPolicy entries finalPrice absoluteScoring).totalPot = _ at htotal
  unfold computePrecisionPayouts computePrecisionPayoutsWithPolicy
  simp only [htotal]
  generalize (findPrecisionWinnersWithPolicy entries finalPrice absoluteScoring).winnerIndices =
    winners at hrevealed hindices ⊢
  generalize (entries.map (·.amount)).sum = pot at hfits ⊢
  rw [← hrevealed]
  by_cases hnone : winners = []
  · subst hnone
    refine ⟨fun h => ?_, fun h => (h.2.1 rfl).elim⟩
    simp only [true_and] at h
    split at h
    · cases h
    · simp only [or_true, if_true] at h
      cases h
  rw [if_neg fun h => hnone h.1]
  by_cases hpot : pot ≤ 0
  · rw [if_pos (.inl hpot)]
    exact ⟨fun h => (nomatch h), fun h => absurd h.1 (not_lt.mpr hpot)⟩
  rw [if_neg (not_or.mpr ⟨hpot, hnone⟩), takesAll_iff (not_le.mp hpot) hfits]
  have hcount : winners.length ≠ 0 := fun h => hnone (List.length_eq_zero_iff.mp h)
  constructor
  · intro htrap
    refine ⟨not_le.mp hpot, hnone, ?_⟩
    rcases bind_eq_error.mp htrap with h | ⟨fee, hfee, h⟩
    · exact (computePrecisionFee_ne_trap h).elim
    refine ⟨fee, hfee, ?_⟩
    obtain ⟨hsplit, hlength⟩ :=
      splitPotAmongWinners_spec hcount (computePrecisionFee_le hfits hfee)
    rcases bind_eq_error.mp h with h | ⟨payouts, hpayouts, h⟩
    · exact (hsplit h).elim
    by_contra hleft
    have hpaid := hlength payouts hpayouts
    rw [if_neg hleft] at hpaid
    obtain ⟨_, entry, _, -, hfails, -⟩ := mapM_eq_error_iff.mp h
    exact payEntry_of_length hpaid hfails
  · rintro ⟨-, -, fee, hfee, hle⟩
    have hsplit : splitPotAmongWinners fee.1 winners.length = .ok [] := if_pos (.inr hle)
    rw [hfee, ok_bind]
    simp only [splitPot, hsplit, ok_bind]
    obtain ⟨index, rest, rfl⟩ := List.exists_cons_of_ne_nil hnone
    obtain ⟨entry, hentry, hindex⟩ := hindices index List.mem_cons_self
    refine mapM_eq_error_of_mem hentry (payEntry_of_nil ?_) fun _ _ _ => payEntry_error
    rw [hindex]
    exact List.mem_cons_self

end Precision

/-! ## Transcripts that trap -/

namespace RoundTranscript

variable (transcript : RoundTranscript)

def amounts : List ℤ :=
  transcript.participants.map (·.amount)

/-- The UpDown positions of the participants. -/
def positions : List UpDownPosition :=
  transcript.participants.map fun p => ⟨p.index, p.amount, p.sideUp.getD true⟩

/-- The Precision entries of the participants. -/
def entries : List PrecisionEntry :=
  transcript.participants.map fun p => ⟨p.index, p.predictedPrice, p.amount, p.revealed⟩

/-- The pool of the side the price moved to. -/
def winningPool : ℤ :=
  if transcript.finalPrice > transcript.priceStart then transcript.poolUp else transcript.poolDown

def losingPool : ℤ :=
  if transcript.finalPrice > transcript.priceStart then transcript.poolDown else transcript.poolUp

/-- The replay reaches the settlement. -/
def Settles : Prop :=
  transcript.validateSchema = .ok () ∧ transcript.oracleRoundId = transcript.roundId ∧
    transcript.terminal = .resolve ∧
    ¬ (transcript.minParticipants.any fun min => transcript.participantCount < min) = true

/-- The price moved to a pool of −1 that divides the smallest amount. -/
def UpDownTraps : Prop :=
  transcript.finalPrice ≠ transcript.priceStart ∧ transcript.losingPool ≠ 0 ∧
    transcript.winningPool = -1 ∧ IsAmount (-1 + transcript.losingPool) ∧
    IsAmount ((-1 + transcript.losingPool) * feeRate transcript.feeBps) ∧
    DividesSmallest transcript.positions (transcript.finalPrice > transcript.priceStart)
      (distributedPot transcript.feeBps (-1 + transcript.losingPool))

/-- The stakes overflow, or the fee takes the whole of a pot that somebody revealed for. -/
def PrecisionTraps : Prop :=
  ¬ AddUpFrom 0 transcript.amounts ∨
    0 < transcript.amounts.sum ∧ (∃ p ∈ transcript.participants, p.revealed = true) ∧
      TakesAll transcript.feeBps transcript.amounts.sum

/-- The transcripts whose replay traps. -/
def Traps : Prop :=
  transcript.Settles ∧
    match transcript.mode with
    | .upDown => transcript.UpDownTraps
    | .precision => transcript.PrecisionTraps

end RoundTranscript

section Replays

variable {transcript : RoundTranscript}

/-- The payouts of an UpDown transcript trap in the transcripts said. -/
theorem computeUpdownPayouts_eq_trap :
    computeUpdownPayouts transcript.positions transcript.priceStart transcript.finalPrice
        transcript.poolUp transcript.poolDown transcript.feeBps = .error .trap ↔
      transcript.UpDownTraps := by
  unfold computeUpdownPayouts RoundTranscript.UpDownTraps RoundTranscript.winningPool
    RoundTranscript.losingPool classifyPriceDirection
  rcases lt_trichotomy transcript.finalPrice transcript.priceStart with hlt | heq | hgt
  · have hnot : ¬ transcript.finalPrice > transcript.priceStart := not_lt.mpr hlt.le
    simp only [if_pos hlt, if_neg hnot, and_iff_right hlt.ne]
    rw [decide_eq_false hnot]
    exact refund_or_pay_eq_trap (Bool.xor_comm _ _)
  · simp only [heq, lt_irrefl, if_false, ne_eq, not_true, false_and, iff_false]
    split <;> exact fun h => (nomatch h)
  · simp only [if_pos hgt, and_iff_right hgt.ne']
    rw [decide_eq_true hgt]
    exact refund_or_pay_eq_trap rfl

/-- The replay of an UpDown transcript traps where its payouts do. -/
theorem replayUpDown_eq_trap :
    replayUpDown transcript = .error .trap ↔ transcript.UpDownTraps := by
  rw [← computeUpdownPayouts_eq_trap]
  unfold replayUpDown
  refine bind_eq_error.trans ⟨fun h => h.resolve_right fun ⟨_, _, h⟩ => (nomatch h), .inl⟩

/-- The replay of a Precision transcript traps where the sum of the stakes or the payouts do. -/
theorem replayPrecision_eq_trap :
    replayPrecision transcript = .error .trap ↔ transcript.PrecisionTraps := by
  have hamounts : transcript.entries.map (·.amount) = transcript.amounts := by
    rw [RoundTranscript.entries, List.map_map]
    rfl
  have hrevealed : (∃ entry ∈ transcript.entries, entry.revealed = true) ↔
      ∃ p ∈ transcript.participants, p.revealed = true := by
    simp [RoundTranscript.entries]
  have hfold := @foldlM_addAmount transcript.entries 0 (by decide)
  rw [hamounts] at hfold
  unfold replayPrecision RoundTranscript.PrecisionTraps
  rw [← hrevealed]
  rcases hfold with ⟨hsums, hfold⟩ | ⟨hnot, hfold⟩
  · have hpayouts := @computePrecisionPayouts_eq_trap transcript.entries transcript.finalPrice
      transcript.feeBps (hamounts ▸ hsums)
    rw [hamounts] at hpayouts
    rw [or_iff_right (not_not.mpr hsums), ← hpayouts]
    refine (iff_of_eq (congrArg (· = _) (congrArg (· >>= _) hfold))).trans ?_
    rw [ok_bind]
    exact bind_eq_error.trans ⟨fun h => h.resolve_right fun ⟨_, _, h⟩ => (nomatch h), .inl⟩
  · refine iff_of_true ?_ (.inl hnot)
    exact (congrArg (· >>= _) hfold).trans rfl

/-! ## Payouts of a replay -/

/-- Every position has a payout with its index. -/
theorem payPosition_index {winningSideUp : Bool} {winningPool total : ℤ}
    {position : UpDownPosition} {entry : UpDownPayoutEntry}
    (hpaid : payPosition winningSideUp winningPool total position = .ok entry) :
    entry.index = position.index := by
  unfold payPosition at hpaid
  split at hpaid
  · obtain ⟨_, -, hpaid⟩ := bind_eq_ok.mp hpaid
    cases hpaid
    rfl
  · cases hpaid
    rfl

/-- A competitive settlement pays every position. -/
theorem payUpdownPositions_indices {positions : List UpDownPosition} {winningSideUp : Bool}
    {winningPool losingPool : ℤ} {feeBps : Option ℕ} {entries : List UpDownPayoutEntry}
    (hpaid : payUpdownPositions positions winningSideUp winningPool losingPool feeBps =
      .ok entries) : entries.map (·.index) = positions.map (·.index) := by
  unfold payUpdownPositions at hpaid
  split at hpaid
  · cases hpaid
    rw [List.map_map]
    rfl
  · obtain ⟨_, -, hpaid⟩ := bind_eq_ok.mp hpaid
    obtain ⟨_, -, hpaid⟩ := bind_eq_ok.mp hpaid
    exact map_eq_of_mapM hpaid fun position _ entry hentry => payPosition_index hentry

/-- The replay of an UpDown transcript has a payout for every participant. -/
theorem replayUpDown_indices {result : ReplayResult} (hrun : replayUpDown transcript = .ok result) :
    result.payouts.map (·.index) = transcript.participants.map (·.index) := by
  obtain ⟨entries, hentries, hrun⟩ := bind_eq_ok.mp hrun
  cases hrun
  have hindices : entries.map (·.index) = transcript.positions.map (·.index) := by
    unfold computeUpdownPayouts at hentries
    split at hentries
    · cases hentries
      rw [List.map_map]
      rfl
    · split at hentries
      · cases hentries
        rw [List.map_map]
        rfl
      · exact payUpdownPositions_indices hentries
      · exact payUpdownPositions_indices hentries
  rw [RoundTranscript.positions, List.map_map] at hindices
  rw [List.map_map]
  exact hindices

/-- The replay of a Precision transcript has a payout for every participant. -/
theorem replayPrecision_indices {result : ReplayResult}
    (hrun : replayPrecision transcript = .ok result) :
    result.payouts.map (·.index) = transcript.participants.map (·.index) := by
  obtain ⟨_, -, hrun⟩ := bind_eq_ok.mp hrun
  obtain ⟨math, hmath, hrun⟩ := bind_eq_ok.mp hrun
  cases hrun
  have hindices : math.map (·.index) = transcript.entries.map (·.index) := by
    unfold computePrecisionPayouts computePrecisionPayoutsWithPolicy at hmath
    simp only at hmath
    split at hmath
    · cases hmath
      rw [List.map_map]
      rfl
    · split at hmath
      · cases hmath
        rw [List.map_map]
        rfl
      · obtain ⟨_, -, hmath⟩ := bind_eq_ok.mp hmath
        obtain ⟨_, -, hmath⟩ := bind_eq_ok.mp hmath
        exact map_eq_of_mapM hmath fun entry _ paid hpaid => payEntry_index hpaid
  rw [RoundTranscript.entries, List.map_map] at hindices
  rw [List.map_map]
  exact hindices

/-- A replay is safe when it returns or fails with an error, and what it returns has one payout for
every participant, with their index. -/
structure ReplaySafe (transcript : RoundTranscript) : Prop where
  noTrap : replayRound transcript ≠ .error (.settlement .trap)
  onePayoutEach : ∀ result, replayRound transcript = .ok result →
    result.payouts.map (·.index) = transcript.participants.map (·.index)

/-- A settlement that fails keeps its failure. -/
theorem mapError_eq_error {α : Type} {run : Except Failure α} {failure : Failure} :
    run.mapError ReplayError.settlement = .error (.settlement failure) ↔ run = .error failure := by
  cases run with
  | error other => simp [Except.mapError]
  | ok value => simp [Except.mapError]

theorem mapError_eq_ok {α ε : Type} {run : Except ε α} {wrap : ε → ReplayError} {value : α} :
    run.mapError wrap = .ok value ↔ run = .ok value := by
  cases run with
  | error other => simp [Except.mapError]
  | ok other => simp [Except.mapError]

/-- A replay traps exactly on the transcripts that do. -/
theorem replayRound_eq_trap :
    replayRound transcript = .error (.settlement .trap) ↔ transcript.Traps := by
  have hresolve : replayResolve transcript = .error .trap ↔
      match transcript.mode with
      | .upDown => transcript.UpDownTraps
      | .precision => transcript.PrecisionTraps := by
    unfold replayResolve
    cases transcript.mode with
    | upDown => exact replayUpDown_eq_trap
    | precision => exact replayPrecision_eq_trap
  unfold RoundTranscript.Traps RoundTranscript.Settles
  rw [← hresolve, ← mapError_eq_error]
  unfold replayRound
  cases hschema : transcript.validateSchema with
  | error error =>
      refine ⟨fun h => ?_, fun h => (nomatch h.1.1)⟩
      cases h
  | ok _ =>
      simp only [Except.mapError, ok_bind, true_and]
      by_cases horacle : transcript.oracleRoundId = transcript.roundId
      · rw [if_neg (not_not.mpr horacle), and_iff_right horacle]
        cases hterminal : transcript.terminal with
        | cancel | void | fallbackRefund =>
            exact ⟨fun h => (nomatch h), fun h => (nomatch h.1.1)⟩
        | resolve =>
            simp only [true_and]
            split
            · rename_i hfew
              exact ⟨fun h => (nomatch h), fun h => (h.1 hfew).elim⟩
            · rename_i henough
              exact ⟨fun h => ⟨henough, h⟩, fun h => h.2⟩
      · rw [if_pos horacle]
        refine ⟨fun h => ?_, fun h => (horacle h.1.1).elim⟩
        cases h

/-- What a replay returns has a payout for every participant. -/
theorem replayRound_indices {result : ReplayResult} (hrun : replayRound transcript = .ok result) :
    result.payouts.map (·.index) = transcript.participants.map (·.index) := by
  have hrefund : ∀ status outcome, (replayFullRefund transcript status outcome).payouts.map
      (·.index) = transcript.participants.map (·.index) := by
    intro status outcome
    rw [replayFullRefund, List.map_map]
    rfl
  unfold replayRound at hrun
  obtain ⟨_, -, hrun⟩ := bind_eq_ok.mp hrun
  split at hrun
  · cases hrun
  cases hterminal : transcript.terminal with
  | cancel | void | fallbackRefund =>
      rw [hterminal] at hrun
      cases hrun
      exact hrefund _ _
  | resolve =>
      rw [hterminal] at hrun
      simp only at hrun
      split at hrun
      · cases hrun
        exact hrefund _ _
      · have hresolve := mapError_eq_ok.mp hrun
        unfold replayResolve at hresolve
        split at hresolve
        · exact replayUpDown_indices hresolve
        · exact replayPrecision_indices hresolve

/-- A replay is safe exactly on the transcripts that do not trap. -/
theorem replaySafe_iff (transcript : RoundTranscript) :
    ReplaySafe transcript ↔ ¬ transcript.Traps := by
  rw [← replayRound_eq_trap]
  exact ⟨fun hsafe => hsafe.noTrap, fun hnot => ⟨hnot, fun _ => replayRound_indices⟩⟩

end Replays

/-- A Precision round of one participant, whose fee is the whole pot. -/
def wholeFeeTranscript : RoundTranscript where
  schemaVersion := transcriptSchemaVersion
  roundId := 1
  mode := .precision
  terminal := .resolve
  priceStart := 100
  finalPrice := 105
  poolUp := 0
  poolDown := 0
  feeBps := some 10000
  minParticipants := none
  participantCount := 1
  oracleRoundId := 1
  participants := [⟨0, 50, none, true, 104⟩]

/-- A fee of the whole pot leaves the winner without a payout, and the replay indexes past the
payouts. -/
theorem replay_whole_fee_traps : ¬ ReplaySafe wholeFeeTranscript := by
  intro hsafe
  exact hsafe.noTrap (by decide)

end XelmaMarket
