import XelmaMarket.Proceeds

/-!
# Arithmetic in range

The checked arithmetic of the settlements succeeds whenever the amounts fit: the pot, the pot times
the fee rate, and the products of a winner's stake and the distributed pot.
-/

namespace XelmaMarket

open Transaction

/-! ## Amounts -/

/-- An integer of the type of amounts. -/
def IsAmount (x : ℤ) : Prop :=
  i128Min ≤ x ∧ x ≤ i128Max

instance (x : ℤ) : Decidable (IsAmount x) :=
  inferInstanceAs (Decidable (_ ∧ _))

/-- Amounts add up from a start when no sum on the way overflows. -/
def AddUpFrom (start : ℤ) (amounts : List ℤ) : Prop :=
  ∀ front, front <+: amounts → IsAmount (start + front.sum)

section Sums

variable {start amount : ℤ} {amounts : List ℤ}

theorem AddUpFrom.isAmount (hsums : AddUpFrom start amounts) : IsAmount start := by
  simpa using hsums [] List.nil_prefix

theorem addUpFrom_nil : AddUpFrom start [] ↔ IsAmount start := by
  refine ⟨AddUpFrom.isAmount, fun hstart front hfront => ?_⟩
  rw [List.prefix_nil.mp hfront]
  simpa using hstart

/-- The first amount is added, and the rest from there. -/
theorem addUpFrom_cons :
    AddUpFrom start (amount :: amounts) ↔
      IsAmount start ∧ AddUpFrom (start + amount) amounts := by
  constructor
  · intro hsums
    refine ⟨hsums.isAmount, fun front hfront => ?_⟩
    rw [add_assoc, ← List.sum_cons]
    exact hsums _ (List.prefix_cons_inj amount |>.mpr hfront)
  · rintro ⟨hstart, hsums⟩ front hfront
    rcases List.prefix_cons_iff.mp hfront with rfl | ⟨rest, rfl, hrest⟩
    · simpa using hstart
    · rw [List.sum_cons, ← add_assoc]
      exact hsums rest hrest

/-- Amounts that are not negative add up when their sum fits. -/
theorem addUpFrom_of_nonneg (hstart : 0 ≤ start) (hnonneg : ∀ amount ∈ amounts, 0 ≤ amount)
    (hfits : start + amounts.sum ≤ i128Max) : AddUpFrom start amounts := by
  rintro front ⟨back, rfl⟩
  have hfront : 0 ≤ front.sum :=
    List.sum_nonneg fun x hmem => hnonneg x (List.mem_append_left _ hmem)
  have hback : 0 ≤ back.sum :=
    List.sum_nonneg fun x hmem => hnonneg x (List.mem_append_right _ hmem)
  rw [List.sum_append] at hfits
  unfold IsAmount i128Min
  omega

end Sums

/-! ## Single operations -/

/-- A step that succeeds hands its result on. -/
@[simp] theorem ok_bind {ε α β : Type} (value : α) (next : α → Except ε β) :
    (Except.ok value >>= next) = next value := rfl

section Operations

variable {a b : ℤ} {error : ContractError}

/-- An amount in range passes the check. -/
theorem checked_of_fits (hnonneg : 0 ≤ a) (hfits : a ≤ i128Max) : checked a error = .ok a := by
  rw [checked_eq_ok]
  unfold i128Min
  exact ⟨rfl, by omega, hfits⟩

theorem checked_of_isAmount (hamount : IsAmount a) : checked a error = .ok a :=
  checked_eq_ok.mpr ⟨rfl, hamount⟩

/-- Checked arithmetic does not trap. -/
theorem checked_ne_trap : checked a error ≠ .error .trap := by
  unfold checked
  split <;> simp

theorem payoutAdd_of_fits (hnonneg : 0 ≤ a + b) (hfits : a + b ≤ i128Max) :
    payoutAdd a b = .ok (a + b) :=
  checked_of_fits hnonneg hfits

theorem payoutMul_of_fits (hnonneg : 0 ≤ a * b) (hfits : a * b ≤ i128Max) :
    payoutMul a b = .ok (a * b) :=
  checked_of_fits hnonneg hfits

/-- A running total keeps every addend of amounts that add up. -/
theorem AddUpFrom.foldl_addOrKeep {α : Type} {items : List α} {amount : α → ℤ} {start : ℤ}
    (hsums : AddUpFrom start (items.map amount)) :
    items.foldl (fun total item => addOrKeep total (amount item)) start =
      start + (items.map amount).sum := by
  induction items generalizing start with
  | nil => simp
  | cons item rest ih =>
      have hrest := (addUpFrom_cons.mp hsums).2
      have hkeep : addOrKeep start (amount item) = start + amount item := if_pos hrest.isAmount
      rw [List.foldl_cons, hkeep, ih hrest, List.map_cons, List.sum_cons, add_assoc]

/-- Dividing an amount by a positive one gives the floor of the quotient. -/
theorem divide_of_fits (hnonneg : 0 ≤ a) (hfits : a ≤ i128Max) (hpos : 0 < b) :
    divide a b = .ok (a / b) := by
  have hquotient : 0 ≤ a / b := Int.ediv_nonneg hnonneg hpos.le
  have hle : a / b ≤ a := Int.ediv_le_self b hnonneg
  rw [divide_eq_ok, Int.tdiv_eq_ediv_of_nonneg hnonneg]
  unfold i128Min
  exact ⟨rfl, hpos.ne', by omega, by omega⟩

/-- A quotient of amounts is an amount, save that of the smallest amount by −1. -/
theorem divide_of_range (hrange : IsAmount a) (hzero : b ≠ 0)
    (hsmallest : b = -1 → a ≠ i128Min) : divide a b = .ok (a.tdiv b) := by
  have habs : (a.tdiv b).natAbs = a.natAbs / b.natAbs := Int.natAbs_tdiv a b
  obtain ⟨hmin, hmax⟩ := hrange
  unfold i128Min at hmin hsmallest
  unfold i128Max at hmax
  rw [divide_eq_ok]
  refine ⟨rfl, hzero, ?_⟩
  unfold i128Min i128Max
  by_cases hone : b = 1
  · rw [hone, Int.tdiv_one]
    omega
  by_cases hminus : b = -1
  · have hsmall := hsmallest hminus
    rw [hminus, Int.tdiv_neg, Int.tdiv_one]
    omega
  · have hhalf : a.natAbs / b.natAbs ≤ a.natAbs / 2 := Nat.div_le_div_left (by omega) (by decide)
    omega

/-- Dividing an amount traps for a zero divisor, and for the smallest amount and −1. -/
theorem divide_eq_trap (hamount : IsAmount a) :
    divide a b = .error .trap ↔ b = 0 ∨ b = -1 ∧ a = i128Min := by
  constructor
  · intro htrap
    by_contra hnot
    obtain ⟨hzero, hsmallest⟩ := not_or.mp hnot
    have hok := divide_of_range hamount hzero fun hminus hmin => hsmallest ⟨hminus, hmin⟩
    cases hok.symm.trans htrap
  · rintro (rfl | ⟨rfl, rfl⟩)
    · exact if_neg fun h => h.1 rfl
    · exact if_neg fun h => absurd h.2.2 (by decide)

/-- The division of an amount by the fee denominator does not trap. -/
theorem divide_denominator (hamount : IsAmount a) :
    divide a bpsDenominator = .ok (a.tdiv 10000) :=
  divide_of_range hamount (by decide) fun h => absurd h (by decide)

/-- Adding up amounts whose sum fits succeeds. -/
theorem foldlM_payoutAdd {amounts : List ℤ} {start : ℤ} (hstart : 0 ≤ start)
    (hnonneg : ∀ amount ∈ amounts, 0 ≤ amount) (hfits : start + amounts.sum ≤ i128Max) :
    amounts.foldlM payoutAdd start = .ok (start + amounts.sum) := by
  induction amounts generalizing start with
  | nil => simp [pure, Except.pure]
  | cons amount rest ih =>
      have hamount := hnonneg amount List.mem_cons_self
      have hrest : ∀ other ∈ rest, 0 ≤ other :=
        fun other hmem => hnonneg other (List.mem_cons_of_mem _ hmem)
      have hsum := List.sum_nonneg hrest
      rw [List.sum_cons] at hfits ⊢
      rw [List.foldlM_cons, payoutAdd_of_fits (by omega) (by omega), ok_bind,
        ih (by omega) hrest (by omega), add_assoc]

end Operations

/-! ## Fees -/

/-- The product of a base and the fee rate fits. -/
def RateFits (bps : Option ℕ) (base : ℤ) : Prop :=
  ∀ rate, bps = some rate → base * (rate : ℤ) ≤ i128Max

/-- The fee of a rate is the product over the denominator, between 0 and a tenth of the base. -/
theorem divide_rate {rate : ℕ} {base : ℤ} (hcap : FeeCapped (some rate)) (hbase : 0 ≤ base)
    (hfits : RateFits (some rate) base) (error : ContractError) :
    checked (base * (rate : ℤ)) error = .ok (base * (rate : ℤ)) ∧
      divide (base * (rate : ℤ)) bpsDenominator = .ok (rateOf (some rate) base) ∧
      0 ≤ rateOf (some rate) base ∧ 10 * rateOf (some rate) base ≤ base := by
  have hnonneg : 0 ≤ base * (rate : ℤ) := mul_nonneg hbase (Int.natCast_nonneg rate)
  have hproduct := hfits rate rfl
  exact ⟨checked_of_fits hnonneg hproduct, divide_of_fits hnonneg hproduct (by decide),
    rateOf_nonneg hbase, rateOf_le hcap hbase⟩

section UpDown

variable {A : Type} {terms : Terms} {rounds : Rounds A} {round : Round} {side : BetSide}
  {winningPool losingPool : ℤ}

/-- The fee of an UpDown settlement is computed when the pot and its product with the rate fit. -/
theorem calculateProtocolFeeUpdown_of_fits {bps : Option ℕ} {model : FeeModel}
    (hcap : FeeCapped bps) (hwinning : 0 ≤ winningPool) (hlosing : 0 ≤ losingPool)
    (hpot : winningPool + losingPool ≤ i128Max)
    (hrate : RateFits bps (winningPool + losingPool)) :
    ∃ dist, calculateProtocolFeeUpdown bps model winningPool losingPool = .ok dist := by
  cases bps with
  | none => exact ⟨_, rfl⟩
  | some rate =>
      cases model with
      | feeOnPot =>
          obtain ⟨hproduct, hdivide, hnonneg, hle⟩ :=
            divide_rate hcap (by omega) hrate .overflow
          simp only [calculateProtocolFeeUpdown]
          rw [payoutAdd_of_fits (by omega) hpot, ok_bind, hproduct, ok_bind, hdivide, ok_bind]
          generalize rateOf (some rate) (winningPool + losingPool) = fee at hnonneg hle ⊢
          split
          · exact ⟨_, rfl⟩
          · rw [checked_of_fits (by omega) (by omega), ok_bind,
              checked_of_fits (by omega) (by omega), ok_bind,
              checked_of_fits (by omega) (by omega), ok_bind]
            exact ⟨_, rfl⟩
      | feeOnWinnings =>
          have hlosingRate : RateFits (some rate) losingPool := by
            intro rate' hrate'
            have hmul : losingPool * (rate' : ℤ) ≤ (winningPool + losingPool) * (rate' : ℤ) :=
              mul_le_mul_of_nonneg_right (by omega) (Int.natCast_nonneg rate')
            exact hmul.trans (hrate rate' hrate')
          obtain ⟨hproduct, hdivide, hnonneg, hle⟩ :=
            divide_rate hcap hlosing hlosingRate .overflow
          simp only [calculateProtocolFeeUpdown]
          rw [hproduct, ok_bind, hdivide, ok_bind]
          generalize rateOf (some rate) losingPool = fee at hnonneg hle ⊢
          split
          · exact ⟨_, rfl⟩
          · rw [checked_of_fits (by omega) (by omega), ok_bind]
            exact ⟨_, rfl⟩

/-- The arithmetic of a competitive UpDown settlement is in range when the pot, its product with
the rate and the products of the winners' stakes with the distributed pot fit. -/
theorem upDownComputes_of_fits {participants : List A} (hbook : UpDownBook rounds round)
    (hcap : FeeCapped terms.protocolFeeBps) (hpool : round.pool side ≠ 0)
    (hpot : round.poolUp + round.poolDown ≤ i128Max)
    (hrate : RateFits terms.protocolFeeBps (round.poolUp + round.poolDown))
    (hproducts : ∀ user ∈ participants, rounds.betOn round.roundId side user = true →
      rounds.stakeOf .upDown round.roundId user * terms.upDownPot round side ≤ i128Max) :
    UpDownComputes terms rounds round side participants := by
  have hsum := round.pool_add_other side
  have hpools := And.intro (hbook.pool_nonneg side) (hbook.pool_nonneg side.other)
  have hbounds := @Terms.upDownFee_bounds _ terms hcap side hpools
  have hpotNonneg : 0 ≤ terms.upDownPot round side ∧
      terms.upDownPot round side ≤ round.poolUp + round.poolDown := by
    unfold Terms.upDownPot
    omega
  obtain ⟨dist, hdist⟩ := @calculateProtocolFeeUpdown_of_fits (round.pool side)
    (round.pool side.other) terms.protocolFeeBps terms.feeModel hcap hpools.1 hpools.2
    (by omega) (by rwa [hsum])
  obtain ⟨-, htotal⟩ := calculateProtocolFeeUpdown_spec hpools hdist
  refine ⟨dist, hdist, ?_, fun user huser position hposition hside => ?_⟩
  · rw [← htotal]
    exact payoutAdd_of_fits (by omega) (by omega)
  · have hamount := hbook.amount_pos user position hposition
    have hproduct := hproducts user huser (by simp [Rounds.betOn, hposition, hside])
    rw [show rounds.stakeOf .upDown round.roundId user = position.amount by
      simp [Rounds.stakeOf, hposition]] at hproduct
    have hnonneg : 0 ≤ position.amount * terms.upDownPot round side :=
      mul_nonneg hamount.le hpotNonneg.1
    have hpos : 0 < round.pool side := lt_of_le_of_ne hpools.1 (Ne.symm hpool)
    rw [computeUpdownWinnerPayout, if_neg hpool, payoutMul_of_fits hnonneg hproduct, ok_bind]
    exact divide_of_fits hnonneg hproduct hpos

end UpDown

/-! ## Precision settlements -/

section Scan

variable {A : Type} [DecidableEq A] {rounds : Rounds A} {roundId finalPrice : ℕ}
  {participants : List A}

omit [DecidableEq A] in
/-- The scan succeeds when the stakes fit together. -/
theorem foldlM_visit_of_fits {scan : PrecisionScan A} (hpot : 0 ≤ scan.totalPot)
    (hstakes : ∀ user ∈ participants, 0 ≤ rounds.stakeOf .precision roundId user)
    (hfits : scan.totalPot + (participants.map (rounds.stakeOf .precision roundId)).sum ≤ i128Max) :
    ∃ last, participants.foldlM (PrecisionScan.visit rounds roundId finalPrice) scan = .ok last := by
  induction participants generalizing scan with
  | nil => exact ⟨scan, rfl⟩
  | cons user rest ih =>
      have hstake := hstakes user List.mem_cons_self
      have hrest : ∀ other ∈ rest, 0 ≤ rounds.stakeOf .precision roundId other :=
        fun other hmem => hstakes other (List.mem_cons_of_mem _ hmem)
      have hsum : 0 ≤ (rest.map (rounds.stakeOf .precision roundId)).sum := by
        refine List.sum_nonneg fun x hx => ?_
        obtain ⟨other, hmem, rfl⟩ := List.mem_map.mp hx
        exact hrest other hmem
      rw [List.map_cons, List.sum_cons] at hfits
      have hvisit : ∃ next, scan.visit rounds roundId finalPrice user = .ok next := by
        have hadd : payoutAdd scan.totalPot (precisionStake rounds roundId user) =
            .ok (scan.totalPot + precisionStake rounds roundId user) :=
          payoutAdd_of_fits (add_nonneg hpot hstake)
            (by show scan.totalPot + rounds.stakeOf .precision roundId user ≤ _; omega)
        simp only [PrecisionScan.visit, hadd, ok_bind]
        split <;> exact ⟨_, rfl⟩
      obtain ⟨next, hnext⟩ := hvisit
      have htotal := (PrecisionScan.visit_spec hnext).2.2.2
      rw [List.foldlM_cons, hnext, ok_bind]
      exact ih (by omega) hrest (by omega)

end Scan

section Fee

variable {terms : Terms} {pot stakes : ℤ}

/-- The fee of a Precision settlement is computed when the pot and its product with the rate
fit. -/
theorem calculateProtocolFeePrecision_of_fits {bps : Option ℕ} {model : FeeModel}
    (hcap : FeeCapped bps) (hstakes : 0 ≤ stakes) (hle : stakes ≤ pot) (hpot : pot ≤ i128Max)
    (hrate : RateFits bps pot) :
    ∃ dist, calculateProtocolFeePrecision bps model pot stakes = .ok dist := by
  cases bps with
  | none => exact ⟨_, rfl⟩
  | some rate =>
      have hbase : ∃ base, precisionTaxableBase model pot stakes = .ok base ∧ 0 ≤ base ∧
          base ≤ pot := by
        cases model with
        | feeOnPot => exact ⟨pot, rfl, by omega, le_rfl⟩
        | feeOnWinnings =>
            exact ⟨pot - stakes, checked_of_fits (by omega) (by omega), by omega, by omega⟩
      obtain ⟨base, htaxable, hnonneg, hbasePot⟩ := hbase
      simp only [calculateProtocolFeePrecision]
      split
      · exact ⟨_, rfl⟩
      · rw [htaxable, ok_bind]
        split
        · exact ⟨_, rfl⟩
        · have hbaseRate : RateFits (some rate) base := by
            intro rate' hrate'
            have hmul : base * (rate' : ℤ) ≤ pot * (rate' : ℤ) :=
              mul_le_mul_of_nonneg_right hbasePot (Int.natCast_nonneg rate')
            exact hmul.trans (hrate rate' hrate')
          obtain ⟨hproduct, hdivide, hfee, hfeeLe⟩ :=
            divide_rate hcap hnonneg hbaseRate .overflow
          rw [hproduct, ok_bind, hdivide, ok_bind]
          generalize rateOf (some rate) base = fee at hfee hfeeLe ⊢
          split
          · exact ⟨_, rfl⟩
          · rw [checked_of_fits (by omega) (by omega), ok_bind]
            exact ⟨_, rfl⟩

end Fee

section Split

variable {policy : PrecisionPayoutPolicy} {pool : ℤ} {stakes : List ℤ}

/-- A loop that pushes one share for each item succeeds when the shares fit together. -/
theorem foldlM_payOne {α : Type} {items : List α} {share : α → ℤ}
    {pay : List ℤ × ℤ → α → Except Failure (List ℤ × ℤ)} {start : List ℤ × ℤ}
    (hpay : ∀ item ∈ items, ∀ paid, pay paid item = payOne paid (share item))
    (hnonneg : ∀ item ∈ items, 0 ≤ share item) (hstart : 0 ≤ start.2)
    (hfits : start.2 + (items.map share).sum ≤ i128Max) :
    items.foldlM pay start = .ok (start.1 ++ items.map share,
      start.2 + (items.map share).sum) := by
  induction items generalizing start with
  | nil => simp [pure, Except.pure]
  | cons item rest ih =>
      have hshare := hnonneg item List.mem_cons_self
      have hrest : ∀ other ∈ rest, 0 ≤ share other :=
        fun other hmem => hnonneg other (List.mem_cons_of_mem _ hmem)
      have hsum : 0 ≤ (rest.map share).sum := by
        refine List.sum_nonneg fun x hx => ?_
        obtain ⟨other, hmem, rfl⟩ := List.mem_map.mp hx
        exact hrest other hmem
      rw [List.map_cons, List.sum_cons] at hfits ⊢
      have hfirst : pay start item = .ok (start.1 ++ [share item], start.2 + share item) := by
        rw [hpay item List.mem_cons_self, payOne, payoutAdd_of_fits (by omega) (by omega), ok_bind]
        rfl
      rw [List.foldlM_cons, hfirst, ok_bind,
        ih (fun other hmem => hpay other (List.mem_cons_of_mem _ hmem)) hrest
          (by simp only; omega) (by simp only; omega)]
      simp [add_assoc]

/-- The products of the stakes and the pool fit, where the policy multiplies them. -/
def ProductsFit (policy : PrecisionPayoutPolicy) (pool : ℤ) (stakes : List ℤ) : Prop :=
  policy = .stakeWeighted → ∀ stake ∈ stakes, stake * pool ≤ i128Max

/-- The loop of a stake-weighted split pushes the shares. -/
theorem foldlM_stakeWeighted {α : Type} {items : List α} {amount : α → ℤ}
    (hne : items ≠ []) (hstakes : ∀ item ∈ items, 0 < amount item) (hpool : 0 ≤ pool)
    (hfits : pool ≤ i128Max) (hproducts : ∀ item ∈ items, amount item * pool ≤ i128Max) :
    items.foldlM (fun paid item => do
        let product ← payoutMul (amount item) pool
        let payout ← divide product (items.map amount).sum
        payOne paid payout) ([], 0) =
      .ok (PrecisionPayoutPolicy.shares .stakeWeighted pool (items.map amount),
        (PrecisionPayoutPolicy.shares .stakeWeighted pool (items.map amount)).sum) := by
  have hpositive : ∀ stake ∈ items.map amount, 0 < stake := by
    intro stake hstake
    obtain ⟨item, hmem, rfl⟩ := List.mem_map.mp hstake
    exact hstakes item hmem
  have htotal : 0 < (items.map amount).sum := List.sum_pos _ hpositive (by simpa using hne)
  have hshares : PrecisionPayoutPolicy.shares .stakeWeighted pool (items.map amount) =
      items.map fun item => Apportion.share pool (items.map amount).sum (amount item) := by
    simp [PrecisionPayoutPolicy.shares, PrecisionPayoutPolicy.share, Function.comp_def]
  have hle := @sum_policyShares_le .stakeWeighted pool (items.map amount) hpool hpositive
  rw [hshares] at hle ⊢
  have hloop := @foldlM_payOne _ items
    (fun item => Apportion.share pool (items.map amount).sum (amount item))
    (fun paid item => do
        let product ← payoutMul (amount item) pool
        let payout ← divide product (items.map amount).sum
        payOne paid payout) ([], 0) ?_ ?_ le_rfl (by simp only; omega)
  · simpa using hloop
  · intro item hmem paid
    have hproduct : 0 ≤ amount item * pool := mul_nonneg (hstakes item hmem).le hpool
    rw [payoutMul_of_fits hproduct (hproducts item hmem), ok_bind,
      divide_of_fits hproduct (hproducts item hmem) htotal, ok_bind]
    rfl
  · intro item hmem
    exact Apportion.share_nonneg hpool htotal.le (hstakes item hmem).le

/-- Giving the remainder of the pool to the first share succeeds when the pool fits. -/
theorem giveRemainder_of_fits {shares : List ℤ} (hnonneg : ∀ share ∈ shares, 0 ≤ share)
    (hle : shares.sum ≤ pool) (hfits : pool ≤ i128Max) :
    giveRemainder (pool - shares.sum) shares = .ok (withRemainder pool shares) := by
  cases shares with
  | nil => rfl
  | cons first rest =>
      have hfirst := hnonneg first List.mem_cons_self
      have hrest := List.sum_nonneg fun x hx => hnonneg x (List.mem_cons_of_mem _ hx)
      rw [List.sum_cons] at hle ⊢
      rw [giveRemainder, payoutAdd_of_fits (by omega) (by omega), ok_bind]
      simp [withRemainder, pure, Except.pure]

variable {A : Type} {winners : List (PrecisionPrediction A)} (hne : winners ≠ [])
  (hpos : ∀ winner ∈ winners, 0 < winner.amount) (hpool : 0 ≤ pool) (hfits : pool ≤ i128Max)
  (hsum : (winners.map (·.amount)).sum ≤ i128Max)
include hpos hsum

/-- The sum of the winners' stakes is computed when it fits. -/
theorem winnerStakes_of_fits :
    winnerStakes winners = .ok (winners.map (·.amount)).sum := by
  have hadd := @foldlM_payoutAdd (winners.map (·.amount)) 0 le_rfl ?_ (by simpa using hsum)
  · rw [List.foldlM_map, zero_add] at hadd
    exact hadd
  · intro amount hamount
    obtain ⟨winner, hmem, rfl⟩ := List.mem_map.mp hamount
    exact (hpos winner hmem).le

variable (hproducts : ProductsFit policy pool (winners.map (·.amount)))
include hne hpool hfits hproducts

/-- The split of a policy is computed when the amounts fit. -/
theorem splitPool_of_fits : splitPool policy winners pool =
    .ok (policy.shares pool (winners.map (·.amount)),
      (policy.shares pool (winners.map (·.amount))).sum) := by
  have hpositive : ∀ stake ∈ winners.map (·.amount), 0 < stake := by
    intro stake hstake
    obtain ⟨winner, hmem, rfl⟩ := List.mem_map.mp hstake
    exact hpos winner hmem
  have hlength : 0 < winners.length := List.length_pos_iff.mpr hne
  cases policy with
  | equal =>
      have hle := @sum_policyShares_le .equal pool _ hpool hpositive
      have hshares : PrecisionPayoutPolicy.shares .equal pool (winners.map (·.amount)) =
          winners.map fun _ => pool / (winners.length : ℤ) := by
        simp [PrecisionPayoutPolicy.shares, PrecisionPayoutPolicy.share, Function.comp_def]
      rw [hshares] at hle ⊢
      simp only [splitPool, equalPayouts]
      rw [if_pos hlength, divide_of_fits hpool hfits (by omega), ok_bind,
        @foldlM_payOne _ winners (fun _ => pool / (winners.length : ℤ)) _ _
          (fun _ _ _ => rfl) (fun _ _ => Int.ediv_nonneg hpool (by omega)) le_rfl
          (by simp only; omega)]
      simp
  | stakeWeighted =>
      have htotal : (winners.map (·.amount)).sum > 0 :=
        List.sum_pos _ hpositive (by simpa using hne)
      simp only [splitPool, stakeWeightedPayouts]
      rw [winnerStakes_of_fits hpos hsum, ok_bind, if_pos htotal]
      refine foldlM_stakeWeighted hne hpos hpool hfits fun winner hmem => ?_
      exact hproducts rfl _ (List.mem_map_of_mem hmem)

/-- The payouts of the winners are computed when the amounts fit. -/
theorem calculatePrecisionPayouts_of_fits :
    calculatePrecisionPayouts policy winners pool =
      .ok (policy.payouts pool (winners.map (·.amount))) := by
  have hpositive : ∀ stake ∈ winners.map (·.amount), 0 < stake := by
    intro stake hstake
    obtain ⟨winner, hmem, rfl⟩ := List.mem_map.mp hstake
    exact hpos winner hmem
  have hle := @sum_policyShares_le policy pool _ hpool hpositive
  have hnonneg : ∀ share ∈ policy.shares pool (winners.map (·.amount)), 0 ≤ share :=
    fun share => shares_nonneg hpool hpositive
  have htotal := List.sum_nonneg hnonneg
  rw [calculatePrecisionPayouts, splitPool_of_fits hne hpos hpool hfits hsum hproducts, ok_bind,
    checked_of_fits (by omega) (by omega), ok_bind]
  exact giveRemainder_of_fits hnonneg hle hfits

end Split

end XelmaMarket
