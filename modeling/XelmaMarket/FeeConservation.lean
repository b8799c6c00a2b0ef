import XelmaMarket.HarnessEnds
import XelmaMarket.Lib.Traverse
import XelmaMarket.Treasury

/-!
# Fee conservation

The settlements of the reference model for both modes and both fee models, and the conservation
checks of the property tests. Every end of a round pays what the reference computes for it, passes
its check, and credits nobody but those the settlement pays.
-/

namespace XelmaMarket

open Transaction

/-! ## Reference settlements -/

/-- `FEE_MODEL_ON_POT`. -/
def feeModelOnPot : ℕ := 0

/-- `FEE_MODEL_ON_WINNINGS`. -/
def feeModelOnWinnings : ℕ := 1

/-- The protocol fee on a taxable base; a base that is not positive is not taxed. -/
def computeFeeWithModel (taxableBase : ℤ) (feeBps : Option ℕ) : Except Failure ℤ :=
  match feeBps with
  | none | some 0 => return 0
  | some bps =>
      if taxableBase ≤ 0 then
        return 0
      else do
        let product ← plain (taxableBase * bps)
        divide product bpsDenominator

/-- The fee of an UpDown settlement. -/
def refUpdownFee (winningPool losingPool : ℤ) (feeBps : Option ℕ) (feeModel : ℕ) :
    Except Failure ℤ := do
  let pot ← plain (winningPool + losingPool)
  if feeModel = feeModelOnWinnings then
    computeFeeWithModel losingPool feeBps
  else
    computeFee pot feeBps

/-- What the winners share: a fee on the winnings comes out of the losing pool, a fee on the pot out
of the losing pool first. -/
def refUpdownDistributable (winningPool losingPool fee : ℤ) (feeModel : ℕ) :
    Except Failure ℤ :=
  if feeModel = feeModelOnWinnings then do
    let distLosing ← plain (losingPool - fee)
    plain (winningPool + distLosing)
  else do
    let feeFromLosing := min fee losingPool
    let feeFromWinning ← plain (fee - feeFromLosing)
    let distWinning ← plain (winningPool - feeFromWinning)
    let distLosing ← plain (losingPool - feeFromLosing)
    plain (distWinning + distLosing)

/-- The sum of the payouts and the fee of an UpDown settlement. -/
def refUpdownSettleWithModel (winningPool losingPool : ℤ) (winnerStakes : List ℤ)
    (feeBps : Option ℕ) (feeModel : ℕ) : Except Failure (ℤ × ℤ) :=
  if winningPool = 0 ∨ winnerStakes = [] then
    return (0, 0)
  else do
    let fee ← refUpdownFee winningPool losingPool feeBps feeModel
    let totalDistributable ← refUpdownDistributable winningPool losingPool fee feeModel
    let payouts ← winnerStakes.mapM fun stake => do
      let product ← plain (stake * totalDistributable)
      divide product winningPool
    let sumPayouts ← sumPlain payouts
    return (sumPayouts, fee)

/-- The fee of a Precision settlement. -/
def refPrecisionFee (totalPot winnerStakes : ℤ) (feeBps : Option ℕ) (feeModel : ℕ) :
    Except Failure ℤ :=
  if feeModel = feeModelOnWinnings then
    let profit := saturatingSub totalPot winnerStakes
    if profit ≤ 0 then return 0 else computeFeeWithModel profit feeBps
  else
    computeFee totalPot feeBps

/-- The sum of the payouts and the fee of a Precision settlement. -/
def refPrecisionSettleWithModel (totalPot winnerCount winnerStakes : ℤ) (feeBps : Option ℕ)
    (feeModel : ℕ) : Except Failure (ℤ × ℤ) :=
  if winnerCount = 0 ∨ totalPot ≤ 0 then
    return (0, 0)
  else do
    let fee ← refPrecisionFee totalPot winnerStakes feeBps feeModel
    let distributable ← plain (totalPot - fee)
    return (distributable, fee)

/-- The sum of the refunds of a round, without a fee. -/
def refRefundSettle (stakes : List ℤ) : Except Failure (ℤ × ℤ) := do
  let total ← sumPlain stakes
  return (total, 0)

/-! ## Conservation checks -/

/-- An assertion, which traps when it fails. -/
def assertHolds (claim : Prop) [Decidable claim] : Except Failure PUnit :=
  if claim then return ⟨⟩ else .error .trap

theorem assertHolds_of {claim : Prop} [Decidable claim] (hclaim : claim) :
    assertHolds claim = .ok ⟨⟩ :=
  if_pos hclaim

section Checks

variable (payouts treasuryBefore treasuryAfter totalPot : ℤ)

/-- Payouts and fee of a Precision settlement are the pot. -/
def assertPrecisionFeeConservation : Except Failure PUnit := do
  let treasuryDelta ← plain (treasuryAfter - treasuryBefore)
  let conserved ← plain (payouts + treasuryDelta)
  assertHolds (conserved = totalPot)

/-- Payouts and fee of an UpDown settlement are the pot, but for one unit a winner after the
first. -/
def assertUpdownFeeConservation (winnerCount : ℤ) : Except Failure PUnit := do
  let treasuryDelta ← plain (treasuryAfter - treasuryBefore)
  let conserved ← plain (payouts + treasuryDelta)
  let slack := max (saturatingSub winnerCount 1) 0
  assertHolds (conserved ≤ totalPot)
  let least ← plain (totalPot - slack)
  assertHolds (least ≤ conserved)

/-- The refunds are the pot, and the treasury does not move. -/
def assertRefundFeeConservation : Except Failure PUnit := do
  let treasuryDelta ← plain (treasuryAfter - treasuryBefore)
  assertHolds (treasuryDelta = 0)
  assertHolds (payouts = totalPot)

variable {payouts treasuryBefore treasuryAfter totalPot}
variable {fee : ℤ} (hdelta : treasuryAfter - treasuryBefore = fee)
  (hbounds : 0 ≤ payouts ∧ 0 ≤ fee ∧ payouts + fee ≤ totalPot ∧ totalPot ≤ supplyLimit)
include hdelta hbounds

/-- The accounts of a settlement are amounts. -/
theorem plain_of_conserved :
    plain (treasuryAfter - treasuryBefore) = .ok fee ∧
      plain (payouts + fee) = .ok (payouts + fee) := by
  obtain ⟨hpayouts, hfee, hpot, hlimit⟩ := hbounds
  rw [hdelta]
  exact ⟨plain_of_isAmount (isAmount_of_supply hfee (by omega)),
    plain_of_isAmount (isAmount_of_supply (by omega) (by omega))⟩

theorem assertPrecisionFeeConservation_of (hexact : payouts + fee = totalPot) :
    assertPrecisionFeeConservation payouts treasuryBefore treasuryAfter totalPot = .ok ⟨⟩ := by
  obtain ⟨hmoved, hconserved⟩ := plain_of_conserved hdelta hbounds
  unfold assertPrecisionFeeConservation
  rw [hmoved, ok_bind, hconserved, ok_bind]
  exact assertHolds_of hexact

theorem assertRefundFeeConservation_of (hfree : fee = 0) (hexact : payouts = totalPot) :
    assertRefundFeeConservation payouts treasuryBefore treasuryAfter totalPot = .ok ⟨⟩ := by
  obtain ⟨hmoved, -⟩ := plain_of_conserved hdelta hbounds
  unfold assertRefundFeeConservation
  rw [hmoved, ok_bind, assertHolds_of hfree, ok_bind]
  exact assertHolds_of hexact

theorem assertUpdownFeeConservation_of {winners : ℕ}
    (hlost : totalPot ≤ payouts + fee + max ((winners : ℤ) - 1) 0) :
    assertUpdownFeeConservation payouts treasuryBefore treasuryAfter totalPot winners =
      .ok ⟨⟩ := by
  obtain ⟨hmoved, hconserved⟩ := plain_of_conserved hdelta hbounds
  obtain ⟨hpayouts, hfee, hpot, hlimit⟩ := hbounds
  have hslack : saturatingSub winners 1 = min i128Max ((winners : ℤ) - 1) := by
    unfold saturatingSub i128Min i128Max
    omega
  have hroom := supplyLimit_room.2
  have hleast : IsAmount (totalPot - max (min i128Max ((winners : ℤ) - 1)) 0) := by
    unfold IsAmount i128Min
    unfold i128Max at hroom ⊢
    omega
  unfold assertUpdownFeeConservation
  rw [hmoved, ok_bind, hconserved, ok_bind, hslack]
  show (do
    assertHolds (payouts + fee ≤ totalPot)
    let least ← plain (totalPot - max (min i128Max ((winners : ℤ) - 1)) 0)
    assertHolds (least ≤ payouts + fee)) = _
  rw [assertHolds_of hpot, ok_bind, plain_of_isAmount hleast, ok_bind]
  refine assertHolds_of ?_
  omega

end Checks

/-! ## The reference on the contract's terms -/

/-- The fee of the reference is the rate of the base. -/
theorem computeFeeWithModel_eq {base : ℤ} {bps : Option ℕ} (hbase : 0 ≤ base ∧ base ≤ supplyLimit)
    (hcap : FeeCapped bps) : computeFeeWithModel base bps = .ok (rateOf bps base) := by
  rw [← computeFee_eq hbase hcap]
  rcases bps with - | - | rate
  · rfl
  · rfl
  · by_cases hzero : base ≤ 0
    · obtain rfl : base = 0 := le_antisymm hzero hbase.1
      rw [computeFee_eq hbase hcap]
      show Except.ok 0 = Except.ok (0 * ((rate + 1 : ℕ) : ℤ) / bpsDenominator)
      simp
    · exact if_neg hzero

/-- The reference takes the fee of the terms. -/
theorem refUpdownFee_eq {terms : Terms} {round : Round} {side : BetSide}
    (hcap : FeeCapped terms.protocolFeeBps)
    (hpools : 0 ≤ round.pool side ∧ 0 ≤ round.pool side.other)
    (hlimit : round.poolUp + round.poolDown ≤ supplyLimit) :
    refUpdownFee (round.pool side) (round.pool side.other) terms.protocolFeeBps
      terms.feeModel.value = .ok (terms.upDownFee round side) := by
  have hsum := round.pool_add_other side
  have hpot : plain (round.pool side + round.pool side.other) = .ok _ :=
    plain_of_isAmount (isAmount_of_supply (by omega) (by omega))
  unfold refUpdownFee Terms.upDownFee
  rw [hpot, ok_bind, hsum]
  cases terms.feeModel with
  | feeOnPot => exact computeFee_eq ⟨by omega, hlimit⟩ hcap
  | feeOnWinnings => exact computeFeeWithModel_eq ⟨hpools.2, by omega⟩ hcap

/-- The winners share the pools less the fee, whichever pool the fee comes out of. -/
theorem refUpdownDistributable_eq {winningPool losingPool fee : ℤ} (feeModel : ℕ)
    (hpools : 0 ≤ winningPool ∧ 0 ≤ losingPool) (hlimit : winningPool + losingPool ≤ supplyLimit)
    (hfee : 0 ≤ fee ∧ fee ≤ winningPool + losingPool) :
    refUpdownDistributable winningPool losingPool fee feeModel =
      .ok (winningPool + losingPool - fee) := by
  have hroom := supplyLimit_room
  have hamount : ∀ x : ℤ, -supplyLimit ≤ x → x ≤ supplyLimit → plain x = .ok x := by
    intro x hlow hhigh
    refine plain_of_isAmount ⟨?_, by omega⟩
    exact le_trans (by decide) hlow
  unfold refUpdownDistributable
  split_ifs
  · rw [hamount (losingPool - fee) (by omega) (by omega), ok_bind,
      hamount _ (by omega) (by omega), add_sub_assoc]
  · have hsum : winningPool - (fee - min fee losingPool) + (losingPool - min fee losingPool) =
        winningPool + losingPool - fee := by ring
    show (do
      let feeFromWinning ← plain (fee - min fee losingPool)
      let distWinning ← plain (winningPool - feeFromWinning)
      let distLosing ← plain (losingPool - min fee losingPool)
      plain (distWinning + distLosing)) = _
    rw [hamount (fee - min fee losingPool) (by omega) (by omega), ok_bind,
      hamount (winningPool - _) (by omega) (by omega), ok_bind,
      hamount (losingPool - _) (by omega) (by omega), ok_bind, hsum,
      hamount _ (by omega) (by omega)]

/-- What the reference pays the winners of an UpDown round, where the products fit. -/
theorem refUpdownSettleWithModel_eq {winningPool losingPool fee : ℤ} {stakes : List ℤ}
    {feeBps : Option ℕ} {feeModel : ℕ} (hpools : 0 < winningPool ∧ 0 ≤ losingPool)
    (hlimit : winningPool + losingPool ≤ supplyLimit)
    (hstakes : ∀ stake ∈ stakes, 0 ≤ stake) (hsum : stakes.sum = winningPool)
    (hfee : refUpdownFee winningPool losingPool feeBps feeModel = .ok fee)
    (hbounds : 0 ≤ fee ∧ fee ≤ winningPool + losingPool)
    (hproducts : ∀ stake ∈ stakes, stake * (winningPool + losingPool - fee) ≤ i128Max) :
    refUpdownSettleWithModel winningPool losingPool stakes feeBps feeModel =
      .ok ((Apportion.shares (winningPool + losingPool - fee) winningPool stakes).sum, fee) := by
  have hne : ¬ (winningPool = 0 ∨ stakes = []) := by
    rintro (hzero | rfl)
    · exact hpools.1.ne' hzero
    · exact hpools.1.ne hsum
  have hpot : 0 ≤ winningPool + losingPool - fee := by omega
  have hpayouts := @Traverse.mapM_eq_ok Failure _ _ (fun stake => do
      let product ← plain (stake * (winningPool + losingPool - fee))
      divide product winningPool) stakes
    (Apportion.share (winningPool + losingPool - fee) winningPool) (fun stake hstake => by
      have hnonneg := mul_nonneg (hstakes stake hstake) hpot
      have hfits := hproducts stake hstake
      rw [plain_of_isAmount ⟨le_trans (by decide) hnonneg, hfits⟩, ok_bind]
      exact divide_of_fits hnonneg hfits hpools.1)
  have hsums : AddUpFrom 0
      (Apportion.shares (winningPool + losingPool - fee) winningPool stakes) := by
    refine addUpFrom_of_nonneg le_rfl (fun payout hpayout => ?_) ?_
    · obtain ⟨stake, hstake, rfl⟩ := List.mem_map.mp hpayout
      exact Apportion.share_nonneg hpot hpools.1.le (hstakes stake hstake)
    · have hle : (Apportion.shares (winningPool + losingPool - fee) winningPool stakes).sum ≤
          winningPool + losingPool - fee := Apportion.sum_shares_le hpools.1 hsum
      have hroom := supplyLimit_room.2
      omega
  unfold refUpdownSettleWithModel
  rw [if_neg hne, hfee, ok_bind, refUpdownDistributable_eq feeModel ⟨hpools.1.le, hpools.2⟩ hlimit
    hbounds, ok_bind, hpayouts, ok_bind]
  show (do
    let sumPayouts ← sumPlain
      (Apportion.shares (winningPool + losingPool - fee) winningPool stakes)
    return (sumPayouts, fee)) = _
  rw [sumPlain_of_addUp hsums]
  rfl

/-- The reference takes the fee of the terms. -/
theorem refPrecisionFee_eq {terms : Terms} {pot winnerStakes : ℤ}
    (hcap : FeeCapped terms.protocolFeeBps) (hlimit : pot ≤ supplyLimit)
    (hwinners : 0 ≤ winnerStakes ∧ winnerStakes ≤ pot) :
    refPrecisionFee pot winnerStakes terms.protocolFeeBps terms.feeModel.value =
      .ok (terms.precisionFee pot winnerStakes) := by
  have hprofit : saturatingSub pot winnerStakes = pot - winnerStakes := by
    have hroom := supplyLimit_room
    unfold saturatingSub
    omega
  unfold refPrecisionFee Terms.precisionFee
  rw [hprofit]
  cases terms.feeModel with
  | feeOnPot => exact computeFee_eq ⟨by omega, hlimit⟩ hcap
  | feeOnWinnings =>
      show (if pot - winnerStakes ≤ 0 then return 0
        else computeFeeWithModel (pot - winnerStakes) terms.protocolFeeBps) = _
      split_ifs with hzero
      · -- the winners staked the whole pot
        obtain rfl : pot = winnerStakes := by omega
        show Except.ok 0 = Except.ok (rateOf terms.protocolFeeBps (pot - pot))
        rw [sub_self]
        cases terms.protocolFeeBps <;> simp [rateOf]
      · exact computeFeeWithModel_eq ⟨by omega, by omega⟩ hcap

/-- The reference pays a Precision pot less the fee of the terms. -/
theorem refPrecisionSettleWithModel_eq {terms : Terms} {pot winnerStakes : ℤ} {count : ℕ}
    (hcap : FeeCapped terms.protocolFeeBps) (hcount : count ≠ 0)
    (hpot : 0 < pot ∧ pot ≤ supplyLimit) (hwinners : 0 ≤ winnerStakes ∧ winnerStakes ≤ pot) :
    refPrecisionSettleWithModel pot count winnerStakes terms.protocolFeeBps
      terms.feeModel.value =
        .ok (pot - terms.precisionFee pot winnerStakes, terms.precisionFee pot winnerStakes) := by
  have hne : ¬ ((count : ℤ) = 0 ∨ pot ≤ 0) := by omega
  have hbounds := Terms.precisionFee_bounds hcap hwinners.1 hwinners.2
  have hrest : plain (pot - terms.precisionFee pot winnerStakes) = .ok _ :=
    plain_of_isAmount (isAmount_of_supply (by omega) (by omega))
  unfold refPrecisionSettleWithModel
  rw [if_neg hne, refPrecisionFee_eq hcap hpot.2 hwinners, ok_bind, hrest]
  rfl

/-- Stakes that add up are refunded. -/
theorem refRefundSettle_eq {stakes : List ℤ} (hstakes : ∀ stake ∈ stakes, 0 ≤ stake)
    (hlimit : stakes.sum ≤ supplyLimit) : refRefundSettle stakes = .ok (stakes.sum, 0) := by
  have hsums : AddUpFrom 0 stakes := by
    have hroom := supplyLimit_room.2
    have hnonneg := List.sum_nonneg hstakes
    exact addUpFrom_of_nonneg le_rfl hstakes (by omega)
  unfold refRefundSettle
  rw [sumPlain_of_addUp hsums]
  rfl

/-! ## Settlement paths -/

section Paths

variable {A : Type} [LinearOrder A]

/-- How the end of a round settles it: every stake goes back, the bets on a side win, or the
closest predictions win. -/
inductive SettlementPath (A : Type) where
  | refund
  | upDown (side : BetSide)
  | precision (winners : List A)

/-- The path of an ending. -/
def Ending.path (ending : Ending) (rounds : Rounds A) : SettlementPath A :=
  let round := ending.round
  match ending.kind.price with
  | none => .refund
  | some finalPrice =>
      match round.mode with
      | .upDown =>
          if round.refundsAt finalPrice then .refund else .upDown (round.winningSide finalPrice)
      | .precision =>
          let winners := rounds.winners round.roundId finalPrice
            (sortAddresses (rounds.participants round.roundId))
          if winners = [] then .refund else .precision winners

/-- The users a path pays. -/
def SettlementPath.winners (path : SettlementPath A) (rounds : Rounds A) (round : Round) :
    List A :=
  let participants := sortAddresses (rounds.participants round.roundId)
  match path with
  | .refund => participants
  | .upDown side => participants.filter fun user => rounds.betOn round.roundId side user
  | .precision winners => winners

/-- The reference settlement of a path. -/
def SettlementPath.reference (path : SettlementPath A) (terms : Terms) (rounds : Rounds A)
    (round : Round) : Except Failure (ℤ × ℤ) :=
  let stakes := (path.winners rounds round).map (rounds.stakeOf round.mode round.roundId)
  match path with
  | .refund => refRefundSettle stakes
  | .upDown side =>
      refUpdownSettleWithModel (round.pool side) (round.pool side.other) stakes
        terms.protocolFeeBps terms.feeModel.value
  | .precision winners =>
      refPrecisionSettleWithModel (rounds.totalStake round.mode round.roundId) winners.length
        stakes.sum terms.protocolFeeBps terms.feeModel.value

/-- The conservation check of a path. -/
def SettlementPath.check (path : SettlementPath A) (rounds : Rounds A) (round : Round)
    (payouts treasuryBefore treasuryAfter : ℤ) : Except Failure PUnit :=
  let totalPot := rounds.totalStake round.mode round.roundId
  match path with
  | .refund => assertRefundFeeConservation payouts treasuryBefore treasuryAfter totalPot
  | .upDown _ =>
      assertUpdownFeeConservation payouts treasuryBefore treasuryAfter totalPot
        (path.winners rounds round).length
  | .precision _ =>
      assertPrecisionFeeConservation payouts treasuryBefore treasuryAfter totalPot

/-- A plan carries out a path: it pays what the reference computes, passes the check, and pays
nobody but those the path pays. -/
structure SettlementPath.CarriedOut (path : SettlementPath A) (terms : Terms) (rounds : Rounds A)
    (round : Round) (plan : Plan A) : Prop where
  reference : path.reference terms rounds round = .ok (plan.paid, plan.fee)
  check : ∀ before after, after - before = plan.fee →
    path.check rounds round plan.paid before after = .ok ⟨⟩
  free : path = .refund → plan.fee = 0
  unpaid : ∀ record ∈ plan.records, record.user ∉ path.winners rounds round → record.payout = 0

variable {rounds : Rounds A} {round : Round} {terms : Terms}
  (hbook : Represents rounds round)
  (hlimit : rounds.totalStake round.mode round.roundId ≤ supplyLimit)
include hbook hlimit

/-- Paying every stake back carries out a refund. -/
theorem SettlementPath.refund_carriedOut {participants : List A} (price : A → ℕ)
    (outcome : UserOutcomeType)
    (hparticipants : participants.Perm (rounds.participants round.roundId)) :
    SettlementPath.CarriedOut .refund terms rounds round
      ⟨0, rounds.refundRecords round price outcome participants⟩ := by
  have hpaid := @paid_refund _ rounds round _ price outcome hparticipants
  have hsum : ((sortAddresses (rounds.participants round.roundId)).map
      (rounds.stakeOf round.mode round.roundId)).sum =
        rounds.totalStake round.mode round.roundId :=
    ((sortAddresses_perm _).map _).sum_eq
  have hnonneg := hbook.totalStake_nonneg
  refine ⟨?_, fun before after hdelta => ?_, fun _ => rfl, fun record hrecord hother => ?_⟩
  · show refRefundSettle ((sortAddresses (rounds.participants round.roundId)).map
      (rounds.stakeOf round.mode round.roundId)) = _
    rw [refRefundSettle_eq (fun stake hstake => ?_) (by omega), hsum, hpaid]
    obtain ⟨user, huser, rfl⟩ := List.mem_map.mp hstake
    exact (hbook.stake_pos (mem_sortAddresses.mp huser)).le
  · exact assertRefundFeeConservation_of hdelta
      ⟨hpaid ▸ hnonneg, le_rfl, by rw [hpaid, add_zero], hlimit⟩ rfl hpaid
  · obtain ⟨user, huser, rfl⟩ := List.mem_map.mp hrecord
    rw [outcomeRecord_user] at hother
    exact absurd (mem_sortAddresses.mpr (hparticipants.mem_iff.mp huser)) hother

variable (hcap : FeeCapped terms.protocolFeeBps)
include hcap

/-- A Precision settlement with a winner carries out its path. -/
theorem SettlementPath.precision_carriedOut {finalPrice : ℕ} {winners : List A}
    (hmode : round.mode = .precision)
    (hwinners : rounds.winners round.roundId finalPrice
      (sortAddresses (rounds.participants round.roundId)) = winners) (hne : winners ≠ []) :
    SettlementPath.CarriedOut (.precision winners) terms rounds round
      (terms.plan rounds round finalPrice) := by
  subst hwinners
  have hperm := sortAddresses_perm (rounds.participants round.roundId)
  have hplan : terms.plan rounds round finalPrice =
      terms.precisionPlan rounds round finalPrice
        (sortAddresses (rounds.participants round.roundId)) := by
    unfold Terms.plan
    rw [hmode]
  obtain ⟨hsound, hexact⟩ := @sound_precision _ _ _ terms finalPrice _ hbook hmode hcap hperm
  rw [← hplan] at hsound hexact
  have hstaked : ∀ user ∈ sortAddresses (rounds.participants round.roundId),
      0 < rounds.stakeOf .precision round.roundId user :=
    fun user huser => precision_stake_pos hbook hmode hperm huser
  have hfee : (terms.plan rounds round finalPrice).fee = terms.precisionFee
      (rounds.totalStake round.mode round.roundId)
      (rounds.stakesOf round.roundId (rounds.winners round.roundId finalPrice
        (sortAddresses (rounds.participants round.roundId)))) := by
    rw [hplan, Terms.precisionPlan, if_neg hne, sum_precision_stakes hmode hperm]
  have hwinners : 0 ≤ rounds.stakesOf round.roundId (rounds.winners round.roundId finalPrice
        (sortAddresses (rounds.participants round.roundId))) ∧
      rounds.stakesOf round.roundId (rounds.winners round.roundId finalPrice
        (sortAddresses (rounds.participants round.roundId))) ≤
          rounds.totalStake round.mode round.roundId := by
    constructor
    · refine List.sum_nonneg fun stake hstake => ?_
      obtain ⟨user, huser, rfl⟩ := List.mem_map.mp hstake
      exact (hstaked user (List.mem_filter.mp huser).1).le
    · rw [← sum_precision_stakes hmode hperm]
      exact stakesOf_winners_le hstaked
  have hpot : 0 < rounds.totalStake round.mode round.roundId := by
    refine hbook.totalStake_pos fun hempty => hne ?_
    rw [hempty]
    rfl
  have hpaid : 0 ≤ (terms.plan rounds round finalPrice).paid := by
    have hbounds := Terms.precisionFee_bounds hcap hwinners.1 hwinners.2
    omega
  refine ⟨?_, fun before after hdelta => ?_, by simp, fun record hrecord hother => ?_⟩
  · have hsettle := refPrecisionSettleWithModel_eq hcap (List.length_pos_of_ne_nil hne).ne'
      ⟨hpot, hlimit⟩ hwinners
    rw [← hfee, ← hexact, add_sub_cancel_right, hexact] at hsettle
    show refPrecisionSettleWithModel _ _ ((rounds.winners round.roundId finalPrice
      (sortAddresses (rounds.participants round.roundId))).map
        (rounds.stakeOf round.mode round.roundId)).sum _ _ = _
    rw [hmode] at hsettle ⊢
    exact hsettle
  · exact assertPrecisionFeeConservation_of hdelta ⟨hpaid, hsound.fee_nonneg, by omega, hlimit⟩
      hexact
  · rw [hplan, Terms.precisionPlan, if_neg hne] at hrecord
    rcases List.mem_append.mp hrecord with hwon | hlost
    · exact absurd (mem_winRecords hwon).2.1 hother
    · obtain ⟨user, -, rfl⟩ := List.mem_map.mp hlost
      exact outcomeRecord_payout ..

section UpDown

variable {finalPrice : ℕ} (hmode : round.mode = .upDown)
  (hrefund : ¬ round.refundsAt finalPrice)
include hmode hrefund

omit hbook hlimit hcap in
theorem Terms.plan_upDown : terms.plan rounds round finalPrice =
    ⟨terms.upDownFee round (round.winningSide finalPrice),
      (sortAddresses (rounds.participants round.roundId)).map
        (terms.upDownRecord rounds round (round.winningSide finalPrice))⟩ := by
  unfold Terms.plan
  rw [hmode]
  simp only [Terms.upDownPlan, if_neg hrefund]

omit hbook hlimit hcap hrefund in
/-- The reference settles the pools and the stakes on the winning side. -/
theorem SettlementPath.upDown_reference (side : BetSide) :
    (SettlementPath.upDown side).reference terms rounds round =
      refUpdownSettleWithModel (round.pool side) (round.pool side.other)
        (rounds.sideStakes round.roundId side
          (sortAddresses (rounds.participants round.roundId)))
        terms.protocolFeeBps terms.feeModel.value := by
  unfold SettlementPath.reference
  rw [hmode]
  rfl

omit hbook hlimit hcap in
/-- Who bet on the other side is paid nothing. -/
theorem SettlementPath.upDown_unpaid :
    ∀ record ∈ (terms.plan rounds round finalPrice).records,
      record.user ∉ (SettlementPath.upDown (round.winningSide finalPrice)).winners rounds round →
      record.payout = 0 := by
  intro record hrecord hother
  rw [Terms.plan_upDown hmode hrefund] at hrecord
  obtain ⟨user, huser, rfl⟩ := List.mem_map.mp hrecord
  rw [upDownRecord_user] at hother
  rw [upDownRecord_payout, if_neg fun hbet => hother (List.mem_filter.mpr ⟨huser, hbet⟩)]

omit hcap hlimit in
/-- A round without participants pays nothing and takes nothing. -/
theorem SettlementPath.upDown_carriedOut_of_empty
    (hempty : rounds.participants round.roundId = []) :
    SettlementPath.CarriedOut (.upDown (round.winningSide finalPrice)) terms rounds round
      (terms.plan rounds round finalPrice) := by
  have hsorted : sortAddresses (rounds.participants round.roundId) = [] := by
    rw [hempty]
    rfl
  have hplan : terms.plan rounds round finalPrice = ⟨0, []⟩ := by
    unfold Terms.plan
    rw [hmode, hsorted]
    exact (hbook.upDown hmode).plan_of_empty hempty terms finalPrice
  have hpot : rounds.totalStake round.mode round.roundId = 0 := by
    unfold Rounds.totalStake
    rw [hempty]
    rfl
  refine ⟨?_, fun before after hdelta => ?_, fun _ => ?_,
    SettlementPath.upDown_unpaid hmode hrefund⟩
  · rw [SettlementPath.upDown_reference hmode, hsorted, hplan]
    exact if_pos (.inr rfl)
  · rw [hplan] at hdelta ⊢
    have hlimit : (0 : ℤ) ≤ supplyLimit := by decide
    have hdelta : after - before = 0 := hdelta
    exact assertUpdownFeeConservation_of hdelta ⟨le_rfl, le_rfl, hpot.ge, hpot.trans_le hlimit⟩
      (hpot.trans_le (by show (0 : ℤ) ≤ 0 + 0 + _; omega))
  · rw [hplan]

/-- A competitive UpDown settlement carries out its path, where its payouts compute. -/
theorem SettlementPath.upDown_carriedOut (hcomputes : Computes terms rounds round finalPrice)
    (hsome : rounds.participants round.roundId ≠ []) :
    SettlementPath.CarriedOut (.upDown (round.winningSide finalPrice)) terms rounds round
      (terms.plan rounds round finalPrice) := by
  have hplan := @Terms.plan_upDown _ _ rounds round terms _ hmode hrefund
  set side := round.winningSide finalPrice with hside
  set participants := sortAddresses (rounds.participants round.roundId) with hsorted
  have hperm : participants.Perm (rounds.participants round.roundId) := sortAddresses_perm _
  have hpools : ∀ side, 0 < round.pool side := by
    obtain ⟨hup, hdown⟩ := pools_pos hbook hmode hrefund hsome
    intro side
    cases side with
    | up => exact hup
    | down => exact hdown
  have hsum : (rounds.sideStakes round.roundId side participants).sum = round.pool side :=
    sum_sideStakes (hbook.upDown hmode) hperm
  have hboth := round.pool_add_other side
  have htotal := (hbook.upDown hmode).pools_eq
  rw [← hmode] at htotal
  have hfee := @Terms.upDownFee_bounds _ _ hcap side ⟨(hpools side).le, (hpools side.other).le⟩
  have hpot : round.pool side + round.pool side.other - terms.upDownFee round side =
      terms.upDownPot round side := by
    rw [hboth]
    rfl
  have hbounds := paid_upDown_bounds terms hbook hmode (hpools side).ne' hperm
    (terms.upDownFee round side)
  rw [← hplan] at hbounds
  have hmember : ∀ stake ∈ rounds.sideStakes round.roundId side participants, 0 ≤ stake ∧
      stake * terms.upDownPot round side ≤ i128Max := by
    intro stake hstake
    obtain ⟨user, huser, rfl⟩ := List.mem_map.mp hstake
    obtain ⟨huser, hbet⟩ := List.mem_filter.mp huser
    have hpos := hbook.stake_pos (mem_sortAddresses.mp huser)
    rw [hmode] at hpos
    refine ⟨hpos.le, ?_⟩
    have hmoded := hcomputes
    unfold Computes at hmoded
    rw [hmode] at hmoded
    obtain ⟨-, -, -, hshares⟩ := hmoded hrefund (List.ne_nil_of_mem huser)
    obtain ⟨position, hposition, hon⟩ := (Option.any_eq_true _ _).mp hbet
    have hproduct := (computeUpdownWinnerPayout_steps (hpools side).ne'
      (hshares user huser position hposition (of_decide_eq_true hon))).1.2
    have hstake : rounds.stakeOf .upDown round.roundId user = position.amount := by
      unfold Rounds.stakeOf
      rw [hposition]
      rfl
    rw [hstake]
    exact hproduct
  have hpaid : (terms.plan rounds round finalPrice).paid =
      (Apportion.shares (terms.upDownPot round side) (round.pool side)
        (rounds.sideStakes round.roundId side participants)).sum := by
    rw [hplan]
    exact paid_upDown _
  have hnonneg : 0 ≤ (terms.plan rounds round finalPrice).paid := by
    rw [hpaid]
    refine List.sum_nonneg fun payout hpayout => ?_
    obtain ⟨stake, hstake, rfl⟩ := List.mem_map.mp hpayout
    exact Apportion.share_nonneg (by omega) (hpools side).le (hmember stake hstake).1
  have htaken : (terms.plan rounds round finalPrice).fee = terms.upDownFee round side := by
    rw [hplan]
  refine ⟨?_, fun before after hdelta => ?_, by simp, SettlementPath.upDown_unpaid hmode hrefund⟩
  · rw [SettlementPath.upDown_reference hmode, htaken, hpaid, ← hpot]
    refine refUpdownSettleWithModel_eq ⟨hpools side, (hpools side.other).le⟩ (by omega)
      (fun stake hstake => (hmember stake hstake).1) hsum
      (refUpdownFee_eq hcap ⟨(hpools side).le, (hpools side.other).le⟩ (by omega)) (by omega) ?_
    rw [hpot]
    exact fun stake hstake => (hmember stake hstake).2
  · rw [htaken] at hdelta
    refine assertUpdownFeeConservation_of hdelta (by omega) ?_
    -- a winner loses less than one unit
    show _ ≤ _ + _ + max ((((participants.filter fun user =>
      rounds.betOn round.roundId side user).length : ℕ) : ℤ) - 1) 0
    omega

end UpDown

/-- Every plan carries out the path of its ending. -/
theorem Ending.carriedOut {ending : Ending} (hround : ending.round = round)
    (hcomputes : ∀ finalPrice, ending.kind.price = some finalPrice →
      Computes terms rounds round finalPrice) :
    (ending.path rounds).CarriedOut terms rounds round (ending.plan terms rounds) := by
  subst hround
  have hperm := sortAddresses_perm (rounds.participants ending.round.roundId)
  unfold Ending.path
  cases hprice : ending.kind.price with
  | none =>
      obtain ⟨price, outcome, -, hplan⟩ := @Ending.plan_of_no_price _ _ rounds terms _ hprice
      rw [hplan]
      exact SettlementPath.refund_carriedOut hbook hlimit price outcome (.refl _)
  | some finalPrice =>
      rw [Ending.plan_of_price hprice]
      cases hmode : ending.round.mode with
      | upDown =>
          simp only [hmode]
          split_ifs with hrefund
          · have hplan : terms.plan rounds ending.round finalPrice =
                ⟨0, rounds.refundRecords ending.round (fun _ => 0) .refund
                  (sortAddresses (rounds.participants ending.round.roundId))⟩ := by
              unfold Terms.plan
              rw [hmode]
              exact if_pos hrefund
            rw [hplan]
            exact SettlementPath.refund_carriedOut hbook hlimit (fun _ => 0) .refund hperm
          · by_cases hempty : rounds.participants ending.round.roundId = []
            · exact SettlementPath.upDown_carriedOut_of_empty hbook hmode hrefund hempty
            · exact SettlementPath.upDown_carriedOut hbook hlimit hcap hmode hrefund
                (hcomputes finalPrice hprice) hempty
      | precision =>
          simp only [hmode]
          split_ifs with hwinners
          · have hplan : terms.plan rounds ending.round finalPrice =
                ⟨0, rounds.refundRecords ending.round (fun _ => 0) .refund
                  (sortAddresses (rounds.participants ending.round.roundId))⟩ := by
              unfold Terms.plan
              rw [hmode]
              exact if_pos hwinners
            rw [hplan]
            exact SettlementPath.refund_carriedOut hbook hlimit (fun _ => 0) .refund hperm
          · exact SettlementPath.precision_carriedOut hbook hlimit hcap hmode rfl hwinners

end Paths

/-! ## Endings -/

section Endings

variable {A : Type} [LinearOrder A] {s s' : Storage A} {ending : Ending} {ledger : ℕ}

/-- What the participants of a round receive at its end, but for a coverage. -/
def Ending.payouts (ending : Ending) (s s' : Storage A) : ℤ :=
  ((s.rounds.participants ending.round.roundId).map fun user =>
    s'.vault.pendingOf user - s.vault.pendingOf user - s.coverageOf ending user).sum

/-- What the accounts that fees go to hold. -/
def Vault.feeAccounts (vault : Vault A) : ℤ :=
  vault.treasury + vault.insuranceFund

variable (hends : Ends ledger ending s s') (hbook : Represents s.rounds ending.round)
  (hcap : FeeCapped s.control.settings.protocolFeeBps)
include hends hbook hcap

/-- The participants receive what the plan pays. -/
theorem Ends.payouts_eq :
    ending.payouts s s' = (ending.plan s.control.settings.terms s.rounds).paid := by
  have hsound := @Ending.plan_sound _ _ _ s.control.settings.terms _ hbook hcap
  unfold Ending.payouts Plan.paid
  rw [← (hsound.users.map _).sum_eq, List.map_map]
  refine congrArg List.sum (List.map_congr_left fun record hrecord => ?_)
  show s'.vault.pendingOf record.user - s.vault.pendingOf record.user -
    s.coverageOf ending record.user = record.payout
  rw [hends.pendingOf_of_mem hbook hcap hrecord]
  ring

/-- Who a path does not pay receives nothing. -/
theorem Ends.unpaid {path : SettlementPath A}
    (hcarried : path.CarriedOut s.control.settings.terms s.rounds ending.round
      (ending.plan s.control.settings.terms s.rounds))
    (hcovered : s.coveragePaid ending ≠ 0 → path = .refund) {user : A}
    (huser : user ∉ path.winners s.rounds ending.round) :
    s'.vault.pendingOf user = s.vault.pendingOf user := by
  by_cases hmem : user ∈ s.rounds.participants ending.round.roundId
  · obtain ⟨record, hrecord, rfl⟩ := List.mem_map.mp ((mem_records_iff hbook hcap _).mpr hmem)
    have huncovered : s.coverageOf ending record.user = 0 := by
      by_cases hzero : s.coveragePaid ending = 0
      · unfold Storage.coverageOf
        rw [hzero]
        simp [Apportion.share]
      · obtain rfl := hcovered hzero
        exact absurd (mem_sortAddresses.mpr hmem) huser
    rw [hends.pendingOf_of_mem hbook hcap hrecord, hcarried.unpaid record hrecord huser,
      huncovered, add_zero, add_zero]
  · unfold Vault.pendingOf Store.getD
    rw [(hends.pending_of_not_mem hbook hcap hmem).1]

end Endings

section Reachable

variable {A : Type} [LinearOrder A] {host : Host A} {chain chain' : Chain A} {signers : List A}
  {call : Call A} {ending : Ending}

/-- Every end of a round pays the participants and collects what the reference computes, passes
the conservation check, leaves the treasury alone when it refunds, and pays nobody else. -/
theorem endings_conserve_fees (hreachable : Reachable host chain)
    (hstep : Step host chain (.invoke signers call) chain')
    (hending : call.ending chain.storage = some ending) :
    let s := chain.storage
    let s' := chain'.storage
    let path := ending.path s.rounds
    let collected := s'.vault.feeAccounts + s.coveragePaid ending
    path.reference s.control.settings.terms s.rounds ending.round =
        .ok (ending.payouts s s', collected - s.vault.feeAccounts) ∧
      path.check s.rounds ending.round (ending.payouts s s') s.vault.feeAccounts collected =
        .ok ⟨⟩ ∧
      (path = .refund → s'.vault.treasury = s.vault.treasury) ∧
      ∀ user ∉ path.winners s.rounds ending.round,
        s'.vault.pendingOf user = s.vault.pendingOf user := by
  intro s s' path collected
  have hhealthy : s.Healthy chain.ledger.sequence := hreachable.healthy
  have hbook := (hhealthy.ordered.live _ _ ((Call.endsBy hending).live hhealthy.ordered)).2
  have hcap := hhealthy.fee_capped
  have hends : Ends chain.ledger.sequence ending s s' := hreachable.ends hstep hending
  have hlimit := hhealthy.bounded.totalStake_le_supply hhealthy.ordered hhealthy.solvent
    hhealthy.paced chain.ledger.sequence_lt hbook
  have hcarried := Ending.carriedOut hbook hlimit hcap rfl fun finalPrice hprice =>
    Chain.Healthy.computes hreachable.healthy hstep hending hprice
  have hpayouts := hends.payouts_eq hbook hcap
  have hcollected : collected - s.vault.feeAccounts =
      (ending.plan s.control.settings.terms s.rounds).fee := by
    have hsum := hends.collected hbook hcap
    show s'.vault.treasury + s'.vault.insuranceFund + s.coveragePaid ending -
      (s.vault.treasury + s.vault.insuranceFund) = _
    omega
  have hcovered : s.coveragePaid ending ≠ 0 → path = .refund := by
    intro hpaid
    cases hprice : ending.kind.price with
    | some finalPrice => exact absurd (coveragePaid_of_price hprice) hpaid
    | none =>
        show ending.path s.rounds = .refund
        unfold Ending.path
        rw [hprice]
  refine ⟨?_, ?_, fun hrefund => ?_, fun user huser => hends.unpaid hbook hcap hcarried hcovered
    huser⟩
  · rw [hpayouts, hcollected]
    exact hcarried.reference
  · rw [hpayouts]
    exact hcarried.check _ _ hcollected
  · have hfree := hcarried.free hrefund
    rw [hends.treasury hbook hcap, hfree]
    simp [insuranceShare]

/-- In the trial round with a fee the reference pays the winner 95 of the 100 staked and takes
the other 5. -/
theorem fee_round_conserved : ∃ chain chain' ending,
    Reachable trialHost chain ∧
    Step trialHost chain (.invoke [2] (.resolveRound (trialPayload 1500 101 7600))) chain' ∧
    Ending.payouts ending chain.storage chain'.storage = 95 ∧
    chain'.storage.vault.feeAccounts = chain.storage.vault.feeAccounts + 5 := by
  obtain ⟨trace, chain, chain', hhistory, hfits⟩ := exists_trial feeRound.dropLast
    (.invoke [2] (.resolveRound (trialPayload 1500 101 7600)))
    (fun chain _ => (Call.ending chain.storage
        (.resolveRound (trialPayload 1500 101 7600))).any fun ending : Ending =>
      decide (chain.storage.coveragePaid ending = 0 ∧
        (ending.path chain.storage.rounds).reference chain.storage.control.settings.terms
          chain.storage.rounds ending.round = .ok (95, 5)))
    (by decide +kernel)
  obtain ⟨hreachable, hstep⟩ := hhistory.last
  obtain ⟨ending, hending, hfits⟩ := (Option.any_eq_true _ _).mp hfits
  obtain ⟨huncovered, hsettles⟩ := of_decide_eq_true hfits
  obtain ⟨hreference, -⟩ := endings_conserve_fees hreachable hstep hending
  obtain ⟨hpayouts, hcollected⟩ := Prod.mk.inj (Except.ok.inj (hreference.symm.trans hsettles))
  have hcollected : chain'.storage.vault.feeAccounts + chain.storage.coveragePaid ending -
      chain.storage.vault.feeAccounts = 5 := hcollected
  exact ⟨chain, chain', ending, hreachable, hstep, hpayouts, by omega⟩

end Reachable

end XelmaMarket
