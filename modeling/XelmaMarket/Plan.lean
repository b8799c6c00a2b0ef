import XelmaMarket.Lib.Apportion
import XelmaMarket.Lib.ClosestScan
import XelmaMarket.RoundBook

/-!
# What the end of a round pays

The purpose of a settlement in plain terms, apart from the loops that carry it out: who is paid,
how much, and which outcome is recorded. A plan is a fee and one outcome record for each
participant; what it pays is read off the records.
-/

namespace XelmaMarket

variable {A : Type}

/-- The settings a settlement depends on. -/
structure Terms where
  protocolFeeBps : Option ℕ
  feeModel : FeeModel
  payoutPolicy : PrecisionPayoutPolicy
  insuranceSplitBps : ℕ
  deriving DecidableEq

/-- The terms the settings stand for. -/
def Settings.terms (settings : Settings) : Terms where
  protocolFeeBps := settings.protocolFeeBps
  feeModel := settings.readFeeModel
  payoutPolicy := settings.readPrecisionPayoutPolicy
  insuranceSplitBps := settings.insuranceSplitBps

/-- The fee rate stays within its limit. -/
def FeeCapped (bps : Option ℕ) : Prop :=
  ∀ rate, bps = some rate → rate ≤ maxProtocolFeeBps

/-- A fee rate of a base, rounded down; no rate takes nothing. -/
def rateOf (bps : Option ℕ) (base : ℤ) : ℤ :=
  bps.elim 0 fun rate => base * rate / bpsDenominator

theorem rateOf_nonneg {bps : Option ℕ} {base : ℤ} (hbase : 0 ≤ base) : 0 ≤ rateOf bps base := by
  cases bps with
  | none => exact le_rfl
  | some rate => exact Int.ediv_nonneg (mul_nonneg hbase (by omega)) (by decide)

/-- A capped rate takes at most a tenth of its base. -/
theorem rateOf_le {bps : Option ℕ} {base : ℤ} (hcap : FeeCapped bps) (hbase : 0 ≤ base) :
    10 * rateOf bps base ≤ base := by
  cases bps with
  | none => simpa [rateOf] using hbase
  | some rate =>
      have hrate : (rate : ℤ) ≤ 1000 := by
        have := hcap rate rfl
        unfold maxProtocolFeeBps at this
        omega
      have hdiv : base * (rate : ℤ) / 10000 * 10000 ≤ base * rate :=
        Int.ediv_mul_le _ (by decide)
      have hmul : base * (rate : ℤ) ≤ base * 1000 := mul_le_mul_of_nonneg_left hrate hbase
      show 10 * (base * (rate : ℤ) / 10000) ≤ base
      omega

/-! ## Records and plans -/

/-- The outcome record of a participant, with the stake and the side the storage holds. -/
def Rounds.outcomeRecord (rounds : Rounds A) (mode : RoundMode) (roundId price : ℕ) (user : A)
    (payout : ℤ) (outcome : UserOutcomeType) : UserRoundOutcome A :=
  match mode with
  | .upDown =>
      { user := user
        roundMode := 0
        predictionSide := (rounds.position.get (roundId, user)).elim 0 (·.side.value)
        predictedPrice := 0
        stake := rounds.stakeOf .upDown roundId user
        payout := payout
        outcome := outcome }
  | .precision =>
      precisionOutcome user price (rounds.stakeOf .precision roundId user) payout outcome

/-- What the end of a round pays and records. -/
structure Plan (A : Type) where
  fee : ℤ
  records : List (UserRoundOutcome A)

/-- What a plan pays out in total. -/
def Plan.paid (plan : Plan A) : ℤ :=
  (plan.records.map (·.payout)).sum

section Records

variable (rounds : Rounds A) (mode : RoundMode) (roundId price : ℕ) (user : A) (payout : ℤ)
  (outcome : UserOutcomeType)

@[simp] theorem outcomeRecord_user :
    (rounds.outcomeRecord mode roundId price user payout outcome).user = user := by
  cases mode <;> rfl

@[simp] theorem outcomeRecord_payout :
    (rounds.outcomeRecord mode roundId price user payout outcome).payout = payout := by
  cases mode <;> rfl

@[simp] theorem outcomeRecord_outcome :
    (rounds.outcomeRecord mode roundId price user payout outcome).outcome = outcome := by
  cases mode <;> rfl

/-- The record of a position is the record of the participant who holds it. -/
theorem upDownOutcome_eq {rounds : Rounds A} {roundId : ℕ} {user : A} {position : UserPosition}
    (hposition : rounds.position.get (roundId, user) = some position) (price : ℕ) (payout : ℤ)
    (outcome : UserOutcomeType) :
    upDownOutcome user position payout outcome =
      rounds.outcomeRecord .upDown roundId price user payout outcome := by
  simp [upDownOutcome, Rounds.outcomeRecord, Rounds.stakeOf, hposition]

end Records

/-- The records of a refund: every participant gets the stake back. -/
def Rounds.refundRecords (rounds : Rounds A) (round : Round) (price : A → ℕ)
    (outcome : UserOutcomeType) (participants : List A) : List (UserRoundOutcome A) :=
  participants.map fun user =>
    rounds.outcomeRecord round.mode round.roundId (price user) user
      (rounds.stakeOf round.mode round.roundId user) outcome

/-! ## UpDown rounds -/

/-- Whether an UpDown round is refunded at a price: it is one-sided, or the price did not move. -/
def Round.refundsAt (round : Round) (finalPrice : ℕ) : Prop :=
  isOneSidedPool round.poolUp round.poolDown = true ∨ finalPrice = round.priceStart

instance (round : Round) (finalPrice : ℕ) : Decidable (round.refundsAt finalPrice) :=
  inferInstanceAs (Decidable (_ ∨ _))

/-- The side the price moved to. -/
def Round.winningSide (round : Round) (finalPrice : ℕ) : BetSide :=
  if finalPrice > round.priceStart then .up else .down

/-- The fee of a competitive UpDown settlement. -/
def Terms.upDownFee (terms : Terms) (round : Round) (side : BetSide) : ℤ :=
  match terms.feeModel with
  | .feeOnPot => rateOf terms.protocolFeeBps (round.poolUp + round.poolDown)
  | .feeOnWinnings => rateOf terms.protocolFeeBps (round.pool side.other)

/-- What the winners of a competitive UpDown settlement share. -/
def Terms.upDownPot (terms : Terms) (round : Round) (side : BetSide) : ℤ :=
  round.poolUp + round.poolDown - terms.upDownFee round side

/-- Whether a user bet on a side. -/
def Rounds.betOn (rounds : Rounds A) (roundId : ℕ) (side : BetSide) (user : A) : Bool :=
  (rounds.position.get (roundId, user)).any fun position => decide (position.side = side)

/-- The record of one participant of a competitive UpDown settlement. -/
def Terms.upDownRecord (terms : Terms) (rounds : Rounds A) (round : Round) (side : BetSide)
    (user : A) : UserRoundOutcome A :=
  if rounds.betOn round.roundId side user then
    rounds.outcomeRecord .upDown round.roundId 0 user
      (Apportion.share (terms.upDownPot round side) (round.pool side)
        (rounds.stakeOf .upDown round.roundId user)) .win
  else
    rounds.outcomeRecord .upDown round.roundId 0 user 0 .loss

/-- The plan of an UpDown settlement. -/
def Terms.upDownPlan (terms : Terms) (rounds : Rounds A) (round : Round) (finalPrice : ℕ)
    (participants : List A) : Plan A :=
  if round.refundsAt finalPrice then
    ⟨0, rounds.refundRecords round (fun _ => 0) .refund participants⟩
  else
    let side := round.winningSide finalPrice
    ⟨terms.upDownFee round side, participants.map (terms.upDownRecord rounds round side)⟩

/-! ## Precision rounds -/

/-- A participant wins a Precision round with a prediction no other participant's prediction is
closer than. -/
def Rounds.IsWinner (rounds : Rounds A) (roundId finalPrice : ℕ) (participants : List A)
    (user : A) : Prop :=
  ∃ prediction ∈ rounds.precisionPosition.get (roundId, user),
    ∀ other ∈ participants, ∀ rival ∈ rounds.precisionPosition.get (roundId, other),
      priceDistance prediction.predictedPrice finalPrice ≤
        priceDistance rival.predictedPrice finalPrice

instance (rounds : Rounds A) (roundId finalPrice : ℕ) (participants : List A) (user : A) :
    Decidable (rounds.IsWinner roundId finalPrice participants user) :=
  inferInstanceAs (Decidable (∃ _ ∈ _, _))

/-- The winners among the participants, in order. -/
def Rounds.winners (rounds : Rounds A) (roundId finalPrice : ℕ) (participants : List A) :
    List A :=
  participants.filter fun user => rounds.IsWinner roundId finalPrice participants user

/-- The stakes of the winners. -/
def Rounds.stakesOf (rounds : Rounds A) (roundId : ℕ) (users : List A) : ℤ :=
  (users.map (rounds.stakeOf .precision roundId)).sum

/-- The fee of a Precision settlement with a winner. -/
def Terms.precisionFee (terms : Terms) (pot winnerStakes : ℤ) : ℤ :=
  match terms.feeModel with
  | .feeOnPot => rateOf terms.protocolFeeBps pot
  | .feeOnWinnings => rateOf terms.protocolFeeBps (pot - winnerStakes)

/-- A winner's share of the pool before the remainder. -/
def PrecisionPayoutPolicy.share (policy : PrecisionPayoutPolicy) (pool winnerStakes : ℤ)
    (count : ℕ) (stake : ℤ) : ℤ :=
  match policy with
  | .equal => pool / count
  | .stakeWeighted => Apportion.share pool winnerStakes stake

/-- The shares of all winners before the remainder. -/
def PrecisionPayoutPolicy.shares (policy : PrecisionPayoutPolicy) (pool : ℤ)
    (stakes : List ℤ) : List ℤ :=
  stakes.map (policy.share pool stakes.sum stakes.length)

/-- A list of shares with what is left of the pool added to the first. -/
def withRemainder (pool : ℤ) : List ℤ → List ℤ
  | [] => []
  | first :: rest => (first + (pool - (first :: rest).sum)) :: rest

/-- What the winners of a Precision settlement are paid: their shares, and the remainder to the
first of them. -/
def PrecisionPayoutPolicy.payouts (policy : PrecisionPayoutPolicy) (pool : ℤ)
    (stakes : List ℤ) : List ℤ :=
  withRemainder pool (policy.shares pool stakes)

/-- The records of the winners. -/
def Terms.winRecords (terms : Terms) (rounds : Rounds A) (roundId : ℕ) (pool : ℤ)
    (winners : List A) : List (UserRoundOutcome A) :=
  List.zipWith
    (fun user payout => rounds.outcomeRecord .precision roundId
      (revealedPrice rounds roundId user) user payout .win)
    winners (terms.payoutPolicy.payouts pool (winners.map (rounds.stakeOf .precision roundId)))

/-- The record of a loser. -/
def Rounds.lossRecord (rounds : Rounds A) (roundId : ℕ) (user : A) : UserRoundOutcome A :=
  rounds.outcomeRecord .precision roundId (revealedPrice rounds roundId user) user 0 .loss

/-- The plan of a Precision settlement. -/
def Terms.precisionPlan (terms : Terms) (rounds : Rounds A) (round : Round) (finalPrice : ℕ)
    (participants : List A) : Plan A :=
  let winners := rounds.winners round.roundId finalPrice participants
  let pot := (participants.map (rounds.stakeOf .precision round.roundId)).sum
  let fee := terms.precisionFee pot (rounds.stakesOf round.roundId winners)
  if winners = [] then
    ⟨0, rounds.refundRecords round (fun _ => 0) .refund participants⟩
  else
    ⟨fee,
      terms.winRecords rounds round.roundId (pot - fee) winners ++
        (participants.filter fun user =>
          ¬ rounds.IsWinner round.roundId finalPrice participants user).map
          (rounds.lossRecord round.roundId)⟩

/-- The plan of a settlement at a price. -/
def Terms.plan [LinearOrder A] (terms : Terms) (rounds : Rounds A) (round : Round)
    (finalPrice : ℕ) : Plan A :=
  let participants := sortAddresses (rounds.participants round.roundId)
  match round.mode with
  | .upDown => terms.upDownPlan rounds round finalPrice participants
  | .precision => terms.precisionPlan rounds round finalPrice participants

end XelmaMarket
