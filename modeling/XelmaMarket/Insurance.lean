import XelmaMarket.Admin

/-!
# Insurance fund

A configurable part of each protocol fee accrues to a segregated fund, which pays a coverage on
whitelisted cancellations. Payouts never exceed the fund.
-/

namespace XelmaMarket

open Transaction

variable {A : Type}

/-- Maximum allowed insurance split in basis points. -/
def maxInsuranceSplitBps : ℕ := 5000

/-- Maximum allowed coverage payout in basis points. -/
def maxInsuranceCoverageBps : ℕ := 10000

/-! ## Configuration -/

section DecidableAddress

variable [DecidableEq A]

/-- Set the part of each protocol fee that goes to the fund. -/
def setInsuranceSplitBps (bps : ℕ) : ControlM A PUnit := do
  let _ ← authorizedAdmin
  ensureNotPaused
  reject (bps > maxInsuranceSplitBps) .insuranceInvalidSplit
  updateSettings fun settings => { settings with insSplitBps := some bps }

/-- Set the part of each stake that is covered on an eligible cancellation. -/
def setInsuranceCoverageBps (bps : ℕ) : ControlM A PUnit := do
  let _ ← authorizedAdmin
  ensureNotPaused
  reject (bps > maxInsuranceCoverageBps) .insuranceInvalidSplit
  updateSettings fun settings => { settings with insCovBps := some bps }

/-- Set the whitelist of eligible insurance event types. -/
def setInsuranceEligibleEvents (events : List ℕ) : ControlM A PUnit := do
  let _ ← authorizedAdmin
  ensureNotPaused
  updateSettings fun settings => { settings with insEligEvt := some events }

end DecidableAddress

/-- The configured insurance split in basis points. -/
def Settings.insuranceSplitBps (settings : Settings) : ℕ :=
  settings.insSplitBps.getD 0

/-- The configured coverage rate in basis points. -/
def Settings.insuranceCoverageBps (settings : Settings) : ℕ :=
  settings.insCovBps.getD 0

/-! ## Fee collection -/

/-- Direct the insurance part of a protocol fee to the fund, and return that part. The caller
credits the treasury with the rest. -/
def collectInsuranceFee (feeAmount : ℤ) : ContractM A ℤ := do
  let splitBps ← gets (·.control.settings.insuranceSplitBps)
  if splitBps = 0 ∨ feeAmount ≤ 0 then
    return 0
  else
    let product ← checked (feeAmount * splitBps) .overflow
    let insuranceAmount ← divide product bpsDenominator
    if insuranceAmount ≤ 0 then
      return 0
    else
      let cappedAmount := min insuranceAmount feeAmount
      let current ← gets (·.vault.insuranceFund)
      let newBalance ← checked (current + cappedAmount) .overflow
      setInsuranceFund newBalance
      return cappedAmount

/-! ## Coverage -/

/-- The insurance event a cancellation reason stands for. -/
def insuranceEventOf : ℕ → Option InsuranceEvent
  | 1 => some .oracleOutage
  | 2 => some .oracleDeviation
  | 3 => some .fallbackRefund
  | _ => none

/-- Whether a cancellation reason maps to a whitelisted insurance event. -/
def Settings.isEligibleEvent (settings : Settings) (cancelReason : ℕ) : Bool :=
  match insuranceEventOf cancelReason with
  | some event => (settings.insEligEvt.getD []).contains event.value
  | none => false

/-- Whether a cancellation reason qualifies for a coverage payout. -/
def Settings.isCoverageEligible (settings : Settings) (cancelReason : ℕ) : Bool :=
  settings.isEligibleEvent cancelReason && decide (settings.insuranceCoverageBps > 0)

/-- The coverage a stake asks for. -/
def calculateCoverageAmount (stake : ℤ) : ContractM A ℤ := do
  let coverageBps ← gets (·.control.settings.insuranceCoverageBps)
  if coverageBps = 0 ∨ stake ≤ 0 then
    return 0
  else
    let product ← checked (stake * coverageBps) .overflow
    divide product bpsDenominator

/-- Deduct a coverage payout from the fund, capped at the fund, and return what was deducted. -/
def deductInsuranceCoverage (requested : ℤ) : ContractM A ℤ := do
  let currentFund ← gets (·.vault.insuranceFund)
  if requested ≤ 0 ∨ currentFund ≤ 0 then
    return 0
  else
    let distributed := min requested currentFund
    let newBalance ← checked (currentFund - distributed) .overflow
    setInsuranceFund newBalance
    return distributed

/-! ## Top-up and withdrawal -/

section DecidableAddress

variable [DecidableEq A]

/-- Top up the fund from the administrator's balance. -/
def topUpInsuranceFund (amount : ℤ) : ContractM A PUnit := do
  let admin ← onControl authorizedAdmin
  onControl ensureNotPaused
  reject (amount ≤ 0) .invalidBetAmount
  let currentBalance ← gets (·.vault.balanceOf admin)
  reject (currentBalance < amount) .insufficientBalance
  let newBalance ← checked (currentBalance - amount) .insufficientBalance
  setBalance admin newBalance
  let currentFund ← gets (·.vault.insuranceFund)
  let newFund ← checked (currentFund + amount) .overflow
  setInsuranceFund newFund

/-- Withdraw from the fund to a recipient, as an executed governance proposal does. -/
def executeWithdrawInsuranceFund (recipient : A) (amount : ℤ) : ContractM A ℤ := do
  reject (amount ≤ 0) .invalidBetAmount
  let currentFund ← gets (·.vault.insuranceFund)
  reject (amount > currentFund) .insuranceInsufficientFund
  let newFund ← checked (currentFund - amount) .insufficientBalance
  setInsuranceFund newFund
  let recipientBalance ← gets (·.vault.balanceOf recipient)
  let newRecipientBalance ← payoutAdd recipientBalance amount
  setBalance recipient newRecipientBalance
  return amount

/-- Withdraw from the fund directly, possible only without a governance approver. -/
def withdrawInsuranceFund (recipient : A) (amount : ℤ) : ContractM A ℤ := do
  let _ ← onControl authorizedAdmin
  let governed ← gets (isGovApproverSet ·.control.governance)
  reject (governed = true) .govUnauthorized
  onControl ensureNotPaused
  executeWithdrawInsuranceFund recipient amount

end DecidableAddress

end XelmaMarket
