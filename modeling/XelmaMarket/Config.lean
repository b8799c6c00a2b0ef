import XelmaMarket.Insurance

/-!
# Configuration

The timelocked configuration changes, the settings that change at once, and the protocol fee: how
it is calculated for either round mode and how it is collected.
-/

namespace XelmaMarket

open Transaction

variable {A : Type}

/-! ## Reading settings -/

def Settings.getMaxPrecisionParticipants (settings : Settings) : ℕ :=
  settings.maxPrecisionParticipants.getD defaultMaxPrecisionParticipants

def Settings.getDisputeLedgers (settings : Settings) : ℕ :=
  settings.disputeLedgers.getD defaultDisputeLedgers

/-- The configured fee incidence model, fee-on-pot by default. -/
def Settings.readFeeModel (settings : Settings) : FeeModel :=
  settings.feeModel.getD .feeOnPot

/-- The configured payout policy of Precision rounds; 1 is stake-weighted, anything else equal. -/
def Settings.readPrecisionPayoutPolicy (settings : Settings) : PrecisionPayoutPolicy :=
  if settings.precisionPayoutPolicy.getD 0 = 1 then .stakeWeighted else .equal

/-! ## Validation -/

def validatePendingWinningsExpiry (ledgers : ℕ) : ControlM A PUnit :=
  reject (ledgers ≠ 0 ∧
    (ledgers < minPendingWinningsExpiry ∨ ledgers > maxPendingWinningsExpiry)) .invalidDuration

def validateRoundTemplate (startPrice : ℕ) (mode : Option ℕ) : ControlM A PUnit := do
  reject (startPrice < minStartPrice ∨ startPrice > maxStartPrice) .invalidStartPrice
  onSome mode fun m => reject (m > 1) .invalidMode

def validateWindows (betLedgers runLedgers : ℕ) : ControlM A PUnit := do
  reject (betLedgers = 0 ∨ runLedgers = 0) .invalidDuration
  reject (betLedgers > maxBetWindowLedgers ∨ runLedgers > maxRunWindowLedgers) .windowOutOfRange
  reject (betLedgers ≥ runLedgers) .invalidDuration

def validateCloseBufferLedgers (bufferLedgers : ℕ) : ControlM A PUnit :=
  reject (bufferLedgers > maxCloseBufferLedgers) .windowOutOfRange

/-- A cap or minimum on an amount must be at least `minCapValue` when set. -/
def validateAmountBound (bound : Option ℤ) : ControlM A PUnit :=
  onSome bound fun v => reject (v < minCapValue) .invalidBetAmount

def validateMaxStake (maxAmount : Option ℤ) : ControlM A PUnit :=
  validateAmountBound maxAmount

def validateMinBet (minAmount : Option ℤ) : ControlM A PUnit :=
  validateAmountBound minAmount

def validateOracleStaleThreshold (seconds : ℕ) : ControlM A PUnit :=
  reject (¬ (minOracleStaleThreshold ≤ seconds ∧ seconds ≤ maxOracleStaleThreshold))
    .invalidDuration

def validateOracleTimestampSkew (seconds : ℕ) : ControlM A PUnit :=
  reject (¬ (minOracleTimestampSkew ≤ seconds ∧ seconds ≤ maxOracleTimestampSkew))
    .invalidDuration

/-- A rate must be positive and at most its limit when set. -/
def validateRate (bps : Option ℕ) (limit : ℕ) (error : ContractError) : ControlM A PUnit :=
  onSome bps fun v => reject (v = 0 ∨ v > limit) error

def validateOracleMaxDeviationBps (bps : Option ℕ) : ControlM A PUnit :=
  validateRate bps maxOracleDeviationBps .windowOutOfRange

def validateProtocolFeeBps (bps : Option ℕ) : ControlM A PUnit :=
  validateRate bps maxProtocolFeeBps .invalidProtocolFeeBps

def validateEarlyCashoutBps (bps : Option ℕ) : ControlM A PUnit :=
  validateRate bps maxProtocolFeeBps .invalidProtocolFeeBps

def validateMinParticipants (min : Option ℕ) : ControlM A PUnit :=
  validateRate min maxMinParticipants .invalidMinParticipants

def validateMaxPrecisionParticipants (max : ℕ) : ControlM A PUnit :=
  reject (max = 0 ∨ max > maxPrecisionParticipantsLimit) .invalidPrecisionCap

def validateArchiveRetention (limit : ℕ) : ControlM A PUnit :=
  reject (¬ (minArchiveRetention ≤ limit ∧ limit ≤ maxArchiveRetention)) .windowOutOfRange

def validatePrecisionPayoutPolicy (policy : ℕ) : ControlM A PUnit :=
  reject (policy > 1) .invalidMode

def validateDisputeLedgers (ledgers : ℕ) : ControlM A PUnit :=
  reject (ledgers > maxDisputeLedgers) .windowOutOfRange

def validateEpochMintBudget (budget : ℤ) : ControlM A PUnit :=
  reject (budget < 0) .invalidBetAmount

/-! ## Timelocked changes -/

/-- The kind a payload belongs to. -/
def ConfigChangePayload.kind : ConfigChangePayload → ConfigChangeKind
  | .windows .. => .windows
  | .maxStake _ => .maxStake
  | .maxUserRoundExposure _ => .maxUserRoundExposure
  | .maxPendingWinnings _ => .maxPendingWinnings
  | .oracleStaleThreshold _ => .oracleStaleThreshold
  | .oracleMaxDeviationBps _ => .oracleMaxDeviationBps
  | .protocolFeeBps _ => .protocolFeeBps
  | .minParticipants _ => .minParticipants
  | .maxPrecisionParticipants _ => .maxPrecisionParticipants
  | .mintLimit _ => .mintLimit
  | .archiveRetention _ => .archiveRetention
  | .closeBufferLedgers _ => .closeBufferLedgers
  | .oracleTimestampSkew _ => .oracleTimestampSkew
  | .epochMintBudget _ => .epochMintBudget
  | .pendingWinningsExpiry _ => .pendingWinningsExpiry
  | .precisionPayoutPolicy _ => .precisionPayoutPolicy
  | .minBet _ => .minBet
  | .disputeLedgers _ => .disputeLedgers
  | .feeModel _ => .feeModel
  | .earlyCashoutBps _ => .earlyCashoutBps

/-- The validation a payload passes again when it is applied. -/
def validateConfigPayload : ConfigChangePayload → ControlM A PUnit
  | .windows bet run => validateWindows bet run
  | .maxStake max => validateMaxStake max
  | .maxUserRoundExposure max => validateMaxStake max
  | .maxPendingWinnings max => validateMaxStake max
  | .oracleStaleThreshold seconds => validateOracleStaleThreshold seconds
  | .oracleMaxDeviationBps bps => validateOracleMaxDeviationBps bps
  | .protocolFeeBps bps => validateProtocolFeeBps bps
  | .minParticipants min => validateMinParticipants min
  | .maxPrecisionParticipants max => validateMaxPrecisionParticipants max
  | .mintLimit _ => pure ⟨⟩
  | .archiveRetention limit => validateArchiveRetention limit
  | .closeBufferLedgers buffer => validateCloseBufferLedgers buffer
  | .oracleTimestampSkew seconds => validateOracleTimestampSkew seconds
  | .epochMintBudget budget => validateEpochMintBudget budget
  | .pendingWinningsExpiry ledgers => validatePendingWinningsExpiry ledgers
  | .precisionPayoutPolicy policy => validatePrecisionPayoutPolicy policy
  | .minBet min => validateMinBet min
  | .disputeLedgers ledgers => validateDisputeLedgers ledgers
  | .feeModel _ => pure ⟨⟩
  | .earlyCashoutBps bps => validateEarlyCashoutBps bps

/-- The settings after a payload is written; an absent optional value removes its key. -/
def Settings.write (settings : Settings) : ConfigChangePayload → Settings
  | .windows bet run => { settings with betWindowLedgers := some bet, runWindowLedgers := some run }
  | .maxStake max => { settings with maxStake := max }
  | .maxUserRoundExposure max => { settings with maxUserRoundExposure := max }
  | .maxPendingWinnings max => { settings with maxPendingWinnings := max }
  | .oracleStaleThreshold seconds => { settings with oracleStaleThreshold := some seconds }
  | .oracleMaxDeviationBps bps => { settings with oracleMaxDeviationBps := bps }
  | .protocolFeeBps bps => { settings with protocolFeeBps := bps }
  | .minParticipants min => { settings with minParticipants := min }
  | .maxPrecisionParticipants max => { settings with maxPrecisionParticipants := some max }
  | .mintLimit limit => { settings with mintLimitConfig := some limit }
  | .archiveRetention limit => { settings with archiveRetention := some limit }
  | .closeBufferLedgers buffer => { settings with closeBufferLedgers := some buffer }
  | .oracleTimestampSkew seconds => { settings with oracleTimestampSkew := some seconds }
  | .epochMintBudget budget => { settings with epMintBgt := some budget }
  | .pendingWinningsExpiry ledgers => { settings with pendingWinningsExpiry := some ledgers }
  | .precisionPayoutPolicy policy => { settings with precisionPayoutPolicy := some policy }
  | .minBet min => { settings with minBet := min }
  | .disputeLedgers ledgers => { settings with disputeLedgers := some ledgers }
  | .feeModel model => { settings with feeModel := some model }
  | .earlyCashoutBps bps => { settings with earlyCashoutBps := bps }

/-- Apply a payload: it must belong to the kind and pass its validation. -/
def applyConfigPayload (kind : ConfigChangeKind) (payload : ConfigChangePayload) :
    ControlM A PUnit := do
  reject (payload.kind ≠ kind) .invalidMode
  validateConfigPayload payload
  updateSettings (·.write payload)

section DecidableAddress

variable [DecidableEq A]

/-- Schedule a change behind the timelock; one change of a kind may be pending. -/
def scheduleConfigChange (kind : ConfigChangeKind) (payload : ConfigChangePayload) :
    ControlM A PUnit := do
  let _ ← authorizedAdmin
  ensureNotPaused
  let pending ← gets (·.settings.pendingConfigChange.has kind)
  reject (pending = true) .roundAlreadyActive
  let scheduledAtLedger ← ledgerSequence
  let activationLedger ← checkedUint 32 (scheduledAtLedger + configTimelockLedgers) .overflow
  updateSettings fun settings =>
    { settings with
      pendingConfigChange := settings.pendingConfigChange.set kind
        { payload := payload
          activationLedger := activationLedger
          scheduledAtLedger := scheduledAtLedger } }

/-- The schedulers validate the new value, then schedule it. -/
def schedule (payload : ConfigChangePayload) : ControlM A PUnit := do
  let _ ← requireSupportedSchema
  validateConfigPayload payload
  scheduleConfigChange payload.kind payload

def scheduleMinBet (minAmount : Option ℤ) : ControlM A PUnit :=
  schedule (.minBet minAmount)

def scheduleWindows (betLedgers runLedgers : ℕ) : ControlM A PUnit :=
  schedule (.windows betLedgers runLedgers)

def scheduleMaxStake (maxAmount : Option ℤ) : ControlM A PUnit :=
  schedule (.maxStake maxAmount)

def scheduleMaxUserExposure (maxExposure : Option ℤ) : ControlM A PUnit :=
  schedule (.maxUserRoundExposure maxExposure)

def scheduleMaxPendingWinnings (maxPending : Option ℤ) : ControlM A PUnit :=
  schedule (.maxPendingWinnings maxPending)

def scheduleOracleStaleThreshold (seconds : ℕ) : ControlM A PUnit :=
  schedule (.oracleStaleThreshold seconds)

def scheduleOracleDeviationBps (bps : Option ℕ) : ControlM A PUnit :=
  schedule (.oracleMaxDeviationBps bps)

def scheduleOracleTimestampSkew (seconds : ℕ) : ControlM A PUnit :=
  schedule (.oracleTimestampSkew seconds)

def scheduleProtocolFeeBps (bps : Option ℕ) : ControlM A PUnit :=
  schedule (.protocolFeeBps bps)

def schedulePendingWinningsExpiry (ledgers : ℕ) : ControlM A PUnit :=
  schedule (.pendingWinningsExpiry ledgers)

/-- Apply a scheduled change once its activation ledger is reached. -/
def applyScheduledChanges (kind : ConfigChangeKind) : ControlM A PUnit := do
  let _ ← requireSupportedSchema
  ensureNormalMode
  let pending ← gets (·.settings.pendingConfigChange.get kind)
  let pending ← orError pending .commitmentNotFound
  let currentLedger ← ledgerSequence
  reject (currentLedger < pending.activationLedger) .roundNotEnded
  applyConfigPayload kind pending.payload
  updateSettings fun settings =>
    { settings with pendingConfigChange := settings.pendingConfigChange.remove kind }

/-- Cancel a scheduled change before its activation ledger. -/
def cancelConfigChange (kind : ConfigChangeKind) : ControlM A PUnit := do
  let _ ← adminGate
  let pending ← gets (·.settings.pendingConfigChange.get kind)
  let pending ← orError pending .commitmentNotFound
  let currentLedger ← ledgerSequence
  reject (currentLedger ≥ pending.activationLedger) .roundNotCancellable
  updateSettings fun settings =>
    { settings with pendingConfigChange := settings.pendingConfigChange.remove kind }

/-! ## Immediate changes -/

/-- The immediate setters authenticate the administrator, then validate and write the value. -/
def setNow (payload : ConfigChangePayload) : ControlM A PUnit := do
  let _ ← adminGate
  validateConfigPayload payload
  updateSettings (·.write payload)

/-- Set the fee incidence model. -/
def setFeeModel (model : FeeModel) : ControlM A PUnit :=
  setNow (.feeModel model)

def setCloseBufferLedgers (bufferLedgers : ℕ) : ControlM A PUnit :=
  setNow (.closeBufferLedgers bufferLedgers)

def setMinParticipants (min : Option ℕ) : ControlM A PUnit :=
  setNow (.minParticipants min)

def setMaxPrecisionParticipants (max : ℕ) : ControlM A PUnit :=
  setNow (.maxPrecisionParticipants max)

def setPrecisionPayoutPolicy (policy : ℕ) : ControlM A PUnit :=
  setNow (.precisionPayoutPolicy policy)

def setMintLimit (limit : ℕ) : ControlM A PUnit :=
  setNow (.mintLimit limit)

def setEpochMintBudget (budget : ℤ) : ControlM A PUnit :=
  setNow (.epochMintBudget budget)

def setArchiveRetention (limit : ℕ) : ControlM A PUnit :=
  setNow (.archiveRetention limit)

/-- Set the dispute window length in ledgers; 0 settles immediately. -/
def setDisputeLedgers (ledgers : ℕ) : ControlM A PUnit :=
  setNow (.disputeLedgers ledgers)

/-- Set the early cash-out penalty rate; no rate disables early cash-out. -/
def setEarlyCashoutBps (bps : Option ℕ) : ControlM A PUnit :=
  setNow (.earlyCashoutBps bps)

/-- Store the blueprint for `createNextFromTemplate`. -/
def setRoundTemplate (startPrice : ℕ) (mode : Option ℕ) : ControlM A PUnit := do
  let _ ← adminGate
  validateRoundTemplate startPrice mode
  updateSettings fun settings =>
    { settings with roundTemplate := some { startPrice := startPrice, mode := mode } }

/-- Remove the configured round template. -/
def clearRoundTemplate : ControlM A PUnit := do
  let _ ← adminGate
  let template ← gets (·.settings.roundTemplate)
  reject (template.isNone) .commitmentNotFound
  updateSettings fun settings => { settings with roundTemplate := none }

/-! ## Protocol fee -/

/-- Pay a fee amount out of the treasury to a recipient's balance. -/
def executeWithdrawFee (recipient : A) (amount : ℤ) : ContractM A ℤ := do
  reject (amount ≤ 0) .invalidBetAmount
  let current ← readTreasury
  reject (amount > current) .insufficientBalance
  let newTreasury ← checked (current - amount) .insufficientBalance
  setTreasury newTreasury
  let recipientBalance ← gets (·.vault.balanceOf recipient)
  let newBalance ← payoutAdd recipientBalance amount
  setBalance recipient newBalance
  return amount

/-- Withdraw collected fees directly, possible only without a governance approver. -/
def withdrawProtocolFee (recipient : A) (amount : ℤ) : ContractM A ℤ := do
  let _ ← onControl requireSupportedSchema
  let _ ← onControl authorizedAdmin
  let governed ← gets (isGovApproverSet ·.control.governance)
  reject (governed = true) .govUnauthorized
  onControl ensureNotPaused
  executeWithdrawFee recipient amount

end DecidableAddress

/-- Collect a protocol fee: the insurance part to the fund, the rest to the treasury. -/
def collectProtocolFee (feeAmount : ℤ) : ContractM A PUnit :=
  onlyIf (¬ feeAmount ≤ 0) do
    let insuranceAmount ← collectInsuranceFee feeAmount
    let opsAmount ← checked (feeAmount - insuranceAmount) .overflow
    let current ← readTreasury
    let newTreasury ← checked (current + opsAmount) .overflow
    setTreasury newTreasury

/-- The fee of an UpDown settlement: the pools left to distribute, and the fee. The fee comes out
of the losing pool first; under fee-on-pot it may spill into the winning pool. -/
def calculateProtocolFeeUpdown (bps : Option ℕ) (model : FeeModel) (winningPool losingPool : ℤ) :
    Except Failure (ℤ × ℤ × ℤ) :=
  match bps, model with
  | none, _ => return (winningPool, losingPool, 0)
  | some bpsValue, .feeOnPot => do
      let totalPot ← payoutAdd winningPool losingPool
      let product ← checked (totalPot * bpsValue) .overflow
      let feeAmount ← divide product bpsDenominator
      if feeAmount = 0 then
        return (winningPool, losingPool, 0)
      else
        let feeFromLosing := min feeAmount losingPool
        let feeFromWinning ← checked (feeAmount - feeFromLosing) .overflow
        let distWinning ← checked (winningPool - feeFromWinning) .overflow
        let distLosing ← checked (losingPool - feeFromLosing) .overflow
        return (distWinning, distLosing, feeAmount)
  | some bpsValue, .feeOnWinnings => do
      let product ← checked (losingPool * bpsValue) .overflow
      let feeAmount ← divide product bpsDenominator
      if feeAmount = 0 then
        return (winningPool, losingPool, 0)
      else
        let distLosing ← checked (losingPool - feeAmount) .overflow
        return (winningPool, distLosing, feeAmount)

/-- Calculate and collect the fee of an UpDown settlement. -/
def applyProtocolFeeUpdown (winningPool losingPool : ℤ) : ContractM A (ℤ × ℤ × ℤ) := do
  let bps ← gets (·.control.settings.protocolFeeBps)
  let model ← gets (·.control.settings.readFeeModel)
  let result ← calculateProtocolFeeUpdown bps model winningPool losingPool
  onlyIf (result.2.2 > 0) (collectProtocolFee result.2.2)
  return result

/-- What the fee of a Precision settlement is taken from: the pot, or under fee-on-winnings the
pot beyond the winners' own stakes. -/
def precisionTaxableBase (model : FeeModel) (totalPot winnerStakes : ℤ) : Except Failure ℤ :=
  match model with
  | .feeOnPot => return totalPot
  | .feeOnWinnings => checked (totalPot - winnerStakes) .overflow

/-- The fee of a Precision settlement: what is left to distribute, and the fee. -/
def calculateProtocolFeePrecision (bps : Option ℕ) (model : FeeModel)
    (totalPot winnerStakes : ℤ) : Except Failure (ℤ × ℤ) :=
  match bps with
  | none => return (totalPot, 0)
  | some bpsValue =>
      if totalPot ≤ 0 then
        return (totalPot, 0)
      else do
        let taxableBase ← precisionTaxableBase model totalPot winnerStakes
        -- only the profit of fee-on-winnings can fail to be positive here
        if taxableBase ≤ 0 then
          return (totalPot, 0)
        else
          let product ← checked (taxableBase * bpsValue) .overflow
          let feeAmount ← divide product bpsDenominator
          if feeAmount = 0 then
            return (totalPot, 0)
          else
            let distributable ← checked (totalPot - feeAmount) .overflow
            return (distributable, feeAmount)

/-- Calculate and collect the fee of a Precision settlement. -/
def applyProtocolFeePrecision (totalPot winnerStakes : ℤ) : ContractM A (ℤ × ℤ) := do
  let bps ← gets (·.control.settings.protocolFeeBps)
  let model ← gets (·.control.settings.readFeeModel)
  let result ← calculateProtocolFeePrecision bps model totalPot winnerStakes
  onlyIf (result.2 > 0) (collectProtocolFee result.2)
  return result

end XelmaMarket
