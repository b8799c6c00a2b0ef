import Mathlib.Data.Int.Basic

/-!
# Contract types

The value types of the market contract under the source's names. Amounts (`i128`) are integers,
ledger numbers, counters and prices (`u32`, `u64`, `u128`) are natural numbers, and the widths
matter where the code computes with them. `A` is the type of account addresses.
-/

namespace XelmaMarket

/-- A byte string of a fixed length. -/
abbrev BytesN (n : ℕ) := Vector UInt8 n

/-- A byte string. -/
abbrev Bytes := List UInt8

/-- Contract error types. -/
inductive ContractError where
  | alreadyInitialized | adminNotSet | oracleNotSet | invalidBetAmount | noActiveRound
  | roundEnded | insufficientBalance | alreadyBet | overflow | invalidPrice | invalidDuration
  | invalidMode | wrongModeForPrediction | roundNotEnded | staleOracleData | invalidOracleRound
  | roundAlreadyActive | contractPaused | windowOutOfRange | futureOracleData | payoutOverflow
  | roundNotCancellable | stakeExceedsMax | exposureCapExceeded | pendingWinningsCapExceeded
  | invalidStartPrice | oracleNonceReused | invalidMinParticipants | invalidPrecisionCap
  | precisionCapExceeded | oracleDeviationExceeded | unsupportedSchemaVersion
  | migrationActiveRound | commitmentNotFound | alreadyRevealed | invalidRevealWindow
  | hashMismatch | oracleNetworkMismatch | invalidProtocolFeeBps | mintLimitExceeded
  | noPendingRotation | rotationDelayNotElapsed | invalidArchiveRetention | invalidCommitment
  | invalidSalt | noRoundTemplate | oracleTimestampOutsideWindow | pendingWinningsNotExpired
  | epochBudgetExceeded | oracleNotLive | invalidPayoutPolicy | belowMinBet
  | insufficientOracleQuorum | tooFewObservations | oracleOutlierRejected
  | duplicateOracleSource | invalidObservationOrder | unsupportedDataKeyForTtlTouch
  | pendingWinningsNotFound | expiryNotConfigured | accessDenied | proposalNotFound
  | proposalExpired | govInvalidState | govUnauthorized | illegalPhaseTransition
  | oracleHeartbeatUnhealthy | claimBatchTooLarge | duplicateClaimAddress
  | earlyCashoutDisabled | positionNotFound | invalidPhaseForCashout | wrongModeForCashout
  | insuranceInvalidSplit | insuranceInsufficientFund | invalidAmount | disputeWindowExpired
  | claimLocked | roundStartLedgerReused | pageSizeExceeded
  deriving DecidableEq, Repr

/-- Why an invocation failed: an error of the contract or a trap of the host. -/
inductive Failure where
  | err (error : ContractError)
  | trap
  deriving DecidableEq, Repr

/-! ## Rounds and positions -/

/-- Round mode for prediction type. -/
inductive RoundMode where
  | upDown
  | precision
  deriving DecidableEq, Repr

/-- The stored number of a round mode. -/
def RoundMode.value : RoundMode → ℕ
  | .upDown => 0
  | .precision => 1

/-- Runtime mode for the contract lifecycle. -/
inductive RuntimeMode where
  | normal
  | claimsOnly
  | fullyPaused
  deriving DecidableEq, Repr

/-- Policy action class consumed by the central policy gate. -/
inductive PolicyAction where
  | roundMutation
  | claim
  | adminConfig
  | settlement
  deriving DecidableEq, Repr

/-- Which side a user bet on. -/
inductive BetSide where
  | up
  | down
  deriving DecidableEq, Repr

/-- The stored number of a side. -/
def BetSide.value : BetSide → ℕ
  | .up => 0
  | .down => 1

structure UserPosition where
  amount : ℤ
  side : BetSide
  deriving DecidableEq, Repr

/-- Precision prediction entry: user address and predicted price. -/
structure PrecisionPrediction (A : Type) where
  user : A
  predictedPrice : ℕ
  amount : ℤ
  deriving DecidableEq, Repr

structure PrecisionCommitment where
  hash : BytesN 32
  amount : ℤ
  revealed : Bool
  deriving DecidableEq, Repr

structure Round where
  roundId : ℕ
  priceStart : ℕ
  startLedger : ℕ
  startTimestamp : ℕ
  betEndLedger : ℕ
  endLedger : ℕ
  poolUp : ℤ
  poolDown : ℤ
  mode : RoundMode
  deriving DecidableEq, Repr

/-- A round resolved into its dispute window: the round record is copied. -/
structure PendingDisputeSettlement where
  round : Round
  finalPrice : ℕ
  confidence : Option ℕ
  resolvedAtLedger : ℕ
  deadlineLedger : ℕ
  deriving DecidableEq, Repr

/-- Blueprint for `createNextFromTemplate`. -/
structure RoundTemplate where
  startPrice : ℕ
  mode : Option ℕ
  deriving DecidableEq, Repr

/-! ## Outcomes, archives and statistics -/

inductive UserOutcomeType where
  | win
  | loss
  | refund
  | cancel
  | void
  deriving DecidableEq, Repr

structure UserRoundOutcome (A : Type) where
  user : A
  roundMode : ℕ
  predictionSide : ℕ
  predictedPrice : ℕ
  stake : ℤ
  payout : ℤ
  outcome : UserOutcomeType
  deriving DecidableEq, Repr

/-- Simulated payout result for a hypothetical final price. -/
structure SimulationResult (A : Type) where
  mode : RoundMode
  poolUp : ℤ
  poolDown : ℤ
  precisionTotalStake : ℤ
  feeAmount : ℤ
  feeModel : ℕ
  outcomes : List (UserRoundOutcome A)
  deriving DecidableEq, Repr

/-- Terminal outcome recorded when a round leaves the active state. -/
inductive RoundArchiveStatus where
  | resolved
  | cancelled
  | fallbackRefund
  | voided
  deriving DecidableEq, Repr

/-- The stored number of an archive status. -/
def RoundArchiveStatus.value : RoundArchiveStatus → ℕ
  | .resolved => 0
  | .cancelled => 1
  | .fallbackRefund => 2
  | .voided => 3

structure ArchivedRoundSummary where
  roundId : ℕ
  priceStart : ℕ
  priceFinal : ℕ
  mode : RoundMode
  status : RoundArchiveStatus
  poolUp : ℤ
  poolDown : ℤ
  participantCount : ℕ
  settledAtLedger : ℕ
  deriving DecidableEq, Repr

/-- The `("round", "summary")` event of an archived round. -/
structure RoundSummaryEvent where
  roundId : ℕ
  status : ℕ
  mode : ℕ
  finalPrice : ℕ
  participantCount : ℕ
  totalPot : ℤ
  feeAmount : ℤ
  settledAtLedger : ℕ
  confidence : ℕ
  feeModel : ℕ
  deriving DecidableEq, Repr

structure UserStats where
  totalWins : ℕ
  totalLosses : ℕ
  currentStreak : ℕ
  bestStreak : ℕ
  deriving DecidableEq, Repr

/-- The statistics of an address without an entry. -/
def UserStats.zero : UserStats :=
  ⟨0, 0, 0, 0⟩

/-- One entry of a season leaderboard, live or archived. -/
structure SeasonLeaderboardEntry (A : Type) where
  user : A
  wins : ℕ
  bestStreak : ℕ
  deriving DecidableEq, Repr

/-- Frozen snapshot of a season's final bounded rankings. -/
structure SeasonArchive (A : Type) where
  seasonId : ℕ
  endedAtLedger : ℕ
  wins : List (SeasonLeaderboardEntry A)
  streak : List (SeasonLeaderboardEntry A)
  participantCount : ℕ
  deriving DecidableEq, Repr

/-! ## Oracle -/

structure OraclePayload (A : Type) where
  price : ℕ
  timestamp : ℕ
  roundId : ℕ
  nonce : ℕ
  networkId : BytesN 32
  contractAddr : A
  confidence : Option ℕ
  attestation : Option (BytesN 64)
  deriving DecidableEq, Repr

/-- Multi-feed oracle resolution payload. -/
structure MultiFeedPayload (A : Type) where
  prices : List ℕ
  sources : List ℕ
  roundId : ℕ
  nonce : ℕ
  networkId : BytesN 32
  contractAddr : A
  timestamp : ℕ
  deriving DecidableEq, Repr

/-- Oracle liveness record; status 0 = active, 1 = degraded, 2 = offline. -/
structure OracleHeartbeatRecord where
  timestamp : ℕ
  status : ℕ
  deriving DecidableEq, Repr

structure OracleQuorumConfig where
  minObservations : ℕ
  quorumThreshold : ℕ
  outlierThresholdBps : ℕ
  deriving DecidableEq, Repr

structure OracleRotationProposal (A : Type) where
  newOracle : A
  proposedAt : ℕ
  expiresAt : ℕ
  deriving DecidableEq, Repr

structure PriceSample where
  price : ℕ
  timestamp : ℕ
  deriving DecidableEq, Repr

inductive DeviationReferenceMode where
  | startPrice
  | twap
  deriving DecidableEq, Repr

structure DeviationConfig where
  referenceMode : DeviationReferenceMode
  windowSamples : ℕ
  deriving DecidableEq, Repr

structure AttestationConfig where
  key : Option (BytesN 32)
  deriving DecidableEq, Repr

structure HbGateConfig where
  strictMode : Bool
  overrideArmed : Bool
  graceSeconds : ℕ
  deriving DecidableEq, Repr

/-- The three unit-variant keys `DeviationConfigKey::Config`, `AttestationConfigKey::Config` and
`HbGateKey::Config`. -/
inductive ConfigKey where
  | deviationConfigKey
  | attestationConfigKey
  | hbGateKey
  deriving DecidableEq, Repr

/-- A value stored under one of the keys of `ConfigKey`. -/
inductive ConfigEntry where
  | deviation (config : DeviationConfig)
  | attestation (config : AttestationConfig)
  | hbGate (config : HbGateConfig)
  deriving DecidableEq, Repr

/-! ## Configuration and governance -/

/-- Fee incidence model. -/
inductive FeeModel where
  | feeOnPot
  | feeOnWinnings
  deriving DecidableEq, Repr

/-- The stored number of a fee model. -/
def FeeModel.value : FeeModel → ℕ
  | .feeOnPot => 0
  | .feeOnWinnings => 1

/-- Payout policy for Precision mode. -/
inductive PrecisionPayoutPolicy where
  | equal
  | stakeWeighted
  deriving DecidableEq, Repr

/-- One-sided market settlement policy. -/
inductive OneSidedPolicy where
  | refund
  | void
  | carryForward
  deriving DecidableEq, Repr

/-- Which critical risk setting is pending timelocked activation. -/
inductive ConfigChangeKind where
  | windows | maxStake | maxUserRoundExposure | maxPendingWinnings | oracleStaleThreshold
  | oracleMaxDeviationBps | protocolFeeBps | minParticipants | maxPrecisionParticipants
  | mintLimit | archiveRetention | closeBufferLedgers | oracleTimestampSkew | epochMintBudget
  | pendingWinningsExpiry | precisionPayoutPolicy | minBet | disputeLedgers | feeModel
  | earlyCashoutBps
  deriving DecidableEq, Repr

/-- Payload for a scheduled critical config change. -/
inductive ConfigChangePayload where
  | windows (betLedgers runLedgers : ℕ)
  | maxStake (max : Option ℤ)
  | maxUserRoundExposure (max : Option ℤ)
  | maxPendingWinnings (max : Option ℤ)
  | oracleStaleThreshold (seconds : ℕ)
  | oracleMaxDeviationBps (bps : Option ℕ)
  | protocolFeeBps (bps : Option ℕ)
  | minParticipants (min : Option ℕ)
  | maxPrecisionParticipants (max : ℕ)
  | mintLimit (limit : ℕ)
  | archiveRetention (limit : ℕ)
  | closeBufferLedgers (buffer : ℕ)
  | oracleTimestampSkew (seconds : ℕ)
  | epochMintBudget (budget : ℤ)
  | pendingWinningsExpiry (ledgers : ℕ)
  | precisionPayoutPolicy (policy : ℕ)
  | minBet (min : Option ℤ)
  | disputeLedgers (ledgers : ℕ)
  | feeModel (model : FeeModel)
  | earlyCashoutBps (bps : Option ℕ)
  deriving DecidableEq, Repr

/-- Pending timelocked config change. -/
structure PendingConfigChange where
  payload : ConfigChangePayload
  activationLedger : ℕ
  scheduledAtLedger : ℕ
  deriving DecidableEq, Repr

/-- Eligible failure events for insurance coverage. -/
inductive InsuranceEvent where
  | oracleOutage
  | oracleDeviation
  | fallbackRefund
  deriving DecidableEq, Repr

/-- The stored number of an insurance event. -/
def InsuranceEvent.value : InsuranceEvent → ℕ
  | .oracleOutage => 0
  | .oracleDeviation => 1
  | .fallbackRefund => 2

/-- Governance proposal lifecycle status. -/
inductive GovProposalStatus where
  | pending
  | approved
  | executed
  | cancelled
  | expired
  deriving DecidableEq, Repr

/-- Protected administrative action types. -/
inductive GovAction (A : Type) where
  | pauseProtocol
  | unpauseProtocol
  | setProtocolFeeBps (bps : Option ℕ)
  | withdrawProtocolFee (recipient : A) (amount : ℤ)
  | setTreasuryAddress (treasury : A)
  | setAdmin (newAdmin : A)
  | setOracle (newOracle : A)
  | withdrawInsuranceFund (recipient : A) (amount : ℤ)
  | setInsuranceSplitBps (bps : ℕ)
  | setInsuranceCoverageBps (bps : ℕ)
  deriving DecidableEq, Repr

/-- Stored governance proposal. -/
structure GovProposal (A : Type) where
  id : ℕ
  proposer : A
  approver : Option A
  action : GovAction A
  createdAtLedger : ℕ
  expiresAtLedger : ℕ
  status : GovProposalStatus
  deriving DecidableEq, Repr

/-- Amendment proposal lifecycle status. -/
inductive AmendmentStatus where
  | pending
  | vetoed
  | activationReady
  | activated
  | expired
  deriving DecidableEq, Repr

/-- Amendment proposal; the host value `newValue` is opaque to the contract. -/
structure Amendment (A : Type) where
  id : ℕ
  proposer : A
  parameterName : String
  newValue : ℕ
  createdAtLedger : ℕ
  vetoDeadlineLedger : ℕ
  activationDeadlineLedger : ℕ
  status : AmendmentStatus
  deriving DecidableEq, Repr

structure ConstitutionMetadata where
  vetoWindowLedgers : ℕ
  timelockLedgers : ℕ
  dualApprovalRequired : Bool
  establishedAtLedger : ℕ
  deriving DecidableEq, Repr

end XelmaMarket
