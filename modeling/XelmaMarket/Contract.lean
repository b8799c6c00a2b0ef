import XelmaMarket.Governance
import XelmaMarket.Lib.Transition
import XelmaMarket.Oracle
import XelmaMarket.Queries

/-!
# The contract

The entrypoints that can change the storage, their dispatch, and the chain the contract lives on:
ledgers close, temporary entries expire, and invocations run against the storage. An invocation
that returns an error or traps leaves the storage as it was, so only successful ones are steps.
Entrypoints that only read, and the one that only extends time-to-live, are left out.
-/

namespace XelmaMarket

open Transaction

variable {A : Type}

/-- The entrypoints that touch the administration only. -/
inductive ControlCall (A : Type) where
  | initializeContract (admin oracle : A)
  | announceNextSchema (targetVersion : ℕ)
  | clearNextSchema
  | pauseContract
  | unpauseContract
  | setRuntimeMode (mode : ℕ)
  | setDeviationRefMode (mode : DeviationReferenceMode) (windowSamples : ℕ)
  | setAttestationKey (key : Option (BytesN 32))
  | armOracleDeviationOverride
  | setOracleMinConfidenceBps (minBps : Option ℕ)
  | setOracleStrictMode (enabled : Bool)
  | setHbStrictMode (enabled : Bool)
  | armHbOverride
  | setHbGraceSeconds (seconds : ℕ)
  | updateOracleHeartbeat (status : ℕ)
  | setOracleQuorumConfig (config : Option OracleQuorumConfig)
  | proposeOracleRotation (newOracle : A) (expiresInSeconds : ℕ)
  | acceptOracleRotation
  | cancelOracleRotation
  | getOracleRotationProposal
  | setAccessControlEnabled (enabled : Bool)
  | addAllowlisted (user : A)
  | removeAllowlisted (user : A)
  | addDenylisted (user : A)
  | removeDenylisted (user : A)
  | setGovApprover (approver : A)
  | setGovProposalTtl (ttlLedgers : ℕ)
  | proposeGovAction (proposer : A) (action : GovAction A) (customTtl : Option ℕ)
  | approveGovProposal (approver : A) (proposalId : ℕ)
  | cancelGovProposal (canceller : A) (proposalId : ℕ)
  | establishConstitution (vetoWindowLedgers timelockLedgers : ℕ) (dualApprovalRequired : Bool)
  | proposeAmendment (proposer : A) (parameterName : String) (newValue : ℕ)
  | vetoAmendment (vetoer : A) (amendmentId : ℕ)
  | activateAmendment (activator : A) (amendmentId : ℕ)
  | getAmendment (amendmentId : ℕ)
  | scheduleWindows (betLedgers runLedgers : ℕ)
  | scheduleMaxStake (maxAmount : Option ℤ)
  | scheduleMinBet (minAmount : Option ℤ)
  | scheduleMaxUserExposure (maxExposure : Option ℤ)
  | scheduleMaxPendingWinnings (maxPending : Option ℤ)
  | scheduleOracleStaleThreshold (seconds : ℕ)
  | scheduleOracleDeviationBps (bps : Option ℕ)
  | scheduleOracleTimestampSkew (seconds : ℕ)
  | scheduleProtocolFeeBps (bps : Option ℕ)
  | schedulePendingWinningsExpiry (ledgers : ℕ)
  | applyScheduledChanges (kind : ConfigChangeKind)
  | cancelConfigChange (kind : ConfigChangeKind)
  | setFeeModel (model : FeeModel)
  | setMinParticipants (min : Option ℕ)
  | setMaxPrecisionParticipants (max : ℕ)
  | setPrecisionPayoutPolicy (policy : ℕ)
  | setMintLimit (limit : ℕ)
  | setEpochMintBudget (budget : ℤ)
  | setArchiveRetention (limit : ℕ)
  | setCloseBufferLedgers (bufferLedgers : ℕ)
  | setEarlyCashoutBps (bps : Option ℕ)
  | setDisputeLedgers (ledgers : ℕ)
  | setRoundTemplate (startPrice : ℕ) (mode : Option ℕ)
  | clearRoundTemplate
  | setInsuranceSplitBps (bps : ℕ)
  | setInsuranceCoverageBps (bps : ℕ)
  | setInsuranceEligibleEvents (events : List ℕ)

/-- The entrypoints that can change the storage. The `set_` entrypoints that only forward to a
`schedule_` entrypoint are that entrypoint. -/
inductive Call (A : Type) where
  | control (call : ControlCall A)
  | migrateSchemaV1ToV2 (dryRun : Bool)
  | migrateSchemaV2ToV3 (dryRun : Bool)
  | executeGovProposal (executor : A) (proposalId : ℕ)
  | withdrawProtocolFee (recipient : A) (amount : ℤ)
  | topUpInsuranceFund (amount : ℤ)
  | withdrawInsuranceFund (recipient : A) (amount : ℤ)
  | reclaimExpiredPendingWinnings (user : A)
  | resetLeaderboardSeason
  | mintInitial (user : A)
  | createRound (startPrice : ℕ) (mode : Option ℕ)
  | createNextFromTemplate
  | placeBet (user : A) (amount : ℤ) (side : BetSide)
  | placePrecisionPrediction (user : A) (amount : ℤ) (predictedPrice : ℕ)
  | predictPrice (user : A) (guessedPrice : ℕ) (amount : ℤ)
  | commitPrediction (user : A) (hash : BytesN 32) (amount : ℤ)
  | revealPrediction (user : A) (predictedPrice : ℕ) (salt : BytesN 32)
  | cashOutEarly (user : A)
  | resolveRound (payload : OraclePayload A)
  | resolveRoundMulti (payload : MultiFeedPayload A)
  | cancelRound (reason : ℕ)
  | voidRound (roundId : ℕ)
  | finalizeRound (roundId : ℕ)
  | claimWinnings (user : A)
  | claimMany (users : List A)

section DecidableAddress

variable [DecidableEq A]

/-- Run a transaction for its effect. -/
def discardResult {σ α : Type} (m : Transaction (Env A) σ Failure α) :
    Transaction (Env A) σ Failure PUnit := do
  let _ ← m

/-- Dispatch an administrative entrypoint. -/
def ControlCall.exec : ControlCall A → ControlM A PUnit
  | .initializeContract admin oracle => XelmaMarket.initializeContract admin oracle
  | .announceNextSchema targetVersion => XelmaMarket.announceNextSchema targetVersion
  | .clearNextSchema => XelmaMarket.clearNextSchema
  | .pauseContract => XelmaMarket.pauseContract
  | .unpauseContract => XelmaMarket.unpauseContract
  | .setRuntimeMode mode => XelmaMarket.setRuntimeMode mode
  | .setDeviationRefMode mode windowSamples => XelmaMarket.setDeviationRefMode mode windowSamples
  | .setAttestationKey key => XelmaMarket.setAttestationKey key
  | .armOracleDeviationOverride => XelmaMarket.armOracleDeviationOverride
  | .setOracleMinConfidenceBps minBps => XelmaMarket.setOracleMinConfidenceBps minBps
  | .setOracleStrictMode enabled => XelmaMarket.setOracleStrictMode enabled
  | .setHbStrictMode enabled => XelmaMarket.setHbStrictMode enabled
  | .armHbOverride => XelmaMarket.armHbOverride
  | .setHbGraceSeconds seconds => XelmaMarket.setHbGraceSeconds seconds
  | .updateOracleHeartbeat status => XelmaMarket.updateOracleHeartbeat status
  | .setOracleQuorumConfig config => XelmaMarket.setOracleQuorumConfig config
  | .proposeOracleRotation newOracle expiresInSeconds =>
      XelmaMarket.proposeOracleRotation newOracle expiresInSeconds
  | .acceptOracleRotation => XelmaMarket.acceptOracleRotation
  | .cancelOracleRotation => XelmaMarket.cancelOracleRotation
  | .getOracleRotationProposal => discardResult XelmaMarket.getOracleRotationProposal
  | .setAccessControlEnabled enabled => XelmaMarket.setAccessControlEnabled enabled
  | .addAllowlisted user => XelmaMarket.addAllowlisted user
  | .removeAllowlisted user => XelmaMarket.removeAllowlisted user
  | .addDenylisted user => XelmaMarket.addDenylisted user
  | .removeDenylisted user => XelmaMarket.removeDenylisted user
  | .setGovApprover approver => XelmaMarket.setGovApprover approver
  | .setGovProposalTtl ttlLedgers => XelmaMarket.setGovProposalTtl ttlLedgers
  | .proposeGovAction proposer action customTtl =>
      discardResult (propose proposer action customTtl)
  | .approveGovProposal approver proposalId => approve approver proposalId
  | .cancelGovProposal canceller proposalId => cancel canceller proposalId
  | .establishConstitution vetoWindowLedgers timelockLedgers dualApprovalRequired =>
      XelmaMarket.establishConstitution vetoWindowLedgers timelockLedgers dualApprovalRequired
  | .proposeAmendment proposer parameterName newValue =>
      discardResult (XelmaMarket.proposeAmendment proposer parameterName newValue)
  | .vetoAmendment vetoer amendmentId => XelmaMarket.vetoAmendment vetoer amendmentId
  | .activateAmendment activator amendmentId =>
      XelmaMarket.activateAmendment activator amendmentId
  | .getAmendment amendmentId => discardResult (XelmaMarket.getAmendment amendmentId)
  | .scheduleWindows betLedgers runLedgers => XelmaMarket.scheduleWindows betLedgers runLedgers
  | .scheduleMaxStake maxAmount => XelmaMarket.scheduleMaxStake maxAmount
  | .scheduleMinBet minAmount => XelmaMarket.scheduleMinBet minAmount
  | .scheduleMaxUserExposure maxExposure => XelmaMarket.scheduleMaxUserExposure maxExposure
  | .scheduleMaxPendingWinnings maxPending => XelmaMarket.scheduleMaxPendingWinnings maxPending
  | .scheduleOracleStaleThreshold seconds => XelmaMarket.scheduleOracleStaleThreshold seconds
  | .scheduleOracleDeviationBps bps => XelmaMarket.scheduleOracleDeviationBps bps
  | .scheduleOracleTimestampSkew seconds => XelmaMarket.scheduleOracleTimestampSkew seconds
  | .scheduleProtocolFeeBps bps => XelmaMarket.scheduleProtocolFeeBps bps
  | .schedulePendingWinningsExpiry ledgers => XelmaMarket.schedulePendingWinningsExpiry ledgers
  | .applyScheduledChanges kind => XelmaMarket.applyScheduledChanges kind
  | .cancelConfigChange kind => XelmaMarket.cancelConfigChange kind
  | .setFeeModel model => XelmaMarket.setFeeModel model
  | .setMinParticipants min => XelmaMarket.setMinParticipants min
  | .setMaxPrecisionParticipants max => XelmaMarket.setMaxPrecisionParticipants max
  | .setPrecisionPayoutPolicy policy => XelmaMarket.setPrecisionPayoutPolicy policy
  | .setMintLimit limit => XelmaMarket.setMintLimit limit
  | .setEpochMintBudget budget => XelmaMarket.setEpochMintBudget budget
  | .setArchiveRetention limit => XelmaMarket.setArchiveRetention limit
  | .setCloseBufferLedgers bufferLedgers => XelmaMarket.setCloseBufferLedgers bufferLedgers
  | .setEarlyCashoutBps bps => XelmaMarket.setEarlyCashoutBps bps
  | .setDisputeLedgers ledgers => XelmaMarket.setDisputeLedgers ledgers
  | .setRoundTemplate startPrice mode => XelmaMarket.setRoundTemplate startPrice mode
  | .clearRoundTemplate => XelmaMarket.clearRoundTemplate
  | .setInsuranceSplitBps bps => XelmaMarket.setInsuranceSplitBps bps
  | .setInsuranceCoverageBps bps => XelmaMarket.setInsuranceCoverageBps bps
  | .setInsuranceEligibleEvents events => XelmaMarket.setInsuranceEligibleEvents events

end DecidableAddress

variable [LinearOrder A]

/-- Dispatch an entrypoint. -/
def Call.exec : Call A → ContractM A PUnit
  | .control call => onControl call.exec
  | .migrateSchemaV1ToV2 dryRun => XelmaMarket.migrateSchemaV1ToV2 dryRun
  | .migrateSchemaV2ToV3 dryRun => XelmaMarket.migrateSchemaV2ToV3 dryRun
  | .executeGovProposal executor proposalId => execute executor proposalId
  | .withdrawProtocolFee recipient amount =>
      discardResult (XelmaMarket.withdrawProtocolFee recipient amount)
  | .topUpInsuranceFund amount => XelmaMarket.topUpInsuranceFund amount
  | .withdrawInsuranceFund recipient amount =>
      discardResult (XelmaMarket.withdrawInsuranceFund recipient amount)
  | .reclaimExpiredPendingWinnings user =>
      discardResult (XelmaMarket.reclaimExpiredPendingWinnings user)
  | .resetLeaderboardSeason => discardResult XelmaMarket.resetLeaderboardSeason
  | .mintInitial user => discardResult (XelmaMarket.mintInitial user)
  | .createRound startPrice mode => XelmaMarket.createRound startPrice mode
  | .createNextFromTemplate => discardResult XelmaMarket.createNextFromTemplate
  | .placeBet user amount side => XelmaMarket.placeBet user amount side
  | .placePrecisionPrediction user amount predictedPrice =>
      XelmaMarket.placePrecisionPrediction user amount predictedPrice
  | .predictPrice user guessedPrice amount => XelmaMarket.predictPrice user guessedPrice amount
  | .commitPrediction user hash amount => XelmaMarket.commitPrediction user hash amount
  | .revealPrediction user predictedPrice salt =>
      XelmaMarket.revealPrediction user predictedPrice salt
  | .cashOutEarly user => XelmaMarket.cashOutEarly user
  | .resolveRound payload => XelmaMarket.resolveRound payload
  | .resolveRoundMulti payload => XelmaMarket.resolveRoundMulti payload
  | .cancelRound reason => XelmaMarket.cancelRound reason
  | .voidRound roundId => XelmaMarket.voidRound roundId
  | .finalizeRound roundId => XelmaMarket.finalizeRound roundId
  | .claimWinnings user => discardResult (XelmaMarket.claimWinnings user)
  | .claimMany users => discardResult (XelmaMarket.claimMany users)

/-! ## The chain -/

/-- The current ledger and the contract's storage. -/
structure Chain (A : Type) where
  ledger : Ledger
  storage : Storage A

/-- The temporary entries that may expire. -/
inductive TemporaryKey where
  | ledgerMintCounter (sequence : ℕ)
  | epMintCsm
  | epMintEpc

/-- The mint counters without an expired entry. -/
def Meter.expire (meter : Meter) : TemporaryKey → Meter
  | .ledgerMintCounter sequence =>
      { meter with ledgerMintCounter := meter.ledgerMintCounter.remove sequence }
  | .epMintCsm => { meter with epMintCsm := none }
  | .epMintEpc => { meter with epMintEpc := none }

/-- What can happen on the chain. -/
inductive Action (A : Type) where
  | closeLedger (ledger : Ledger)
  | expire (key : TemporaryKey)
  | invoke (signers : List A) (call : Call A)

/-- One step of the chain. -/
inductive Step (host : Host A) : Chain A → Action A → Chain A → Prop where
  | closeLedger (chain : Chain A) (ledger : Ledger)
      (hsequence : chain.ledger.sequence ≤ ledger.sequence)
      (htimestamp : chain.ledger.timestamp ≤ ledger.timestamp) :
      Step host chain (.closeLedger ledger) { chain with ledger }
  | expire (chain : Chain A) (key : TemporaryKey) :
      Step host chain (.expire key)
        { chain with
          storage := { chain.storage with meter := chain.storage.meter.expire key } }
  | invoke (chain : Chain A) (signers : List A) (call : Call A) (storage : Storage A)
      (hrun : call.exec ⟨host, chain.ledger, signers⟩ chain.storage = .ok (⟨⟩, storage)) :
      Step host chain (.invoke signers call) { chain with storage }

/-- The chain at the deployment of the contract. -/
def Chain.genesis (ledger : Ledger) : Chain A :=
  ⟨ledger, .empty⟩

/-- A history of the contract: a run of the chain from its deployment at some ledger. -/
def History (host : Host A) (trace : List (Transition (Chain A) (Action A)))
    (chain : Chain A) : Prop :=
  ∃ ledger, Run (Step host) (Chain.genesis ledger) trace chain

/-- A chain some history leads to. -/
def Reachable (host : Host A) (chain : Chain A) : Prop :=
  ∃ trace, History host trace chain

end XelmaMarket
