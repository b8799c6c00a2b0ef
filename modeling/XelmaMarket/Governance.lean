import XelmaMarket.Config

/-!
# Governance

Dual-approval proposals for critical administrative actions, the two-step rotation of the oracle,
and the constitution with its amendments. A call that returns an error leaves no trace, so the
writes the source makes right before it returns an error are left out.
-/

namespace XelmaMarket

open Transaction

variable {A : Type} [DecidableEq A]

/-! ## Proposals -/

/-- Whether a user is the administrator or the governance approver. -/
def Governance.isAuthorizedGovUser (governance : Governance A) (user : A) : Bool :=
  decide (governance.admin = some user) || decide (governance.govApprover = some user)

/-- The prefix of a governance call: schema, the caller's authorisation, the caller's role. -/
def governanceGate (caller : A) : ControlM A PUnit := do
  let _ ← requireSupportedSchema
  requireAuth caller
  let authorized ← gets (·.governance.isAuthorizedGovUser caller)
  reject (authorized = false) .govUnauthorized

/-- Configure the secondary governance approver. -/
def setGovApprover (approver : A) : ControlM A PUnit := do
  let _ ← requireSupportedSchema
  let _ ← authorizedAdmin
  updateGovernance fun governance => { governance with govApprover := some approver }

/-- Set the default proposal lifetime in ledgers. -/
def setGovProposalTtl (ttlLedgers : ℕ) : ControlM A PUnit := do
  let _ ← requireSupportedSchema
  let _ ← authorizedAdmin
  reject (ttlLedgers = 0) .windowOutOfRange
  updateGovernance fun governance => { governance with govProposalTtlLedgers := some ttlLedgers }

/-- Store a proposal under its id. -/
def setGovProposal (proposalId : ℕ) (proposal : GovProposal A) : ControlM A PUnit :=
  updateGovernance fun governance =>
    { governance with govProposal := governance.govProposal.set proposalId proposal }

/-- A stored proposal, or an error. -/
def readGovProposal (proposalId : ℕ) : ControlM A (GovProposal A) := do
  let proposal ← gets (·.governance.govProposal.get proposalId)
  orError proposal .proposalNotFound

/-- Propose a protected administrative action. -/
def propose (proposer : A) (action : GovAction A) (customTtl : Option ℕ) : ControlM A ℕ := do
  governanceGate proposer
  let proposalId ← gets (·.governance.nextGovProposalId.getD 1)
  failIf (2 ^ 64 ≤ proposalId + 1) .trap
  updateGovernance fun governance =>
    { governance with nextGovProposalId := some (proposalId + 1) }
  let defaultTtl ← gets (·.governance.govProposalTtlLedgers.getD defaultGovProposalTtlLedgers)
  let createdAtLedger ← ledgerSequence
  setGovProposal proposalId
    { id := proposalId
      proposer := proposer
      approver := none
      action := action
      createdAtLedger := createdAtLedger
      expiresAtLedger := saturatingAddUint 32 createdAtLedger (customTtl.getD defaultTtl)
      status := .pending }
  return proposalId

/-- Approve a pending proposal of another user. -/
def approve (approver : A) (proposalId : ℕ) : ControlM A PUnit := do
  governanceGate approver
  let proposal ← readGovProposal proposalId
  let currentLedger ← ledgerSequence
  reject (currentLedger > proposal.expiresAtLedger) .proposalExpired
  reject (proposal.status = .cancelled ∨ proposal.status = .executed ∨
    proposal.status = .approved) .govInvalidState
  reject (proposal.status = .expired) .proposalExpired
  reject (proposal.proposer = approver) .govInvalidState
  setGovProposal proposalId { proposal with approver := some approver, status := .approved }

/-- Perform the action of an approved proposal. -/
def performGovAction : GovAction A → ContractM A PUnit
  | .pauseProtocol => onControl (setMode .fullyPaused)
  | .unpauseProtocol => onControl (setMode .normal)
  | .setProtocolFeeBps bps => onControl do
      validateProtocolFeeBps bps
      updateSettings fun settings => { settings with protocolFeeBps := bps }
  | .withdrawProtocolFee recipient amount => do
      let _ ← executeWithdrawFee recipient amount
  | .setTreasuryAddress treasury =>
      updateVault fun vault => { vault with protocolFeeTreasury := some (.address treasury) }
  | .setAdmin newAdmin => onControl
      (updateGovernance fun governance => { governance with admin := some newAdmin })
  | .setOracle newOracle => onControl
      (updateGovernance fun governance => { governance with oracle := some newOracle })
  | .withdrawInsuranceFund recipient amount => do
      let _ ← executeWithdrawInsuranceFund recipient amount
  | .setInsuranceSplitBps bps => onControl (setInsuranceSplitBps bps)
  | .setInsuranceCoverageBps bps => onControl (setInsuranceCoverageBps bps)

/-- Execute an approved proposal before it expires. -/
def execute (executor : A) (proposalId : ℕ) : ContractM A PUnit := do
  onControl (governanceGate executor)
  let proposal ← onControl (readGovProposal proposalId)
  let currentLedger ← ledgerSequence
  reject (currentLedger > proposal.expiresAtLedger) .proposalExpired
  reject (proposal.status ≠ .approved) .govInvalidState
  performGovAction proposal.action
  onControl (setGovProposal proposalId { proposal with status := .executed })

/-- Cancel an unexecuted proposal. -/
def cancel (canceller : A) (proposalId : ℕ) : ControlM A PUnit := do
  governanceGate canceller
  let proposal ← readGovProposal proposalId
  reject (proposal.status = .executed ∨ proposal.status = .cancelled) .govInvalidState
  setGovProposal proposalId { proposal with status := .cancelled }

/-! ## Oracle rotation -/

/-- Minimum delay between proposing and accepting an oracle rotation. -/
def minRotationDelaySeconds : ℕ := 3600

/-- Propose a new oracle. -/
def proposeOracleRotation (newOracle : A) (expiresInSeconds : ℕ) : ControlM A PUnit := do
  let _ ← adminGate
  reject (expiresInSeconds < minRotationDelaySeconds) .invalidDuration
  let proposedAt ← ledgerTimestamp
  let expiresAt ← checkedUint 64 (proposedAt + expiresInSeconds) .overflow
  updateGovernance fun governance =>
    { governance with
      oracleRotationProposal :=
        some { newOracle := newOracle, proposedAt := proposedAt, expiresAt := expiresAt } }

omit [DecidableEq A] in
/-- Accept a pending oracle rotation after its delay and before its expiry; any caller may. -/
def acceptOracleRotation : ControlM A PUnit := do
  let _ ← requireSupportedSchema
  ensureNotPaused
  let proposal ← gets (·.governance.oracleRotationProposal)
  let proposal ← orError proposal .noPendingRotation
  let currentTs ← ledgerTimestamp
  let earliestAccept ← checkedUint 64 (proposal.proposedAt + minRotationDelaySeconds) .overflow
  reject (currentTs < earliestAccept) .rotationDelayNotElapsed
  reject (currentTs > proposal.expiresAt) .noPendingRotation
  let previous ← gets (·.governance.oracle)
  reject (previous.isNone) .oracleNotSet
  updateGovernance fun governance =>
    { governance with oracle := some proposal.newOracle, oracleRotationProposal := none }

/-- Cancel a pending oracle rotation. -/
def cancelOracleRotation : ControlM A PUnit := do
  let _ ← adminGate
  let proposal ← gets (·.governance.oracleRotationProposal)
  reject (proposal.isNone) .noPendingRotation
  updateGovernance fun governance => { governance with oracleRotationProposal := none }

omit [DecidableEq A] in
/-- The pending oracle rotation; reading an expired one removes it. -/
def getOracleRotationProposal : ControlM A (Option (OracleRotationProposal A)) := do
  let proposal ← gets (·.governance.oracleRotationProposal)
  let currentTs ← ledgerTimestamp
  let expired := proposal.any fun pending => currentTs > pending.expiresAt
  onlyIf (expired = true)
    (updateGovernance fun governance => { governance with oracleRotationProposal := none })
  return if expired then none else proposal

/-! ## Constitution -/

/-- Establish the constitution, once. -/
def establishConstitution (vetoWindowLedgers timelockLedgers : ℕ) (dualApprovalRequired : Bool) :
    ControlM A PUnit := do
  let _ ← requireSupportedSchema
  let _ ← authorizedAdmin
  let constitution ← gets (·.governance.constitutionMetadata)
  reject (constitution.isSome) .alreadyInitialized
  let establishedAtLedger ← ledgerSequence
  updateGovernance fun governance =>
    { governance with
      constitutionMetadata := some
        { vetoWindowLedgers := vetoWindowLedgers
          timelockLedgers := timelockLedgers
          dualApprovalRequired := dualApprovalRequired
          establishedAtLedger := establishedAtLedger } }

/-- Store an amendment under its id. -/
def setAmendment (amendmentId : ℕ) (amendment : Amendment A) : ControlM A PUnit :=
  updateGovernance fun governance =>
    { governance with amendment := governance.amendment.set amendmentId amendment }

/-- A stored amendment, or an error. -/
def readAmendment (amendmentId : ℕ) : ControlM A (Amendment A) := do
  let amendment ← gets (·.governance.amendment.get amendmentId)
  orError amendment .proposalNotFound

/-- Propose a parameter amendment. -/
def proposeAmendment (proposer : A) (parameterName : String) (newValue : ℕ) : ControlM A ℕ := do
  governanceGate proposer
  let constitution ← gets (·.governance.constitutionMetadata)
  let constitution ← orError constitution .govInvalidState
  let amendmentId ← gets (·.governance.nextAmendmentId.getD 1)
  failIf (2 ^ 64 ≤ amendmentId + 1) .trap
  updateGovernance fun governance =>
    { governance with nextAmendmentId := some (amendmentId + 1) }
  let currentLedger ← ledgerSequence
  let vetoDeadline := saturatingAddUint 32 currentLedger constitution.vetoWindowLedgers
  setAmendment amendmentId
    { id := amendmentId
      proposer := proposer
      parameterName := parameterName
      newValue := newValue
      createdAtLedger := currentLedger
      vetoDeadlineLedger := vetoDeadline
      activationDeadlineLedger := saturatingAddUint 32 vetoDeadline constitution.timelockLedgers
      status := .pending }
  return amendmentId

/-- Veto a pending amendment within its veto window. -/
def vetoAmendment (vetoer : A) (amendmentId : ℕ) : ControlM A PUnit := do
  governanceGate vetoer
  let amendment ← readAmendment amendmentId
  let currentLedger ← ledgerSequence
  reject (currentLedger > amendment.vetoDeadlineLedger) .govInvalidState
  reject (amendment.status ≠ .pending) .govInvalidState
  setAmendment amendmentId { amendment with status := .vetoed }

/-- Activate a pending amendment after its timelock. -/
def activateAmendment (activator : A) (amendmentId : ℕ) : ControlM A PUnit := do
  governanceGate activator
  let amendment ← readAmendment amendmentId
  let currentLedger ← ledgerSequence
  reject (currentLedger ≤ amendment.activationDeadlineLedger) .govInvalidState
  reject (amendment.status ≠ .pending) .govInvalidState
  setAmendment amendmentId { amendment with status := .activated }

omit [DecidableEq A] in
/-- An amendment; reading a pending one past its activation deadline marks it expired. -/
def getAmendment (amendmentId : ℕ) : ControlM A (Option (Amendment A)) := do
  let stored ← gets (·.governance.amendment.get amendmentId)
  let currentLedger ← ledgerSequence
  let overdue := stored.filter fun amendment =>
    amendment.status = .pending ∧ currentLedger > amendment.activationDeadlineLedger
  onSome overdue fun amendment => setAmendment amendmentId { amendment with status := .expired }
  gets (·.governance.amendment.get amendmentId)

end XelmaMarket
