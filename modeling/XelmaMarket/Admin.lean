import XelmaMarket.Common

/-!
# Administration

Initialisation, schema migration, the runtime modes and their policy gate, the oracle settings
the administrator controls, and the reclaim of expired pending winnings.
-/

namespace XelmaMarket

open Transaction

variable {A : Type}

/-! ## Gates -/

/-- The stored schema version; the legacy version 1 when unset. -/
def requireSupportedSchema : ControlM A ℕ := do
  let version ← gets (·.settings.schemaVersion.getD 1)
  reject (version = 0 ∨ version > currentSchemaVersion) .unsupportedSchemaVersion
  return version

/-- The current runtime mode, `normal` if unset. -/
def Settings.currentMode (settings : Settings) : RuntimeMode :=
  settings.paused.getD .normal

/-- Whether the policy gate blocks an action class in a mode. -/
def RuntimeMode.blocks (mode : RuntimeMode) : PolicyAction → Prop
  | .roundMutation => mode ≠ .normal
  | .claim | .adminConfig | .settlement => mode = .fullyPaused

instance (mode : RuntimeMode) (action : PolicyAction) : Decidable (mode.blocks action) := by
  cases action <;> unfold RuntimeMode.blocks <;> infer_instance

/-- Single policy gate for every mutating entrypoint. -/
def policyGate (action : PolicyAction) : ControlM A PUnit := do
  let mode ← gets (·.settings.currentMode)
  reject (mode.blocks action) .contractPaused

/-- Blocked only by `fullyPaused`. -/
def ensureNotPaused : ControlM A PUnit :=
  policyGate .adminConfig

/-- Blocked by any mode other than `normal`. -/
def ensureNormalMode : ControlM A PUnit :=
  policyGate .roundMutation

def setMode (newMode : RuntimeMode) : ControlM A PUnit := do
  let oldMode ← gets (·.settings.currentMode)
  onlyIf (oldMode ≠ newMode)
    (updateSettings fun settings => { settings with paused := some newMode })

/-- Whether a secondary governance approver is set. -/
def isGovApproverSet (governance : Governance A) : Bool :=
  governance.govApprover.isSome

section DecidableAddress

variable [DecidableEq A]

/-- The administrator, who must have authorised the invocation. -/
def authorizedAdmin : ControlM A A := do
  let admin ← gets (·.governance.admin)
  let admin ← orError admin .adminNotSet
  requireAuth admin
  return admin

/-- The prefix of an administrative setter: schema, administrator, not paused. -/
def adminGate : ControlM A A := do
  let _ ← requireSupportedSchema
  let admin ← authorizedAdmin
  ensureNotPaused
  return admin

/-! ## Initialisation and schema -/

/-- Initialize the contract with admin and oracle addresses, once. -/
def initializeContract (admin oracle : A) : ControlM A PUnit := do
  requireAuth admin
  reject (admin = oracle) .oracleNetworkMismatch
  let current ← gets (·.governance.admin)
  reject (current.isSome) .alreadyInitialized
  updateGovernance fun governance =>
    { governance with admin := some admin, oracle := some oracle }
  updateSettings fun settings =>
    { settings with
      paused := some .normal
      schemaVersion := some currentSchemaVersion
      betWindowLedgers := some defaultBetWindowLedgers
      runWindowLedgers := some defaultRunWindowLedgers }

/-- The checks of a schema migration from one version to the next. -/
def migrationGate (fromVersion : ℕ) : ContractM A PUnit := do
  let _ ← onControl authorizedAdmin
  onControl ensureNotPaused
  let activeRound ← gets (·.rounds.activeRound)
  reject (activeRound.isSome) .migrationActiveRound
  let version ← gets (·.control.settings.schemaVersion.getD 1)
  reject (version ≠ fromVersion) .unsupportedSchemaVersion

/-- Migrate schema version 1 to version 2; a dry run only checks. -/
def migrateSchemaV1ToV2 (dryRun : Bool) : ContractM A PUnit := do
  migrationGate 1
  onlyIf (dryRun = false)
    (onControl (updateSettings fun settings => { settings with schemaVersion := some 2 }))

/-- Migrate schema version 2 to version 3; a dry run only checks. -/
def migrateSchemaV2ToV3 (dryRun : Bool) : ContractM A PUnit := do
  migrationGate 2
  onlyIf (dryRun = false)
    (onControl (updateSettings fun settings =>
      { settings with schemaVersion := some 3, migratedToV3 := some true }))

/-- Announce a target schema version for the next planned migration. -/
def announceNextSchema (targetVersion : ℕ) : ControlM A PUnit := do
  let _ ← requireSupportedSchema
  let _ ← authorizedAdmin
  reject (targetVersion = 0 ∨ targetVersion ≤ currentSchemaVersion) .unsupportedSchemaVersion
  updateSettings fun settings => { settings with nextSchemaVersion := some targetVersion }

/-- Clear a previously announced next schema version. -/
def clearNextSchema : ControlM A PUnit := do
  let _ ← requireSupportedSchema
  let _ ← authorizedAdmin
  let announced ← gets (·.settings.nextSchemaVersion)
  reject (announced.isNone) .unsupportedSchemaVersion
  updateSettings fun settings => { settings with nextSchemaVersion := none }

/-! ## Runtime modes -/

/-- Pause the contract for emergency recovery. -/
def pauseContract : ControlM A PUnit := do
  let _ ← requireSupportedSchema
  let _ ← authorizedAdmin
  let governed ← gets (isGovApproverSet ·.governance)
  reject (governed = true) .govUnauthorized
  setMode .fullyPaused

/-- Unpause the contract after recovery. -/
def unpauseContract : ControlM A PUnit := do
  let _ ← requireSupportedSchema
  let _ ← authorizedAdmin
  let governed ← gets (isGovApproverSet ·.governance)
  reject (governed = true) .govUnauthorized
  setMode .normal

/-- The runtime mode a number stands for. -/
def runtimeModeOf : ℕ → Option RuntimeMode
  | 0 => some .normal
  | 1 => some .claimsOnly
  | 2 => some .fullyPaused
  | _ => none

/-- Set the runtime mode of the contract. -/
def setRuntimeMode (mode : ℕ) : ControlM A PUnit := do
  let _ ← requireSupportedSchema
  let _ ← authorizedAdmin
  let newMode ← orError (runtimeModeOf mode) .invalidMode
  setMode newMode

/-! ## Oracle settings -/

/-- Arm a one-shot override to bypass deviation checks for the next settlement. -/
def armOracleDeviationOverride : ControlM A PUnit := do
  let _ ← authorizedAdmin
  ensureNotPaused
  updateSettings fun settings => { settings with oracleDeviationOverrideArmed := some true }

end DecidableAddress

/-- The entry stored under one of the three unit-variant keys. -/
def readConfigEntry (key : ConfigKey) : ControlM A (Option ConfigEntry) := do
  let encoded ← asks (·.host.encodeConfigKey key)
  gets (·.settings.config.get encoded)

/-- Store an entry under one of the three unit-variant keys. -/
def writeConfigEntry (key : ConfigKey) (entry : ConfigEntry) : ControlM A PUnit := do
  let encoded ← asks (·.host.encodeConfigKey key)
  updateSettings fun settings => { settings with config := settings.config.set encoded entry }

/-- The deviation guardrail config, with the `startPrice` default if unset. An entry of another
type under the key does not decode and traps. -/
def loadDeviationConfig : ControlM A DeviationConfig := do
  match ← readConfigEntry .deviationConfigKey with
  | none => return { referenceMode := .startPrice, windowSamples := minTwapWindowSamples }
  | some (.deviation config) => return config
  | some _ => fail .trap

/-- The attestation config, disabled if unset. -/
def loadAttestationConfig : ControlM A AttestationConfig := do
  match ← readConfigEntry .attestationConfigKey with
  | none => return { key := none }
  | some (.attestation config) => return config
  | some _ => fail .trap

/-- The heartbeat gate config, with its defaults if unset. -/
def loadHbConfig : ControlM A HbGateConfig := do
  match ← readConfigEntry .hbGateKey with
  | none => return { strictMode := false, overrideArmed := false, graceSeconds := 0 }
  | some (.hbGate config) => return config
  | some _ => fail .trap

def saveHbConfig (config : HbGateConfig) : ControlM A PUnit :=
  writeConfigEntry .hbGateKey (.hbGate config)

/-- Consume the heartbeat override if armed; whether it was. -/
def consumeHbOverride : ControlM A Bool := do
  let config ← loadHbConfig
  onlyIf (config.overrideArmed = true) (saveHbConfig { config with overrideArmed := false })
  return config.overrideArmed

section DecidableAddress

variable [DecidableEq A]

/-- Set the oracle deviation reference mode and the trailing sample window size. -/
def setDeviationRefMode (mode : DeviationReferenceMode) (windowSamples : ℕ) :
    ControlM A PUnit := do
  let _ ← adminGate
  reject (mode = .twap ∧
      ¬ (minTwapWindowSamples ≤ windowSamples ∧ windowSamples ≤ maxTwapWindowSamples))
    .windowOutOfRange
  writeConfigEntry .deviationConfigKey
    (.deviation { referenceMode := mode, windowSamples := windowSamples })

/-- Set or clear the public key used to verify oracle attestation signatures. -/
def setAttestationKey (key : Option (BytesN 32)) : ControlM A PUnit := do
  let _ ← adminGate
  writeConfigEntry .attestationConfigKey (.attestation { key := key })

/-- Set the minimum oracle confidence threshold in basis points. -/
def setOracleMinConfidenceBps (minBps : Option ℕ) : ControlM A PUnit := do
  let _ ← adminGate
  onSome minBps fun bps => reject (bps > 10000) .windowOutOfRange
  updateSettings fun settings => { settings with oracleMinConfidenceBps := minBps }

/-- Enable or disable strict mode for oracle confidence. -/
def setOracleStrictMode (enabled : Bool) : ControlM A PUnit := do
  let _ ← adminGate
  updateSettings fun settings => { settings with oracleStrictMode := some enabled }

/-- Enable or disable strict mode for oracle heartbeat health at settlement. -/
def setHbStrictMode (enabled : Bool) : ControlM A PUnit := do
  let _ ← adminGate
  let config ← loadHbConfig
  saveHbConfig { config with strictMode := enabled }

/-- Arm a one-shot override of the heartbeat health gate for the next settlement. -/
def armHbOverride : ControlM A PUnit := do
  let _ ← authorizedAdmin
  ensureNotPaused
  let config ← loadHbConfig
  saveHbConfig { config with overrideArmed := true }

/-- Set the grace period in seconds between heartbeat staleness and settlement block. -/
def setHbGraceSeconds (seconds : ℕ) : ControlM A PUnit := do
  let _ ← adminGate
  let config ← loadHbConfig
  saveHbConfig { config with graceSeconds := seconds }

/-- Record an oracle heartbeat, authorised by the oracle. -/
def updateOracleHeartbeat (status : ℕ) : ControlM A PUnit := do
  let _ ← requireSupportedSchema
  reject (status > 2) .invalidMode
  let oracle ← gets (·.governance.oracle)
  let oracle ← orError oracle .oracleNotSet
  requireAuth oracle
  let timestamp ← ledgerTimestamp
  updateSettings fun settings =>
    { settings with oracleHeartbeat := some { timestamp := timestamp, status := status } }

/-- Validate that the quorum config values are within allowed bounds. -/
def validateQuorumConfig (config : OracleQuorumConfig) : ControlM A PUnit := do
  reject (config.minObservations < defaultOracleQuorumMinObservations ∨
    config.minObservations > maxOracleObservations) .tooFewObservations
  reject (config.quorumThreshold < defaultOracleQuorumThreshold ∨
    config.quorumThreshold > config.minObservations) .insufficientOracleQuorum
  reject (config.outlierThresholdBps = 0 ∨ config.outlierThresholdBps > 10000) .windowOutOfRange

/-- Set or clear the multi-feed oracle quorum configuration. -/
def setOracleQuorumConfig (config : Option OracleQuorumConfig) : ControlM A PUnit := do
  let _ ← adminGate
  onSome config validateQuorumConfig
  updateSettings fun settings => { settings with oracleQuorum := config }

/-! ## Expired pending winnings -/

/-- Reclaim a user's expired pending winnings and credit them to the administrator. -/
def reclaimExpiredPendingWinnings (user : A) : ContractM A ℤ := do
  let admin ← onControl adminGate
  let expiryLedgers ← gets (·.control.settings.pendingWinningsExpiry.getD 0)
  reject (expiryLedgers = 0) .expiryNotConfigured
  let pending ← gets (·.vault.pendingOf user)
  reject (pending = 0) .pendingWinningsNotFound
  let updatedAt ← gets (·.vault.pendingWinningsUpdatedAt.get user)
  let updatedAt ← orError updatedAt .pendingWinningsNotFound
  let currentLedger ← ledgerSequence
  -- the age is a saturating subtraction, as `-` on `ℕ` is
  reject (currentLedger - updatedAt < expiryLedgers) .pendingWinningsNotExpired
  updateVault fun vault =>
    { vault with
      pendingWinnings := vault.pendingWinnings.remove user
      pendingWinningsUpdatedAt := vault.pendingWinningsUpdatedAt.remove user }
  let adminBalance ← gets (·.vault.balanceOf admin)
  let newAdminBalance ← payoutAdd adminBalance pending
  setBalance admin newAdminBalance
  return pending

end DecidableAddress

end XelmaMarket
