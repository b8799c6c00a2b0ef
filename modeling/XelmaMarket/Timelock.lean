import XelmaMarket.Proposals

/-!
# The timelock

Ten settings change behind a timelock only. Every value stored for one of them was scheduled by the
administrator a full timelock before it was applied, and not cancelled in between; and a scheduled
change can always be applied once its activation ledger is reached, once.
-/

namespace XelmaMarket

open Transaction

variable {A : Type}

/-! ## Stored values -/

/-- The kinds without a setter that writes at once. -/
def ConfigChangeKind.isTimelocked : ConfigChangeKind → Bool
  | .windows | .maxStake | .maxUserRoundExposure | .maxPendingWinnings | .oracleStaleThreshold
  | .oracleMaxDeviationBps | .oracleTimestampSkew | .protocolFeeBps | .pendingWinningsExpiry
  | .minBet => true
  | _ => false

/-- The value stored for a kind, as the payload that writes it. -/
def Settings.entry (settings : Settings) : ConfigChangeKind → Option ConfigChangePayload
  | .windows =>
      match settings.betWindowLedgers, settings.runWindowLedgers with
      | some bet, some run => some (.windows bet run)
      | _, _ => none
  | .maxStake => some (.maxStake settings.maxStake)
  | .maxUserRoundExposure => some (.maxUserRoundExposure settings.maxUserRoundExposure)
  | .maxPendingWinnings => some (.maxPendingWinnings settings.maxPendingWinnings)
  | .oracleStaleThreshold => settings.oracleStaleThreshold.map .oracleStaleThreshold
  | .oracleMaxDeviationBps => some (.oracleMaxDeviationBps settings.oracleMaxDeviationBps)
  | .protocolFeeBps => some (.protocolFeeBps settings.protocolFeeBps)
  | .minParticipants => some (.minParticipants settings.minParticipants)
  | .maxPrecisionParticipants => settings.maxPrecisionParticipants.map .maxPrecisionParticipants
  | .mintLimit => settings.mintLimitConfig.map .mintLimit
  | .archiveRetention => settings.archiveRetention.map .archiveRetention
  | .closeBufferLedgers => settings.closeBufferLedgers.map .closeBufferLedgers
  | .oracleTimestampSkew => settings.oracleTimestampSkew.map .oracleTimestampSkew
  | .epochMintBudget => settings.epMintBgt.map .epochMintBudget
  | .pendingWinningsExpiry => settings.pendingWinningsExpiry.map .pendingWinningsExpiry
  | .precisionPayoutPolicy => settings.precisionPayoutPolicy.map .precisionPayoutPolicy
  | .minBet => some (.minBet settings.minBet)
  | .disputeLedgers => settings.disputeLedgers.map .disputeLedgers
  | .feeModel => settings.feeModel.map .feeModel
  | .earlyCashoutBps => some (.earlyCashoutBps settings.earlyCashoutBps)

/-- Writing a payload stores it under its kind. -/
@[simp] theorem Settings.entry_write (settings : Settings) (payload : ConfigChangePayload) :
    (settings.write payload).entry payload.kind = some payload := by
  cases payload <;> rfl

/-- Writing a payload leaves the other kinds alone. -/
theorem Settings.entry_write_of_ne (settings : Settings) {payload : ConfigChangePayload}
    {kind : ConfigChangeKind} (hother : payload.kind ≠ kind) :
    (settings.write payload).entry kind = settings.entry kind := by
  cases payload <;> cases kind <;> first | rfl | exact absurd rfl hother

/-- A payload passes the validation of its kind, which reads nothing. -/
def ConfigChangePayload.Passes (A : Type) (payload : ConfigChangePayload) : Prop :=
  ∀ (env : Env A) (control : Control A),
    Returns (validateConfigPayload payload) env control fun _ control' => control' = control

/-- A validation that succeeds once always succeeds. -/
theorem validateConfigPayload_passes {env : Env A} {control : Control A}
    (payload : ConfigChangePayload) :
    Ensures (validateConfigPayload payload) env control fun _ control' =>
      control' = control ∧ payload.Passes A := by
  cases payload <;>
    simp [ConfigChangePayload.Passes, validateConfigPayload, validateWindows, validateMaxStake,
      validateAmountBound, validateOracleStaleThreshold, validateOracleMaxDeviationBps,
      validateRate, validateMinParticipants, validateMaxPrecisionParticipants,
      validateCloseBufferLedgers, validateOracleTimestampSkew, validateEpochMintBudget,
      validatePendingWinningsExpiry, validatePrecisionPayoutPolicy, validateMinBet,
      validateDisputeLedgers, validateEarlyCashoutBps, validateProtocolFeeBps,
      validateArchiveRetention] <;>
    grind

/-! ## What an administrative call does to the timelocked settings -/

/-- The timelocked settings, the pending changes and the schema are as they were. -/
@[mk_iff]
structure SameTimelock (settings settings' : Settings) : Prop where
  schema : settings'.schemaVersion = settings.schemaVersion
  pending : settings'.pendingConfigChange = settings.pendingConfigChange
  betWindow : settings'.betWindowLedgers = settings.betWindowLedgers
  runWindow : settings'.runWindowLedgers = settings.runWindowLedgers
  maxStake : settings'.maxStake = settings.maxStake
  maxUserRoundExposure : settings'.maxUserRoundExposure = settings.maxUserRoundExposure
  maxPendingWinnings : settings'.maxPendingWinnings = settings.maxPendingWinnings
  minBet : settings'.minBet = settings.minBet
  oracleStaleThreshold : settings'.oracleStaleThreshold = settings.oracleStaleThreshold
  oracleMaxDeviationBps : settings'.oracleMaxDeviationBps = settings.oracleMaxDeviationBps
  oracleTimestampSkew : settings'.oracleTimestampSkew = settings.oracleTimestampSkew
  protocolFeeBps : settings'.protocolFeeBps = settings.protocolFeeBps
  pendingWinningsExpiry : settings'.pendingWinningsExpiry = settings.pendingWinningsExpiry

theorem SameTimelock.refl (settings : Settings) : SameTimelock settings settings :=
  ⟨rfl, rfl, rfl, rfl, rfl, rfl, rfl, rfl, rfl, rfl, rfl, rfl, rfl⟩

/-- What keeps the timelocked settings keeps their stored values. -/
theorem SameTimelock.entry {settings settings' : Settings} (hsame : SameTimelock settings settings')
    {kind : ConfigChangeKind} (hkind : kind.isTimelocked = true) :
    settings'.entry kind = settings.entry kind := by
  cases kind with
  | windows | maxStake | maxUserRoundExposure | maxPendingWinnings | oracleStaleThreshold
  | oracleMaxDeviationBps | oracleTimestampSkew | protocolFeeBps | pendingWinningsExpiry
  | minBet =>
      simp only [Settings.entry, hsame.betWindow, hsame.runWindow, hsame.maxStake,
        hsame.maxUserRoundExposure, hsame.maxPendingWinnings, hsame.minBet,
        hsame.oracleStaleThreshold, hsame.oracleMaxDeviationBps, hsame.oracleTimestampSkew,
        hsame.protocolFeeBps, hsame.pendingWinningsExpiry]
  | _ => cases hkind

/-- The change a scheduler schedules. -/
def ControlCall.schedules : ControlCall A → Option ConfigChangePayload
  | .scheduleWindows betLedgers runLedgers => some (.windows betLedgers runLedgers)
  | .scheduleMaxStake maxAmount => some (.maxStake maxAmount)
  | .scheduleMinBet minAmount => some (.minBet minAmount)
  | .scheduleMaxUserExposure maxExposure => some (.maxUserRoundExposure maxExposure)
  | .scheduleMaxPendingWinnings maxPending => some (.maxPendingWinnings maxPending)
  | .scheduleOracleStaleThreshold seconds => some (.oracleStaleThreshold seconds)
  | .scheduleOracleDeviationBps bps => some (.oracleMaxDeviationBps bps)
  | .scheduleOracleTimestampSkew seconds => some (.oracleTimestampSkew seconds)
  | .scheduleProtocolFeeBps bps => some (.protocolFeeBps bps)
  | .schedulePendingWinningsExpiry ledgers => some (.pendingWinningsExpiry ledgers)
  | _ => none

/-- The kind whose pending change a call applies or cancels. -/
def ControlCall.settles : ControlCall A → Option ConfigChangeKind
  | .applyScheduledChanges kind | .cancelConfigChange kind => some kind
  | _ => none

/-- The settings with a change scheduled at a ledger. -/
def Settings.withPending (settings : Settings) (payload : ConfigChangePayload) (ledger : ℕ) :
    Settings :=
  { settings with
    pendingConfigChange := settings.pendingConfigChange.set payload.kind
      { payload := payload
        activationLedger := ledger + configTimelockLedgers
        scheduledAtLedger := ledger } }

/-- The settings without the pending change of a kind. -/
def Settings.withoutPending (settings : Settings) (kind : ConfigChangeKind) : Settings :=
  { settings with pendingConfigChange := settings.pendingConfigChange.remove kind }

@[simp] theorem Settings.entry_withPending (settings : Settings) (payload : ConfigChangePayload)
    (ledger : ℕ) (kind : ConfigChangeKind) :
    (settings.withPending payload ledger).entry kind = settings.entry kind := by
  cases kind <;> rfl

@[simp] theorem Settings.entry_withoutPending (settings : Settings) (settled : ConfigChangeKind)
    (kind : ConfigChangeKind) :
    (settings.withoutPending settled).entry kind = settings.entry kind := by
  cases kind <;> rfl

/-- A written payload leaves the schema and the pending changes alone. -/
theorem Settings.write_pending (settings : Settings) (payload : ConfigChangePayload) :
    (settings.write payload).schemaVersion = settings.schemaVersion ∧
      (settings.write payload).pendingConfigChange = settings.pendingConfigChange := by
  cases payload <;> exact ⟨rfl, rfl⟩

/-- What a successful administrative call does to the timelocked settings. -/
inductive TimelockEffect (env : Env A) (control : Control A) :
    ControlCall A → Settings → Prop where
  | initialized (admin oracle : A) (settings' : Settings)
      (hsame : SameTimelock { control.settings with
        schemaVersion := some currentSchemaVersion
        betWindowLedgers := some defaultBetWindowLedgers
        runWindowLedgers := some defaultRunWindowLedgers } settings') :
      TimelockEffect env control (.initializeContract admin oracle) settings'
  | scheduled (call : ControlCall A) (payload : ConfigChangePayload) (admin : A)
      (hschedules : call.schedules = some payload) (hpasses : payload.Passes A)
      (hadmin : control.governance.admin = some admin) (hsigner : admin ∈ env.signers)
      (hfree : control.settings.pendingConfigChange.get payload.kind = none) :
      TimelockEffect env control call (control.settings.withPending payload env.ledger.sequence)
  | applied (kind : ConfigChangeKind) (pending : PendingConfigChange)
      (hpending : control.settings.pendingConfigChange.get kind = some pending)
      (hkind : pending.payload.kind = kind)
      (hactive : pending.activationLedger ≤ env.ledger.sequence) :
      TimelockEffect env control (.applyScheduledChanges kind)
        ((control.settings.write pending.payload).withoutPending kind)
  | cancelled (kind : ConfigChangeKind) :
      TimelockEffect env control (.cancelConfigChange kind) (control.settings.withoutPending kind)
  | setNow (call : ControlCall A) (payload : ConfigChangePayload)
      (hplain : call.schedules = none ∧ call.settles = none)
      (hfree : payload.kind.isTimelocked = false) :
      TimelockEffect env control call (control.settings.write payload)
  | other (call : ControlCall A) (settings' : Settings)
      (hplain : call.schedules = none ∧ call.settles = none)
      (hsame : SameTimelock control.settings settings') :
      TimelockEffect env control call settings'

section Effects

variable [DecidableEq A] {env : Env A} {control : Control A}

/-- A scheduler stores the change with its activation ledger. -/
theorem schedule_timelock {call : ControlCall A} {payload : ConfigChangePayload}
    (hschedules : call.schedules = some payload) :
    Ensures (schedule payload) env control fun _ control' =>
      TimelockEffect env control call control'.settings := by
  simp only [schedule, ensures_bind, ensures_requireSupportedSchema]
  intro _
  refine (validateConfigPayload_passes payload).mono ?_
  rintro _ _ ⟨rfl, hpasses⟩
  simp only [scheduleConfigChange, ensureNotPaused, ensures_bind, ensures_authorizedAdmin,
    ensures_policyGate, ensures_gets, ensures_reject, ensures_ledgerSequence, ensures_liftM,
    checkedUint_eq_ok, ensures_updateSettings]
  rintro admin hadmin hsigner _ hfree _ ⟨rfl, -⟩
  refine .scheduled call payload admin hschedules hpasses hadmin hsigner ?_
  simpa [Store.has] using hfree

/-- An immediate setter writes a payload that is not timelocked. -/
theorem setNow_timelock {call : ControlCall A} {payload : ConfigChangePayload}
    (hplain : call.schedules = none ∧ call.settles = none)
    (hfree : payload.kind.isTimelocked = false) :
    Ensures (XelmaMarket.setNow payload) env control fun _ control' =>
      TimelockEffect env control call control'.settings := by
  simp only [XelmaMarket.setNow, adminGate, ensureNotPaused, ensures_bind,
    ensures_requireSupportedSchema, ensures_authorizedAdmin, ensures_policyGate, ensures_pure]
  intro _ _ _ _ _
  refine (validateConfigPayload_passes payload).mono ?_
  rintro _ _ ⟨rfl, -⟩
  rw [ensures_updateSettings]
  exact .setNow call payload hplain hfree

omit [DecidableEq A] in
/-- Applying a change writes its payload and drops it. -/
theorem applyScheduledChanges_timelock (kind : ConfigChangeKind) :
    Ensures (applyScheduledChanges kind) env control fun _ control' =>
      TimelockEffect env control (.applyScheduledChanges kind) control'.settings := by
  simp only [applyScheduledChanges, applyConfigPayload, ensureNormalMode, ensures_bind,
    ensures_requireSupportedSchema, ensures_policyGate, ensures_gets, ensures_orError,
    ensures_ledgerSequence, ensures_reject, ensures_updateSettings]
  intro _ _ pending hpending hactive hkind
  refine (validateConfigPayload_passes pending.payload).mono ?_
  rintro _ _ ⟨rfl, -⟩
  exact .applied kind pending hpending (not_not.mp hkind) (not_lt.mp hactive)

/-- Every administrative call does one of these things to the timelocked settings. -/
theorem ControlCall.ensures_timelock (call : ControlCall A) :
    Ensures call.exec env control fun _ control' =>
      TimelockEffect env control call control'.settings := by
  cases call with
  | initializeContract admin oracle =>
      simp only [ControlCall.exec, XelmaMarket.initializeContract, ensures_bind,
        ensures_requireAuth, ensures_reject, ensures_gets, ensures_updateGovernance,
        ensures_updateSettings]
      intro _ _ _
      exact .initialized admin oracle _
        ⟨rfl, rfl, rfl, rfl, rfl, rfl, rfl, rfl, rfl, rfl, rfl, rfl, rfl⟩
  | scheduleWindows | scheduleMaxStake | scheduleMinBet | scheduleMaxUserExposure
  | scheduleMaxPendingWinnings | scheduleOracleStaleThreshold | scheduleOracleDeviationBps
  | scheduleOracleTimestampSkew | scheduleProtocolFeeBps | schedulePendingWinningsExpiry =>
      exact schedule_timelock rfl
  | setFeeModel | setMinParticipants | setMaxPrecisionParticipants | setPrecisionPayoutPolicy
  | setMintLimit | setEpochMintBudget | setArchiveRetention | setCloseBufferLedgers
  | setEarlyCashoutBps | setDisputeLedgers => exact setNow_timelock ⟨rfl, rfl⟩ rfl
  | applyScheduledChanges kind => exact applyScheduledChanges_timelock kind
  | cancelConfigChange kind =>
      simp only [ControlCall.exec, XelmaMarket.cancelConfigChange, adminGate, ensureNotPaused,
        ensures_bind, ensures_requireSupportedSchema, ensures_authorizedAdmin,
        ensures_policyGate, ensures_pure, ensures_gets, ensures_orError, ensures_ledgerSequence,
        ensures_reject, ensures_updateSettings]
      intro _ _ _ _ _ _ _ _
      exact .cancelled kind
  | announceNextSchema | clearNextSchema | pauseContract | unpauseContract | setRuntimeMode
  | setDeviationRefMode | setAttestationKey | armOracleDeviationOverride
  | setOracleMinConfidenceBps | setOracleStrictMode | setHbStrictMode | armHbOverride
  | setHbGraceSeconds | updateOracleHeartbeat | setOracleQuorumConfig | setRoundTemplate
  | clearRoundTemplate | setInsuranceSplitBps | setInsuranceCoverageBps
  | setInsuranceEligibleEvents =>
      refine Ensures.mono ?_ fun _ control' hsame => .other _ control'.settings ⟨rfl, rfl⟩ hsame
      simp [ControlCall.exec, XelmaMarket.announceNextSchema, XelmaMarket.clearNextSchema,
        XelmaMarket.pauseContract, XelmaMarket.unpauseContract, XelmaMarket.setRuntimeMode, setMode,
        XelmaMarket.setDeviationRefMode, XelmaMarket.setAttestationKey,
        XelmaMarket.armOracleDeviationOverride, XelmaMarket.setOracleMinConfidenceBps,
        XelmaMarket.setOracleStrictMode, XelmaMarket.setHbStrictMode, XelmaMarket.armHbOverride,
        XelmaMarket.setHbGraceSeconds, saveHbConfig, XelmaMarket.updateOracleHeartbeat,
        XelmaMarket.setOracleQuorumConfig, validateQuorumConfig, XelmaMarket.setRoundTemplate,
        validateRoundTemplate, XelmaMarket.clearRoundTemplate,
        XelmaMarket.setInsuranceSplitBps, XelmaMarket.setInsuranceCoverageBps,
        XelmaMarket.setInsuranceEligibleEvents, adminGate, ensureNotPaused, sameTimelock_iff]
  | _ =>
      refine Ensures.mono ?_ fun _ control' hsame => .other _ control'.settings ⟨rfl, rfl⟩ hsame
      simp [ControlCall.exec, discardResult, XelmaMarket.proposeOracleRotation,
        XelmaMarket.acceptOracleRotation, XelmaMarket.cancelOracleRotation,
        XelmaMarket.getOracleRotationProposal, XelmaMarket.setAccessControlEnabled,
        XelmaMarket.addAllowlisted, XelmaMarket.removeAllowlisted, XelmaMarket.addDenylisted,
        XelmaMarket.removeDenylisted, XelmaMarket.setGovApprover, XelmaMarket.setGovProposalTtl,
        propose, approve, cancel, readGovProposal, setGovProposal,
        XelmaMarket.establishConstitution, XelmaMarket.proposeAmendment,
        XelmaMarket.vetoAmendment, XelmaMarket.activateAmendment, XelmaMarket.getAmendment,
        readAmendment, setAmendment, adminGate, ensureNotPaused, SameTimelock.refl]

end Effects

/-! ## What a step does to the timelocked settings -/

variable [LinearOrder A] {host : Host A} {chain chain' : Chain A} {action : Action A}
  {trace earlier : List (Transition (Chain A) (Action A))}

/-- The settings of a chain. -/
def Chain.settings (chain : Chain A) : Settings :=
  chain.storage.control.settings

omit [LinearOrder A] in
/-- An executed action sets the fee rate at most. -/
theorem Control.enact_timelock (control : Control A) (action : GovAction A) :
    SameTimelock { control.settings with
        protocolFeeBps := (control.enact action).settings.protocolFeeBps }
      (control.enact action).settings ∧
    ((∀ rate, action ≠ .setProtocolFeeBps rate) →
      (control.enact action).settings.protocolFeeBps = control.settings.protocolFeeBps) := by
  cases action with
  | setProtocolFeeBps rate => exact ⟨.refl _, fun hother => absurd rfl (hother rate)⟩
  | pauseProtocol =>
      obtain ⟨paused, -, heq⟩ := control.withMode_eq .fullyPaused
      rw [Control.enact, heq]
      exact ⟨⟨rfl, rfl, rfl, rfl, rfl, rfl, rfl, rfl, rfl, rfl, rfl, rfl, rfl⟩, fun _ => rfl⟩
  | unpauseProtocol =>
      obtain ⟨paused, -, heq⟩ := control.withMode_eq .normal
      rw [Control.enact, heq]
      exact ⟨⟨rfl, rfl, rfl, rfl, rfl, rfl, rfl, rfl, rfl, rfl, rfl, rfl, rfl⟩, fun _ => rfl⟩
  | _ => exact ⟨⟨rfl, rfl, rfl, rfl, rfl, rfl, rfl, rfl, rfl, rfl, rfl, rfl, rfl⟩, fun _ => rfl⟩

/-- What a step does to the timelocked settings. -/
inductive TimelockChange (host : Host A) (chain : Chain A) : Action A → Chain A → Prop where
  | administered (signers : List A) (call : ControlCall A) (chain' : Chain A)
      (heffect : TimelockEffect ⟨host, chain.ledger, signers⟩ chain.storage.control call
        chain'.settings) :
      TimelockChange host chain (.invoke signers (.control call)) chain'
  | executed (signers : List A) (executor : A) (proposalId : ℕ) (proposal : GovProposal A)
      (chain' : Chain A) (hproposal : chain.governance.govProposal.get proposalId = some proposal)
      (hsame : SameTimelock (chain.storage.control.enact proposal.action).settings
        chain'.settings) :
      TimelockChange host chain (.invoke signers (.executeGovProposal executor proposalId)) chain'
  | other (action : Action A) (chain' : Chain A) (schemaVersion : Option ℕ)
      (hplain : ∀ signers call, action = .invoke signers call → call.governs = false)
      (hschema : SchemaSupported chain.settings.schemaVersion → SchemaSupported schemaVersion)
      (hsame : SameTimelock { chain.settings with schemaVersion := schemaVersion }
        chain'.settings) : TimelockChange host chain action chain'

/-- Every step does one of these things to the timelocked settings. -/
theorem Step.timelockChange (hstep : Step host chain action chain') :
    TimelockChange host chain action chain' := by
  cases action with
  | closeLedger | expire =>
      obtain ⟨meter, hsame⟩ := hstep.idle nofun
      refine .other _ _ chain.settings.schemaVersion nofun id ?_
      unfold Chain.settings
      rw [hsame]
      exact .refl _
  | invoke signers call =>
      cases call with
      | control call =>
          have htimelock : Ensures (Call.control call).exec ⟨host, chain.ledger, signers⟩
              chain.storage fun _ s' => TimelockEffect ⟨host, chain.ledger, signers⟩
                chain.storage.control call s'.control.settings := by
            simp only [Call.exec, ensures_onControl]
            exact call.ensures_timelock
          exact .administered signers call chain' (hstep.ensured htimelock)
      | executeGovProposal executor proposalId =>
          obtain ⟨proposal, hexecutes⟩ := hstep.ensured (execute_spec executor proposalId)
          refine .executed signers executor proposalId proposal chain' hexecutes.stored ?_
          unfold Chain.settings
          rw [hexecutes.control]
          exact .refl _
      | _ =>
          obtain ⟨schemaVersion, _, _, _, hschema, hsame⟩ :=
            hstep.ensured (Call.ensures_market rfl)
          refine .other _ _ schemaVersion (fun _ _ hcall => ?_) hschema ?_
          · cases hcall
            rfl
          · unfold Chain.settings
            rw [hsame]
            exact ⟨rfl, rfl, rfl, rfl, rfl, rfl, rfl, rfl, rfl, rfl, rfl, rfl, rfl⟩

/-! ## Where stored values come from -/

/-- A transition that schedules a change, signed by the administrator of that moment. -/
def Schedules (transition : Transition (Chain A) (Action A)) (payload : ConfigChangePayload) :
    Prop :=
  ∃ signers call admin, transition.label = .invoke signers (.control call) ∧
    call.schedules = some payload ∧
    transition.before.governance.admin = some admin ∧ admin ∈ signers

/-- A transition that applies or cancels the pending change of a kind. -/
def SettlesChange (transition : Transition (Chain A) (Action A)) (kind : ConfigChangeKind) : Prop :=
  ∃ signers call, transition.label = .invoke signers (.control call) ∧ call.settles = some kind

/-- A transition that applies the pending change of a kind. -/
def Applies (transition : Transition (Chain A) (Action A)) (kind : ConfigChangeKind) : Prop :=
  ∃ signers, transition.label = .invoke signers (.control (.applyScheduledChanges kind))

/-- A change was scheduled at a ledger, and since then no change of its kind was applied or
cancelled. -/
def ScheduledLast (trace : List (Transition (Chain A) (Action A)))
    (payload : ConfigChangePayload) (ledger : ℕ) : Prop :=
  Since (fun transition => Schedules transition payload ∧
      transition.before.ledger.sequence = ledger)
    (fun transition => ¬ SettlesChange transition payload.kind) trace

/-- A change was applied by some ledger, a timelock or more after it was scheduled, and it was not
cancelled in between. -/
def AppliedBy (trace : List (Transition (Chain A) (Action A))) (payload : ConfigChangePayload)
    (ledger : ℕ) : Prop :=
  ∃ earlier applying later scheduledAt, trace = earlier ++ applying :: later ∧
    Applies applying payload.kind ∧ ScheduledLast earlier payload scheduledAt ∧
    scheduledAt + configTimelockLedgers ≤ applying.before.ledger.sequence ∧
    applying.before.ledger.sequence ≤ ledger

/-- The value of a kind that no scheduled change wrote: the one at the deployment, or the windows
that the initialization writes. -/
def InitialEntry (A : Type) (kind : ConfigChangeKind) (entry : Option ConfigChangePayload) : Prop :=
  entry = (Storage.empty : Storage A).control.settings.entry kind ∨
    entry = some (.windows defaultBetWindowLedgers defaultRunWindowLedgers) ∧ kind = .windows

/-- A transition that executes a proposal of a fee rate. -/
def ExecutesSetFee (transition : Transition (Chain A) (Action A)) : Prop :=
  ∃ signers executor proposalId proposal rate,
    transition.label = .invoke signers (.executeGovProposal executor proposalId) ∧
    transition.before.governance.govProposal.get proposalId = some proposal ∧
    proposal.action = .setProtocolFeeBps rate

/-- What holds of the pending changes and of the stored values at the end of a trace. -/
structure TimelockKept (trace : List (Transition (Chain A) (Action A))) (chain : Chain A) :
    Prop where
  schema : SchemaSupported chain.settings.schemaVersion
  kind : ∀ kind pending, chain.settings.pendingConfigChange.get kind = some pending →
    pending.payload.kind = kind
  passes : ∀ kind pending, chain.settings.pendingConfigChange.get kind = some pending →
    pending.payload.Passes A
  scheduled : ∀ kind pending, chain.settings.pendingConfigChange.get kind = some pending →
    pending.activationLedger = pending.scheduledAtLedger + configTimelockLedgers ∧
      ScheduledLast trace pending.payload pending.scheduledAtLedger
  entries : ∀ kind, kind.isTimelocked = true →
    (kind = .protocolFeeBps → ∀ transition ∈ trace, ¬ ExecutesSetFee transition) →
    InitialEntry A kind (chain.settings.entry kind) ∨
      ∃ payload, chain.settings.entry kind = some payload ∧ payload.kind = kind ∧
        payload.Passes A ∧ AppliedBy trace payload chain.ledger.sequence

omit [LinearOrder A] in
theorem AppliedBy.later {payload : ConfigChangePayload} {ledger ledger' : ℕ}
    {transition : Transition (Chain A) (Action A)} (happlied : AppliedBy earlier payload ledger)
    (hledger : ledger ≤ ledger') : AppliedBy (earlier ++ [transition]) payload ledger' := by
  obtain ⟨first, applying, later, scheduledAt, rfl, happlies, hscheduled, hdelay, hsoon⟩ := happlied
  exact ⟨first, applying, later ++ [transition], scheduledAt, by simp, happlies, hscheduled, hdelay,
    hsoon.trans hledger⟩

section Steps

variable {transition : Transition (Chain A) (Action A)}

omit [LinearOrder A] in
/-- A step that leaves the pending changes and the stored values alone keeps all of it. -/
theorem TimelockKept.quiet (hkept : TimelockKept earlier transition.before)
    (hledger : transition.before.ledger.sequence ≤ transition.after.ledger.sequence)
    (hquiet : ∀ kind, ¬ SettlesChange transition kind)
    (hschema : SchemaSupported transition.after.settings.schemaVersion)
    (hpending : transition.after.settings.pendingConfigChange =
      transition.before.settings.pendingConfigChange)
    (hentries : ∀ kind, kind.isTimelocked = true →
      (kind = .protocolFeeBps → ¬ ExecutesSetFee transition) →
      transition.after.settings.entry kind = transition.before.settings.entry kind ∨
        InitialEntry A kind (transition.after.settings.entry kind)) :
    TimelockKept (earlier ++ [transition]) transition.after where
  schema := hschema
  kind := hpending ▸ hkept.kind
  passes := hpending ▸ hkept.passes
  scheduled kind pending hget := by
    obtain ⟨hactivation, hscheduled⟩ := hkept.scheduled kind pending (hpending ▸ hget)
    exact ⟨hactivation, hscheduled.snoc (hquiet _)⟩
  entries kind hkind hfee := by
    rcases hentries kind hkind fun h => hfee h transition (by simp) with hsame | hinitial
    · rw [hsame]
      refine (hkept.entries kind hkind fun h other hmem =>
        hfee h other (List.mem_append_left _ hmem)).imp_right ?_
      rintro ⟨payload, hentry, hpayload, hpasses, happlied⟩
      exact ⟨payload, hentry, hpayload, hpasses, happlied.later hledger⟩
    · exact .inl hinitial

omit [LinearOrder A] in
theorem not_settlesChange {signers : List A} {call : ControlCall A} (hlabel : transition.label =
    .invoke signers (.control call)) (hplain : call.settles = none) (kind : ConfigChangeKind) :
    ¬ SettlesChange transition kind := by
  rintro ⟨_, other, hother, hsettles⟩
  cases hlabel.symm.trans hother
  rw [hplain] at hsettles
  cases hsettles

omit [LinearOrder A] in
/-- Dropping a pending change keeps the others traced, and with the stored values traced keeps all
of it. -/
theorem TimelockKept.settle (hkept : TimelockKept earlier transition.before)
    {signers : List A} {call : ControlCall A} {kind : ConfigChangeKind}
    (hlabel : transition.label = .invoke signers (.control call))
    (hsettles : call.settles = some kind)
    (hschema : transition.after.settings.schemaVersion = transition.before.settings.schemaVersion)
    (hpending : transition.after.settings.pendingConfigChange =
      transition.before.settings.pendingConfigChange.remove kind)
    (hentries : ∀ other, other.isTimelocked = true →
      (other = .protocolFeeBps → ∀ transition ∈ earlier, ¬ ExecutesSetFee transition) →
      InitialEntry A other (transition.after.settings.entry other) ∨
        ∃ payload, transition.after.settings.entry other = some payload ∧ payload.kind = other ∧
          payload.Passes A ∧
          AppliedBy (earlier ++ [transition]) payload transition.after.ledger.sequence) :
    TimelockKept (earlier ++ [transition]) transition.after := by
  have hold : ∀ other pending, transition.after.settings.pendingConfigChange.get other =
      some pending → other ≠ kind ∧
        transition.before.settings.pendingConfigChange.get other = some pending := by
    intro other pending hget
    rw [hpending, Store.get_remove] at hget
    split at hget
    · cases hget
    · next hother => exact ⟨hother, hget⟩
  refine ⟨hschema ▸ hkept.schema, fun other pending hget => hkept.kind _ _ (hold _ _ hget).2,
    fun other pending hget => hkept.passes _ _ (hold _ _ hget).2, fun other pending hget => ?_,
    fun other hother hfee => hentries other hother fun h t hmem =>
      hfee h t (List.mem_append_left _ hmem)⟩
  obtain ⟨hother, hget⟩ := hold other pending hget
  obtain ⟨hactivation, hscheduled⟩ := hkept.scheduled other pending hget
  refine ⟨hactivation, hscheduled.snoc ?_⟩
  rintro ⟨_, control, hcontrol, hsame⟩
  cases hlabel.symm.trans hcontrol
  rw [hkept.kind other pending hget, hsettles] at hsame
  exact hother (Option.some.inj hsame).symm

omit [LinearOrder A] in
/-- A scheduled change joins the pending ones. -/
theorem TimelockKept.schedule (hkept : TimelockKept earlier transition.before)
    {signers : List A} {call : ControlCall A} {payload : ConfigChangePayload} {admin : A}
    (hlabel : transition.label = .invoke signers (.control call))
    (hledger : transition.after.ledger = transition.before.ledger)
    (hschedules : call.schedules = some payload) (hpasses : payload.Passes A)
    (hadmin : transition.before.governance.admin = some admin) (hsigner : admin ∈ signers)
    (hsettings : transition.after.settings =
      transition.before.settings.withPending payload transition.before.ledger.sequence) :
    TimelockKept (earlier ++ [transition]) transition.after := by
  have hquiet := not_settlesChange hlabel (show call.settles = none by
    cases call <;> first | rfl | cases hschedules)
  have hget : ∀ kind pending,
      transition.after.settings.pendingConfigChange.get kind = some pending →
      (kind = payload.kind ∧ pending = ⟨payload,
        transition.before.ledger.sequence + configTimelockLedgers,
        transition.before.ledger.sequence⟩) ∨
      transition.before.settings.pendingConfigChange.get kind = some pending := by
    intro kind pending hget
    rw [hsettings, Settings.withPending, Store.get_set] at hget
    split at hget
    · next hkind => exact .inl ⟨hkind, (Option.some.inj hget).symm⟩
    · exact .inr hget
  refine ⟨?_, fun kind pending hnew => ?_, fun kind pending hnew => ?_, fun kind pending hnew => ?_,
    fun kind hkind hfee => ?_⟩
  · rw [hsettings]
    exact hkept.schema
  · rcases hget kind pending hnew with ⟨rfl, rfl⟩ | hold
    · rfl
    · exact hkept.kind kind pending hold
  · rcases hget kind pending hnew with ⟨rfl, rfl⟩ | hold
    · exact hpasses
    · exact hkept.passes kind pending hold
  · rcases hget kind pending hnew with ⟨rfl, rfl⟩ | hold
    · exact ⟨rfl, .of_mark ⟨⟨signers, call, admin, hlabel, hschedules, hadmin, hsigner⟩, rfl⟩⟩
    · obtain ⟨hactivation, hscheduled⟩ := hkept.scheduled kind pending hold
      exact ⟨hactivation, hscheduled.snoc (hquiet _)⟩
  · rw [hsettings, Settings.entry_withPending]
    refine (hkept.entries kind hkind fun h other hmem =>
      hfee h other (List.mem_append_left _ hmem)).imp_right ?_
    rintro ⟨written, hentry, hwritten, hpassed, happlied⟩
    exact ⟨written, hentry, hwritten, hpassed, happlied.later (by rw [hledger])⟩

omit [LinearOrder A] in
/-- An applied change becomes the stored value of its kind. -/
theorem TimelockKept.apply (hkept : TimelockKept earlier transition.before)
    {signers : List A} {kind : ConfigChangeKind} {pending : PendingConfigChange}
    (hlabel : transition.label = .invoke signers (.control (.applyScheduledChanges kind)))
    (hledger : transition.after.ledger = transition.before.ledger)
    (hpending : transition.before.settings.pendingConfigChange.get kind = some pending)
    (hactive : pending.activationLedger ≤ transition.before.ledger.sequence)
    (hsettings : transition.after.settings =
      (transition.before.settings.write pending.payload).withoutPending kind) :
    TimelockKept (earlier ++ [transition]) transition.after := by
  have hkind := hkept.kind kind pending hpending
  obtain ⟨hschema, hstored⟩ := transition.before.settings.write_pending pending.payload
  refine hkept.settle hlabel rfl ?_ ?_ fun other hother hfee => ?_
  · rw [hsettings]
    exact hschema
  · rw [hsettings, Settings.withoutPending, hstored]
  · rw [hsettings, Settings.entry_withoutPending]
    by_cases hsame : pending.payload.kind = other
    · refine .inr ⟨pending.payload, hsame ▸ Settings.entry_write _ _, hsame,
        hkept.passes kind pending hpending, ?_⟩
      obtain ⟨hactivation, hscheduled⟩ := hkept.scheduled kind pending hpending
      refine ⟨earlier, transition, [], pending.scheduledAtLedger, rfl, ?_, hscheduled, ?_, ?_⟩
      · rw [hkind]
        exact ⟨signers, hlabel⟩
      · exact hactivation ▸ hactive
      · rw [hledger]
    · rw [Settings.entry_write_of_ne _ hsame]
      refine (hkept.entries other hother hfee).imp_right ?_
      rintro ⟨written, hentry, hwritten, hpassed, happlied⟩
      exact ⟨written, hentry, hwritten, hpassed, happlied.later (by rw [hledger])⟩

omit [LinearOrder A] in
/-- An administrative call keeps the pending changes and the stored values traced. -/
theorem TimelockKept.administer (hkept : TimelockKept earlier transition.before)
    {signers : List A} {call : ControlCall A} {settings' : Settings}
    (hlabel : transition.label = .invoke signers (.control call))
    (hledger : transition.after.ledger = transition.before.ledger)
    (hsettings : transition.after.settings = settings')
    (heffect : TimelockEffect ⟨host, transition.before.ledger, signers⟩
      transition.before.storage.control call settings') :
    TimelockKept (earlier ++ [transition]) transition.after := by
  have hsequence : transition.before.ledger.sequence ≤ transition.after.ledger.sequence := by
    rw [hledger]
  cases heffect with
  | initialized admin oracle _ hsame =>
      refine hkept.quiet hsequence (not_settlesChange hlabel rfl) ?_ ?_ fun kind hkind _ => ?_
      · rw [hsettings, hsame.schema]
        exact ⟨(by decide : currentSchemaVersion ≠ 0), le_refl currentSchemaVersion⟩
      · rw [hsettings, hsame.pending]
        rfl
      · simp only [hsettings, hsame.entry hkind]
        cases kind with
        | windows => exact .inr (.inr ⟨rfl, rfl⟩)
        | _ => exact .inl rfl
  | scheduled _ payload admin hschedules hpasses hadmin hsigner _ =>
      exact hkept.schedule hlabel hledger hschedules hpasses hadmin hsigner hsettings
  | applied kind pending hpending _ hactive =>
      exact hkept.apply hlabel hledger hpending hactive hsettings
  | cancelled kind =>
      refine hkept.settle hlabel rfl (by rw [hsettings]; rfl) (by rw [hsettings]; rfl)
        fun other hother hfee => ?_
      rw [hsettings, Settings.entry_withoutPending]
      refine (hkept.entries other hother hfee).imp_right ?_
      rintro ⟨written, hentry, hwritten, hpassed, happlied⟩
      exact ⟨written, hentry, hwritten, hpassed, happlied.later hsequence⟩
  | setNow _ payload hplain hfree =>
      obtain ⟨hschema, hstored⟩ :=
        transition.before.storage.control.settings.write_pending payload
      refine hkept.quiet hsequence (not_settlesChange hlabel hplain.2) ?_ ?_ fun kind hkind _ => ?_
      · rw [hsettings, hschema]
        exact hkept.schema
      · rw [hsettings, hstored]
        rfl
      · rw [hsettings]
        refine .inl (Settings.entry_write_of_ne _ ?_)
        rintro rfl
        rw [hfree] at hkind
        cases hkind
  | other _ _ hplain hsame =>
      refine hkept.quiet hsequence (not_settlesChange hlabel hplain.2) ?_ ?_ fun kind hkind _ => ?_
      · rw [hsettings, hsame.schema]
        exact hkept.schema
      · rw [hsettings, hsame.pending]
        rfl
      · rw [hsettings]
        exact .inl (hsame.entry hkind)

/-- Every step keeps the pending changes and the stored values traced. -/
theorem TimelockKept.step (hkept : TimelockKept earlier transition.before)
    (hstep : Step host transition.before transition.label transition.after) :
    TimelockKept (earlier ++ [transition]) transition.after := by
  have hledger := hstep.ledger_le
  obtain ⟨before, label, after⟩ := transition
  cases hstep.timelockChange with
  | administered signers call _ heffect =>
      exact hkept.administer rfl hstep.ledger_eq rfl heffect
  | executed signers executor proposalId proposal _ hproposal hsame =>
      obtain ⟨henacted, hfee⟩ := before.storage.control.enact_timelock proposal.action
      refine hkept.quiet hledger (fun kind hsettles => ?_) ?_ ?_ fun kind hkind hunset => .inl ?_
      · obtain ⟨_, _, hcall, -⟩ := hsettles
        cases hcall
      · show SchemaSupported after.settings.schemaVersion
        rw [hsame.schema, henacted.schema]
        exact hkept.schema
      · show after.settings.pendingConfigChange = _
        rw [hsame.pending, henacted.pending]
        rfl
      · show after.settings.entry kind = _
        rw [hsame.entry hkind, henacted.entry hkind]
        cases kind with
        | protocolFeeBps =>
            refine congrArg (some ∘ ConfigChangePayload.protocolFeeBps) (hfee fun rate haction => ?_)
            exact hunset rfl ⟨signers, executor, proposalId, proposal, rate, rfl, hproposal, haction⟩
        | _ => rfl
  | other _ _ schemaVersion hplain hschema hsame =>
      refine hkept.quiet hledger (fun kind hsettles => ?_) ?_ ?_ fun kind hkind _ => .inl ?_
      · obtain ⟨signers, control, rfl, -⟩ := hsettles
        cases hplain signers _ rfl
      · show SchemaSupported after.settings.schemaVersion
        rw [hsame.schema]
        exact hschema hkept.schema
      · exact hsame.pending
      · exact (hsame.entry hkind).trans (by cases kind <;> rfl)

end Steps

/-! ## The timelock over whole histories -/

/-- The pending changes and the stored values are traced throughout every history. -/
theorem History.timelockKept (hhistory : History host trace chain) : TimelockKept trace chain := by
  obtain ⟨ledger, hrun⟩ := hhistory
  refine hrun.invariant_of_trace TimelockKept ?_ fun earlier last _ hstep hkept => hkept.step hstep
  have hschema : SchemaSupported none := ⟨by decide, by decide⟩
  exact ⟨hschema, fun _ _ h => (nomatch h), fun _ _ h => (nomatch h), fun _ _ h => (nomatch h),
    fun _ _ _ => .inl (.inl rfl)⟩

omit [LinearOrder A] in
/-- A pending change that has become active is applied by whoever asks for it in normal mode. -/
theorem applyScheduledChanges_returns {env : Env A} {control : Control A} {kind : ConfigChangeKind}
    {pending : PendingConfigChange} (hschema : SchemaSupported control.settings.schemaVersion)
    (hmode : control.settings.currentMode = .normal)
    (hpending : control.settings.pendingConfigChange.get kind = some pending)
    (hactive : pending.activationLedger ≤ env.ledger.sequence)
    (hkind : pending.payload.kind = kind) (hpasses : pending.payload.Passes A) :
    Returns (applyScheduledChanges kind) env control fun _ _ => True := by
  have hsupported : ¬ (control.settings.schemaVersion.getD 1 = 0 ∨
      currentSchemaVersion < control.settings.schemaVersion.getD 1) :=
    not_or.mpr ⟨hschema.1, not_lt.mpr hschema.2⟩
  simp only [applyScheduledChanges, applyConfigPayload, requireSupportedSchema, ensureNormalMode,
    policyGate, returns_bind, returns_gets, returns_reject, returns_pure, returns_orError,
    returns_ledgerSequence]
  refine ⟨hsupported, ?_, pending, hpending, not_lt.mpr hactive, not_not.mpr hkind, ?_⟩
  · simp [hmode, RuntimeMode.blocks]
  · refine (hpasses env control).mono fun _ control' _ => ?_
    simp [updateSettings]

/-- Between two applications of a kind another change of that kind is scheduled. -/
theorem History.rescheduled {first second : Transition (Chain A) (Action A)}
    {between later : List (Transition (Chain A) (Action A))} {kind : ConfigChangeKind}
    (hhistory : History host (earlier ++ first :: (between ++ second :: later)) chain)
    (hfirst : Applies first kind) (hsecond : Applies second kind) :
    ∃ scheduling ∈ between, ∃ payload, Schedules scheduling payload ∧ payload.kind = kind := by
  obtain ⟨hbefore, hstep, -⟩ := @History.cut _ _ _ _ (earlier ++ first :: between) later second
    (by simpa using hhistory)
  obtain ⟨signers, hlabel⟩ := hsecond
  obtain ⟨signers', hlabel'⟩ := hfirst
  rw [hlabel] at hstep
  cases hstep.timelockChange with
  | administered _ _ _ heffect =>
      generalize second.after.settings = settings' at heffect
      cases heffect with
      | applied _ pending hpending hkind hactive =>
          obtain ⟨-, hscheduled⟩ := hbefore.timelockKept.scheduled kind pending hpending
          refine (hscheduled.mem_between ?_ ?_).imp fun scheduling hscheduling =>
            ⟨hscheduling.1, _, hscheduling.2.1, hkind⟩
          · rintro ⟨⟨_, _, _, hother, hschedules, -⟩, -⟩
            cases hlabel'.symm.trans hother
            cases hschedules
          · exact fun hquiet => hquiet ⟨signers', _, hlabel', by rw [hkind]; rfl⟩
      | scheduled _ _ _ hschedules => cases hschedules
      | setNow _ _ hplain | other _ _ hplain => cases hplain.2
  | other _ _ _ hplain => cases hplain signers _ rfl

/-- In every history the stored value of a timelocked kind is its initial one or was scheduled by
the administrator a timelock before it was applied, was not cancelled in between, and passes the
validation of its kind. Every pending change has the kind it is stored under, and once it is active
anyone can apply it in normal mode. Between two applications of a kind a change is scheduled. -/
theorem timelock_respected (hhistory : History host trace chain) :
    (∀ kind, kind.isTimelocked = true →
      (kind = .protocolFeeBps → ∀ transition ∈ trace, ¬ ExecutesSetFee transition) →
      InitialEntry A kind (chain.settings.entry kind) ∨
        ∃ payload, chain.settings.entry kind = some payload ∧ payload.kind = kind ∧
          payload.Passes A ∧ AppliedBy trace payload chain.ledger.sequence) ∧
    (∀ kind pending, chain.settings.pendingConfigChange.get kind = some pending →
      pending.payload.kind = kind ∧
        (pending.activationLedger ≤ chain.ledger.sequence → chain.settings.currentMode = .normal →
          ∀ signers, ∃ chain', Step host chain
            (.invoke signers (.control (.applyScheduledChanges kind))) chain')) ∧
    ∀ earlier first between second later kind,
      trace = earlier ++ first :: (between ++ second :: later) →
      Applies first kind → Applies second kind →
      ∃ scheduling ∈ between, ∃ payload, Schedules scheduling payload ∧ payload.kind = kind := by
  have hkept := hhistory.timelockKept
  refine ⟨hkept.entries, fun kind pending hpending => ⟨hkept.kind kind pending hpending, ?_⟩, ?_⟩
  · intro hactive hmode signers
    have hcall : Returns (Call.control (.applyScheduledChanges kind)).exec
        ⟨host, chain.ledger, signers⟩ chain.storage fun _ _ => True := by
      simp only [Call.exec, returns_onControl]
      exact applyScheduledChanges_returns hkept.schema hmode hpending hactive
        (hkept.kind kind pending hpending) (hkept.passes kind pending hpending)
    obtain ⟨_, storage, hrun, -⟩ := hcall
    exact ⟨_, .invoke chain signers _ storage hrun⟩
  · rintro earlier first between second later kind rfl hfirst hsecond
    exact hhistory.rescheduled hfirst hsecond

/-- A cap on pending winnings is scheduled, and its timelock passes. -/
def scheduledCap (cap : ℤ) : List (Action ℕ) := trialSetup ++ [
  .invoke [1] (.control (.scheduleMaxPendingWinnings (some cap))),
  .closeLedger (ledgerAt 1441)]

/-- The cap is applied by user 5, a timelock after administrator 1 scheduled it. -/
theorem scheduled_cap_applied : ∃ trace, ∃ chain : Chain ℕ, History trialHost trace chain ∧
    chain.settings.maxPendingWinnings = some 50 ∧
    AppliedBy trace (.maxPendingWinnings (some 50)) chain.ledger.sequence := by
  obtain ⟨trace, chain, hhistory, -, hfits⟩ := exists_trial_history
    (scheduledCap 50 ++ [.invoke [5] (.control (.applyScheduledChanges .maxPendingWinnings))])
    (fun chain => decide (chain.settings.maxPendingWinnings = some 50)) (by decide +kernel)
  have hcap : chain.settings.maxPendingWinnings = some 50 := of_decide_eq_true hfits
  have hentry : chain.settings.entry .maxPendingWinnings =
      some (.maxPendingWinnings (some 50)) := by
    simp [Settings.entry, hcap]
  refine ⟨trace, chain, hhistory, hcap, ?_⟩
  rcases (timelock_respected hhistory).1 .maxPendingWinnings rfl nofun with
    (hinitial | ⟨-, hkind⟩) | ⟨payload, hpayload, -, -, happlied⟩
  · cases hentry.symm.trans hinitial
  · cases hkind
  · obtain rfl := Option.some.inj (hentry.symm.trans hpayload)
    exact happlied

end XelmaMarket
