import XelmaMarket.Resolution

/-!
# What an administrative call does

One inductive says what a successful administrative call does to the roles, the proposals, the
runtime mode, the encoded configurations and the checked settings, together with the guards that
let it through. Later proofs about the administration are case analyses of it.
-/

namespace XelmaMarket

open Transaction

variable {A : Type}

/-! ## Validated payloads -/

/-- What the validation of a payload establishes of a fee rate and of a retention limit. -/
@[mk_iff]
structure ConfigChangePayload.Valid (payload : ConfigChangePayload) : Prop where
  fee : ∀ rate, payload = .protocolFeeBps (some rate) → 0 < rate ∧ rate ≤ maxProtocolFeeBps
  retention : ∀ limit, payload = .archiveRetention limit → minArchiveRetention ≤ limit

/-- A validation changes nothing and lets valid payloads through. -/
theorem validateConfigPayload_spec {env : Env A} {control : Control A}
    (payload : ConfigChangePayload) :
    Ensures (validateConfigPayload payload) env control fun _ control' =>
      control' = control ∧ payload.Valid := by
  cases payload with
  | protocolFeeBps bps =>
      simp only [validateConfigPayload, validateProtocolFeeBps, validateRate, ensures_onSome,
        ensures_reject]
      refine ⟨fun rate hrate hvalid => ⟨trivial, ⟨fun other hother => ?_, by simp⟩⟩,
        fun hnone => ⟨trivial, ⟨fun other hother => ?_, by simp⟩⟩⟩
      · subst hrate
        obtain rfl : rate = other := by simpa using hother
        omega
      · subst hnone
        cases hother
  | archiveRetention limit =>
      simp only [validateConfigPayload, validateArchiveRetention, ensures_reject]
      refine fun hvalid => ⟨trivial, ⟨by simp, fun other hother => ?_⟩⟩
      obtain rfl : limit = other := by simpa using hother
      exact (not_not.mp hvalid).1
  | _ =>
      simp [validateConfigPayload, validateWindows, validateMaxStake, validateAmountBound,
        validateOracleStaleThreshold, validateOracleMaxDeviationBps, validateRate,
        validateMinParticipants, validateMaxPrecisionParticipants, validateCloseBufferLedgers,
        validateOracleTimestampSkew, validateEpochMintBudget, validatePendingWinningsExpiry,
        validatePrecisionPayoutPolicy, validateMinBet, validateDisputeLedgers,
        validateEarlyCashoutBps, ConfigChangePayload.valid_iff]

/-- Writing a valid payload keeps the fee rate capped. -/
theorem FeeCapped.write {settings : Settings} {payload : ConfigChangePayload}
    (hvalid : payload.Valid) (hcapped : FeeCapped settings.protocolFeeBps) :
    FeeCapped (settings.write payload).protocolFeeBps := by
  cases payload with
  | protocolFeeBps bps =>
      intro rate hrate
      exact (hvalid.fee rate (congrArg _ hrate)).2
  | _ => exact hcapped

/-! ## The effects -/

/-- The insurance rates are within their limits. -/
structure RatesCapped (splitBps coverageBps : Option ℕ) : Prop where
  split : splitBps.getD 0 ≤ maxInsuranceSplitBps
  coverage : coverageBps.getD 0 ≤ maxInsuranceCoverageBps

/-- The parts of the administration that the effects keep track of are as they were, and insurance
rates within their limits stay so. -/
@[mk_iff]
structure SameCore (control control' : Control A) : Prop where
  admin : control'.governance.admin = control.governance.admin
  approver : control'.governance.govApprover = control.governance.govApprover
  proposals : control'.governance.govProposal = control.governance.govProposal
  next : control'.governance.nextGovProposalId = control.governance.nextGovProposalId
  mode : control'.settings.paused = control.settings.paused
  config : control'.settings.config = control.settings.config
  fee : control'.settings.protocolFeeBps = control.settings.protocolFeeBps
  retention : control'.settings.archiveRetention = control.settings.archiveRetention
  rates : RatesCapped control.settings.insSplitBps control.settings.insCovBps →
    RatesCapped control'.settings.insSplitBps control'.settings.insCovBps

/-- A call that switches the runtime mode, and the mode it switches to. The two emergency calls
need that no approver is set. -/
inductive SwitchesMode (governance : Governance A) : ControlCall A → RuntimeMode → Prop where
  | pause (hungoverned : governance.govApprover = none) :
      SwitchesMode governance .pauseContract .fullyPaused
  | unpause (hungoverned : governance.govApprover = none) :
      SwitchesMode governance .unpauseContract .normal
  | set (mode : ℕ) (newMode : RuntimeMode) (hmode : runtimeModeOf mode = some newMode) :
      SwitchesMode governance (.setRuntimeMode mode) newMode

/-- A call that rewrites the heartbeat gate config, and how. -/
inductive RewritesHb : ControlCall A → (HbGateConfig → HbGateConfig) → Prop where
  | strict (enabled : Bool) :
      RewritesHb (.setHbStrictMode enabled) fun config => { config with strictMode := enabled }
  | arm : RewritesHb .armHbOverride fun config => { config with overrideArmed := true }
  | grace (seconds : ℕ) :
      RewritesHb (.setHbGraceSeconds seconds) fun config => { config with graceSeconds := seconds }

/-- The control with another entry under one of the three encoded keys. -/
def Control.withEntry (control : Control A) (host : Host A) (key : ConfigKey)
    (entry : ConfigEntry) : Control A :=
  { control with
    settings := { control.settings with
      config := control.settings.config.set (host.encodeConfigKey key) entry } }

/-- The control with another stored proposal. -/
def Control.withProposal (control : Control A) (id : ℕ) (proposal : GovProposal A) : Control A :=
  { control with
    governance := { control.governance with
      govProposal := control.governance.govProposal.set id proposal } }

/-- The calls that have an effect of their own below. -/
def ControlCall.hasOwnEffect : ControlCall A → Bool
  | .initializeContract .. | .pauseContract | .unpauseContract | .setRuntimeMode _
  | .setDeviationRefMode .. | .setAttestationKey _ | .setHbStrictMode _ | .armHbOverride
  | .setHbGraceSeconds _ | .setGovApprover _ | .proposeGovAction .. | .approveGovProposal ..
  | .cancelGovProposal .. => true
  | _ => false

/-- The proposal a proposer files. -/
def filedProposal [DecidableEq A] (env : Env A) (governance : Governance A) (proposer : A)
    (action : GovAction A) (customTtl : Option ℕ) : GovProposal A where
  id := governance.nextGovProposalId.getD 1
  proposer := proposer
  approver := none
  action := action
  createdAtLedger := env.ledger.sequence
  expiresAtLedger := saturatingAddUint 32 env.ledger.sequence
    (customTtl.getD (governance.govProposalTtlLedgers.getD defaultGovProposalTtlLedgers))
  status := .pending

/-- The administration in another runtime mode; the mode it is in already is not written again. -/
def Control.withMode (control : Control A) (mode : RuntimeMode) : Control A :=
  if control.settings.currentMode ≠ mode then
    { control with settings := { control.settings with paused := some mode } }
  else
    control

/-- Whether a rate that an action sets is within its limits. -/
def GovAction.Valid : GovAction A → Prop
  | .setProtocolFeeBps bps => (ConfigChangePayload.protocolFeeBps bps).Valid
  | .setInsuranceSplitBps bps => bps ≤ maxInsuranceSplitBps
  | .setInsuranceCoverageBps bps => bps ≤ maxInsuranceCoverageBps
  | _ => True

/-- The administration after the action of a proposal. -/
def Control.enact (control : Control A) : GovAction A → Control A
  | .pauseProtocol => control.withMode .fullyPaused
  | .unpauseProtocol => control.withMode .normal
  | .setProtocolFeeBps bps =>
      { control with settings := { control.settings with protocolFeeBps := bps } }
  | .setAdmin newAdmin =>
      { control with governance := { control.governance with admin := some newAdmin } }
  | .setOracle newOracle =>
      { control with governance := { control.governance with oracle := some newOracle } }
  | .setInsuranceSplitBps bps =>
      { control with settings := { control.settings with insSplitBps := some bps } }
  | .setInsuranceCoverageBps bps =>
      { control with settings := { control.settings with insCovBps := some bps } }
  | .withdrawProtocolFee .. | .setTreasuryAddress _ | .withdrawInsuranceFund .. => control

/-- Switching the mode changes nothing else. -/
theorem Control.withMode_eq (control : Control A) (mode : RuntimeMode) :
    ∃ paused : Option RuntimeMode, paused.getD .normal = mode ∧
      control.withMode mode =
        { control with settings := { control.settings with paused := paused } } := by
  unfold Control.withMode
  split
  · exact ⟨some mode, rfl, rfl⟩
  · next hsame => exact ⟨control.settings.paused, not_not.mp hsame, rfl⟩

@[simp] theorem Control.withMode_currentMode (control : Control A) (mode : RuntimeMode) :
    (control.withMode mode).settings.currentMode = mode := by
  obtain ⟨paused, hpaused, heq⟩ := control.withMode_eq mode
  rw [heq]
  exact hpaused

@[simp] theorem Control.withMode_governance (control : Control A) (mode : RuntimeMode) :
    (control.withMode mode).governance = control.governance := by
  obtain ⟨paused, -, heq⟩ := control.withMode_eq mode
  rw [heq]

@[simp] theorem Control.withMode_config (control : Control A) (mode : RuntimeMode) :
    (control.withMode mode).settings.config = control.settings.config := by
  obtain ⟨paused, -, heq⟩ := control.withMode_eq mode
  rw [heq]

@[simp] theorem Control.withMode_fee (control : Control A) (mode : RuntimeMode) :
    (control.withMode mode).settings.protocolFeeBps = control.settings.protocolFeeBps := by
  obtain ⟨paused, -, heq⟩ := control.withMode_eq mode
  rw [heq]

@[simp] theorem Control.withMode_retention (control : Control A) (mode : RuntimeMode) :
    (control.withMode mode).settings.archiveRetention = control.settings.archiveRetention := by
  obtain ⟨paused, -, heq⟩ := control.withMode_eq mode
  rw [heq]

section Enact

variable (control : Control A) (action : GovAction A)

@[simp] theorem Control.enact_approver :
    (control.enact action).governance.govApprover = control.governance.govApprover := by
  cases action <;> simp [Control.enact]

@[simp] theorem Control.enact_proposals :
    (control.enact action).governance.govProposal = control.governance.govProposal := by
  cases action <;> simp [Control.enact]

@[simp] theorem Control.enact_next :
    (control.enact action).governance.nextGovProposalId =
      control.governance.nextGovProposalId := by
  cases action <;> simp [Control.enact]

@[simp] theorem Control.enact_config :
    (control.enact action).settings.config = control.settings.config := by
  cases action <;> simp [Control.enact]

@[simp] theorem Control.enact_retention :
    (control.enact action).settings.archiveRetention = control.settings.archiveRetention := by
  cases action <;> simp [Control.enact]

/-- A valid action keeps the fee rate capped. -/
theorem FeeCapped.enact {control : Control A} {action : GovAction A} (hvalid : action.Valid)
    (hcapped : FeeCapped control.settings.protocolFeeBps) :
    FeeCapped (control.enact action).settings.protocolFeeBps := by
  cases action with
  | setProtocolFeeBps bps => exact FeeCapped.write hvalid hcapped
  | pauseProtocol | unpauseProtocol =>
      rw [Control.enact, Control.withMode_fee]
      exact hcapped
  | _ => exact hcapped

/-- A valid action keeps the insurance rates capped. -/
theorem RatesCapped.enact {control : Control A} {action : GovAction A} (hvalid : action.Valid)
    (hcapped : RatesCapped control.settings.insSplitBps control.settings.insCovBps) :
    RatesCapped (control.enact action).settings.insSplitBps
      (control.enact action).settings.insCovBps := by
  cases action with
  | setInsuranceSplitBps bps => exact ⟨hvalid, hcapped.coverage⟩
  | setInsuranceCoverageBps bps => exact ⟨hcapped.split, hvalid⟩
  | pauseProtocol | unpauseProtocol =>
      obtain ⟨paused, -, heq⟩ := control.withMode_eq _
      rw [Control.enact, heq]
      exact hcapped
  | _ => exact hcapped

end Enact

variable [DecidableEq A]

/-- What a successful administrative call does. -/
inductive ControlEffect (env : Env A) (control : Control A) : ControlCall A → Control A → Prop where
  | initialized (admin oracle : A) (hnone : control.governance.admin = none)
      (hsigner : admin ∈ env.signers) :
      ControlEffect env control (.initializeContract admin oracle)
        { governance := { control.governance with admin := some admin, oracle := some oracle }
          settings := { control.settings with
            paused := some .normal
            schemaVersion := some currentSchemaVersion
            betWindowLedgers := some defaultBetWindowLedgers
            runWindowLedgers := some defaultRunWindowLedgers } }
  | switched (call : ControlCall A) (mode : RuntimeMode)
      (hswitches : SwitchesMode control.governance call mode)
      (hadmin : ∃ admin, control.governance.admin = some admin ∧ admin ∈ env.signers) :
      ControlEffect env control call (control.withMode mode)
  | configured (call : ControlCall A) (payload : ConfigChangePayload)
      (hplain : call.hasOwnEffect = false) (hvalid : payload.Valid)
      (pendingConfigChange : Store ConfigChangeKind PendingConfigChange) :
      ControlEffect env control call
        { control with
          settings := { control.settings.write payload with
            pendingConfigChange := pendingConfigChange } }
  | deviation (mode : DeviationReferenceMode) (windowSamples : ℕ) :
      ControlEffect env control (.setDeviationRefMode mode windowSamples)
        (control.withEntry env.host .deviationConfigKey
          (.deviation { referenceMode := mode, windowSamples := windowSamples }))
  | attestation (key : Option (BytesN 32)) :
      ControlEffect env control (.setAttestationKey key)
        (control.withEntry env.host .attestationConfigKey (.attestation { key := key }))
  | heartbeat (call : ControlCall A) (change : HbGateConfig → HbGateConfig)
      (hrewrites : RewritesHb call change) (config : HbGateConfig)
      (hload : control.settings.hbConfig env.host = some config) :
      ControlEffect env control call
        (control.withEntry env.host .hbGateKey (.hbGate (change config)))
  | approver (approver admin : A) (hadmin : control.governance.admin = some admin)
      (hsigner : admin ∈ env.signers) :
      ControlEffect env control (.setGovApprover approver)
        { control with governance := { control.governance with govApprover := some approver } }
  | proposed (proposer : A) (action : GovAction A) (customTtl : Option ℕ)
      (hsigner : proposer ∈ env.signers)
      (hauthorized : control.governance.isAuthorizedGovUser proposer = true)
      (hnext : control.governance.nextGovProposalId.getD 1 + 1 < 2 ^ 64) :
      ControlEffect env control (.proposeGovAction proposer action customTtl)
        { control with
          governance := { control.governance with
            nextGovProposalId := some (control.governance.nextGovProposalId.getD 1 + 1)
            govProposal := control.governance.govProposal.set
              (control.governance.nextGovProposalId.getD 1)
              (filedProposal env control.governance proposer action customTtl) } }
  | approved (approver : A) (id : ℕ) (proposal : GovProposal A) (hsigner : approver ∈ env.signers)
      (hauthorized : control.governance.isAuthorizedGovUser approver = true)
      (hproposal : control.governance.govProposal.get id = some proposal)
      (hlive : env.ledger.sequence ≤ proposal.expiresAtLedger)
      (hpending : proposal.status = .pending) (hother : proposal.proposer ≠ approver) :
      ControlEffect env control (.approveGovProposal approver id)
        (control.withProposal id { proposal with approver := some approver, status := .approved })
  | cancelled (canceller : A) (id : ℕ) (proposal : GovProposal A)
      (hsigner : canceller ∈ env.signers)
      (hproposal : control.governance.govProposal.get id = some proposal)
      (hopen : proposal.status ≠ .executed ∧ proposal.status ≠ .cancelled) :
      ControlEffect env control (.cancelGovProposal canceller id)
        (control.withProposal id { proposal with status := .cancelled })
  | other (call : ControlCall A) (control' : Control A) (hplain : call.hasOwnEffect = false)
      (hsame : SameCore control control') :
      ControlEffect env control call control'

/-! ## Every administrative call has its effect -/

variable {env : Env A} {control : Control A}

omit [DecidableEq A] in
theorem SameCore.refl (control : Control A) : SameCore control control :=
  ⟨rfl, rfl, rfl, rfl, rfl, rfl, rfl, rfl, id⟩

/-- The immediate setters write a valid payload. -/
theorem setNow_effect {call : ControlCall A} (hplain : call.hasOwnEffect = false)
    (payload : ConfigChangePayload) :
    Ensures (setNow payload) env control fun _ control' =>
      ControlEffect env control call control' := by
  simp only [setNow, adminGate, ensureNotPaused, ensures_bind, ensures_requireSupportedSchema,
    ensures_authorizedAdmin, ensures_policyGate, ensures_pure]
  intro _ _ _ _ _
  refine (validateConfigPayload_spec payload).mono ?_
  rintro _ _ ⟨rfl, hvalid⟩
  rw [ensures_updateSettings]
  exact .configured call payload hplain hvalid _

/-- A scheduled change waits; nothing else changes. -/
theorem schedule_same (payload : ConfigChangePayload) :
    Ensures (schedule payload) env control fun _ control' => SameCore control control' := by
  simp only [schedule, ensures_bind, ensures_requireSupportedSchema]
  intro _
  refine (validateConfigPayload_spec payload).mono ?_
  rintro _ _ ⟨rfl, -⟩
  simp only [scheduleConfigChange, ensureNotPaused, ensures_bind, ensures_authorizedAdmin,
    ensures_policyGate, ensures_gets, ensures_reject, ensures_ledgerSequence, ensures_liftM,
    ensures_updateSettings]
  intro _ _ _ _ _ _ _
  exact ⟨rfl, rfl, rfl, rfl, rfl, rfl, rfl, rfl, id⟩

/-- A scheduled change is applied after it passes its validation again. -/
theorem applyScheduledChanges_effect {call : ControlCall A} (hplain : call.hasOwnEffect = false)
    (kind : ConfigChangeKind) :
    Ensures (applyScheduledChanges kind) env control fun _ control' =>
      ControlEffect env control call control' := by
  simp only [applyScheduledChanges, applyConfigPayload, ensureNormalMode, ensures_bind,
    ensures_requireSupportedSchema, ensures_policyGate, ensures_gets, ensures_orError,
    ensures_ledgerSequence, ensures_reject, ensures_updateSettings]
  intro _ _ pending _ _ _
  refine (validateConfigPayload_spec pending.payload).mono ?_
  rintro _ _ ⟨rfl, hvalid⟩
  exact .configured call pending.payload hplain hvalid _

omit [DecidableEq A] in
theorem setMode_spec (mode : RuntimeMode) :
    Ensures (setMode mode) env control fun _ control' => control' = control.withMode mode := by
  simp only [setMode, ensures_bind, ensures_gets, ensures_onlyIf, ensures_updateSettings]
  exact ⟨fun hother => (if_pos hother).symm, fun hsame => (if_neg hsame).symm⟩

/-- The calls that switch the mode. -/
theorem switch_effect {call : ControlCall A} {mode : RuntimeMode}
    (hswitches : SwitchesMode control.governance call mode)
    (hadmin : ∃ admin, control.governance.admin = some admin ∧ admin ∈ env.signers) :
    Ensures (setMode mode) env control fun _ control' =>
      ControlEffect env control call control' := by
  refine (setMode_spec mode).mono ?_
  rintro _ _ rfl
  exact .switched call mode hswitches hadmin

/-- The calls that rewrite the heartbeat gate config. -/
theorem rewriteHb_effect {call : ControlCall A} {change : HbGateConfig → HbGateConfig}
    (hrewrites : RewritesHb call change) :
    Ensures (loadHbConfig >>= fun config => saveHbConfig (change config)) env control
      fun _ control' => ControlEffect env control call control' := by
  simp only [saveHbConfig, ensures_bind, ensures_loadHbConfig, ensures_writeConfigEntry]
  exact fun config hload => .heartbeat call change hrewrites config hload

/-- Every administrative call has its effect. -/
theorem ControlCall.ensures_effect (call : ControlCall A) :
    Ensures call.exec env control fun _ control' => ControlEffect env control call control' := by
  cases call with
  | initializeContract admin oracle =>
      simp only [ControlCall.exec, XelmaMarket.initializeContract, ensures_bind,
        ensures_requireAuth, ensures_reject, ensures_gets, ensures_updateGovernance,
        ensures_updateSettings, not_isSome_eq_true]
      exact fun hsigner _ hnone => .initialized admin oracle hnone hsigner
  | pauseContract =>
      simp only [ControlCall.exec, XelmaMarket.pauseContract, ensures_bind,
        ensures_requireSupportedSchema, ensures_authorizedAdmin, ensures_gets, ensures_reject]
      intro _ admin hadmin hsigner hungoverned
      exact switch_effect (.pause (not_isSome_eq_true.mp hungoverned)) ⟨admin, hadmin, hsigner⟩
  | unpauseContract =>
      simp only [ControlCall.exec, XelmaMarket.unpauseContract, ensures_bind,
        ensures_requireSupportedSchema, ensures_authorizedAdmin, ensures_gets, ensures_reject]
      intro _ admin hadmin hsigner hungoverned
      exact switch_effect (.unpause (not_isSome_eq_true.mp hungoverned)) ⟨admin, hadmin, hsigner⟩
  | setRuntimeMode mode =>
      simp only [ControlCall.exec, XelmaMarket.setRuntimeMode, ensures_bind,
        ensures_requireSupportedSchema, ensures_authorizedAdmin, ensures_orError]
      intro _ admin hadmin hsigner newMode hmode
      exact switch_effect (.set mode newMode hmode) ⟨admin, hadmin, hsigner⟩
  | setDeviationRefMode mode windowSamples =>
      simp only [ControlCall.exec, XelmaMarket.setDeviationRefMode, adminGate, ensureNotPaused,
        ensures_bind, ensures_requireSupportedSchema, ensures_authorizedAdmin,
        ensures_policyGate, ensures_pure, ensures_reject, ensures_writeConfigEntry]
      exact fun _ _ _ _ _ _ => .deviation mode windowSamples
  | setAttestationKey key =>
      simp only [ControlCall.exec, XelmaMarket.setAttestationKey, adminGate, ensureNotPaused,
        ensures_bind, ensures_requireSupportedSchema, ensures_authorizedAdmin,
        ensures_policyGate, ensures_pure, ensures_writeConfigEntry]
      exact fun _ _ _ _ _ => .attestation key
  | setHbStrictMode enabled =>
      simp only [ControlCall.exec, XelmaMarket.setHbStrictMode, adminGate, ensureNotPaused,
        ensures_bind, ensures_requireSupportedSchema, ensures_authorizedAdmin,
        ensures_policyGate, ensures_pure]
      exact fun _ _ _ _ _ => (ensures_bind _ _).mp (rewriteHb_effect (.strict enabled))
  | armHbOverride =>
      simp only [ControlCall.exec, XelmaMarket.armHbOverride, ensureNotPaused, ensures_bind,
        ensures_authorizedAdmin, ensures_policyGate]
      exact fun _ _ _ _ => (ensures_bind _ _).mp (rewriteHb_effect .arm)
  | setHbGraceSeconds seconds =>
      simp only [ControlCall.exec, XelmaMarket.setHbGraceSeconds, adminGate, ensureNotPaused,
        ensures_bind, ensures_requireSupportedSchema, ensures_authorizedAdmin,
        ensures_policyGate, ensures_pure]
      exact fun _ _ _ _ _ => (ensures_bind _ _).mp (rewriteHb_effect (.grace seconds))
  | setGovApprover approver =>
      simp only [ControlCall.exec, XelmaMarket.setGovApprover, ensures_bind,
        ensures_requireSupportedSchema, ensures_authorizedAdmin, ensures_updateGovernance]
      exact fun _ admin hadmin hsigner => .approver approver admin hadmin hsigner
  | proposeGovAction proposer action customTtl =>
      simp only [ControlCall.exec, discardResult, propose, setGovProposal, ensures_bind,
        ensures_governanceGate, ensures_gets, ensures_failIf, ensures_updateGovernance,
        ensures_ledgerSequence, ensures_pure]
      intro _ hsigner hauthorized hnext
      exact .proposed proposer action customTtl hsigner hauthorized (not_le.mp hnext)
  | approveGovProposal approver id =>
      simp only [ControlCall.exec, approve, readGovProposal, setGovProposal, ensures_bind,
        ensures_governanceGate, ensures_gets, ensures_orError, ensures_ledgerSequence,
        ensures_reject, ensures_updateGovernance]
      intro _ hsigner hauthorized proposal hproposal hlive hopen hunexpired hother
      refine .approved approver id proposal hsigner hauthorized hproposal (not_lt.mp hlive) ?_
        hother
      cases hstatus : proposal.status <;> simp_all
  | cancelGovProposal canceller id =>
      simp only [ControlCall.exec, cancel, readGovProposal, setGovProposal, ensures_bind,
        ensures_governanceGate, ensures_gets, ensures_orError, ensures_reject,
        ensures_updateGovernance]
      intro _ hsigner _ proposal hproposal hopen
      exact .cancelled canceller id proposal hsigner hproposal (not_or.mp hopen)
  | applyScheduledChanges kind => exact applyScheduledChanges_effect rfl kind
  | scheduleWindows | scheduleMaxStake | scheduleMinBet | scheduleMaxUserExposure
  | scheduleMaxPendingWinnings | scheduleOracleStaleThreshold | scheduleOracleDeviationBps
  | scheduleOracleTimestampSkew | scheduleProtocolFeeBps | schedulePendingWinningsExpiry =>
      exact (schedule_same _).mono fun _ control' hsame => .other _ control' rfl hsame
  | setFeeModel | setMinParticipants | setMaxPrecisionParticipants | setPrecisionPayoutPolicy
  | setMintLimit | setEpochMintBudget | setArchiveRetention | setCloseBufferLedgers
  | setEarlyCashoutBps | setDisputeLedgers => exact setNow_effect rfl _
  | announceNextSchema | clearNextSchema | armOracleDeviationOverride | setOracleMinConfidenceBps
  | setOracleStrictMode | updateOracleHeartbeat | setOracleQuorumConfig | cancelConfigChange
  | setRoundTemplate | clearRoundTemplate | setInsuranceEligibleEvents =>
      refine Ensures.mono ?_ fun _ control' hsame => .other _ control' rfl hsame
      simp [ControlCall.exec, XelmaMarket.announceNextSchema, XelmaMarket.clearNextSchema,
        XelmaMarket.armOracleDeviationOverride, XelmaMarket.setOracleMinConfidenceBps,
        XelmaMarket.setOracleStrictMode, XelmaMarket.updateOracleHeartbeat,
        XelmaMarket.setOracleQuorumConfig, validateQuorumConfig, XelmaMarket.cancelConfigChange,
        XelmaMarket.setRoundTemplate, validateRoundTemplate, XelmaMarket.clearRoundTemplate,
        XelmaMarket.setInsuranceEligibleEvents, adminGate, ensureNotPaused, sameCore_iff]
  | setInsuranceSplitBps bps =>
      simp only [ControlCall.exec, XelmaMarket.setInsuranceSplitBps, ensureNotPaused, ensures_bind,
        ensures_authorizedAdmin, ensures_policyGate, ensures_reject, ensures_updateSettings]
      intro _ _ _ _ hvalid
      exact .other _ _ rfl ⟨rfl, rfl, rfl, rfl, rfl, rfl, rfl, rfl,
        fun hcapped => ⟨not_lt.mp hvalid, hcapped.coverage⟩⟩
  | setInsuranceCoverageBps bps =>
      simp only [ControlCall.exec, XelmaMarket.setInsuranceCoverageBps, ensureNotPaused,
        ensures_bind, ensures_authorizedAdmin, ensures_policyGate, ensures_reject,
        ensures_updateSettings]
      intro _ _ _ _ hvalid
      exact .other _ _ rfl ⟨rfl, rfl, rfl, rfl, rfl, rfl, rfl, rfl,
        fun hcapped => ⟨hcapped.split, not_lt.mp hvalid⟩⟩
  | proposeOracleRotation | acceptOracleRotation | cancelOracleRotation
  | getOracleRotationProposal | setAccessControlEnabled | addAllowlisted | removeAllowlisted
  | addDenylisted | removeDenylisted | setGovProposalTtl | establishConstitution
  | proposeAmendment | vetoAmendment | activateAmendment | getAmendment =>
      refine Ensures.mono ?_ fun _ control' hsame => .other _ control' rfl hsame
      simp [ControlCall.exec, discardResult, XelmaMarket.proposeOracleRotation,
        XelmaMarket.acceptOracleRotation, XelmaMarket.cancelOracleRotation,
        XelmaMarket.getOracleRotationProposal, XelmaMarket.setAccessControlEnabled,
        XelmaMarket.addAllowlisted, XelmaMarket.removeAllowlisted, XelmaMarket.addDenylisted,
        XelmaMarket.removeDenylisted, XelmaMarket.setGovProposalTtl,
        XelmaMarket.establishConstitution, XelmaMarket.proposeAmendment,
        XelmaMarket.vetoAmendment, XelmaMarket.activateAmendment, XelmaMarket.getAmendment,
        readAmendment, setAmendment, adminGate, ensureNotPaused, sameCore_iff]

end XelmaMarket
