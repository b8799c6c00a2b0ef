import XelmaMarket.Proposals

/-!
# The administrator and the oracle

What a call does to the two roles and to the pending rotation of the oracle. The oracle changes by
an accepted rotation or by an executed proposal only; whether the two roles stay apart is up to the
addresses these bring in, which nothing compares with the other role.
-/

namespace XelmaMarket

open Transaction

variable {A : Type}

/-! ## What an administrative call does to the roles -/

/-- The roles and the pending rotation are as they were. -/
structure SameRoles (governance governance' : Governance A) : Prop where
  admin : governance'.admin = governance.admin
  oracle : governance'.oracle = governance.oracle
  rotation : governance'.oracleRotationProposal = governance.oracleRotationProposal

/-- A call that files, accepts or cancels a rotation. -/
def ControlCall.rotates : ControlCall A → Bool
  | .proposeOracleRotation .. | .acceptOracleRotation | .cancelOracleRotation => true
  | _ => false

/-- What a successful administrative call does to the roles and the pending rotation. -/
inductive RoleEffect (env : Env A) (governance : Governance A) :
    ControlCall A → Governance A → Prop where
  | initialized (admin oracle : A) (governance' : Governance A)
      (hnone : governance.admin = none) (hapart : admin ≠ oracle)
      (hadmin : governance'.admin = some admin) (horacle : governance'.oracle = some oracle)
      (hrotation : governance'.oracleRotationProposal = governance.oracleRotationProposal) :
      RoleEffect env governance (.initializeContract admin oracle) governance'
  | proposed (newOracle admin : A) (expiresInSeconds : ℕ)
      (hadmin : governance.admin = some admin) (hsigner : admin ∈ env.signers) :
      RoleEffect env governance (.proposeOracleRotation newOracle expiresInSeconds)
        { governance with
          oracleRotationProposal := some
            { newOracle := newOracle
              proposedAt := env.ledger.timestamp
              expiresAt := env.ledger.timestamp + expiresInSeconds } }
  | accepted (proposal : OracleRotationProposal A)
      (hproposal : governance.oracleRotationProposal = some proposal)
      (hdelay : proposal.proposedAt + minRotationDelaySeconds ≤ env.ledger.timestamp)
      (hlive : env.ledger.timestamp ≤ proposal.expiresAt) :
      RoleEffect env governance .acceptOracleRotation
        { governance with oracle := some proposal.newOracle, oracleRotationProposal := none }
  | cancelled :
      RoleEffect env governance .cancelOracleRotation
        { governance with oracleRotationProposal := none }
  | lapsed (proposal : OracleRotationProposal A)
      (hproposal : governance.oracleRotationProposal = some proposal)
      (hexpired : proposal.expiresAt < env.ledger.timestamp) :
      RoleEffect env governance .getOracleRotationProposal
        { governance with oracleRotationProposal := none }
  | other (call : ControlCall A) (governance' : Governance A) (hplain : call.rotates = false)
      (hsame : SameRoles governance governance') : RoleEffect env governance call governance'

section Keeping

variable [DecidableEq A]

/-- The roles and the pending rotation. -/
def Governance.roles (governance : Governance A) :
    Option A × Option A × Option (OracleRotationProposal A) :=
  (governance.admin, governance.oracle, governance.oracleRotationProposal)

/-- The roles an administration is in the hands of. -/
def Control.roles (control : Control A) :
    Option A × Option A × Option (OracleRotationProposal A) :=
  control.governance.roles

omit [DecidableEq A] in
theorem SameRoles.of_roles {governance governance' : Governance A}
    (hsame : governance'.roles = governance.roles) : SameRoles governance governance' := by
  simp only [Governance.roles, Prod.mk.injEq] at hsame
  exact ⟨hsame.1, hsame.2.1, hsame.2.2⟩

instance (f : Settings → Settings) :
    Keeps Control.roles (updateSettings f : ControlM A PUnit) :=
  .of_update fun _ => rfl

/-- A validation keeps the roles. -/
instance (payload : ConfigChangePayload) :
    Keeps Control.roles (validateConfigPayload payload : ControlM A PUnit) :=
  ⟨fun _ _ => (validateConfigPayload_spec payload).mono fun _ _ h => by rw [h.1]⟩

instance : Keeps Control.roles (adminGate : ControlM A A) := by
  unfold adminGate ensureNotPaused
  infer_instance

instance (payload : ConfigChangePayload) :
    Keeps Control.roles (setNow payload : ControlM A PUnit) := by
  unfold setNow
  infer_instance

instance (payload : ConfigChangePayload) :
    Keeps Control.roles (schedule payload : ControlM A PUnit) := by
  unfold schedule scheduleConfigChange ensureNotPaused
  repeat first | infer_instance | refine .bind inferInstance fun _ => ?_

instance (kind : ConfigChangeKind) :
    Keeps Control.roles (applyScheduledChanges kind : ControlM A PUnit) := by
  unfold applyScheduledChanges applyConfigPayload ensureNormalMode
  repeat first | infer_instance | refine .bind inferInstance fun _ => ?_

omit [DecidableEq A] in
/-- What keeps the roles is no change of them. -/
theorem RoleEffect.of_keeps {env : Env A} {control : Control A} {call : ControlCall A}
    (m : ControlM A PUnit) [Keeps Control.roles m] (hplain : call.rotates = false) :
    Ensures m env control fun _ control' =>
      RoleEffect env control.governance call control'.governance :=
  (@Keeps.ensures _ _ _ _ _ Control.roles m _ env control).mono fun _ _ hsame =>
    .other call _ hplain (.of_roles hsame)

/-- Every administrative call does one of these things to the roles. -/
theorem ControlCall.ensures_roles {env : Env A} {control : Control A} (call : ControlCall A) :
    Ensures call.exec env control fun _ control' =>
      RoleEffect env control.governance call control'.governance := by
  cases call with
  | initializeContract admin oracle =>
      simp only [ControlCall.exec, XelmaMarket.initializeContract, ensures_bind,
        ensures_requireAuth, ensures_reject, ensures_gets, ensures_updateGovernance,
        ensures_updateSettings, not_isSome_eq_true]
      exact fun _ hapart hnone => .initialized admin oracle _ hnone hapart rfl rfl rfl
  | proposeOracleRotation newOracle expiresInSeconds =>
      simp only [ControlCall.exec, XelmaMarket.proposeOracleRotation, adminGate, ensureNotPaused,
        ensures_bind, ensures_requireSupportedSchema, ensures_authorizedAdmin,
        ensures_policyGate, ensures_pure, ensures_reject, ensures_ledgerTimestamp, ensures_liftM,
        checkedUint_eq_ok, ensures_updateGovernance]
      rintro _ admin hadmin hsigner _ _ _ ⟨rfl, -⟩
      exact .proposed newOracle admin expiresInSeconds hadmin hsigner
  | acceptOracleRotation =>
      simp only [ControlCall.exec, XelmaMarket.acceptOracleRotation, ensureNotPaused,
        ensures_bind, ensures_requireSupportedSchema, ensures_policyGate, ensures_gets,
        ensures_orError, ensures_ledgerTimestamp, ensures_liftM, checkedUint_eq_ok,
        ensures_reject, ensures_updateGovernance]
      rintro _ _ proposal hproposal _ ⟨rfl, -⟩ hdelay hlive _
      exact .accepted proposal hproposal (not_lt.mp hdelay) (not_lt.mp hlive)
  | cancelOracleRotation =>
      simp only [ControlCall.exec, XelmaMarket.cancelOracleRotation, adminGate, ensureNotPaused,
        ensures_bind, ensures_requireSupportedSchema, ensures_authorizedAdmin,
        ensures_policyGate, ensures_pure, ensures_reject, ensures_gets, ensures_updateGovernance]
      exact fun _ _ _ _ _ _ => .cancelled
  | getOracleRotationProposal =>
      simp only [ControlCall.exec, discardResult, XelmaMarket.getOracleRotationProposal,
        ensures_bind, ensures_gets, ensures_ledgerTimestamp, ensures_onlyIf,
        ensures_updateGovernance, ensures_pure]
      refine ⟨fun hexpired => ?_, fun _ => .other _ _ rfl ⟨rfl, rfl, rfl⟩⟩
      obtain ⟨proposal, hproposal, hlapsed⟩ := (Option.any_eq_true _ _).mp hexpired
      exact .lapsed proposal hproposal (of_decide_eq_true hlapsed)
  | setAccessControlEnabled | addAllowlisted | removeAllowlisted | addDenylisted | removeDenylisted
  | setGovApprover | setGovProposalTtl | proposeGovAction | approveGovProposal | cancelGovProposal
  | establishConstitution | proposeAmendment | vetoAmendment | activateAmendment
  | getAmendment =>
      refine Ensures.mono ?_ fun _ control' hsame => .other _ control'.governance rfl
        (SameRoles.of_roles hsame)
      simp [ControlCall.exec, discardResult, XelmaMarket.setAccessControlEnabled,
        XelmaMarket.addAllowlisted, XelmaMarket.removeAllowlisted, XelmaMarket.addDenylisted,
        XelmaMarket.removeDenylisted, XelmaMarket.setGovApprover, XelmaMarket.setGovProposalTtl,
        propose, approve, cancel, readGovProposal, setGovProposal,
        XelmaMarket.establishConstitution, XelmaMarket.proposeAmendment,
        XelmaMarket.vetoAmendment, XelmaMarket.activateAmendment, XelmaMarket.getAmendment,
        readAmendment, setAmendment, adminGate, ensureNotPaused, Governance.roles]
  | scheduleWindows | scheduleMaxStake | scheduleMinBet | scheduleMaxUserExposure
  | scheduleMaxPendingWinnings | scheduleOracleStaleThreshold | scheduleOracleDeviationBps
  | scheduleOracleTimestampSkew | scheduleProtocolFeeBps | schedulePendingWinningsExpiry =>
      exact RoleEffect.of_keeps (schedule _) rfl
  | setFeeModel | setMinParticipants | setMaxPrecisionParticipants | setPrecisionPayoutPolicy
  | setMintLimit | setEpochMintBudget | setArchiveRetention | setCloseBufferLedgers
  | setEarlyCashoutBps | setDisputeLedgers => exact RoleEffect.of_keeps (setNow _) rfl
  | applyScheduledChanges kind => exact RoleEffect.of_keeps (XelmaMarket.applyScheduledChanges kind) rfl
  | _ =>
      refine Ensures.mono ?_ fun _ control' hsame => .other _ control'.governance rfl
        (SameRoles.of_roles hsame)
      simp [ControlCall.exec, XelmaMarket.announceNextSchema, XelmaMarket.clearNextSchema,
        XelmaMarket.pauseContract, XelmaMarket.unpauseContract, XelmaMarket.setRuntimeMode, setMode,
        XelmaMarket.setDeviationRefMode, XelmaMarket.setAttestationKey,
        XelmaMarket.setHbStrictMode, XelmaMarket.armHbOverride, XelmaMarket.setHbGraceSeconds,
        saveHbConfig, XelmaMarket.updateOracleHeartbeat,
        XelmaMarket.armOracleDeviationOverride, XelmaMarket.setOracleMinConfidenceBps,
        XelmaMarket.setOracleStrictMode, XelmaMarket.setOracleQuorumConfig, validateQuorumConfig,
        XelmaMarket.cancelConfigChange, XelmaMarket.setRoundTemplate, validateRoundTemplate,
        XelmaMarket.clearRoundTemplate, XelmaMarket.setInsuranceEligibleEvents,
        XelmaMarket.setInsuranceSplitBps, XelmaMarket.setInsuranceCoverageBps, adminGate,
        ensureNotPaused, Governance.roles]

end Keeping

/-! ## What a step does to the roles -/

variable [LinearOrder A]

/-- What a step does to the roles and the pending rotation. -/
inductive RoleChange (chain : Chain A) (host : Host A) : Action A → Chain A → Prop where
  | administered (signers : List A) (call : ControlCall A) (chain' : Chain A)
      (heffect : RoleEffect ⟨host, chain.ledger, signers⟩ chain.governance call
        chain'.governance) :
      RoleChange chain host (.invoke signers (.control call)) chain'
  | executed (signers : List A) (executor : A) (proposalId : ℕ) (proposal : GovProposal A)
      (chain' : Chain A) (hproposal : chain.governance.govProposal.get proposalId = some proposal)
      (hsame : SameRoles (chain.storage.control.enact proposal.action).governance
        chain'.governance) :
      RoleChange chain host (.invoke signers (.executeGovProposal executor proposalId)) chain'
  | other (action : Action A) (chain' : Chain A)
      (hplain : ∀ signers call, action = .invoke signers call → call.governs = false)
      (hsame : SameRoles chain.governance chain'.governance) :
      RoleChange chain host action chain'

variable {host : Host A} {chain chain' : Chain A} {action : Action A}
  {trace : List (Transition (Chain A) (Action A))}

omit [LinearOrder A] in
theorem SameRoles.refl (governance : Governance A) : SameRoles governance governance :=
  ⟨rfl, rfl, rfl⟩

/-- Every step does one of these things to the roles. -/
theorem Step.roleChange (hstep : Step host chain action chain') :
    RoleChange chain host action chain' := by
  cases action with
  | closeLedger | expire =>
      obtain ⟨meter, hsame⟩ := hstep.idle nofun
      refine .other _ _ nofun ?_
      unfold Chain.governance
      rw [hsame]
      exact .refl _
  | invoke signers call =>
      cases call with
      | control call =>
          have hroles : Ensures (Call.control call).exec ⟨host, chain.ledger, signers⟩
              chain.storage fun _ s' => RoleEffect ⟨host, chain.ledger, signers⟩ chain.governance
                call s'.control.governance := by
            simp only [Call.exec, ensures_onControl]
            exact call.ensures_roles
          exact .administered signers call chain' (hstep.ensured hroles)
      | executeGovProposal executor proposalId =>
          obtain ⟨proposal, hexecutes⟩ := hstep.ensured (execute_spec executor proposalId)
          refine .executed signers executor proposalId proposal chain' hexecutes.stored ?_
          unfold Chain.governance
          rw [hexecutes.control]
          exact ⟨rfl, rfl, rfl⟩
      | _ =>
          obtain ⟨_, _, _, _, -, hsame⟩ := hstep.ensured (Call.ensures_market rfl)
          refine .other _ _ (fun _ _ hcall => ?_) ?_
          · cases hcall
            rfl
          · unfold Chain.governance
            rw [hsame]
            exact .refl _

/-! ## Keeping the roles apart -/

/-- The administrator is not the oracle. -/
def Governance.Apart (governance : Governance A) : Prop :=
  ∀ admin, governance.admin = some admin → governance.oracle ≠ some admin

/-- An action of a proposal gives no role to the address in the other one. -/
def GovAction.AssignsApart (governance : Governance A) : GovAction A → Prop
  | .setAdmin newAdmin => governance.oracle ≠ some newAdmin
  | .setOracle newOracle => governance.admin ≠ some newOracle
  | _ => True

/-- A transition gives no role to the address in the other one: a rotation it accepts brings in
another address than the administrator's, and a proposal it executes assigns no role twice. -/
def AssignsApart (transition : Transition (Chain A) (Action A)) : Prop :=
  match transition.label with
  | .invoke _ (.control .acceptOracleRotation) => ∀ proposal,
      transition.before.governance.oracleRotationProposal = some proposal →
        transition.before.governance.admin ≠ some proposal.newOracle
  | .invoke _ (.executeGovProposal _ proposalId) => ∀ proposal,
      transition.before.governance.govProposal.get proposalId = some proposal →
        proposal.action.AssignsApart transition.before.governance
  | _ => True

omit [LinearOrder A] in
theorem SameRoles.apart_iff {governance governance' : Governance A}
    (hsame : SameRoles governance governance') : governance'.Apart ↔ governance.Apart := by
  unfold Governance.Apart
  rw [hsame.admin, hsame.oracle]

omit [LinearOrder A] in
/-- The action of a proposal keeps the roles apart if and only if it assigns them apart. -/
theorem enact_apart_iff {control : Control A} (hapart : control.governance.Apart)
    (action : GovAction A) :
    (control.enact action).governance.Apart ↔ action.AssignsApart control.governance := by
  cases action with
  | setAdmin newAdmin => simp [Control.enact, Governance.Apart, GovAction.AssignsApart]
  | setOracle newOracle =>
      simp only [Control.enact, Governance.Apart, GovAction.AssignsApart, ne_eq, Option.some.injEq]
      constructor
      · exact fun hother hadmin => hother newOracle hadmin rfl
      · rintro hother admin hadmin rfl
        exact hother hadmin
  | _ => simpa [Control.enact, GovAction.AssignsApart] using hapart

/-- A step keeps the roles apart if and only if it assigns them apart. -/
theorem Step.apart_iff (hstep : Step host chain action chain') (hapart : chain.governance.Apart) :
    chain'.governance.Apart ↔ AssignsApart ⟨chain, action, chain'⟩ := by
  have htrue : chain'.governance.Apart → AssignsApart ⟨chain, action, chain'⟩ = True →
      (chain'.governance.Apart ↔ AssignsApart ⟨chain, action, chain'⟩) := by
    intro hafter hassigns
    rw [hassigns]
    exact iff_true_intro hafter
  cases hstep.roleChange with
  | administered signers call _ heffect =>
      generalize hgovernance : chain'.governance = governance' at heffect
      cases heffect with
      | initialized admin oracle _ _ hdistinct hadmin horacle =>
          refine hgovernance ▸ htrue ?_ rfl
          rw [hgovernance]
          intro other hother hsame
          rw [hadmin] at hother
          rw [horacle] at hsame
          exact hdistinct (Option.some.inj (hother.trans hsame.symm))
      | proposed => exact hgovernance ▸ htrue (by rw [hgovernance]; exact hapart) rfl
      | accepted proposal hproposal =>
          simp only [Governance.Apart, AssignsApart, ne_eq, Option.some.injEq]
          constructor
          · rintro hother other hfound hadmin
            obtain rfl := Option.some.inj (hproposal.symm.trans hfound)
            exact hother _ hadmin rfl
          · rintro hother admin hadmin rfl
            exact hother proposal hproposal hadmin
      | cancelled => exact hgovernance ▸ htrue (by rw [hgovernance]; exact hapart) rfl
      | lapsed => exact hgovernance ▸ htrue (by rw [hgovernance]; exact hapart) rfl
      | other _ _ hplain hsame =>
          refine hgovernance ▸ htrue (by rw [hgovernance]; exact hsame.apart_iff.mpr hapart) ?_
          cases call <;> first | rfl | cases hplain
  | executed signers executor proposalId proposal _ hproposal hsame =>
      rw [hsame.apart_iff, enact_apart_iff hapart]
      simp only [AssignsApart, hproposal, Option.some.injEq]
      exact ⟨fun h _ hfound => hfound ▸ h, fun h => h proposal rfl⟩
  | other _ _ hplain hsame =>
      refine htrue (hsame.apart_iff.mpr hapart) ?_
      cases action with
      | closeLedger | expire => rfl
      | invoke signers call =>
          have hnone := hplain signers call rfl
          cases call <;> first | rfl | cases hnone

/-- In every history the administrator is never the oracle if and only if no accepted rotation and
no executed proposal gave a role to the address in the other one. -/
theorem roles_apart_iff (hhistory : History host trace chain) :
    (∀ transition ∈ trace, transition.after.governance.Apart) ↔
      ∀ transition ∈ trace, AssignsApart transition := by
  obtain ⟨ledger, hrun⟩ := hhistory
  have hinv := hrun.invariant_of_trace (fun trace chain =>
    ((∀ transition ∈ trace, transition.after.governance.Apart) ↔
      ∀ transition ∈ trace, AssignsApart transition) ∧
    ((∀ transition ∈ trace, transition.after.governance.Apart) → chain.governance.Apart))
    ⟨by simp, fun _ _ hadmin => nomatch hadmin⟩ ?_
  · exact hinv.1
  · rintro earlier last - hstep ⟨hiff, hbefore⟩
    simp only [List.forall_mem_append, List.forall_mem_singleton]
    refine ⟨?_, fun h => h.2⟩
    rw [← hiff]
    exact and_congr_right fun hearlier => hstep.apart_iff (hbefore hearlier)

/-- In the trial setup the administrator stays apart from the oracle. -/
theorem trialSetup_apart : ∃ trace, ∃ chain : Chain ℕ, History trialHost trace chain ∧
    trace.map (·.label) = trialSetup ∧
      ∀ transition ∈ trace, transition.after.governance.Apart := by
  obtain ⟨trace, chain, hhistory, hlabels, -⟩ := exists_trial_history trialSetup (fun _ => true)
    (by decide +kernel)
  refine ⟨trace, chain, hhistory, hlabels, (roles_apart_iff hhistory).mpr fun transition hmem => ?_⟩
  have hlabel : transition.label ∈ trialSetup := hlabels ▸ List.mem_map_of_mem hmem
  simp only [trialSetup, List.mem_cons, List.not_mem_nil, or_false] at hlabel
  unfold AssignsApart
  rcases hlabel with hlabel | hlabel | hlabel | hlabel <;> rw [hlabel] <;> trivial

/-- The administrator proposes a rotation to an address, and the delay passes. -/
def proposedRotation (newOracle : ℕ) : List (Action ℕ) := trialSetup ++ [
  .invoke [1] (.control (.proposeOracleRotation newOracle 3600)),
  .closeLedger (ledgerAt 721)]

/-- A rotation to the administrator's own address is accepted. -/
theorem rotation_joins_roles : ∃ trace, ∃ chain chain' : Chain ℕ,
    History trialHost (trace ++ [⟨chain, .invoke [5] (.control .acceptOracleRotation), chain'⟩])
        chain' ∧
      chain'.governance.admin = some 1 ∧ chain'.governance.oracle = some 1 := by
  obtain ⟨trace, chain, chain', hhistory, hfits⟩ := exists_trial (proposedRotation 1)
    (.invoke [5] (.control .acceptOracleRotation))
    (fun _ chain' => decide (chain'.governance.admin = some 1 ∧ chain'.governance.oracle = some 1))
    (by decide +kernel)
  obtain ⟨hadmin, horacle⟩ := of_decide_eq_true hfits
  exact ⟨trace, chain, chain', hhistory, hadmin, horacle⟩

/-! ## Rotations of the oracle -/

/-- A transition that files a rotation: the administrator of that moment signs, and the rotation
starts at its timestamp. -/
def Proposes (transition : Transition (Chain A) (Action A))
    (proposal : OracleRotationProposal A) : Prop :=
  ∃ signers admin expiresInSeconds,
    transition.label = .invoke signers
      (.control (.proposeOracleRotation proposal.newOracle expiresInSeconds)) ∧
    transition.before.governance.admin = some admin ∧ admin ∈ signers ∧
    proposal.proposedAt = transition.before.ledger.timestamp ∧
    proposal.expiresAt = transition.before.ledger.timestamp + expiresInSeconds

/-- A transition that files, accepts or cancels a rotation. -/
def Rotates (transition : Transition (Chain A) (Action A)) : Prop :=
  ∃ signers call, transition.label = .invoke signers (.control call) ∧ call.rotates = true

/-- A transition that accepts a rotation. -/
def Accepts (transition : Transition (Chain A) (Action A)) : Prop :=
  ∃ signers, transition.label = .invoke signers (.control .acceptOracleRotation)

/-- A rotation was filed on the way, and since then none was filed, accepted or cancelled. -/
def FiledLast (trace : List (Transition (Chain A) (Action A)))
    (proposal : OracleRotationProposal A) : Prop :=
  Since (Proposes · proposal) (¬ Rotates ·) trace

/-- The pending rotation is the one filed last. -/
theorem History.filedLast (hhistory : History host trace chain)
    {proposal : OracleRotationProposal A}
    (hproposal : chain.governance.oracleRotationProposal = some proposal) :
    FiledLast trace proposal := by
  obtain ⟨ledger, hrun⟩ := hhistory
  revert proposal
  refine hrun.invariant_of_trace (fun trace chain => ∀ {proposal},
    chain.governance.oracleRotationProposal = some proposal → FiledLast trace proposal)
    (fun h => nomatch h) ?_
  intro earlier last _ hstep hinv proposal hproposal
  have hkept : ¬ Rotates last →
      last.after.governance.oracleRotationProposal =
        last.before.governance.oracleRotationProposal → FiledLast (earlier ++ [last]) proposal :=
    fun hquiet hsame => (hinv (hsame ▸ hproposal)).snoc hquiet
  have hquiet : ∀ {signers call}, last.label = .invoke signers call →
      (∀ control, call = .control control → control.rotates = false) → ¬ Rotates last := by
    rintro signers call hlabel hplain ⟨_, control, hother, hrotates⟩
    cases hlabel.symm.trans hother
    rw [hplain control rfl] at hrotates
    cases hrotates
  obtain ⟨before, label, after⟩ := last
  cases hstep.roleChange with
  | administered signers call _ heffect =>
      generalize hgovernance : after.governance = governance' at heffect
      simp only [hgovernance] at hproposal hkept
      cases heffect with
      | proposed newOracle admin expiresInSeconds hadmin hsigner =>
          cases hproposal
          exact .of_mark ⟨signers, admin, expiresInSeconds, rfl, hadmin, hsigner, rfl, rfl⟩
      | accepted | cancelled | lapsed => cases hproposal
      | initialized _ _ _ _ _ _ _ hrotation =>
          exact hkept (hquiet rfl fun _ h => by cases h; rfl) hrotation
      | other _ _ hplain hsame =>
          exact hkept (hquiet rfl fun _ h => by cases h; exact hplain) hsame.rotation
  | executed signers executor proposalId stored _ _ hsame =>
      refine hkept (hquiet rfl nofun) (hsame.rotation.trans ?_)
      cases stored.action <;> simp [Control.enact, Chain.governance]
  | other _ _ hplain hsame =>
      refine hkept ?_ hsame.rotation
      rintro ⟨signers, control, rfl, -⟩
      cases hplain signers _ rfl

/-- What accepting a rotation takes: the rotation filed last is still pending, its delay is over and
it has not expired. -/
structure TakesRotation (earlier : List (Transition (Chain A) (Action A)))
    (transition : Transition (Chain A) (Action A)) (proposal : OracleRotationProposal A) :
    Prop where
  filed : FiledLast earlier proposal
  delay : proposal.proposedAt + minRotationDelaySeconds ≤ transition.before.ledger.timestamp
  live : transition.before.ledger.timestamp ≤ proposal.expiresAt
  oracle : transition.after.governance.oracle = some proposal.newOracle
  spent : transition.after.governance.oracleRotationProposal = none

/-- A transition that executes a proposal of an oracle. -/
def ExecutesSetOracle (transition : Transition (Chain A) (Action A)) (newOracle : A) : Prop :=
  ∃ signers executor proposalId proposal,
    transition.label = .invoke signers (.executeGovProposal executor proposalId) ∧
    transition.before.governance.govProposal.get proposalId = some proposal ∧
    proposal.action = .setOracle newOracle

/-- Accepting a rotation takes all of that. -/
theorem Step.takesRotation {earlier : List (Transition (Chain A) (Action A))}
    {transition : Transition (Chain A) (Action A)}
    (hhistory : History host earlier transition.before)
    (hstep : Step host transition.before transition.label transition.after)
    (haccepts : Accepts transition) : ∃ proposal, TakesRotation earlier transition proposal := by
  obtain ⟨signers, hlabel⟩ := haccepts
  rw [hlabel] at hstep
  cases hstep.roleChange with
  | administered _ _ _ heffect =>
      generalize hgovernance : transition.after.governance = governance' at heffect
      cases heffect with
      | accepted proposal hproposal hdelay hlive =>
          refine ⟨proposal, hhistory.filedLast hproposal, hdelay, hlive, ?_, ?_⟩ <;>
            rw [hgovernance]
      | other _ _ hplain => cases hplain
  | other _ _ hplain => cases hplain signers _ rfl

/-- The oracle of an initialized contract changes by an accepted rotation or an executed proposal
only. -/
theorem Step.oracle_changed {transition : Transition (Chain A) (Action A)}
    (hstep : Step host transition.before transition.label transition.after)
    (hinitialized : transition.before.governance.admin ≠ none)
    (hchanged : transition.after.governance.oracle ≠ transition.before.governance.oracle) :
    Accepts transition ∨ ∃ newOracle, ExecutesSetOracle transition newOracle ∧
      transition.after.governance.oracle = some newOracle := by
  obtain ⟨before, label, after⟩ := transition
  cases hstep.roleChange with
  | administered signers call _ heffect =>
      generalize hgovernance : after.governance = governance' at heffect
      simp only [hgovernance] at hchanged
      cases heffect with
      | initialized _ _ _ hnone => exact absurd hnone hinitialized
      | accepted => exact .inl ⟨signers, rfl⟩
      | other _ _ _ hsame => exact absurd hsame.oracle hchanged
      | proposed | cancelled | lapsed => exact absurd rfl hchanged
  | executed signers executor proposalId proposal _ hproposal hsame =>
      refine .inr ?_
      have horacle := hsame.oracle
      cases haction : proposal.action with
      | setOracle newOracle =>
          rw [haction] at horacle
          exact ⟨newOracle, ⟨signers, executor, proposalId, proposal, rfl, hproposal, haction⟩,
            horacle⟩
      | _ =>
          rw [haction] at horacle
          refine absurd (horacle.trans ?_) hchanged
          simp [Control.enact, Chain.governance]
  | other _ _ _ hsame => exact absurd hsame.oracle hchanged

/-- In every history the oracle changes, once the contract is initialized, only by an executed
proposal or by an accepted rotation. A rotation is accepted no earlier than its delay after the
administrator filed it and no later than its expiry, unless it was cancelled or superseded; and
between two accepted rotations another one is filed. -/
theorem oracle_rotation_delay (hhistory : History host trace chain) :
    ∀ earlier transition later, trace = earlier ++ transition :: later →
      (transition.before.governance.admin ≠ none →
        transition.after.governance.oracle ≠ transition.before.governance.oracle →
        Accepts transition ∨ ∃ newOracle, ExecutesSetOracle transition newOracle ∧
          transition.after.governance.oracle = some newOracle) ∧
      (Accepts transition →
        (∃ proposal, TakesRotation earlier transition proposal) ∧
        ∀ between other rest, later = between ++ other :: rest → Accepts other →
          ∃ proposing ∈ between, ∃ proposal, Proposes proposing proposal) := by
  intro earlier transition later htrace
  subst htrace
  obtain ⟨hearlier, hstep, -⟩ := hhistory.cut
  refine ⟨hstep.oracle_changed, fun haccepts => ⟨hstep.takesRotation hearlier haccepts, ?_⟩⟩
  intro between other rest hlater hother
  subst hlater
  -- the rotation accepted second was filed last, hence after the first one was accepted
  obtain ⟨hfirst, hnext, -⟩ := @History.cut _ _ _ _ (earlier ++ transition :: between) rest other
    (by simpa using hhistory)
  obtain ⟨proposal, htakes⟩ := hnext.takesRotation hfirst hother
  obtain ⟨signers, hlabel⟩ := haccepts
  refine (htakes.filed.mem_between ?_ ?_).imp fun proposing hproposing => ?_
  · rintro ⟨_, _, _, hfiles, -⟩
    cases hlabel.symm.trans hfiles
  · exact fun hquiet => hquiet ⟨signers, _, hlabel, rfl⟩
  · exact ⟨hproposing.1, proposal, hproposing.2⟩

/-- The rotation to oracle 7 that administrator 1 files is accepted after its delay. -/
theorem oracle_rotation_accepted : ∃ trace, ∃ chain chain' : Chain ℕ, ∃ proposal,
    TakesRotation trace ⟨chain, .invoke [5] (.control .acceptOracleRotation), chain'⟩ proposal ∧
      chain'.governance.oracle = some 7 := by
  obtain ⟨trace, chain, chain', hhistory, hfits⟩ := exists_trial (proposedRotation 7)
    (.invoke [5] (.control .acceptOracleRotation))
    (fun _ chain' => decide (chain'.governance.oracle = some 7)) (by decide +kernel)
  obtain ⟨-, haccepted⟩ := oracle_rotation_delay hhistory trace
    ⟨chain, .invoke [5] (.control .acceptOracleRotation), chain'⟩ [] rfl
  obtain ⟨⟨proposal, htakes⟩, -⟩ := haccepted ⟨[5], rfl⟩
  exact ⟨trace, chain, chain', proposal, htakes, of_decide_eq_true hfits⟩

end XelmaMarket
