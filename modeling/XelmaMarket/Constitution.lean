import XelmaMarket.MarketReads
import XelmaMarket.Timelock

/-!
# The constitution

Amendments are moved by the four calls about them and seen by no other call. So what becomes of an
amendment is a matter of these calls alone, and a run can be replayed without the calls that only
read amendments.
-/

namespace XelmaMarket

open Transaction

variable {A : Type}

/-! ## Calls that do not see the amendments -/

/-- A change of the amendments and their counter. -/
def Mask.amendments (amendment : Store ℕ (Amendment A) → Store ℕ (Amendment A))
    (nextAmendmentId : Option ℕ → Option ℕ) : Mask A :=
  ⟨amendment, nextAmendmentId, id, id, id⟩

/-- A call about amendments. -/
def ControlCall.amends : ControlCall A → Bool
  | .proposeAmendment .. | .vetoAmendment .. | .activateAmendment .. | .getAmendment _ => true
  | _ => false

/-- A call about amendments. -/
def Call.amends : Call A → Bool
  | .control call => call.amends
  | _ => false

section Ignoring

variable [DecidableEq A] {amendment : Store ℕ (Amendment A) → Store ℕ (Amendment A)}
  {nextAmendmentId : Option ℕ → Option ℕ}

omit [DecidableEq A] in
instance (f : Settings → Settings) :
    Ignores (Control.mask (Mask.amendments amendment nextAmendmentId))
      (updateSettings f : ControlM A PUnit) :=
  .update fun _ => rfl

omit [DecidableEq A] in
instance (payload : ConfigChangePayload) :
    Ignores (Control.mask (Mask.amendments amendment nextAmendmentId))
      (validateConfigPayload payload : ControlM A PUnit) := by
  cases payload <;> unfold validateConfigPayload <;>
    simp only [validateWindows, validateMaxStake, validateAmountBound,
      validateOracleStaleThreshold, validateOracleMaxDeviationBps, validateRate,
      validateMinParticipants, validateMaxPrecisionParticipants, validateArchiveRetention,
      validateCloseBufferLedgers, validateOracleTimestampSkew, validateEpochMintBudget,
      validatePendingWinningsExpiry, validatePrecisionPayoutPolicy, validateMinBet,
      validateDisputeLedgers, validateEarlyCashoutBps] <;>
    infer_instance

omit [DecidableEq A] in
instance : Ignores (Control.mask (Mask.amendments amendment nextAmendmentId))
    (loadHbConfig : ControlM A _) := by
  unfold loadHbConfig readConfigEntry
  refine .bind (.bind inferInstance fun _ => .gets fun _ => rfl) fun entry => ?_
  split <;> infer_instance

instance (payload : ConfigChangePayload) :
    Ignores (Control.mask (Mask.amendments amendment nextAmendmentId))
      (schedule payload : ControlM A PUnit) := by
  unfold schedule scheduleConfigChange ensureNotPaused
  repeat' first | infer_instance | exact .gets fun _ => rfl | refine .bind ?_ fun _ => ?_

instance (payload : ConfigChangePayload) :
    Ignores (Control.mask (Mask.amendments amendment nextAmendmentId))
      (setNow payload : ControlM A PUnit) := by
  unfold setNow
  infer_instance

omit [DecidableEq A] in
instance (config : OracleQuorumConfig) : Ignores (Control.mask (Mask.amendments amendment
    nextAmendmentId)) (validateQuorumConfig config : ControlM A PUnit) := by
  unfold validateQuorumConfig
  infer_instance

/-- An administrative call that is not about amendments does not see them. -/
theorem ControlCall.ignores_amendments {call : ControlCall A} (hplain : call.amends = false) :
    Ignores (Control.mask (Mask.amendments amendment nextAmendmentId)) call.exec := by
  cases call with
  | proposeAmendment | vetoAmendment | activateAmendment | getAmendment => cases hplain
  | scheduleWindows | scheduleMaxStake | scheduleMinBet | scheduleMaxUserExposure
  | scheduleMaxPendingWinnings | scheduleOracleStaleThreshold | scheduleOracleDeviationBps
  | scheduleOracleTimestampSkew | scheduleProtocolFeeBps | schedulePendingWinningsExpiry =>
      exact inferInstanceAs (Ignores _ (schedule _))
  | setFeeModel | setMinParticipants | setMaxPrecisionParticipants | setPrecisionPayoutPolicy
  | setMintLimit | setEpochMintBudget | setArchiveRetention | setCloseBufferLedgers
  | setEarlyCashoutBps | setDisputeLedgers => exact inferInstanceAs (Ignores _ (setNow _))
  | acceptOracleRotation =>
      simp only [ControlCall.exec, XelmaMarket.acceptOracleRotation, ensureNotPaused]
      refine .bind inferInstance fun _ => .bind inferInstance fun _ => ?_
      refine .bind (.gets fun _ => rfl) fun _ => .bind inferInstance fun _ => ?_
      refine .bind inferInstance fun _ => .bind inferInstance fun _ => ?_
      refine .bind inferInstance fun _ => .bind inferInstance fun _ => ?_
      refine .bind (.gets fun _ => rfl) fun _ => .bind inferInstance fun _ => ?_
      exact .update fun _ => rfl
  | _ =>
      simp only [ControlCall.exec, discardResult, XelmaMarket.initializeContract,
        XelmaMarket.announceNextSchema, XelmaMarket.clearNextSchema, XelmaMarket.pauseContract,
        XelmaMarket.unpauseContract, XelmaMarket.setRuntimeMode,
        XelmaMarket.setDeviationRefMode, XelmaMarket.setAttestationKey,
        XelmaMarket.armOracleDeviationOverride, XelmaMarket.setOracleMinConfidenceBps,
        XelmaMarket.setOracleStrictMode, XelmaMarket.setHbStrictMode,
        XelmaMarket.armHbOverride, XelmaMarket.setHbGraceSeconds, saveHbConfig,
        writeConfigEntry, XelmaMarket.updateOracleHeartbeat, XelmaMarket.setOracleQuorumConfig,
        XelmaMarket.proposeOracleRotation, XelmaMarket.cancelOracleRotation,
        XelmaMarket.getOracleRotationProposal,
        XelmaMarket.setAccessControlEnabled, XelmaMarket.addAllowlisted,
        XelmaMarket.removeAllowlisted, XelmaMarket.addDenylisted, XelmaMarket.removeDenylisted,
        XelmaMarket.setGovApprover, XelmaMarket.setGovProposalTtl, propose, approve, cancel,
        readGovProposal, setGovProposal, XelmaMarket.establishConstitution,
        XelmaMarket.applyScheduledChanges, applyConfigPayload, XelmaMarket.cancelConfigChange,
        XelmaMarket.setRoundTemplate, validateRoundTemplate, XelmaMarket.clearRoundTemplate,
        XelmaMarket.setInsuranceEligibleEvents, ensureNotPaused, ensureNormalMode]
      repeat' first
        | infer_instance
        | exact .gets fun _ => rfl
        | exact .update fun _ => rfl
        | refine .onlyIf ?_
        | refine .bind ?_ fun _ => ?_

omit [DecidableEq A] in
instance (key : ConfigKey) : Ignores (Control.mask (Mask.amendments amendment nextAmendmentId))
    (readConfigEntry key : ControlM A _) :=
  .bind inferInstance fun _ => .gets fun _ => rfl

omit [DecidableEq A] in
instance : Ignores (Storage.mask (Mask.amendments amendment nextAmendmentId))
    (heartbeatGate : ContractM A PUnit) := by
  unfold heartbeatGate consumeHbOverride saveHbConfig writeConfigEntry
  repeat' first
    | infer_instance
    | exact .gets fun _ => rfl
    | refine ignores_onControl ?_
    | refine .onlyIf ?_
    | refine .bind ?_ fun _ => ?_

end Ignoring

section Ignoring

variable [LinearOrder A] {amendment : Store ℕ (Amendment A) → Store ℕ (Amendment A)}
  {nextAmendmentId : Option ℕ → Option ℕ}

/-- A call that is not about amendments does not see them. -/
theorem Call.ignores_amendments {call : Call A} (hplain : call.amends = false) :
    Ignores (Storage.mask (Mask.amendments amendment nextAmendmentId)) call.exec := by
  cases call with
  | control call => exact ignores_onControl (ControlCall.ignores_amendments hplain)
  | resolveRound | resolveRoundMulti =>
      simp only [Call.exec, XelmaMarket.resolveRound, XelmaMarket.resolveRoundMulti,
        authorizedOracle, checkPayloadBinding, verifyAttestation, loadAttestationConfig,
        checkTimestampWindow, checkDeviation, loadDeviationConfig, referencePrice,
        enforceDeviation, checkConfidence, consumeNonce, enforceRoundEnded, recordTwapSample,
        ensureNotPaused]
      repeat' first
        | infer_instance
        | exact .gets fun _ => rfl
        | exact .update fun _ => rfl
        | split
        | refine ignores_onControl ?_
        | refine .onSome fun _ => ?_
        | refine .onlyIf ?_
        | refine .bind ?_ fun _ => ?_
  | _ => exact Call.ignores_mask rfl

/-- A call that does not see the amendments leaves them as they were. -/
theorem Call.ensures_same_amendments {call : Call A} {env : Env A} {s : Storage A}
    (hplain : call.amends = false) :
    Ensures call.exec env s fun _ s' =>
      s'.control.governance.amendment = s.control.governance.amendment ∧
        s'.control.governance.nextAmendmentId = s.control.governance.nextAmendmentId := by
  intro value s' hrun
  have hignores := @Call.ignores_amendments _ _ (fun _ => s.control.governance.amendment)
    (fun _ => s.control.governance.nextAmendmentId) _ hplain
  -- the storage is the change of itself to the amendments it has
  have hsame : s.mask (Mask.amendments (fun _ => s.control.governance.amendment)
      fun _ => s.control.governance.nextAmendmentId) = s := rfl
  have hmasked := hignores.ok hrun
  rw [hsame, hrun] at hmasked
  have hmask : s' = s'.mask _ := congrArg Prod.snd (Except.ok.inj hmasked)
  exact ⟨congrArg (·.control.governance.amendment) hmask,
    congrArg (·.control.governance.nextAmendmentId) hmask⟩

end Ignoring

/-! ## What a call does to the amendments -/

section Effects

variable [LinearOrder A]

/-- The governance with another stored amendment. -/
def Governance.withAmendment (governance : Governance A) (id : ℕ) (amendment : Amendment A) :
    Governance A :=
  { governance with amendment := governance.amendment.set id amendment }

/-- The amendment a proposer files under a constitution. -/
def filedAmendment (env : Env A) (governance : Governance A) (constitution : ConstitutionMetadata)
    (proposer : A) (parameterName : String) (newValue : ℕ) : Amendment A :=
  let vetoDeadline := saturatingAddUint 32 env.ledger.sequence constitution.vetoWindowLedgers
  { id := governance.nextAmendmentId.getD 1
    proposer := proposer
    parameterName := parameterName
    newValue := newValue
    createdAtLedger := env.ledger.sequence
    vetoDeadlineLedger := vetoDeadline
    activationDeadlineLedger := saturatingAddUint 32 vetoDeadline constitution.timelockLedgers
    status := .pending }

/-- What a successful call does to the amendments, and what it takes. -/
inductive AmendmentChange (env : Env A) (governance : Governance A) :
    Call A → Governance A → Prop where
  | proposed (proposer : A) (parameterName : String) (newValue : ℕ)
      (constitution : ConstitutionMetadata) (hsigner : proposer ∈ env.signers)
      (hauthorized : governance.isAuthorizedGovUser proposer = true)
      (hconstitution : governance.constitutionMetadata = some constitution) :
      AmendmentChange env governance
        (.control (.proposeAmendment proposer parameterName newValue))
        { governance.withAmendment (governance.nextAmendmentId.getD 1)
            (filedAmendment env governance constitution proposer parameterName newValue) with
          nextAmendmentId := some (governance.nextAmendmentId.getD 1 + 1) }
  | vetoed (vetoer : A) (id : ℕ) (amendment : Amendment A)
      (hstored : governance.amendment.get id = some amendment)
      (hpending : amendment.status = .pending) :
      AmendmentChange env governance (.control (.vetoAmendment vetoer id))
        (governance.withAmendment id { amendment with status := .vetoed })
  | activated (activator : A) (id : ℕ) (amendment : Amendment A)
      (hsigner : activator ∈ env.signers)
      (hauthorized : governance.isAuthorizedGovUser activator = true)
      (hstored : governance.amendment.get id = some amendment)
      (hpending : amendment.status = .pending)
      (hready : amendment.activationDeadlineLedger < env.ledger.sequence) :
      AmendmentChange env governance (.control (.activateAmendment activator id))
        (governance.withAmendment id { amendment with status := .activated })
  | expired (id : ℕ) (amendment : Amendment A)
      (hstored : governance.amendment.get id = some amendment)
      (hpending : amendment.status = .pending)
      (hoverdue : amendment.activationDeadlineLedger < env.ledger.sequence) :
      AmendmentChange env governance (.control (.getAmendment id))
        (governance.withAmendment id { amendment with status := .expired })
  | read (id : ℕ)
      (hcurrent : ∀ amendment, governance.amendment.get id = some amendment →
        amendment.status = .pending → env.ledger.sequence ≤ amendment.activationDeadlineLedger) :
      AmendmentChange env governance (.control (.getAmendment id)) governance
  | other (call : Call A) (governance' : Governance A) (hplain : call.amends = false)
      (hamendment : governance'.amendment = governance.amendment)
      (hnext : governance'.nextAmendmentId = governance.nextAmendmentId) :
      AmendmentChange env governance call governance'

variable {env : Env A} {s : Storage A}

/-- Every successful call does one of these things to the amendments. -/
theorem Call.ensures_amendments (call : Call A) :
    Ensures call.exec env s fun _ s' =>
      AmendmentChange env s.control.governance call s'.control.governance := by
  by_cases hplain : call.amends = false
  · exact (Call.ensures_same_amendments hplain).mono fun _ s' hsame =>
      .other call _ hplain hsame.1 hsame.2
  · cases call with
    | control call =>
        simp only [Call.exec, ensures_onControl]
        cases call with
        | proposeAmendment proposer parameterName newValue =>
            simp only [ControlCall.exec, discardResult, XelmaMarket.proposeAmendment, setAmendment,
              ensures_bind, ensures_governanceGate, ensures_gets, ensures_orError, ensures_failIf,
              ensures_updateGovernance, ensures_ledgerSequence, ensures_pure]
            intro _ hsigner hauthorized constitution hconstitution _
            exact .proposed proposer parameterName newValue constitution hsigner hauthorized
              hconstitution
        | vetoAmendment vetoer id =>
            simp only [ControlCall.exec, XelmaMarket.vetoAmendment, readAmendment, setAmendment,
              ensures_bind, ensures_governanceGate, ensures_gets, ensures_orError, ensures_reject,
              ensures_updateGovernance, ensures_ledgerSequence]
            intro _ _ _ amendment hstored _ hpending
            exact .vetoed vetoer id amendment hstored (not_not.mp hpending)
        | activateAmendment activator id =>
            simp only [ControlCall.exec, XelmaMarket.activateAmendment, readAmendment,
              setAmendment, ensures_bind, ensures_governanceGate, ensures_gets, ensures_orError,
              ensures_reject, ensures_updateGovernance, ensures_ledgerSequence]
            intro _ hsigner hauthorized amendment hstored hready hpending
            exact .activated activator id amendment hsigner hauthorized hstored
              (not_not.mp hpending) (not_le.mp hready)
        | getAmendment id =>
            simp only [ControlCall.exec, discardResult, XelmaMarket.getAmendment, setAmendment,
              ensures_bind, ensures_gets, ensures_ledgerSequence, ensures_onSome,
              ensures_updateGovernance, ensures_pure, Option.filter_eq_some_iff,
              Option.filter_eq_none_iff, decide_eq_true_eq]
            constructor
            · rintro amendment ⟨hstored, hpending, hoverdue⟩
              exact .expired id amendment hstored hpending hoverdue
            · intro hcurrent
              exact .read id fun amendment hstored hpending =>
                not_lt.mp fun hoverdue => hcurrent amendment hstored ⟨hpending, hoverdue⟩
        | _ => exact absurd rfl hplain
    | _ => exact absurd rfl hplain

/-- What a step does to the amendments. -/
theorem Step.amendmentChange {host : Host A} {chain chain' : Chain A} {signers : List A}
    {call : Call A} (hstep : Step host chain (.invoke signers call) chain') :
    AmendmentChange ⟨host, chain.ledger, signers⟩ chain.governance call chain'.governance :=
  hstep.ensured call.ensures_amendments

end Effects

/-! ## The life of an amendment -/

section History

variable [LinearOrder A] {host : Host A} {chain chain' : Chain A} {action : Action A}
  {trace earlier later : List (Transition (Chain A) (Action A))}
  {transition : Transition (Chain A) (Action A)} {id : ℕ} {user : A} {amendment : Amendment A}

omit [LinearOrder A] in
/-- A transition that proposes an amendment under an id. -/
def ProposesAmendment (transition : Transition (Chain A) (Action A)) (id : ℕ) (proposer : A) :
    Prop :=
  ∃ signers parameterName newValue,
    transition.label =
      .invoke signers (.control (.proposeAmendment proposer parameterName newValue)) ∧
    transition.before.governance.nextAmendmentId.getD 1 = id

/-- A transition that activates an amendment. -/
def ActivatesAmendment (transition : Transition (Chain A) (Action A)) (id : ℕ) (activator : A) :
    Prop :=
  ∃ signers, transition.label = .invoke signers (.control (.activateAmendment activator id))

/-- A transition that vetoes an amendment. -/
def VetoesAmendment (transition : Transition (Chain A) (Action A)) (id : ℕ) : Prop :=
  ∃ signers vetoer, transition.label = .invoke signers (.control (.vetoAmendment vetoer id))

/-- A transition that reads an amendment after its activation deadline. -/
def ReadsOverdue (transition : Transition (Chain A) (Action A)) (id : ℕ) : Prop :=
  ∃ signers amendment, transition.label = .invoke signers (.control (.getAmendment id)) ∧
    transition.before.governance.amendment.get id = some amendment ∧
    amendment.activationDeadlineLedger < transition.before.ledger.sequence

/-- A transition in which an address that is authorised at that moment signs in favour of an
amendment: it proposes it or activates it. -/
def ActsFor (transition : Transition (Chain A) (Action A)) (id : ℕ) (user : A) : Prop :=
  (∃ signers call, transition.label = .invoke signers call ∧ user ∈ signers) ∧
    transition.before.governance.isAuthorizedGovUser user = true ∧
    (ProposesAmendment transition id user ∨ ActivatesAmendment transition id user)

/-- What a history establishes of the stored amendments: their proposers and activators acted for
them, a vetoed one was vetoed, and an expired one was read after its deadline before anyone
activated it. -/
structure Ratified (trace : List (Transition (Chain A) (Action A))) (sequence : ℕ)
    (governance : Governance A) : Prop where
  numbered : ∀ id amendment, governance.amendment.get id = some amendment →
    id < governance.nextAmendmentId.getD 1
  proposed : ∀ id amendment, governance.amendment.get id = some amendment →
    ∃ transition ∈ trace, ActsFor transition id amendment.proposer
  filed : ∀ transition ∈ trace, ∀ id proposer, ProposesAmendment transition id proposer →
    ∃ amendment, governance.amendment.get id = some amendment ∧ amendment.proposer = proposer
  activated : ∀ id amendment, governance.amendment.get id = some amendment →
    amendment.status = .activated → ∃ earlier transition later activator,
      trace = earlier ++ transition :: later ∧ ActivatesAmendment transition id activator ∧
        ∀ other ∈ earlier, ¬ ReadsOverdue other id
  closed : ∀ transition ∈ trace, ∀ id activator, ActivatesAmendment transition id activator →
    ActsFor transition id activator ∧
      ∃ amendment, governance.amendment.get id = some amendment ∧ amendment.status = .activated
  vetoed : ∀ id amendment, governance.amendment.get id = some amendment →
    amendment.status = .vetoed → ∃ transition ∈ trace, VetoesAmendment transition id
  expired : ∀ id amendment, governance.amendment.get id = some amendment →
    amendment.status = .expired → (∃ transition ∈ trace, ReadsOverdue transition id) ∧
      amendment.activationDeadlineLedger < sequence
  read : ∀ transition ∈ trace, ∀ id, ReadsOverdue transition id →
    ∃ amendment, governance.amendment.get id = some amendment ∧ amendment.status ≠ .pending
  known : ∀ id amendment, governance.amendment.get id = some amendment →
    amendment.status ≠ .activationReady

variable {sequence : ℕ} {governance : Governance A} {status : AmendmentStatus}

/-- A transition that moves no amendment keeps what is established. -/
theorem Ratified.quiet
    (hratified : Ratified earlier transition.before.ledger.sequence transition.before.governance)
    (hproposes : ∀ id proposer, ¬ ProposesAmendment transition id proposer)
    (hactivates : ∀ id activator, ¬ ActivatesAmendment transition id activator)
    (hread : ∀ id, ReadsOverdue transition id → ∃ amendment,
      transition.before.governance.amendment.get id = some amendment ∧
        amendment.status ≠ .pending)
    (hlater : transition.before.ledger.sequence ≤ sequence)
    (hamendment : governance.amendment = transition.before.governance.amendment)
    (hnext : governance.nextAmendmentId = transition.before.governance.nextAmendmentId) :
    Ratified (earlier ++ [transition]) sequence governance where
  numbered := by
    rw [hamendment, hnext]
    exact hratified.numbered
  proposed id amendment hstored := by
    obtain ⟨other, hmem, hacts⟩ := hratified.proposed id amendment (hamendment ▸ hstored)
    exact ⟨other, List.mem_append_left _ hmem, hacts⟩
  filed other hmem id proposer hother := by
    rw [hamendment]
    rcases List.mem_append.mp hmem with hmem | hmem
    · exact hratified.filed other hmem id proposer hother
    · obtain rfl := List.mem_singleton.mp hmem
      exact absurd hother (hproposes id proposer)
  activated id amendment hstored hstatus := by
    obtain ⟨first, other, last, activator, rfl, hrest⟩ :=
      hratified.activated id amendment (hamendment ▸ hstored) hstatus
    exact ⟨first, other, last ++ [transition], activator, by simp, hrest⟩
  closed other hmem id activator hother := by
    rw [hamendment]
    rcases List.mem_append.mp hmem with hmem | hmem
    · exact hratified.closed other hmem id activator hother
    · obtain rfl := List.mem_singleton.mp hmem
      exact absurd hother (hactivates id activator)
  vetoed id amendment hstored hstatus := by
    obtain ⟨other, hmem, hvetoes⟩ :=
      hratified.vetoed id amendment (hamendment ▸ hstored) hstatus
    exact ⟨other, List.mem_append_left _ hmem, hvetoes⟩
  expired id amendment hstored hstatus := by
    obtain ⟨⟨other, hmem, hreads⟩, hdeadline⟩ :=
      hratified.expired id amendment (hamendment ▸ hstored) hstatus
    exact ⟨⟨other, List.mem_append_left _ hmem, hreads⟩, hdeadline.trans_le hlater⟩
  read other hmem id hother := by
    rw [hamendment]
    rcases List.mem_append.mp hmem with hmem | hmem
    · exact hratified.read other hmem id hother
    · obtain rfl := List.mem_singleton.mp hmem
      exact hread id hother
  known id amendment hstored := hratified.known id amendment (hamendment ▸ hstored)

/-- A transition that moves a pending amendment to another status keeps what is established. -/
theorem Ratified.move
    (hratified : Ratified earlier transition.before.ledger.sequence transition.before.governance)
    (hproposes : ∀ id proposer, ¬ ProposesAmendment transition id proposer)
    (hstored : transition.before.governance.amendment.get id = some amendment)
    (hpending : amendment.status = .pending) (hmoved : status ≠ .pending)
    (hknown : status ≠ .activationReady)
    (hreads : ∀ other, ReadsOverdue transition other → other = id)
    (hactivates : ∀ other activator, ActivatesAmendment transition other activator →
      ActsFor transition other activator ∧ other = id ∧ status = .activated)
    (hactivated : status = .activated → ∃ activator, ActivatesAmendment transition id activator)
    (hvetoed : status = .vetoed → VetoesAmendment transition id)
    (hexpired : status = .expired → ReadsOverdue transition id ∧
      amendment.activationDeadlineLedger < transition.before.ledger.sequence) :
    Ratified (earlier ++ [transition]) transition.before.ledger.sequence
      (transition.before.governance.withAmendment id { amendment with status := status }) := by
  have hunread : ∀ other ∈ earlier, ¬ ReadsOverdue other id := by
    intro other hmem hreads
    obtain ⟨read, hread, hstatus⟩ := hratified.read other hmem id hreads
    exact hstatus (Option.some.inj (hstored.symm.trans hread) ▸ hpending)
  -- what is stored afterwards is the moved amendment or was stored before
  have hget : ∀ {other found}, (transition.before.governance.withAmendment id
      { amendment with status := status }).amendment.get other = some found →
      (other = id ∧ found = { amendment with status := status }) ∨
        other ≠ id ∧ transition.before.governance.amendment.get other = some found := by
    intro other found hfound
    simp only [Governance.withAmendment, Store.get_set] at hfound
    split at hfound
    · next heq => exact .inl ⟨heq, (Option.some.inj hfound).symm⟩
    · next hne => exact .inr ⟨hne, hfound⟩
  have hself : (transition.before.governance.withAmendment id
      { amendment with status := status }).amendment.get id =
        some { amendment with status := status } := Store.get_set_self _ _ _
  have hother : ∀ {other}, other ≠ id → (transition.before.governance.withAmendment id
      { amendment with status := status }).amendment.get other =
        transition.before.governance.amendment.get other :=
    fun hne => Store.get_set_of_ne _ _ hne
  constructor
  · intro other found hfound
    rcases hget hfound with ⟨rfl, -⟩ | ⟨-, hfound⟩
    · exact hratified.numbered _ _ hstored
    · exact hratified.numbered _ _ hfound
  · intro other found hfound
    have hproposed : ∃ transition ∈ earlier, ActsFor transition other found.proposer := by
      rcases hget hfound with ⟨rfl, rfl⟩ | ⟨-, hfound⟩
      · exact hratified.proposed other amendment hstored
      · exact hratified.proposed other found hfound
    obtain ⟨filing, hmem, hacts⟩ := hproposed
    exact ⟨filing, List.mem_append_left _ hmem, hacts⟩
  · intro filing hmem other proposer hfiles
    rcases List.mem_append.mp hmem with hmem | hmem
    · obtain ⟨found, hfound, hproposer⟩ := hratified.filed filing hmem other proposer hfiles
      by_cases heq : other = id
      · subst heq
        obtain rfl := Option.some.inj (hstored.symm.trans hfound)
        exact ⟨_, hself, hproposer⟩
      · exact ⟨found, (hother heq).trans hfound, hproposer⟩
    · obtain rfl := List.mem_singleton.mp hmem
      exact absurd hfiles (hproposes other proposer)
  · intro other found hfound hstatus
    rcases hget hfound with ⟨rfl, rfl⟩ | ⟨-, hfound⟩
    · obtain ⟨activator, hactivates⟩ := hactivated hstatus
      exact ⟨earlier, transition, [], activator, rfl, hactivates, hunread⟩
    · obtain ⟨first, activation, last, activator, rfl, hrest⟩ :=
        hratified.activated other found hfound hstatus
      exact ⟨first, activation, last ++ [transition], activator, by simp, hrest⟩
  · intro activation hmem other activator hactivation
    rcases List.mem_append.mp hmem with hmem | hmem
    · obtain ⟨hacts, found, hfound, hstatus⟩ :=
        hratified.closed activation hmem other activator hactivation
      have hne : other ≠ id := by
        rintro rfl
        obtain rfl := Option.some.inj (hstored.symm.trans hfound)
        rw [hpending] at hstatus
        cases hstatus
      exact ⟨hacts, found, (hother hne).trans hfound, hstatus⟩
    · obtain rfl := List.mem_singleton.mp hmem
      obtain ⟨hacts, rfl, hstatus⟩ := hactivates other activator hactivation
      exact ⟨hacts, _, hself, hstatus⟩
  · intro other found hfound hstatus
    rcases hget hfound with ⟨rfl, rfl⟩ | ⟨-, hfound⟩
    · exact ⟨transition, by simp, hvetoed hstatus⟩
    · obtain ⟨veto, hmem, hvetoes⟩ := hratified.vetoed other found hfound hstatus
      exact ⟨veto, List.mem_append_left _ hmem, hvetoes⟩
  · intro other found hfound hstatus
    rcases hget hfound with ⟨rfl, rfl⟩ | ⟨-, hfound⟩
    · exact ⟨⟨transition, by simp, (hexpired hstatus).1⟩, (hexpired hstatus).2⟩
    · obtain ⟨⟨reading, hmem, hreading⟩, hdeadline⟩ :=
        hratified.expired other found hfound hstatus
      exact ⟨⟨reading, List.mem_append_left _ hmem, hreading⟩, hdeadline⟩
  · intro reading hmem other hreading
    by_cases heq : other = id
    · subst heq
      exact ⟨_, hself, hmoved⟩
    · rcases List.mem_append.mp hmem with hmem | hmem
      · obtain ⟨found, hfound, hstatus⟩ := hratified.read reading hmem other hreading
        exact ⟨found, (hother heq).trans hfound, hstatus⟩
      · obtain rfl := List.mem_singleton.mp hmem
        exact absurd (hreads other hreading) heq
  · intro other found hfound
    rcases hget hfound with ⟨-, rfl⟩ | ⟨-, hfound⟩
    · exact hknown
    · exact hratified.known other found hfound

/-- A transition that files an amendment keeps what is established. -/
theorem Ratified.file
    (hratified : Ratified earlier transition.before.ledger.sequence transition.before.governance)
    {proposer : A} (hproposes : ProposesAmendment transition id proposer)
    (hacts : ActsFor transition id proposer) (hproposer : amendment.proposer = proposer)
    (hpending : amendment.status = .pending)
    (hamendment : governance.amendment =
      transition.before.governance.amendment.set id amendment)
    (hnext : governance.nextAmendmentId = some (id + 1)) :
    Ratified (earlier ++ [transition]) transition.before.ledger.sequence governance := by
  obtain ⟨signers, parameterName, newValue, hlabel, hid⟩ := hproposes
  have hfresh : ∀ {found}, transition.before.governance.amendment.get id ≠ some found :=
    fun hfound => absurd hid (hratified.numbered _ _ hfound).ne'
  have hget : ∀ {other found}, governance.amendment.get other = some found →
      (other = id ∧ found = amendment) ∨
        transition.before.governance.amendment.get other = some found := by
    intro other found hfound
    rw [hamendment, Store.get_set] at hfound
    split at hfound
    · next heq => exact .inl ⟨heq, (Option.some.inj hfound).symm⟩
    · exact .inr hfound
  have hkept : ∀ {other found}, transition.before.governance.amendment.get other = some found →
      governance.amendment.get other = some found := by
    intro other found hfound
    rw [hamendment, Store.get_set_of_ne _ _ fun heq => hfresh (heq ▸ hfound)]
    exact hfound
  constructor
  · intro other found hfound
    rw [hnext]
    rcases hget hfound with ⟨rfl, -⟩ | hfound
    · exact Nat.lt_succ_self _
    · have hbelow := hratified.numbered other found hfound
      exact (hid ▸ hbelow).trans (Nat.lt_succ_self _)
  · intro other found hfound
    rcases hget hfound with ⟨rfl, rfl⟩ | hfound
    · exact ⟨transition, by simp, hproposer ▸ hacts⟩
    · obtain ⟨filing, hmem, hacts⟩ := hratified.proposed other found hfound
      exact ⟨filing, List.mem_append_left _ hmem, hacts⟩
  · intro filing hmem other filer hfiles
    rcases List.mem_append.mp hmem with hmem | hmem
    · obtain ⟨found, hfound, hfiler⟩ := hratified.filed filing hmem other filer hfiles
      exact ⟨found, hkept hfound, hfiler⟩
    · obtain rfl := List.mem_singleton.mp hmem
      obtain ⟨_, _, _, hlabel', hid'⟩ := hfiles
      cases hlabel.symm.trans hlabel'
      obtain rfl := hid.symm.trans hid'
      exact ⟨amendment, hamendment ▸ Store.get_set_self _ _ _, hproposer⟩
  · intro other found hfound hstatus
    rcases hget hfound with ⟨rfl, rfl⟩ | hfound
    · cases hpending.symm.trans hstatus
    · obtain ⟨first, activation, last, activator, rfl, hrest⟩ :=
        hratified.activated other found hfound hstatus
      exact ⟨first, activation, last ++ [transition], activator, by simp, hrest⟩
  · intro activation hmem other activator hactivation
    rcases List.mem_append.mp hmem with hmem | hmem
    · obtain ⟨hacts, found, hfound, hstatus⟩ :=
        hratified.closed activation hmem other activator hactivation
      exact ⟨hacts, found, hkept hfound, hstatus⟩
    · obtain rfl := List.mem_singleton.mp hmem
      obtain ⟨_, hlabel'⟩ := hactivation
      cases hlabel.symm.trans hlabel'
  · intro other found hfound hstatus
    rcases hget hfound with ⟨rfl, rfl⟩ | hfound
    · cases hpending.symm.trans hstatus
    · obtain ⟨veto, hmem, hvetoes⟩ := hratified.vetoed other found hfound hstatus
      exact ⟨veto, List.mem_append_left _ hmem, hvetoes⟩
  · intro other found hfound hstatus
    rcases hget hfound with ⟨rfl, rfl⟩ | hfound
    · cases hpending.symm.trans hstatus
    · obtain ⟨⟨reading, hmem, hreading⟩, hdeadline⟩ :=
        hratified.expired other found hfound hstatus
      exact ⟨⟨reading, List.mem_append_left _ hmem, hreading⟩, hdeadline⟩
  · intro reading hmem other hreading
    rcases List.mem_append.mp hmem with hmem | hmem
    · obtain ⟨found, hfound, hstatus⟩ := hratified.read reading hmem other hreading
      exact ⟨found, hkept hfound, hstatus⟩
    · obtain rfl := List.mem_singleton.mp hmem
      obtain ⟨_, _, hlabel', -⟩ := hreading
      cases hlabel.symm.trans hlabel'
  · intro other found hfound
    rcases hget hfound with ⟨-, rfl⟩ | hfound
    · simp [hpending]
    · exact hratified.known other found hfound

/-- Every step keeps what is established. -/
theorem Ratified.step
    (hratified : Ratified earlier transition.before.ledger.sequence transition.before.governance)
    (hstep : Step host transition.before transition.label transition.after) :
    Ratified (earlier ++ [transition]) transition.after.ledger.sequence
      transition.after.governance := by
  obtain ⟨signers, call, hlabel⟩ | ⟨hidle, meter, hsame⟩ := hstep.invokes_or_idles
  · have hlabels : ∀ {signers' call'}, transition.label = .invoke signers' call' →
        signers' = signers ∧ call' = call := by
      intro signers' call' hlabel'
      obtain ⟨hsigners, hcall⟩ := Action.invoke.inj (hlabel'.symm.trans hlabel)
      exact ⟨hsigners, hcall⟩
    rw [hlabel] at hstep
    rw [hstep.ledger_eq]
    have hchange := hstep.amendmentChange
    generalize hafter : transition.after.governance = governance at hchange
    cases hchange with
    | proposed proposer parameterName newValue constitution hsigner hauthorized _ =>
        have hproposes : ProposesAmendment transition
            (transition.before.governance.nextAmendmentId.getD 1) proposer :=
          ⟨signers, parameterName, newValue, hlabel, rfl⟩
        exact hratified.file hproposes ⟨⟨signers, _, hlabel, hsigner⟩, hauthorized,
          .inl hproposes⟩ rfl rfl rfl rfl
    | vetoed vetoer id amendment hstored hpending =>
        refine hratified.move ?_ hstored hpending nofun nofun ?_ ?_ nofun
          (fun _ => ⟨signers, vetoer, hlabel⟩) nofun
        · rintro id' proposer ⟨_, _, _, hlabel', -⟩
          cases (hlabels hlabel').2
        · rintro other ⟨_, _, hlabel', -⟩
          cases (hlabels hlabel').2
        · rintro other activator ⟨_, hlabel'⟩
          cases (hlabels hlabel').2
    | activated activator id amendment hsigner hauthorized hstored hpending hready =>
        have hactivates : ActivatesAmendment transition id activator := ⟨signers, hlabel⟩
        have hacts : ActsFor transition id activator :=
          ⟨⟨signers, _, hlabel, hsigner⟩, hauthorized, .inr hactivates⟩
        refine hratified.move ?_ hstored hpending nofun nofun ?_ ?_
          (fun _ => ⟨activator, hactivates⟩) nofun nofun
        · rintro id' proposer ⟨_, _, _, hlabel', -⟩
          cases (hlabels hlabel').2
        · rintro other ⟨_, _, hlabel', -⟩
          cases (hlabels hlabel').2
        · rintro other activator' ⟨_, hlabel'⟩
          cases (hlabels hlabel').2
          exact ⟨hacts, rfl, rfl⟩
    | expired id amendment hstored hpending hoverdue =>
        refine hratified.move ?_ hstored hpending nofun nofun ?_ ?_ nofun nofun
          fun _ => ⟨⟨signers, amendment, hlabel, hstored, hoverdue⟩, hoverdue⟩
        · rintro id' proposer ⟨_, _, _, hlabel', -⟩
          cases (hlabels hlabel').2
        · rintro other ⟨_, _, hlabel', -⟩
          cases (hlabels hlabel').2
          rfl
        · rintro other activator ⟨_, hlabel'⟩
          cases (hlabels hlabel').2
    | read id hcurrent =>
        refine hratified.quiet ?_ ?_ ?_ le_rfl rfl rfl
        · rintro id' proposer ⟨_, _, _, hlabel', -⟩
          cases (hlabels hlabel').2
        · rintro id' activator ⟨_, hlabel'⟩
          cases (hlabels hlabel').2
        · rintro other ⟨_, amendment, hlabel', hstored, hoverdue⟩
          cases (hlabels hlabel').2
          exact ⟨amendment, hstored, fun hpending =>
            absurd hoverdue (hcurrent amendment hstored hpending).not_gt⟩
    | other _ _ hplain hamendment hnext =>
        refine hratified.quiet ?_ ?_ ?_ le_rfl hamendment hnext
        · rintro id' proposer ⟨_, _, _, hlabel', -⟩
          cases (hlabels hlabel').2
          cases hplain
        · rintro id' activator ⟨_, hlabel'⟩
          cases (hlabels hlabel').2
          cases hplain
        · rintro other ⟨_, _, hlabel', -⟩
          cases (hlabels hlabel').2
          cases hplain
  · have hgovernance : transition.after.governance = transition.before.governance := by
      rw [Chain.governance, hsame]
      rfl
    refine hratified.quiet ?_ ?_ ?_ hstep.ledger_le (by rw [hgovernance]) (by rw [hgovernance])
    · rintro id proposer ⟨_, _, _, hlabel, -⟩
      exact hidle _ _ hlabel
    · rintro id activator ⟨_, hlabel⟩
      exact hidle _ _ hlabel
    · rintro id ⟨_, _, hlabel, -⟩
      exact absurd hlabel (hidle _ _)

/-- Every history establishes it. -/
theorem History.ratified (hhistory : History host trace chain) :
    Ratified trace chain.ledger.sequence chain.governance := by
  obtain ⟨ledger, hrun⟩ := hhistory
  refine hrun.invariant_of_trace
    (fun trace chain => Ratified trace chain.ledger.sequence chain.governance) ?_
    fun earlier transition _ hstep hratified => hratified.step hstep
  have hnone : ∀ {id amendment},
      (Chain.genesis (A := A) ledger).governance.amendment.get id ≠ some amendment := nofun
  exact ⟨fun _ _ h => absurd h hnone, fun _ _ h => absurd h hnone, by simp,
    fun _ _ h => absurd h hnone, by simp, fun _ _ h => absurd h hnone,
    fun _ _ h => absurd h hnone, by simp, fun _ _ h => absurd h hnone⟩

/-- Nobody activated an amendment that is not marked as activated. -/
theorem Ratified.unmoved (hratified : Ratified trace sequence governance)
    (hstored : governance.amendment.get id = some amendment)
    (hstatus : amendment.status ≠ .activated) :
    ∀ transition ∈ trace, ∀ user, ¬ ActivatesAmendment transition id user := by
  intro transition hmem user hactivates
  obtain ⟨-, found, hfound, hmoved⟩ := hratified.closed transition hmem id user hactivates
  obtain rfl := Option.some.inj (hstored.symm.trans hfound)
  exact hstatus hmoved

end History

end XelmaMarket
