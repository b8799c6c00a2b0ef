import XelmaMarket.Steering

/-!
# What the market leaves alone

The entrypoints of the market read the administration and write rounds, accounts and statistics;
each part has an instance of `Keeps`, found from its own parts. With the effects of the
administrative calls and of the executed proposals this says what any call does to the
administration.
-/

namespace XelmaMarket

open Transaction

variable {A : Type}

/-! ## Combinators -/

section Combinators

variable {σ τ α : Type} {view : σ → τ}

instance (condition : Prop) [Decidable condition] (error : ContractError) :
    Keeps view (reject condition error : Transaction (Env A) σ Failure PUnit) :=
  inferInstanceAs (Keeps view (failIf condition (Failure.err error)))

instance (value : Option α) (error : ContractError) :
    Keeps view (orError value error : Transaction (Env A) σ Failure α) :=
  inferInstanceAs (Keeps view (orFail value (Failure.err error)))

instance [DecidableEq A] (address : A) :
    Keeps view (requireAuth address : Transaction (Env A) σ Failure PUnit) :=
  ⟨fun env s => (@ensures_requireAuth _ _ env s _ address _).mpr fun _ => rfl⟩

instance : Keeps view (ledgerSequence : Transaction (Env A) σ Failure ℕ) :=
  inferInstanceAs (Keeps view (asks _))

instance : Keeps view (ledgerTimestamp : Transaction (Env A) σ Failure ℕ) :=
  inferInstanceAs (Keeps view (asks _))

instance (items : List α) (item : α) :
    Keeps view (pushBack items item : Transaction (Env A) σ Failure (List α)) := by
  unfold pushBack
  infer_instance

instance (m : ControlM A α) [Keeps id m] (view : Storage A → τ) : Keeps view (onControl m) :=
  @Keeps.of_zoom _ _ _ _ _ _ _ _ view id _ _ fun s control h => by
    rw [show control = s.control from h]

/-- A view of the storage that the market's own writes leave alone, those of a mint apart: it sees
no accounts, rounds, outcomes or statistics. -/
class Apart (view : Storage A → τ) : Prop where
  vault : ∀ s vault, view { s with vault := vault } = view s
  rounds : ∀ s rounds, view { s with rounds := rounds } = view s
  userRoundOutcome : ∀ s outcomes, view { s with userRoundOutcome := outcomes } = view s
  stats : ∀ s stats, view { s with stats := stats } = view s

/-- It sees no mint counters either. -/
class Aside (view : Storage A → τ) : Prop extends Apart view where
  meter : ∀ s meter, view { s with meter := meter } = view s

/-- A view of the storage that the archiving of a round leaves alone. -/
class Unarchived (view : Storage A → τ) : Prop where
  archived : ∀ s archive events, view { s with archive := archive, events := events } = view s

instance : Aside (@Storage.control A) where
  vault _ _ := rfl
  rounds _ _ := rfl
  userRoundOutcome _ _ := rfl
  stats _ _ := rfl
  meter _ _ := rfl

instance : Aside (@Storage.archive A) where
  vault _ _ := rfl
  rounds _ _ := rfl
  userRoundOutcome _ _ := rfl
  stats _ _ := rfl
  meter _ _ := rfl

instance : Apart (@Storage.meter A) :=
  ⟨fun _ _ => rfl, fun _ _ => rfl, fun _ _ => rfl, fun _ _ => rfl⟩

instance : Unarchived (@Storage.control A) :=
  ⟨fun _ _ _ => rfl⟩

instance : Unarchived (@Storage.meter A) :=
  ⟨fun _ _ _ => rfl⟩

section Apart

variable {view : Storage A → τ} [Apart view]

instance (m : StatsM A α) : Keeps view (onStats m) :=
  have : Keeps (fun _ => PUnit.unit) m := ⟨fun _ _ _ _ _ => rfl⟩
  @Keeps.of_zoom _ _ _ _ _ _ _ _ _ (fun _ => PUnit.unit) _ _ fun _ _ _ => Apart.stats _ _

instance (f : Vault A → Vault A) : Keeps view (updateVault f) :=
  .of_update fun _ => Apart.vault _ _

instance (f : Rounds A → Rounds A) : Keeps view (updateRounds f) :=
  .of_update fun _ => Apart.rounds _ _

end Apart

instance {view : Storage A → τ} (m : ContractM A α) [Keeps view m] :
    Keeps view (discardResult m) := by
  unfold discardResult
  infer_instance

end Combinators

/-! ## Gates -/

section Gates

variable [DecidableEq A] {τ : Type} {view : Control A → τ}

instance : Keeps view (requireSupportedSchema : ControlM A ℕ) := by
  unfold requireSupportedSchema
  infer_instance

instance (action : PolicyAction) : Keeps view (policyGate action : ControlM A _) := by
  unfold policyGate
  infer_instance

instance : Keeps view (authorizedAdmin : ControlM A A) := by
  unfold authorizedAdmin
  infer_instance

instance (user : A) : Keeps view (enforceAccessControl user) := by
  unfold enforceAccessControl
  infer_instance

end Gates

/-! ## Accounts and settlements -/

section Settlements

variable [LinearOrder A] {τ : Type} {view : Storage A → τ} [Apart view]

instance (user : A) (amount : ℤ) : Keeps view (setBalance user amount) := by
  unfold setBalance
  infer_instance

instance (user : A) (amount : ℤ) : Keeps view (accumulatePending user amount) := by
  unfold accumulatePending
  infer_instance

instance (roundId : ℕ) (record : UserRoundOutcome A) :
    Keeps view (persistUserOutcome roundId record) := by
  have : ∀ outcomes : Storage A → Store (ℕ × A) (UserRoundOutcome A), Keeps view
      (update fun s => { s with userRoundOutcome := outcomes s } : ContractM A PUnit) :=
    fun _ => .of_update fun _ => Apart.userRoundOutcome _ _
  unfold persistUserOutcome
  have := this fun s => s.userRoundOutcome.set (roundId, record.user) record
  infer_instance

instance (roundId : ℕ) (record : UserRoundOutcome A) :
    Keeps view (creditOutcome roundId record) := by
  unfold creditOutcome
  infer_instance

omit [LinearOrder A] in
instance : Keeps view (readTreasury : ContractM A ℤ) := by
  have : ∀ entry : Option (TreasuryEntry A), Keeps view
      (match entry with
        | none => pure 0
        | some (.amount value) => pure value
        | some (.address _) => fail .trap : ContractM A ℤ) := by
    intro entry
    split <;> infer_instance
  unfold readTreasury
  infer_instance

omit [LinearOrder A] in
instance (fee : ℤ) : Keeps view (collectInsuranceFee fee : ContractM A ℤ) := by
  unfold collectInsuranceFee setInsuranceFund
  dsimp only
  infer_instance

omit [LinearOrder A] in
instance (fee : ℤ) : Keeps view (collectProtocolFee fee : ContractM A PUnit) := by
  unfold collectProtocolFee setTreasury
  infer_instance

instance (round : Round) (status : RoundArchiveStatus) (finalPrice : ℕ) (participants : List A)
    (fee : ℤ) (confidence : Option ℕ) [Unarchived view] : Keeps view
      (archiveRound round status finalPrice participants fee confidence) :=
  ⟨fun _ _ => (archiveRound_spec round status finalPrice participants fee confidence).mono
    fun _ _ ⟨_, _, hs'⟩ => hs' ▸ Unarchived.archived _ _ _⟩

instance {β : Type} (roundId : ℕ) (outcome : UserOutcomeType) (addUp : β → ℤ → Except Failure β)
    (initial : β) (participants : List A) : Keeps view
      (refundPositions roundId outcome addUp initial participants) := by
  unfold refundPositions
  have : ∀ (total : β) (user : A) (stored : Option UserPosition), Keeps view
      (match stored with
        | none => pure total
        | some position => do
            let extended ← addUp total position.amount
            creditOutcome roundId (upDownOutcome user position position.amount outcome)
            return extended : ContractM A β) := by
    intro total user stored
    split <;> infer_instance
  infer_instance

instance {β : Type} (roundId : ℕ) (outcome : UserOutcomeType) (price : Rounds A → A → ℕ)
    (addUp : β → ℤ → Except Failure β) (initial : β) (participants : List A) :
    Keeps view
      (refundPredictions roundId outcome price addUp initial participants) := by
  unfold refundPredictions
  infer_instance

instance (roundId : ℕ) (winningSide : BetSide) (winningPool totalDistributable : ℤ) (user : A) :
    Keeps view
      (recordWinning roundId winningSide winningPool totalDistributable user) := by
  unfold recordWinning
  infer_instance

omit [LinearOrder A] in
instance (winningPool losingPool : ℤ) :
    Keeps view (applyProtocolFeeUpdown winningPool losingPool : ContractM A _) := by
  unfold applyProtocolFeeUpdown
  infer_instance

omit [LinearOrder A] in
instance (totalPot winnerStakes : ℤ) :
    Keeps view (applyProtocolFeePrecision totalPot winnerStakes : ContractM A _) := by
  unfold applyProtocolFeePrecision
  infer_instance

instance (roundId : ℕ) (participants : List A) (winningSide : BetSide)
    (winningPool losingPool : ℤ) : Keeps view
      (recordWinningsIndexed roundId participants winningSide winningPool losingPool) := by
  unfold recordWinningsIndexed
  infer_instance

instance (round : Round) (finalPrice : ℕ) :
    Keeps view (resolveUpdownMode round finalPrice : ContractM A _) := by
  have : ∀ (direction : PriceDirection) (participants : List A), Keeps view
      (match direction with
        | .unchanged => do
            recordRefundsIndexed round.roundId participants
            return (false, 0)
        | .up => do
            let feeAmount ← recordWinningsIndexed round.roundId participants .up
              round.poolUp round.poolDown
            return (false, feeAmount)
        | .down => do
            let feeAmount ← recordWinningsIndexed round.roundId participants .down
              round.poolDown round.poolUp
            return (false, feeAmount) : ContractM A (Bool × ℤ)) := by
    intro direction participants
    unfold recordRefundsIndexed
    cases direction <;> infer_instance
  have : ∀ (policy : OneSidedPolicy) (participants : List A),
      Keeps view (applyOneSidedPolicy round policy participants) := by
    intro policy participants
    unfold applyOneSidedPolicy recordRefundsIndexed
    cases policy <;> infer_instance
  unfold resolveUpdownMode
  dsimp only
  infer_instance

instance (roundId : ℕ) (winners : List (PrecisionPrediction A)) (payouts : List ℤ) :
    Keeps view (payPrecisionWinners roundId winners payouts) := by
  unfold payPrecisionWinners
  dsimp only
  infer_instance

instance (roundId : ℕ) (participants : List A) (scan : PrecisionScan A) :
    Keeps view (recordPrecisionLosers roundId participants scan) := by
  unfold recordPrecisionLosers
  infer_instance

instance (roundId : ℕ) (participants : List A) (scan : PrecisionScan A) :
    Keeps view (refundUnrevealed roundId participants scan) := by
  unfold refundUnrevealed
  dsimp only
  infer_instance

instance (roundId finalPrice : ℕ) :
    Keeps view (resolvePrecisionMode roundId finalPrice : ContractM A _) := by
  unfold resolvePrecisionMode
  dsimp only
  repeat' first | infer_instance | split | refine .bind inferInstance fun _ => ?_

instance (round : Round) (finalPrice : ℕ) :
    Keeps view (settleMode round finalPrice : ContractM A ℤ) := by
  unfold settleMode
  split <;> infer_instance

instance (round : Round) (finalPrice : ℕ) (confidence : Option ℕ) [Unarchived view] :
    Keeps view (completeSettlement round finalPrice confidence : ContractM A _) := by
  unfold completeSettlement
  infer_instance

instance (round : Round) (participants : List A) :
    Keeps view (refundUnderThreshold round participants) := by
  unfold refundUnderThreshold refundStakesUnderThreshold
  cases round.mode <;> infer_instance

omit [LinearOrder A] in
instance (round : Round) (finalPrice : ℕ) (confidence : Option ℕ) (disputeLedgers : ℕ) :
    Keeps view (stageSettlement round finalPrice confidence disputeLedgers : ContractM A _) := by
  unfold stageSettlement
  infer_instance

instance (round : Round) (finalPrice : ℕ) (confidence : Option ℕ) [Unarchived view] :
    Keeps view (settleRoundWithPrice round finalPrice confidence : ContractM A _) := by
  unfold settleRoundWithPrice
  infer_instance

instance (roundId : ℕ) (error : ContractError) :
    Keeps view (readPendingDispute roundId error : ContractM A _) := by
  unfold readPendingDispute
  infer_instance

instance (mode : RoundMode) (roundId : ℕ) (participants : List A) :
    Keeps view (voidStakes mode roundId participants) := by
  unfold voidStakes
  cases mode <;> infer_instance

instance (roundId : ℕ) [Unarchived view] : Keeps view (voidRound roundId : ContractM A _) := by
  unfold voidRound removePendingDispute ensureNotPaused
  repeat first | infer_instance | refine .bind inferInstance fun _ => ?_

instance (roundId : ℕ) [Unarchived view] : Keeps view (finalizeRound roundId : ContractM A _) := by
  unfold finalizeRound removePendingDispute ensureNotPaused
  infer_instance

instance (round : Round) (participants : List A) :
    Keeps view (cancelStakes round participants) := by
  have : Keeps view (cancelPredictions round.roundId participants) := by
    unfold cancelPredictions
    infer_instance
  unfold cancelStakes
  cases round.mode <;> infer_instance

instance (participants : List A) (tally : StakeTally) :
    Keeps view (payCoverage participants tally) := by
  have : Keeps view (totalCoverage tally.1 : ContractM A ℤ) := by
    unfold totalCoverage calculateCoverageAmount
    infer_instance
  have : ∀ requested, Keeps view
      (deductInsuranceCoverage requested : ContractM A ℤ) := by
    intro requested
    unfold deductInsuranceCoverage setInsuranceFund
    dsimp only
    infer_instance
  have : ∀ distributed, Keeps view
      (distributeCoverage participants tally distributed) := by
    intro distributed
    unfold distributeCoverage
    dsimp only
    infer_instance
  unfold payCoverage
  infer_instance

instance (error : ContractError) :
    Keeps view (readActiveRound error : ContractM A Round) := by
  unfold readActiveRound
  infer_instance

instance (reason : ℕ) [Unarchived view] : Keeps view (cancelRound reason : ContractM A _) := by
  have : ∀ roundId : ℕ, Keeps view (update fun s : Storage A =>
      { s with archive :=
        { s.archive with cancelledRound := s.archive.cancelledRound.set roundId true } }
      : ContractM A PUnit) :=
    fun _ => .of_update fun s => Unarchived.archived s _ s.events
  unfold cancelRound
  repeat first | infer_instance | refine .bind inferInstance fun _ => ?_

/-! ## Claims -/

instance (user : A) : Keeps view (claimPending user) := by
  unfold claimPending
  infer_instance

instance (user : A) : Keeps view (claimWinnings user) := by
  unfold claimWinnings ensureNotPaused
  infer_instance

instance (users : List A) : Keeps view (claimMany users) := by
  unfold claimMany ensureNotPaused
  repeat first | infer_instance | refine .bind inferInstance fun _ => ?_

/-! ## Staking -/

omit [LinearOrder A] in
instance (amount : ℤ) : Keeps view (enforceMinBet amount : ContractM A PUnit) := by
  unfold enforceMinBet
  infer_instance

omit [LinearOrder A] in
instance (amount : ℤ) : Keeps view (enforceMaxStake amount : ContractM A PUnit) := by
  unfold enforceMaxStake
  infer_instance

instance (roundId : ℕ) (user : A) (amount : ℤ) :
    Keeps view (enforceUserRoundExposure roundId user amount) := by
  unfold enforceUserRoundExposure
  infer_instance

omit [LinearOrder A] in
instance (round : Round) : Keeps view (enforceBettingOpen round : ContractM A _) := by
  unfold enforceBettingOpen
  infer_instance

omit [LinearOrder A] in
instance (user : A) (amount : ℤ) [DecidableEq A] :
    Keeps view (enforceBalance user amount) := by
  unfold enforceBalance
  infer_instance

instance (roundId : ℕ) (user : A) : Keeps view (enforceNotPredicted roundId user) := by
  unfold enforceNotPredicted
  infer_instance

instance (user : A) (amount : ℤ) : Keeps view (debitStake user amount) := by
  unfold debitStake
  infer_instance

instance (roundId : ℕ) (user : A) : Keeps view (joinRound roundId user) := by
  unfold joinRound
  infer_instance

instance (startPrice : ℕ) (mode : Option ℕ) :
    Keeps view (createRound startPrice mode : ContractM A PUnit) := by
  unfold createRound assertNoActiveRound ensureNotPaused
  repeat first | infer_instance | refine .bind inferInstance fun _ => ?_

instance : Keeps view (createNextFromTemplate : ContractM A ℕ) := by
  unfold createNextFromTemplate adminGate ensureNotPaused
  infer_instance

instance (user : A) (amount : ℤ) (side : BetSide) :
    Keeps view (placeBet user amount side) := by
  unfold placeBet setActiveRound ensureNormalMode
  repeat first | infer_instance | refine .bind inferInstance fun _ => ?_

instance (user : A) (amount : ℤ) (predictedPrice : ℕ) :
    Keeps view (placePrecisionPrediction user amount predictedPrice) := by
  unfold placePrecisionPrediction ensureNormalMode
  repeat first | infer_instance | refine .bind inferInstance fun _ => ?_

instance (user : A) (hash : BytesN 32) (amount : ℤ) :
    Keeps view (commitPrediction user hash amount) := by
  unfold commitPrediction ensureNormalMode
  repeat first | infer_instance | refine .bind inferInstance fun _ => ?_

instance (user : A) (predictedPrice : ℕ) (salt : BytesN 32) :
    Keeps view (revealPrediction user predictedPrice salt) := by
  unfold revealPrediction ensureNormalMode
  dsimp only
  repeat first | infer_instance | refine .bind inferInstance fun _ => ?_

instance (user : A) : Keeps view (cashOutEarly user) := by
  unfold cashOutEarly setActiveRound ensureNormalMode
  dsimp only
  repeat first | infer_instance | refine .bind inferInstance fun _ => ?_

/-! ## Minting and funds -/

instance (user : A) {view : Storage A → τ} [Aside view] : Keeps view (mintInitial user) := by
  have : ∀ meter : Storage A → Meter, Keeps view
      (update fun s => { s with meter := meter s } : ContractM A PUnit) :=
    fun _ => .of_update fun _ => Aside.meter _ _
  have : Keeps view (enforceMintLimit : ContractM A PUnit) := by
    unfold enforceMintLimit
    have := fun sequence count : ℕ => this fun s => { s.meter with
      ledgerMintCounter := s.meter.ledgerMintCounter.set sequence (count + 1) }
    infer_instance
  have : Keeps view (enforceEpochBudget : ContractM A PUnit) := by
    unfold enforceEpochBudget
    dsimp only
    infer_instance
  have : Keeps view (mintNew user) := by
    unfold mintNew
    infer_instance
  have : ∀ stored : Option ℤ, Keeps view
      (match stored with
        | some existingBalance => pure existingBalance
        | none => mintNew user : ContractM A ℤ) := by
    intro stored
    cases stored <;> infer_instance
  unfold mintInitial ensureNormalMode
  infer_instance

instance (recipient : A) (amount : ℤ) :
    Keeps view (executeWithdrawFee recipient amount) := by
  unfold executeWithdrawFee setTreasury
  repeat first | infer_instance | refine .bind inferInstance fun _ => ?_

instance (recipient : A) (amount : ℤ) :
    Keeps view (executeWithdrawInsuranceFund recipient amount) := by
  unfold executeWithdrawInsuranceFund setInsuranceFund
  repeat first | infer_instance | refine .bind inferInstance fun _ => ?_

instance (recipient : A) (amount : ℤ) :
    Keeps view (withdrawProtocolFee recipient amount) := by
  unfold withdrawProtocolFee ensureNotPaused
  infer_instance

instance (recipient : A) (amount : ℤ) :
    Keeps view (withdrawInsuranceFund recipient amount) := by
  unfold withdrawInsuranceFund ensureNotPaused
  infer_instance

instance (amount : ℤ) : Keeps view (topUpInsuranceFund amount : ContractM A _) := by
  unfold topUpInsuranceFund setInsuranceFund ensureNotPaused
  repeat first | infer_instance | refine .bind inferInstance fun _ => ?_

instance (user : A) : Keeps view (reclaimExpiredPendingWinnings user) := by
  unfold reclaimExpiredPendingWinnings adminGate ensureNotPaused
  repeat first | infer_instance | refine .bind inferInstance fun _ => ?_

instance : Keeps view (resetLeaderboardSeason : ContractM A ℕ) := by
  unfold resetLeaderboardSeason adminGate ensureNotPaused
  infer_instance

/-! ## What a call does to the administration -/

omit [LinearOrder A] in
/-- The calls that act on the administration, be it by consuming an override. -/
def Call.administers : Call A → Bool
  | .control _ | .executeGovProposal .. | .resolveRound _ | .resolveRoundMulti _ => true
  | _ => false

/-- What a successful call does to the administration: an administrative call and an executed
proposal have their effects, a submission consumes overrides at most, and every other call leaves
alone what the effects keep track of. -/
inductive ControlChange (env : Env A) (s : Storage A) : Call A → Storage A → Prop where
  | administered (call : ControlCall A) (s' : Storage A)
      (heffect : ControlEffect env s.control call s'.control) :
      ControlChange env s (.control call) s'
  | executed (executor : A) (proposalId : ℕ) (proposal : GovProposal A) (s' : Storage A)
      (hexecutes : ExecutesProposal env s executor proposalId proposal s') :
      ControlChange env s (.executeGovProposal executor proposalId) s'
  | submitted (call : Call A) (startLedger : ℕ) (config : Store String ConfigEntry)
      (armed : Option Bool) (s' : Storage A) (hbound : call.boundTo = some startLedger)
      (hconsumed : HbConsumed env s.control.settings config)
      (hcontrol : s'.control = { s.control with
        settings := { s.control.settings with
          config := config
          oracleDeviationOverrideArmed := armed } }) : ControlChange env s call s'
  | kept (call : Call A) (s' : Storage A) (hplain : call.administers = false)
      (hsame : SameCore s.control s'.control) :
      ControlChange env s call s'

variable {env : Env A} {s : Storage A}

omit [LinearOrder A] in
/-- What keeps the administration changes nothing there. -/
theorem ensures_same_control {α : Type} (m : ContractM A α) [Keeps Storage.control m] :
    Ensures m env s fun _ s' => s'.control = s.control :=
  @Keeps.ensures _ _ _ _ _ Storage.control _ _ env s

/-- A submission consumes overrides at most. -/
theorem Call.ensures_submitted {call : Call A} {startLedger : ℕ}
    (hbound : call.boundTo = some startLedger) :
    Ensures call.exec env s fun _ s' => ControlChange env s call s' := by
  refine Call.ensures_checked hbound fun round finalPrice confidence s₁ _ hchecked => ?_
  refine (ensures_same_control _).mono fun _ s' hsame => ?_
  obtain ⟨config, armed, feed, rfl⟩ := hchecked.oracle
  exact .submitted call startLedger config armed s' hbound hchecked.config hsame

/-- Every successful call changes the administration in one of these ways. -/
theorem Call.ensures_controlChange (call : Call A) :
    Ensures call.exec env s fun _ s' => ControlChange env s call s' := by
  cases call with
  | control call =>
      simp only [Call.exec, ensures_onControl]
      exact call.ensures_effect.mono fun _ control' heffect => .administered call _ heffect
  | migrateSchemaV1ToV2 dryRun | migrateSchemaV2ToV3 dryRun =>
      simp only [Call.exec, XelmaMarket.migrateSchemaV1ToV2, XelmaMarket.migrateSchemaV2ToV3,
        ensures_bind]
      refine (migrationGate_same _).mono ?_
      rintro _ _ rfl
      simp only [ensures_onlyIf, ensures_onControl, ensures_updateSettings]
      exact ⟨fun _ => .kept _ _ rfl ⟨rfl, rfl, rfl, rfl, rfl, rfl, rfl, rfl, id⟩,
        fun _ => .kept _ _ rfl (.refl _)⟩
  | executeGovProposal executor proposalId =>
      refine (execute_spec executor proposalId).mono ?_
      rintro _ s' ⟨proposal, hexecutes⟩
      exact .executed executor proposalId proposal s' hexecutes
  | resolveRound | resolveRoundMulti => exact Call.ensures_submitted rfl
  | _ =>
      simp only [Call.exec, XelmaMarket.predictPrice]
      refine (ensures_same_control _).mono fun _ s' hsame => ?_
      exact .kept _ s' rfl (hsame ▸ .refl s.control)

/-- Every call steers. -/
theorem Call.steered (call : Call A) :
    Ensures call.exec env s fun _ s' => Steered s.control s'.control := by
  refine call.ensures_controlChange.mono fun _ s' hchange => ?_
  cases hchange with
  | administered _ _ heffect => exact heffect.steered
  | executed _ _ _ _ hexecutes => exact hexecutes.steered
  | submitted _ _ _ _ _ _ _ hcontrol => exact hcontrol ▸ .of_settings id
  | kept _ _ _ hsame => exact hsame.steered

omit [LinearOrder A] in
/-- The calls that govern: the administrative ones and the execution of a proposal. -/
def Call.governs : Call A → Bool
  | .control _ | .executeGovProposal .. => true
  | _ => false

/-- The settings with other schema and oracle entries. -/
def Settings.withMarket (settings : Settings) (schemaVersion : Option ℕ)
    (migratedToV3 : Option Bool) (config : Store String ConfigEntry) (armed : Option Bool) :
    Settings :=
  { settings with
    schemaVersion := schemaVersion
    migratedToV3 := migratedToV3
    config := config
    oracleDeviationOverrideArmed := armed }

/-- A stored schema version that the entrypoints support. -/
def SchemaSupported (version : Option ℕ) : Prop :=
  version.getD 1 ≠ 0 ∧ version.getD 1 ≤ currentSchemaVersion

/-- A call that does not govern leaves the roles, the proposals and every other setting alone, and a
supported schema supported. -/
theorem Call.ensures_market {call : Call A} (hplain : call.governs = false) :
    Ensures call.exec env s fun _ s' => ∃ schemaVersion migratedToV3 config armed,
      (SchemaSupported s.control.settings.schemaVersion → SchemaSupported schemaVersion) ∧
      s'.control = { s.control with
        settings := s.control.settings.withMarket schemaVersion migratedToV3 config armed } := by
  have hsubmitted : ∀ startLedger, call.boundTo = some startLedger →
      Ensures call.exec env s fun _ s' => ∃ schemaVersion migratedToV3 config armed,
        (SchemaSupported s.control.settings.schemaVersion → SchemaSupported schemaVersion) ∧
        s'.control = { s.control with
          settings := s.control.settings.withMarket schemaVersion migratedToV3 config armed } := by
    intro startLedger hbound
    refine Call.ensures_checked hbound fun round finalPrice confidence s₁ _ hchecked => ?_
    refine (ensures_same_control _).mono fun _ s' hsame => ?_
    obtain ⟨config, armed, feed, rfl⟩ := hchecked.oracle
    exact ⟨_, _, config, armed, id, hsame⟩
  cases call with
  | control | executeGovProposal => cases hplain
  | resolveRound | resolveRoundMulti => exact hsubmitted _ rfl
  | migrateSchemaV1ToV2 dryRun | migrateSchemaV2ToV3 dryRun =>
      simp only [Call.exec, XelmaMarket.migrateSchemaV1ToV2, XelmaMarket.migrateSchemaV2ToV3,
        ensures_bind]
      refine (migrationGate_same _).mono ?_
      rintro _ _ rfl
      simp only [ensures_onlyIf, ensures_onControl, ensures_updateSettings]
      exact ⟨fun _ => ⟨_, _, _, _, fun _ => ⟨by decide, by decide⟩, rfl⟩,
        fun _ => ⟨_, _, _, _, id, rfl⟩⟩
  | _ =>
      simp only [Call.exec, XelmaMarket.predictPrice]
      exact (ensures_same_control _).mono fun _ s' hsame => ⟨_, _, _, _, id, hsame⟩

end Settlements

end XelmaMarket
