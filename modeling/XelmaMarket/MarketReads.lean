import XelmaMarket.Frame
import XelmaMarket.Lib.Blindness

/-!
# What the market does not read

Outside the checks of the oracle the market reads no amendment, no heartbeat, no staleness threshold
and none of the encoded configurations: a change of these alters neither what a call returns nor
what else it leaves behind.
-/

namespace XelmaMarket

open Transaction

variable {A : Type}

/-- A change of the amendments and their counter, the heartbeat, its staleness threshold and the
encoded configurations. -/
structure Mask (A : Type) where
  amendment : Store ℕ (Amendment A) → Store ℕ (Amendment A)
  nextAmendmentId : Option ℕ → Option ℕ
  heartbeat : Option OracleHeartbeatRecord → Option OracleHeartbeatRecord
  staleThreshold : Option ℕ → Option ℕ
  config : Store String ConfigEntry → Store String ConfigEntry

/-- The administration with the changed parts. -/
def Control.mask (mask : Mask A) (control : Control A) : Control A where
  governance :=
    { control.governance with
      amendment := mask.amendment control.governance.amendment
      nextAmendmentId := mask.nextAmendmentId control.governance.nextAmendmentId }
  settings :=
    { control.settings with
      oracleHeartbeat := mask.heartbeat control.settings.oracleHeartbeat
      oracleStaleThreshold := mask.staleThreshold control.settings.oracleStaleThreshold
      config := mask.config control.settings.config }

/-- The storage with the changed parts. -/
def Storage.mask (mask : Mask A) (s : Storage A) : Storage A :=
  { s with control := s.control.mask mask }

section Combinators

variable {σ α : Type} {change : σ → σ} {mask : Mask A}

instance (condition : Prop) [Decidable condition] (error : ContractError) :
    Ignores change (reject condition error : Transaction (Env A) σ Failure PUnit) :=
  inferInstanceAs (Ignores change (failIf condition (Failure.err error)))

instance (value : Option α) (error : ContractError) :
    Ignores change (orError value error : Transaction (Env A) σ Failure α) :=
  inferInstanceAs (Ignores change (orFail value (Failure.err error)))

instance [DecidableEq A] (address : A) :
    Ignores change (requireAuth address : Transaction (Env A) σ Failure PUnit) where
  run_eq env s := by
    by_cases hsigner : address ∈ env.signers <;> simp [requireAuth, failIf, hsigner] <;> rfl

instance : Ignores change (ledgerSequence : Transaction (Env A) σ Failure ℕ) :=
  inferInstanceAs (Ignores change (asks _))

instance : Ignores change (ledgerTimestamp : Transaction (Env A) σ Failure ℕ) :=
  inferInstanceAs (Ignores change (asks _))

instance (items : List α) (item : α) :
    Ignores change (pushBack items item : Transaction (Env A) σ Failure (List α)) := by
  unfold pushBack
  infer_instance

/-- On the storage an administrative transaction ignores what it does on the administration. -/
theorem ignores_onControl {m : ControlM A α} (hignores : Ignores (Control.mask mask) m) :
    Ignores (Storage.mask mask) (onControl m) :=
  .zoom _ (Control.mask mask) (fun _ => rfl) fun _ _ => rfl

instance (m : ControlM A α) [Ignores (Control.mask mask) m] :
    Ignores (Storage.mask mask) (onControl m) :=
  ignores_onControl inferInstance

instance (m : StatsM A α) : Ignores (Storage.mask mask) (onStats m) :=
  .zoom _ id (fun _ => rfl) fun _ _ => rfl

instance (f : Vault A → Vault A) : Ignores (Storage.mask mask) (updateVault f) :=
  .update fun _ => rfl

instance (f : Rounds A → Rounds A) : Ignores (Storage.mask mask) (updateRounds f) :=
  .update fun _ => rfl

instance (m : Transaction (Env A) σ Failure α) [Ignores change m] :
    Ignores change (discardResult m) := by
  unfold discardResult
  infer_instance

end Combinators

/-! ## Gates -/

section Gates

variable [DecidableEq A] {mask : Mask A}

instance : Ignores (Control.mask mask) (requireSupportedSchema : ControlM A ℕ) := by
  refine .bind (.gets fun _ => rfl) fun _ => ?_
  infer_instance

instance (action : PolicyAction) :
    Ignores (Control.mask mask) (policyGate action : ControlM A _) :=
  .bind (.gets fun _ => rfl) inferInstance

instance : Ignores (Control.mask mask) (authorizedAdmin : ControlM A A) := by
  refine .bind (.gets fun _ => rfl) fun _ => ?_
  infer_instance

instance : Ignores (Control.mask mask) (adminGate : ControlM A A) := by
  unfold adminGate ensureNotPaused
  infer_instance

instance (caller : A) : Ignores (Control.mask mask) (governanceGate caller) :=
  .bind inferInstance fun _ => .bind inferInstance fun _ => .bind (.gets fun _ => rfl) inferInstance

/-- The admission gate reads the whole governance and looks at the lists only. -/
instance (user : A) : Ignores (Control.mask mask) (enforceAccessControl user) where
  run_eq env control := by
    unfold enforceAccessControl
    exact (show Ignores (Control.mask mask) (do
        reject (control.governance.denylisted.has user = true) .accessDenied
        reject (control.governance.accessControlEnabled.getD false = true ∧
          control.governance.allowlisted.has user = false) .accessDenied : ControlM A PUnit)
      from inferInstance).run_eq env control

end Gates

/-! ## Accounts and settlements -/

section Settlements

variable [LinearOrder A] {mask : Mask A}

instance (user : A) (amount : ℤ) : Ignores (Storage.mask mask) (setBalance user amount) := by
  unfold setBalance
  infer_instance

instance (user : A) (amount : ℤ) :
    Ignores (Storage.mask mask) (accumulatePending user amount) := by
  unfold accumulatePending
  refine .bind (.gets fun _ => rfl) fun _ => .bind inferInstance fun _ => ?_
  refine .bind (.gets fun _ => rfl) inferInstance

instance (roundId : ℕ) (record : UserRoundOutcome A) :
    Ignores (Storage.mask mask) (persistUserOutcome roundId record) :=
  .bind (.gets fun _ => rfl) fun _ => .onlyIf (.update fun _ => rfl)

instance (roundId : ℕ) (record : UserRoundOutcome A) :
    Ignores (Storage.mask mask) (creditOutcome roundId record) := by
  unfold creditOutcome
  infer_instance

omit [LinearOrder A] in
instance : Ignores (Storage.mask mask) (readTreasury : ContractM A ℤ) := by
  refine .bind (.gets fun _ => rfl) fun entry => ?_
  split <;> infer_instance

omit [LinearOrder A] in
instance (fee : ℤ) : Ignores (Storage.mask mask) (collectInsuranceFee fee : ContractM A ℤ) := by
  unfold collectInsuranceFee setInsuranceFund
  repeat' first
    | infer_instance
    | exact .gets fun _ => rfl
    | split
    | refine .bind ?_ fun _ => ?_

omit [LinearOrder A] in
instance (fee : ℤ) :
    Ignores (Storage.mask mask) (collectProtocolFee fee : ContractM A PUnit) := by
  unfold collectProtocolFee setTreasury
  infer_instance

instance (round : Round) (status : RoundArchiveStatus) (finalPrice : ℕ) (participants : List A)
    (fee : ℤ) (confidence : Option ℕ) : Ignores (Storage.mask mask)
      (archiveRound round status finalPrice participants fee confidence) := by
  unfold archiveRound indexParticipants
  repeat' first
    | infer_instance
    | exact .gets fun _ => rfl
    | exact .update fun _ => rfl
    | refine .forEach fun _ => ?_
    | refine .bind ?_ fun _ => ?_

instance {β : Type} (roundId : ℕ) (outcome : UserOutcomeType) (addUp : β → ℤ → Except Failure β)
    (initial : β) (participants : List A) : Ignores (Storage.mask mask)
      (refundPositions roundId outcome addUp initial participants) := by
  refine .foldEach fun total user => .bind (.gets fun _ => rfl) fun stored => ?_
  split <;> infer_instance

instance {β : Type} (roundId : ℕ) (outcome : UserOutcomeType) (price : Rounds A → A → ℕ)
    (addUp : β → ℤ → Except Failure β) (initial : β) (participants : List A) :
    Ignores (Storage.mask mask)
      (refundPredictions roundId outcome price addUp initial participants) :=
  .foldEach fun _ _ => .bind (.gets fun _ => rfl) fun _ => inferInstance

instance (roundId : ℕ) (winningSide : BetSide) (winningPool totalDistributable : ℤ) (user : A) :
    Ignores (Storage.mask mask)
      (recordWinning roundId winningSide winningPool totalDistributable user) :=
  .bind (.gets fun _ => rfl) inferInstance

omit [LinearOrder A] in
instance (winningPool losingPool : ℤ) : Ignores (Storage.mask mask)
    (applyProtocolFeeUpdown winningPool losingPool : ContractM A _) :=
  .bind (.gets fun _ => rfl) fun _ => .bind (.gets fun _ => rfl) inferInstance

omit [LinearOrder A] in
instance (totalPot winnerStakes : ℤ) : Ignores (Storage.mask mask)
    (applyProtocolFeePrecision totalPot winnerStakes : ContractM A _) :=
  .bind (.gets fun _ => rfl) fun _ => .bind (.gets fun _ => rfl) inferInstance

instance (roundId : ℕ) (participants : List A) (winningSide : BetSide)
    (winningPool losingPool : ℤ) : Ignores (Storage.mask mask)
      (recordWinningsIndexed roundId participants winningSide winningPool losingPool) := by
  unfold recordWinningsIndexed
  infer_instance

instance (round : Round) (finalPrice : ℕ) :
    Ignores (Storage.mask mask) (resolveUpdownMode round finalPrice : ContractM A _) := by
  refine .bind (.gets fun _ => rfl) fun participants => ?_
  dsimp only
  unfold applyOneSidedPolicy recordRefundsIndexed
  repeat' first | infer_instance | split

instance (roundId : ℕ) (winners : List (PrecisionPrediction A)) (payouts : List ℤ) :
    Ignores (Storage.mask mask) (payPrecisionWinners roundId winners payouts) := by
  unfold payPrecisionWinners
  dsimp only
  infer_instance

instance (roundId : ℕ) (participants : List A) (scan : PrecisionScan A) :
    Ignores (Storage.mask mask) (recordPrecisionLosers roundId participants scan) := by
  unfold recordPrecisionLosers
  infer_instance

instance (roundId : ℕ) (participants : List A) (scan : PrecisionScan A) :
    Ignores (Storage.mask mask) (refundUnrevealed roundId participants scan) := by
  unfold refundUnrevealed
  dsimp only
  infer_instance

instance (roundId finalPrice : ℕ) :
    Ignores (Storage.mask mask) (resolvePrecisionMode roundId finalPrice : ContractM A _) := by
  unfold resolvePrecisionMode
  dsimp only
  repeat' first
    | infer_instance
    | exact .gets fun _ => rfl
    | split
    | refine .bind ?_ fun _ => ?_

instance (round : Round) (finalPrice : ℕ) :
    Ignores (Storage.mask mask) (settleMode round finalPrice : ContractM A ℤ) := by
  unfold settleMode
  split <;> infer_instance

instance (round : Round) (finalPrice : ℕ) (confidence : Option ℕ) : Ignores (Storage.mask mask)
    (completeSettlement round finalPrice confidence : ContractM A _) :=
  .bind inferInstance fun _ => .bind (.gets fun _ => rfl) inferInstance

instance (round : Round) (participants : List A) :
    Ignores (Storage.mask mask) (refundUnderThreshold round participants) := by
  unfold refundUnderThreshold refundStakesUnderThreshold
  cases round.mode <;> infer_instance

omit [LinearOrder A] in
instance (round : Round) (finalPrice : ℕ) (confidence : Option ℕ) (disputeLedgers : ℕ) :
    Ignores (Storage.mask mask)
      (stageSettlement round finalPrice confidence disputeLedgers : ContractM A _) := by
  unfold stageSettlement
  infer_instance

instance (round : Round) (finalPrice : ℕ) (confidence : Option ℕ) : Ignores (Storage.mask mask)
    (settleRoundWithPrice round finalPrice confidence : ContractM A _) := by
  unfold settleRoundWithPrice
  repeat' first
    | infer_instance
    | exact .gets fun _ => rfl
    | split
    | refine .bind ?_ fun _ => ?_

/-! ## Entrypoints -/

instance (error : ContractError) :
    Ignores (Storage.mask mask) (readActiveRound error : ContractM A Round) :=
  .bind (.gets fun _ => rfl) inferInstance

omit [LinearOrder A] in
instance (amount : ℤ) : Ignores (Storage.mask mask) (enforceMinBet amount : ContractM A PUnit) :=
  .bind (.gets fun _ => rfl) inferInstance

omit [LinearOrder A] in
instance (amount : ℤ) : Ignores (Storage.mask mask) (enforceMaxStake amount : ContractM A PUnit) :=
  .bind (.gets fun _ => rfl) inferInstance

instance (roundId : ℕ) (user : A) (amount : ℤ) :
    Ignores (Storage.mask mask) (enforceUserRoundExposure roundId user amount) :=
  .bind (.gets fun _ => rfl) fun _ => .onSome fun _ => .bind (.gets fun _ => rfl) inferInstance

omit [LinearOrder A] in
instance (round : Round) :
    Ignores (Storage.mask mask) (enforceBettingOpen round : ContractM A _) :=
  .bind inferInstance fun _ => .bind (.gets fun _ => rfl) inferInstance

instance (user : A) (amount : ℤ) : Ignores (Storage.mask mask) (enforceBalance user amount) :=
  .bind (.gets fun _ => rfl) inferInstance

instance (roundId : ℕ) (user : A) :
    Ignores (Storage.mask mask) (enforceNotPredicted roundId user) :=
  .bind (.gets fun _ => rfl) fun _ => .bind (.gets fun _ => rfl) inferInstance

instance (user : A) (amount : ℤ) : Ignores (Storage.mask mask) (debitStake user amount) :=
  .bind (.gets fun _ => rfl) inferInstance

instance (roundId : ℕ) (user : A) : Ignores (Storage.mask mask) (joinRound roundId user) :=
  .bind (.gets fun _ => rfl) inferInstance

instance (startPrice : ℕ) (mode : Option ℕ) :
    Ignores (Storage.mask mask) (createRound startPrice mode : ContractM A PUnit) := by
  unfold createRound assertNoActiveRound ensureNotPaused
  repeat' first | infer_instance | exact .gets fun _ => rfl | refine .bind ?_ fun _ => ?_

instance (user : A) : Ignores (Storage.mask mask) (claimPending user) := by
  unfold claimPending
  repeat' first
    | infer_instance
    | exact .gets fun _ => rfl
    | split
    | refine .bind ?_ fun _ => ?_

instance (user : A) : Ignores (Storage.mask mask) (mintNew user) := by
  unfold mintNew enforceMintLimit enforceEpochBudget
  repeat' first
    | infer_instance
    | exact .gets fun _ => rfl
    | exact .update fun _ => rfl
    | refine .onSome fun _ => ?_
    | refine .onlyIf ?_
    | refine .bind ?_ fun _ => ?_

instance (recipient : A) (amount : ℤ) :
    Ignores (Storage.mask mask) (executeWithdrawFee recipient amount) := by
  unfold executeWithdrawFee setTreasury
  repeat' first | infer_instance | exact .gets fun _ => rfl | refine .bind ?_ fun _ => ?_

instance (recipient : A) (amount : ℤ) :
    Ignores (Storage.mask mask) (executeWithdrawInsuranceFund recipient amount) := by
  unfold executeWithdrawInsuranceFund setInsuranceFund
  repeat' first | infer_instance | exact .gets fun _ => rfl | refine .bind ?_ fun _ => ?_

instance (mode : RoundMode) (roundId : ℕ) (participants : List A) :
    Ignores (Storage.mask mask) (voidStakes mode roundId participants) := by
  unfold voidStakes
  split <;> infer_instance

instance (round : Round) (participants : List A) :
    Ignores (Storage.mask mask) (cancelStakes round participants) := by
  unfold cancelStakes cancelPredictions
  repeat' first
    | infer_instance
    | exact .gets fun _ => rfl
    | split
    | refine .foldEach fun _ _ => ?_
    | refine .bind ?_ fun _ => ?_

instance (participants : List A) (tally : StakeTally) :
    Ignores (Storage.mask mask) (payCoverage participants tally) := by
  unfold payCoverage totalCoverage calculateCoverageAmount deductInsuranceCoverage
    setInsuranceFund distributeCoverage
  dsimp only
  repeat' first
    | infer_instance
    | exact .gets fun _ => rfl
    | split
    | refine .foldEach fun _ _ => ?_
    | refine .onlyIf ?_
    | refine .bind ?_ fun _ => ?_

omit [LinearOrder A] in
instance (mode : RuntimeMode) : Ignores (Control.mask mask) (setMode mode : ControlM A PUnit) :=
  .bind (.gets fun _ => rfl) fun _ => .onlyIf (.update fun _ => rfl)

omit [LinearOrder A] in
instance (bps : Option ℕ) :
    Ignores (Control.mask mask) (validateProtocolFeeBps bps : ControlM A PUnit) := by
  unfold validateProtocolFeeBps validateRate
  infer_instance

instance (bps : ℕ) : Ignores (Control.mask mask) (setInsuranceSplitBps bps : ControlM A PUnit) := by
  unfold setInsuranceSplitBps ensureNotPaused
  exact .bind inferInstance fun _ => .bind inferInstance fun _ => .bind inferInstance fun _ =>
    .update fun _ => rfl

instance (bps : ℕ) :
    Ignores (Control.mask mask) (setInsuranceCoverageBps bps : ControlM A PUnit) := by
  unfold setInsuranceCoverageBps ensureNotPaused
  exact .bind inferInstance fun _ => .bind inferInstance fun _ => .bind inferInstance fun _ =>
    .update fun _ => rfl

instance (action : GovAction A) : Ignores (Storage.mask mask) (performGovAction action) := by
  cases action with
  | pauseProtocol | unpauseProtocol | setInsuranceSplitBps | setInsuranceCoverageBps
  | setTreasuryAddress | withdrawProtocolFee | withdrawInsuranceFund =>
      unfold performGovAction
      infer_instance
  | setProtocolFeeBps bps =>
      exact ignores_onControl (.bind inferInstance fun _ => .update fun _ => rfl)
  | setAdmin newAdmin => exact ignores_onControl (.update fun _ => rfl)
  | setOracle newOracle => exact ignores_onControl (.update fun _ => rfl)

instance (executor : A) (proposalId : ℕ) :
    Ignores (Storage.mask mask) (execute executor proposalId) := by
  have hset : ∀ proposal, Ignores (Control.mask mask) (setGovProposal proposalId proposal) :=
    fun _ => .update fun _ => rfl
  have hread : Ignores (Control.mask mask) (readGovProposal proposalId : ControlM A _) :=
    .bind (.gets fun _ => rfl) inferInstance
  unfold execute
  infer_instance

omit [LinearOrder A] in
/-- Whether a call reads what a mask changes: an administrative call or one that submits a price
may. -/
def Call.readsMasked : Call A → Bool
  | .control _ | .resolveRound _ | .resolveRoundMulti _ => true
  | _ => false

/-- Every other call ignores a mask. -/
theorem Call.ignores_mask {call : Call A} (hplain : call.readsMasked = false) :
    Ignores (Storage.mask mask) call.exec := by
  cases call with
  | control | resolveRound | resolveRoundMulti => cases hplain
  | executeGovProposal executor proposalId =>
      exact inferInstanceAs (Ignores _ (execute executor proposalId))
  | _ =>
      simp only [Call.exec, XelmaMarket.migrateSchemaV1ToV2, XelmaMarket.migrateSchemaV2ToV3,
        migrationGate, XelmaMarket.withdrawProtocolFee, XelmaMarket.topUpInsuranceFund,
        setInsuranceFund, XelmaMarket.withdrawInsuranceFund,
        XelmaMarket.reclaimExpiredPendingWinnings, XelmaMarket.resetLeaderboardSeason,
        XelmaMarket.mintInitial, XelmaMarket.createNextFromTemplate, XelmaMarket.placeBet,
        setActiveRound, XelmaMarket.predictPrice, XelmaMarket.placePrecisionPrediction,
        XelmaMarket.commitPrediction, XelmaMarket.revealPrediction, XelmaMarket.cashOutEarly,
        XelmaMarket.cancelRound, XelmaMarket.voidRound, XelmaMarket.finalizeRound,
        readPendingDispute, removePendingDispute, XelmaMarket.claimWinnings,
        XelmaMarket.claimMany, ensureNotPaused, ensureNormalMode]
      repeat' first
        | infer_instance
        | exact .gets fun _ => rfl
        | exact .update fun _ => rfl
        | split
        | refine ignores_onControl ?_
        | refine .onlyIf ?_
        | refine .foldEach fun _ _ => ?_
        | refine .bind ?_ fun _ => ?_

end Settlements

end XelmaMarket
