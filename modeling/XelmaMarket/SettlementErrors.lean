import XelmaMarket.Oracle
import XelmaMarket.Lib.Avoidance

/-!
# What a settlement never fails with

An unhealthy heartbeat is reported by the first check of a single payload and nowhere else: neither
the later checks nor the settlement end with that error.
-/

namespace XelmaMarket

open Transaction

variable {A : Type}

/-- The error of the first heartbeat check. -/
abbrev heartbeatUnhealthy : Failure :=
  .err .oracleHeartbeatUnhealthy

/-! ## Arithmetic -/

theorem spares_checked {x : ℤ} {error : ContractError} (hother : error ≠ .oracleHeartbeatUnhealthy) :
    Spares heartbeatUnhealthy (checked x error) := by
  unfold checked
  split
  · infer_instance
  · exact .error fun h => hother (Failure.err.inj h)

theorem spares_checkedUint {width x : ℕ} {error : ContractError}
    (hother : error ≠ .oracleHeartbeatUnhealthy) :
    Spares heartbeatUnhealthy (checkedUint width x error) := by
  unfold checkedUint
  split
  · infer_instance
  · exact .error fun h => hother (Failure.err.inj h)

instance (x : ℤ) : Spares heartbeatUnhealthy (checked x .overflow) :=
  spares_checked nofun

instance (x : ℤ) : Spares heartbeatUnhealthy (checked x .payoutOverflow) :=
  spares_checked nofun

instance (width x : ℕ) : Spares heartbeatUnhealthy (checkedUint width x .overflow) :=
  spares_checkedUint nofun

instance (a b : ℤ) : Spares heartbeatUnhealthy (payoutAdd a b) :=
  spares_checked nofun

instance (a b : ℤ) : Spares heartbeatUnhealthy (payoutMul a b) :=
  spares_checked nofun

instance (a b : ℤ) : Spares heartbeatUnhealthy (divide a b) := by
  unfold divide
  split
  · infer_instance
  · exact .error nofun

instance (stats : UserStats) : Spares heartbeatUnhealthy stats.win := by
  unfold UserStats.win
  infer_instance

instance (stats : UserStats) : Spares heartbeatUnhealthy stats.loss := by
  unfold UserStats.loss
  infer_instance

instance (bps : Option ℕ) (model : FeeModel) (winningPool losingPool : ℤ) :
    Spares heartbeatUnhealthy (calculateProtocolFeeUpdown bps model winningPool losingPool) := by
  unfold calculateProtocolFeeUpdown
  split <;> infer_instance

instance (bps : Option ℕ) (model : FeeModel) (totalPot winnerStakes : ℤ) :
    Spares heartbeatUnhealthy (calculateProtocolFeePrecision bps model totalPot winnerStakes) := by
  have : Spares heartbeatUnhealthy (precisionTaxableBase model totalPot winnerStakes) := by
    unfold precisionTaxableBase
    split <;> infer_instance
  unfold calculateProtocolFeePrecision
  split <;> infer_instance

instance (stake winningPool totalDistributable : ℤ) : Spares heartbeatUnhealthy
    (computeUpdownWinnerPayout stake winningPool totalDistributable) := by
  unfold computeUpdownWinnerPayout
  infer_instance

instance [DecidableEq A] (rounds : Rounds A) (roundId finalPrice : ℕ) (participants : List A) :
    Spares heartbeatUnhealthy (scanPredictions rounds roundId finalPrice participants) := by
  refine .foldlM fun scan user => .bind inferInstance fun totalPot => ?_
  split <;> infer_instance

instance (winners : List (PrecisionPrediction A)) :
    Spares heartbeatUnhealthy (winnerStakes winners) := by
  unfold winnerStakes
  infer_instance

instance (paid : List ℤ × ℤ) (payout : ℤ) : Spares heartbeatUnhealthy (payOne paid payout) := by
  unfold payOne
  infer_instance

instance (policy : PrecisionPayoutPolicy) (winners : List (PrecisionPrediction A))
    (payoutPool : ℤ) : Spares heartbeatUnhealthy (splitPool policy winners payoutPool) := by
  cases policy with
  | equal =>
      unfold splitPool equalPayouts
      infer_instance
  | stakeWeighted =>
      unfold splitPool stakeWeightedPayouts
      infer_instance

instance (remainder : ℤ) (payouts : List ℤ) :
    Spares heartbeatUnhealthy (giveRemainder remainder payouts) := by
  cases payouts with
  | nil => exact inferInstanceAs (Spares heartbeatUnhealthy (pure _))
  | cons first rest =>
      unfold giveRemainder
      infer_instance

instance (policy : PrecisionPayoutPolicy) (winners : List (PrecisionPrediction A))
    (payoutPool : ℤ) :
    Spares heartbeatUnhealthy (calculatePrecisionPayouts policy winners payoutPool) := by
  unfold calculatePrecisionPayouts
  infer_instance

instance (samples : List PriceSample) (windowSamples : ℕ) :
    Spares heartbeatUnhealthy (twapReferencePrice samples windowSamples) := by
  have hfails : Spares heartbeatUnhealthy (.error (.err .windowOutOfRange) : Except Failure ℕ) :=
    .error nofun
  unfold twapReferencePrice
  split
  · exact hfails
  · refine .bind inferInstance fun sum => ?_
    split
    · exact hfails
    · infer_instance

instance (price reference : ℕ) : Spares heartbeatUnhealthy (deviationBps price reference) := by
  unfold deviationBps
  infer_instance

/-! ## Combinators -/

section Combinators

variable {σ α : Type}

theorem avoids_reject {condition : Prop} [Decidable condition] {error : ContractError}
    (hother : error ≠ .oracleHeartbeatUnhealthy) :
    Avoids heartbeatUnhealthy (reject condition error : Transaction (Env A) σ Failure PUnit) :=
  .failIf fun h => hother (Failure.err.inj h)

theorem avoids_orError {value : Option α} {error : ContractError}
    (hother : error ≠ .oracleHeartbeatUnhealthy) :
    Avoids heartbeatUnhealthy (orError value error : Transaction (Env A) σ Failure α) :=
  .orFail fun h => hother (Failure.err.inj h)

theorem avoids_requireAuth [DecidableEq A] (address : A) :
    Avoids heartbeatUnhealthy (requireAuth address : Transaction (Env A) σ Failure PUnit) where
  avoidsAt env s := by
    have htrap : Avoids heartbeatUnhealthy (failIf (address ∉ env.signers) .trap :
        Transaction (Env A) σ Failure PUnit) := .failIf nofun
    exact htrap.avoidsAt env s

instance (items : List α) (item : α) : Avoids heartbeatUnhealthy
    (pushBack items item : Transaction (Env A) σ Failure (List α)) :=
  .bind (.failIf nofun) inferInstance

instance : Avoids heartbeatUnhealthy (ledgerSequence : Transaction (Env A) σ Failure ℕ) :=
  inferInstanceAs (Avoids heartbeatUnhealthy (asks _))

instance : Avoids heartbeatUnhealthy (ledgerTimestamp : Transaction (Env A) σ Failure ℕ) :=
  inferInstanceAs (Avoids heartbeatUnhealthy (asks _))

instance (f : Vault A → Vault A) : Avoids heartbeatUnhealthy (updateVault f) :=
  inferInstanceAs (Avoids heartbeatUnhealthy (update _))

instance (f : Rounds A → Rounds A) : Avoids heartbeatUnhealthy (updateRounds f) :=
  inferInstanceAs (Avoids heartbeatUnhealthy (update _))

instance (f : Settings → Settings) :
    Avoids heartbeatUnhealthy (updateSettings f : ControlM A PUnit) :=
  inferInstanceAs (Avoids heartbeatUnhealthy (update _))

instance (m : ControlM A α) [Avoids heartbeatUnhealthy m] :
    Avoids heartbeatUnhealthy (onControl m) :=
  inferInstanceAs (Avoids heartbeatUnhealthy (zoom _ m))

instance (m : StatsM A α) [Avoids heartbeatUnhealthy m] : Avoids heartbeatUnhealthy (onStats m) :=
  inferInstanceAs (Avoids heartbeatUnhealthy (zoom _ m))

end Combinators

/-! ## Settlements -/

section Settlements

variable [LinearOrder A]

instance (record : UserStats → Except Failure UserStats) (user : A)
    [∀ stats, Spares heartbeatUnhealthy (record stats)] :
    Avoids heartbeatUnhealthy (updateStats record user) := by
  have hseason : Avoids heartbeatUnhealthy (updateSeasonStats record user) := by
    unfold updateSeasonStats updateSeasonLeaderboards
    infer_instance
  unfold updateStats updateLeaderboards
  infer_instance

instance (user : A) : Avoids heartbeatUnhealthy (updateStatsWin user) :=
  inferInstanceAs (Avoids heartbeatUnhealthy (updateStats _ user))

instance (user : A) : Avoids heartbeatUnhealthy (updateStatsLoss user) :=
  inferInstanceAs (Avoids heartbeatUnhealthy (updateStats _ user))

instance (user : A) (amount : ℤ) : Avoids heartbeatUnhealthy (accumulatePending user amount) := by
  have hcap : ∀ newPending cap : ℤ, Avoids heartbeatUnhealthy
      (reject (newPending > cap) .pendingWinningsCapExceeded : ContractM A PUnit) :=
    fun _ _ => avoids_reject nofun
  unfold accumulatePending
  infer_instance

instance (roundId : ℕ) (record : UserRoundOutcome A) :
    Avoids heartbeatUnhealthy (persistUserOutcome roundId record) := by
  unfold persistUserOutcome
  infer_instance

instance (roundId : ℕ) (record : UserRoundOutcome A) :
    Avoids heartbeatUnhealthy (creditOutcome roundId record) := by
  unfold creditOutcome
  infer_instance

omit [LinearOrder A] in
instance (fee : ℤ) : Avoids heartbeatUnhealthy (collectProtocolFee fee : ContractM A PUnit) := by
  have hinsurance : Avoids heartbeatUnhealthy (collectInsuranceFee fee : ContractM A ℤ) := by
    unfold collectInsuranceFee setInsuranceFund
    infer_instance
  have htreasury : Avoids heartbeatUnhealthy (readTreasury : ContractM A ℤ) := by
    refine .bind inferInstance fun entry => ?_
    split
    · infer_instance
    · infer_instance
    · exact .fail nofun
  unfold collectProtocolFee setTreasury
  infer_instance

instance (round : Round) (status : RoundArchiveStatus) (finalPrice : ℕ) (participants : List A)
    (fee : ℤ) (confidence : Option ℕ) : Avoids heartbeatUnhealthy
      (archiveRound round status finalPrice participants fee confidence) := by
  unfold archiveRound indexParticipants
  infer_instance

instance {β : Type} (roundId : ℕ) (outcome : UserOutcomeType) (addUp : β → ℤ → Except Failure β)
    (initial : β) (participants : List A) [∀ total stake, Spares heartbeatUnhealthy
      (addUp total stake)] : Avoids heartbeatUnhealthy
        (refundPositions roundId outcome addUp initial participants) := by
  refine .foldEach fun total user => .bind inferInstance fun stored => ?_
  split <;> infer_instance

instance {β : Type} (roundId : ℕ) (outcome : UserOutcomeType) (price : Rounds A → A → ℕ)
    (addUp : β → ℤ → Except Failure β) (initial : β) (participants : List A)
    [∀ total stake, Spares heartbeatUnhealthy (addUp total stake)] : Avoids heartbeatUnhealthy
      (refundPredictions roundId outcome price addUp initial participants) := by
  unfold refundPredictions
  infer_instance

instance (total : Unit) (stake : ℤ) : Spares heartbeatUnhealthy (addNothing total stake) :=
  inferInstanceAs (Spares heartbeatUnhealthy (pure ()))

instance (roundId : ℕ) (winningSide : BetSide) (winningPool totalDistributable : ℤ) (user : A) :
    Avoids heartbeatUnhealthy
      (recordWinning roundId winningSide winningPool totalDistributable user) := by
  unfold recordWinning
  infer_instance

instance (roundId : ℕ) (participants : List A) (winningSide : BetSide)
    (winningPool losingPool : ℤ) : Avoids heartbeatUnhealthy
      (recordWinningsIndexed roundId participants winningSide winningPool losingPool) := by
  unfold recordWinningsIndexed applyProtocolFeeUpdown
  infer_instance

instance (round : Round) (finalPrice : ℕ) :
    Avoids heartbeatUnhealthy (resolveUpdownMode round finalPrice : ContractM A _) := by
  refine .bind inferInstance fun participants => ?_
  dsimp only
  unfold applyOneSidedPolicy recordRefundsIndexed
  repeat' first | infer_instance | split

omit [LinearOrder A] in
instance (totalPot winnerStakes : ℤ) : Avoids heartbeatUnhealthy
    (applyProtocolFeePrecision totalPot winnerStakes : ContractM A _) := by
  unfold applyProtocolFeePrecision
  infer_instance

instance (roundId : ℕ) (winners : List (PrecisionPrediction A)) (payouts : List ℤ) :
    Avoids heartbeatUnhealthy (payPrecisionWinners roundId winners payouts) := by
  unfold payPrecisionWinners
  infer_instance

instance (roundId : ℕ) (participants : List A) (scan : PrecisionScan A) :
    Avoids heartbeatUnhealthy (recordPrecisionLosers roundId participants scan) := by
  unfold recordPrecisionLosers
  infer_instance

instance (roundId : ℕ) (participants : List A) (scan : PrecisionScan A) :
    Avoids heartbeatUnhealthy (refundUnrevealed roundId participants scan) := by
  unfold refundUnrevealed
  infer_instance

instance (roundId finalPrice : ℕ) :
    Avoids heartbeatUnhealthy (resolvePrecisionMode roundId finalPrice : ContractM A _) := by
  unfold resolvePrecisionMode
  dsimp only
  repeat' first
    | infer_instance
    | split
    | refine .bind ?_ fun _ => ?_

instance (round : Round) (finalPrice : ℕ) (confidence : Option ℕ) : Avoids heartbeatUnhealthy
    (completeSettlement round finalPrice confidence : ContractM A _) := by
  have hmode : Avoids heartbeatUnhealthy (settleMode round finalPrice : ContractM A ℤ) := by
    unfold settleMode
    split <;> infer_instance
  unfold completeSettlement
  infer_instance

instance (round : Round) (finalPrice : ℕ) (confidence : Option ℕ) : Avoids heartbeatUnhealthy
    (settleRoundWithPrice round finalPrice confidence : ContractM A _) := by
  unfold settleRoundWithPrice refundUnderThreshold refundStakesUnderThreshold stageSettlement
  cases round.mode <;> infer_instance

end Settlements

/-! ## Checks -/

section Checks

instance : Avoids heartbeatUnhealthy
    (readActiveRound .noActiveRound : ContractM A Round) :=
  .bind inferInstance fun _ => avoids_orError nofun

instance [DecidableEq A] (round : Round) (payloadRoundId : ℕ) (networkId : BytesN 32)
    (contractAddr : A) : Avoids heartbeatUnhealthy
      (checkPayloadBinding round payloadRoundId networkId contractAddr) :=
  .bind inferInstance fun _ => .bind (avoids_reject nofun) fun _ =>
    .bind (avoids_reject nofun) fun _ => avoids_reject nofun

/-- Under the key of a config nothing is read that fails but with a trap. -/
instance : Avoids heartbeatUnhealthy (loadHbConfig : ControlM A HbGateConfig) := by
  refine .bind ?_ fun entry => ?_
  · unfold readConfigEntry
    infer_instance
  · split
    · infer_instance
    · infer_instance
    · exact .fail nofun

instance : Avoids heartbeatUnhealthy (loadDeviationConfig : ControlM A DeviationConfig) := by
  refine .bind ?_ fun entry => ?_
  · unfold readConfigEntry
    infer_instance
  · split
    · infer_instance
    · infer_instance
    · exact .fail nofun

instance : Avoids heartbeatUnhealthy (loadAttestationConfig : ControlM A AttestationConfig) := by
  refine .bind ?_ fun entry => ?_
  · unfold readConfigEntry
    infer_instance
  · split
    · infer_instance
    · infer_instance
    · exact .fail nofun

instance [DecidableEq A] (payload : OraclePayload A) :
    Avoids heartbeatUnhealthy (verifyAttestation payload) :=
  .bind inferInstance fun _ => .bind inferInstance fun _ => .onSome fun _ =>
    .bind (avoids_orError nofun) fun _ => .failIf nofun

instance (round : Round) (timestamp : ℕ) :
    Avoids heartbeatUnhealthy (checkTimestampWindow round timestamp : ContractM A PUnit) :=
  .bind inferInstance fun _ => .bind (avoids_reject nofun) fun _ => .bind inferInstance fun _ =>
    .bind (avoids_reject nofun) fun _ => .bind inferInstance fun _ => .bind inferInstance fun _ =>
      avoids_reject nofun

instance (round : Round) (price : ℕ) :
    Avoids heartbeatUnhealthy (checkDeviation round price : ContractM A PUnit) := by
  refine .bind inferInstance fun _ => .onSome fun _ => .bind inferInstance fun config => ?_
  refine .bind ?_ fun _ => .bind (avoids_reject nofun) fun _ => .bind inferInstance fun _ =>
    .bind inferInstance fun _ => .bind (avoids_reject nofun) inferInstance
  unfold referencePrice
  split <;> infer_instance

instance (confidence : Option ℕ) :
    Avoids heartbeatUnhealthy (checkConfidence confidence : ContractM A PUnit) :=
  .bind inferInstance fun _ => .bind inferInstance fun _ => .onSome fun _ => avoids_reject nofun

instance (roundId nonce : ℕ) :
    Avoids heartbeatUnhealthy (consumeNonce roundId nonce : ContractM A PUnit) :=
  .bind inferInstance fun _ => .bind (avoids_reject nofun) inferInstance

instance : Avoids heartbeatUnhealthy (heartbeatGate : ContractM A PUnit) := by
  refine .bind inferInstance fun _ => .bind inferInstance fun _ => .bind inferInstance fun _ => ?_
  refine .onlyIf (.bind (avoids_reject nofun) fun _ => ?_)
  unfold consumeHbOverride saveHbConfig writeConfigEntry
  infer_instance

instance (round : Round) :
    Avoids heartbeatUnhealthy (enforceRoundEnded round : ContractM A PUnit) :=
  .bind inferInstance fun _ => avoids_reject nofun

instance (price timestamp : ℕ) :
    Avoids heartbeatUnhealthy (recordTwapSample price timestamp : ContractM A PUnit) :=
  inferInstanceAs (Avoids heartbeatUnhealthy (update _))

end Checks

end XelmaMarket
