import XelmaMarket.Script

/-!
# The emergency pause

Which action class the policy gate lists every entrypoint under, and what a fully paused contract
still lets through.
-/

namespace XelmaMarket

open Transaction

variable {A : Type}

/-- The action class an administrative entrypoint is listed under. -/
def ControlCall.policyAction : ControlCall A → Option PolicyAction
  | .applyScheduledChanges _ => some .roundMutation
  | .armOracleDeviationOverride | .setOracleMinConfidenceBps _ | .setOracleStrictMode _
  | .setHbStrictMode _ | .armHbOverride | .setHbGraceSeconds _ | .proposeOracleRotation ..
  | .acceptOracleRotation | .cancelOracleRotation | .scheduleWindows .. | .scheduleMaxStake _
  | .scheduleMinBet _ | .scheduleMaxUserExposure _ | .scheduleMaxPendingWinnings _
  | .scheduleOracleStaleThreshold _ | .scheduleOracleDeviationBps _
  | .scheduleOracleTimestampSkew _ | .scheduleProtocolFeeBps _ | .schedulePendingWinningsExpiry _
  | .cancelConfigChange _ | .setMinParticipants _ | .setMaxPrecisionParticipants _
  | .setMintLimit _ | .setArchiveRetention _ | .setCloseBufferLedgers _ | .setRoundTemplate ..
  | .clearRoundTemplate => some .adminConfig
  | _ => none

/-- The action class an entrypoint is listed under in the inventory of the policy gate. The
settlements, claims and bets added since belong to the class of their kind. -/
def Call.policyAction : Call A → Option PolicyAction
  | .control call => call.policyAction
  | .placeBet .. | .placePrecisionPrediction .. | .predictPrice .. | .commitPrediction ..
  | .revealPrediction .. | .mintInitial _ | .cashOutEarly _ => some .roundMutation
  | .claimWinnings _ | .claimMany _ => some .claim
  | .resolveRound _ | .resolveRoundMulti _ | .cancelRound _ | .voidRound _ | .finalizeRound _ =>
      some .settlement
  | .migrateSchemaV1ToV2 _ | .migrateSchemaV2ToV3 _ | .withdrawProtocolFee ..
  | .resetLeaderboardSeason | .createRound .. | .createNextFromTemplate => some .adminConfig
  | .executeGovProposal .. | .topUpInsuranceFund _ | .withdrawInsuranceFund ..
  | .reclaimExpiredPendingWinnings _ => none

/-- The emergency mode blocks every action class. -/
theorem blocks_of_paused {mode : RuntimeMode} (hpaused : mode = .fullyPaused)
    (action : PolicyAction) : mode.blocks action := by
  subst hpaused
  cases action <;> simp [RuntimeMode.blocks]

section Calls

variable {env : Env A} {control : Control A}

/-- The gate of any action class does not return from a paused contract. -/
theorem ensures_policyGate_of_paused (hpaused : control.settings.currentMode = .fullyPaused)
    (action : PolicyAction) (post : PUnit → Control A → Prop) :
    Ensures (policyGate action) env control post ↔ True := by
  simp [blocks_of_paused hpaused]

/-- A listed administrative call does not return from a paused contract. -/
theorem ControlCall.ensures_blocked [DecidableEq A]
    (hpaused : control.settings.currentMode = .fullyPaused) {call : ControlCall A}
    (hlisted : call.policyAction.isSome = true) :
    Ensures call.exec env control fun _ _ => False := by
  have hgate := @ensures_policyGate_of_paused _ env _ hpaused
  cases call with
  | applyScheduledChanges kind =>
      simp [ControlCall.exec, XelmaMarket.applyScheduledChanges, ensureNormalMode, ↓ensures_bind,
        ↓ensures_requireSupportedSchema, ↓hgate]
  | scheduleWindows | scheduleMaxStake | scheduleMinBet | scheduleMaxUserExposure
  | scheduleMaxPendingWinnings | scheduleOracleStaleThreshold | scheduleOracleDeviationBps
  | scheduleOracleTimestampSkew | scheduleProtocolFeeBps | schedulePendingWinningsExpiry =>
      refine (ensures_bind _ _).mpr ((ensures_requireSupportedSchema _).mpr fun _ => ?_)
      refine (validateConfigPayload_spec _).bind ?_
      rintro _ _ ⟨rfl, -⟩
      simp [scheduleConfigChange, ensureNotPaused, ↓ensures_bind, ↓ensures_authorizedAdmin, ↓hgate]
  | setMinParticipants | setMaxPrecisionParticipants | setMintLimit | setArchiveRetention
  | setCloseBufferLedgers =>
      simp [ControlCall.exec, XelmaMarket.setMinParticipants,
        XelmaMarket.setMaxPrecisionParticipants, XelmaMarket.setMintLimit,
        XelmaMarket.setArchiveRetention, XelmaMarket.setCloseBufferLedgers, setNow, adminGate,
        ensureNotPaused, ↓ensures_bind, ↓ensures_requireSupportedSchema,
        ↓ensures_authorizedAdmin, ↓hgate]
  | armOracleDeviationOverride | setOracleMinConfidenceBps | setOracleStrictMode
  | setHbStrictMode | armHbOverride | setHbGraceSeconds | proposeOracleRotation
  | acceptOracleRotation | cancelOracleRotation | cancelConfigChange | setRoundTemplate
  | clearRoundTemplate =>
      simp [ControlCall.exec, XelmaMarket.armOracleDeviationOverride,
        XelmaMarket.setOracleMinConfidenceBps, XelmaMarket.setOracleStrictMode,
        XelmaMarket.setHbStrictMode, XelmaMarket.armHbOverride, XelmaMarket.setHbGraceSeconds,
        XelmaMarket.proposeOracleRotation, XelmaMarket.acceptOracleRotation,
        XelmaMarket.cancelOracleRotation, XelmaMarket.cancelConfigChange,
        XelmaMarket.setRoundTemplate, XelmaMarket.clearRoundTemplate, adminGate, ensureNotPaused,
        ↓ensures_bind, ↓ensures_requireSupportedSchema, ↓ensures_authorizedAdmin, ↓hgate]
  | _ => cases hlisted

/-- A listed call other than a cancellation does not return from a paused contract. -/
theorem Call.ensures_blocked [LinearOrder A] {s : Storage A}
    (hpaused : s.control.settings.currentMode = .fullyPaused) {call : Call A}
    (hlisted : call.policyAction.isSome = true) (hother : ∀ reason, call ≠ .cancelRound reason) :
    Ensures call.exec env s fun _ _ => False := by
  have hgate := @ensures_policyGate_of_paused _ env _ hpaused
  cases call with
  | control call =>
      rw [Call.exec, ensures_onControl]
      exact (call.ensures_blocked hpaused hlisted).mono fun _ _ hfalse => hfalse
  | cancelRound reason => exact absurd rfl (hother reason)
  | placeBet | placePrecisionPrediction | predictPrice | commitPrediction | revealPrediction
  | mintInitial | cashOutEarly =>
      simp [Call.exec, discardResult, XelmaMarket.placeBet, XelmaMarket.placePrecisionPrediction,
        XelmaMarket.predictPrice, XelmaMarket.commitPrediction, XelmaMarket.revealPrediction,
        XelmaMarket.mintInitial, XelmaMarket.cashOutEarly, ensureNormalMode, ↓ensures_bind,
        ↓ensures_onControl, ↓ensures_requireSupportedSchema, ↓ensures_requireAuth, ↓hgate]
  | claimWinnings | claimMany | voidRound | finalizeRound =>
      simp [Call.exec, discardResult, XelmaMarket.claimWinnings, XelmaMarket.claimMany,
        XelmaMarket.voidRound, XelmaMarket.finalizeRound, ensureNotPaused, ↓ensures_bind,
        ↓ensures_onControl, ↓ensures_requireSupportedSchema, ↓ensures_requireAuth, ↓hgate]
  | resolveRound | resolveRoundMulti =>
      simp [Call.exec, XelmaMarket.resolveRound, XelmaMarket.resolveRoundMulti, authorizedOracle,
        ensureNotPaused, ↓ensures_bind, ↓ensures_onControl, ↓ensures_requireSupportedSchema,
        ↓ensures_reject, ↓ensures_gets, ↓ensures_orError, ↓ensures_requireAuth, ↓ensures_pure,
        ↓hgate]
  | migrateSchemaV1ToV2 | migrateSchemaV2ToV3 | withdrawProtocolFee | resetLeaderboardSeason
  | createRound | createNextFromTemplate =>
      simp [Call.exec, discardResult, XelmaMarket.migrateSchemaV1ToV2,
        XelmaMarket.migrateSchemaV2ToV3, migrationGate, XelmaMarket.withdrawProtocolFee,
        XelmaMarket.resetLeaderboardSeason, XelmaMarket.createRound,
        XelmaMarket.createNextFromTemplate, adminGate, ensureNotPaused, ↓ensures_bind,
        ↓ensures_onControl, ↓ensures_requireSupportedSchema, ↓ensures_authorizedAdmin,
        ↓ensures_reject, ↓ensures_gets, ↓ensures_orError, ↓hgate]
  | executeGovProposal | topUpInsuranceFund | withdrawInsuranceFund
  | reclaimExpiredPendingWinnings => cases hlisted

end Calls

/-- A bet is placed in a round, and the administrator pauses the contract. -/
def pausedRound : List (Action ℕ) := trialSetup ++ [
  .invoke [1] (.createRound 100 (some 0)),
  .invoke [3] (.placeBet 3 70 .up),
  .invoke [1] (.control .pauseContract)]

end XelmaMarket
