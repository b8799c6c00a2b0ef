import XelmaMarket.Closing
import XelmaMarket.BatchClaims

/-!
# Transfers

What the calls that move amounts without ending a round can fail with. In a healthy storage their
sums and differences are in range, so that an overflow has another reason: the exposure a stake
would bring its user to.
-/

namespace XelmaMarket

open Transaction

variable {A : Type} [LinearOrder A]

/-! ## Overflows with another reason -/

/-- The failure is no overflow, save for the reason. -/
def NoOverflow (reason : Prop) (failure : Failure) : Prop :=
  failure ≠ .err .payoutOverflow ∧ (failure = .err .overflow → reason)

section Reason

variable {reason : Prop}

@[simp] theorem noOverflow_trap : NoOverflow reason .trap :=
  ⟨nofun, nofun⟩

/-- With a reason an overflow is permitted. -/
theorem noOverflow_overflow (hreason : reason) : NoOverflow reason (.err .overflow) :=
  ⟨nofun, fun _ => hreason⟩

/-- Every other error is no overflow. -/
theorem noOverflow_err {error : ContractError}
    (hplain : (error == .payoutOverflow || error == .overflow) = false) :
    NoOverflow reason (.err error) := by
  rw [Bool.or_eq_false_iff, beq_eq_false_iff_ne, beq_eq_false_iff_ne] at hplain
  exact ⟨fun h => hplain.1 (Failure.err.inj h), fun h => absurd (Failure.err.inj h) hplain.2⟩

end Reason

/-! ## The guards of a call -/

section Guards

variable {reason : Prop} {env : Env A} {s : Storage A} {user : A}

omit [LinearOrder A] in
theorem requireSupportedSchema_failsOnly :
    FailsOnly (NoOverflow reason) (onControl requireSupportedSchema) env s fun _ s' => s' = s := by
  simp only [requireSupportedSchema, failsOnly_onControl, failsOnly_bind, failsOnly_gets,
    failsOnly_reject, failsOnly_pure]
  exact ⟨fun _ => noOverflow_err rfl, fun _ => trivial⟩

omit [LinearOrder A] in
theorem policyGate_failsOnly (action : PolicyAction) :
    FailsOnly (NoOverflow reason) (onControl (policyGate action)) env s fun _ s' => s' = s := by
  simp only [policyGate, failsOnly_onControl, failsOnly_bind, failsOnly_gets, failsOnly_reject]
  exact ⟨fun _ => noOverflow_err rfl, fun _ => trivial⟩

omit [LinearOrder A] in
theorem requireAuth_failsOnly [DecidableEq A] :
    FailsOnly (NoOverflow reason) (requireAuth user) env s fun _ s' => s' = s := by
  rw [failsOnly_requireAuth]
  exact ⟨fun _ => noOverflow_trap, fun _ => rfl⟩

omit [LinearOrder A] in
theorem enforceAccessControl_failsOnly [DecidableEq A] :
    FailsOnly (NoOverflow reason) (onControl (enforceAccessControl user)) env s
      fun _ s' => s' = s := by
  simp only [enforceAccessControl, failsOnly_onControl, failsOnly_bind, failsOnly_gets,
    failsOnly_reject]
  exact ⟨fun _ => noOverflow_err rfl, fun _ =>
    ⟨fun _ => noOverflow_err rfl, fun _ => trivial⟩⟩

omit [LinearOrder A] in
theorem authorizedAdmin_failsOnly [DecidableEq A] :
    FailsOnly (NoOverflow reason) (onControl authorizedAdmin) env s fun _ s' => s' = s := by
  simp only [authorizedAdmin, failsOnly_onControl, failsOnly_bind, failsOnly_gets,
    failsOnly_orError, failsOnly_requireAuth, failsOnly_pure]
  exact ⟨fun _ => noOverflow_err rfl, fun _ _ => ⟨fun _ => noOverflow_trap, fun _ => trivial⟩⟩

omit [LinearOrder A] in
theorem adminGate_failsOnly [DecidableEq A] :
    FailsOnly (NoOverflow reason) (onControl adminGate) env s fun _ s' => s' = s := by
  simp only [adminGate, requireSupportedSchema, authorizedAdmin, ensureNotPaused, policyGate,
    failsOnly_onControl, failsOnly_bind, failsOnly_gets, failsOnly_reject, failsOnly_orError,
    failsOnly_requireAuth, failsOnly_pure]
  exact ⟨fun _ => noOverflow_err rfl, fun _ => ⟨fun _ => noOverflow_err rfl,
    fun _ _ => ⟨fun _ => noOverflow_trap, fun _ =>
      ⟨fun _ => noOverflow_err rfl, fun _ => trivial⟩⟩⟩⟩

end Guards

/-! ## Amounts within the supply -/

/-- The accounts fit together: none is negative, and a balance with everything outside the balances
is within the supply. -/
structure Storage.WithinSupply (s : Storage A) : Prop where
  balance : ∀ user, 0 ≤ s.vault.balanceOf user
  pending : ∀ user, 0 ≤ s.vault.pendingOf user ∧ s.vault.pendingOf user ≤ s.vault.pendingTotal
  treasury : 0 ≤ s.vault.treasury
  fund : 0 ≤ s.vault.insuranceFund
  escrow : 0 ≤ s.rounds.escrow
  supply : ∀ user, s.vault.balanceOf user + s.vault.pendingTotal + s.vault.treasury +
    s.vault.insuranceFund + s.rounds.escrow ≤ supplyLimit

/-- The accounts of a healthy storage fit together. -/
theorem Storage.Healthy.withinSupply {s : Storage A} {ledger : Ledger}
    (hhealthy : s.Healthy ledger.sequence) : s.WithinSupply where
  balance := hhealthy.solvent.balanceOf_nonneg
  pending user := by
    refine ⟨hhealthy.solvent.pendingOf_nonneg user, ?_⟩
    have hsum := Store.sum_weight_le_total (fun _ amount => amount) hhealthy.solvent.pending {user}
    rw [Finset.sum_singleton, Store.weight_eq_getD] at hsum
    exact hsum
  treasury := hhealthy.solvent.treasury
  fund := hhealthy.solvent.fund
  escrow := hhealthy.ordered.escrow_nonneg
  supply user := by
    have hsupply := hhealthy.bounded.user_supply_le hhealthy.solvent hhealthy.paced
      ledger.sequence_lt user
    have hwealth := @balanceOf_le_wealth _ s.vault user
    omega

section Transfers

variable {reason : Prop} {env : Env A} {s : Storage A} {recipient user : A} {amount : ℤ}

theorem supplyLimit_room : i128Min ≤ 0 ∧ 2 * supplyLimit ≤ i128Max := by
  decide

omit [LinearOrder A] in
/-- An amount in range passes the check, and another may fail it as permitted. -/
theorem yields_checked {permitted : Failure → Prop} {x : ℤ} {error : ContractError}
    {post : ℤ → Prop} (hfits : permitted (.err error) ∨ 0 ≤ x ∧ x ≤ i128Max) (hpost : post x) :
    Yields permitted (checked x error) post := by
  unfold checked
  split
  · exact hpost
  · refine hfits.resolve_right fun h => ?_
    have hmin := supplyLimit_room.1
    omega

omit [LinearOrder A] in
theorem yields_payoutAdd {permitted : Failure → Prop} {a b : ℤ} {post : ℤ → Prop}
    (hnonneg : 0 ≤ a + b) (hfits : a + b ≤ i128Max) (hpost : post (a + b)) :
    Yields permitted (payoutAdd a b) post :=
  yields_checked (.inr ⟨hnonneg, hfits⟩) hpost

/-- A withdrawal of fees stays in range. -/
theorem failsOnly_executeWithdrawFee (hsupply : s.WithinSupply)
    (hreadable : s.vault.TreasuryReadable) :
    FailsOnly (NoOverflow reason) (executeWithdrawFee recipient amount) env s
      fun _ _ => True := by
  have htotal := hsupply.supply recipient
  have hbalance := hsupply.balance recipient
  have hpending := hsupply.pending recipient
  have hfund := hsupply.fund
  have hescrow := hsupply.escrow
  obtain ⟨hmin, hroom⟩ := supplyLimit_room
  simp only [executeWithdrawFee, failsOnly_bind, failsOnly_reject]
  refine ⟨fun _ => noOverflow_err rfl, fun hpos => ?_⟩
  refine FailsOnly.mono (returns_readTreasury hreadable).failsOnly ?_
  rintro value s₁ ⟨hvalue, rfl⟩
  refine ⟨fun _ => noOverflow_err rfl, fun hcovered => ?_⟩
  simp only [failsOnly_liftM, setTreasury, setBalance, failsOnly_updateVault, failsOnly_gets,
    failsOnly_pure]
  refine yields_checked (.inl (noOverflow_err rfl)) (yields_payoutAdd ?_ ?_ trivial)
  · show 0 ≤ s₁.vault.balanceOf recipient + amount
    omega
  · show s₁.vault.balanceOf recipient + amount ≤ i128Max
    omega

/-- A withdrawal from the fund stays in range. -/
theorem failsOnly_executeWithdrawInsuranceFund (hsupply : s.WithinSupply) :
    FailsOnly (NoOverflow reason) (executeWithdrawInsuranceFund recipient amount) env s
      fun _ _ => True := by
  have htotal := hsupply.supply recipient
  have hbalance := hsupply.balance recipient
  have hpending := hsupply.pending recipient
  have htreasury := hsupply.treasury
  have hescrow := hsupply.escrow
  obtain ⟨hmin, hroom⟩ := supplyLimit_room
  simp only [executeWithdrawInsuranceFund, failsOnly_bind, failsOnly_reject, failsOnly_gets]
  refine ⟨fun _ => noOverflow_err rfl, fun hpos =>
    ⟨fun _ => noOverflow_err rfl, fun hcovered => ?_⟩⟩
  simp only [failsOnly_liftM, setInsuranceFund, setBalance, failsOnly_updateVault,
    failsOnly_pure]
  refine yields_checked (.inl (noOverflow_err rfl)) (yields_payoutAdd ?_ ?_ trivial)
  · show 0 ≤ s.vault.balanceOf recipient + amount
    omega
  · show s.vault.balanceOf recipient + amount ≤ i128Max
    omega

/-- A top-up of the fund stays in range. -/
theorem failsOnly_topUpInsuranceFund (hsupply : s.WithinSupply) :
    FailsOnly (NoOverflow reason) (topUpInsuranceFund amount) env s fun _ _ => True := by
  refine authorizedAdmin_failsOnly.guard fun admin => (policyGate_failsOnly _).guard fun _ => ?_
  have htotal := hsupply.supply admin
  have hpending := hsupply.pending admin
  have htreasury := hsupply.treasury
  have hfund := hsupply.fund
  have hescrow := hsupply.escrow
  obtain ⟨hmin, hroom⟩ := supplyLimit_room
  simp only [failsOnly_bind, failsOnly_reject, failsOnly_gets]
  refine ⟨fun _ => noOverflow_err rfl, fun hpos =>
    ⟨fun _ => noOverflow_err rfl, fun hcovered => ?_⟩⟩
  simp only [failsOnly_liftM, setInsuranceFund, setBalance, failsOnly_updateVault]
  refine yields_checked (.inl (noOverflow_err rfl)) (yields_checked (.inr ⟨?_, ?_⟩) trivial)
  · show 0 ≤ s.vault.insuranceFund + amount
    omega
  · show s.vault.insuranceFund + amount ≤ i128Max
    omega

/-- A reclaim stays in range. -/
theorem failsOnly_reclaimExpiredPendingWinnings (hsupply : s.WithinSupply) :
    FailsOnly (NoOverflow reason) (reclaimExpiredPendingWinnings user) env s fun _ _ => True := by
  refine adminGate_failsOnly.guard fun admin => ?_
  have htotal := hsupply.supply admin
  have hbalance := hsupply.balance admin
  have hpending := hsupply.pending user
  have htreasury := hsupply.treasury
  have hfund := hsupply.fund
  have hescrow := hsupply.escrow
  obtain ⟨hmin, hroom⟩ := supplyLimit_room
  simp only [failsOnly_bind, failsOnly_reject, failsOnly_gets, failsOnly_orError,
    failsOnly_ledgerSequence, failsOnly_updateVault, failsOnly_liftM, setBalance, failsOnly_pure]
  refine ⟨fun _ => noOverflow_err rfl, fun _ => ⟨fun _ => noOverflow_err rfl,
    fun _ => ⟨fun _ => noOverflow_err rfl, fun updatedAt _ =>
      ⟨fun _ => noOverflow_err rfl, fun _ => yields_payoutAdd ?_ ?_ trivial⟩⟩⟩⟩
  · show 0 ≤ s.vault.balanceOf admin + s.vault.pendingOf user
    omega
  · show s.vault.balanceOf admin + s.vault.pendingOf user ≤ i128Max
    omega

omit [LinearOrder A] in
/-- A mint stays in range. -/
theorem failsOnly_mintInitial [DecidableEq A] :
    FailsOnly (NoOverflow reason) (mintInitial user) env s fun _ _ => True := by
  refine requireAuth_failsOnly.guard fun _ => requireSupportedSchema_failsOnly.guard fun _ =>
    (policyGate_failsOnly _).guard fun _ => enforceAccessControl_failsOnly.guard fun _ => ?_
  simp only [failsOnly_bind, failsOnly_gets]
  split
  · trivial
  · have hlimit : FailsOnly (NoOverflow reason) enforceMintLimit env s fun _ _ => True := by
      simp only [enforceMintLimit, failsOnly_bind, failsOnly_ledgerSequence, failsOnly_gets,
        failsOnly_onSome, failsOnly_onlyIf, failsOnly_reject, failsOnly_update]
      exact ⟨fun _ _ => ⟨fun _ => ⟨fun _ => noOverflow_err rfl, fun _ => trivial⟩,
        fun _ => trivial⟩, fun _ => trivial⟩
    refine hlimit.bind fun _ s₁ _ => ?_
    simp only [enforceEpochBudget, failsOnly_bind, failsOnly_ledgerSequence, failsOnly_gets,
      failsOnly_onlyIf, failsOnly_liftM, failsOnly_reject, failsOnly_update, setBalance,
      failsOnly_updateVault, failsOnly_pure]
    exact ⟨fun _ => yields_checked (.inl (noOverflow_err rfl))
      ⟨fun _ => noOverflow_err rfl, fun _ => trivial⟩, fun _ => trivial⟩

/-! ## Stakes -/

/-- The exposure an additional stake would bring a user to in the active round is out of range. -/
def Rounds.ExposureOverflows (rounds : Rounds A) (user : A) (amount : ℤ) : Prop :=
  ∃ round, rounds.activeRound = some round ∧
    i128Max < userRoundExposure rounds round.roundId user + amount

omit [LinearOrder A] in
theorem enforceMinBet_failsOnly :
    FailsOnly (NoOverflow reason) (enforceMinBet amount) env s fun _ s' => s' = s := by
  simp only [enforceMinBet, failsOnly_bind, failsOnly_gets, failsOnly_onSome, failsOnly_reject]
  exact ⟨fun _ _ => ⟨fun _ => noOverflow_err rfl, fun _ => trivial⟩, fun _ => trivial⟩

omit [LinearOrder A] in
theorem enforceMaxStake_failsOnly :
    FailsOnly (NoOverflow reason) (enforceMaxStake amount) env s fun _ s' => s' = s := by
  simp only [enforceMaxStake, failsOnly_bind, failsOnly_gets, failsOnly_onSome, failsOnly_reject]
  exact ⟨fun _ _ => ⟨fun _ => noOverflow_err rfl, fun _ => trivial⟩, fun _ => trivial⟩

omit [LinearOrder A] in
theorem readActiveRound_failsOnly (error : ContractError)
    (hplain : (error == .payoutOverflow || error == .overflow) = false) :
    FailsOnly (NoOverflow reason) (readActiveRound error) env s fun round s' =>
      s.rounds.activeRound = some round ∧ s' = s := by
  simp only [readActiveRound, failsOnly_bind, failsOnly_gets, failsOnly_orError]
  exact ⟨fun _ => noOverflow_err hplain, fun _ h => ⟨h, trivial⟩⟩

/-- The exposure of a user is not negative. -/
theorem userRoundExposure_nonneg {round : Round} (hbook : Represents s.rounds round) :
    0 ≤ userRoundExposure s.rounds round.roundId user := by
  have hadd : ∀ a b : ℤ, 0 ≤ a → 0 ≤ b → 0 ≤ saturatingAdd a b := fun a b ha hb =>
    le_max_of_le_right (le_min (by decide) (add_nonneg ha hb))
  have hposition : 0 ≤ (s.rounds.position.get (round.roundId, user)).elim 0 (·.amount) := by
    cases hget : s.rounds.position.get (round.roundId, user) with
    | none => exact le_rfl
    | some position =>
        cases hmode : round.mode with
        | upDown => exact ((hbook.upDown hmode).amount_pos user position hget).le
        | precision => cases hget.symm.trans ((hbook.precision hmode).no_position user)
  have hprediction :
      0 ≤ (s.rounds.precisionPosition.get (round.roundId, user)).elim 0 (·.amount) := by
    cases hget : s.rounds.precisionPosition.get (round.roundId, user) with
    | none => exact le_rfl
    | some prediction =>
        cases hmode : round.mode with
        | upDown => cases hget.symm.trans ((hbook.upDown hmode).no_prediction user)
        | precision => exact ((hbook.precision hmode).prediction_pos user prediction hget).2.le
  have hcommitment :
      0 ≤ (s.rounds.precisionCommitment.get (round.roundId, user)).elim 0 (·.amount) := by
    cases hget : s.rounds.precisionCommitment.get (round.roundId, user) with
    | none => exact le_rfl
    | some commitment =>
        cases hmode : round.mode with
        | upDown => cases hget.symm.trans ((hbook.upDown hmode).no_commitment user)
        | precision => exact ((hbook.precision hmode).commitment_pos user commitment hget).le
  exact hadd _ _ (hadd _ _ (hadd _ _ le_rfl hposition) hprediction) hcommitment

/-- The exposure is the only sum of a stake that may be out of range. -/
theorem enforceUserRoundExposure_failsOnly {round : Round} (hactive : s.rounds.activeRound = some round)
    (hbook : Represents s.rounds round) (hpos : 0 < amount)
    (hreason : s.rounds.ExposureOverflows user amount → reason) :
    FailsOnly (NoOverflow reason) (enforceUserRoundExposure round.roundId user amount) env s
      fun _ s' => s' = s := by
  have hnonneg := @userRoundExposure_nonneg _ _ s user round hbook
  simp only [enforceUserRoundExposure, failsOnly_bind, failsOnly_gets, failsOnly_onSome,
    failsOnly_liftM, failsOnly_reject]
  refine ⟨fun cap _ => yields_checked ?_ ⟨fun _ => noOverflow_err rfl, fun _ => trivial⟩,
    fun _ => trivial⟩
  by_cases hfits : userRoundExposure s.rounds round.roundId user + amount ≤ i128Max
  · exact .inr ⟨by omega, hfits⟩
  · exact .inl (noOverflow_overflow (hreason ⟨round, hactive, not_le.mp hfits⟩))

omit [LinearOrder A] in
theorem enforceBettingOpen_failsOnly (round : Round) :
    FailsOnly (NoOverflow reason) (enforceBettingOpen round) env s fun _ s' => s' = s := by
  simp only [enforceBettingOpen, failsOnly_bind, failsOnly_gets, failsOnly_ledgerSequence,
    failsOnly_reject]
  exact ⟨fun _ => noOverflow_err rfl, fun _ =>
    ⟨fun _ => noOverflow_err rfl, fun _ => trivial⟩⟩

omit [LinearOrder A] in
theorem enforceNotPredicted_failsOnly [DecidableEq A] (roundId : ℕ) :
    FailsOnly (NoOverflow reason) (enforceNotPredicted roundId user) env s fun _ s' => s' = s := by
  simp only [enforceNotPredicted, failsOnly_bind, failsOnly_gets, failsOnly_reject]
  exact ⟨fun _ => noOverflow_err rfl, fun _ => trivial⟩

omit [LinearOrder A] in
theorem enforceBalance_failsOnly [DecidableEq A] :
    FailsOnly (NoOverflow reason) (enforceBalance user amount) env s fun _ s' =>
      amount ≤ s.vault.balanceOf user ∧ s' = s := by
  simp only [enforceBalance, failsOnly_bind, failsOnly_gets, failsOnly_reject]
  exact ⟨fun _ => noOverflow_err rfl, fun h => ⟨by omega, trivial⟩⟩

/-- Debiting a covered stake stays in range. -/
theorem debitStake_failsOnly (hsupply : s.WithinSupply) (hpos : 0 < amount)
    (hcovered : amount ≤ s.vault.balanceOf user) :
    FailsOnly (NoOverflow reason) (debitStake user amount) env s fun _ s' =>
      s'.rounds = s.rounds := by
  have htotal := hsupply.supply user
  have hpending := hsupply.pending user
  have htreasury := hsupply.treasury
  have hfund := hsupply.fund
  have hescrow := hsupply.escrow
  obtain ⟨hmin, hroom⟩ := supplyLimit_room
  simp only [debitStake, failsOnly_bind, failsOnly_gets, failsOnly_liftM, setBalance,
    failsOnly_updateVault]
  exact yields_checked (.inr ⟨by omega, by omega⟩) trivial

omit [LinearOrder A] in
theorem joinRound_failsOnly [DecidableEq A] (roundId : ℕ) :
    FailsOnly (NoOverflow reason) (joinRound roundId user) env s fun _ _ => True := by
  simp only [joinRound, failsOnly_bind, failsOnly_gets, failsOnly_pushBack,
    failsOnly_updateRounds]
  exact ⟨fun _ => noOverflow_trap, fun _ => trivial⟩

/-- A bet overflows for the exposure only. -/
theorem failsOnly_placeBet (hsupply : s.WithinSupply) (hordered : s.rounds.Ordered)
    (side : BetSide) :
    FailsOnly (NoOverflow (s.rounds.ExposureOverflows user amount)) (placeBet user amount side) env
      s fun _ _ => True := by
  refine requireSupportedSchema_failsOnly.guard fun _ => requireAuth_failsOnly.guard fun _ =>
    (policyGate_failsOnly _).guard fun _ => enforceAccessControl_failsOnly.guard fun _ => ?_
  rw [failsOnly_bind, failsOnly_reject]
  refine ⟨fun _ => noOverflow_err rfl, fun hpos => ?_⟩
  refine enforceMinBet_failsOnly.guard fun _ => enforceMaxStake_failsOnly.guard fun _ => ?_
  refine (readActiveRound_failsOnly .noActiveRound rfl).bind ?_
  rintro round s₁ ⟨hactive, hsame⟩
  rw [hsame]
  have hbook := hordered.active_represented hactive
  refine (enforceUserRoundExposure_failsOnly hactive hbook (by omega) id).guard fun _ => ?_
  rw [failsOnly_bind, failsOnly_reject]
  refine ⟨fun _ => noOverflow_err rfl, fun hmode => ?_⟩
  refine (enforceBettingOpen_failsOnly round).guard fun _ => ?_
  refine enforceBalance_failsOnly.bind ?_
  rintro _ s₂ ⟨hcovered, hsame⟩
  rw [hsame]
  simp only [failsOnly_bind, failsOnly_gets, failsOnly_reject]
  refine ⟨fun _ => noOverflow_err rfl, fun _ => ?_⟩
  refine (debitStake_failsOnly hsupply (by omega) hcovered).mono fun _ s₃ _ => ?_
  simp only [failsOnly_updateRounds]
  refine (joinRound_failsOnly _).mono fun _ s₄ _ => ?_
  have hupDown := hbook.upDown (by simpa using hmode)
  have hpools := And.intro (hupDown.pool_nonneg .up) (hupDown.pool_nonneg .down)
  have hsum := hupDown.pools_eq
  have hstakes := hordered.totalStake_le_escrow hbook
  have htotal := hsupply.supply user
  have hpending := hsupply.pending user
  have htreasury := hsupply.treasury
  have hfund := hsupply.fund
  obtain ⟨hmin, hroom⟩ := supplyLimit_room
  have hpool : ∀ side, round.pool side ≤ supplyLimit - amount := by
    have hstake : round.poolUp + round.poolDown ≤ s.rounds.escrow := by
      rw [hsum]
      rwa [show round.mode = .upDown by simpa using hmode] at hstakes
    intro side
    cases side <;> simp only [Round.pool] at hpools ⊢ <;> omega
  have hup := hpool .up
  have hdown := hpool .down
  simp only [Round.pool] at hup hdown hpools
  simp only [setActiveRound, failsOnly_liftM, failsOnly_updateRounds]
  cases side with
  | up => exact (yields_bind _ _).mpr (yields_checked (.inr ⟨by omega, by omega⟩) trivial)
  | down => exact (yields_bind _ _).mpr (yields_checked (.inr ⟨by omega, by omega⟩) trivial)

/-- A prediction overflows for the exposure only. -/
theorem failsOnly_placePrecisionPrediction (hsupply : s.WithinSupply)
    (hordered : s.rounds.Ordered) (predictedPrice : ℕ) :
    FailsOnly (NoOverflow (s.rounds.ExposureOverflows user amount))
      (placePrecisionPrediction user amount predictedPrice) env s fun _ _ => True := by
  refine requireSupportedSchema_failsOnly.guard fun _ => requireAuth_failsOnly.guard fun _ =>
    (policyGate_failsOnly _).guard fun _ => enforceAccessControl_failsOnly.guard fun _ => ?_
  rw [failsOnly_bind, failsOnly_reject]
  refine ⟨fun _ => noOverflow_err rfl, fun hpos => ?_⟩
  refine enforceMinBet_failsOnly.guard fun _ => enforceMaxStake_failsOnly.guard fun _ => ?_
  rw [failsOnly_bind, failsOnly_reject]
  refine ⟨fun _ => noOverflow_err rfl, fun _ => ?_⟩
  refine (readActiveRound_failsOnly .noActiveRound rfl).bind ?_
  rintro round s₁ ⟨hactive, hsame⟩
  rw [hsame]
  have hbook := hordered.active_represented hactive
  refine (enforceUserRoundExposure_failsOnly hactive hbook (by omega) id).guard fun _ => ?_
  rw [failsOnly_bind, failsOnly_reject]
  refine ⟨fun _ => noOverflow_err rfl, fun _ => ?_⟩
  refine (enforceBettingOpen_failsOnly round).guard fun _ =>
    (enforceNotPredicted_failsOnly _).guard fun _ => ?_
  simp only [failsOnly_bind, failsOnly_gets, failsOnly_reject]
  refine ⟨fun _ => noOverflow_err rfl, fun _ => ?_⟩
  refine enforceBalance_failsOnly.mono ?_
  rintro _ s₂ ⟨hcovered, hsame⟩
  rw [hsame]
  refine (debitStake_failsOnly hsupply (by omega) hcovered).mono fun _ s₃ _ => ?_
  simp only [failsOnly_updateRounds]
  exact joinRound_failsOnly _

/-- A commitment overflows for the exposure only. -/
theorem failsOnly_commitPrediction (hsupply : s.WithinSupply) (hordered : s.rounds.Ordered)
    (hash : BytesN 32) :
    FailsOnly (NoOverflow (s.rounds.ExposureOverflows user amount))
      (commitPrediction user hash amount) env s fun _ _ => True := by
  refine requireAuth_failsOnly.guard fun _ => (policyGate_failsOnly _).guard fun _ =>
    enforceAccessControl_failsOnly.guard fun _ => ?_
  rw [failsOnly_bind, failsOnly_reject]
  refine ⟨fun _ => noOverflow_err rfl, fun _ => ?_⟩
  rw [failsOnly_bind, failsOnly_reject]
  refine ⟨fun _ => noOverflow_err rfl, fun hpos => ?_⟩
  refine enforceMinBet_failsOnly.guard fun _ => enforceMaxStake_failsOnly.guard fun _ => ?_
  refine (readActiveRound_failsOnly .noActiveRound rfl).bind ?_
  rintro round s₁ ⟨hactive, hsame⟩
  rw [hsame]
  have hbook := hordered.active_represented hactive
  refine (enforceUserRoundExposure_failsOnly hactive hbook (by omega) id).guard fun _ => ?_
  rw [failsOnly_bind, failsOnly_reject]
  refine ⟨fun _ => noOverflow_err rfl, fun _ => ?_⟩
  refine (enforceBettingOpen_failsOnly round).guard fun _ => ?_
  refine enforceBalance_failsOnly.bind ?_
  rintro _ s₂ ⟨hcovered, hsame⟩
  rw [hsame]
  refine (enforceNotPredicted_failsOnly _).guard fun _ => ?_
  refine (debitStake_failsOnly hsupply (by omega) hcovered).bind fun _ s₃ _ => ?_
  simp only [failsOnly_bind, failsOnly_updateRounds]
  exact joinRound_failsOnly _

/-! ## Early cash-out -/

omit [LinearOrder A] in
/-- A fee can be collected when the treasury, the fund and the settings are as they were. -/
theorem FeeReady.of_same {s' : Storage A} (hready : FeeReady s)
    (htreasury : s'.vault.protocolFeeTreasury = s.vault.protocolFeeTreasury)
    (hfund : s'.vault.insFundBal = s.vault.insFundBal) (hcontrol : s'.control = s.control) :
    FeeReady s' := by
  obtain ⟨hreadable, htreasuryRange, hfundRange, hsplit⟩ := hready
  refine ⟨hreadable.of_same htreasury, ?_, ?_, by rwa [hcontrol]⟩
  · unfold Vault.treasury
    rw [htreasury]
    exact htreasuryRange
  · unfold Vault.insuranceFund
    rw [hfund]
    exact hfundRange

/-- The position that leaves a round is a part of its pool and of its stakes. -/
theorem position_le_pool {round : Round} {position : UserPosition}
    (hbook : Represents s.rounds round) (hmode : round.mode = .upDown)
    (hposition : s.rounds.position.get (round.roundId, user) = some position) :
    position.amount ≤ round.pool position.side ∧
      position.amount ≤ s.rounds.totalStake round.mode round.roundId := by
  have hleft := leave_represents hbook hmode hposition
  constructor
  · have hpool := (hleft.upDown (by simpa using hmode)).pool_nonneg position.side
    cases hside : position.side <;> simp [Round.withPool, Round.pool, hside] at hpool ⊢ <;> omega
  · have htotal := hleft.totalStake_nonneg
    rw [withPool_mode, withPool_roundId, hmode, leave_totalStake hbook hmode hposition] at htotal
    rw [hmode]
    omega

/-- An early cash-out stays in range. -/
theorem failsOnly_cashOutEarly (hsupply : s.WithinSupply) (hordered : s.rounds.Ordered)
    (hready : FeeReady s) :
    FailsOnly (NoOverflow reason) (cashOutEarly user) env s fun _ _ => True := by
  refine requireSupportedSchema_failsOnly.guard fun _ => requireAuth_failsOnly.guard fun _ =>
    (policyGate_failsOnly _).guard fun _ => enforceAccessControl_failsOnly.guard fun _ => ?_
  simp only [failsOnly_bind, failsOnly_gets, failsOnly_orError, failsOnly_reject]
  refine ⟨fun _ => noOverflow_err rfl, fun penaltyBps _ =>
    ⟨fun _ => noOverflow_err rfl, fun hpenalty => ?_⟩⟩
  refine (readActiveRound_failsOnly .noActiveRound rfl).mono ?_
  rintro round s₁ ⟨hactive, hsame⟩
  rw [hsame]
  refine ⟨fun _ => noOverflow_err rfl, fun hmode => ?_⟩
  rw [not_not] at hmode
  simp only [failsOnly_ledgerSequence]
  refine ⟨fun _ => noOverflow_err rfl, fun _ =>
    ⟨fun _ => noOverflow_err rfl, fun position hposition =>
      ⟨fun _ => noOverflow_err rfl, fun hstake => ?_⟩⟩⟩
  have hbook := hordered.active_represented hactive
  obtain ⟨hpool, htotal⟩ := position_le_pool hbook hmode hposition
  have hforfeit := @forfeitOf_bounds position.amount penaltyBps (by omega) (by omega)
  have hstakes := hordered.totalStake_le_escrow hbook
  have hlimit := hsupply.supply user
  have hbalance := hsupply.balance user
  have hpending := hsupply.pending user
  have htreasury := hsupply.treasury
  have hfund := hsupply.fund
  obtain ⟨hmin, hroom⟩ := supplyLimit_room
  have hproduct : 0 ≤ position.amount * (penaltyBps : ℤ) := mul_nonneg (by omega) (by omega)
  have hrange : position.amount * (penaltyBps : ℤ) ≤ i128Max := by
    have hmul : position.amount * (penaltyBps : ℤ) ≤ supplyLimit * 10000 :=
      mul_le_mul (by omega) (by omega) (by omega) (by omega)
    exact hmul.trans (by decide)
  simp only [failsOnly_liftM, checked_of_fits hproduct hrange, yields_ok,
    divide_of_fits hproduct hrange (show 0 < bpsDenominator by decide)]
  change 0 ≤ position.amount * (penaltyBps : ℤ) / bpsDenominator ∧
    position.amount * (penaltyBps : ℤ) / bpsDenominator ≤ position.amount at hforfeit
  generalize position.amount * (penaltyBps : ℤ) / bpsDenominator = forfeit at hforfeit ⊢
  refine yields_checked (.inr ⟨by omega, by omega⟩) ?_
  have htaken : ∃ left, round.takeFromPool position.side position.amount = .ok left := by
    have hsum := (hbook.upDown hmode).pools_eq
    have hpools := And.intro ((hbook.upDown hmode).pool_nonneg .up)
      ((hbook.upDown hmode).pool_nonneg .down)
    rw [hmode] at hstakes
    simp only [Round.pool] at hpools
    cases hside : position.side with
    | up =>
        rw [hside] at hpool
        simp only [Round.pool] at hpool
        simp only [Round.takeFromPool]
        rw [checked_of_fits (by omega) (by omega), ok_bind]
        exact ⟨_, rfl⟩
    | down =>
        rw [hside] at hpool
        simp only [Round.pool] at hpool
        simp only [Round.takeFromPool]
        rw [checked_of_fits (by omega) (by omega), ok_bind]
        exact ⟨_, rfl⟩
  obtain ⟨left, hleft⟩ := htaken
  rw [hleft, yields_ok]
  have hcredited : ∀ s₂ : Storage A, s₂.vault = s.vault → s₂.control = s.control →
      FailsOnly (NoOverflow reason) (onlyIf (position.amount - forfeit > 0)
        (accumulatePending user (position.amount - forfeit))) env s₂ fun _ s₃ => FeeReady s₃ := by
    intro s₂ hvault hcontrol
    have hready₂ : FeeReady s₂ := hready.of_same (by rw [hvault]) (by rw [hvault]) hcontrol
    rw [failsOnly_onlyIf]
    refine ⟨fun hkept => ?_, fun _ => hready₂⟩
    refine FailsOnly.mono (failsOnly_accumulatePending ?_) ?_
    · refine ⟨fun credit hmem => ?_, fun other => ?_, fun other => ?_,
        .inl (noOverflow_err rfl)⟩
      · obtain rfl := List.mem_singleton.mp hmem
        exact hkept.le
      · rw [hvault]
        exact (hsupply.pending other).1
      · have hother := hsupply.pending other
        rw [hvault, creditTo_cons]
        simp only [creditTo_nil]
        split <;> omega
    · rintro _ _ rfl
      exact hready₂.of_same rfl rfl rfl
  simp only [setActiveRound, failsOnly_updateRounds]
  refine FailsOnly.mono (hcredited _ rfl rfl) fun _ s₂ hready₂ => ?_
  have hcollects : FailsOnly (NoOverflow reason) (collectProtocolFee forfeit) env s₂
      fun _ _ => True :=
    (returns_collectProtocolFee hready₂ (by omega)).failsOnly.mono fun _ _ _ => trivial
  rw [failsOnly_onlyIf]
  exact ⟨fun _ => hcollects.mono fun _ _ _ => failsOnly_persistUserOutcome _,
    fun _ => failsOnly_persistUserOutcome _⟩

/-! ## Claims -/

/-- What users have pending can be claimed one after the other. -/
theorem failsOnly_claimPending (hclaimable : s.vault.Claimable user) :
    FailsOnly (NoOverflow reason) (claimPending user) env s fun _ s' =>
      s' = { s with vault := s.vault.claim user } :=
  (claimPending_returns.mpr ⟨hclaimable, rfl⟩).failsOnly

omit [LinearOrder A] in
/-- Within the supply everything pending can be claimed. -/
theorem Storage.WithinSupply.claimable (hsupply : s.WithinSupply) (user : A) :
    s.vault.Claimable user := by
  have htotal := hsupply.supply user
  have hbalance := hsupply.balance user
  have hpending := hsupply.pending user
  have htreasury := hsupply.treasury
  have hfund := hsupply.fund
  have hescrow := hsupply.escrow
  obtain ⟨hmin, hroom⟩ := supplyLimit_room
  exact .inr ⟨by omega, by omega⟩

/-- A claim stays in range. -/
theorem failsOnly_claimWinnings (hsupply : s.WithinSupply) :
    FailsOnly (NoOverflow reason) (claimWinnings user) env s fun _ _ => True := by
  refine requireSupportedSchema_failsOnly.guard fun _ => requireAuth_failsOnly.guard fun _ =>
    (policyGate_failsOnly _).guard fun _ => ?_
  exact (failsOnly_claimPending (hsupply.claimable user)).mono fun _ _ _ => trivial

/-- A batch of claims stays in range. -/
theorem failsOnly_claimMany (hsupply : s.WithinSupply) (users : List A) :
    FailsOnly (NoOverflow reason) (claimMany users) env s fun _ _ => True := by
  refine requireSupportedSchema_failsOnly.guard fun _ => (policyGate_failsOnly _).guard fun _ => ?_
  simp only [failsOnly_bind, failsOnly_reject]
  refine ⟨fun _ => noOverflow_err rfl, fun _ =>
    ⟨fun _ => noOverflow_err rfl, fun _ => ?_⟩⟩
  refine FailsOnly.mono (failsOnly_foldEach
    (fun _ _ s' => ∀ user, s'.vault.Claimable user) (fun user rest amounts s₁ hclaimable => ?_)
    hsupply.claimable) fun _ _ _ => trivial
  refine requireAuth_failsOnly.guard fun _ => ?_
  refine (failsOnly_claimPending (hclaimable user)).bind ?_
  rintro amount _ rfl other
  by_cases hsame : other = user
  · rw [hsame]
    left
    unfold Vault.claim
    split
    · assumption
    · simp [Vault.pendingOf, Store.getD]
  · exact (claimable_claim hsame).mpr (hclaimable other)

/-! ## Proposals -/

/-- The execution of a proposal stays in range. -/
theorem failsOnly_execute (hsupply : s.WithinSupply) (hreadable : s.vault.TreasuryReadable)
    (executor : A) (proposalId : ℕ) :
    FailsOnly (NoOverflow reason) (execute executor proposalId) env s fun _ _ => True := by
  have hgate : FailsOnly (NoOverflow reason) (onControl (governanceGate executor)) env s
      fun _ s' => s' = s := by
    simp only [governanceGate, requireSupportedSchema, failsOnly_onControl, failsOnly_bind,
      failsOnly_gets, failsOnly_reject, failsOnly_requireAuth, failsOnly_pure]
    exact ⟨fun _ => noOverflow_err rfl, fun _ => ⟨fun _ => noOverflow_trap,
      fun _ => ⟨fun _ => noOverflow_err rfl, fun _ => trivial⟩⟩⟩
  refine hgate.guard fun _ => ?_
  simp only [readGovProposal, failsOnly_bind, failsOnly_onControl, failsOnly_gets,
    failsOnly_orError, failsOnly_ledgerSequence, failsOnly_reject]
  refine ⟨fun _ => noOverflow_err rfl, fun proposal _ =>
    ⟨fun _ => noOverflow_err rfl, fun _ => ⟨fun _ => noOverflow_err rfl,
      fun _ => ?_⟩⟩⟩
  have hperforms : FailsOnly (NoOverflow reason) (performGovAction proposal.action) env s
      fun _ _ => True := by
    cases proposal.action with
    | pauseProtocol | unpauseProtocol =>
        simp only [performGovAction, setMode, updateSettings, failsOnly_onControl, failsOnly_bind,
          failsOnly_gets, failsOnly_onlyIf, failsOnly_update]
        exact ⟨fun _ => trivial, fun _ => trivial⟩
    | setProtocolFeeBps bps =>
        simp only [performGovAction, validateProtocolFeeBps, validateRate, updateSettings,
          failsOnly_onControl, failsOnly_bind, failsOnly_onSome, failsOnly_reject,
          failsOnly_update]
        exact ⟨fun _ _ => ⟨fun _ => noOverflow_err rfl, fun _ => trivial⟩,
          fun _ => trivial⟩
    | withdrawProtocolFee recipient amount =>
        exact (failsOnly_executeWithdrawFee hsupply hreadable).bind fun _ _ _ => trivial
    | withdrawInsuranceFund recipient amount =>
        exact (failsOnly_executeWithdrawInsuranceFund hsupply).bind fun _ _ _ => trivial
    | setTreasuryAddress treasury => trivial
    | setAdmin newAdmin | setOracle newOracle => trivial
    | setInsuranceSplitBps bps =>
        simp only [performGovAction, setInsuranceSplitBps, authorizedAdmin, ensureNotPaused,
          policyGate, updateSettings, failsOnly_onControl, failsOnly_bind, failsOnly_gets,
          failsOnly_orError, failsOnly_requireAuth, failsOnly_pure, failsOnly_reject,
          failsOnly_update]
        exact ⟨fun _ => noOverflow_err rfl, fun _ _ => ⟨fun _ => noOverflow_trap, fun _ =>
          ⟨fun _ => noOverflow_err rfl, fun _ =>
            ⟨fun _ => noOverflow_err rfl, fun _ => trivial⟩⟩⟩⟩
    | setInsuranceCoverageBps bps =>
        simp only [performGovAction, setInsuranceCoverageBps, authorizedAdmin, ensureNotPaused,
          policyGate, updateSettings, failsOnly_onControl, failsOnly_bind, failsOnly_gets,
          failsOnly_orError, failsOnly_requireAuth, failsOnly_pure, failsOnly_reject,
          failsOnly_update]
        exact ⟨fun _ => noOverflow_err rfl, fun _ _ => ⟨fun _ => noOverflow_trap, fun _ =>
          ⟨fun _ => noOverflow_err rfl, fun _ =>
            ⟨fun _ => noOverflow_err rfl, fun _ => trivial⟩⟩⟩⟩
  exact hperforms.mono fun _ _ _ => trivial

end Transfers

end XelmaMarket
