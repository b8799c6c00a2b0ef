import XelmaMarket.Supply
import XelmaMarket.Counters
import XelmaMarket.Custody

/-!
# Money paths

In a history that writes no address under the treasury key and mints no more than 63 bits hold, the
calls that move amounts never fail for an amount out of range: each sum and each product they form
fits, whatever is staked and configured.
-/

namespace XelmaMarket

open Transaction

variable {A : Type} [LinearOrder A]

/-! ## Storages in range -/

/-- What the money paths rely on: the storage is healthy, a fee can be collected, the coverage rate
is capped, and the fund and the stakes are small together. -/
structure Storage.InRange (ledger : Ledger) (s : Storage A) : Prop where
  healthy : s.Healthy ledger.sequence
  ready : FeeReady s
  coverage_capped : s.control.settings.insuranceCoverageBps ≤ maxInsuranceCoverageBps
  small : s.vault.insuranceFund + s.rounds.escrow ≤ productLimit

section InRange

variable {permitted : Failure → Prop} {env : Env A} {s s' : Storage A} {round : Round}
  {ledger : Ledger} {credits : List (A × ℤ)} {plan : Plan A}

/-- A history with a small supply leads to a storage in range. -/
theorem History.inRange {host : Host A} {chain : Chain A}
    {trace : List (Transition (Chain A) (Action A))} (hhistory : History host trace chain)
    (hsets : ∀ transition ∈ trace, ¬ SetsTreasury transition)
    (hsmall : totalMinted trace ≤ productLimit) : chain.storage.InRange chain.ledger := by
  have hhealthy : chain.storage.Healthy chain.ledger.sequence := hhistory.healthy
  exact ⟨hhealthy, hhistory.feeReady (hhistory.readable hsets), hhistory.ratesCapped.coverage,
    (hhealthy.le_value.trans (hhistory.value_le hsets)).trans hsmall⟩

omit [LinearOrder A] in
/-- The oracle's own state does not matter. -/
theorem Storage.InRange.of_oracleOnly (hrange : s.InRange ledger) (honly : OracleOnly s s') :
    s'.InRange ledger := by
  obtain ⟨config, armed, feed, rfl⟩ := honly
  have hhealthy := hrange.healthy
  exact ⟨⟨hhealthy.ordered, hhealthy.recorded.of_same rfl rfl, hhealthy.paced, hhealthy.solvent,
    hhealthy.fee_capped, hhealthy.numbered, hhealthy.bounded⟩,
    ⟨hrange.ready.readable, hrange.ready.treasury, hrange.ready.fund, hrange.ready.split⟩,
    hrange.coverage_capped, hrange.small⟩

omit [LinearOrder A] in
/-- The stakes of a live round are small. -/
theorem Storage.InRange.totalStake_le (hrange : s.InRange ledger)
    (hbook : Represents s.rounds round) :
    s.rounds.totalStake round.mode round.roundId ≤ productLimit := by
  have hstakes := hrange.healthy.ordered.totalStake_le_escrow hbook
  have hfund := hrange.healthy.solvent.fund
  have hsmall := hrange.small
  omega

omit [LinearOrder A] in
/-- A user is credited a part of all credits. -/
theorem creditTo_le_sum [DecidableEq A] (hnonneg : ∀ credit ∈ credits, 0 ≤ credit.2) (user : A) :
    creditTo credits user ≤ (credits.map (·.2)).sum := by
  refine List.Sublist.sum_le_sum (List.filter_sublist.map _) fun amount hamount => ?_
  obtain ⟨credit, hmem, rfl⟩ := List.mem_map.mp hamount
  exact hnonneg credit hmem

/-- Exceeding the cap on pending winnings is permitted, or some credits stay within it. -/
def Storage.MayCredit (permitted : Failure → Prop) (s : Storage A) (credits : List (A × ℤ)) : Prop :=
  permitted (.err .pendingWinningsCapExceeded) ∨
    ∀ cap, s.control.settings.maxPendingWinnings = some cap →
      ∀ user ∈ credits.map (·.1), s.vault.pendingOf user + creditTo credits user ≤ cap

/-- There is room for credits that the fund and the stakes cover. -/
theorem Storage.WithinSupply.hasRoom (hsupply : s.WithinSupply)
    (hnonneg : ∀ credit ∈ credits, 0 ≤ credit.2)
    (hcovered : (credits.map (·.2)).sum ≤ s.vault.insuranceFund + s.rounds.escrow)
    (hcapped : s.MayCredit permitted credits) : s.HasRoom permitted credits where
  nonneg := hnonneg
  pending user := (hsupply.pending user).1
  fits user := by
    have htotal := hsupply.supply user
    have hbalance := hsupply.balance user
    have hpending := hsupply.pending user
    have htreasury := hsupply.treasury
    have hfund := hsupply.fund
    have hescrow := hsupply.escrow
    have hcredited := creditTo_le_sum hnonneg user
    obtain ⟨-, hroom⟩ := supplyLimit_room
    omega
  capped := hcapped

omit [LinearOrder A] in
/-- What a sound plan credits is part of the stakes. -/
theorem Plan.Sound.credits_le (hsound : plan.Sound s.rounds round) :
    ((creditsOf plan.records).map (·.2)).sum ≤
      s.rounds.totalStake round.mode round.roundId := by
  have hcovered := hsound.covered
  have hfee := hsound.fee_nonneg
  rw [sum_creditsOf hsound.loss_unpaid]
  unfold Plan.paid at hcovered
  omega

/-- A sound plan can be settled when no counter of a participant is full. -/
theorem Storage.InRange.canSettle (hrange : s.InRange ledger) (hbook : Represents s.rounds round)
    (hsound : plan.Sound s.rounds round)
    (hcounts : ∀ user ∈ s.rounds.participants round.roundId, s.stats.CanCount user)
    (hcapped : s.MayCredit permitted (creditsOf plan.records)) :
    s.CanSettle permitted plan.records where
  room := by
    have hcredits := hsound.credits_le
    have hstakes := hrange.healthy.ordered.totalStake_le_escrow hbook
    have hfund := hrange.healthy.solvent.fund
    exact hrange.healthy.withinSupply.hasRoom (creditsOf_nonneg hsound) (by omega) hcapped
  distinct := hsound.users.nodup_iff.mpr hbook.nodup
  counts record hmem _ := hcounts record.user (hsound.users.mem_iff.mp (List.mem_map_of_mem hmem))

end InRange

/-! ## Ending a round -/

section Endings

variable {permitted : Failure → Prop} {reason : Prop} {env : Env A} {s s₁ : Storage A}
  {round : Round} {finalPrice roundId : ℕ} {pending : PendingDisputeSettlement}

omit [LinearOrder A] in
/-- What can be settled depends on the accounts, the settings and the counters only. -/
theorem Storage.CanSettle.of_same [LinearOrder A] {permitted : Failure → Prop}
    {records : List (UserRoundOutcome A)} (hcan : s.CanSettle permitted records)
    (archive : Archive A) (events : List RoundSummaryEvent) :
    { s with archive := archive, events := events }.CanSettle permitted records :=
  ⟨⟨hcan.room.nonneg, hcan.room.pending, hcan.room.fits, hcan.room.capped⟩, hcan.distinct,
    hcan.counts⟩

/-- A settlement gets through when there is room in the archive and its credits may be made. -/
theorem Storage.InRange.settles (hrange : s.InRange env.ledger)
    (hbook : Represents s.rounds round)
    (hcounts : ∀ user ∈ s.rounds.participants round.roundId, s.stats.CanCount user)
    (harchive : s.archive.HasRoom permitted (s.rounds.participants round.roundId))
    (hcapped : s.MayCredit permitted
      (creditsOf (s.control.settings.terms.plan s.rounds round finalPrice).records))
    (confidence : Option ℕ) :
    FailsOnly permitted (XelmaMarket.completeSettlement round finalPrice confidence) env s
      fun _ _ => True := by
  have hsmall := hrange.totalStake_le hbook
  have hsound := (@Terms.plan_sound _ _ _ s.control.settings.terms _ hbook
    hrange.healthy.fee_capped finalPrice).1
  have hfee := hsound.fee_le
  have hroom : productLimit ≤ supplyLimit := by decide
  exact failsOnly_completeSettlement harchive hrange.ready hbook hrange.healthy.fee_capped
    (by omega) (computes_of_small hbook hrange.healthy.fee_capped hsmall)
    (hrange.canSettle hbook hsound hcounts hcapped) confidence

/-- The settlement of a round stays in range. -/
theorem Storage.InRange.completeSettlement (hrange : s.InRange env.ledger)
    (hbook : Represents s.rounds round)
    (hcounts : ∀ user ∈ s.rounds.participants round.roundId, s.stats.CanCount user)
    (confidence : Option ℕ) :
    FailsOnly (NoOverflow reason) (completeSettlement round finalPrice confidence) env s
      fun _ _ => True :=
  hrange.settles hbook hcounts (.inl noOverflow_trap) (.inl (noOverflow_err rfl)) confidence

/-- A settlement at a price overflows for the deadline of its dispute window only. -/
theorem Storage.InRange.settleRoundWithPrice (hrange : s.InRange env.ledger)
    (hactive : s.rounds.activeRound = some round)
    (hcounts : ∀ user ∈ s.rounds.participants round.roundId, s.stats.CanCount user)
    (confidence : Option ℕ) :
    FailsOnly (NoOverflow (2 ^ 32 ≤ env.ledger.sequence + s.control.settings.getDisputeLedgers))
      (settleRoundWithPrice round finalPrice confidence) env s fun _ _ => True := by
  have hbook := hrange.healthy.ordered.active_represented hactive
  simp only [XelmaMarket.settleRoundWithPrice, failsOnly_bind, failsOnly_gets, failsOnly_ite]
  refine ⟨fun _ => ?_, fun _ => ⟨fun _ => ?_, fun _ => ?_⟩⟩
  · refine ((failsOnly_archiveRound _ _ _ _ _ (.inl noOverflow_trap)).and
      (archiveRound_spec _ _ _ _ _ _)).mono ?_
    rintro _ _ ⟨-, archive, events, rfl⟩
    have hsound := @sound_refund _ s.rounds round _ hbook (fun _ => 0) .refund (by decide)
      (.refl _)
    exact failsOnly_refundUnderThreshold (s := { s with archive := archive, events := events })
      hbook ((hrange.canSettle hbook hsound hcounts (.inl (noOverflow_err rfl))).of_same
        archive events)
  · simp only [stageSettlement, failsOnly_bind, failsOnly_ledgerSequence, failsOnly_liftM,
      failsOnly_updateRounds]
    refine yields_checkedUint ?_ fun _ => trivial
    by_cases hfits : env.ledger.sequence + s.control.settings.getDisputeLedgers < 2 ^ 32
    · exact .inr hfits
    · exact .inl (noOverflow_overflow (not_lt.mp hfits))
  · exact (hrange.completeSettlement hbook hcounts confidence).mono fun _ _ _ => trivial

omit [LinearOrder A] in
theorem ensureNotPaused_failsOnly :
    FailsOnly (NoOverflow reason) (onControl ensureNotPaused) env s fun _ s' => s' = s :=
  policyGate_failsOnly _

/-- A finalization stays in range. -/
theorem Storage.InRange.finalizeRound (hrange : s.InRange env.ledger)
    (hcounts : ∀ pending, s.rounds.pendingDisputes.get roundId = some pending →
      ∀ user, s.stats.CanCount user) :
    FailsOnly (NoOverflow reason) (finalizeRound roundId) env s fun _ _ => True := by
  refine requireSupportedSchema_failsOnly.guard fun _ => ensureNotPaused_failsOnly.guard fun _ => ?_
  simp only [readPendingDispute, failsOnly_bind, failsOnly_gets, failsOnly_orError,
    failsOnly_ledgerSequence, failsOnly_reject]
  refine ⟨fun _ => noOverflow_err rfl, fun pending hpending =>
    ⟨fun _ => noOverflow_err rfl, fun _ => ?_⟩⟩
  have hbook := (hrange.healthy.ordered.staged_represented hpending).2
  refine FailsOnly.mono (hrange.completeSettlement hbook (fun user _ => hcounts pending hpending user)
    _) fun _ s₁ _ => ?_
  simp only [removePendingDispute, failsOnly_updateRounds]

/-- The refund of a voided or cancelled round can be settled. -/
theorem Storage.InRange.canSettle_void (hrange : s.InRange env.ledger)
    (hbook : Represents s.rounds round) (price : A → ℕ)
    (hcapped : s.MayCredit permitted (creditsOf (s.rounds.refundRecords round price .void
      (s.rounds.participants round.roundId)))) :
    s.CanSettle permitted (s.rounds.refundRecords round price .void
      (s.rounds.participants round.roundId)) := by
  have hsound := @sound_refund _ s.rounds round _ hbook price .void (by decide) (.refl _)
  have hcredits := hsound.credits_le
  have hstakes := hrange.healthy.ordered.totalStake_le_escrow hbook
  have hfund := hrange.healthy.solvent.fund
  exact (hrange.healthy.withinSupply.hasRoom (creditsOf_nonneg hsound) (by omega)
    hcapped).canSettle_void hbook

/-- A void stays in range. -/
theorem Storage.InRange.voidRound (hrange : s.InRange env.ledger) :
    FailsOnly (NoOverflow reason) (voidRound roundId) env s fun _ _ => True := by
  cases hpending : s.rounds.pendingDisputes.get roundId with
  | none =>
      refine requireSupportedSchema_failsOnly.guard fun _ =>
        ensureNotPaused_failsOnly.guard fun _ => ?_
      simp only [readPendingDispute, failsOnly_bind, failsOnly_gets, failsOnly_orError, hpending]
      exact ⟨fun _ => noOverflow_err rfl, fun _ h => by cases h⟩
  | some pending =>
      obtain ⟨hid, hbook⟩ := hrange.healthy.ordered.staged_represented hpending
      have hsmall := hrange.totalStake_le hbook
      have hroom : productLimit ≤ i128Max := by decide
      exact failsOnly_voidRound (.inl noOverflow_trap) requireSupportedSchema_failsOnly
        ensureNotPaused_failsOnly hpending hbook hid (.inl (noOverflow_err rfl))
        (by omega) (hrange.canSettle_void hbook _ (.inl (noOverflow_err rfl)))

/-- The products of the money paths of a live round are in range. -/
structure Storage.ProductsInRange (s : Storage A) (round : Round) : Prop where
  payouts : ∀ user ∈ s.rounds.participants round.roundId, ∀ distributable,
    0 ≤ distributable → distributable ≤ s.rounds.totalStake round.mode round.roundId →
    s.rounds.stakeOf round.mode round.roundId user * distributable ≤ i128Max
  fees : ∀ base, 0 ≤ base → base ≤ s.rounds.totalStake round.mode round.roundId →
    ∀ bps ≤ maxProtocolFeeBps, base * (bps : ℤ) ≤ i128Max
  coverage : ∀ reason, ∀ user ∈ s.rounds.participants round.roundId,
    s.coveragePaid ⟨round, .cancelled reason⟩ *
      s.rounds.stakeOf round.mode round.roundId user ≤ i128Max

omit [LinearOrder A] in
theorem Storage.InRange.products {ledger : Ledger} (hrange : s.InRange ledger)
    (hbook : Represents s.rounds round) : s.ProductsInRange round := by
  have hsmall := hrange.small
  have htotal := hrange.totalStake_le hbook
  have hstakes := hrange.healthy.ordered.totalStake_le_escrow hbook
  have hnonneg := hbook.totalStake_nonneg
  refine ⟨fun user huser distributable hpos hle => ?_, fun base hpos hle bps hbps => ?_,
    fun reason user huser => ?_⟩
  · have hstake := hbook.stake_le huser
    exact mul_le_i128Max ⟨hstake.1, by omega⟩ ⟨hpos, by omega⟩
  · have hroom : (maxProtocolFeeBps : ℤ) ≤ productLimit := by decide
    exact mul_le_i128Max ⟨hpos, by omega⟩ ⟨Int.natCast_nonneg bps, by omega⟩
  · have hstake := hbook.stake_le huser
    have hpaid := coveragePaid_nonneg (s := s) ⟨round, .cancelled reason⟩
    have hle := coveragePaid_le hrange.healthy.solvent.fund ⟨round, .cancelled reason⟩
    exact mul_le_i128Max ⟨hpaid, by omega⟩ ⟨hstake.1, by omega⟩

/-- A cancellation gets through when it is let in, there is room in the archive and its credits may
be made. -/
theorem Storage.InRange.cancels (hrange : s.InRange env.ledger) {cancelReason : ℕ}
    (hactive : s.rounds.activeRound = some round)
    (harchive : s.archive.HasRoom permitted (s.rounds.participants round.roundId))
    (hschema : FailsOnly permitted (onControl requireSupportedSchema) env s fun _ s' => s' = s)
    (hadmin : FailsOnly permitted (onControl authorizedAdmin) env s fun _ s' => s' = s)
    (hcapped : s.MayCredit permitted (creditsOf (s.rounds.refundRecords round (fun _ => 0) .void
      (s.rounds.participants round.roundId)) ++ s.coverageCredits ⟨round, .cancelled cancelReason⟩)) :
    FailsOnly permitted (XelmaMarket.cancelRound cancelReason) env s fun _ _ => True := by
  have hbook := hrange.healthy.ordered.active_represented hactive
  have hsound := @sound_refund _ s.rounds round _ hbook (fun _ => 0) .void (by decide)
    (.refl _)
  have hcredits := hsound.credits_le
  have hgiven := (@coverageGiven_bounds _ s ⟨round, .cancelled cancelReason⟩ hbook).1
  have hpaid := coveragePaid_le hrange.healthy.solvent.fund ⟨round, .cancelled cancelReason⟩
  have hstakes := hrange.healthy.ordered.totalStake_le_escrow hbook
  have htotal := hrange.totalStake_le hbook
  have hfund := hrange.ready.fund
  have hroom : productLimit ≤ supplyLimit ∧ supplyLimit ≤ i128Max := by decide
  refine failsOnly_cancelRound harchive hschema hadmin hactive hbook hrange.coverage_capped
    (by omega) (by omega) ((hrange.products hbook).coverage cancelReason)
    (hrange.healthy.withinSupply.hasRoom (fun credit hmem => ?_) ?_ hcapped)
  · rcases List.mem_append.mp hmem with hmem | hmem
    · exact creditsOf_nonneg hsound credit hmem
    · exact (coverageCredits_pos credit hmem).le
  · rw [List.map_append, List.sum_append]
    unfold Storage.coverageGiven at hgiven
    simp only at hcredits
    omega

/-- A cancellation stays in range. -/
theorem Storage.InRange.cancelRound (hrange : s.InRange env.ledger) (cancelReason : ℕ) :
    FailsOnly (NoOverflow reason) (cancelRound cancelReason) env s fun _ _ => True := by
  cases hactive : s.rounds.activeRound with
  | none =>
      refine requireSupportedSchema_failsOnly.guard fun _ =>
        authorizedAdmin_failsOnly.guard fun _ => ?_
      simp only [readActiveRound, failsOnly_bind, failsOnly_gets, failsOnly_orError, hactive]
      exact ⟨fun _ => noOverflow_err rfl, fun _ h => by cases h⟩
  | some round =>
      exact hrange.cancels hactive (.inl noOverflow_trap) requireSupportedSchema_failsOnly
        authorizedAdmin_failsOnly (.inl (noOverflow_err rfl))

end Endings

/-! ## Withdrawals without a governance approver -/

section Withdrawals

variable {reason : Prop} {env : Env A} {s : Storage A} {recipient : A} {amount : ℤ}

theorem failsOnly_withdrawProtocolFee (hsupply : s.WithinSupply)
    (hreadable : s.vault.TreasuryReadable) :
    FailsOnly (NoOverflow reason) (withdrawProtocolFee recipient amount) env s fun _ _ => True := by
  refine requireSupportedSchema_failsOnly.guard fun _ => authorizedAdmin_failsOnly.guard fun _ => ?_
  simp only [failsOnly_bind, failsOnly_gets, failsOnly_reject]
  refine ⟨fun _ => noOverflow_err rfl, fun _ => ?_⟩
  refine ensureNotPaused_failsOnly.mono fun _ s₁ hsame => ?_
  rw [hsame]
  exact failsOnly_executeWithdrawFee hsupply hreadable

theorem failsOnly_withdrawInsuranceFund (hsupply : s.WithinSupply) :
    FailsOnly (NoOverflow reason) (withdrawInsuranceFund recipient amount) env s
      fun _ _ => True := by
  refine authorizedAdmin_failsOnly.guard fun _ => ?_
  simp only [failsOnly_bind, failsOnly_gets, failsOnly_reject]
  refine ⟨fun _ => noOverflow_err rfl, fun _ => ?_⟩
  refine ensureNotPaused_failsOnly.mono fun _ s₁ hsame => ?_
  rw [hsame]
  exact failsOnly_executeWithdrawInsuranceFund hsupply

end Withdrawals

/-! ## Over all histories -/

/-- The calls that move amounts. The submissions of a price move them in the settlement only. -/
def Call.MovesAmounts : Call A → Prop
  | .executeGovProposal _ _ | .withdrawProtocolFee _ _ | .topUpInsuranceFund _
  | .withdrawInsuranceFund _ _ | .reclaimExpiredPendingWinnings _ | .mintInitial _
  | .placeBet _ _ _ | .placePrecisionPrediction _ _ _ | .predictPrice _ _ _
  | .commitPrediction _ _ _ | .cashOutEarly _ | .cancelRound _ | .voidRound _
  | .finalizeRound _ | .claimWinnings _ | .claimMany _ => True
  | _ => False

/-- A stake would bring the exposure of its user out of range. -/
def Call.ExposureOverflows (call : Call A) (rounds : Rounds A) : Prop :=
  ∃ user amount, call.Stakes user amount ∧ rounds.ExposureOverflows user amount

section Calls

variable {env : Env A} {s : Storage A} {call : Call A}

/-- A call that moves amounts overflows for the exposure of a stake only. -/
theorem Storage.InRange.moves (hrange : s.InRange env.ledger) (hmoves : call.MovesAmounts)
    (hcounts : ∀ roundId pending, s.rounds.pendingDisputes.get roundId = some pending →
      ∀ user, s.stats.CanCount user) :
    FailsOnly (NoOverflow (call.ExposureOverflows s.rounds)) call.exec env s fun _ _ => True := by
  have hsupply := hrange.healthy.withinSupply
  have hordered := hrange.healthy.ordered
  have hreadable := hrange.ready.readable
  have hdiscard : ∀ {α : Type} {reason : Prop} {m : ContractM A α},
      FailsOnly (NoOverflow reason) m env s (fun _ _ => True) →
      FailsOnly (NoOverflow reason) (discardResult m) env s fun _ _ => True :=
    fun hfails => hfails.bind fun _ _ _ => trivial
  have hexposed : ∀ {user : A} {amount : ℤ} {m : ContractM A PUnit}, call.Stakes user amount →
      FailsOnly (NoOverflow (s.rounds.ExposureOverflows user amount)) m env s (fun _ _ => True) →
      FailsOnly (NoOverflow (call.ExposureOverflows s.rounds)) m env s fun _ _ => True := by
    intro user amount m hstakes hfails
    exact hfails.weaken fun failure h =>
      ⟨h.1, fun hoverflow => ⟨user, amount, hstakes, h.2 hoverflow⟩⟩
  cases call with
  | executeGovProposal executor proposalId =>
      exact failsOnly_execute hsupply hreadable executor proposalId
  | withdrawProtocolFee recipient amount =>
      exact hdiscard (failsOnly_withdrawProtocolFee hsupply hreadable)
  | topUpInsuranceFund amount => exact failsOnly_topUpInsuranceFund hsupply
  | withdrawInsuranceFund recipient amount =>
      exact hdiscard (failsOnly_withdrawInsuranceFund hsupply)
  | reclaimExpiredPendingWinnings user =>
      exact hdiscard (failsOnly_reclaimExpiredPendingWinnings hsupply)
  | mintInitial user => exact hdiscard failsOnly_mintInitial
  | placeBet user amount side =>
      exact hexposed (.inl ⟨side, rfl⟩) (failsOnly_placeBet hsupply hordered side)
  | placePrecisionPrediction user amount predictedPrice =>
      exact hexposed (.inr (.inl ⟨predictedPrice, rfl⟩))
        (failsOnly_placePrecisionPrediction hsupply hordered predictedPrice)
  | predictPrice user guessedPrice amount =>
      exact hexposed (.inr (.inr (.inl ⟨guessedPrice, rfl⟩)))
        (failsOnly_placePrecisionPrediction hsupply hordered guessedPrice)
  | commitPrediction user hash amount =>
      exact hexposed (.inr (.inr (.inr ⟨hash, rfl⟩)))
        (failsOnly_commitPrediction hsupply hordered hash)
  | cashOutEarly user => exact failsOnly_cashOutEarly hsupply hordered hrange.ready
  | cancelRound cancelReason => exact hrange.cancelRound cancelReason
  | voidRound roundId => exact hrange.voidRound
  | finalizeRound roundId => exact hrange.finalizeRound (hcounts roundId)
  | claimWinnings user => exact hdiscard (failsOnly_claimWinnings hsupply)
  | claimMany users => exact hdiscard (failsOnly_claimMany hsupply users)
  | _ => exact hmoves.elim

end Calls

section History

variable {host : Host A} {chain : Chain A} {trace : List (Transition (Chain A) (Action A))}

/-- In a history that writes no address under the treasury key and mints less than `2 ^ 63`, no call
that moves amounts fails with an overflow, a stake only for the exposure it would bring its user to;
no settlement of the active round does at any price, only for the deadline of its dispute window;
and the arithmetic of every live round is in range, at every price. -/
theorem money_paths_in_range (hhistory : History host trace chain)
    (hsets : ∀ transition ∈ trace, ¬ SetsTreasury transition)
    (hminted : totalMinted trace ≤ 2 ^ 63 - 1) :
    (∀ signers (call : Call A) failure, call.MovesAmounts →
      call.exec ⟨host, chain.ledger, signers⟩ chain.storage = .error failure →
      NoOverflow (call.ExposureOverflows chain.storage.rounds) failure) ∧
    (∀ signers startLedger round s₁ finalPrice confidence failure,
      Checked ⟨host, chain.ledger, signers⟩ chain.storage round startLedger s₁ →
      settleRoundWithPrice round finalPrice confidence ⟨host, chain.ledger, signers⟩ s₁ =
        .error failure →
      NoOverflow (2 ^ 32 ≤ chain.ledger.sequence + chain.settings.getDisputeLedgers) failure) ∧
    ∀ roundId round, chain.storage.rounds.IsLive roundId round →
      (∀ finalPrice, Computes chain.settings.terms chain.storage.rounds round finalPrice) ∧
        chain.storage.ProductsInRange round := by
  have hrange := hhistory.inRange hsets hminted
  refine ⟨fun signers call failure hmoves hrun => ?_,
    fun signers startLedger round s₁ finalPrice confidence failure hchecked hrun => ?_,
    fun roundId round hlive => ?_⟩
  · exact (@Storage.InRange.moves _ _ ⟨host, chain.ledger, signers⟩ _ _ hrange hmoves
      fun _ _ hpending => hhistory.canCount_of_staged hpending).error hrun
  · have hcounts := hhistory.canCount_of_active hchecked.active hchecked.ended
    have honly := hchecked.oracle
    have hrange₁ := hrange.of_oracleOnly honly
    have hactive := hchecked.active
    obtain ⟨config, armed, feed, rfl⟩ := honly
    exact (@Storage.InRange.settleRoundWithPrice _ _ ⟨host, chain.ledger, signers⟩ _ _ _ hrange₁
      hactive (fun user _ => hcounts user) confidence).error hrun
  · have hbook := (hrange.healthy.ordered.live roundId round hlive).2
    exact ⟨fun finalPrice => computes_of_small hbook hrange.healthy.fee_capped
      (hrange.totalStake_le hbook), hrange.products hbook⟩

end History

/-- With round 1 staged and round 2 active, the finalization of round 1 cannot overflow, and the
arithmetic of both rounds is in range at every price. -/
theorem money_paths_of_overlapping_rounds : ∃ chain : Chain ℕ, Reachable trialHost chain ∧
    chain.storage.rounds.activeRound ≠ none ∧ chain.storage.rounds.pendingDisputes.get 1 ≠ none ∧
    (∀ signers failure, (Call.finalizeRound 1).exec ⟨trialHost, chain.ledger, signers⟩
      chain.storage = .error failure →
        failure ≠ .err .overflow ∧ failure ≠ .err .payoutOverflow) ∧
    ∀ roundId round, chain.storage.rounds.IsLive roundId round →
      (∀ finalPrice, Computes chain.settings.terms chain.storage.rounds round finalPrice) ∧
        chain.storage.ProductsInRange round := by
  obtain ⟨trace, chain, hhistory, hlabels, hfits⟩ := exists_trial_history overlappingRounds
    (fun chain => decide (chain.storage.rounds.activeRound ≠ none ∧
      chain.storage.rounds.pendingDisputes.get 1 ≠ none)) (by decide +kernel)
  obtain ⟨hactive, hstaged⟩ := of_decide_eq_true hfits
  have hsets := notSetsTreasury_of_labels hlabels (by simp [overlappingRounds, trialSetup])
  have hlength : trace.length = overlappingRounds.length := by
    rw [← hlabels, List.length_map]
  have hminted : totalMinted trace ≤ 2 ^ 63 - 1 := by
    have hle := hhistory.totalMinted_le
    rw [hlength] at hle
    exact hle.trans (by decide)
  obtain ⟨hmoves, -, hlive⟩ := money_paths_in_range hhistory hsets hminted
  refine ⟨chain, ⟨trace, hhistory⟩, hactive, hstaged, fun signers failure hrun => ?_, hlive⟩
  obtain ⟨hpayout, hoverflow⟩ := hmoves signers (.finalizeRound 1) failure trivial hrun
  refine ⟨fun h => ?_, hpayout⟩
  obtain ⟨user, amount, hstakes, -⟩ := hoverflow h
  rcases hstakes with ⟨side, hcall⟩ | ⟨price, hcall⟩ | ⟨price, hcall⟩ | ⟨hash, hcall⟩ <;> cases hcall

end XelmaMarket
