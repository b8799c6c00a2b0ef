import XelmaMarket.Headroom
import XelmaMarket.Ending

/-!
# Settlements that get through

Each refund loop and each settlement loop, run on a round the storage represents, returns whenever
its arithmetic is in range, there is room for the credits of its plan and the counters of its
participants are not full. What else can go wrong is a vector at its largest length.
-/

namespace XelmaMarket

open Transaction

variable {A : Type} [LinearOrder A] {permitted : Failure → Prop} {env : Env A}
  {s s' : Storage A}

/-! ## Refund loops -/

section Refunds

variable {β : Type} {outcome : UserOutcomeType} {addUp : β → ℤ → Except Failure β}
  {initial total : β} {participants : List A} {roundId : ℕ}

/-- Refunding positions returns when the stakes add up and there is room for them. -/
theorem failsOnly_refundPositions (hcounts : ¬ (outcome = .win ∨ outcome = .loss))
    (price : A → ℕ)
    (hheld : ∀ user ∈ participants,
      ∃ position, s.rounds.position.get (roundId, user) = some position)
    (hadds : (participants.map (s.rounds.stakeOf .upDown roundId)).foldlM addUp initial =
      .ok total)
    (hcan : s.CanSettle permitted (participants.map fun user =>
      s.rounds.outcomeRecord .upDown roundId (price user) user
        (s.rounds.stakeOf .upDown roundId user) outcome)) :
    FailsOnly permitted (refundPositions roundId outcome addUp initial participants) env s
      fun _ s' => Settles env.ledger.sequence roundId
        (participants.map fun user => s.rounds.outcomeRecord .upDown roundId (price user) user
          (s.rounds.stakeOf .upDown roundId user) outcome) s s' := by
  rw [List.foldlM_map] at hadds
  rw [List.map_eq_flatMap] at hcan ⊢
  refine FailsOnly.mono (failsOnly_foldEach_settles _ _
    (fun user hmem acc next s₁ hrounds _ hroom hnext => ?_) hcan hadds) fun _ _ h => h.2
  obtain ⟨position, hposition⟩ := hheld user hmem
  have hstake : s.rounds.stakeOf .upDown roundId user = position.amount := by
    simp [Rounds.stakeOf, hposition]
  rw [hstake] at hnext hroom ⊢
  simp only [failsOnly_bind, failsOnly_gets, hrounds, hposition, failsOnly_liftM, hnext,
    yields_ok, failsOnly_pure]
  rw [upDownOutcome_eq hposition (price user)]
  refine FailsOnly.mono (failsOnly_creditOutcome hroom ?_) fun _ s₂ hsettles => ⟨trivial, hsettles⟩
  simpa [UserRoundOutcome.counts] using hcounts

/-- Refunding predictions returns when the stakes add up and there is room for them. -/
theorem failsOnly_refundPredictions (hcounts : ¬ (outcome = .win ∨ outcome = .loss))
    (price : Rounds A → A → ℕ)
    (hstaked : ∀ user ∈ participants, 0 < s.rounds.stakeOf .precision roundId user)
    (hadds : (participants.map (s.rounds.stakeOf .precision roundId)).foldlM addUp initial =
      .ok total)
    (hcan : s.CanSettle permitted (participants.map fun user =>
      s.rounds.outcomeRecord .precision roundId (price s.rounds user) user
        (s.rounds.stakeOf .precision roundId user) outcome)) :
    FailsOnly permitted (refundPredictions roundId outcome price addUp initial participants) env s
      fun _ s' => Settles env.ledger.sequence roundId
        (participants.map fun user => s.rounds.outcomeRecord .precision roundId
          (price s.rounds user) user (s.rounds.stakeOf .precision roundId user) outcome)
        s s' := by
  rw [List.foldlM_map] at hadds
  rw [List.map_eq_flatMap] at hcan ⊢
  refine FailsOnly.mono (failsOnly_foldEach_settles _ _
    (fun user hmem acc next s₁ hrounds _ hroom hnext => ?_) hcan hadds) fun _ _ h => h.2
  have hpos : precisionStake s.rounds roundId user > 0 := hstaked user hmem
  have hnext' : addUp acc (precisionStake s.rounds roundId user) = .ok next := hnext
  simp only [failsOnly_bind, failsOnly_gets, hrounds, if_pos hpos, failsOnly_liftM, hnext',
    yields_ok, failsOnly_pure]
  refine FailsOnly.mono (failsOnly_creditOutcome hroom ?_) fun _ s₂ hsettles => ⟨trivial, hsettles⟩
  exact hcounts

end Refunds

/-! ## UpDown settlement -/

/-- Collecting a fee leaves what records can be settled. -/
theorem Storage.CanSettle.collectFee {records : List (UserRoundOutcome A)}
    (hcan : s.CanSettle permitted records) (fee : ℤ) :
    (s.collectFee fee).CanSettle permitted records where
  room := by
    have hpending : ∀ user, (s.collectFee fee).vault.pendingOf user = s.vault.pendingOf user :=
      fun user => by simp [Storage.collectFee, Vault.pendingOf]
    refine ⟨hcan.room.nonneg, fun user => ?_, fun user => ?_, hcan.room.capped.imp_right
      fun hcapped cap hcap user huser => ?_⟩
    · rw [hpending]
      exact hcan.room.pending user
    · rw [hpending]
      exact hcan.room.fits user
    · rw [hpending]
      exact hcapped cap hcap user huser
  distinct := hcan.distinct
  counts := hcan.counts

section UpDown

variable {round : Round} {participants : List A} {side : BetSide}

/-- A participant of a competitive round is settled. -/
theorem failsOnly_recordWinning {terms : Terms} {rounds : Rounds A} {user : A}
    (hbook : UpDownBook rounds round) (huser : user ∈ rounds.participants round.roundId)
    (hpot : 0 ≤ terms.upDownPot round side) (hpool : round.pool side ≠ 0)
    (hpays : ∀ position, rounds.position.get (round.roundId, user) = some position →
      position.side = side →
      computeUpdownWinnerPayout position.amount (round.pool side) (terms.upDownPot round side) =
        .ok (Apportion.share (terms.upDownPot round side) (round.pool side) position.amount))
    (hrounds : s.rounds = rounds)
    (hcan : s.CanSettle permitted [terms.upDownRecord rounds round side user]) :
    FailsOnly permitted
      (recordWinning round.roundId side (round.pool side) (terms.upDownPot round side) user) env s
      fun _ s' => Settles env.ledger.sequence round.roundId
        [terms.upDownRecord rounds round side user] s s' := by
  refine FailsOnly.ensuring ?_
    (Ensures.mono (recordWinning_spec hbook huser hpool hpot hrounds) fun _ _ h => h.2)
  obtain ⟨position, hposition⟩ := hbook.position huser
  have hstake : rounds.stakeOf .upDown round.roundId user = position.amount := by
    simp [Rounds.stakeOf, hposition]
  simp only [recordWinning, failsOnly_bind, failsOnly_gets, hrounds, hposition, failsOnly_onSome,
    Option.some.injEq, reduceCtorEq, false_implies, and_true, forall_eq', failsOnly_ite,
    failsOnly_liftM]
  constructor
  · intro hside
    have hrecord : terms.upDownRecord rounds round side user =
        upDownOutcome user position (Apportion.share (terms.upDownPot round side)
          (round.pool side) position.amount) .win := by
      rw [upDownOutcome_eq hposition 0]
      simp [Terms.upDownRecord, Rounds.betOn, hposition, hside, hstake]
    rw [hpays position hposition hside, yields_ok]
    rw [hrecord] at hcan
    have hwin := @failsOnly_creditWin _ _ permitted env s round.roundId _ hcan rfl
    simp only [failsOnly_bind] at hwin
    exact hwin.mono fun _ s₁ h₁ => h₁.mono fun _ s₂ h₂ => h₂.mono fun _ s₃ _ => trivial
  · intro hside
    have hrecord : terms.upDownRecord rounds round side user =
        upDownOutcome user position 0 .loss := by
      rw [upDownOutcome_eq hposition 0]
      simp [Terms.upDownRecord, Rounds.betOn, hposition, hside]
    rw [hrecord] at hcan
    have hloss := @failsOnly_recordLoss _ _ permitted env s round.roundId _ hcan rfl
    simp only [failsOnly_bind] at hloss
    exact hloss.mono fun _ s₁ h₁ => h₁.mono fun _ s₂ _ => trivial

omit [LinearOrder A] in
/-- A fee in range that the treasury and the fund have room for is applied. -/
theorem failsOnly_applyProtocolFeeUpdown (hready : FeeReady s)
    (hpools : 0 ≤ round.pool side ∧ 0 ≤ round.pool side.other)
    (hlimit : s.control.settings.terms.upDownFee round side ≤ supplyLimit) {dist : ℤ × ℤ × ℤ}
    (hdist : calculateProtocolFeeUpdown s.control.settings.protocolFeeBps
      s.control.settings.readFeeModel (round.pool side) (round.pool side.other) = .ok dist) :
    FailsOnly permitted (applyProtocolFeeUpdown (round.pool side) (round.pool side.other)) env s
      fun dist' s' => dist' = dist ∧
        s' = s.collectFee (s.control.settings.terms.upDownFee round side) := by
  obtain ⟨hfee, -⟩ := @calculateProtocolFeeUpdown_spec _ s.control.settings.terms _ _ hpools hdist
  have happlied := @applyProtocolFeeUpdown_spec _ env s _ _ hpools
  refine (FailsOnly.and ?_ happlied).mono fun _ _ h => ⟨h.1, h.2.2.2.2⟩
  rw [← hfee] at hlimit
  obtain ⟨⟨⟩, s₁, hrun, -⟩ := @returns_collectProtocolFee _ env _ hready _ hlimit
  simp only [applyProtocolFeeUpdown, failsOnly_bind, failsOnly_gets, failsOnly_liftM, hdist,
    yields_ok, failsOnly_onlyIf, failsOnly_pure]
  exact ⟨fun _ => Yields.of_eq hrun trivial, fun _ => trivial⟩

/-- A competitive round is settled when its arithmetic is in range. -/
theorem failsOnly_recordWinningsIndexed (hready : FeeReady s) (hbook : UpDownBook s.rounds round)
    (hmem : ∀ user ∈ participants, user ∈ s.rounds.participants round.roundId)
    (hcap : FeeCapped s.control.settings.protocolFeeBps) (hpool : round.pool side ≠ 0)
    (hlimit : s.control.settings.terms.upDownFee round side ≤ supplyLimit)
    (hcomputes : UpDownComputes s.control.settings.terms s.rounds round side participants)
    (hcan : s.CanSettle permitted
      (participants.map (s.control.settings.terms.upDownRecord s.rounds round side))) :
    FailsOnly permitted (recordWinningsIndexed round.roundId participants side (round.pool side)
      (round.pool side.other)) env s fun _ _ => True := by
  have hpools := And.intro (hbook.pool_nonneg side) (hbook.pool_nonneg side.other)
  have hbounds := (@Terms.upDownFee_bounds _ s.control.settings.terms) hcap hpools
  have hpot : 0 ≤ s.control.settings.terms.upDownPot round side := by
    unfold Terms.upDownPot
    omega
  obtain ⟨dist, hdist, hadd, hpays⟩ := hcomputes
  simp only [recordWinningsIndexed, if_neg hpool]
  refine (failsOnly_applyProtocolFeeUpdown hready hpools hlimit hdist).bind ?_
  rintro _ s₁ ⟨rfl, rfl⟩
  simp only [failsOnly_bind, failsOnly_liftM, hadd, yields_ok, failsOnly_pure]
  rw [List.map_eq_flatMap] at hcan
  refine FailsOnly.mono (@failsOnly_forEach_settles _ _ _ _ _ env.ledger.sequence round.roundId _
    _ _ (fun user => [s.control.settings.terms.upDownRecord s.rounds round side user])
    (fun user huser s₂ hrounds _ hroom => ?_) (hcan.collectFee _)) fun _ _ _ => trivial
  exact failsOnly_recordWinning hbook (hmem user huser) hpot hpool (hpays user huser) hrounds hroom

/-- Refunding a settled UpDown round returns when there is room for the stakes. -/
theorem failsOnly_recordRefundsIndexed (hbook : UpDownBook s.rounds round)
    (hmode : round.mode = .upDown)
    (hmem : ∀ user ∈ participants, user ∈ s.rounds.participants round.roundId)
    (hcan : s.CanSettle permitted
      (s.rounds.refundRecords round (fun _ => 0) .refund participants)) :
    FailsOnly permitted (recordRefundsIndexed round.roundId participants) env s
      fun _ _ => True := by
  unfold Rounds.refundRecords at hcan
  rw [hmode] at hcan
  have hadds : ∀ stakes : List ℤ, stakes.foldlM addNothing () = .ok () := by
    intro stakes
    induction stakes with
    | nil => rfl
    | cons stake rest ih => exact ih
  exact FailsOnly.mono (failsOnly_refundPositions (by decide) (fun _ => 0)
    (fun user huser => hbook.position (hmem user huser)) (hadds _) hcan) fun _ _ _ => trivial

/-- The UpDown settlement returns when its arithmetic is in range and its plan can be settled. -/
theorem failsOnly_resolveUpdownMode (hready : FeeReady s) (hbook : Represents s.rounds round)
    (hmode : round.mode = .upDown) (hcap : FeeCapped s.control.settings.protocolFeeBps)
    {finalPrice : ℕ}
    (hlimit : (s.control.settings.terms.upDownPlan s.rounds round finalPrice
      (sortAddresses (s.rounds.participants round.roundId))).fee ≤ supplyLimit)
    (hcomputes : ¬ round.refundsAt finalPrice →
      sortAddresses (s.rounds.participants round.roundId) ≠ [] →
      UpDownComputes s.control.settings.terms s.rounds round (round.winningSide finalPrice)
        (sortAddresses (s.rounds.participants round.roundId)))
    (hcan : s.CanSettle permitted (s.control.settings.terms.upDownPlan s.rounds round finalPrice
      (sortAddresses (s.rounds.participants round.roundId))).records) :
    FailsOnly permitted (resolveUpdownMode round finalPrice) env s fun _ _ => True := by
  have hupDown := hbook.upDown hmode
  have hmem : ∀ user ∈ sortAddresses (s.rounds.participants round.roundId),
      user ∈ s.rounds.participants round.roundId := fun user => mem_sortAddresses.mp
  unfold Terms.upDownPlan at hlimit hcan
  simp only [resolveUpdownMode, applyOneSidedPolicy, selectOneSidedPolicy, failsOnly_bind,
    failsOnly_gets, failsOnly_ite, failsOnly_pure, Bool.not_eq_true]
  refine ⟨fun hsided => ?_, fun hsided => ⟨fun _ => trivial, fun hne => ?_⟩⟩
  · rw [if_pos (show round.refundsAt finalPrice from .inl hsided)] at hcan
    exact failsOnly_recordRefundsIndexed hupDown hmode hmem hcan
  · have hraw : s.rounds.participants round.roundId ≠ [] := by
      intro h
      simp [h, sortAddresses] at hne
    by_cases hprice : finalPrice = round.priceStart
    · have hdirection : classifyPriceDirection round.priceStart finalPrice = .unchanged := by
        simp [classifyPriceDirection, hprice]
      rw [if_pos (show round.refundsAt finalPrice from .inr hprice)] at hcan
      simp only [hdirection, failsOnly_bind, failsOnly_pure]
      exact failsOnly_recordRefundsIndexed hupDown hmode hmem hcan
    · have hrefund : ¬ round.refundsAt finalPrice := by
        rintro (h | h)
        · simp [h] at hsided
        · exact hprice h
      rw [if_neg hrefund] at hlimit hcan
      have hpos := hbook.totalStake_pos hraw
      rw [hmode] at hpos
      have hpool := hupDown.pool_ne_zero hpos (by simp [hsided])
      have hfound := hcomputes hrefund (by simpa using hne)
      have hwinnings := @failsOnly_recordWinningsIndexed _ _ permitted env _ _ _ _ hready hupDown
        hmem hcap (hpool (round.winningSide finalPrice)) hlimit hfound hcan
      rw [classifyPriceDirection_eq hprice]
      cases hside : round.winningSide finalPrice with
      | up =>
          rw [hside] at hwinnings
          simp only [failsOnly_bind, failsOnly_pure]
          exact hwinnings
      | down =>
          rw [hside] at hwinnings
          simp only [failsOnly_bind, failsOnly_pure]
          exact hwinnings

end UpDown

/-! ## Precision settlement -/

section Precision

variable {rounds : Rounds A} {round : Round} {finalPrice : ℕ} {participants : List A}
  {scan : PrecisionScan A}

/-- The winners are paid when their records can be settled. -/
theorem failsOnly_payPrecisionWinners {payouts : List ℤ}
    (hcan : s.CanSettle permitted (scan.winners.zipIdx.flatMap fun entry =>
      [precisionOutcome entry.1.user entry.1.predictedPrice entry.1.amount
        (payouts.getD entry.2 0) .win])) :
    FailsOnly permitted (payPrecisionWinners round.roundId scan.winners payouts) env s
      fun _ s' => Settles env.ledger.sequence round.roundId
        (scan.winners.zipIdx.flatMap fun entry =>
          [precisionOutcome entry.1.user entry.1.predictedPrice entry.1.amount
            (payouts.getD entry.2 0) .win]) s s' := by
  refine failsOnly_forEach_settles (fun entry : PrecisionPrediction A × ℕ =>
    [precisionOutcome entry.1.user entry.1.predictedPrice entry.1.amount
      (payouts.getD entry.2 0) .win]) (fun entry _ s₁ _ _ hroom => ?_) hcan
  exact (@failsOnly_creditWin _ _ _ _ _ _ (precisionOutcome entry.1.user entry.1.predictedPrice
    entry.1.amount (payouts.getD entry.2 0) .win) hroom rfl).mono fun _ _ h => h

/-- The losers are recorded when their counters are not full. -/
theorem failsOnly_recordPrecisionLosers
    (hscan : ScanFinds rounds round.roundId finalPrice participants scan)
    (hcan : s.CanSettle permitted ((participants.filter fun user =>
      ¬ rounds.IsWinner round.roundId finalPrice participants user).map
        (rounds.lossRecord round.roundId))) :
    FailsOnly permitted (recordPrecisionLosers round.roundId participants scan) env s
      fun _ _ => True := by
  rw [← lossRecords_eq] at hcan
  refine FailsOnly.mono (@failsOnly_forEach_settles _ _ _ _ _ env.ledger.sequence round.roundId _
    _ _ _ (fun entry hentry s₁ _ _ hroom => ?_) hcan) fun _ _ _ => trivial
  obtain ⟨hmask, hprice, hamount⟩ := hscan.entry hentry
  simp only [failsOnly_onlyIf, hmask, hprice, hamount, decide_eq_false_iff_not]
  constructor
  · intro hloses
    rw [if_neg hloses] at hroom ⊢
    exact (@failsOnly_recordLoss _ _ _ _ _ _ (rounds.lossRecord round.roundId entry.1) hroom
      rfl).mono fun _ _ h => h
  · intro hwins
    rw [if_pos (not_not.mp hwins)]
    exact .refl s₁

/-- A round in which nobody revealed is refunded when there is room for the stakes. -/
theorem failsOnly_refundUnrevealed (hmode : round.mode = .precision)
    (hscan : ScanFinds rounds round.roundId finalPrice participants scan)
    (hstaked : ∀ user ∈ participants, 0 < rounds.stakeOf .precision round.roundId user)
    (hcan : s.CanSettle permitted
      (rounds.refundRecords round (fun _ => 0) .refund participants)) :
    FailsOnly permitted (refundUnrevealed round.roundId participants scan) env s
      fun _ _ => True := by
  rw [← unrevealedRecords_eq hmode] at hcan
  refine FailsOnly.mono (@failsOnly_forEach_settles _ _ _ _ _ env.ledger.sequence round.roundId _
    _ _ _ (fun entry hentry s₁ _ _ hroom => ?_) hcan) fun _ _ _ => trivial
  obtain ⟨-, -, hamount⟩ := hscan.entry hentry
  have hpos : rounds.stakeOf .precision round.roundId entry.1 > 0 :=
    hstaked entry.1 (List.fst_mem_of_mem_zipIdx hentry)
  simp only [hamount, failsOnly_onlyIf, hpos, not_true, false_implies, and_true, true_implies]
  exact (@failsOnly_creditOutcome _ _ _ _ _ _ (rounds.outcomeRecord .precision round.roundId 0
    entry.1 (rounds.stakeOf .precision round.roundId entry.1) .refund) hroom
    (by simp [UserRoundOutcome.counts])).mono fun _ _ h => h

omit [LinearOrder A] in
/-- A fee in range that the treasury and the fund have room for is applied. -/
theorem failsOnly_applyProtocolFeePrecision (hready : FeeReady s) {pot stakes : ℤ}
    (hpot : 0 < pot) (hstakes : stakes ≤ pot)
    (hlimit : s.control.settings.terms.precisionFee pot stakes ≤ supplyLimit) {dist : ℤ × ℤ}
    (hdist : calculateProtocolFeePrecision s.control.settings.protocolFeeBps
      s.control.settings.readFeeModel pot stakes = .ok dist) :
    FailsOnly permitted (applyProtocolFeePrecision pot stakes) env s fun dist' s' =>
      dist' = dist ∧ dist.1 = pot - s.control.settings.terms.precisionFee pot stakes ∧
        s' = s.collectFee (s.control.settings.terms.precisionFee pot stakes) := by
  obtain ⟨hfee, hleft⟩ := @calculateProtocolFeePrecision_spec s.control.settings.terms _ _ _
    hpot hstakes hdist
  have happlied := @applyProtocolFeePrecision_spec _ env s _ _ hpot hstakes
  refine (FailsOnly.and ?_ happlied).mono fun _ _ h => ⟨h.1, hleft, h.2.2.2.2⟩
  rw [← hfee] at hlimit
  obtain ⟨⟨⟩, s₁, hrun, -⟩ := @returns_collectProtocolFee _ env _ hready _ hlimit
  simp only [applyProtocolFeePrecision, failsOnly_bind, failsOnly_gets, failsOnly_liftM, hdist,
    yields_ok, failsOnly_onlyIf, failsOnly_pure]
  exact ⟨fun _ => Yields.of_eq hrun trivial, fun _ => trivial⟩

/-- The Precision settlement returns when its arithmetic is in range and its plan can be
settled. -/
theorem failsOnly_resolvePrecisionMode (hready : FeeReady s) (hbook : Represents s.rounds round)
    (hmode : round.mode = .precision) (hcap : FeeCapped s.control.settings.protocolFeeBps)
    (hlimit : (s.control.settings.terms.precisionPlan s.rounds round finalPrice
      (sortAddresses (s.rounds.participants round.roundId))).fee ≤ supplyLimit)
    (hcomputes : PrecisionComputes s.control.settings.terms s.rounds round.roundId finalPrice
      (sortAddresses (s.rounds.participants round.roundId)))
    (hcan : s.CanSettle permitted
      (s.control.settings.terms.precisionPlan s.rounds round finalPrice
        (sortAddresses (s.rounds.participants round.roundId))).records) :
    FailsOnly permitted (resolvePrecisionMode round.roundId finalPrice) env s
      fun _ _ => True := by
  have hprecision := hbook.precision hmode
  have hstaked : ∀ user ∈ sortAddresses (s.rounds.participants round.roundId),
      0 < s.rounds.stakeOf .precision round.roundId user := by
    intro user huser
    have := hbook.stake_pos (mem_sortAddresses.mp huser)
    rwa [hmode] at this
  obtain ⟨scan, hscan, hrest⟩ := hcomputes
  simp only [resolvePrecisionMode, failsOnly_bind, failsOnly_gets, failsOnly_ite, failsOnly_pure,
    failsOnly_liftM, hscan, yields_ok]
  generalize sortAddresses (s.rounds.participants round.roundId) = participants
    at hstaked hscan hlimit hcan ⊢
  refine ⟨fun _ => trivial, fun hne => ?_⟩
  rw [List.isEmpty_iff] at hne
  have hfinds := scanPredictions_spec hscan
  obtain ⟨hpos, hle⟩ := hfinds.winners_staked hprecision hstaked
  have hpot : 0 < scan.totalPot := by
    rw [hfinds.totalPot]
    refine List.sum_pos _ ?_ (by simpa using hne)
    intro x hx
    obtain ⟨user, hmem, rfl⟩ := List.mem_map.mp hx
    exact hstaked user hmem
  refine ⟨fun hpays => ?_, fun hwinners => ⟨fun _ => ?_, fun h => absurd hpot h⟩⟩
  · have hwinners := hpays.1
    obtain ⟨stakes, dist, payouts, hstakes, hdist, hpayouts⟩ := hrest hwinners
    obtain rfl := winnerStakes_eq_ok hstakes
    have hbounds := (@Terms.precisionFee_bounds s.control.settings.terms) hcap
      (List.sum_nonneg fun x hx => by
        obtain ⟨winner, hmem, rfl⟩ := List.mem_map.mp hx
        exact (hpos winner hmem).le) hle
    obtain ⟨-, hleft⟩ := @calculateProtocolFeePrecision_spec s.control.settings.terms _ _ _
      hpot hle hdist
    have hpayout := calculatePrecisionPayouts_spec hwinners hpos (by omega) hpayouts
    obtain ⟨hlength, hplan⟩ := precisionPlan_of_scan hprecision hfinds hwinners hleft hpayout
    rw [hplan] at hlimit hcan
    rw [hstakes, yields_ok]
    refine FailsOnly.mono (failsOnly_applyProtocolFeePrecision hready hpot hle hlimit hdist) ?_
    rintro dist' s₁ ⟨hsame, -, rfl⟩
    subst hsame
    have hpays : calculatePrecisionPayouts
        (s.collectFee (s.control.settings.terms.precisionFee scan.totalPot
          (scan.winners.map (·.amount)).sum)).control.settings.readPrecisionPayoutPolicy
        scan.winners dist'.1 = .ok payouts := hpayouts
    rw [hpays, yields_ok]
    rw [← winRecords_eq hprecision hfinds hlength] at hcan
    have hcollected := hcan.collectFee (s.control.settings.terms.precisionFee scan.totalPot
      (scan.winners.map (·.amount)).sum)
    refine FailsOnly.mono (failsOnly_payPrecisionWinners hcollected.take) fun _ s₂ hwins => ?_
    exact failsOnly_recordPrecisionLosers hfinds (hcollected.after hwins)
  · have hempty : scan.winners = [] := by
      by_contra h
      exact hwinners ⟨h, hpot⟩
    have hplan : s.control.settings.terms.precisionPlan s.rounds round finalPrice participants =
        ⟨0, s.rounds.refundRecords round (fun _ => 0) .refund participants⟩ := by
      simp [Terms.precisionPlan, (hfinds.winners_eq_nil hprecision).mp hempty]
    rw [hplan] at hcan
    exact failsOnly_refundUnrevealed hmode hfinds hstaked hcan

end Precision

end XelmaMarket
