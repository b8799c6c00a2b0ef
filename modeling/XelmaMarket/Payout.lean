import XelmaMarket.Plan

/-!
# The settlement carries out its plan

Each refund loop and each settlement loop, run on a round the storage represents, credits and
records exactly what the plan says. The arithmetic the code found in range on the way is kept,
because the payout preview repeats it.
-/

namespace XelmaMarket

open Transaction

variable {A : Type}

/-! ## Refund loops -/

section Refunds

variable [LinearOrder A] {env : Env A} {s : Storage A} {roundId : ℕ}

/-- Refunding positions credits every holder the stake, and adds the stakes up as told. -/
theorem refundPositions_spec {β : Type} {outcome : UserOutcomeType}
    (hcounts : ¬ (outcome = .win ∨ outcome = .loss)) (addUp : β → ℤ → Except Failure β)
    (initial : β) (price : A → ℕ) {participants : List A}
    (hheld : ∀ user ∈ participants,
      ∃ position, s.rounds.position.get (roundId, user) = some position) :
    Ensures (refundPositions roundId outcome addUp initial participants) env s fun total s' =>
      (participants.map (s.rounds.stakeOf .upDown roundId)).foldlM addUp initial = .ok total ∧
      Settles env.ledger.sequence roundId
        (participants.map fun user => s.rounds.outcomeRecord .upDown roundId (price user) user
          (s.rounds.stakeOf .upDown roundId user) outcome) s s' := by
  rw [List.foldlM_map, List.map_eq_flatMap]
  refine settles_foldEach _ (fun total user => addUp total (s.rounds.stakeOf .upDown roundId user))
    fun user hmem total s₁ hrounds _ => ?_
  obtain ⟨position, hposition⟩ := hheld user hmem
  have hstake : s.rounds.stakeOf .upDown roundId user = position.amount := by
    simp [Rounds.stakeOf, hposition]
  simp only [ensures_bind, ensures_gets, hrounds, hposition, ensures_liftM, ensures_pure, hstake]
  intro extended hextended
  rw [upDownOutcome_eq hposition (price user)]
  have hrecord : ¬ (s.rounds.outcomeRecord .upDown roundId (price user) user position.amount
      outcome).counts := by simpa [UserRoundOutcome.counts] using hcounts
  exact (creditOutcome_spec hrecord).mono fun _ s₂ hs₂ => ⟨hextended, hs₂⟩

/-- Refunding predictions credits every holder of a positive stake, and adds the stakes up as
told. -/
theorem refundPredictions_spec {β : Type} {outcome : UserOutcomeType}
    (hcounts : ¬ (outcome = .win ∨ outcome = .loss)) (price : Rounds A → A → ℕ)
    (addUp : β → ℤ → Except Failure β) (initial : β) {participants : List A}
    (hstaked : ∀ user ∈ participants, 0 < s.rounds.stakeOf .precision roundId user) :
    Ensures (refundPredictions roundId outcome price addUp initial participants) env s
      fun total s' =>
        (participants.map (s.rounds.stakeOf .precision roundId)).foldlM addUp initial =
          .ok total ∧
        Settles env.ledger.sequence roundId
          (participants.map fun user => s.rounds.outcomeRecord .precision roundId
            (price s.rounds user) user (s.rounds.stakeOf .precision roundId user) outcome)
          s s' := by
  rw [List.foldlM_map, List.map_eq_flatMap]
  refine settles_foldEach _
    (fun total user => addUp total (s.rounds.stakeOf .precision roundId user))
    fun user hmem total s₁ hrounds _ => ?_
  have hpos : precisionStake s.rounds roundId user > 0 := hstaked user hmem
  simp only [ensures_bind, ensures_gets, hrounds, ensures_ite, hpos, not_true, false_implies,
    and_true, true_implies, ensures_liftM, ensures_pure]
  intro extended hextended
  refine (creditOutcome_spec ?_).mono fun _ s₂ hs₂ => ⟨hextended, hs₂⟩
  exact hcounts

end Refunds

/-! ## Carrying out a plan -/

/-- The storage after a fee is collected. -/
def Storage.collectFee (s : Storage A) (fee : ℤ) : Storage A :=
  { s with vault := s.vault.collectFee s.control.settings.insuranceSplitBps fee }

/-- `s'` is `s` after a plan was carried out: its fee collected, its records credited and
stored. -/
def Executes [LinearOrder A] (ledger roundId : ℕ) (plan : Plan A) (s s' : Storage A) : Prop :=
  Settles ledger roundId plan.records (s.collectFee plan.fee) s'

section LinearAddress

variable [LinearOrder A] {env : Env A} {s : Storage A} {round : Round}

/-! ## UpDown settlement -/

/-- The fee the code calculates for an UpDown settlement is the fee of the plan, and the rest of
the pools is what the winners share. -/
theorem calculateProtocolFeeUpdown_spec {terms : Terms} {side : BetSide} {dist : ℤ × ℤ × ℤ}
    (hpools : 0 ≤ round.pool side ∧ 0 ≤ round.pool side.other)
    (hfee : calculateProtocolFeeUpdown terms.protocolFeeBps terms.feeModel (round.pool side)
      (round.pool side.other) = .ok dist) :
    dist.2.2 = terms.upDownFee round side ∧ dist.1 + dist.2.1 = terms.upDownPot round side := by
  have hsum := round.pool_add_other side
  unfold Terms.upDownPot
  cases hbps : terms.protocolFeeBps with
  | none =>
      simp only [hbps, calculateProtocolFeeUpdown, pure, Except.pure, Except.ok.injEq] at hfee
      subst hfee
      cases hmodel : terms.feeModel <;> simp [Terms.upDownFee, hmodel, hbps, rateOf, hsum]
  | some rate =>
      cases hmodel : terms.feeModel with
      | feeOnPot =>
          simp only [hbps, hmodel, calculateProtocolFeeUpdown, bind_eq_ok, payoutAdd_eq_ok,
            checked_eq_ok, divide_eq_ok] at hfee
          obtain ⟨pot, ⟨rfl, -, -⟩, product, ⟨rfl, -, -⟩, fee, ⟨hdiv, -, -, -⟩, hrest⟩ := hfee
          have hbase : 0 ≤ (round.pool side + round.pool side.other) * (rate : ℤ) :=
            mul_nonneg (by omega) (by omega)
          rw [Int.tdiv_eq_ediv_of_nonneg hbase] at hdiv
          have hfee : fee = terms.upDownFee round side := by
            simp [Terms.upDownFee, hmodel, hbps, rateOf, ← hsum, hdiv]
          split at hrest
          · next hzero =>
              simp only [pure, Except.pure, Except.ok.injEq] at hrest
              subst hrest
              exact ⟨hzero ▸ hfee, by simp only; omega⟩
          · simp only [bind_eq_ok, checked_eq_ok, pure, Except.pure, Except.ok.injEq] at hrest
            obtain ⟨spill, ⟨rfl, -, -⟩, win, ⟨rfl, -, -⟩, lose, ⟨rfl, -, -⟩, rfl⟩ := hrest
            exact ⟨hfee, by simp only; omega⟩
      | feeOnWinnings =>
          simp only [hbps, hmodel, calculateProtocolFeeUpdown, bind_eq_ok, checked_eq_ok,
            divide_eq_ok] at hfee
          obtain ⟨product, ⟨rfl, -, -⟩, fee, ⟨hdiv, -, -, -⟩, hrest⟩ := hfee
          have hbase : 0 ≤ round.pool side.other * (rate : ℤ) := mul_nonneg hpools.2 (by omega)
          rw [Int.tdiv_eq_ediv_of_nonneg hbase] at hdiv
          have hfee : fee = terms.upDownFee round side := by
            simp [Terms.upDownFee, hmodel, hbps, rateOf, hdiv]
          split at hrest
          · next hzero =>
              simp only [pure, Except.pure, Except.ok.injEq] at hrest
              subst hrest
              exact ⟨hzero ▸ hfee, by simp only; omega⟩
          · simp only [bind_eq_ok, checked_eq_ok, pure, Except.pure, Except.ok.injEq] at hrest
            obtain ⟨lose, ⟨rfl, -, -⟩, rfl⟩ := hrest
            exact ⟨hfee, by simp only; omega⟩

/-- The fee of an UpDown settlement is between 0 and a tenth of the pot. -/
theorem Terms.upDownFee_bounds {terms : Terms} (hcap : FeeCapped terms.protocolFeeBps)
    {side : BetSide} (hpools : 0 ≤ round.pool side ∧ 0 ≤ round.pool side.other) :
    0 ≤ terms.upDownFee round side ∧
      10 * terms.upDownFee round side ≤ round.poolUp + round.poolDown := by
  have hsum := round.pool_add_other side
  unfold Terms.upDownFee
  cases terms.feeModel with
  | feeOnPot =>
      have hbase : 0 ≤ round.poolUp + round.poolDown := by omega
      exact ⟨rateOf_nonneg hbase, rateOf_le hcap hbase⟩
  | feeOnWinnings =>
      exact ⟨rateOf_nonneg hpools.2, (rateOf_le hcap hpools.2).trans (by omega)⟩

/-- The arithmetic of a competitive UpDown settlement is in range. -/
def UpDownComputes (terms : Terms) (rounds : Rounds A) (round : Round) (side : BetSide)
    (participants : List A) : Prop :=
  ∃ dist,
    calculateProtocolFeeUpdown terms.protocolFeeBps terms.feeModel (round.pool side)
      (round.pool side.other) = .ok dist ∧
    payoutAdd dist.1 dist.2.1 = .ok (terms.upDownPot round side) ∧
    ∀ user ∈ participants, ∀ position,
      rounds.position.get (round.roundId, user) = some position → position.side = side →
      computeUpdownWinnerPayout position.amount (round.pool side) (terms.upDownPot round side) =
        .ok (Apportion.share (terms.upDownPot round side) (round.pool side) position.amount)

/-- The payout the code computes is the winner's share of the pot. -/
theorem computeUpdownWinnerPayout_eq_ok {stake pool pot payout : ℤ} (hstake : 0 ≤ stake)
    (hpot : 0 ≤ pot) (hpool : pool ≠ 0)
    (hpayout : computeUpdownWinnerPayout stake pool pot = .ok payout) :
    payout = Apportion.share pot pool stake := by
  simp only [computeUpdownWinnerPayout, if_neg hpool, bind_eq_ok, payoutMul_eq_ok,
    divide_eq_ok] at hpayout
  obtain ⟨product, ⟨rfl, -, -⟩, hdiv, -, -, -⟩ := hpayout
  rw [← hdiv, Int.tdiv_eq_ediv_of_nonneg (mul_nonneg hstake hpot)]
  rfl

/-- A participant of a competitive round gets the record of the plan. -/
theorem recordWinning_spec {terms : Terms} {rounds : Rounds A} {side : BetSide} {user : A}
    (hbook : UpDownBook rounds round) (huser : user ∈ rounds.participants round.roundId)
    (hpool : round.pool side ≠ 0) (hpot : 0 ≤ terms.upDownPot round side)
    (hrounds : s.rounds = rounds) :
    Ensures (recordWinning round.roundId side (round.pool side) (terms.upDownPot round side) user)
      env s fun _ s' =>
        (∀ position, rounds.position.get (round.roundId, user) = some position →
          position.side = side →
          computeUpdownWinnerPayout position.amount (round.pool side)
              (terms.upDownPot round side) =
            .ok (Apportion.share (terms.upDownPot round side) (round.pool side)
              position.amount)) ∧
        Settles env.ledger.sequence round.roundId [terms.upDownRecord rounds round side user]
          s s' := by
  obtain ⟨position, hposition⟩ := hbook.position huser
  have hstake : rounds.stakeOf .upDown round.roundId user = position.amount := by
    simp [Rounds.stakeOf, hposition]
  simp only [recordWinning, ensures_bind, ensures_gets, hrounds, hposition, ensures_onSome,
    Option.some.injEq, reduceCtorEq, false_implies, and_true, forall_eq', ensures_ite,
    ensures_liftM]
  constructor
  · intro hside payout hpayout
    obtain rfl := computeUpdownWinnerPayout_eq_ok (hbook.amount_pos user position hposition).le
      hpot hpool hpayout
    have hrecord : terms.upDownRecord rounds round side user =
        upDownOutcome user position (Apportion.share (terms.upDownPot round side)
          (round.pool side) position.amount) .win := by
      rw [upDownOutcome_eq hposition 0]
      simp [Terms.upDownRecord, Rounds.betOn, hposition, hside, hstake]
    have hwin := @creditWin_spec _ _ env s round.roundId (terms.upDownRecord rounds round side user)
      (by rw [hrecord]; rfl)
    rw [hrecord] at hwin ⊢
    simp only [ensures_bind] at hwin
    exact hwin.mono fun _ s₁ h₁ => h₁.mono fun _ s₂ h₂ => h₂.mono fun _ s₃ h₃ =>
      ⟨fun _ => hpayout, h₃⟩
  · intro hside
    have hrecord : terms.upDownRecord rounds round side user =
        upDownOutcome user position 0 .loss := by
      rw [upDownOutcome_eq hposition 0]
      simp [Terms.upDownRecord, Rounds.betOn, hposition, hside]
    have hloss := @recordLoss_spec _ _ env s round.roundId (terms.upDownRecord rounds round side user)
      (by rw [hrecord]; rfl)
    rw [hrecord] at hloss ⊢
    simp only [ensures_bind] at hloss
    exact hloss.mono fun _ s₁ h₁ => h₁.mono fun _ s₂ h₂ => ⟨fun hside' => absurd hside' hside, h₂⟩

omit [LinearOrder A] in
/-- Applying the fee collects the fee of the plan and leaves what the winners share. -/
theorem applyProtocolFeeUpdown_spec {side : BetSide}
    (hpools : 0 ≤ round.pool side ∧ 0 ≤ round.pool side.other) :
    Ensures (applyProtocolFeeUpdown (round.pool side) (round.pool side.other)) env s
      fun dist s' =>
        let terms := s.control.settings.terms
        calculateProtocolFeeUpdown terms.protocolFeeBps terms.feeModel (round.pool side)
          (round.pool side.other) = .ok dist ∧
        dist.2.2 = terms.upDownFee round side ∧
        dist.1 + dist.2.1 = terms.upDownPot round side ∧
        s' = s.collectFee (terms.upDownFee round side) := by
  simp only [applyProtocolFeeUpdown, ensures_bind, ensures_gets, ensures_liftM, ensures_onlyIf,
    ensures_pure]
  intro dist hdist
  obtain ⟨hfee, hpot⟩ := @calculateProtocolFeeUpdown_spec _ s.control.settings.terms _ _ hpools hdist
  constructor
  · intro _
    refine (collectProtocolFee_spec dist.2.2).mono ?_
    rintro _ s' rfl
    exact ⟨hdist, hfee, hpot, by rw [← hfee]; rfl⟩
  · intro hzero
    refine ⟨hdist, hfee, hpot, ?_⟩
    rw [← hfee]
    simp [Storage.collectFee, Vault.collectFee, not_lt.mp hzero]

/-- The settlement of a competitive round: the fee of the plan is collected and every participant
gets the record of the plan. -/
theorem recordWinningsIndexed_spec {side : BetSide} {participants : List A}
    (hbook : UpDownBook s.rounds round)
    (hmem : ∀ user ∈ participants, user ∈ s.rounds.participants round.roundId)
    (hcap : FeeCapped s.control.settings.protocolFeeBps) (hpool : round.pool side ≠ 0) :
    Ensures (recordWinningsIndexed round.roundId participants side (round.pool side)
        (round.pool side.other)) env s fun fee s' =>
      let terms := s.control.settings.terms
      UpDownComputes terms s.rounds round side participants ∧
      fee = terms.upDownFee round side ∧
      Executes env.ledger.sequence round.roundId
        ⟨terms.upDownFee round side, participants.map (terms.upDownRecord s.rounds round side)⟩
        s s' := by
  have hpools := And.intro (hbook.pool_nonneg side) (hbook.pool_nonneg side.other)
  have hbounds := (@Terms.upDownFee_bounds _ s.control.settings.terms) hcap hpools
  have hsum := round.pool_add_other side
  have hpot : 0 ≤ s.control.settings.terms.upDownPot round side := by
    unfold Terms.upDownPot
    omega
  simp only [recordWinningsIndexed, if_neg hpool]
  refine (applyProtocolFeeUpdown_spec hpools).bind ?_
  rintro dist s₁ ⟨hdist, hfee, htotal, rfl⟩
  simp only [ensures_bind, ensures_liftM, ensures_pure]
  intro total hadd
  obtain rfl : s.control.settings.terms.upDownPot round side = total := by
    rw [payoutAdd_eq_ok] at hadd
    omega
  refine (@settles_forEach _ _ _ (s.collectFee _) env.ledger.sequence _ _ _ _
    (fun user => [s.control.settings.terms.upDownRecord s.rounds round side user])
    (fun user => ∀ position, s.rounds.position.get (round.roundId, user) = some position →
      position.side = side →
      computeUpdownWinnerPayout position.amount (round.pool side)
          (s.control.settings.terms.upDownPot round side) =
        .ok (Apportion.share (s.control.settings.terms.upDownPot round side)
          (round.pool side) position.amount))
    fun user huser s₂ hrounds _ =>
      recordWinning_spec hbook (hmem user huser) hpool hpot hrounds).mono ?_
  rintro _ s' ⟨hfound, hsettles⟩
  refine ⟨⟨dist, hdist, hadd, hfound⟩, hfee, ?_⟩
  rw [List.map_eq_flatMap]
  exact hsettles

theorem sortAddresses_perm (addresses : List A) : (sortAddresses addresses).Perm addresses :=
  List.perm_insertionSort _ _

theorem mem_sortAddresses {addresses : List A} {address : A} :
    address ∈ sortAddresses addresses ↔ address ∈ addresses :=
  (sortAddresses_perm addresses).mem_iff

/-- The direction of the price decides the winning side. -/
theorem classifyPriceDirection_eq {finalPrice : ℕ} (hmoved : finalPrice ≠ round.priceStart) :
    classifyPriceDirection round.priceStart finalPrice =
      match round.winningSide finalPrice with
      | .up => .up
      | .down => .down := by
  unfold classifyPriceDirection Round.winningSide
  by_cases hup : finalPrice > round.priceStart
  · simp [hup]
  · have hdown : finalPrice < round.priceStart := by omega
    simp [hup, hdown]

omit [LinearOrder A] in
/-- In a round that is not one-sided and has a participant neither pool is empty. -/
theorem UpDownBook.pool_ne_zero {rounds : Rounds A} (hbook : UpDownBook rounds round)
    (hpos : 0 < rounds.totalStake .upDown round.roundId)
    (hsided : ¬ isOneSidedPool round.poolUp round.poolDown = true) (side : BetSide) :
    round.pool side ≠ 0 := by
  have hsum := hbook.pools_eq
  intro hzero
  cases side with
  | up =>
      simp only [Round.pool] at hzero
      have hother : round.poolDown ≠ 0 := by omega
      simp [isOneSidedPool, hzero, hother] at hsided
  | down =>
      simp only [Round.pool] at hzero
      have hother : round.poolUp ≠ 0 := by omega
      simp [isOneSidedPool, hzero, hother] at hsided

omit [LinearOrder A] in
/-- Without participants both pools are empty, and the plan of the round is empty. -/
theorem UpDownBook.plan_of_empty {rounds : Rounds A} (hbook : UpDownBook rounds round)
    (hempty : rounds.participants round.roundId = []) (terms : Terms) (finalPrice : ℕ) :
    terms.upDownPlan rounds round finalPrice [] = ⟨0, []⟩ := by
  have hup : round.poolUp = 0 := by simp [hbook.pool_up, Rounds.sideTotal, hempty]
  have hdown : round.poolDown = 0 := by simp [hbook.pool_down, Rounds.sideTotal, hempty]
  have hrate : rateOf terms.protocolFeeBps 0 = 0 := by
    cases terms.protocolFeeBps <;> simp [rateOf]
  have hpool : ∀ side, round.pool side = 0 := by
    intro side
    cases side <;> simp [Round.pool, hup, hdown]
  unfold Terms.upDownPlan
  split
  · rfl
  · unfold Terms.upDownFee
    split <;> simp [hup, hdown, hpool, hrate]

/-- Refunding an UpDown round at settlement carries out its plan. -/
theorem recordRefundsIndexed_spec {participants : List A} (hbook : UpDownBook s.rounds round)
    (hmode : round.mode = .upDown)
    (hmem : ∀ user ∈ participants, user ∈ s.rounds.participants round.roundId) :
    Ensures (recordRefundsIndexed round.roundId participants) env s fun _ s' =>
      Executes env.ledger.sequence round.roundId
        ⟨0, s.rounds.refundRecords round (fun _ => 0) .refund participants⟩ s s' := by
  refine (refundPositions_spec (by decide) addNothing () (fun _ => 0)
    fun user huser => hbook.position (hmem user huser)).mono ?_
  rintro _ s' ⟨-, hsettles⟩
  unfold Executes Rounds.refundRecords
  rw [hmode]
  exact hsettles

/-- The UpDown settlement carries out its plan. -/
theorem resolveUpdownMode_spec (hbook : Represents s.rounds round) (hmode : round.mode = .upDown)
    (hcap : FeeCapped s.control.settings.protocolFeeBps) (finalPrice : ℕ) :
    Ensures (resolveUpdownMode round finalPrice) env s fun result s' =>
      let terms := s.control.settings.terms
      let participants := sortAddresses (s.rounds.participants round.roundId)
      (¬ round.refundsAt finalPrice → participants ≠ [] →
        UpDownComputes terms s.rounds round (round.winningSide finalPrice) participants) ∧
      result.2 = (terms.upDownPlan s.rounds round finalPrice participants).fee ∧
      Executes env.ledger.sequence round.roundId
        (terms.upDownPlan s.rounds round finalPrice participants) s s' := by
  have hupDown := hbook.upDown hmode
  have hmem : ∀ user ∈ sortAddresses (s.rounds.participants round.roundId),
      user ∈ s.rounds.participants round.roundId := fun user => mem_sortAddresses.mp
  have hrefunds := @recordRefundsIndexed_spec _ _ env _ _ _ hupDown hmode hmem
  simp only [resolveUpdownMode, applyOneSidedPolicy, selectOneSidedPolicy, ensures_bind,
    ensures_gets, ensures_ite, ensures_pure, Bool.not_eq_true]
  refine ⟨fun hsided => ?_, fun hsided => ⟨fun hempty => ?_, fun hne => ?_⟩⟩
  · have hrefund : round.refundsAt finalPrice := .inl hsided
    refine hrefunds.mono fun _ s' hs' => ⟨fun h => absurd hrefund h, ?_⟩
    simp only [Terms.upDownPlan, if_pos hrefund]
    exact ⟨trivial, hs'⟩
  · rw [List.isEmpty_iff] at hempty
    have hraw : s.rounds.participants round.roundId = [] :=
      List.nil_perm.mp (hempty ▸ sortAddresses_perm _)
    rw [hempty, hupDown.plan_of_empty hraw]
    exact ⟨fun _ h => absurd rfl h, rfl, .refl _⟩
  · have hraw : s.rounds.participants round.roundId ≠ [] := by
      intro h
      simp [h, sortAddresses] at hne
    by_cases hprice : finalPrice = round.priceStart
    · have hrefund : round.refundsAt finalPrice := .inr hprice
      have hdirection : classifyPriceDirection round.priceStart finalPrice = .unchanged := by
        simp [classifyPriceDirection, hprice]
      simp only [hdirection, ensures_bind, ensures_pure]
      refine hrefunds.mono fun _ s' hs' => ⟨fun h => absurd hrefund h, ?_⟩
      simp only [Terms.upDownPlan, if_pos hrefund]
      exact ⟨trivial, hs'⟩
    · have hrefund : ¬ round.refundsAt finalPrice := by
        rintro (h | h)
        · simp [h] at hsided
        · exact hprice h
      have hpos := hbook.totalStake_pos hraw
      rw [hmode] at hpos
      have hpool := hupDown.pool_ne_zero hpos (by simp [hsided])
      have hwinnings := fun side => @recordWinningsIndexed_spec _ _ env _ _ _ _ hupDown hmem hcap
        (hpool side)
      rw [classifyPriceDirection_eq hprice]
      simp only [Terms.upDownPlan, if_neg hrefund]
      cases hside : round.winningSide finalPrice with
      | up =>
          simp only [ensures_bind, ensures_pure]
          exact (hwinnings .up).mono fun fee s' h => ⟨fun _ _ => h.1, h.2⟩
      | down =>
          simp only [ensures_bind, ensures_pure]
          exact (hwinnings .down).mono fun fee s' h => ⟨fun _ _ => h.1, h.2⟩

end LinearAddress

end XelmaMarket
