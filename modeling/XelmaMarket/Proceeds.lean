import XelmaMarket.CallEffect

/-!
# What a plan pays adds up

Every plan names each participant once, pays nothing negative and nothing to a loser, and pays no
more than was staked. Refunds and Precision settlements pay out the stakes exactly; a competitive
UpDown settlement loses less than one unit a winner to rounding.
-/

namespace XelmaMarket

variable {A : Type}

/-! ## Sound plans -/

/-- What every plan of a represented round fulfils. -/
structure Plan.Sound (plan : Plan A) (rounds : Rounds A) (round : Round) : Prop where
  users : (plan.records.map (·.user)).Perm (rounds.participants round.roundId)
  stakes : ∀ record ∈ plan.records,
    record.stake = rounds.stakeOf round.mode round.roundId record.user
  payout_nonneg : ∀ record ∈ plan.records, 0 ≤ record.payout
  loss_unpaid : ∀ record ∈ plan.records, record.outcome = .loss → record.payout = 0
  fee_nonneg : 0 ≤ plan.fee
  covered : plan.paid + plan.fee ≤ rounds.totalStake round.mode round.roundId

/-- The fee of a sound plan is no more than the stakes. -/
theorem Plan.Sound.fee_le {plan : Plan A} {rounds : Rounds A} {round : Round}
    (hsound : plan.Sound rounds round) :
    plan.fee ≤ rounds.totalStake round.mode round.roundId := by
  have hpaid : 0 ≤ plan.paid := by
    refine List.sum_nonneg fun payout hpayout => ?_
    obtain ⟨record, hrecord, rfl⟩ := List.mem_map.mp hpayout
    exact hsound.payout_nonneg record hrecord
  have hcovered := hsound.covered
  omega

@[simp] theorem outcomeRecord_stake (rounds : Rounds A) (mode : RoundMode) (roundId price : ℕ)
    (user : A) (payout : ℤ) (outcome : UserOutcomeType) :
    (rounds.outcomeRecord mode roundId price user payout outcome).stake =
      rounds.stakeOf mode roundId user := by
  cases mode <;> rfl

/-- A sum over a list that leaves some items out is the sum over the others. -/
theorem sum_map_ite {α : Type} (items : List α) (p : α → Bool) (f : α → ℤ) :
    (items.map fun a => if p a then f a else 0).sum = ((items.filter p).map f).sum := by
  induction items with
  | nil => rfl
  | cons a rest ih => by_cases hp : p a <;> simp [hp, ih]

section Credits

variable [DecidableEq A] {records : List (UserRoundOutcome A)}

omit [DecidableEq A] in
/-- Every credit belongs to a record. -/
theorem exists_record_of_credit {credit : A × ℤ} (hcredit : credit ∈ creditsOf records) :
    ∃ record ∈ records, credit = (record.user, record.payout) := by
  obtain ⟨record, hmem, rfl⟩ := List.mem_map.mp hcredit
  exact ⟨record, (List.mem_filter.mp hmem).1, rfl⟩

omit [DecidableEq A] in
/-- When losses pay nothing, the credits add up the payouts. -/
theorem sum_creditsOf (hloss : ∀ record ∈ records, record.outcome = .loss → record.payout = 0) :
    ((creditsOf records).map (·.2)).sum = (records.map (·.payout)).sum := by
  have hpaid : records.map (·.payout) = records.map fun record =>
      if decide (record.outcome ≠ .loss) then record.payout else 0 := by
    refine List.map_congr_left fun record hmem => ?_
    by_cases hlost : record.outcome = .loss
    · simp [hlost, hloss record hmem hlost]
    · simp [hlost]
  rw [hpaid, sum_map_ite, creditsOf, List.map_map]
  rfl

/-- Over distinct users, every user is credited the payout of the record. -/
theorem creditTo_creditsOf
    (hloss : ∀ record ∈ records, record.outcome = .loss → record.payout = 0)
    (hnodup : (records.map (·.user)).Nodup) {record : UserRoundOutcome A}
    (hmem : record ∈ records) : creditTo (creditsOf records) record.user = record.payout := by
  have husers : (creditsOf records).map (·.1) =
      (records.filter fun record => record.outcome ≠ .loss).map (·.user) := by
    simp [creditsOf]
  by_cases hlost : record.outcome = .loss
  · rw [hloss record hmem hlost]
    refine creditTo_of_not_mem ?_
    rw [husers]
    intro huser
    obtain ⟨other, hother, heq⟩ := List.mem_map.mp huser
    obtain ⟨hother, hwon⟩ := List.mem_filter.mp hother
    obtain rfl := List.inj_on_of_nodup_map hnodup hother hmem heq
    simp [hlost] at hwon
  · have hcredits : ((creditsOf records).map (·.1)).Nodup := by
      rw [husers]
      exact hnodup.sublist (List.filter_sublist.map _)
    exact creditTo_of_mem hcredits
      (List.mem_map_of_mem (List.mem_filter.mpr ⟨hmem, by simpa using hlost⟩))

end Credits

/-! ## Refunds -/

section Refunds

variable {rounds : Rounds A} {round : Round} {participants : List A}

theorem refundRecords_users (price : A → ℕ) (outcome : UserOutcomeType) :
    (rounds.refundRecords round price outcome participants).map (·.user) = participants := by
  simp [Rounds.refundRecords, Function.comp_def]

theorem refundRecords_payouts (price : A → ℕ) (outcome : UserOutcomeType) :
    (rounds.refundRecords round price outcome participants).map (·.payout) =
      participants.map (rounds.stakeOf round.mode round.roundId) := by
  simp [Rounds.refundRecords, Function.comp_def]

/-- A refund pays out exactly what was staked. -/
theorem paid_refund (price : A → ℕ) (outcome : UserOutcomeType)
    (hparticipants : participants.Perm (rounds.participants round.roundId)) :
    (Plan.mk 0 (rounds.refundRecords round price outcome participants)).paid =
      rounds.totalStake round.mode round.roundId := by
  rw [Plan.paid, refundRecords_payouts]
  exact (hparticipants.map _).sum_eq

/-- A refund is a sound plan. -/
theorem sound_refund (hbook : Represents rounds round) (price : A → ℕ)
    {outcome : UserOutcomeType} (hloss : outcome ≠ .loss)
    (hparticipants : participants.Perm (rounds.participants round.roundId)) :
    (Plan.mk 0 (rounds.refundRecords round price outcome participants)).Sound rounds round := by
  have hrecord : ∀ record ∈ rounds.refundRecords round price outcome participants,
      ∃ user ∈ participants, record = rounds.outcomeRecord round.mode round.roundId (price user)
        user (rounds.stakeOf round.mode round.roundId user) outcome := by
    intro record hmem
    obtain ⟨user, huser, rfl⟩ := List.mem_map.mp hmem
    exact ⟨user, huser, rfl⟩
  constructor
  · rw [refundRecords_users]
    exact hparticipants
  · intro record hmem
    obtain ⟨user, -, rfl⟩ := hrecord record hmem
    simp
  · intro record hmem
    obtain ⟨user, huser, rfl⟩ := hrecord record hmem
    simpa using (hbook.stake_pos (hparticipants.mem_iff.mp huser)).le
  · intro record hmem hlost
    obtain ⟨user, -, rfl⟩ := hrecord record hmem
    simp [hloss] at hlost
  · exact le_rfl
  · rw [paid_refund price outcome hparticipants]
    simp

end Refunds

/-! ## UpDown settlements -/

section UpDown

variable {rounds : Rounds A} {round : Round} {terms : Terms} {side : BetSide}
  {participants : List A}

/-- The payout of a participant of a competitive UpDown settlement. -/
theorem upDownRecord_payout (user : A) :
    (terms.upDownRecord rounds round side user).payout =
      if rounds.betOn round.roundId side user then
        Apportion.share (terms.upDownPot round side) (round.pool side)
          (rounds.stakeOf .upDown round.roundId user)
      else 0 := by
  unfold Terms.upDownRecord
  split <;> simp

@[simp] theorem upDownRecord_user (user : A) :
    (terms.upDownRecord rounds round side user).user = user := by
  unfold Terms.upDownRecord
  split <;> simp

/-- The stake on a side counts for those who bet on it. -/
theorem sideStake_eq (user : A) :
    rounds.sideStake round.roundId side user =
      if rounds.betOn round.roundId side user then rounds.stakeOf .upDown round.roundId user
      else 0 := by
  unfold Rounds.sideStake Rounds.betOn Rounds.stakeOf
  cases rounds.position.get (round.roundId, user) with
  | none => simp
  | some position => simp

/-- The stakes of those who bet on a side. -/
def Rounds.sideStakes (rounds : Rounds A) (roundId : ℕ) (side : BetSide)
    (participants : List A) : List ℤ :=
  (participants.filter fun user => rounds.betOn roundId side user).map
    (rounds.stakeOf .upDown roundId)

/-- The pool of a side is what its stakes add up to. -/
theorem sum_sideStakes (hbook : UpDownBook rounds round)
    (hparticipants : participants.Perm (rounds.participants round.roundId)) :
    (rounds.sideStakes round.roundId side participants).sum = round.pool side := by
  rw [hbook.pool_eq, Rounds.sideTotal, ← (hparticipants.map _).sum_eq]
  rw [List.map_congr_left fun user _ => sideStake_eq user, sum_map_ite]
  rfl

/-- What a competitive UpDown settlement pays is what the winners' shares add up to. -/
theorem paid_upDown (fee : ℤ) :
    (Plan.mk fee (participants.map (terms.upDownRecord rounds round side))).paid =
      (Apportion.shares (terms.upDownPot round side) (round.pool side)
        (rounds.sideStakes round.roundId side participants)).sum := by
  have hpayouts : (participants.map (terms.upDownRecord rounds round side)).map (·.payout) =
      participants.map fun user => if rounds.betOn round.roundId side user then
        Apportion.share (terms.upDownPot round side) (round.pool side)
          (rounds.stakeOf .upDown round.roundId user) else 0 := by
    rw [List.map_map]
    exact List.map_congr_left fun user _ => upDownRecord_payout user
  rw [Plan.paid, hpayouts, Apportion.shares, Rounds.sideStakes, List.map_map, sum_map_ite]
  rfl

variable (hbook : Represents rounds round) (hmode : round.mode = .upDown)
  (hcap : FeeCapped terms.protocolFeeBps)
include hbook hmode

/-- A pool that is not empty is positive. -/
theorem pool_pos (hpool : round.pool side ≠ 0) : 0 < round.pool side := by
  have := (hbook.upDown hmode).pool_nonneg side
  omega

variable (terms) in
/-- A competitive UpDown settlement pays at most the pot, and rounding loses less than one unit a
winner. -/
theorem paid_upDown_bounds (hpool : round.pool side ≠ 0)
    (hparticipants : participants.Perm (rounds.participants round.roundId)) (fee : ℤ) :
    (Plan.mk fee (participants.map (terms.upDownRecord rounds round side))).paid ≤
        terms.upDownPot round side ∧
      terms.upDownPot round side <
        (Plan.mk fee (participants.map (terms.upDownRecord rounds round side))).paid +
          (participants.filter fun user => rounds.betOn round.roundId side user).length := by
  have hpos := pool_pos hbook hmode hpool
  have hsum := @sum_sideStakes _ _ _ side _ (hbook.upDown hmode) hparticipants
  rw [paid_upDown]
  refine ⟨Apportion.sum_shares_le hpos hsum, ?_⟩
  have hlt := (@Apportion.lt_sum_shares_add_length (terms.upDownPot round side)) hpos hsum
  simpa [Rounds.sideStakes] using hlt

include hcap

/-- The winners of a competitive round share a pot that covers at least nine tenths of the
stakes. -/
theorem upDownPot_nonneg : 0 ≤ terms.upDownPot round side := by
  have hbounds := @Terms.upDownFee_bounds _ _ hcap side
    ⟨(hbook.upDown hmode).pool_nonneg side, (hbook.upDown hmode).pool_nonneg side.other⟩
  unfold Terms.upDownPot
  omega

/-- A competitive UpDown settlement is a sound plan. -/
theorem sound_upDown (hpool : round.pool side ≠ 0)
    (hparticipants : participants.Perm (rounds.participants round.roundId)) :
    (Plan.mk (terms.upDownFee round side)
      (participants.map (terms.upDownRecord rounds round side))).Sound rounds round := by
  have hupDown := hbook.upDown hmode
  have hpos := pool_pos hbook hmode hpool
  have hpot := @upDownPot_nonneg _ _ _ _ side hbook hmode hcap
  constructor
  · simpa [Function.comp_def] using hparticipants
  · intro record hmem
    obtain ⟨user, huser, rfl⟩ := List.mem_map.mp hmem
    rw [hmode]
    unfold Terms.upDownRecord
    split <;> simp
  · intro record hmem
    obtain ⟨user, huser, rfl⟩ := List.mem_map.mp hmem
    have hstake := hbook.stake_pos (hparticipants.mem_iff.mp huser)
    rw [hmode] at hstake
    rw [upDownRecord_payout]
    split
    · exact Apportion.share_nonneg hpot hpos.le hstake.le
    · exact le_rfl
  · intro record hmem hlost
    obtain ⟨user, huser, rfl⟩ := List.mem_map.mp hmem
    rw [upDownRecord_payout]
    split
    · next hbet => simp [Terms.upDownRecord, hbet] at hlost
    · rfl
  · exact (Terms.upDownFee_bounds hcap
      ⟨hupDown.pool_nonneg side, hupDown.pool_nonneg side.other⟩).1
  · have hpaid := (paid_upDown_bounds terms hbook hmode hpool hparticipants
      (terms.upDownFee round side)).1
    rw [hmode, ← hupDown.pools_eq]
    unfold Terms.upDownPot at hpaid
    show _ + terms.upDownFee round side ≤ _
    omega

end UpDown

/-! ## Precision settlements -/

section Payouts

variable {policy : PrecisionPayoutPolicy} {pool : ℤ} {stakes : List ℤ}

theorem withRemainder_sum {shares : List ℤ} (hne : shares ≠ []) :
    (withRemainder pool shares).sum = pool := by
  cases shares with
  | nil => exact absurd rfl hne
  | cons first rest =>
      simp only [withRemainder, List.sum_cons]
      omega

/-- The winners together are paid the whole pool. -/
theorem sum_payouts (hne : stakes ≠ []) : (policy.payouts pool stakes).sum = pool := by
  refine withRemainder_sum ?_
  simpa [PrecisionPayoutPolicy.shares] using hne

variable (hpool : 0 ≤ pool) (hstakes : ∀ stake ∈ stakes, 0 < stake)
include hpool hstakes

/-- No share is negative. -/
theorem shares_nonneg {share : ℤ} (hshare : share ∈ policy.shares pool stakes) : 0 ≤ share := by
  obtain ⟨stake, hmem, rfl⟩ := List.mem_map.mp hshare
  cases policy with
  | equal => exact Int.ediv_nonneg hpool (by omega)
  | stakeWeighted =>
      exact Apportion.share_nonneg hpool (List.sum_nonneg fun x hx => (hstakes x hx).le)
        (hstakes stake hmem).le

/-- The shares do not exceed the pool. -/
theorem sum_policyShares_le : (policy.shares pool stakes).sum ≤ pool := by
  rcases eq_or_ne stakes [] with rfl | hne
  · simpa [PrecisionPayoutPolicy.shares] using hpool
  · cases policy with
    | equal =>
        have hshares : PrecisionPayoutPolicy.shares .equal pool stakes =
            List.replicate stakes.length (pool / stakes.length) :=
          List.map_const'
        rw [hshares, List.sum_replicate, nsmul_eq_mul]
        exact Int.mul_ediv_self_le (by simpa using hne)
    | stakeWeighted => exact Apportion.sum_shares_le (List.sum_pos _ hstakes hne) rfl

/-- No payout is negative: the remainder is what the shares leave of the pool. -/
theorem payouts_nonneg {payout : ℤ} (hpayout : payout ∈ policy.payouts pool stakes) :
    0 ≤ payout := by
  have hsum := @sum_policyShares_le policy _ _ hpool hstakes
  have hnonneg := fun share => @shares_nonneg policy _ _ hpool hstakes share
  unfold PrecisionPayoutPolicy.payouts at hpayout
  cases hshares : policy.shares pool stakes with
  | nil => simp [hshares, withRemainder] at hpayout
  | cons first rest =>
      rw [hshares] at hpayout hsum hnonneg
      have hfirst := hnonneg first (by simp)
      rcases List.mem_cons.mp hpayout with rfl | hrest
      · omega
      · exact hnonneg payout (List.mem_cons_of_mem _ hrest)

end Payouts

section Precision

variable {rounds : Rounds A} {round : Round} {terms : Terms} {finalPrice : ℕ}
  {participants : List A}

theorem payouts_length (policy : PrecisionPayoutPolicy) (pool : ℤ) (stakes : List ℤ) :
    (policy.payouts pool stakes).length = stakes.length := by
  simp [PrecisionPayoutPolicy.payouts, withRemainder_length, PrecisionPayoutPolicy.shares]

/-- The records of the winners name the winners, in order. -/
theorem winRecords_users (pool : ℤ) (winners : List A) :
    (terms.winRecords rounds round.roundId pool winners).map (·.user) = winners := by
  have hlength := payouts_length terms.payoutPolicy pool
    (winners.map (rounds.stakeOf .precision round.roundId))
  rw [List.length_map] at hlength
  unfold Terms.winRecords
  rw [List.map_zipWith]
  simp only [outcomeRecord_user]
  refine List.ext_getElem (by simp [hlength]) fun i hi hi' => ?_
  simp

/-- The records of the winners pay the payouts, in order. -/
theorem winRecords_payouts (pool : ℤ) (winners : List A) :
    (terms.winRecords rounds round.roundId pool winners).map (·.payout) =
      terms.payoutPolicy.payouts pool
        (winners.map (rounds.stakeOf .precision round.roundId)) := by
  have hlength := payouts_length terms.payoutPolicy pool
    (winners.map (rounds.stakeOf .precision round.roundId))
  rw [List.length_map] at hlength
  unfold Terms.winRecords
  rw [List.map_zipWith]
  simp only [outcomeRecord_payout]
  refine List.ext_getElem (by simp [hlength]) fun i hi hi' => ?_
  simp

/-- Every record of a winner is a win of the user's stake. -/
theorem mem_winRecords {pool : ℤ} {winners : List A} {record : UserRoundOutcome A}
    (hmem : record ∈ terms.winRecords rounds round.roundId pool winners) :
    record.outcome = .win ∧ record.user ∈ winners ∧
      record.stake = rounds.stakeOf .precision round.roundId record.user ∧
      record.payout ∈ terms.payoutPolicy.payouts pool
        (winners.map (rounds.stakeOf .precision round.roundId)) := by
  have huser := List.mem_map_of_mem (f := (·.user)) hmem
  have hpayout := List.mem_map_of_mem (f := (·.payout)) hmem
  rw [winRecords_users] at huser
  rw [winRecords_payouts] at hpayout
  unfold Terms.winRecords at hmem
  obtain ⟨i, hi, rfl⟩ := List.mem_iff_getElem.mp hmem
  rw [List.getElem_zipWith] at huser hpayout ⊢
  exact ⟨by simp, huser, by simp, hpayout⟩

variable (hbook : Represents rounds round) (hmode : round.mode = .precision)
  (hcap : FeeCapped terms.protocolFeeBps)
  (hparticipants : participants.Perm (rounds.participants round.roundId))
include hmode hparticipants

theorem sum_precision_stakes :
    (participants.map (rounds.stakeOf .precision round.roundId)).sum =
      rounds.totalStake round.mode round.roundId := by
  rw [hmode]
  exact (hparticipants.map _).sum_eq

include hbook

/-- Every participant of a Precision round has a positive stake. -/
theorem precision_stake_pos {user : A} (huser : user ∈ participants) :
    0 < rounds.stakeOf .precision round.roundId user := by
  have := hbook.stake_pos (hparticipants.mem_iff.mp huser)
  rwa [hmode] at this

include hcap

/-- The fee of a Precision settlement with a winner leaves at least nine tenths of the pot. -/
theorem precisionFee_bounds_of_winners :
    0 ≤ terms.precisionFee (participants.map (rounds.stakeOf .precision round.roundId)).sum
        (rounds.stakesOf round.roundId (rounds.winners round.roundId finalPrice participants)) ∧
      10 * terms.precisionFee (participants.map (rounds.stakeOf .precision round.roundId)).sum
          (rounds.stakesOf round.roundId (rounds.winners round.roundId finalPrice participants)) ≤
        (participants.map (rounds.stakeOf .precision round.roundId)).sum := by
  have hstaked : ∀ user ∈ participants, 0 < rounds.stakeOf .precision round.roundId user :=
    fun user huser => precision_stake_pos hbook hmode hparticipants huser
  refine Terms.precisionFee_bounds hcap (List.sum_nonneg ?_) (stakesOf_winners_le hstaked)
  intro x hx
  obtain ⟨user, huser, rfl⟩ := List.mem_map.mp hx
  exact (hstaked user (List.mem_filter.mp huser).1).le

/-- A Precision settlement is a sound plan that pays out every stake but the fee. -/
theorem sound_precision :
    (terms.precisionPlan rounds round finalPrice participants).Sound rounds round ∧
      (terms.precisionPlan rounds round finalPrice participants).paid +
          (terms.precisionPlan rounds round finalPrice participants).fee =
        rounds.totalStake round.mode round.roundId := by
  by_cases hwinners : rounds.winners round.roundId finalPrice participants = []
  · simp only [Terms.precisionPlan, if_pos hwinners]
    refine ⟨sound_refund hbook _ (by decide) hparticipants, ?_⟩
    rw [paid_refund _ _ hparticipants, add_zero]
  · have hfee := @precisionFee_bounds_of_winners _ _ _ _ finalPrice _ hbook hmode hcap
      hparticipants
    have hpot := sum_precision_stakes hmode hparticipants
    have htotal := hbook.totalStake_nonneg
    have hstaked : ∀ user ∈ participants, 0 < rounds.stakeOf .precision round.roundId user :=
      fun user huser => precision_stake_pos hbook hmode hparticipants huser
    simp only [Terms.precisionPlan, if_neg hwinners]
    rw [hpot] at hfee ⊢
    generalize terms.precisionFee (rounds.totalStake round.mode round.roundId)
      (rounds.stakesOf round.roundId (rounds.winners round.roundId finalPrice participants)) =
        fee at hfee ⊢
    have hstakes : ∀ stake ∈ (rounds.winners round.roundId finalPrice participants).map
        (rounds.stakeOf .precision round.roundId), 0 < stake := by
      intro stake hstake
      obtain ⟨user, huser, rfl⟩ := List.mem_map.mp hstake
      exact hstaked user (List.mem_filter.mp huser).1
    have hloser : ∀ record ∈ (participants.filter fun user =>
        ¬ rounds.IsWinner round.roundId finalPrice participants user).map
        (rounds.lossRecord round.roundId), record.payout = 0 ∧
          record.stake = rounds.stakeOf .precision round.roundId record.user := by
      intro record hrecord
      obtain ⟨user, -, rfl⟩ := List.mem_map.mp hrecord
      simp [Rounds.lossRecord]
    have hpaid : (Plan.mk fee (terms.winRecords rounds round.roundId
        (rounds.totalStake round.mode round.roundId - fee)
        (rounds.winners round.roundId finalPrice participants) ++
          (participants.filter fun user =>
            ¬ rounds.IsWinner round.roundId finalPrice participants user).map
            (rounds.lossRecord round.roundId))).paid =
        rounds.totalStake round.mode round.roundId - fee := by
      rw [Plan.paid, List.map_append, List.sum_append, winRecords_payouts,
        sum_payouts (by simpa using hwinners),
        List.sum_eq_zero (fun x hx => ?_), add_zero]
      obtain ⟨record, hrecord, rfl⟩ := List.mem_map.mp hx
      exact (hloser record hrecord).1
    refine ⟨⟨?_, ?_, ?_, ?_, hfee.1, ?_⟩, ?_⟩
    · rw [List.map_append, winRecords_users, List.map_map]
      have hlosers : ∀ users : List A,
          users.map ((·.user) ∘ rounds.lossRecord round.roundId) = users := by
        intro users
        simp [Function.comp_def, Rounds.lossRecord]
      rw [hlosers]
      simp only [decide_not]
      exact (List.filter_append_perm _ participants).trans hparticipants
    · intro record hrecord
      rw [hmode]
      rcases List.mem_append.mp hrecord with hwin | hlost
      · exact (mem_winRecords hwin).2.2.1
      · exact (hloser record hlost).2
    · intro record hrecord
      rcases List.mem_append.mp hrecord with hwin | hlost
      · exact payouts_nonneg (by omega) hstakes (mem_winRecords hwin).2.2.2
      · exact (hloser record hlost).1.ge
    · intro record hrecord houtcome
      rcases List.mem_append.mp hrecord with hwin | hlost
      · rw [(mem_winRecords hwin).1] at houtcome
        cases houtcome
      · exact (hloser record hlost).1
    · rw [hpaid]
      simp
    · rw [hpaid]
      simp

end Precision

/-! ## Endings -/

/-- The price a round is settled at, if it is. -/
def EndingKind.price : EndingKind → Option ℕ
  | .resolved finalPrice | .finalized finalPrice => some finalPrice
  | .fallbackRefund | .cancelled _ | .voided => none

/-- The winners of an UpDown settlement. -/
def Rounds.upDownWinners (rounds : Rounds A) (round : Round) (finalPrice : ℕ) : List A :=
  (rounds.participants round.roundId).filter
    (rounds.betOn round.roundId (round.winningSide finalPrice))

/-- A competitive UpDown settlement: both sides have stakes and the price moved. -/
structure Ending.IsCompetitive (ending : Ending) (finalPrice : ℕ) : Prop where
  price : ending.kind.price = some finalPrice
  upDown : ending.round.mode = .upDown
  pools : 0 < ending.round.poolUp ∧ 0 < ending.round.poolDown
  moved : finalPrice ≠ ending.round.priceStart

section Endings

variable [LinearOrder A] {rounds : Rounds A} {terms : Terms} {round : Round} {finalPrice : ℕ}

omit [LinearOrder A] in
/-- Both pools of an UpDown round that is settled and not refunded have stakes, unless nobody
takes part. -/
theorem pools_pos (hbook : Represents rounds round) (hmode : round.mode = .upDown)
    (hrefund : ¬ round.refundsAt finalPrice) (hne : rounds.participants round.roundId ≠ []) :
    0 < round.poolUp ∧ 0 < round.poolDown := by
  have hpos := hbook.totalStake_pos hne
  rw [hmode] at hpos
  have hsided : ¬ isOneSidedPool round.poolUp round.poolDown = true := fun h => hrefund (.inl h)
  have hpool := (hbook.upDown hmode).pool_ne_zero hpos hsided
  exact ⟨pool_pos hbook hmode (hpool .up), pool_pos hbook hmode (hpool .down)⟩

/-- The plan of a settlement is sound, and it pays out the stakes but the fee exactly or loses
less than one unit a winner in a competitive UpDown round. -/
theorem Terms.plan_sound (hbook : Represents rounds round)
    (hcap : FeeCapped terms.protocolFeeBps) (finalPrice : ℕ) :
    (terms.plan rounds round finalPrice).Sound rounds round ∧
      ((terms.plan rounds round finalPrice).paid + (terms.plan rounds round finalPrice).fee =
          rounds.totalStake round.mode round.roundId ∨
        (round.mode = .upDown ∧ 0 < round.poolUp ∧ 0 < round.poolDown ∧
          finalPrice ≠ round.priceStart) ∧
        rounds.totalStake round.mode round.roundId <
          (terms.plan rounds round finalPrice).paid + (terms.plan rounds round finalPrice).fee +
            (rounds.upDownWinners round finalPrice).length) := by
  have hperm := sortAddresses_perm (rounds.participants round.roundId)
  unfold Terms.plan
  cases hmode : round.mode with
  | precision =>
      have h := @sound_precision _ _ _ _ finalPrice _ hbook hmode hcap hperm
      rw [hmode] at h
      exact ⟨h.1, .inl h.2⟩
  | upDown =>
      by_cases hrefund : round.refundsAt finalPrice
      · simp only [Terms.upDownPlan, if_pos hrefund]
        refine ⟨sound_refund hbook _ (by decide) hperm, .inl ?_⟩
        rw [paid_refund _ _ hperm, hmode, add_zero]
      · by_cases hempty : rounds.participants round.roundId = []
        · have hsorted : sortAddresses (rounds.participants round.roundId) = [] := by
            simp [hempty, sortAddresses]
          simp only [hsorted, (hbook.upDown hmode).plan_of_empty hempty]
          have htotal : rounds.totalStake .upDown round.roundId = 0 := by
            simp [Rounds.totalStake, hempty]
          refine ⟨⟨?_, ?_, ?_, ?_, le_rfl, ?_⟩, .inl ?_⟩
          · simp [hempty]
          · simp
          · simp
          · simp
          · simp [hmode, htotal, Plan.paid]
          · simp [htotal, Plan.paid]
        · have hpools := pools_pos hbook hmode hrefund hempty
          have hpool : round.pool (round.winningSide finalPrice) ≠ 0 := by
            cases round.winningSide finalPrice with
            | up => exact hpools.1.ne'
            | down => exact hpools.2.ne'
          simp only [Terms.upDownPlan, if_neg hrefund]
          refine ⟨sound_upDown hbook hmode hcap hpool hperm, .inr ⟨⟨trivial, hpools.1, hpools.2,
            fun h => hrefund (.inr h)⟩, ?_⟩⟩
          have hpaid := (paid_upDown_bounds terms hbook hmode hpool hperm
            (terms.upDownFee round (round.winningSide finalPrice))).2
          have hwinners : ((sortAddresses (rounds.participants round.roundId)).filter
              (rounds.betOn round.roundId (round.winningSide finalPrice))).length =
                (rounds.upDownWinners round finalPrice).length :=
            (hperm.filter _).length_eq
          rw [hwinners] at hpaid
          rw [← (hbook.upDown hmode).pools_eq]
          unfold Terms.upDownPot at hpaid
          omega

/-- An ending with a price carries out the settlement at the price. -/
theorem Ending.plan_of_price {ending : Ending} (hprice : ending.kind.price = some finalPrice) :
    ending.plan terms rounds = terms.plan rounds ending.round finalPrice := by
  cases hkind : ending.kind <;> simp_all [EndingKind.price, Ending.plan]

/-- An ending without a price refunds every participant. -/
theorem Ending.plan_of_no_price {ending : Ending} (hprice : ending.kind.price = none) :
    ∃ price outcome, (outcome = .refund ∨ outcome = .void) ∧
      ending.plan terms rounds = ⟨0, rounds.refundRecords ending.round price outcome
        (rounds.participants ending.round.roundId)⟩ := by
  cases hkind : ending.kind with
  | resolved finalPrice | finalized finalPrice => simp [hkind, EndingKind.price] at hprice
  | fallbackRefund => exact ⟨fun _ => 0, .refund, by decide, by simp only [Ending.plan, hkind]⟩
  | cancelled reason => exact ⟨fun _ => 0, .void, by decide, by simp only [Ending.plan, hkind]⟩
  | voided =>
      exact ⟨revealedPrice rounds ending.round.roundId, .void, by decide, by
        simp only [Ending.plan, hkind]⟩

omit [LinearOrder A] in
/-- A settlement at a price pays no coverage. -/
theorem coveragePaid_of_price {s : Storage A} {ending : Ending}
    (hprice : ending.kind.price = some finalPrice) : s.coveragePaid ending = 0 := by
  unfold Storage.coveragePaid Ending.isCovered
  cases hkind : ending.kind with
  | resolved price | finalized price | fallbackRefund | voided => rfl
  | cancelled reason =>
      rw [hkind] at hprice
      cases hprice

/-- The plan of every ending is sound. -/
theorem Ending.plan_sound {ending : Ending} (hbook : Represents rounds ending.round)
    (hcap : FeeCapped terms.protocolFeeBps) :
    (ending.plan terms rounds).Sound rounds ending.round := by
  cases hprice : ending.kind.price with
  | some finalPrice =>
      rw [Ending.plan_of_price hprice]
      exact (Terms.plan_sound hbook hcap finalPrice).1
  | none =>
      obtain ⟨price, outcome, houtcome, hplan⟩ :=
        @Ending.plan_of_no_price _ _ rounds terms _ hprice
      rw [hplan]
      exact sound_refund hbook _ (by rcases houtcome with rfl | rfl <;> decide) (.refl _)

/-- An ending pays out the stakes but the fee, except that a competitive UpDown settlement loses
less than one unit a winner. -/
theorem Ending.paid_cases {ending : Ending} (hbook : Represents rounds ending.round)
    (hcap : FeeCapped terms.protocolFeeBps) :
    (ending.plan terms rounds).paid + (ending.plan terms rounds).fee =
        rounds.totalStake ending.round.mode ending.round.roundId ∨
      ∃ finalPrice, ending.IsCompetitive finalPrice ∧
        rounds.totalStake ending.round.mode ending.round.roundId <
          (ending.plan terms rounds).paid + (ending.plan terms rounds).fee +
            (rounds.upDownWinners ending.round finalPrice).length := by
  cases hprice : ending.kind.price with
  | some finalPrice =>
      rw [Ending.plan_of_price hprice]
      refine (Terms.plan_sound hbook hcap finalPrice).2.imp_right ?_
      rintro ⟨⟨hmode, hup, hdown, hmoved⟩, hlt⟩
      exact ⟨finalPrice, ⟨hprice, hmode, ⟨hup, hdown⟩, hmoved⟩, hlt⟩
  | none =>
      obtain ⟨price, outcome, -, hplan⟩ :=
        @Ending.plan_of_no_price _ _ rounds terms _ hprice
      left
      rw [hplan, paid_refund _ _ (.refl _), add_zero]

end Endings

end XelmaMarket
