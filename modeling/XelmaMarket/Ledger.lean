import XelmaMarket.Invariant

/-!
# The value ledger

All value the contract holds: the balances, the pending winnings, the treasury, the insurance
fund and the stakes in escrow. Every effect moves value between these accounts, and the lemmas
say by how much the sum changes.
-/

namespace XelmaMarket

variable {A : Type}

/-! ## What the accounts hold -/

/-- The value outside the rounds. -/
noncomputable def Vault.worth (vault : Vault A) : ℤ :=
  vault.balance.total (fun _ amount => amount) + vault.pendingTotal + vault.treasury +
    vault.insuranceFund

/-- The stakes in escrow: every stored position, and for every participant the stake of the
prediction or else of the commitment. -/
noncomputable def Rounds.escrow (rounds : Rounds A) : ℤ :=
  rounds.position.total (fun _ position => position.amount) +
    rounds.roundParticipants.total fun roundId users =>
      (users.map (precisionStake rounds roundId)).sum

/-- All value the contract holds. -/
noncomputable def Storage.value (s : Storage A) : ℤ :=
  s.vault.worth + s.rounds.escrow

section Vault

variable [DecidableEq A] (vault : Vault A) (user : A) (amount : ℤ)

theorem worth_debit : (vault.debit user amount).worth = vault.worth - amount := by
  show (vault.balance.set user (vault.balanceOf user - amount)).total _ + _ + _ + _ = _
  rw [Store.total_set, Store.weight_eq_getD]
  unfold Vault.worth Vault.balanceOf
  show _ + vault.pendingTotal + vault.treasury + vault.insuranceFund = _
  omega

theorem worth_deposit : (vault.deposit user amount).worth = vault.worth + amount := by
  show (vault.balance.set user (vault.balanceOf user + amount)).total _ + _ + _ + _ = _
  rw [Store.total_set, Store.weight_eq_getD]
  unfold Vault.worth Vault.balanceOf
  show _ + vault.pendingTotal + vault.treasury + vault.insuranceFund = _
  omega

theorem worth_clearPending :
    (vault.clearPending user).worth = vault.worth - vault.pendingOf user := by
  have hpending : (vault.clearPending user).pendingTotal =
      vault.pendingTotal - vault.pendingOf user := by
    unfold Vault.pendingTotal Vault.clearPending
    rw [Store.total_remove, Store.weight_eq_getD]
    rfl
  unfold Vault.worth
  rw [hpending]
  show vault.balance.total _ + _ + vault.treasury + vault.insuranceFund = _
  omega

theorem claim_eq (hpending : vault.pendingOf user ≠ 0) :
    vault.claim user = (vault.clearPending user).deposit user (vault.pendingOf user) := by
  simp only [Vault.claim, if_neg hpending]
  rfl

theorem worth_claim : (vault.claim user).worth = vault.worth := by
  by_cases hpending : vault.pendingOf user = 0
  · simp [Vault.claim, hpending]
  · rw [claim_eq vault user hpending, worth_deposit, worth_clearPending]
    omega

theorem worth_claimAll (users : List A) : (users.foldl Vault.claim vault).worth = vault.worth := by
  induction users generalizing vault with
  | nil => rfl
  | cons user rest ih => exact (ih _).trans (worth_claim vault user)

theorem worth_creditAll (ledger : ℕ) (credits : List (A × ℤ)) :
    (vault.creditAll ledger credits).worth = vault.worth + (credits.map (·.2)).sum := by
  unfold Vault.worth
  rw [Vault.creditAll_pendingTotal]
  simp only [Vault.creditAll_balance, Vault.creditAll_treasury, Vault.creditAll_insuranceFund]
  omega

omit [DecidableEq A] in
theorem worth_collectFee (splitBps : ℕ) {fee : ℤ} (hfee : 0 ≤ fee) :
    (vault.collectFee splitBps fee).worth = vault.worth + fee := by
  unfold Vault.worth Vault.pendingTotal
  rw [Vault.collectFee_balance, Vault.collectFee_pendingWinnings,
    Vault.collectFee_treasury _ _ hfee, Vault.collectFee_insuranceFund _ _ hfee]
  omega

omit [DecidableEq A] in
theorem worth_payFromFund {paid : ℤ} (hpaid : 0 ≤ paid) :
    (vault.payFromFund paid).worth = vault.worth - paid := by
  unfold Vault.worth Vault.pendingTotal
  rw [Vault.payFromFund_balance, Vault.payFromFund_pendingWinnings,
    Vault.payFromFund_treasury, Vault.payFromFund_insuranceFund _ hpaid]
  omega

/-- Paying out collected fees moves value to a balance. -/
theorem worth_payFee :
    { vault.deposit user amount with
      protocolFeeTreasury := some (.amount (vault.treasury - amount)) }.worth = vault.worth := by
  have hdeposit := worth_deposit vault user amount
  have htreasury : (vault.deposit user amount).treasury = vault.treasury := rfl
  unfold Vault.worth at hdeposit ⊢
  show (vault.deposit user amount).balance.total _ + (vault.deposit user amount).pendingTotal +
    (vault.treasury - amount) + (vault.deposit user amount).insuranceFund = _
  omega

/-- Paying out of the fund moves value to a balance. -/
theorem worth_payFund :
    { vault.deposit user amount with
      insFundBal := some (vault.insuranceFund - amount) }.worth = vault.worth := by
  have hdeposit := worth_deposit vault user amount
  have hfund : (vault.deposit user amount).insuranceFund = vault.insuranceFund := rfl
  unfold Vault.worth at hdeposit ⊢
  show (vault.deposit user amount).balance.total _ + (vault.deposit user amount).pendingTotal +
    (vault.deposit user amount).treasury + (vault.insuranceFund - amount) = _
  omega

/-- A top-up moves value from a balance to the fund. -/
theorem worth_topUp :
    { vault.debit user amount with
      insFundBal := some (vault.insuranceFund + amount) }.worth = vault.worth := by
  have hdebit := worth_debit vault user amount
  have hfund : (vault.debit user amount).insuranceFund = vault.insuranceFund := rfl
  unfold Vault.worth at hdebit ⊢
  show (vault.debit user amount).balance.total _ + (vault.debit user amount).pendingTotal +
    (vault.debit user amount).treasury + (vault.insuranceFund + amount) = _
  omega

end Vault

/-! ## What the rounds hold -/

section Escrow

variable {rounds rounds' : Rounds A} {round : Round} {roundId : ℕ}

/-- What a user has at stake in a round under the keys of either mode. -/
def Rounds.held (rounds : Rounds A) (roundId : ℕ) (user : A) : ℤ :=
  rounds.stakeOf .upDown roundId user + rounds.stakeOf .precision roundId user

/-- What all participants of a round have at stake. -/
def Rounds.heldIn (rounds : Rounds A) (roundId : ℕ) : ℤ :=
  ((rounds.participants roundId).map (rounds.held roundId)).sum

/-- In a represented round only the stakes of its mode count. -/
theorem Represents.heldIn (hbook : Represents rounds round) :
    rounds.heldIn round.roundId = rounds.totalStake round.mode round.roundId := by
  refine congrArg List.sum (List.map_congr_left fun user _ => ?_)
  cases hmode : round.mode with
  | upDown =>
      have h := hbook.upDown hmode
      simp [Rounds.held, Rounds.stakeOf, precisionStake, h.no_prediction, h.no_commitment]
  | precision => simp [Rounds.held, Rounds.stakeOf, (hbook.precision hmode).no_position]

theorem NoBook.heldIn (hnone : NoBook rounds roundId) : rounds.heldIn roundId = 0 := by
  simp [Rounds.heldIn, hnone.participants]

theorem SameBook.heldIn (hsame : SameBook rounds rounds' roundId) :
    rounds'.heldIn roundId = rounds.heldIn roundId := by
  unfold Rounds.heldIn
  rw [hsame.participants]
  refine congrArg List.sum (List.map_congr_left fun user _ => ?_)
  simp [Rounds.held, hsame.stakeOf]

/-- The escrow is what the listed rounds hold. -/
theorem Rounds.Ordered.escrow_eq (hordered : rounds.Ordered) :
    rounds.escrow = rounds.roundParticipants.total fun roundId users =>
      (users.map (rounds.held roundId)).sum := by
  have hfibers := Store.total_fibers rounds.position rounds.roundParticipants
    (fun _ position => position.amount) ?_ ?_
  · unfold Rounds.escrow
    rw [hfibers]
    unfold Store.total
    rw [← finsum_add_distrib (Store.weight_support_finite _ _) (Store.weight_support_finite _ _)]
    refine finsum_congr fun roundId => ?_
    unfold Store.weight
    cases hget : rounds.roundParticipants.get roundId with
    | none => rfl
    | some users =>
        simp only [Option.elim_some]
        rw [← List.sum_map_add]
        rfl
  · intro roundId users hget
    obtain ⟨round, rfl, hbook⟩ := hordered.represented roundId
    have := hbook.nodup
    rwa [Rounds.participants, Store.getD, hget] at this
  · intro roundId user hsome
    obtain ⟨position, hposition⟩ := Option.ne_none_iff_exists'.mp hsome
    obtain ⟨round, rfl, hbook⟩ := hordered.represented roundId
    have hmem : user ∈ rounds.participants round.roundId := by
      cases hmode : round.mode with
      | upDown => exact ((hbook.upDown hmode).position_iff user).mp ⟨position, hposition⟩
      | precision => simp [(hbook.precision hmode).no_position] at hposition
    cases hget : rounds.roundParticipants.get round.roundId with
    | none => simp [Rounds.participants, Store.getD, hget] at hmem
    | some users =>
        rw [Rounds.participants, Store.getD, hget] at hmem
        exact ⟨users, rfl, hmem⟩

/-- What one listed round weighs in the escrow. -/
theorem weight_held (rounds : Rounds A) (roundId : ℕ) :
    rounds.roundParticipants.weight (fun roundId users => (users.map (rounds.held roundId)).sum)
      roundId = rounds.heldIn roundId := by
  unfold Store.weight Rounds.heldIn Rounds.participants Store.getD
  cases rounds.roundParticipants.get roundId <;> rfl

/-- A change of one round's book changes the escrow by what the round holds. -/
theorem escrow_touch (hordered : rounds.Ordered) (hordered' : rounds'.Ordered) (roundId : ℕ)
    (hother : ∀ id, id ≠ roundId → SameBook rounds rounds' id) :
    rounds'.escrow = rounds.escrow + (rounds'.heldIn roundId - rounds.heldIn roundId) := by
  rw [hordered.escrow_eq, hordered'.escrow_eq]
  refine Store.total_add_one roundId _ ?_ fun id hid => ?_
  · rw [weight_held, weight_held]
    omega
  · rw [weight_held, weight_held]
    exact (hother id hid).heldIn

/-- The escrow holds no negative amount. -/
theorem Rounds.Ordered.escrow_nonneg (hordered : rounds.Ordered) : 0 ≤ rounds.escrow := by
  rw [hordered.escrow_eq]
  refine Store.total_nonneg _ fun roundId users hget => ?_
  obtain ⟨round, rfl, hbook⟩ := hordered.represented roundId
  have hnonneg := hbook.totalStake_nonneg
  rwa [← hbook.heldIn, Rounds.heldIn, Rounds.participants, Store.getD, hget] at hnonneg

/-- A live round's stakes are part of the escrow. -/
theorem Rounds.Ordered.totalStake_le_escrow (hordered : rounds.Ordered)
    (hbook : Represents rounds round) :
    rounds.totalStake round.mode round.roundId ≤ rounds.escrow := by
  rw [← hbook.heldIn, hordered.escrow_eq, ← weight_held]
  have h := Store.sum_weight_le_total (s := rounds.roundParticipants)
    (fun roundId users => (users.map (rounds.held roundId)).sum) ?_ {round.roundId}
  · simpa using h
  · intro roundId users hget
    obtain ⟨other, rfl, hbook'⟩ := hordered.represented roundId
    have hnonneg := hbook'.totalStake_nonneg
    rwa [← hbook'.heldIn, Rounds.heldIn, Rounds.participants, Store.getD, hget] at hnonneg

end Escrow

/-! ## What the rounding of a coverage loses -/

section Coverage

variable {s : Storage A} {ending : Ending}

/-- What the participants are credited of a coverage. -/
def Storage.coverageGiven (s : Storage A) (ending : Ending) : ℤ :=
  ((s.coverageCredits ending).map (·.2)).sum

/-- The participants of the round share the coverage by their stakes. -/
theorem coverageGiven_eq (hbook : Represents s.rounds ending.round) :
    s.coverageGiven ending = (Apportion.shares (s.coveragePaid ending)
      (s.rounds.totalStake ending.round.mode ending.round.roundId)
      ((s.rounds.participants ending.round.roundId).map
        (s.rounds.stakeOf ending.round.mode ending.round.roundId))).sum := by
  have hshare : ∀ user ∈ s.rounds.participants ending.round.roundId,
      0 ≤ s.coverageOf ending user := fun user huser =>
    Apportion.share_nonneg (coveragePaid_nonneg ending) hbook.totalStake_nonneg (hbook.stake_pos huser).le
  unfold Storage.coverageGiven Storage.coverageCredits Apportion.shares
  rw [List.filter_map, List.map_map, List.map_map]
  show (List.map (s.coverageOf ending) _).sum = (List.map (s.coverageOf ending) _).sum
  rw [← sum_map_ite]
  refine congrArg List.sum (List.map_congr_left fun user huser => ?_)
  have := hshare user huser
  by_cases hpos : 0 < s.coverageOf ending user
  · simp [hpos]
  · have hzero : s.coverageOf ending user = 0 := by omega
    simp [hzero]

/-- A coverage gives the participants no more than the fund pays, and loses less than one unit a
participant. -/
theorem coverageGiven_bounds (hbook : Represents s.rounds ending.round) :
    s.coverageGiven ending ≤ s.coveragePaid ending ∧
      (s.coverageGiven ending = s.coveragePaid ending ∨
        0 < s.coveragePaid ending ∧ s.coveragePaid ending <
          s.coverageGiven ending + (s.rounds.participants ending.round.roundId).length) := by
  rw [coverageGiven_eq hbook]
  by_cases hempty : s.rounds.participants ending.round.roundId = []
  · have hasked : s.coverageRequested ending.round = 0 := by
      simp [Storage.coverageRequested, hempty]
    have hpaid : s.coveragePaid ending = 0 := by
      unfold Storage.coveragePaid
      rw [hasked]
      split <;> omega
    simp [hpaid, hempty, Apportion.shares]
  · have htotal := hbook.totalStake_pos hempty
    refine ⟨Apportion.sum_shares_le htotal rfl, ?_⟩
    rcases eq_or_ne (s.coveragePaid ending) 0 with hzero | hne
    · left
      simp [hzero, Apportion.shares, Apportion.share, Function.comp_def]
    · right
      have hpaid := coveragePaid_nonneg (s := s) ending
      refine ⟨by omega, ?_⟩
      simpa using @Apportion.lt_sum_shares_add_length (s.coveragePaid ending) _ htotal
        ((s.rounds.participants ending.round.roundId).map
          (s.rounds.stakeOf ending.round.mode ending.round.roundId)) rfl

/-- Only a cancellation pays a coverage. -/
theorem cancelled_of_covered {ending : Ending} (hpaid : 0 < s.coveragePaid ending) :
    ∃ reason, ending.kind = .cancelled reason := by
  unfold Storage.coveragePaid Ending.isCovered at hpaid
  cases hkind : ending.kind with
  | cancelled reason => exact ⟨reason, rfl⟩
  | resolved | finalized | fallbackRefund | voided => simp [hkind] at hpaid

end Coverage

/-! ## What a call does to the value -/

section Calls

variable [LinearOrder A] {env : Env A} {s s' : Storage A} {call : Call A}

/-- What a call brings in: the initial amount, for an address without a balance. -/
def Storage.minted (s : Storage A) : Call A → ℤ
  | .mintInitial user => if s.vault.balance.has user then 0 else initialAmount
  | _ => 0

/-- What an ending of a round loses: what was staked and covered and is not paid. -/
def Storage.lostBy (s : Storage A) (ending : Ending) : ℤ :=
  s.rounds.totalStake ending.round.mode ending.round.roundId -
      (ending.plan s.control.settings.terms s.rounds).paid -
      (ending.plan s.control.settings.terms s.rounds).fee +
    (s.coveragePaid ending - s.coverageGiven ending)

/-- What a call loses. -/
def Storage.lost (s : Storage A) (call : Call A) : ℤ :=
  (call.ending s).elim 0 s.lostBy

omit [LinearOrder A] in
/-- The call executes a proposal that writes an address under the treasury key. -/
def Call.SetsTreasury (s : Storage A) (call : Call A) : Prop :=
  ∃ executor proposalId proposal treasury, call = .executeGovProposal executor proposalId ∧
    s.control.governance.govProposal.get proposalId = some proposal ∧
    proposal.action = .setTreasuryAddress treasury

/-- A call that ends no round loses nothing. -/
theorem lost_of_no_ending (hending : call.ending s = none) : s.lost call = 0 := by
  rw [Storage.lost, hending]
  rfl

omit [LinearOrder A] in
theorem minted_of_price {price : ℕ} (hprice : call.price = some price) : s.minted call = 0 := by
  cases call with
  | mintInitial user => cases hprice
  | _ => rfl

omit [LinearOrder A] in
/-- A call that ends a round mints nothing. -/
theorem minted_of_endsBy {ending : Ending} (hends : EndsBy s call ending) :
    s.minted call = 0 := by
  cases hends with
  | resolved _ _ _ hprice | fallbackRefund _ _ _ hprice => exact minted_of_price hprice
  | cancelled | voided | finalized => rfl

omit [LinearOrder A] in
/-- Placing a stake mints nothing and ends no round. -/
theorem Placement.quiet [DecidableEq A] {rounds rounds' : Rounds A} {round : Round} {user : A}
    {amount : ℤ} (hplaced : Placement rounds round user amount call rounds') :
    s.minted call = 0 ∧ call.ending s = none := by
  cases hplaced with
  | bet | commit => exact ⟨rfl, rfl⟩
  | predict _ _ hcall => rcases hcall with rfl | rfl <;> exact ⟨rfl, rfl⟩

/-- What an ending does to the value. -/
theorem value_of_ends {ending : Ending} (hordered : s.rounds.Ordered)
    (hcap : FeeCapped s.control.settings.protocolFeeBps) (hends : EndsBy s call ending)
    (hstate : Ends env.ledger.sequence ending s s') :
    s'.value = s.value - s.lostBy ending := by
  have hlive := hends.live hordered
  have hbook := (hordered.live _ _ hlive).2
  have hsound := @Ending.plan_sound _ _ _ s.control.settings.terms _ hbook hcap
  have hordered' := roundsAfter_ordered hordered hlive (hends.gone hordered).1
    (hends.gone hordered).2
  have hescrow : s'.rounds.escrow = s.rounds.escrow -
      s.rounds.totalStake ending.round.mode ending.round.roundId := by
    rw [hstate.rounds, escrow_touch hordered hordered' ending.round.roundId
      fun id hid => roundsAfter_other ending hid, (roundsAfter_noBook hbook).heldIn,
      hbook.heldIn]
    omega
  have hworth : s'.vault.worth = s.vault.worth +
      (ending.plan s.control.settings.terms s.rounds).fee +
      (ending.plan s.control.settings.terms s.rounds).paid -
      s.coveragePaid ending + s.coverageGiven ending := by
    rw [hstate.vault, worth_creditAll, worth_payFromFund _ (coveragePaid_nonneg ending), worth_creditAll,
      worth_collectFee _ _ hsound.fee_nonneg, sum_creditsOf hsound.loss_unpaid]
    rfl
  unfold Storage.value Storage.lostBy
  rw [hescrow, hworth]
  omega

/-- What a stake does to the value: it moves from the balance to the escrow. -/
theorem value_of_stake {round : Round} {user : A} {amount : ℤ} (hordered : s.rounds.Ordered)
    (hround : s.rounds.activeRound = some round)
    (hroom : (s.rounds.participants round.roundId).length < maxVecLength)
    (hjoined : Joined s.rounds round user amount s'.rounds)
    (hvault : s'.vault = s.vault.debit user amount) : s'.value = s.value := by
  obtain ⟨round', hround', hid, hmode, -, hbook'⟩ := hjoined.active
  have hbook := hordered.active_represented hround
  have hheld := hbook'.heldIn
  rw [hid, hmode, hjoined.total, ← hbook.heldIn] at hheld
  unfold Storage.value
  rw [hvault, worth_debit, escrow_touch hordered
    (hjoined.ordered hordered hround hroom) round.roundId hjoined.other, hheld]
  omega

/-- What an early cash-out does to the value: the stake is paid out or collected as a fee. -/
theorem value_of_cashOut {round : Round} {user : A} {position : UserPosition} {penaltyBps : ℕ}
    (hordered : s.rounds.Ordered) (hround : s.rounds.activeRound = some round)
    (hmode : round.mode = .upDown)
    (hposition : s.rounds.position.get (round.roundId, user) = some position)
    (hpenalty : penaltyBps ≤ 10000) (hstake : 0 < position.amount)
    (hvault : s'.vault =
      (s.vault.creditAll env.ledger.sequence
        ([(user, position.amount - forfeitOf position.amount penaltyBps)].filter
          fun credit => 0 < credit.2)).collectFee
        s.control.settings.insuranceSplitBps (forfeitOf position.amount penaltyBps))
    (hrounds : s'.rounds = s.rounds.leave round user position) : s'.value = s.value := by
  have hbook := hordered.active_represented hround
  have hleft := leave_represents hbook hmode hposition
  have hordered' := leave_ordered hordered hround hmode hposition
  have hforfeit := forfeitOf_bounds hstake hpenalty
  have hheld := hleft.heldIn
  simp only [withPool_roundId, withPool_mode] at hheld
  rw [hmode, leave_totalStake hbook hmode hposition] at hheld
  have hbefore := hbook.heldIn
  rw [hmode] at hbefore
  have hcredit : (([(user, position.amount - forfeitOf position.amount penaltyBps)].filter
      fun credit => 0 < credit.2).map (·.2)).sum =
        position.amount - forfeitOf position.amount penaltyBps := by
    have hkept : 0 ≤ position.amount - forfeitOf position.amount penaltyBps := by omega
    generalize position.amount - forfeitOf position.amount penaltyBps = kept at hkept ⊢
    by_cases hpos : 0 < kept
    · simp [hpos]
    · have hzero : kept = 0 := by omega
      simp [hzero]
  unfold Storage.value
  rw [hvault, worth_collectFee _ _ hforfeit.1, worth_creditAll, hcredit, hrounds,
    escrow_touch hordered hordered' round.roundId fun id hid => leave_sameBook hid, hheld,
    hbefore]
  omega

/-- Every successful call changes the value by what it mints and loses, except that writing an
address under the treasury key drops what the treasury held. -/
theorem Effect.value (hordered : s.rounds.Ordered)
    (hcap : FeeCapped s.control.settings.protocolFeeBps) (heffect : Effect env s call s') :
    s'.value = s.value + s.minted call - s.lost call ∨
      call.SetsTreasury s ∧ s'.value = s.value - s.vault.treasury := by
  have hkept : s.minted call = 0 → call.ending s = none → s'.value = s.value →
      s'.value = s.value + s.minted call - s.lost call := by
    intro hminted hending hvalue
    rw [hminted, lost_of_no_ending hending, hvalue]
    omega
  have hworth : s'.rounds = s.rounds → s'.vault.worth = s.vault.worth → s'.value = s.value := by
    intro hrounds hworth
    rw [Storage.value, hrounds, hworth]
    rfl
  cases heffect with
  | quiet _ _ hsame hmint hending =>
      refine .inl (hkept ?_ hending (hworth hsame.rounds (by rw [hsame.vault])))
      cases call with
      | mintInitial user =>
          obtain ⟨balance, hbalance⟩ := hmint user rfl
          simp [Storage.minted, Store.has, hbalance]
      | _ => rfl
  | mint user _ hnew _ hvault hsame =>
      left
      rw [lost_of_no_ending rfl]
      unfold Storage.value
      rw [hvault, worth_deposit, hsame.rounds]
      simp [Storage.minted, Store.has, hnew]
      omega
  | treasuryAddress executor treasury proposalId proposal _ hproposal haction hvault hsame =>
      refine .inr ⟨⟨executor, proposalId, proposal, treasury, rfl, hproposal, haction⟩, ?_⟩
      unfold Storage.value
      rw [hvault, hsame.rounds]
      unfold Vault.worth
      show s.vault.balance.total _ + s.vault.pendingTotal + 0 + s.vault.insuranceFund + _ = _
      omega
  | payFee _ recipient amount _ hcall _ hvault hsame =>
      have hvalue := hworth hsame.rounds (hvault ▸ worth_payFee s.vault recipient amount)
      left
      rcases hcall with rfl | ⟨executor, proposalId, rfl⟩ <;> exact hkept rfl rfl hvalue
  | payFund _ recipient amount _ hcall _ hvault hsame =>
      have hvalue := hworth hsame.rounds (hvault ▸ worth_payFund s.vault recipient amount)
      left
      rcases hcall with rfl | ⟨executor, proposalId, rfl⟩ <;> exact hkept rfl rfl hvalue
  | topUp admin amount _ _ _ _ hvault hsame =>
      exact .inl (hkept rfl rfl (hworth hsame.rounds (hvault ▸ worth_topUp s.vault admin amount)))
  | reclaim user admin _ _ _ _ _ _ _ _ hvault hsame =>
      refine .inl (hkept rfl rfl (hworth hsame.rounds ?_))
      rw [hvault, worth_deposit, worth_clearPending]
      omega
  | claim _ users _ hcall _ hvault hsame =>
      have hvalue := hworth hsame.rounds (hvault ▸ worth_claimAll s.vault users)
      left
      rcases hcall with ⟨user, rfl, -⟩ | rfl <;> exact hkept rfl rfl hvalue
  | openRound _ round _ hcall _ hid hpools _ hvault hrounds =>
      have hvalue : s'.value = s.value := by
        rw [Storage.value, hvault, hrounds]
        rfl
      left
      rcases hcall with ⟨startPrice, mode, rfl⟩ | rfl <;> exact hkept rfl rfl hvalue
  | stake _ round user amount _ hround _ _ hamount hroom hplaced hvault =>
      have hvalue := value_of_stake hordered hround hroom
        (hplaced.joined (hordered.active_represented hround) hround hamount.1) hvault
      exact .inl (hkept hplaced.quiet.1 hplaced.quiet.2 hvalue)
  | reveal round user price salt commitment _ hround hmode hcommitment hhidden hvault hrounds =>
      have hbook := hordered.active_represented hround
      have hheld := (@reveal_represents _ _ _ _ _ price _ hbook hmode hcommitment).heldIn
      have hbefore := hbook.heldIn
      rw [hmode] at hbefore hheld
      rw [reveal_totalStake (hbook.precision hmode) hcommitment hhidden, ← hbefore] at hheld
      refine .inl (hkept rfl rfl ?_)
      rw [Storage.value, hvault, hrounds, escrow_touch hordered
        (reveal_ordered hordered hround hmode hcommitment) round.roundId
        fun id hid => reveal_sameBook hid, hheld]
      unfold Storage.value
      omega
  | cashOut round user position penaltyBps _ hround hmode _ hposition hpenalty hstake hvault
      hrounds =>
      exact .inl (hkept rfl rfl
        (value_of_cashOut hordered hround hmode hposition hpenalty hstake hvault hrounds))
  | stage _ round pending _ hprice _ _ _ hending hvault hrounds =>
      have hvalue : s'.value = s.value := by
        rw [Storage.value, hvault, hrounds]
        rfl
      exact .inl (hkept (minted_of_price hprice) hending hvalue)
  | ending _ ending _ hending hends =>
      have hends' := Call.endsBy hending
      left
      rw [minted_of_endsBy hends', Storage.lost, hending, value_of_ends hordered hcap hends' hends]
      simp only [Option.elim_some]
      omega

end Calls

end XelmaMarket
