import XelmaMarket.Harness
import XelmaMarket.UpDownSettlement

/-!
# Ends of rounds in the reference model

A cancellation and a plain settlement credit in the model what they credit in the contract: every
stake where the round is paid back, and the winners' shares of the pot where it is not.
-/

namespace XelmaMarket

variable {A : Type} [LinearOrder A]

section Endings

variable {s s' : Storage A} {model : ReferenceModel A} {ledger : Ledger} {ending : Ending}

theorem BetSide.isUp_other (side : BetSide) : side.other.isUp = !side.isUp := by
  cases side <;> rfl

/-- What a side's bet in the model is worth is the stake on that side. -/
theorem ReflectsRound.sideStake {rounds : Rounds A} {round : Round}
    {reference : ReferenceRound A} (hround : ReflectsRound rounds round reference)
    (side : BetSide) (user : A) :
    ((reference.bets side.isUp).get user).elim 0 id =
      rounds.sideStake round.roundId side user := by
  rw [hround.bets]
  unfold Rounds.sideStake
  cases rounds.position.get (round.roundId, user) with
  | none => rfl
  | some position => by_cases hside : position.side = side <;> simp [Option.filter_some, hside]

omit [LinearOrder A] in
theorem Rounds.sideStake_add_other (rounds : Rounds A) (roundId : ℕ) (side : BetSide) (user : A) :
    rounds.sideStake roundId side user + rounds.sideStake roundId side.other user =
      rounds.stakeOf .upDown roundId user := by
  rw [← rounds.sideStake_add]
  cases side with
  | up => rfl
  | down => exact add_comm _ _

/-- Paying back the bets of both sides pays every stake back. -/
theorem ReflectsRound.refund {rounds : Rounds A} {round : Round} {reference : ReferenceRound A}
    {pending : SortedMap A ℤ} (hround : ReflectsRound rounds round reference)
    (hbook : UpDownBook rounds round)
    (hfits : ∀ user, 0 ≤ pending.getD user 0 ∧
      pending.getD user 0 + rounds.stakeOf .upDown round.roundId user ≤ supplyLimit)
    (side : BetSide) :
    ∃ middle after, refundBets pending (reference.bets side.isUp) = .ok middle ∧
      refundBets middle (reference.bets side.other.isUp) = .ok after ∧
      ∀ user, after.getD user 0 =
        pending.getD user 0 + rounds.stakeOf .upDown round.roundId user := by
  have hstake : ∀ (side : BetSide) user stake, (reference.bets side.isUp).get user = some stake →
      stake = rounds.sideStake round.roundId side user := by
    intro side user stake hget
    rw [← hround.sideStake, hget]
    rfl
  obtain ⟨middle, hfirst, hmiddle⟩ := @creditEach_eq_ok _ _ pure id pending
    (reference.bets side.isUp) (fun _ _ _ => rfl) (fun user stake hget => by
      have hsum := rounds.sideStake_add_other round.roundId side user
      have hself := hbook.sideStake_nonneg side user
      have hother := hbook.sideStake_nonneg side.other user
      have hroom := hfits user
      rw [hstake side user stake hget]
      exact isAmount_of_supply (by simp only [id]; omega) (by simp only [id]; omega))
  obtain ⟨after, hsecond, hafter⟩ := @creditEach_eq_ok _ _ pure id middle
    (reference.bets side.other.isUp) (fun _ _ _ => rfl) (fun user stake hget => by
      have hsum := rounds.sideStake_add_other round.roundId side user
      have hself := hbook.sideStake_nonneg side user
      have hother := hbook.sideStake_nonneg side.other user
      have hroom := hfits user
      rw [hmiddle, hround.sideStake, hstake side.other user stake hget]
      exact isAmount_of_supply (by simp only [id]; omega) (by simp only [id]; omega))
  refine ⟨middle, after, hfirst, hsecond, fun user => ?_⟩
  rw [hafter, hmiddle, hround.sideStake, hround.sideStake, add_assoc,
    rounds.sideStake_add_other round.roundId side user]

omit [LinearOrder A] in
/-- Who takes no part has no position. -/
theorem UpDownBook.position_absent {rounds : Rounds A} {round : Round} {user : A}
    (hbook : UpDownBook rounds round) (habsent : user ∉ rounds.participants round.roundId) :
    rounds.position.get (round.roundId, user) = none := by
  by_contra hsome
  obtain ⟨position, hposition⟩ := Option.ne_none_iff_exists'.mp hsome
  exact habsent ((hbook.position_iff user).mp ⟨position, hposition⟩)

omit [LinearOrder A] in
/-- An empty fund pays no coverage. -/
theorem coveragePaid_of_empty (hfund : s.vault.insuranceFund = 0) : s.coveragePaid ending = 0 := by
  have hnonneg := @coveragePaid_nonneg _ s ending
  have hle := @coveragePaid_le _ s hfund.ge ending
  omega

/-- The plan of an ending pays every stake back and takes no fee. -/
def Ending.PaysBack (ending : Ending) (terms : Terms) (rounds : Rounds A) : Prop :=
  ∃ price outcome participants,
    participants.Perm (rounds.participants ending.round.roundId) ∧
      ending.plan terms rounds =
        ⟨0, rounds.refundRecords ending.round price outcome participants⟩

theorem Ending.Refunds.paysBack {terms : Terms} {rounds : Rounds A}
    (hrefunds : ending.Refunds rounds) : ending.PaysBack terms rounds := by
  obtain ⟨price, outcome, participants, -, hperm, hplan⟩ :=
    @Ending.Refunds.plan _ _ _ terms _ hrefunds
  exact ⟨price, outcome, participants, hperm, hplan⟩

/-- An ending that pays back, seen account by account. -/
theorem Ends.payback_accounts (hends : Ends ledger.sequence ending s s')
    (hhealthy : s.Healthy ledger.sequence) (hbook : Represents s.rounds ending.round)
    (hmode : ending.round.mode = .upDown)
    (hback : ending.PaysBack s.control.settings.terms s.rounds)
    (hfund : s.vault.insuranceFund = 0) :
    s'.vault.balance = s.vault.balance ∧ s'.vault.treasury = s.vault.treasury ∧
      s'.vault.insuranceFund = 0 ∧
      ∀ user, s'.vault.pendingOf user =
        s.vault.pendingOf user + s.rounds.stakeOf .upDown ending.round.roundId user := by
  obtain ⟨price, outcome, participants, hperm, hplan⟩ := hback
  have hcap := hhealthy.fee_capped
  have hfee : (ending.plan s.control.settings.terms s.rounds).fee = 0 := by rw [hplan]
  have hpaid : s.coveragePaid ending = 0 := coveragePaid_of_empty hfund
  refine ⟨hends.balance, ?_, ?_, fun user => ?_⟩
  · rw [hends.treasury hbook hcap, hfee]
    simp [insuranceShare]
  · rw [hends.insuranceFund hbook hcap, hfee, hfund, hpaid]
    simp [insuranceShare]
  · by_cases huser : user ∈ s.rounds.participants ending.round.roundId
    · have hmem : s.rounds.outcomeRecord ending.round.mode ending.round.roundId (price user) user
          (s.rounds.stakeOf ending.round.mode ending.round.roundId user) outcome ∈
            (ending.plan s.control.settings.terms s.rounds).records := by
        rw [hplan]
        exact List.mem_map.mpr ⟨user, hperm.mem_iff.mpr huser, rfl⟩
      have hcoverage : s.coverageOf ending user = 0 := by
        simp [Storage.coverageOf, hpaid, Apportion.share]
      have hcredited := hends.pendingOf_of_mem hbook hcap hmem
      rw [outcomeRecord_user, outcomeRecord_payout, hcoverage, add_zero, hmode] at hcredited
      exact hcredited
    · have hkept := (hends.pending_of_not_mem hbook hcap huser).1
      simp only [Rounds.stakeOf, (hbook.upDown hmode).position_absent huser, Option.elim_none,
        add_zero]
      unfold Vault.pendingOf Store.getD
      rw [hkept]

/-- What a refund credits in the model is what it credits in the contract. -/
theorem Reflects.refund (hreflects : Reflects s model) (hhealthy : s.Healthy ledger.sequence)
    (hafter : s'.Healthy ledger.sequence) (hends : Ends ledger.sequence ending s s')
    (hactive : s.rounds.activeRound = some ending.round) (hmode : ending.round.mode = .upDown)
    (hback : ending.PaysBack s.control.settings.terms s.rounds)
    (hidle : s'.rounds.activeRound = none) (side : BetSide) :
    ∃ reference middle after, model.activeRound = some reference ∧ reference.active = true ∧
      refundBets model.pendingWinnings (reference.bets side.isUp) = .ok middle ∧
      refundBets middle (reference.bets side.other.isUp) = .ok after ∧
      ∀ outcomes, Reflects s' { model with
        activeRound := none, pendingWinnings := after, totalPool := 0, outcomes := outcomes } := by
  obtain ⟨-, reference, hcurrent, hround⟩ := hreflects.rounds.round _ hactive
  have hbook := hhealthy.ordered.active_represented hactive
  obtain ⟨hbalance, htreasury, hfund, hpending⟩ :=
    hends.payback_accounts hhealthy hbook hmode hback hreflects.accounts.fund
  obtain ⟨middle, after, hfirst, hsecond, hread⟩ :=
    hround.refund (hbook.upDown hmode) (fun user => by
      have hsupply := hafter.withinSupply
      have hlimit := hsupply.supply user
      have hsolvent := hsupply.balance user
      have hpart := hsupply.pending user
      have hfees := hsupply.treasury
      have hinsured := hsupply.fund
      have hescrow := hsupply.escrow
      have hbefore := hhealthy.withinSupply.pending user
      rw [hreflects.accounts.pending, ← hpending]
      omega) side
  refine ⟨reference, middle, after, hcurrent, hround.active, hfirst, hsecond, fun outcomes => ?_⟩
  refine ⟨⟨fun user => ?_, fun user => ?_, ?_, hfund⟩, fun _ => ⟨rfl, rfl⟩, fun round hopen => ?_⟩
  · rw [hreflects.accounts.balances, Vault.balanceOf, Vault.balanceOf, hbalance]
  · rw [hread, hreflects.accounts.pending, ← hpending]
  · rw [htreasury]
    exact hreflects.accounts.treasury
  · rw [hidle] at hopen
    cases hopen

/-- A cancellation refunds in the model. -/
theorem Reflects.cancel (hreflects : Reflects s model) (hhealthy : s.Healthy ledger.sequence)
    (hafter : s'.Healthy ledger.sequence) {round : Round} {reason : ℕ}
    (hends : Ends ledger.sequence ⟨round, .cancelled reason⟩ s s')
    (hactive : s.rounds.activeRound = some round) (hmode : round.mode = .upDown) :
    ∃ after, Prod.fst <$> model.cancelRound = .ok after ∧ Reflects s' after := by
  obtain ⟨reference, middle, pending, hcurrent, -, hfirst, hsecond, hreflected⟩ :=
    hreflects.refund hhealthy hafter hends hactive hmode
      (Ending.Refunds.cancelled reason rfl).paysBack
      (by rw [hends.rounds]; rfl) .up
  refine ⟨_, ?_, hreflected model.outcomes⟩
  unfold ReferenceModel.cancelRound
  rw [hcurrent]
  show Prod.fst <$> (do
    let pending ← refundBets model.pendingWinnings reference.betsUp
    let pending ← refundBets pending reference.betsDown
    return ({ model with activeRound := none, pendingWinnings := pending, totalPool := 0 },
      true)) = _
  have hup : refundBets model.pendingWinnings reference.betsUp = .ok middle := hfirst
  have hdown : refundBets middle reference.betsDown = .ok pending := hsecond
  rw [hup, ok_bind, hdown, ok_bind]
  rfl

/-- The model computes the fee of the contract. -/
theorem computeFee_eq {pot : ℤ} {bps : Option ℕ} (hpot : 0 ≤ pot ∧ pot ≤ supplyLimit)
    (hcap : FeeCapped bps) : computeFee pot bps = .ok (rateOf bps pot) := by
  rcases bps with - | - | rate
  · rfl
  · show Except.ok 0 = Except.ok (pot * ((0 : ℕ) : ℤ) / bpsDenominator)
    simp
  · have hrate : ((rate + 1 : ℕ) : ℤ) ≤ 1000 := by
      have := hcap _ rfl
      unfold maxProtocolFeeBps at this
      omega
    have hnonneg : 0 ≤ pot * ((rate + 1 : ℕ) : ℤ) := mul_nonneg hpot.1 (by omega)
    have hle : pot * ((rate + 1 : ℕ) : ℤ) ≤ supplyLimit * 1000 :=
      mul_le_mul hpot.2 hrate (by omega) (by decide)
    have hfits : pot * ((rate + 1 : ℕ) : ℤ) ≤ i128Max := hle.trans (by decide)
    show (do
      let product ← plain (pot * ((rate + 1 : ℕ) : ℤ))
      divide product bpsDenominator) = _
    rw [plain_of_isAmount ⟨le_trans (by decide) hnonneg, hfits⟩, ok_bind,
      divide_of_fits hnonneg hfits (by decide)]
    rfl

theorem Round.winningSide_isUp (round : Round) (finalPrice : ℕ) :
    (round.winningSide finalPrice).isUp = decide (round.priceStart < finalPrice) := by
  unfold Round.winningSide
  by_cases hup : round.priceStart < finalPrice <;> simp [hup, BetSide.isUp]

/-- A payout is computed by a product in range and a division. -/
theorem computeUpdownWinnerPayout_steps {stake pool pot payout : ℤ} (hpool : pool ≠ 0)
    (hpayout : computeUpdownWinnerPayout stake pool pot = .ok payout) :
    IsAmount (stake * pot) ∧ divide (stake * pot) pool = .ok payout := by
  simp only [computeUpdownWinnerPayout, if_neg hpool, Transaction.bind_eq_ok,
    payoutMul_eq_ok] at hpayout
  obtain ⟨product, ⟨rfl, hproduct⟩, hdivide⟩ := hpayout
  exact ⟨hproduct, hdivide⟩

/-- The model pays the winners their shares, where the contract can compute them. -/
theorem ReflectsRound.pays {rounds : Rounds A} {round : Round} {reference : ReferenceRound A}
    {pending : SortedMap A ℤ} {side : BetSide} {pot : ℤ}
    (hround : ReflectsRound rounds round reference) (hpool : round.pool side ≠ 0)
    (hbook : UpDownBook rounds round)
    (hcomputes : ∀ user ∈ rounds.participants round.roundId, ∀ position,
      rounds.position.get (round.roundId, user) = some position → position.side = side →
      computeUpdownWinnerPayout position.amount (round.pool side) pot =
        .ok (Apportion.share pot (round.pool side) position.amount))
    (hfits : ∀ user, IsAmount (pending.getD user 0 +
      if rounds.betOn round.roundId side user then
        Apportion.share pot (round.pool side) (rounds.stakeOf .upDown round.roundId user)
      else 0)) :
    ∃ after, payWinners pot (round.pool side) pending (reference.bets side.isUp) = .ok after ∧
      ∀ user, after.getD user 0 = pending.getD user 0 +
        if rounds.betOn round.roundId side user then
          Apportion.share pot (round.pool side) (rounds.stakeOf .upDown round.roundId user)
        else 0 := by
  -- a bet on the side is the position of its user
  have hposition : ∀ user stake, (reference.bets side.isUp).get user = some stake →
      ∃ position, rounds.position.get (round.roundId, user) = some position ∧
        position.side = side ∧ position.amount = stake := by
    intro user stake hget
    rw [hround.bets, Option.map_eq_some_iff] at hget
    obtain ⟨position, hfound, rfl⟩ := hget
    obtain ⟨hstored, hside⟩ := Option.filter_eq_some_iff.mp hfound
    exact ⟨position, hstored, of_decide_eq_true hside, rfl⟩
  have hcredit : ∀ user, ((reference.bets side.isUp).get user).elim 0
      (Apportion.share pot (round.pool side)) =
        if rounds.betOn round.roundId side user then
          Apportion.share pot (round.pool side) (rounds.stakeOf .upDown round.roundId user)
        else 0 := by
    intro user
    rw [hround.bets]
    unfold Rounds.betOn Rounds.stakeOf
    cases rounds.position.get (round.roundId, user) with
    | none => rfl
    | some position => by_cases hside : position.side = side <;> simp [Option.filter_some, hside]
  obtain ⟨after, hpaid, hread⟩ := @creditEach_eq_ok _ _
    (fun stake => do
      let product ← plain (stake * pot)
      divide product (round.pool side)) (Apportion.share pot (round.pool side)) pending
    (reference.bets side.isUp) (fun user stake hget => by
      obtain ⟨position, hstored, hside, rfl⟩ := hposition user stake hget
      have hmem := (hbook.position_iff user).mp ⟨position, hstored⟩
      obtain ⟨hproduct, hdivide⟩ := computeUpdownWinnerPayout_steps hpool
        (hcomputes user hmem position hstored hside)
      rw [plain_of_isAmount hproduct, ok_bind]
      exact hdivide) (fun user stake hget => by
      have hroom := hfits user
      rw [← hcredit, hget] at hroom
      exact hroom)
  exact ⟨after, hpaid, fun user => by rw [hread, hcredit]⟩

/-- A competitive settlement on plain terms, seen account by account. -/
theorem Ends.competitive_accounts {finalPrice : ℕ} (hends : Ends ledger.sequence ending s s')
    (hhealthy : s.Healthy ledger.sequence) (hbook : Represents s.rounds ending.round)
    (hcompetitive : ending.IsCompetitive finalPrice) (hfund : s.vault.insuranceFund = 0)
    (huninsured : s.control.settings.insuranceSplitBps = 0) :
    let terms := s.control.settings.terms
    let side := ending.round.winningSide finalPrice
    s'.vault.balance = s.vault.balance ∧
      s'.vault.treasury = s.vault.treasury + terms.upDownFee ending.round side ∧
      s'.vault.insuranceFund = 0 ∧
      ∀ user, s'.vault.pendingOf user = s.vault.pendingOf user +
        if s.rounds.betOn ending.round.roundId side user then
          Apportion.share (terms.upDownPot ending.round side) (ending.round.pool side)
            (s.rounds.stakeOf .upDown ending.round.roundId user)
        else 0 := by
  have hcap := hhealthy.fee_capped
  have hfee : 0 ≤ (ending.plan s.control.settings.terms s.rounds).fee :=
    (@Ending.plan_sound _ _ _ s.control.settings.terms _ hbook hcap).fee_nonneg
  have hplan : (ending.plan s.control.settings.terms s.rounds).fee =
      s.control.settings.terms.upDownFee ending.round (ending.round.winningSide finalPrice) := by
    rw [hcompetitive.plan]
  have hshare : insuranceShare s.control.settings.insuranceSplitBps
      (ending.plan s.control.settings.terms s.rounds).fee = 0 := by
    rw [huninsured]
    simp [insuranceShare, hfee]
  refine ⟨hends.balance, ?_, ?_, fun user => ?_⟩
  · rw [hends.treasury hbook hcap, hshare, sub_zero, hplan]
  · rw [hends.insuranceFund hbook hcap, hshare, hfund, coveragePaid_of_empty hfund]
    rfl
  · by_cases huser : user ∈ s.rounds.participants ending.round.roundId
    · exact hends.pendingOf_competitive hbook hcap hcompetitive huser
    · have hnone := (hbook.upDown hcompetitive.upDown).position_absent huser
      have hkept := (hends.pending_of_not_mem hbook hcap huser).1
      simp only [Rounds.betOn, hnone, Option.any_none, Bool.false_eq_true, if_false, add_zero]
      unfold Vault.pendingOf Store.getD
      rw [hkept]

/-- The winners of the open round are paid in the model. -/
theorem Reflects.pay (hreflects : Reflects s model) (hhealthy : s.Healthy ledger.sequence)
    (hafter : s'.Healthy ledger.sequence) (hrate : model.feeBps = s.control.settings.protocolFeeBps)
    {round : Round} {reference : ReferenceRound A} {finalPrice : ℕ}
    (hactive : s.rounds.activeRound = some round)
    (hround : ReflectsRound s.rounds round reference) (hmode : round.mode = .upDown)
    (hplain : PlainSettlement s round finalPrice)
    (hpools : ∀ side, 0 < round.pool side)
    (hends : Ends ledger.sequence ⟨round, .resolved finalPrice⟩ s s')
    (hcomputes : Computes s.control.settings.terms s.rounds round finalPrice) :
    ∃ after, model.payRound (round.pool (round.winningSide finalPrice))
      (round.pool (round.winningSide finalPrice).other)
      (reference.bets (round.winningSide finalPrice).isUp) = .ok after ∧ Reflects s' after := by
  set side := round.winningSide finalPrice with hside
  set terms := s.control.settings.terms with hterms
  have hbook := hhealthy.ordered.active_represented hactive
  have hcap := hhealthy.fee_capped
  have hcompetitive : Ending.IsCompetitive ⟨round, .resolved finalPrice⟩ finalPrice :=
    ⟨rfl, hmode, ⟨hpools .up, hpools .down⟩, hplain.moved⟩
  obtain ⟨hbalance, htreasury, hfund, hpending⟩ := hends.competitive_accounts hhealthy hbook
    hcompetitive hreflects.accounts.fund hplain.uninsured
  have hsum := round.pool_add_other side
  have hfeeOnPot : terms.upDownFee round side =
      rateOf s.control.settings.protocolFeeBps (round.poolUp + round.poolDown) := by
    have hmodel : terms.feeModel = .feeOnPot := hplain.feeModel
    unfold Terms.upDownFee
    rw [hmodel]
    rfl
  have hlimit := (hhealthy.pools_bounds hactive hmode).2
  have hpot : 0 ≤ round.poolUp + round.poolDown := by
    have hself := hpools side
    have hother := hpools side.other
    omega
  have hfee_nonneg : 0 ≤ terms.upDownFee round side := hfeeOnPot ▸ rateOf_nonneg hpot
  have hfee_le : 10 * terms.upDownFee round side ≤ round.poolUp + round.poolDown :=
    hfeeOnPot ▸ rateOf_le hcap hpot
  have hfee : computeFee (round.pool side + round.pool side.other) model.feeBps =
      .ok (terms.upDownFee round side) := by
    rw [hsum, hrate, hfeeOnPot]
    exact computeFee_eq ⟨hpot, hlimit⟩ hcap
  have hsupply := hafter.withinSupply
  have hamount : ∀ user, IsAmount (s'.vault.pendingOf user) ∧ s'.vault.treasury ≤ supplyLimit := by
    intro user
    have htotal := hsupply.supply user
    have hsolvent := hsupply.balance user
    have hpart := hsupply.pending user
    have hfees := hsupply.treasury
    have hinsured := hsupply.fund
    have hescrow := hsupply.escrow
    exact ⟨isAmount_of_supply hpart.1 (by omega), by omega⟩
  have hnonempty : sortAddresses (s.rounds.participants round.roundId) ≠ [] := by
    intro hempty
    have hnobody : s.rounds.participants round.roundId = [] :=
      List.eq_nil_iff_forall_not_mem.mpr fun user hmem => by
        have hsorted := mem_sortAddresses.mpr hmem
        rw [hempty] at hsorted
        cases hsorted
    have hzero := (hbook.upDown hmode).pool_eq .up
    simp only [Rounds.sideTotal, hnobody, List.map_nil, List.sum_nil] at hzero
    exact (hpools .up).ne' hzero
  obtain ⟨user, husers⟩ := List.exists_mem_of_ne_nil _ hnonempty
  obtain ⟨-, -, -, hshares⟩ : UpDownComputes terms s.rounds round side
      (sortAddresses (s.rounds.participants round.roundId)) := by
    have hmoded := hcomputes
    unfold Computes at hmoded
    rw [hmode] at hmoded
    refine hmoded ?_ hnonempty
    rintro (hsided | hmoved)
    · have hup : round.poolUp ≠ 0 := (hpools .up).ne'
      have hdown : round.poolDown ≠ 0 := (hpools .down).ne'
      simp [isOneSidedPool, hup, hdown] at hsided
    · exact hplain.moved hmoved
  obtain ⟨pending, hpaid, hread⟩ := @ReflectsRound.pays _ _ _ _ _ model.pendingWinnings _ _
    hround (hpools side).ne' (hbook.upDown hmode)
    (fun user hmem => hshares user (mem_sortAddresses.mpr hmem)) (fun user => by
      rw [hreflects.accounts.pending, ← hpending]
      exact (hamount user).1)
  rw [show terms.upDownPot round side =
    round.pool side + round.pool side.other - terms.upDownFee round side by
      rw [hsum]; rfl] at hpaid
  refine ⟨_, ReferenceModel.payRound_eq_ok ⟨(hpools side).le, (hpools side.other).le⟩
    (by have hroom := supplyLimit_room.2; omega) hfee ⟨hfee_nonneg, by omega⟩ ?_ hpaid, ?_⟩
  · rw [hreflects.accounts.treasury, ← htreasury]
    exact isAmount_of_supply hsupply.treasury (hamount user).2
  · refine ⟨⟨fun user => ?_, fun user => ?_, ?_, hfund⟩, fun _ => ⟨rfl, rfl⟩, fun other hopen => ?_⟩
    · rw [hreflects.accounts.balances, Vault.balanceOf, Vault.balanceOf, hbalance]
    · rw [hpending, ← hreflects.accounts.pending]
      exact hread user
    · rw [htreasury, ← hreflects.accounts.treasury]
    · rw [hends.rounds] at hopen
      cases hopen

/-- A settlement of a round without bets on both sides pays back. -/
theorem Represents.paysBack {rounds : Rounds A} {round : Round} {terms : Terms} {finalPrice : ℕ}
    (hbook : Represents rounds round) (hmode : round.mode = .upDown)
    (hsided : round.poolUp = 0 ∨ round.poolDown = 0) :
    Ending.PaysBack ⟨round, .resolved finalPrice⟩ terms rounds := by
  by_cases hpool : isOneSidedPool round.poolUp round.poolDown = true
  · exact (Ending.Refunds.oneSided finalPrice rfl hmode hpool).paysBack
  · -- both pools are empty, so nobody takes part
    have hempty : rounds.participants round.roundId = [] := by
      by_contra hne
      have hpos := hbook.totalStake_pos hne
      rw [hmode] at hpos
      have hup := (hbook.upDown hmode).pool_ne_zero hpos hpool .up
      have hdown := (hbook.upDown hmode).pool_ne_zero hpos hpool .down
      exact hsided.elim hup hdown
    refine ⟨fun _ => 0, .refund, [], by rw [hempty], ?_⟩
    show terms.plan rounds round finalPrice = ⟨0, []⟩
    unfold Terms.plan
    rw [hempty, hmode]
    exact (hbook.upDown hmode).plan_of_empty hempty terms finalPrice

/-- Settling the open round on plain terms settles it in the model. -/
theorem Reflects.resolve (hreflects : Reflects s model) (hhealthy : s.Healthy ledger.sequence)
    (hafter : s'.Healthy ledger.sequence) (hrate : model.feeBps = s.control.settings.protocolFeeBps)
    {round : Round} {finalPrice : ℕ} (hactive : s.rounds.activeRound = some round)
    (hmode : round.mode = .upDown) (hplain : PlainSettlement s round finalPrice)
    (hends : Ends ledger.sequence ⟨round, .resolved finalPrice⟩ s s')
    (hcomputes : Computes s.control.settings.terms s.rounds round finalPrice) :
    ∃ after, Prod.fst <$> model.resolveRound (decide (round.priceStart < finalPrice)) =
      .ok after ∧ Reflects s' after := by
  have hbook := hhealthy.ordered.active_represented hactive
  have hidle : s'.rounds.activeRound = none := by rw [hends.rounds]; rfl
  obtain ⟨-, reference, hcurrent, hround⟩ := hreflects.rounds.round round hactive
  have hresolves : Prod.fst <$> model.resolveRound (decide (round.priceStart < finalPrice)) =
      if round.pool (round.winningSide finalPrice) = 0 ∨
          round.pool (round.winningSide finalPrice).other = 0 then
        model.refundRound (reference.bets (round.winningSide finalPrice).isUp)
          (reference.bets (round.winningSide finalPrice).other.isUp)
      else
        model.payRound (round.pool (round.winningSide finalPrice))
          (round.pool (round.winningSide finalPrice).other)
          (reference.bets (round.winningSide finalPrice).isUp) := by
    unfold ReferenceModel.resolveRound
    rw [hcurrent, ← round.winningSide_isUp]
    simp only [hround.active, if_true, ← BetSide.isUp_other, hround.pools]
    split_ifs
    · cases model.refundRound _ _ <;> rfl
    · cases model.payRound _ _ _ <;> rfl
  rw [hresolves]
  split_ifs with hsided
  · have hempty : round.poolUp = 0 ∨ round.poolDown = 0 := by
      cases hside : round.winningSide finalPrice with
      | up => rwa [hside] at hsided
      | down => rw [hside] at hsided; exact hsided.symm
    obtain ⟨other, middle, after, hsame, -, hfirst, hsecond, hreflected⟩ :=
      hreflects.refund hhealthy hafter hends hactive hmode (hbook.paysBack hmode hempty) hidle
        (round.winningSide finalPrice)
    obtain rfl := Option.some.inj (hcurrent.symm.trans hsame)
    refine ⟨_, ?_, hreflected (model.outcomes ++ [true])⟩
    unfold ReferenceModel.refundRound
    rw [hfirst, ok_bind, hsecond, ok_bind]
    rfl
  · have hnonneg := (hbook.upDown hmode).pool_nonneg
    refine hreflects.pay hhealthy hafter hrate hactive hround hmode hplain (fun side => ?_) hends
      hcomputes
    refine lt_of_le_of_ne (hnonneg side) fun hzero => hsided ?_
    cases hside : round.winningSide finalPrice <;> cases side <;>
      simp [Round.pool, BetSide.other] at hzero ⊢ <;> omega

end Endings

end XelmaMarket
