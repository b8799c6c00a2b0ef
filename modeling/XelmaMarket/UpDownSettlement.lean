import XelmaMarket.RoundLife

/-!
# UpDown settlements

A competitive UpDown settlement pays every winner the floor of their share of the pot but the fee,
and nobody else anything. The fee is at most a tenth of the pot, rounding loses less than one unit
a winner, and a fee on the winnings leaves every winner at least the stake.
-/

namespace XelmaMarket

variable {A : Type} [LinearOrder A] {s s' : Storage A} {ending : Ending} {finalPrice : ℕ}

/-- The plan of a competitive UpDown settlement. -/
theorem Ending.IsCompetitive.plan (hcompetitive : ending.IsCompetitive finalPrice)
    (terms : Terms) (rounds : Rounds A) :
    ending.plan terms rounds =
      ⟨terms.upDownFee ending.round (ending.round.winningSide finalPrice),
        (sortAddresses (rounds.participants ending.round.roundId)).map
          (terms.upDownRecord rounds ending.round (ending.round.winningSide finalPrice))⟩ := by
  have hsided : ¬ ending.round.refundsAt finalPrice := by
    have hup := hcompetitive.pools.1.ne'
    have hdown := hcompetitive.pools.2.ne'
    rintro (hsided | hmoved)
    · simp [isOneSidedPool, hup, hdown] at hsided
    · exact hcompetitive.moved hmoved
  rw [Ending.plan_of_price hcompetitive.price, Terms.plan, hcompetitive.upDown]
  exact if_neg hsided

/-- The fee of a settlement under either model. -/
theorem upDownFee_eq (terms : Terms) (round : Round) (side : BetSide) :
    terms.upDownFee round side =
      (match terms.feeModel with
        | .feeOnPot => round.poolUp + round.poolDown
        | .feeOnWinnings => round.pool side.other) * terms.protocolFeeBps.getD 0 / 10000 := by
  unfold Terms.upDownFee rateOf bpsDenominator
  cases terms.feeModel <;> cases terms.protocolFeeBps <;> simp

/-- What a competitive UpDown settlement does to the accounts. -/
structure CompetitiveSettled (s s' : Storage A) (ending : Ending) (finalPrice : ℕ) (fee : ℤ) :
    Prop where
  fee_eq : fee =
    (match s.control.settings.readFeeModel with
      | .feeOnPot => ending.round.poolUp + ending.round.poolDown
      | .feeOnWinnings => ending.round.pool (ending.round.winningSide finalPrice).other) *
      s.control.settings.protocolFeeBps.getD 0 / 10000
  fee_le : 10 * fee ≤ ending.round.poolUp + ending.round.poolDown
  collected : s'.vault.treasury + s'.vault.insuranceFund =
    s.vault.treasury + s.vault.insuranceFund + fee
  winners : ∀ user ∈ s.rounds.upDownWinners ending.round finalPrice,
    s'.vault.pendingOf user = s.vault.pendingOf user +
      s.rounds.stakeOf .upDown ending.round.roundId user *
        (ending.round.poolUp + ending.round.poolDown - fee) /
          ending.round.pool (ending.round.winningSide finalPrice)
  others : ∀ user, user ∉ s.rounds.upDownWinners ending.round finalPrice →
    s'.vault.pendingOf user = s.vault.pendingOf user
  rounding : ending.round.poolUp + ending.round.poolDown -
      (s.rounds.upDownWinners ending.round finalPrice).length <
        ((s.rounds.upDownWinners ending.round finalPrice).map fun user =>
          s'.vault.pendingOf user - s.vault.pendingOf user).sum + fee ∧
    ((s.rounds.upDownWinners ending.round finalPrice).map fun user =>
      s'.vault.pendingOf user - s.vault.pendingOf user).sum + fee ≤
        ending.round.poolUp + ending.round.poolDown
  principal : s.control.settings.readFeeModel = .feeOnWinnings →
    ∀ user ∈ s.rounds.upDownWinners ending.round finalPrice,
      s.rounds.stakeOf .upDown ending.round.roundId user ≤
        s'.vault.pendingOf user - s.vault.pendingOf user

section Settled

variable {ledger : ℕ} (hends : Ends ledger ending s s')
  (hbook : Represents s.rounds ending.round)
  (hcap : FeeCapped s.control.settings.protocolFeeBps)
  (hcompetitive : ending.IsCompetitive finalPrice)
include hends hbook hcap hcompetitive

/-- Every participant of a competitive settlement is credited the payout of their record. -/
theorem Ends.pendingOf_competitive {user : A}
    (huser : user ∈ s.rounds.participants ending.round.roundId) :
    s'.vault.pendingOf user = s.vault.pendingOf user +
      if s.rounds.betOn ending.round.roundId (ending.round.winningSide finalPrice) user then
        Apportion.share
          (s.control.settings.terms.upDownPot ending.round (ending.round.winningSide finalPrice))
          (ending.round.pool (ending.round.winningSide finalPrice))
          (s.rounds.stakeOf .upDown ending.round.roundId user)
      else 0 := by
  have hmem : s.control.settings.terms.upDownRecord s.rounds ending.round
      (ending.round.winningSide finalPrice) user ∈
        (ending.plan s.control.settings.terms s.rounds).records := by
    rw [hcompetitive.plan]
    exact List.mem_map_of_mem (mem_sortAddresses.mpr huser)
  have huncovered : s.coverageOf ending user = 0 := by
    refine coverageOf_eq_zero (fun reason hkind => ?_) user
    have hprice := hcompetitive.price
    rw [hkind] at hprice
    cases hprice
  have hcredited := hends.pendingOf_of_mem hbook hcap hmem
  rw [upDownRecord_user, upDownRecord_payout, huncovered, add_zero] at hcredited
  exact hcredited

/-- A competitive UpDown settlement pays the winners their shares. -/
theorem Ends.competitiveSettled :
    CompetitiveSettled s s' ending finalPrice
      (s.control.settings.terms.upDownFee ending.round (ending.round.winningSide finalPrice)) := by
  set side := ending.round.winningSide finalPrice with hside
  set terms := s.control.settings.terms with hterms
  have hupDown := hbook.upDown hcompetitive.upDown
  have hpools : ∀ side : BetSide, 0 < ending.round.pool side := by
    rintro (- | -)
    · exact hcompetitive.pools.1
    · exact hcompetitive.pools.2
  have hsum := ending.round.pool_add_other side
  have hbounds := @Terms.upDownFee_bounds ending.round terms hcap side
    ⟨(hpools side).le, (hpools side.other).le⟩
  have hwinner : ∀ user ∈ s.rounds.upDownWinners ending.round finalPrice,
      s'.vault.pendingOf user = s.vault.pendingOf user +
        Apportion.share (terms.upDownPot ending.round side) (ending.round.pool side)
          (s.rounds.stakeOf .upDown ending.round.roundId user) := by
    intro user huser
    obtain ⟨hmem, hbet⟩ := List.mem_filter.mp huser
    rw [hends.pendingOf_competitive hbook hcap hcompetitive hmem, if_pos hbet]
  have hpaid := paid_upDown_bounds terms hbook hcompetitive.upDown (hpools side).ne'
    (.refl _) (terms.upDownFee ending.round side)
  have hcredits : ((s.rounds.upDownWinners ending.round finalPrice).map fun user =>
      s'.vault.pendingOf user - s.vault.pendingOf user).sum =
        (Plan.mk (terms.upDownFee ending.round side)
          ((s.rounds.participants ending.round.roundId).map
            (terms.upDownRecord s.rounds ending.round side))).paid := by
    rw [paid_upDown, Apportion.shares, Rounds.sideStakes, List.map_map]
    refine congrArg List.sum (List.map_congr_left fun user huser => ?_)
    rw [hwinner user huser, add_sub_cancel_left]
    rfl
  have hpot : terms.upDownPot ending.round side =
      ending.round.poolUp + ending.round.poolDown - terms.upDownFee ending.round side := rfl
  constructor
  · exact upDownFee_eq terms ending.round side
  · exact hbounds.2
  · have hcollected := hends.collected hbook hcap
    rw [hcompetitive.plan, coveragePaid_of_price hcompetitive.price, sub_zero] at hcollected
    exact hcollected
  · exact hwinner
  · intro user huser
    by_cases hmem : user ∈ s.rounds.participants ending.round.roundId
    · have hnot : ¬ s.rounds.betOn ending.round.roundId side user = true := fun hbet =>
        huser (List.mem_filter.mpr ⟨hmem, hbet⟩)
      rw [hends.pendingOf_competitive hbook hcap hcompetitive hmem, if_neg hnot, add_zero]
    · unfold Vault.pendingOf Store.getD
      rw [(hends.pending_of_not_mem hbook hcap hmem).1]
  · rw [hcredits]
    have hlength : (s.rounds.upDownWinners ending.round finalPrice).length =
      ((s.rounds.participants ending.round.roundId).filter fun user =>
        s.rounds.betOn ending.round.roundId side user).length := rfl
    omega
  · intro hmodel user huser
    have hstake := hbook.stake_pos (List.mem_filter.mp huser).1
    rw [hcompetitive.upDown] at hstake
    -- the fee is taken from the losing pool only, so the pot covers the winning pool
    have hfee : terms.upDownFee ending.round side ≤ ending.round.pool side.other := by
      have htaken : terms.upDownFee ending.round side =
          rateOf terms.protocolFeeBps (ending.round.pool side.other) := by
        unfold Terms.upDownFee
        rw [show terms.feeModel = .feeOnWinnings from hmodel]
      have hrate := rateOf_le hcap (hpools side.other).le
      have hnonneg := @rateOf_nonneg terms.protocolFeeBps _ (hpools side.other).le
      rw [htaken]
      show rateOf s.control.settings.protocolFeeBps _ ≤ _
      have hpos := hpools side.other
      omega
    rw [hwinner user huser, add_sub_cancel_left]
    exact Apportion.weight_le_share (hpools side) hstake.le (by omega)

end Settled

/-- In every reachable chain a successful call that settles an UpDown round with stakes on both
sides at a price other than the starting price pays the winners their shares. -/
theorem updown_settlement_exact {host : Host A} {chain chain' : Chain A} {signers : List A}
    {call : Call A} (hreachable : Reachable host chain)
    (hstep : Step host chain (.invoke signers call) chain')
    (hending : call.ending chain.storage = some ending)
    (hcompetitive : ending.IsCompetitive finalPrice) :
    ∃ fee, CompetitiveSettled chain.storage chain'.storage ending finalPrice fee := by
  have hhealthy : chain.storage.Healthy chain.ledger.sequence := hreachable.healthy
  have hlive := (Call.endsBy hending).live hhealthy.ordered
  exact ⟨_, (hreachable.ends hstep hending).competitiveSettled (hhealthy.ordered.live _ _ hlive).2
    hhealthy.fee_capped hcompetitive⟩

/-- Finalizing round 1 of the trial run pays user 3, who bet 70 of 100 on the side the price moved
to, the whole pot. -/
theorem updown_settlement_exact_finalized : ∃ chain chain' : Chain ℕ,
    Step trialHost chain (.invoke [9] (.finalizeRound 1)) chain' ∧
      chain'.storage.vault.pendingOf 3 = chain.storage.vault.pendingOf 3 + 100 := by
  obtain ⟨trace, chain, chain', hhistory, hfits⟩ := exists_trial
    (overlappingRounds ++ [.closeLedger (ledgerAt 30)]) (.invoke [9] (.finalizeRound 1))
    (fun chain _ => decide (((Call.finalizeRound 1).ending chain.storage).any fun ending =>
      ending.kind = .finalized 101 ∧ ending.round.mode = .upDown ∧ ending.round.poolUp = 70 ∧
      ending.round.poolDown = 30 ∧ ending.round.priceStart = 100 ∧
      3 ∈ chain.storage.rounds.upDownWinners ending.round 101 ∧
      chain.storage.rounds.stakeOf .upDown ending.round.roundId 3 = 70 ∧
      chain.storage.control.settings.protocolFeeBps = none)) (by decide +kernel)
  obtain ⟨ending, hending, hfits⟩ := (Option.any_eq_true _ _).mp (of_decide_eq_true hfits)
  obtain ⟨hkind, hmode, hup, hdown, hstart, hwins, hstake, hrate⟩ := of_decide_eq_true hfits
  have hcompetitive : ending.IsCompetitive 101 :=
    ⟨by rw [hkind]; rfl, hmode, by rw [hup, hdown]; decide, by rw [hstart]; decide⟩
  obtain ⟨fee, hsettled⟩ := updown_settlement_exact hhistory.last.1 hhistory.last.2 hending
    hcompetitive
  have hfee : fee = 0 := by
    rw [hsettled.fee_eq, hrate]
    cases chain.storage.control.settings.readFeeModel <;> simp
  have hside : ending.round.winningSide 101 = .up := by simp [Round.winningSide, hstart]
  have hcredited := hsettled.winners 3 hwins
  rw [hfee, hside, hstake, Round.pool, hup, hdown] at hcredited
  exact ⟨chain, chain', hhistory.last.2, hcredited⟩

end XelmaMarket
