import XelmaMarket.PrecisionSettlement

/-!
# The principal of the winners

With a fee on winnings the fee is taken from what the losers staked. The winners together are
paid at least what they staked. Shares in proportion to the stakes leave each winner the stake;
even shares do so only while no winner staked more than an even share.
-/

namespace XelmaMarket

variable {A : Type} [LinearOrder A] {s s' : Storage A} {round : Round} {finalPrice : ℕ}
  {terms : Terms} {rounds : Rounds A}

/-- What the winners of a Precision round share under a fee on winnings. -/
def Storage.winningsPool (s : Storage A) (round : Round) (finalPrice : ℕ) : ℤ :=
  let pot := s.rounds.totalStake .precision round.roundId
  let winnerStakes := s.rounds.stakesOf round.roundId (s.rounds.sortedWinners round finalPrice)
  pot - rateOf s.control.settings.protocolFeeBps (pot - winnerStakes)

/-- No winner staked more than an even share of the pool; the winner with the lowest address may
have staked the remainder as well. -/
def Storage.EvenSharesCover (s : Storage A) (round : Round) (finalPrice : ℕ) : Prop :=
  let winners := s.rounds.sortedWinners round finalPrice
  let pool := s.winningsPool round finalPrice
  ∀ user ∈ winners, s.rounds.stakeOf .precision round.roundId user ≤
    pool / winners.length + if ∀ other ∈ winners, user ≤ other then pool % winners.length else 0

/-- The winners' principal is covered: shares are in proportion to the stakes, or even shares cover
the stakes. -/
def Storage.PrincipalCovered (s : Storage A) (round : Round) (finalPrice : ℕ) : Prop :=
  s.control.settings.readPrecisionPayoutPolicy = .stakeWeighted ∨
    s.EvenSharesCover round finalPrice

/-- Every winner is credited at least the stake. -/
def KeepPrincipal (s s' : Storage A) (round : Round) (finalPrice : ℕ) : Prop :=
  ∀ user ∈ s.rounds.sortedWinners round finalPrice,
    s.rounds.stakeOf .precision round.roundId user ≤
      s'.vault.pendingOf user - s.vault.pendingOf user

/-! ## What the winners are credited -/

/-- The fee of a Precision settlement with a revealed prediction. -/
theorem plan_fee_of_revealed (hmode : round.mode = .precision)
    (hrevealed : rounds.Revealed round.roundId) :
    (terms.plan rounds round finalPrice).fee =
      terms.precisionFee (rounds.totalStake .precision round.roundId)
        (rounds.stakesOf round.roundId (rounds.sortedWinners round finalPrice)) := by
  have hne := @sortedWinners_ne_nil _ _ _ finalPrice _ hrevealed
  have hpot := sum_precision_stakes hmode (sortAddresses_perm (rounds.participants round.roundId))
  rw [hmode] at hpot
  rw [Terms.plan, hmode]
  simp only [Terms.precisionPlan, hpot]
  rw [Rounds.sortedWinners] at hne ⊢
  rw [if_neg hne]

/-- A winner is credited the share, and the remainder as well at the lowest address. -/
theorem RevealedSettled.credit {fee : ℤ} (hsettled : RevealedSettled s s' round finalPrice fee)
    {user : A} (hwinner : user ∈ s.rounds.sortedWinners round finalPrice) :
    s'.vault.pendingOf user - s.vault.pendingOf user =
      s.control.settings.terms.winnerShare s.rounds round
          (s.rounds.sortedWinners round finalPrice)
          (s.rounds.totalStake .precision round.roundId - fee) user +
        if ∀ other ∈ s.rounds.sortedWinners round finalPrice, user ≤ other then
          s.rounds.totalStake .precision round.roundId - fee -
            ((s.rounds.sortedWinners round finalPrice).map
              (s.control.settings.terms.winnerShare s.rounds round
                (s.rounds.sortedWinners round finalPrice)
                (s.rounds.totalStake .precision round.roundId - fee))).sum
        else 0 := by
  split
  · next hlowest =>
      rw [hsettled.remainder user hwinner hlowest]
      ring
  · next hlower =>
      push Not at hlower
      rw [hsettled.shares user hwinner hlower]
      ring

omit [LinearOrder A] in
/-- Even shares leave the remainder of the division. -/
theorem sum_even_shares (pool : ℤ) (winners : List A) :
    pool - (winners.map fun _ => pool / (winners.length : ℤ)).sum = pool % winners.length := by
  rw [List.map_const', List.sum_replicate, nsmul_eq_mul]
  have := Int.mul_ediv_add_emod pool winners.length
  omega

section Credits

variable (hbook : Represents s.rounds round) (hmode : round.mode = .precision)
include hbook hmode

/-- Every winner has a positive stake. -/
theorem winner_stake_pos {user : A} (hwinner : user ∈ s.rounds.sortedWinners round finalPrice) :
    0 < s.rounds.stakeOf .precision round.roundId user :=
  precision_stake_pos hbook hmode (.refl _) ((mem_sortedWinners user).mp hwinner).1

/-- A fee on winnings leaves the winners together at least their stakes. -/
theorem stakesOf_le_winningsPool (hcap : FeeCapped s.control.settings.protocolFeeBps) :
    s.rounds.stakesOf round.roundId (s.rounds.sortedWinners round finalPrice) ≤
      s.winningsPool round finalPrice := by
  have hstaked : ∀ user ∈ sortAddresses (s.rounds.participants round.roundId),
      0 < s.rounds.stakeOf .precision round.roundId user := fun user huser =>
    precision_stake_pos hbook hmode (sortAddresses_perm _) huser
  have hpot := sum_precision_stakes hmode (sortAddresses_perm (s.rounds.participants round.roundId))
  rw [hmode] at hpot
  have hle := @stakesOf_winners_le _ finalPrice _ s.rounds round.roundId hstaked
  rw [hpot] at hle
  have hprofit : 0 ≤ s.rounds.totalStake .precision round.roundId -
      s.rounds.stakesOf round.roundId (s.rounds.sortedWinners round finalPrice) := sub_nonneg.mpr hle
  have hfee := rateOf_le hcap hprofit
  unfold Storage.winningsPool
  dsimp only
  omega

end Credits

section Settled

variable {fee : ℤ} (hbook : Represents s.rounds round) (hmode : round.mode = .precision)
  (hsettled : RevealedSettled s s' round finalPrice fee)
  (hpool : s.rounds.totalStake .precision round.roundId - fee = s.winningsPool round finalPrice)
include hbook hmode hsettled hpool

/-- In proportion to the stakes every winner keeps the principal. -/
theorem RevealedSettled.keeps_of_stakeWeighted
    (hcap : FeeCapped s.control.settings.protocolFeeBps)
    (hpolicy : s.control.settings.readPrecisionPayoutPolicy = .stakeWeighted) :
    KeepPrincipal s s' round finalPrice := by
  have hterms : s.control.settings.terms.payoutPolicy = .stakeWeighted := hpolicy
  have hle := @stakesOf_le_winningsPool _ _ _ _ finalPrice hbook hmode hcap
  intro user hwinner
  have hpos := winner_stake_pos hbook hmode hwinner
  have hstakes : s.rounds.stakeOf .precision round.roundId user ≤
      s.rounds.stakesOf round.roundId (s.rounds.sortedWinners round finalPrice) :=
    List.single_le_sum (fun x hx => by
      obtain ⟨other, hother, rfl⟩ := List.mem_map.mp hx
      exact (winner_stake_pos hbook hmode hother).le) _ (List.mem_map_of_mem hwinner)
  have hshare : s.rounds.stakeOf .precision round.roundId user ≤
      s.control.settings.terms.winnerShare s.rounds round
        (s.rounds.sortedWinners round finalPrice) (s.winningsPool round finalPrice) user := by
    unfold Terms.winnerShare
    rw [hterms]
    exact Apportion.weight_le_share (by omega) hpos.le hle
  -- the shares never exceed the pool, so the remainder takes nothing away
  have hremainder : ((s.rounds.sortedWinners round finalPrice).map
      (s.control.settings.terms.winnerShare s.rounds round
        (s.rounds.sortedWinners round finalPrice) (s.winningsPool round finalPrice))).sum ≤
          s.winningsPool round finalPrice := by
    have hsum := @sum_policyShares_le .stakeWeighted (s.winningsPool round finalPrice)
      ((s.rounds.sortedWinners round finalPrice).map (s.rounds.stakeOf .precision round.roundId))
      (by omega) fun stake hstake => by
        obtain ⟨other, hother, rfl⟩ := List.mem_map.mp hstake
        exact winner_stake_pos hbook hmode hother
    rw [PrecisionPayoutPolicy.shares, List.map_map, List.length_map] at hsum
    unfold Terms.winnerShare
    rw [hterms]
    exact hsum
  rw [hsettled.credit hwinner, hpool]
  split <;> omega

omit hbook hmode in
/-- With even shares every winner keeps the principal exactly when the even shares cover it. -/
theorem RevealedSettled.keeps_iff_of_equal
    (hpolicy : s.control.settings.readPrecisionPayoutPolicy = .equal) :
    KeepPrincipal s s' round finalPrice ↔ s.EvenSharesCover round finalPrice := by
  have hterms : s.control.settings.terms.payoutPolicy = .equal := hpolicy
  have hshare : s.control.settings.terms.winnerShare s.rounds round
      (s.rounds.sortedWinners round finalPrice) (s.winningsPool round finalPrice) = fun _ =>
        s.winningsPool round finalPrice / (s.rounds.sortedWinners round finalPrice).length := by
    funext user
    unfold Terms.winnerShare
    rw [hterms]
    rfl
  refine forall₂_congr fun user hwinner => ?_
  rw [hsettled.credit hwinner, hpool, hshare, sum_even_shares]

omit hpool in
/-- With a fee on winnings every winner keeps the principal exactly when it is covered. -/
theorem RevealedSettled.keeps_iff (hcap : FeeCapped s.control.settings.protocolFeeBps)
    (hmodel : s.control.settings.readFeeModel = .feeOnWinnings)
    (hrevealed : s.rounds.Revealed round.roundId)
    (hfee : fee = (s.control.settings.terms.plan s.rounds round finalPrice).fee) :
    KeepPrincipal s s' round finalPrice ↔ s.PrincipalCovered round finalPrice := by
  have hterms : s.control.settings.terms.feeModel = .feeOnWinnings := hmodel
  have hpool : s.rounds.totalStake .precision round.roundId - fee =
      s.winningsPool round finalPrice := by
    rw [hfee, plan_fee_of_revealed hmode hrevealed, Terms.precisionFee, hterms]
    rfl
  cases hpolicy : s.control.settings.readPrecisionPayoutPolicy with
  | equal =>
      rw [hsettled.keeps_iff_of_equal hpool hpolicy, Storage.PrincipalCovered, hpolicy]
      simp
  | stakeWeighted =>
      exact iff_of_true (hsettled.keeps_of_stakeWeighted hbook hmode hpool hcap hpolicy)
        (.inl hpolicy)

end Settled

/-- In every reachable chain, when a Precision round with a revealed prediction is settled under a
fee on winnings, at any price, every winner is credited at least the stake exactly when the shares
are in proportion to the stakes or no winner staked more than an even share. -/
theorem principal_kept_iff {host : Host A} {chain : Chain A} {roundId : ℕ}
    (hreachable : Reachable host chain) (hlive : chain.storage.rounds.IsLive roundId round)
    (hmode : round.mode = .precision) (hrevealed : chain.storage.rounds.Revealed round.roundId)
    (hmodel : chain.storage.control.settings.readFeeModel = .feeOnWinnings) :
    (∀ env finalPrice result s', resolvePrecisionMode roundId finalPrice env chain.storage =
      .ok (result, s') → (KeepPrincipal chain.storage s' round finalPrice ↔
        chain.storage.PrincipalCovered round finalPrice)) ∧
    ∀ signers call chain' ending finalPrice, Step host chain (.invoke signers call) chain' →
      call.ending chain.storage = some ending → ending.round = round →
      ending.kind.price = some finalPrice →
      (KeepPrincipal chain.storage chain'.storage round finalPrice ↔
        chain.storage.PrincipalCovered round finalPrice) := by
  have hhealthy : chain.storage.Healthy chain.ledger.sequence := hreachable.healthy
  obtain ⟨rfl, hbook⟩ := hhealthy.ordered.live _ _ hlive
  have hnew := hhealthy.recorded.unrecorded _ _ hlive
  constructor
  · intro env finalPrice result s' hrun
    obtain ⟨hends, -⟩ := ends_of_resolvePrecisionMode hbook hmode hhealthy.fee_capped hrun
    have hsettled := hends.revealedSettled hbook hhealthy.fee_capped hnew rfl hmode hrevealed
    have hkeeps := hsettled.keeps_iff hbook hmode hhealthy.fee_capped hmodel hrevealed
      (congrArg Plan.fee (Ending.plan_of_price rfl))
    exact hkeeps
  · rintro signers call chain' ending finalPrice hstep hending rfl hprice
    have hsettled := (hreachable.ends hstep hending).revealedSettled hbook hhealthy.fee_capped hnew
      hprice hmode hrevealed
    exact hsettled.keeps_iff hbook hmode hhealthy.fee_capped hmodel hrevealed
      (congrArg Plan.fee (Ending.plan_of_price hprice))

/-- Users 3 and 4 are equally close in a Precision round with even shares and a fee on winnings. -/
def tiedRound (first second : ℤ) : List (Action ℕ) := trialSetup ++ [
  .invoke [1] (.control (.setFeeModel .feeOnWinnings)),
  .invoke [1] (.createRound 100 (some 1)),
  .invoke [3] (.placePrecisionPrediction 3 first 1010),
  .invoke [4] (.placePrecisionPrediction 4 second 990),
  .invoke [5] (.placePrecisionPrediction 5 10 1200),
  .closeLedger (ledgerAt 20),
  .invoke [2] (.control (.updateOracleHeartbeat 0))]

/-- The settlement of round 1 at price 1000, with a revealed prediction under a fee on winnings. -/
def SettlesTie (chain : Chain ℕ) (ending : Ending) : Prop :=
  ending.kind = .resolved 1000 ∧ ending.round.mode = .precision ∧
    chain.storage.rounds.activeRound = some ending.round ∧
    3 ∈ chain.storage.rounds.participants ending.round.roundId ∧
    (chain.storage.rounds.precisionPosition.get (ending.round.roundId, 3)).isSome = true ∧
    chain.storage.control.settings.readFeeModel = .feeOnWinnings

instance (chain : Chain ℕ) (ending : Ending) : Decidable (SettlesTie chain ending) :=
  inferInstanceAs (Decidable (_ ∧ _))

instance (s : Storage A) (round : Round) (finalPrice : ℕ) :
    Decidable (s.EvenSharesCover round finalPrice) :=
  inferInstanceAs (Decidable (∀ user ∈ _, _))

instance (s s' : Storage A) (round : Round) (finalPrice : ℕ) :
    Decidable (KeepPrincipal s s' round finalPrice) :=
  inferInstanceAs (Decidable (∀ user ∈ _, _))

/-- Two winners who staked 41 and 40 keep their principal. -/
theorem principal_kept_of_close_stakes : ∃ chain chain' : Chain ℕ, ∃ round,
    Step trialHost chain (.invoke [2] (.resolveRound (trialPayload 1 1000 100))) chain' ∧
      KeepPrincipal chain.storage chain'.storage round 1000 := by
  obtain ⟨trace, chain, chain', hhistory, hfits⟩ := exists_trial (tiedRound 41 40)
    (.invoke [2] (.resolveRound (trialPayload 1 1000 100)))
    (fun chain _ => ((Call.resolveRound (trialPayload 1 1000 100)).ending chain.storage).any
      fun ending : Ending => decide (SettlesTie chain ending ∧
        chain.storage.EvenSharesCover ending.round 1000)) (by decide +kernel)
  obtain ⟨ending, hending, hfits⟩ := (Option.any_eq_true _ _).mp hfits
  obtain ⟨⟨hkind, hmode, hactive, huser, hrevealed, hmodel⟩, hcover⟩ := of_decide_eq_true hfits
  obtain ⟨prediction, hprediction⟩ := Option.isSome_iff_exists.mp hrevealed
  obtain ⟨-, hstep⟩ := principal_kept_iff hhistory.last.1 (.inl ⟨hactive, rfl⟩) hmode
    ⟨3, huser, prediction, hprediction⟩ hmodel
  refine ⟨chain, chain', ending.round, hhistory.last.2, ?_⟩
  exact (hstep _ _ chain' ending 1000 hhistory.last.2 hending rfl (by rw [hkind]; rfl)).mpr
    (.inr hcover)

/-- A winner who staked 90 against another winner's 10 is credited less than the stake. -/
theorem principal_lost : ¬ ∀ (chain chain' : Chain ℕ) signers call ending finalPrice,
    Reachable trialHost chain → Step trialHost chain (.invoke signers call) chain' →
    call.ending chain.storage = some ending → ending.kind.price = some finalPrice →
    ending.round.mode = .precision → chain.storage.rounds.Revealed ending.round.roundId →
    chain.storage.control.settings.readFeeModel = .feeOnWinnings →
    KeepPrincipal chain.storage chain'.storage ending.round finalPrice := by
  intro hclaim
  obtain ⟨trace, chain, chain', hhistory, hfits⟩ := exists_trial (tiedRound 10 90)
    (.invoke [2] (.resolveRound (trialPayload 1 1000 100)))
    (fun chain chain' => ((Call.resolveRound (trialPayload 1 1000 100)).ending chain.storage).any
      fun ending : Ending => decide (SettlesTie chain ending ∧
        ¬ KeepPrincipal chain.storage chain'.storage ending.round 1000)) (by decide +kernel)
  obtain ⟨ending, hending, hfits⟩ := (Option.any_eq_true _ _).mp hfits
  obtain ⟨⟨hkind, hmode, -, huser, hrevealed, hmodel⟩, hlost⟩ := of_decide_eq_true hfits
  obtain ⟨prediction, hprediction⟩ := Option.isSome_iff_exists.mp hrevealed
  exact hlost (hclaim chain chain' [2] _ ending 1000 hhistory.last.1 hhistory.last.2 hending
    (by rw [hkind]; rfl) hmode ⟨3, huser, prediction, hprediction⟩ hmodel)

end XelmaMarket
