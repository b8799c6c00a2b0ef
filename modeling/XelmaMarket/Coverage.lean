import XelmaMarket.Refunds

/-!
# Coverage of cancelled rounds

An eligible cancellation takes the covered part of every stake out of the fund, each rounded down,
and then divides what it took in proportion to the stakes, rounding down again. Nothing of it is
lost exactly when the second division is exact, and then everyone receives the covered part of the
own stake.
-/

namespace XelmaMarket

variable {A : Type} [LinearOrder A] {s s' : Storage A} {round : Round} {reason : ℕ}

/-- What a participant is credited beyond the stake. -/
def coverageCredited (s s' : Storage A) (round : Round) (user : A) : ℤ :=
  s'.vault.pendingOf user - s.vault.pendingOf user -
    s.rounds.stakeOf round.mode round.roundId user

/-- The coverage of a cancelled round is solvent and fully paid: what the fund pays is credited,
the fund does not become negative, nobody receives more than the covered part of the stake, a
larger stake receives no less, and all receive the covered part when the fund allows it. -/
structure FullyCovered (s s' : Storage A) (round : Round) : Prop where
  credited : ((s.rounds.participants round.roundId).map (coverageCredited s s' round)).sum =
    s.vault.insuranceFund - s'.vault.insuranceFund
  solvent : 0 ≤ s'.vault.insuranceFund
  capped : ∀ user ∈ s.rounds.participants round.roundId, coverageCredited s s' round user ≤
    s.control.settings.coverageOfStake (s.rounds.stakeOf round.mode round.roundId user)
  monotone : ∀ user ∈ s.rounds.participants round.roundId,
    ∀ other ∈ s.rounds.participants round.roundId,
    s.rounds.stakeOf round.mode round.roundId user ≤
      s.rounds.stakeOf round.mode round.roundId other →
    coverageCredited s s' round user ≤ coverageCredited s s' round other
  full : s.coverageRequested round ≤ s.vault.insuranceFund →
    ∀ user ∈ s.rounds.participants round.roundId, coverageCredited s s' round user =
      s.control.settings.coverageOfStake (s.rounds.stakeOf round.mode round.roundId user)

/-- What is asked of the fund, as far as the fund goes, divides in proportion to the stakes without
rounding. -/
def Storage.CoverageDivides (s : Storage A) (round : Round) : Prop :=
  ∀ user ∈ s.rounds.participants round.roundId,
    s.rounds.totalStake round.mode round.roundId ∣
      s.rounds.stakeOf round.mode round.roundId user *
        min (s.coverageRequested round) s.vault.insuranceFund

section Shares

variable (hbook : Represents s.rounds round)
include hbook

omit [LinearOrder A] in
/-- The covered part of a stake is not negative. -/
theorem coverageRequested_nonneg : 0 ≤ s.coverageRequested round := by
  refine List.sum_nonneg fun x hx => ?_
  obtain ⟨user, huser, rfl⟩ := List.mem_map.mp hx
  exact Int.ediv_nonneg (mul_nonneg (hbook.stake_pos huser).le (by omega)) (by decide)

omit [LinearOrder A] hbook in
/-- What is asked for is at most the covered part of all stakes together. -/
theorem coverageRequested_mul_le : s.coverageRequested round * bpsDenominator ≤
    s.rounds.totalStake round.mode round.roundId * s.control.settings.insuranceCoverageBps := by
  unfold Storage.coverageRequested Rounds.totalStake
  rw [← List.sum_map_mul_right, ← List.sum_map_mul_right]
  exact List.sum_le_sum fun user _ => Int.ediv_mul_le _ (by decide)

omit [LinearOrder A] in
/-- An eligible cancellation takes what is asked for out of the fund, as far as the fund goes. -/
theorem coveragePaid_of_eligible
    (heligible : s.control.settings.isCoverageEligible reason = true)
    (hfund : 0 ≤ s.vault.insuranceFund) : s.coveragePaid ⟨round, .cancelled reason⟩ =
      min (s.coverageRequested round) s.vault.insuranceFund := by
  have hpaid : s.coveragePaid ⟨round, .cancelled reason⟩ =
      max 0 (min (s.coverageRequested round) s.vault.insuranceFund) := by
    simp [Storage.coveragePaid, Ending.isCovered, heligible]
  rw [hpaid, max_eq_right (le_min (coverageRequested_nonneg hbook) hfund)]

omit [LinearOrder A] in
/-- The coverage of an eligible cancellation is fully paid exactly when its division is exact. -/
theorem fullyCovered_iff (heligible : s.control.settings.isCoverageEligible reason = true)
    (hfund : 0 ≤ s.vault.insuranceFund) (hfund' : 0 ≤ s'.vault.insuranceFund)
    (hexact : RefundsExactly s s' ⟨round, .cancelled reason⟩) :
    FullyCovered s s' round ↔ s.CoverageDivides round := by
  have hpaid := coveragePaid_of_eligible hbook heligible hfund
  have hcredited : ∀ user ∈ s.rounds.participants round.roundId,
      coverageCredited s s' round user =
        Apportion.share (min (s.coverageRequested round) s.vault.insuranceFund)
          (s.rounds.totalStake round.mode round.roundId)
          (s.rounds.stakeOf round.mode round.roundId user) := by
    intro user huser
    rw [coverageCredited, hexact.refunded user huser, ← hpaid, Storage.coverageOf]
    ring
  have hdecrease : s.vault.insuranceFund - s'.vault.insuranceFund =
      min (s.coverageRequested round) s.vault.insuranceFund := by
    rw [hexact.fund, hpaid]
    ring
  have hsum : ((s.rounds.participants round.roundId).map (coverageCredited s s' round)).sum =
      (Apportion.shares (min (s.coverageRequested round) s.vault.insuranceFund)
        (s.rounds.totalStake round.mode round.roundId)
        ((s.rounds.participants round.roundId).map
          (s.rounds.stakeOf round.mode round.roundId))).sum := by
    rw [Apportion.shares, List.map_map]
    exact congrArg List.sum (List.map_congr_left hcredited)
  rcases eq_or_ne (s.rounds.participants round.roundId) [] with hnobody | hsome
  · have hnothing : s.coverageRequested round = 0 := by simp [Storage.coverageRequested, hnobody]
    refine iff_of_true ⟨?_, hfund', ?_, ?_, ?_⟩ ?_
    · rw [hdecrease, hnothing, min_eq_left hfund, hnobody]
      rfl
    all_goals simp [Storage.CoverageDivides, hnobody]
  · have htotal := hbook.totalStake_pos hsome
    have hdivides : ((s.rounds.participants round.roundId).map (coverageCredited s s' round)).sum =
        s.vault.insuranceFund - s'.vault.insuranceFund ↔ s.CoverageDivides round := by
      rw [hsum, hdecrease, Apportion.sum_shares_eq_iff htotal rfl]
      exact List.forall_mem_map
    have hpool : 0 ≤ min (s.coverageRequested round) s.vault.insuranceFund :=
      le_min (coverageRequested_nonneg hbook) hfund
    have hcapped : ∀ user ∈ s.rounds.participants round.roundId,
        coverageCredited s s' round user ≤ s.control.settings.coverageOfStake
          (s.rounds.stakeOf round.mode round.roundId user) := by
      intro user huser
      rw [hcredited user huser]
      refine Apportion.share_le_rate htotal (by decide) (hbook.stake_pos huser).le ?_
      exact (mul_le_mul_of_nonneg_right (min_le_left _ _) (by decide)).trans
        coverageRequested_mul_le
    refine ⟨fun hcovered => hdivides.mp hcovered.credited, fun hexactly =>
      ⟨hdivides.mpr hexactly, hfund', hcapped, ?_, fun henough user huser => ?_⟩⟩
    · intro user huser other hother hle
      rw [hcredited user huser, hcredited other hother]
      exact Apportion.share_mono hpool htotal hle
    · -- nobody receives more than asked for, and together they receive all that was asked for
      refine Apportion.eq_of_sum_eq hcapped ?_ huser
      rw [hdivides.mpr hexactly, hdecrease, min_eq_left henough]
      rfl

end Shares

/-- In every reachable chain the coverage of a cancellation for an eligible reason is solvent and
fully paid exactly when what is asked of the fund, as far as the fund goes, divides in proportion
to the stakes without rounding. -/
theorem coverage_fully_paid_iff {host : Host A} {chain chain' : Chain A} {signers : List A}
    (hreachable : Reachable host chain)
    (hactive : chain.storage.rounds.activeRound = some round)
    (heligible : chain.storage.control.settings.isCoverageEligible reason = true)
    (hstep : Step host chain (.invoke signers (.cancelRound reason)) chain') :
    FullyCovered chain.storage chain'.storage round ↔ chain.storage.CoverageDivides round := by
  have hhealthy : chain.storage.Healthy chain.ledger.sequence := hreachable.healthy
  have hhealthy' : chain'.storage.Healthy chain'.ledger.sequence := (hreachable.step hstep).healthy
  have hending : (Call.cancelRound reason).ending chain.storage =
      some ⟨round, .cancelled reason⟩ := by
    simp [Call.ending, hactive]
  obtain ⟨-, hbook⟩ := hhealthy.ordered.live _ _ (.inl ⟨hactive, rfl⟩)
  have hexact := (hreachable.ends hstep hending).refundsExactly hbook hhealthy.fee_capped
    (.cancelled reason rfl)
  exact fullyCovered_iff hbook heligible hhealthy.solvent.fund hhealthy'.solvent.fund hexact

/-- Users 3 and 4 bet in a round with half of their stakes covered for an oracle outage. -/
def coveredRound (first second : ℤ) : List (Action ℕ) := trialSetup ++ [
  .invoke [1] (.mintInitial 1),
  .invoke [1] (.topUpInsuranceFund 1000),
  .invoke [1] (.control (.setInsuranceCoverageBps 5000)),
  .invoke [1] (.control (.setInsuranceEligibleEvents [InsuranceEvent.oracleOutage.value])),
  .invoke [1] (.createRound 100 (some 0)),
  .invoke [3] (.placeBet 3 first .up),
  .invoke [4] (.placeBet 4 second .down)]

instance (s : Storage A) (round : Round) : Decidable (s.CoverageDivides round) :=
  inferInstanceAs (Decidable (∀ user ∈ _, _ ∣ _))

/-- Stakes of 40 and 60 are covered with 20 and 30. -/
theorem even_stakes_covered : ∃ chain chain' : Chain ℕ, ∃ round,
    Step trialHost chain (.invoke [1] (.cancelRound 1)) chain' ∧
      FullyCovered chain.storage chain'.storage round := by
  obtain ⟨trace, chain, chain', hhistory, hfits⟩ := exists_trial (coveredRound 40 60)
    (.invoke [1] (.cancelRound 1))
    (fun chain _ => chain.storage.rounds.activeRound.any fun round : Round =>
      decide (chain.storage.control.settings.isCoverageEligible 1 = true ∧
        chain.storage.CoverageDivides round)) (by decide +kernel)
  obtain ⟨round, hactive, hfits⟩ := (Option.any_eq_true _ _).mp hfits
  obtain ⟨heligible, hdivides⟩ := of_decide_eq_true hfits
  obtain ⟨hreachable, hstep⟩ := hhistory.last
  exact ⟨chain, chain', round, hstep,
    (coverage_fully_paid_iff hreachable hactive heligible hstep).mpr hdivides⟩

/-- Of stakes of 3 and 1 the fund pays the covered part of the first, 1, and nobody is credited. -/
theorem covered_part_lost : ¬ ∀ (chain chain' : Chain ℕ) signers reason round,
    Reachable trialHost chain → chain.storage.rounds.activeRound = some round →
    chain.storage.control.settings.isCoverageEligible reason = true →
    Step trialHost chain (.invoke signers (.cancelRound reason)) chain' →
    FullyCovered chain.storage chain'.storage round := by
  intro hclaim
  obtain ⟨trace, chain, chain', hhistory, hfits⟩ := exists_trial (coveredRound 3 1)
    (.invoke [1] (.cancelRound 1))
    (fun chain chain' => chain.storage.rounds.activeRound.any fun round : Round =>
      decide (chain.storage.control.settings.isCoverageEligible 1 = true ∧
        ((chain.storage.rounds.participants round.roundId).map
            (coverageCredited chain.storage chain'.storage round)).sum ≠
          chain.storage.vault.insuranceFund - chain'.storage.vault.insuranceFund))
    (by decide +kernel)
  obtain ⟨round, hactive, hfits⟩ := (Option.any_eq_true _ _).mp hfits
  obtain ⟨heligible, hlost⟩ := of_decide_eq_true hfits
  obtain ⟨hreachable, hstep⟩ := hhistory.last
  exact hlost (hclaim chain chain' [1] 1 round hreachable hactive heligible hstep).credited

end XelmaMarket
