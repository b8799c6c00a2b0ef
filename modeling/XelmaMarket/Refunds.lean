import XelmaMarket.RoundLife

/-!
# Refunds

Every situation in which a round is refunded gives each participant exactly the stake, whichever of
the pieces of code carries it out: a cancellation, a void, a fallback below the minimum of
participants, a one-sided or unmoved UpDown round, and a Precision round nobody revealed in.
-/

namespace XelmaMarket

variable {A : Type} [LinearOrder A]

/-- The situations in which an ending refunds its round. -/
inductive Ending.Refunds (ending : Ending) (rounds : Rounds A) : Prop where
  | cancelled (reason : ℕ) (hkind : ending.kind = .cancelled reason)
  | voided (hkind : ending.kind = .voided)
  | fallback (hkind : ending.kind = .fallbackRefund)
  | unchanged (finalPrice : ℕ) (hprice : ending.kind.price = some finalPrice)
      (hmode : ending.round.mode = .upDown) (hstart : finalPrice = ending.round.priceStart)
  | oneSided (finalPrice : ℕ) (hprice : ending.kind.price = some finalPrice)
      (hmode : ending.round.mode = .upDown)
      (hpool : isOneSidedPool ending.round.poolUp ending.round.poolDown = true)
  | unrevealed (finalPrice : ℕ) (hprice : ending.kind.price = some finalPrice)
      (hmode : ending.round.mode = .precision)
      (hhidden : ∀ user ∈ rounds.participants ending.round.roundId,
        rounds.precisionPosition.get (ending.round.roundId, user) = none)

variable {s s' : Storage A} {ending : Ending} {terms : Terms} {rounds : Rounds A}

omit [LinearOrder A] in
/-- Nobody wins a Precision round without a prediction. -/
theorem winners_eq_nil {roundId finalPrice : ℕ} {participants : List A}
    (hhidden : ∀ user ∈ participants, rounds.precisionPosition.get (roundId, user) = none) :
    rounds.winners roundId finalPrice participants = [] := by
  unfold Rounds.winners
  rw [List.filter_eq_nil_iff]
  intro user huser hwins
  obtain ⟨prediction, hprediction, -⟩ := of_decide_eq_true hwins
  rw [hhidden user huser] at hprediction
  cases hprediction

/-- A settlement that refunds has a refund plan. -/
theorem Terms.plan_of_refund {round : Round} {finalPrice : ℕ}
    (hupDown : round.mode = .upDown → round.refundsAt finalPrice)
    (hprecision : round.mode = .precision → ∀ user ∈ rounds.participants round.roundId,
      rounds.precisionPosition.get (round.roundId, user) = none) :
    terms.plan rounds round finalPrice = ⟨0, rounds.refundRecords round (fun _ => 0) .refund
      (sortAddresses (rounds.participants round.roundId))⟩ := by
  unfold Terms.plan
  cases hmode : round.mode with
  | upDown => exact if_pos (hupDown hmode)
  | precision =>
      refine if_pos (winners_eq_nil fun user huser => hprecision hmode user ?_)
      exact mem_sortAddresses.mp huser

/-- In every refund situation the plan gives the stakes back and nothing else. -/
theorem Ending.Refunds.plan (hrefunds : ending.Refunds rounds) :
    ∃ price outcome participants, ¬ (outcome = .win ∨ outcome = .loss) ∧
      participants.Perm (rounds.participants ending.round.roundId) ∧
      ending.plan terms rounds =
        ⟨0, rounds.refundRecords ending.round price outcome participants⟩ := by
  have hsettled : ∀ finalPrice, ending.kind.price = some finalPrice →
      (ending.round.mode = .upDown → ending.round.refundsAt finalPrice) →
      (ending.round.mode = .precision →
        ∀ user ∈ rounds.participants ending.round.roundId,
          rounds.precisionPosition.get (ending.round.roundId, user) = none) →
      ∃ price outcome participants, ¬ (outcome = .win ∨ outcome = .loss) ∧
        participants.Perm (rounds.participants ending.round.roundId) ∧
        ending.plan terms rounds =
          ⟨0, rounds.refundRecords ending.round price outcome participants⟩ := by
    intro finalPrice hprice hupDown hprecision
    rw [Ending.plan_of_price hprice, Terms.plan_of_refund hupDown hprecision]
    exact ⟨_, .refund, _, by decide, sortAddresses_perm _, rfl⟩
  have hunsettled : ending.kind.price = none →
      ∃ price outcome participants, ¬ (outcome = .win ∨ outcome = .loss) ∧
        participants.Perm (rounds.participants ending.round.roundId) ∧
        ending.plan terms rounds =
          ⟨0, rounds.refundRecords ending.round price outcome participants⟩ := by
    intro hprice
    obtain ⟨price, outcome, houtcome, hplan⟩ := @Ending.plan_of_no_price _ _ rounds terms _ hprice
    exact ⟨price, outcome, _, by rcases houtcome with rfl | rfl <;> decide, .refl _, hplan⟩
  cases hrefunds with
  | cancelled _ hkind | voided hkind | fallback hkind => exact hunsettled (by rw [hkind]; rfl)
  | unchanged finalPrice hprice hmode hstart =>
      exact hsettled finalPrice hprice (fun _ => .inr hstart) fun h => by simp [hmode] at h
  | oneSided finalPrice hprice hmode hpool =>
      exact hsettled finalPrice hprice (fun _ => .inl hpool) fun h => by simp [hmode] at h
  | unrevealed finalPrice hprice hmode hhidden =>
      exact hsettled finalPrice hprice (fun h => by simp [hmode] at h) fun _ => hhidden

/-- What a refund does to the accounts: every participant receives the stake and the coverage,
nobody else receives anything, the treasury receives no fee and the fund no share, and the
statistics stay. Only a cancellation for an eligible reason gives a coverage. -/
structure RefundsExactly (s s' : Storage A) (ending : Ending) : Prop where
  refunded : ∀ user ∈ s.rounds.participants ending.round.roundId,
    s'.vault.pendingOf user = s.vault.pendingOf user +
      s.rounds.stakeOf ending.round.mode ending.round.roundId user + s.coverageOf ending user
  others : ∀ user, user ∉ s.rounds.participants ending.round.roundId →
    s'.vault.pendingWinnings.get user = s.vault.pendingWinnings.get user
  balance : s'.vault.balance = s.vault.balance
  treasury : s'.vault.treasury = s.vault.treasury
  fund : s'.vault.insuranceFund = s.vault.insuranceFund - s.coveragePaid ending
  stats : s'.stats = s.stats
  coverage : ∀ user, s.coverageOf ending user ≠ 0 →
    ∃ reason, ending.kind = .cancelled reason ∧
      s.control.settings.isCoverageEligible reason = true
  paid : s.coveragePaid ending ≠ 0 →
    ∃ reason, ending.kind = .cancelled reason ∧
      s.control.settings.isCoverageEligible reason = true

omit [LinearOrder A] in
/-- The fund pays a coverage for eligible cancellations only. -/
theorem eligible_of_coveragePaid (hpaid : s.coveragePaid ending ≠ 0) :
    ∃ reason, ending.kind = .cancelled reason ∧
      s.control.settings.isCoverageEligible reason = true := by
  have hnonneg := coveragePaid_nonneg (s := s) ending
  obtain ⟨reason, hkind⟩ := @cancelled_of_covered _ s ending (by omega)
  refine ⟨reason, hkind, ?_⟩
  by_contra hineligible
  exact hpaid (by simp [Storage.coveragePaid, Ending.isCovered, hkind, hineligible])

/-- An ending in a refund situation refunds exactly. -/
theorem Ends.refundsExactly {ledger : ℕ} (hends : Ends ledger ending s s')
    (hbook : Represents s.rounds ending.round)
    (hcap : FeeCapped s.control.settings.protocolFeeBps)
    (hrefunds : ending.Refunds s.rounds) : RefundsExactly s s' ending := by
  obtain ⟨price, outcome, participants, hcounts, hperm, hplan⟩ :=
    @Ending.Refunds.plan _ _ _ s.control.settings.terms _ hrefunds
  have hfee : (ending.plan s.control.settings.terms s.rounds).fee = 0 := by rw [hplan]
  refine ⟨fun user huser => ?_, fun user huser =>
    (hends.pending_of_not_mem hbook hcap huser).1, hends.balance, ?_, ?_, ?_, fun user hne => ?_,
    eligible_of_coveragePaid⟩
  · have hmem : s.rounds.outcomeRecord ending.round.mode ending.round.roundId (price user) user
        (s.rounds.stakeOf ending.round.mode ending.round.roundId user) outcome ∈
          (ending.plan s.control.settings.terms s.rounds).records := by
      rw [hplan]
      exact List.mem_map.mpr ⟨user, hperm.mem_iff.mpr huser, rfl⟩
    simpa using hends.pendingOf_of_mem hbook hcap hmem
  · rw [hends.treasury hbook hcap, hfee]
    simp [insuranceShare]
  · rw [hends.insuranceFund hbook hcap, hfee]
    simp [insuranceShare]
  · rw [hends.stats]
    refine Stats.countAll_eq_self fun record hrecord hcounted => ?_
    rw [hplan] at hrecord
    obtain ⟨user, -, rfl⟩ := List.mem_map.mp hrecord
    simp only [UserRoundOutcome.counts, outcomeRecord_outcome] at hcounted
    exact hcounts hcounted
  · refine eligible_of_coveragePaid fun hzero => hne ?_
    simp [Storage.coverageOf, hzero, Apportion.share]

/-- In every reachable chain a successful call that refunds a round refunds it exactly. -/
theorem refund_exact {host : Host A} {chain chain' : Chain A} {signers : List A} {call : Call A}
    (hreachable : Reachable host chain) (hstep : Step host chain (.invoke signers call) chain')
    (hending : call.ending chain.storage = some ending)
    (hrefunds : ending.Refunds chain.storage.rounds) :
    RefundsExactly chain.storage chain'.storage ending := by
  have hhealthy : chain.storage.Healthy chain.ledger.sequence := hreachable.healthy
  have hlive := (Call.endsBy hending).live hhealthy.ordered
  exact (hreachable.ends hstep hending).refundsExactly (hhealthy.ordered.live _ _ hlive).2
    hhealthy.fee_capped hrefunds

/-- The void of round 1 in the trial run gives user 3 the stake of 70 back. -/
theorem refund_exact_void : ∃ chain chain' : Chain ℕ,
    Step trialHost chain (.invoke [9] (.voidRound 1)) chain' ∧
      chain'.storage.vault.pendingOf 3 = chain.storage.vault.pendingOf 3 + 70 := by
  obtain ⟨trace, chain, chain', hhistory, hfits⟩ := exists_trial overlappingRounds
    (.invoke [9] (.voidRound 1))
    (fun chain _ => decide (((Call.voidRound 1).ending chain.storage).any fun ending =>
      ending.kind = .voided ∧ 3 ∈ chain.storage.rounds.participants ending.round.roundId ∧
      chain.storage.rounds.stakeOf ending.round.mode ending.round.roundId 3 = 70))
    (by decide +kernel)
  obtain ⟨ending, hending, hfits⟩ := (Option.any_eq_true _ _).mp (of_decide_eq_true hfits)
  obtain ⟨hkind, huser, hstake⟩ := of_decide_eq_true hfits
  have hexact := refund_exact hhistory.last.1 hhistory.last.2 hending (.voided hkind)
  have hrefunded := hexact.refunded 3 huser
  rw [hstake, coverageOf_eq_zero (by simp [hkind]), add_zero] at hrefunded
  exact ⟨chain, chain', hhistory.last.2, hrefunded⟩

end XelmaMarket
