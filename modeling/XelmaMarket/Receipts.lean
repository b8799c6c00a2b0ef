import XelmaMarket.Script

/-!
# What the end of a round gives every account

The vault after an ending, read account by account: every participant receives the payout of the
one record the plan has for them and a share of the coverage, nobody else receives anything, and
the fee is split between the treasury and the fund.
-/

namespace XelmaMarket

variable {A : Type} [LinearOrder A] {s s' : Storage A} {ending : Ending} {ledger : ℕ}

/-! ## Coverage -/

omit [LinearOrder A] in
/-- Only a cancellation gives a coverage. -/
theorem coverageOf_eq_zero (hkind : ∀ reason, ending.kind ≠ .cancelled reason) (user : A) :
    s.coverageOf ending user = 0 := by
  have hnone : s.coveragePaid ending = 0 := by
    by_contra hne
    have hpaid := coveragePaid_nonneg (s := s) ending
    obtain ⟨reason, hreason⟩ := @cancelled_of_covered _ s ending (by omega)
    exact hkind reason hreason
  simp [Storage.coverageOf, hnone, Apportion.share]

omit [LinearOrder A] in
/-- A participant's coverage is not negative. -/
theorem coverageOf_nonneg (hbook : Represents s.rounds ending.round) {user : A}
    (huser : user ∈ s.rounds.participants ending.round.roundId) : 0 ≤ s.coverageOf ending user :=
  Apportion.share_nonneg (coveragePaid_nonneg ending) hbook.totalStake_nonneg
    (hbook.stake_pos huser).le

omit [LinearOrder A] in
theorem coverageCredits_users (user : A) :
    user ∈ (s.coverageCredits ending).map (·.1) ↔
      user ∈ s.rounds.participants ending.round.roundId ∧ 0 < s.coverageOf ending user := by
  simp [Storage.coverageCredits]

/-- The coverage credits give every participant the coverage. -/
theorem creditTo_coverageCredits (hbook : Represents s.rounds ending.round) {user : A}
    (huser : user ∈ s.rounds.participants ending.round.roundId) :
    creditTo (s.coverageCredits ending) user = s.coverageOf ending user := by
  have hnonneg := coverageOf_nonneg hbook huser
  by_cases hpos : 0 < s.coverageOf ending user
  · have hnodup : ((s.coverageCredits ending).map (·.1)).Nodup := by
      refine List.Nodup.sublist (List.filter_sublist.map _) ?_
      simpa [Function.comp_def] using hbook.nodup
    have hmem : (user, s.coverageOf ending user) ∈ s.coverageCredits ending := by
      simp [Storage.coverageCredits, huser, hpos]
    exact creditTo_of_mem hnodup hmem
  · rw [creditTo_of_not_mem (by rw [coverageCredits_users]; exact fun h => hpos h.2)]
    omega

/-! ## Pending winnings -/

section Pending

variable (hends : Ends ledger ending s s') (hbook : Represents s.rounds ending.round)
  (hcap : FeeCapped s.control.settings.protocolFeeBps)
include hends hbook hcap

omit hends in
/-- The users a plan names are the participants. -/
theorem mem_records_iff (user : A) :
    user ∈ (ending.plan s.control.settings.terms s.rounds).records.map (·.user) ↔
      user ∈ s.rounds.participants ending.round.roundId :=
  (@Ending.plan_sound _ _ _ s.control.settings.terms _ hbook hcap).users.mem_iff

/-- Every participant receives the payout of their record and their coverage. -/
theorem Ends.pendingOf_of_mem {record : UserRoundOutcome A}
    (hrecord : record ∈ (ending.plan s.control.settings.terms s.rounds).records) :
    s'.vault.pendingOf record.user =
      s.vault.pendingOf record.user + record.payout + s.coverageOf ending record.user := by
  have hsound := @Ending.plan_sound _ _ _ s.control.settings.terms _ hbook hcap
  have huser := (mem_records_iff hbook hcap _).mp (List.mem_map_of_mem hrecord)
  have hnodup := hsound.users.nodup_iff.mpr hbook.nodup
  rw [hends.vault, Vault.creditAll_pendingOf, creditTo_coverageCredits hbook huser]
  unfold Vault.pendingOf
  rw [Vault.payFromFund_pendingWinnings]
  show (Vault.creditAll _ _ _).pendingOf _ + _ = _
  rw [Vault.creditAll_pendingOf, creditTo_creditsOf hsound.loss_unpaid hnodup hrecord]
  unfold Vault.pendingOf
  rw [Vault.collectFee_pendingWinnings]

/-- Nobody else receives anything, and nobody else's credits are dated anew. -/
theorem Ends.pending_of_not_mem {user : A}
    (huser : user ∉ s.rounds.participants ending.round.roundId) :
    s'.vault.pendingWinnings.get user = s.vault.pendingWinnings.get user ∧
      s'.vault.pendingWinningsUpdatedAt.get user = s.vault.pendingWinningsUpdatedAt.get user := by
  have hcoverage : user ∉ (s.coverageCredits ending).map (·.1) := by
    rw [coverageCredits_users]
    exact fun h => huser h.1
  have hplan : user ∉ (creditsOf
      (ending.plan s.control.settings.terms s.rounds).records).map (·.1) := by
    intro hmem
    obtain ⟨credit, hcredit, rfl⟩ := List.mem_map.mp hmem
    obtain ⟨record, hrecord, rfl⟩ := exists_record_of_credit hcredit
    exact huser ((mem_records_iff hbook hcap _).mp (List.mem_map_of_mem hrecord))
  rw [hends.vault]
  constructor
  · rw [Vault.creditAll_get_of_not_mem _ _ _ hcoverage, Vault.payFromFund_pendingWinnings,
      Vault.creditAll_get_of_not_mem _ _ _ hplan, Vault.collectFee_pendingWinnings]
  · rw [Vault.creditAll_updatedAt, if_neg hcoverage, Vault.payFromFund_updatedAt,
      Vault.creditAll_updatedAt, if_neg hplan, Vault.collectFee_updatedAt]

/-- Everybody's pending winnings stay or rise. -/
theorem Ends.pendingOf_le (user : A) : s.vault.pendingOf user ≤ s'.vault.pendingOf user := by
  by_cases huser : user ∈ s.rounds.participants ending.round.roundId
  · have hsound := @Ending.plan_sound _ _ _ s.control.settings.terms _ hbook hcap
    obtain ⟨record, hrecord, rfl⟩ :=
      List.mem_map.mp ((mem_records_iff hbook hcap _).mpr huser)
    have hpayout := hsound.payout_nonneg record hrecord
    have hcoverage := coverageOf_nonneg hbook huser
    rw [hends.pendingOf_of_mem hbook hcap hrecord]
    omega
  · unfold Vault.pendingOf Store.getD
    rw [(hends.pending_of_not_mem hbook hcap huser).1]

/-! ## The other accounts -/

omit hbook hcap in
/-- An ending moves no balance. -/
theorem Ends.balance : s'.vault.balance = s.vault.balance := by
  rw [hends.vault]
  simp

/-- The treasury receives the fee but the insurance share. -/
theorem Ends.treasury : s'.vault.treasury = s.vault.treasury +
    ((ending.plan s.control.settings.terms s.rounds).fee -
      insuranceShare s.control.settings.insuranceSplitBps
        (ending.plan s.control.settings.terms s.rounds).fee) := by
  have hsound := @Ending.plan_sound _ _ _ s.control.settings.terms _ hbook hcap
  rw [hends.vault, Vault.creditAll_treasury, Vault.payFromFund_treasury, Vault.creditAll_treasury,
    Vault.collectFee_treasury _ _ hsound.fee_nonneg]

/-- The fund receives the insurance share and pays the coverage. -/
theorem Ends.insuranceFund : s'.vault.insuranceFund = s.vault.insuranceFund +
    insuranceShare s.control.settings.insuranceSplitBps
      (ending.plan s.control.settings.terms s.rounds).fee - s.coveragePaid ending := by
  have hsound := @Ending.plan_sound _ _ _ s.control.settings.terms _ hbook hcap
  rw [hends.vault, Vault.creditAll_insuranceFund,
    Vault.payFromFund_insuranceFund _ (coveragePaid_nonneg ending), Vault.creditAll_insuranceFund,
    Vault.collectFee_insuranceFund _ _ hsound.fee_nonneg]

/-- The treasury and the fund together receive the fee and pay the coverage. -/
theorem Ends.collected : s'.vault.treasury + s'.vault.insuranceFund =
    s.vault.treasury + s.vault.insuranceFund +
      (ending.plan s.control.settings.terms s.rounds).fee - s.coveragePaid ending := by
  rw [hends.treasury hbook hcap, hends.insuranceFund hbook hcap]
  omega

/-! ## Recorded outcomes -/

/-- Every record of the plan is stored as the outcome of its user. -/
theorem Ends.outcome_of_mem
    (hnew : ∀ user ∈ s.rounds.participants ending.round.roundId,
      s.userRoundOutcome.get (ending.round.roundId, user) = none)
    {record : UserRoundOutcome A}
    (hrecord : record ∈ (ending.plan s.control.settings.terms s.rounds).records) :
    s'.userRoundOutcome.get (ending.round.roundId, record.user) = some record := by
  have hsound := @Ending.plan_sound _ _ _ s.control.settings.terms _ hbook hcap
  have huser := (mem_records_iff hbook hcap _).mp (List.mem_map_of_mem hrecord)
  rw [hends.outcomes]
  exact recordAll_get_of_mem (hsound.users.nodup_iff.mpr hbook.nodup) hrecord
    (hnew record.user huser)

end Pending

end XelmaMarket
