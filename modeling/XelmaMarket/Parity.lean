import XelmaMarket.Engine
import XelmaMarket.RoundLife

/-!
# Parity with the engine

Whenever a round is settled at a price under a fee on the pot, the payout engine succeeds on the
round's participants and agrees with the settlement: every participant is credited the engine's
payout, and recorded with its win, loss or refund.
-/

namespace XelmaMarket

variable {A : Type} [LinearOrder A]

/-! ## One record a participant -/

/-- The record a settlement at a price makes for a participant. -/
def Terms.recordOf (terms : Terms) (rounds : Rounds A) (round : Round) (finalPrice : ℕ)
    (user : A) : UserRoundOutcome A :=
  match round.mode with
  | .upDown =>
      if round.refundsAt finalPrice then
        rounds.outcomeRecord .upDown round.roundId 0 user
          (rounds.stakeOf .upDown round.roundId user) .refund
      else
        terms.upDownRecord rounds round (round.winningSide finalPrice) user
  | .precision =>
      terms.precisionRecord rounds round finalPrice
        (sortAddresses (rounds.participants round.roundId)) user

section Records

variable {terms : Terms} {rounds : Rounds A} {round : Round} {finalPrice : ℕ} {user : A}

/-- The record of a participant is among those of the plan. -/
theorem recordOf_mem (huser : user ∈ rounds.participants round.roundId) :
    terms.recordOf rounds round finalPrice user ∈
      (terms.plan rounds round finalPrice).records := by
  unfold Terms.recordOf Terms.plan
  cases hmode : round.mode with
  | upDown =>
      by_cases hrefunds : round.refundsAt finalPrice
      · simp only [Terms.upDownPlan, if_pos hrefunds, Rounds.refundRecords, hmode]
        exact List.mem_map_of_mem (mem_sortAddresses.mpr huser)
      · simp only [Terms.upDownPlan, if_neg hrefunds]
        exact List.mem_map_of_mem (mem_sortAddresses.mpr huser)
  | precision => exact precisionRecord_mem (mem_sortAddresses.mpr huser)

theorem recordOf_user : (terms.recordOf rounds round finalPrice user).user = user := by
  unfold Terms.recordOf
  cases round.mode with
  | upDown => simp only; split <;> simp
  | precision =>
      simp only [Terms.precisionRecord, Rounds.lossRecord]
      split
      · simp
      · split <;> simp

/-- A settlement at a price records a win, a loss or a refund. -/
theorem recordOf_outcome :
    (terms.recordOf rounds round finalPrice user).outcome = .win ∨
      (terms.recordOf rounds round finalPrice user).outcome = .loss ∨
      (terms.recordOf rounds round finalPrice user).outcome = .refund := by
  unfold Terms.recordOf
  cases round.mode with
  | upDown =>
      simp only [Terms.upDownRecord]
      split
      · simp
      · split <;> simp
  | precision =>
      simp only [Terms.precisionRecord, Rounds.lossRecord]
      split
      · simp
      · split <;> simp

/-- The records of an UpDown plan are those of the participants. -/
theorem upDown_records (hmode : round.mode = .upDown) :
    (terms.plan rounds round finalPrice).records =
      (sortAddresses (rounds.participants round.roundId)).map
        (terms.recordOf rounds round finalPrice) := by
  unfold Terms.plan Terms.upDownPlan
  have hrecord : terms.recordOf rounds round finalPrice = fun user =>
      if round.refundsAt finalPrice then
        rounds.outcomeRecord .upDown round.roundId 0 user
          (rounds.stakeOf .upDown round.roundId user) .refund
      else
        terms.upDownRecord rounds round (round.winningSide finalPrice) user := by
    funext user
    rw [Terms.recordOf, hmode]
  simp only [hrecord, hmode]
  split
  · rw [Rounds.refundRecords, hmode]
  · rfl

end Records

/-! ## Agreement -/

/-- Each participant is credited a payout and recorded with an outcome, by ascending address. -/
structure PaysAs (s s' : Storage A) (roundId : ℕ) (verdicts : List (ℤ × UserOutcomeType)) :
    Prop where
  length : verdicts.length = (s.rounds.participants roundId).length
  credited : ∀ entry ∈ (sortAddresses (s.rounds.participants roundId)).zip verdicts,
    s'.vault.pendingOf entry.1 = s.vault.pendingOf entry.1 + entry.2.1
  recorded : ∀ entry ∈ (sortAddresses (s.rounds.participants roundId)).zip verdicts,
    ∃ record, s'.userRoundOutcome.get (roundId, entry.1) = some record ∧
      record.payout = entry.2.1 ∧ record.outcome = entry.2.2

theorem outcomeOf_eq {outcome : UserOutcomeType}
    (hcases : outcome = .win ∨ outcome = .loss ∨ outcome = .refund) :
    outcomeOf (outcome = .win) (outcome = .refund) = outcome := by
  rcases hcases with rfl | rfl | rfl <;> rfl

section Settled

variable {s s' : Storage A} {ledger : ℕ} {ending : Ending} {finalPrice : ℕ}

/-- A settlement at a price pays what its records say. -/
theorem Ends.paysAs (hends : Ends ledger ending s s') (hbook : Represents s.rounds ending.round)
    (hcap : FeeCapped s.control.settings.protocolFeeBps)
    (hnew : ∀ user ∈ s.rounds.participants ending.round.roundId,
      s.userRoundOutcome.get (ending.round.roundId, user) = none)
    (hprice : ending.kind.price = some finalPrice) :
    PaysAs s s' ending.round.roundId
      ((sortAddresses (s.rounds.participants ending.round.roundId)).map fun user =>
        ((s.control.settings.terms.recordOf s.rounds ending.round finalPrice user).payout,
          (s.control.settings.terms.recordOf s.rounds ending.round finalPrice user).outcome)) := by
  have hpair : ∀ entry ∈ (sortAddresses (s.rounds.participants ending.round.roundId)).zip
      ((sortAddresses (s.rounds.participants ending.round.roundId)).map fun user =>
        ((s.control.settings.terms.recordOf s.rounds ending.round finalPrice user).payout,
          (s.control.settings.terms.recordOf s.rounds ending.round finalPrice user).outcome)),
      entry.1 ∈ s.rounds.participants ending.round.roundId ∧ entry.2 =
        ((s.control.settings.terms.recordOf s.rounds ending.round finalPrice entry.1).payout,
          (s.control.settings.terms.recordOf s.rounds ending.round finalPrice entry.1).outcome) := by
    intro entry hentry
    rw [← List.map_prod_left_eq_zip] at hentry
    obtain ⟨user, huser, rfl⟩ := List.mem_map.mp hentry
    exact ⟨mem_sortAddresses.mp huser, rfl⟩
  have hplan := @Ending.plan_of_price _ _ s.rounds s.control.settings.terms _ _ hprice
  have hkind : ∀ reason, ending.kind ≠ .cancelled reason := by
    intro reason hkind
    rw [hkind] at hprice
    cases hprice
  constructor
  · rw [List.length_map]
    exact (sortAddresses_perm _).length_eq
  · intro entry hentry
    obtain ⟨huser, hverdict⟩ := hpair entry hentry
    have hmem := @recordOf_mem _ _ s.control.settings.terms _ _ finalPrice _ huser
    rw [← hplan] at hmem
    have hcredited := hends.pendingOf_of_mem hbook hcap hmem
    rw [recordOf_user, coverageOf_eq_zero hkind, add_zero] at hcredited
    rw [hcredited, hverdict]
  · intro entry hentry
    obtain ⟨huser, hverdict⟩ := hpair entry hentry
    have hmem := @recordOf_mem _ _ s.control.settings.terms _ _ finalPrice _ huser
    rw [← hplan] at hmem
    have hrecorded := hends.outcome_of_mem hbook hcap hnew hmem
    rw [recordOf_user] at hrecorded
    exact ⟨_, hrecorded, by rw [hverdict], by rw [hverdict]⟩

end Settled

/-! ## The engine -/

section Engine

variable {terms : Terms} {rounds : Rounds A} {round : Round} {finalPrice : ℕ}

/-- The engine's verdicts on an UpDown round under a fee on the pot. -/
theorem engine_upDown (hbook : Represents rounds round) (hmode : round.mode = .upDown)
    (hne : rounds.participants round.roundId ≠ []) (hmodel : terms.feeModel = .feeOnPot)
    (hcomputes : Computes terms rounds round finalPrice) :
    ∃ entries, computeUpdownPayouts (rounds.upDownPositions round.roundId) round.priceStart
        finalPrice round.poolUp round.poolDown terms.protocolFeeBps = .ok entries ∧
      (entries.map fun entry => (entry.payout, outcomeOf entry.isWinner entry.isRefund)) =
        (sortAddresses (rounds.participants round.roundId)).map fun user =>
          ((terms.recordOf rounds round finalPrice user).payout,
            (terms.recordOf rounds round finalPrice user).outcome) := by
  refine ⟨_, computeUpdownPayouts_eq hbook hmode hne hmodel hcomputes, ?_⟩
  rw [upDown_records hmode, List.zipIdx_map, List.map_map, List.map_map]
  conv_rhs => rw [← List.zipIdx_map_fst 0 (sortAddresses (rounds.participants round.roundId)),
    List.map_map]
  refine List.map_congr_left fun entry _ => ?_
  simp only [Function.comp_apply, UserRoundOutcome.upDownEntry, outcomeOf_eq recordOf_outcome,
    Prod.map_fst]

/-- The engine's entries of a Precision round under a fee on the pot are those of the records. -/
theorem precision_entries (hbook : Represents rounds round) (hmode : round.mode = .precision)
    (hne : rounds.participants round.roundId ≠ []) (hmodel : terms.feeModel = .feeOnPot)
    (hcap : FeeCapped terms.protocolFeeBps)
    (hfits : terms.PotFits rounds round finalPrice
      (sortAddresses (rounds.participants round.roundId))) :
    computePrecisionPayoutsWithPolicy (rounds.precisionEntries round.roundId)
        finalPrice terms.protocolFeeBps absoluteScoring terms.payoutPolicy =
      .ok ((sortAddresses (rounds.participants round.roundId)).zipIdx.map fun entry =>
        (terms.recordOf rounds round finalPrice entry.1).precisionEntry entry.2) := by
  have hstaked : ∀ user ∈ sortAddresses (rounds.participants round.roundId),
      0 < rounds.stakeOf .precision round.roundId user := by
    intro user huser
    have hstake := hbook.stake_pos (mem_sortAddresses.mp huser)
    rwa [hmode] at hstake
  have hnodup : (sortAddresses (rounds.participants round.roundId)).Nodup :=
    (sortAddresses_perm _).nodup_iff.mpr hbook.nodup
  have hsorted : sortAddresses (rounds.participants round.roundId) ≠ [] := by
    obtain ⟨user, huser⟩ := List.exists_mem_of_ne_nil _ hne
    exact List.ne_nil_of_mem (mem_sortAddresses.mpr huser)
  simp only [Terms.recordOf, hmode]
  by_cases hwinners : rounds.winners round.roundId finalPrice
      (sortAddresses (rounds.participants round.roundId)) = []
  · refine computePrecisionPayoutsWithPolicy_of_unrevealed hstaked hmode hsorted hfits.pot
      hwinners fun user huser => ?_
    by_contra hsome
    obtain ⟨prediction, hprediction⟩ := Option.ne_none_iff_exists'.mp hsome
    exact sortedWinners_ne_nil ⟨user, mem_sortAddresses.mp huser, prediction, hprediction⟩
      hwinners
  · exact computePrecisionPayoutsWithPolicy_of_winners hmodel hcap hstaked hfits hnodup hwinners

/-- The engine's verdicts on a Precision round under a fee on the pot. -/
theorem engine_precision (hbook : Represents rounds round) (hmode : round.mode = .precision)
    (hne : rounds.participants round.roundId ≠ []) (hmodel : terms.feeModel = .feeOnPot)
    (hcap : FeeCapped terms.protocolFeeBps)
    (hfits : terms.PotFits rounds round finalPrice
      (sortAddresses (rounds.participants round.roundId))) :
    ∃ entries, computePrecisionPayoutsWithPolicy (rounds.precisionEntries round.roundId) finalPrice
        terms.protocolFeeBps absoluteScoring terms.payoutPolicy = .ok entries ∧
      (entries.map fun entry => (entry.payout, outcomeOf entry.isWinner entry.isRefund)) =
        (sortAddresses (rounds.participants round.roundId)).map fun user =>
          ((terms.recordOf rounds round finalPrice user).payout,
            (terms.recordOf rounds round finalPrice user).outcome) := by
  refine ⟨_, precision_entries hbook hmode hne hmodel hcap hfits, ?_⟩
  rw [List.map_map]
  conv_rhs => rw [← List.zipIdx_map_fst 0 (sortAddresses (rounds.participants round.roundId)),
    List.map_map]
  refine List.map_congr_left fun entry _ => ?_
  simp only [Function.comp_apply, UserRoundOutcome.precisionEntry, outcomeOf_eq recordOf_outcome]

end Engine

/-- In every reachable chain with a fee on the pot, whenever a successful call settles a round with
a participant at a price, the payout engine run on the participants by ascending address succeeds
and agrees with the credits and the recorded outcomes. -/
theorem engine_agrees_with_settlement {host : Host A} {chain chain' : Chain A} {signers : List A}
    {call : Call A} {ending : Ending} {finalPrice : ℕ} (hreachable : Reachable host chain)
    (hmodel : chain.storage.control.settings.readFeeModel = .feeOnPot)
    (hstep : Step host chain (.invoke signers call) chain')
    (hending : call.ending chain.storage = some ending)
    (hprice : ending.kind.price = some finalPrice)
    (hne : chain.storage.rounds.participants ending.round.roundId ≠ []) :
    (ending.round.mode = .upDown → ∃ entries,
      computeUpdownPayouts (chain.storage.rounds.upDownPositions ending.round.roundId)
          ending.round.priceStart finalPrice ending.round.poolUp ending.round.poolDown
          chain.storage.control.settings.protocolFeeBps = .ok entries ∧
        PaysAs chain.storage chain'.storage ending.round.roundId
          (entries.map fun entry => (entry.payout, outcomeOf entry.isWinner entry.isRefund))) ∧
    (ending.round.mode = .precision → ∃ entries,
      computePrecisionPayoutsWithPolicy
          (chain.storage.rounds.precisionEntries ending.round.roundId) finalPrice
          chain.storage.control.settings.protocolFeeBps absoluteScoring
          chain.storage.control.settings.readPrecisionPayoutPolicy = .ok entries ∧
        PaysAs chain.storage chain'.storage ending.round.roundId
          (entries.map fun entry => (entry.payout, outcomeOf entry.isWinner entry.isRefund))) := by
  have hhealthy : chain.storage.Healthy chain.ledger.sequence := hreachable.healthy
  have hlive := (Call.endsBy hending).live hhealthy.ordered
  have hbook := (hhealthy.ordered.live _ _ hlive).2
  have hpays := (hreachable.ends hstep hending).paysAs hbook hhealthy.fee_capped
    (hhealthy.recorded.unrecorded _ _ hlive) hprice
  have hcomputes := Chain.Healthy.computes hreachable.healthy hstep hending hprice
  constructor
  · intro hmode
    obtain ⟨entries, hentries, hverdicts⟩ := @engine_upDown _ _
      chain.storage.control.settings.terms _ _ finalPrice hbook hmode hne hmodel hcomputes
    exact ⟨entries, hentries, hverdicts ▸ hpays⟩
  · intro hmode
    have hfits : chain.storage.control.settings.terms.PotFits chain.storage.rounds ending.round
        finalPrice (sortAddresses (chain.storage.rounds.participants ending.round.roundId)) := by
      unfold Computes at hcomputes
      simp only [hmode] at hcomputes
      refine hcomputes.potFits (hbook.precision hmode) hmodel fun user huser => ?_
      have hstake := hbook.stake_pos (mem_sortAddresses.mp huser)
      rwa [hmode] at hstake
    obtain ⟨entries, hentries, hverdicts⟩ := @engine_precision _ _
      chain.storage.control.settings.terms _ _ finalPrice hbook hmode hne hmodel
      hhealthy.fee_capped hfits
    exact ⟨entries, hentries, hverdicts ▸ hpays⟩

/-- The engine agrees with the settlement of the trial Precision round at 1000. -/
theorem engine_agrees_with_settlement_tie : ∃ chain chain' : Chain ℕ, ∃ roundId entries,
    Step trialHost chain (.invoke [2] (.resolveRound (trialPayload 1 1000 100))) chain' ∧
      computePrecisionPayoutsWithPolicy (chain.storage.rounds.precisionEntries roundId) 1000
        chain.storage.control.settings.protocolFeeBps absoluteScoring
        chain.storage.control.settings.readPrecisionPayoutPolicy = .ok entries ∧
      PaysAs chain.storage chain'.storage roundId
        (entries.map fun entry => (entry.payout, outcomeOf entry.isWinner entry.isRefund)) := by
  obtain ⟨trace, chain, chain', hhistory, hfits⟩ := exists_trial precisionRound
    (.invoke [2] (.resolveRound (trialPayload 1 1000 100)))
    (fun chain _ => decide (
      ((Call.resolveRound (trialPayload 1 1000 100)).ending chain.storage).any fun ending =>
      ending.kind = .resolved 1000 ∧ ending.round.mode = .precision ∧
      chain.storage.rounds.participants ending.round.roundId ≠ [] ∧
      chain.storage.control.settings.readFeeModel = .feeOnPot)) (by decide +kernel)
  obtain ⟨ending, hending, hfits⟩ := (Option.any_eq_true _ _).mp (of_decide_eq_true hfits)
  obtain ⟨hkind, hmode, hne, hmodel⟩ := of_decide_eq_true hfits
  obtain ⟨-, hprecision⟩ := engine_agrees_with_settlement hhistory.last.1 hmodel hhistory.last.2
    hending (show ending.kind.price = some 1000 by rw [hkind]; rfl) hne
  obtain ⟨entries, hentries, hpays⟩ := hprecision hmode
  exact ⟨chain, chain', ending.round.roundId, entries, hhistory.last.2, hentries, hpays⟩

end XelmaMarket
