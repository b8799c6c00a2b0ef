import XelmaMarket.Arithmetic
import XelmaMarket.Preview
import XelmaMarket.Refunds

/-!
# The preview of a fallback refund

A settlement refunds a round with fewer participants than the minimum, whatever the price. The
preview does not read the minimum: it announces a refund only for a round that would be refunded
with enough participants as well.
-/

namespace XelmaMarket

open Transaction

variable {A : Type} [LinearOrder A] {s s' : Storage A} {round : Round} {finalPrice : ℕ}

/-- A preview announces the refund a settlement credits: no fee, and for every participant a refund
of the stake. -/
structure AnnouncesRefund (s s' : Storage A) (round : Round) (result : SimulationResult A) :
    Prop where
  fee : result.feeAmount = 0
  users : result.outcomes.map (·.user) = sortAddresses (s.rounds.participants round.roundId)
  refund : ∀ outcome ∈ result.outcomes, outcome.outcome = .refund
  payout : ∀ outcome ∈ result.outcomes,
    outcome.payout = s.rounds.stakeOf round.mode round.roundId outcome.user
  credited : ∀ outcome ∈ result.outcomes,
    s'.vault.pendingOf outcome.user = s.vault.pendingOf outcome.user + outcome.payout

/-- A round that is refunded at a price with any number of participants: it has none, or its pools
or the price decide nothing, or nobody revealed a prediction. -/
def Storage.RefundsAnyway (s : Storage A) (round : Round) (finalPrice : ℕ) : Prop :=
  s.rounds.participants round.roundId = [] ∨
    round.mode = .upDown ∧ round.refundsAt finalPrice ∨
    round.mode = .precision ∧ ¬ s.rounds.Revealed round.roundId

/-! ## Previews of competitive rounds -/

omit [LinearOrder A] in
/-- What every turn of a loop keeps holds at its end. -/
theorem foldlM_ok_keeps {β ε : Type} {items : List A} {body : β → A → Except ε β} {inv : β → Prop}
    (hbody : ∀ before a after, inv before → body before a = .ok after → inv after)
    {start last : β} (hstart : inv start) (hloop : items.foldlM body start = .ok last) :
    inv last := by
  induction items generalizing start with
  | nil =>
      cases hloop
      exact hstart
  | cons a rest ih =>
      rw [List.foldlM_cons] at hloop
      obtain ⟨next, hnext, hrest⟩ := bind_eq_ok.mp hloop
      exact ih (hbody start a next hstart hnext) hrest

omit [LinearOrder A] in
/-- A position in a competitive preview wins or loses. -/
theorem previewPosition_competes {preview : UpDownPreview} {total : ℤ} {user : A}
    {position : UserPosition} {outcome : UserRoundOutcome A}
    (hpreview : previewPosition false preview total user position = .ok outcome) :
    outcome.outcome ≠ .refund := by
  simp only [previewPosition, Bool.false_eq_true, if_false] at hpreview
  split at hpreview
  · simp only [bind_eq_ok, pure, Except.pure, Except.ok.injEq] at hpreview
    obtain ⟨_, -, _, -, rfl⟩ := hpreview
    exact UserOutcomeType.noConfusion
  · cases hpreview
    exact UserOutcomeType.noConfusion

omit [LinearOrder A] in
/-- The preview of a competitive UpDown round announces no refund. -/
theorem previewUpDown_competes {participants : List A} {preview : List (UserRoundOutcome A) × ℤ}
    (hcompetes : ¬ round.refundsAt finalPrice)
    (hpreview : previewUpDown s round finalPrice participants = .ok preview) :
    ∀ outcome ∈ preview.1, outcome.outcome ≠ .refund := by
  simp only [previewUpDown, refunded_eq, decide_eq_false hcompetes, bind_eq_ok, pure, Except.pure,
    Except.ok.injEq] at hpreview
  obtain ⟨pools, -, total, -, outcomes, hloop, rfl⟩ := hpreview
  refine @foldlM_ok_keeps A _ _ _ _ (fun outcomes : List (UserRoundOutcome A) =>
    ∀ outcome ∈ outcomes, outcome.outcome ≠ .refund) ?_ _ _ (by simp) hloop
  intro seen user next hseen hbody
  split at hbody
  · cases hbody
    exact hseen
  · simp only [bind_eq_ok, Except.ok.injEq] at hbody
    obtain ⟨outcome, houtcome, rfl⟩ := hbody
    intro other hother
    rcases List.mem_append.mp hother with hother | hother
    · exact hseen other hother
    · obtain rfl := List.mem_singleton.mp hother
      exact previewPosition_competes houtcome

section Precision

variable (hbook : Represents s.rounds round) (hmode : round.mode = .precision)
  (hfits : s.rounds.totalStake round.mode round.roundId ≤ i128Max)
include hbook hmode hfits

/-- The scan of a Precision round succeeds, and the preview's scan is alike. -/
theorem exists_scan : ∃ scan preview,
    scanPredictions s.rounds round.roundId finalPrice
      (sortAddresses (s.rounds.participants round.roundId)) = .ok scan ∧
    (sortAddresses (s.rounds.participants round.roundId)).foldlM
      (PreviewScan.visit s.rounds round.roundId finalPrice) ⟨none, [], 0, [], [], []⟩ =
        .ok preview ∧ Mirrors preview scan := by
  have hsum := sum_precision_stakes hmode (sortAddresses_perm (s.rounds.participants round.roundId))
  have hstakes : ∀ user ∈ sortAddresses (s.rounds.participants round.roundId),
      0 ≤ s.rounds.stakeOf .precision round.roundId user := fun user huser =>
    (precision_stake_pos hbook hmode (sortAddresses_perm _) huser).le
  have hstart : Mirrors (⟨none, [], 0, [], [], []⟩ : PreviewScan A) .start :=
    ⟨rfl, rfl, rfl, rfl, rfl, rfl⟩
  obtain ⟨scan, hscan⟩ := @foldlM_visit_of_fits _ s.rounds round.roundId finalPrice _ .start le_rfl
    hstakes (by rw [hsum]; show 0 + _ ≤ _; omega)
  obtain ⟨preview, hpreview, hmirrors⟩ := hstart.foldlM_visit hscan
  exact ⟨scan, preview, hscan, hpreview, hmirrors⟩

/-- The preview of a Precision round with a revealed prediction announces no refund. -/
theorem previewPrecision_competes (hrevealed : s.rounds.Revealed round.roundId)
    {result : List (UserRoundOutcome A) × ℤ × ℤ}
    (hresult : previewPrecision s round finalPrice
      (sortAddresses (s.rounds.participants round.roundId)) = .ok result) :
    ∀ outcome ∈ result.1, outcome.outcome ≠ .refund := by
  obtain ⟨scan, preview, hscan, hpreview, hmirrors⟩ :=
    @exists_scan _ _ _ _ finalPrice hbook hmode hfits
  have hfinds := scanPredictions_spec hscan
  have hsome : scan.winners ≠ [] := by
    intro hnone
    have hamounts := (hbook.precision hmode).winner_amounts hfinds
    rw [hnone] at hamounts
    exact sortedWinners_ne_nil hrevealed (List.map_eq_nil_iff.mp hamounts.symm)
  have hnodup : (sortAddresses (s.rounds.participants round.roundId)).Nodup :=
    (sortAddresses_perm _).nodup_iff.mpr hbook.nodup
  simp only [previewPrecision, hpreview, ok_bind, bind_eq_ok, pure, Except.pure,
    Except.ok.injEq] at hresult
  obtain ⟨fee, -, payouts, -, rfl⟩ := hresult
  simp only [previewOutcomes_winners hmirrors hfinds hsome hnodup]
  intro outcome houtcome
  obtain ⟨user, -, rfl⟩ := List.mem_map.mp houtcome
  split <;> exact UserOutcomeType.noConfusion

/-- The settlement of a Precision round nobody revealed in is in range. -/
theorem computes_of_unrevealed (hhidden : ¬ s.rounds.Revealed round.roundId) :
    Computes s.control.settings.terms s.rounds round finalPrice := by
  obtain ⟨scan, -, hscan, -⟩ := @exists_scan _ _ _ _ finalPrice hbook hmode hfits
  have hnone : scan.winners = [] := by
    rw [(scanPredictions_spec hscan).winners]
    refine List.filterMap_eq_nil_iff.mpr fun user hwinner => ?_
    obtain ⟨prediction, hprediction, -⟩ := (hbook.precision hmode).prediction_of_winner hwinner
    have huser := (List.mem_filter.mp hwinner).1
    exact absurd ⟨user, mem_sortAddresses.mp huser, prediction, hprediction⟩ hhidden
  unfold Computes
  rw [hmode]
  exact ⟨scan, hscan, fun hsome => absurd hnone hsome⟩

end Precision

/-! ## Previews of refunds -/

/-- A round that is refunded anyway has a plan without a fee that refunds every participant. -/
theorem Storage.RefundsAnyway.plan (hbook : Represents s.rounds round) {terms : Terms}
    (hanyway : s.RefundsAnyway round finalPrice) :
    (terms.plan s.rounds round finalPrice).fee = 0 ∧
      ∀ user ∈ s.rounds.participants round.roundId,
        (terms.recordOf s.rounds round finalPrice user).outcome = .refund ∧
        (terms.recordOf s.rounds round finalPrice user).payout =
          s.rounds.stakeOf round.mode round.roundId user := by
  rcases hanyway with hnobody | ⟨hmode, hrefunds⟩ | ⟨hmode, hhidden⟩
  · refine ⟨?_, by simp [hnobody]⟩
    have hsorted : sortAddresses (s.rounds.participants round.roundId) = [] := by
      rw [hnobody]
      rfl
    cases hmode : round.mode with
    | upDown =>
        simp only [Terms.plan, hmode, hsorted,
          (hbook.upDown hmode).plan_of_empty hnobody terms finalPrice]
    | precision => simp [Terms.plan, hmode, hsorted, Terms.precisionPlan, Rounds.winners]
  · simp [Terms.plan, Terms.recordOf, Terms.upDownPlan, hmode, hrefunds]
  · have hwinners : s.rounds.winners round.roundId finalPrice
        (sortAddresses (s.rounds.participants round.roundId)) = [] := by
      refine winners_eq_nil fun user huser => Option.eq_none_iff_forall_ne_some.mpr ?_
      exact fun prediction hget => hhidden ⟨user, mem_sortAddresses.mp huser, prediction, hget⟩
    simp [Terms.plan, Terms.recordOf, Terms.precisionPlan, Terms.precisionRecord, hmode, hwinners]

/-- The settlement of a round that is refunded anyway is in range. -/
theorem Storage.RefundsAnyway.computes (hbook : Represents s.rounds round)
    (hfits : s.rounds.totalStake round.mode round.roundId ≤ i128Max)
    (hanyway : s.RefundsAnyway round finalPrice) :
    Computes s.control.settings.terms s.rounds round finalPrice := by
  cases hmode : round.mode with
  | precision =>
      refine computes_of_unrevealed hbook hmode hfits ?_
      rcases hanyway with hnobody | ⟨hother, -⟩ | ⟨-, hhidden⟩
      · rintro ⟨user, huser, -⟩
        rw [hnobody] at huser
        cases huser
      · rw [hmode] at hother
        cases hother
      · exact hhidden
  | upDown =>
      unfold Computes
      simp only [hmode]
      intro hcompetes hsome
      rcases hanyway with hnobody | ⟨-, hrefunds⟩ | ⟨hother, -⟩
      · rw [hnobody] at hsome
        exact absurd rfl hsome
      · exact absurd hrefunds hcompetes
      · rw [hmode] at hother
        cases hother

/-- Of a round with participants the preview announces a refund only when it is refunded anyway. -/
theorem refundsAnyway_of_preview (hactive : s.rounds.activeRound = some round)
    (hbook : Represents s.rounds round)
    (hfits : s.rounds.totalStake round.mode round.roundId ≤ i128Max)
    {result : SimulationResult A} (hresult : simulatePayout s finalPrice = .ok result)
    (hannounces : AnnouncesRefund s s' round result) : s.RefundsAnyway round finalPrice := by
  by_contra hcompetes
  obtain ⟨hsome, hupDown, hprecision⟩ := by
    simpa only [Storage.RefundsAnyway, not_or, not_and, not_not] using hcompetes
  -- some outcome is announced, and it is no refund
  have hnone : ∀ outcome ∈ result.outcomes, outcome.outcome ≠ .refund := by
    unfold simulatePayout at hresult
    simp only [hactive] at hresult
    cases hmode : round.mode with
    | upDown =>
        simp only [hmode, bind_eq_ok, pure, Except.pure, Except.ok.injEq] at hresult
        obtain ⟨preview, hpreview, rfl⟩ := hresult
        exact previewUpDown_competes (hupDown hmode) hpreview
    | precision =>
        simp only [hmode, bind_eq_ok, pure, Except.pure, Except.ok.injEq] at hresult
        obtain ⟨preview, hpreview, rfl⟩ := hresult
        exact previewPrecision_competes hbook hmode hfits (hprecision hmode) hpreview
  obtain ⟨user, huser⟩ := List.exists_mem_of_ne_nil _ hsome
  rw [← mem_sortAddresses, ← hannounces.users] at huser
  obtain ⟨outcome, houtcome, -⟩ := List.mem_map.mp huser
  exact hnone outcome houtcome (hannounces.refund outcome houtcome)

/-- The preview of a round that is refunded anyway announces the refund a settlement credits. -/
theorem Storage.RefundsAnyway.announces (hanyway : s.RefundsAnyway round finalPrice)
    (hactive : s.rounds.activeRound = some round) (hbook : Represents s.rounds round)
    (hcap : FeeCapped s.control.settings.protocolFeeBps)
    (hfits : s.rounds.totalStake round.mode round.roundId ≤ i128Max)
    (hcredited : ∀ user ∈ s.rounds.participants round.roundId, s'.vault.pendingOf user =
      s.vault.pendingOf user + s.rounds.stakeOf round.mode round.roundId user) :
    ∃ result, simulatePayout s finalPrice = .ok result ∧ AnnouncesRefund s s' round result := by
  obtain ⟨result, hresult, houtcomes, hfee⟩ := simulatePayout_eq hactive hbook hcap
    (hanyway.computes hbook hfits)
  obtain ⟨hnofee, hrecords⟩ := @Storage.RefundsAnyway.plan _ _ _ _ finalPrice hbook
    s.control.settings.terms hanyway
  have hmem : ∀ outcome ∈ result.outcomes, ∃ user ∈ s.rounds.participants round.roundId,
      outcome.user = user ∧ outcome.outcome = .refund ∧
        outcome.payout = s.rounds.stakeOf round.mode round.roundId user := by
    intro outcome houtcome
    rw [houtcomes] at houtcome
    obtain ⟨user, huser, rfl⟩ := List.mem_map.mp houtcome
    obtain ⟨hrefund, hpayout⟩ := hrecords user (mem_sortAddresses.mp huser)
    exact ⟨user, mem_sortAddresses.mp huser, recordOf_user, hrefund, hpayout⟩
  refine ⟨result, hresult, hfee.trans hnofee, ?_, ?_, ?_, ?_⟩
  · rw [houtcomes, List.map_map]
    exact (List.map_congr_left fun user _ => recordOf_user).trans (List.map_id _)
  · intro outcome houtcome
    obtain ⟨_, _, _, hrefund, _⟩ := hmem outcome houtcome
    exact hrefund
  · intro outcome houtcome
    obtain ⟨_, _, rfl, _, hpayout⟩ := hmem outcome houtcome
    exact hpayout
  · intro outcome houtcome
    obtain ⟨_, huser, rfl, _, hpayout⟩ := hmem outcome houtcome
    rw [hpayout, hcredited _ huser]

/-- In every reachable chain, whenever a settlement of the active round at a price succeeds and
refunds it for want of participants, the preview at that price announces the refund exactly when
the round would be refunded with enough participants as well. -/
theorem preview_announces_fallback_iff {host : Host A} {chain chain' : Chain A} {signers : List A}
    {call : Call A} (hreachable : Reachable host chain)
    (hactive : chain.storage.rounds.activeRound = some round)
    (hminimum : chain.storage.control.settings.belowMinimum
      (chain.storage.rounds.participants round.roundId).length = true)
    (hprice : call.price = some finalPrice)
    (hstep : Step host chain (.invoke signers call) chain') :
    (∃ result, simulatePayout chain.storage finalPrice = .ok result ∧
        AnnouncesRefund chain.storage chain'.storage round result) ↔
      chain.storage.RefundsAnyway round finalPrice := by
  have hresolution : chain.storage.resolution finalPrice = some ⟨round, .fallbackRefund⟩ := by
    simp [Storage.resolution, hactive, hminimum]
  have hending : call.ending chain.storage = some ⟨round, .fallbackRefund⟩ :=
    (Call.ending_of_price hprice).trans hresolution
  have hhealthy : chain.storage.Healthy chain.ledger.sequence := hreachable.healthy
  have hbook := (hhealthy.ordered.live _ _ (.inl ⟨hactive, rfl⟩)).2
  have hfits := (hhealthy.inOrder chain.ledger.sequence_lt).stakes_fit round hactive
  have hexact := (hreachable.ends hstep hending).refundsExactly hbook hhealthy.fee_capped
    (.fallback rfl)
  constructor
  · rintro ⟨result, hresult, hannounces⟩
    exact refundsAnyway_of_preview hactive hbook hfits hresult hannounces
  · intro hanyway
    refine hanyway.announces hactive hbook hhealthy.fee_capped hfits fun user huser => ?_
    have hrefunded := hexact.refunded user huser
    rwa [coverageOf_eq_zero (by simp), add_zero] at hrefunded

/-- A round of users 3 and 4 with a minimum of five participants is past its end. -/
def sparseRound : List (Action ℕ) := trialSetup ++ [
  .invoke [1] (.control (.setMinParticipants (some 5))),
  .invoke [1] (.createRound 100 (some 0)),
  .invoke [3] (.placeBet 3 70 .up),
  .invoke [4] (.placeBet 4 30 .down),
  .closeLedger (ledgerAt 20),
  .invoke [2] (.control (.updateOracleHeartbeat 0))]

/-- At an unchanged price the preview announces the refund. -/
theorem unchanged_price_announced : ∃ chain chain' : Chain ℕ, ∃ round result,
    Step trialHost chain (.invoke [2] (.resolveRound (trialPayload 1 100 100))) chain' ∧
      simulatePayout chain.storage 100 = .ok result ∧
      AnnouncesRefund chain.storage chain'.storage round result := by
  obtain ⟨trace, chain, chain', hhistory, hfits⟩ := exists_trial sparseRound
    (.invoke [2] (.resolveRound (trialPayload 1 100 100)))
    (fun chain _ => chain.storage.rounds.activeRound.any fun round : Round =>
      decide (round.mode = .upDown ∧ round.refundsAt 100 ∧
        chain.storage.control.settings.belowMinimum
          (chain.storage.rounds.participants round.roundId).length = true)) (by decide +kernel)
  obtain ⟨round, hactive, hfits⟩ := (Option.any_eq_true _ _).mp hfits
  obtain ⟨hmode, hrefunds, hminimum⟩ := of_decide_eq_true hfits
  obtain ⟨hreachable, hstep⟩ := hhistory.last
  obtain ⟨result, hresult, hannounces⟩ := (preview_announces_fallback_iff hreachable hactive
    hminimum rfl hstep).mpr (.inr (.inl ⟨hmode, hrefunds⟩))
  exact ⟨chain, chain', round, result, hstep, hresult, hannounces⟩

/-- At a price that moved the preview announces a winner where the settlement refunds. -/
theorem fallback_previewed_as_win : ¬ ∀ (chain chain' : Chain ℕ) signers call round finalPrice,
    Reachable trialHost chain → chain.storage.rounds.activeRound = some round →
    round.endLedger ≤ chain.ledger.sequence →
    chain.storage.control.settings.getDisputeLedgers = 0 →
    chain.storage.control.settings.belowMinimum
      (chain.storage.rounds.participants round.roundId).length = true →
    call.price = some finalPrice → Step trialHost chain (.invoke signers call) chain' →
    ∃ result, simulatePayout chain.storage finalPrice = .ok result ∧
      AnnouncesRefund chain.storage chain'.storage round result := by
  intro hclaim
  obtain ⟨trace, chain, chain', hhistory, hfits⟩ := exists_trial sparseRound
    (.invoke [2] (.resolveRound (trialPayload 1 101 100)))
    (fun chain _ => chain.storage.rounds.activeRound.any fun round : Round =>
      decide (round.endLedger ≤ chain.ledger.sequence ∧
        chain.storage.control.settings.getDisputeLedgers = 0 ∧
        chain.storage.control.settings.belowMinimum
          (chain.storage.rounds.participants round.roundId).length = true ∧
        (simulatePayout chain.storage 101).toOption.any (fun result : SimulationResult ℕ =>
          result.outcomes.any fun outcome : UserRoundOutcome ℕ =>
            decide (outcome.outcome = .win)) = true)) (by decide +kernel)
  obtain ⟨round, hactive, hfits⟩ := (Option.any_eq_true _ _).mp hfits
  obtain ⟨hover, hwindow, hminimum, hwins⟩ := of_decide_eq_true hfits
  obtain ⟨hreachable, hstep⟩ := hhistory.last
  obtain ⟨result, hresult, hannounces⟩ := hclaim chain chain' [2] _ round 101 hreachable hactive
    hover hwindow hminimum rfl hstep
  rw [hresult] at hwins
  obtain ⟨outcome, houtcome, hwin⟩ := List.any_eq_true.mp hwins
  rw [hannounces.refund outcome houtcome] at hwin
  cases hwin

end XelmaMarket
