import XelmaMarket.Participation
import XelmaMarket.Scores

/-!
# Outcome records

Every end of a round records one outcome for each participant, with the stake and what the end
credits beside a coverage: a win for the winners of a competitive settlement, a loss for its other
participants, and otherwise a refund. An early cash-out records a refund. Records never change.
-/

namespace XelmaMarket

variable {A : Type} [LinearOrder A] {s s' : Storage A} {ending : Ending} {host : Host A}
  {chain chain' : Chain A}

/-! ## Faithful records -/

/-- The outcome an ending leaves for a participant, with the stake and the credit of the
participant. Losers receive nothing, and who neither wins nor loses receives the stake. -/
structure RecordedFaithfully (s s' : Storage A) (ending : Ending) (user : A)
    (record : UserRoundOutcome A) : Prop where
  stored : s'.userRoundOutcome.get (ending.round.roundId, user) = some record
  stake : record.stake = s.rounds.stakeOf ending.round.mode ending.round.roundId user
  credited : s'.vault.pendingOf user =
    s.vault.pendingOf user + record.payout + s.coverageOf ending user
  win : record.outcome = .win ↔ ending.won s.rounds user = true
  loss : record.outcome = .loss ↔
    ending.competed s.rounds user = true ∧ ending.won s.rounds user = false
  unpaid : record.outcome = .loss →
    record.payout = 0 ∧ s'.vault.pendingOf user = s.vault.pendingOf user
  refund : ending.competed s.rounds user = false →
    (record.outcome = .refund ∨ record.outcome = .void) ∧ record.payout = record.stake

/-- What the records of some users for a round pay. -/
def Storage.recordedPayouts (s : Storage A) (roundId : ℕ) (users : List A) : ℤ :=
  (users.map fun user => (s.userRoundOutcome.get (roundId, user)).elim 0 (·.payout)).sum

/-- The payouts on record and the fee add up to the stakes, except that a competitive UpDown
settlement loses less than one unit a winner. The fee is what the treasury and the fund receive. -/
def RecordsBalance (s s' : Storage A) (ending : Ending) : Prop :=
  ∃ fee, 0 ≤ fee ∧
    s'.vault.treasury + s'.vault.insuranceFund =
      s.vault.treasury + s.vault.insuranceFund + fee - s.coveragePaid ending ∧
    let paid := s'.recordedPayouts ending.round.roundId
      (s.rounds.participants ending.round.roundId)
    let staked := s.rounds.totalStake ending.round.mode ending.round.roundId
    paid + fee = staked ∨
      paid + fee ≤ staked ∧ ∃ finalPrice, ending.IsCompetitive finalPrice ∧
        staked < paid + fee + (s.rounds.upDownWinners ending.round finalPrice).length

/-- The records of a round that ended: one for every participant, and they balance. -/
structure EndsFaithfully (s s' : Storage A) (ending : Ending) : Prop where
  records : ∀ user ∈ s.rounds.participants ending.round.roundId,
    ∃ record, RecordedFaithfully s s' ending user record
  balance : RecordsBalance s s' ending

/-- The outcome an early cash-out leaves for a participant of the active round: a refund of what
the cash-out credits. -/
structure CashOutRecorded (s s' : Storage A) (user : A) (round : Round)
    (record : UserRoundOutcome A) : Prop where
  active : s.rounds.activeRound = some round
  participant : user ∈ s.rounds.participants round.roundId
  stored : s'.userRoundOutcome.get (round.roundId, user) = some record
  stake : record.stake = s.rounds.stakeOf round.mode round.roundId user
  credited : s'.vault.pendingOf user = s.vault.pendingOf user + record.payout
  outcome : record.outcome = .refund

/-- Whatever is on record in one storage is on record in another. -/
def KeepsOutcomes (s s' : Storage A) : Prop :=
  ∀ key record, s.userRoundOutcome.get key = some record →
    s'.userRoundOutcome.get key = some record

/-! ## The records of an ending -/

section Ends

variable {ledger : ℕ} (hends : Ends ledger ending s s')
  (hbook : Represents s.rounds ending.round) (hcap : FeeCapped s.control.settings.protocolFeeBps)
  (hnew : ∀ user ∈ s.rounds.participants ending.round.roundId,
    s.userRoundOutcome.get (ending.round.roundId, user) = none)
include hends hbook hcap hnew

/-- Every record of the plan is stored as it is, and says what the ending does. -/
theorem Ends.recordedFaithfully {record : UserRoundOutcome A}
    (hmem : record ∈ (ending.plan s.control.settings.terms s.rounds).records) :
    RecordedFaithfully s s' ending record.user record := by
  have hsound := @Ending.plan_sound _ _ _ s.control.settings.terms _ hbook hcap
  have hcredited := hends.pendingOf_of_mem hbook hcap hmem
  obtain ⟨hcounts, hwin, hrefund⟩ := Ending.classified hbook hcap hmem
  have hloss : record.outcome = .loss ↔ record.counts ∧ record.outcome ≠ .win := by
    cases houtcome : record.outcome <;> simp [UserRoundOutcome.counts, houtcome]
  refine ⟨hends.outcome_of_mem hbook hcap hnew hmem, hsound.stakes record hmem, hcredited, hwin, ?_,
    fun hlost => ?_, fun hnot => hrefund ?_⟩
  · rw [hloss, hcounts, ne_eq, hwin, Bool.not_eq_true]
  · have hpayout := hsound.loss_unpaid record hmem hlost
    have hcompeted := hcounts.mp (hloss.mp hlost).1
    rw [hpayout, coverageOf_eq_zero (Ending.kind_of_competed hcompeted)] at hcredited
    exact ⟨hpayout, by omega⟩
  · rw [hcounts, hnot]
    exact Bool.false_ne_true

/-- The records of the participants pay what the plan pays. -/
theorem Ends.recordedPayouts :
    s'.recordedPayouts ending.round.roundId (s.rounds.participants ending.round.roundId) =
      (ending.plan s.control.settings.terms s.rounds).paid := by
  have hsound := @Ending.plan_sound _ _ _ s.control.settings.terms _ hbook hcap
  unfold Storage.recordedPayouts Plan.paid
  rw [← (hsound.users.map _).sum_eq, List.map_map]
  refine congrArg List.sum (List.map_congr_left fun record hmem => ?_)
  simp [hends.outcome_of_mem hbook hcap hnew hmem]

/-- The records balance. -/
theorem Ends.recordsBalance : RecordsBalance s s' ending := by
  have hsound := @Ending.plan_sound _ _ _ s.control.settings.terms _ hbook hcap
  refine ⟨_, hsound.fee_nonneg, hends.collected hbook hcap, ?_⟩
  rw [hends.recordedPayouts hbook hcap hnew]
  exact (Ending.paid_cases hbook hcap).imp_right fun hdust => ⟨hsound.covered, hdust⟩

/-- An ending records every participant faithfully. -/
theorem Ends.faithful : EndsFaithfully s s' ending where
  records user huser := by
    obtain ⟨record, hmem, rfl⟩ := List.mem_map.mp ((mem_records_iff hbook hcap user).mpr huser)
    exact ⟨record, hends.recordedFaithfully hbook hcap hnew hmem⟩
  balance := hends.recordsBalance hbook hcap hnew

end Ends

/-! ## The record of an early cash-out -/

/-- An early cash-out records the stake and what it credits as a refund. -/
theorem CashesOut.recorded {env : Env A} {user : A} {round : Round} {position : UserPosition}
    {penaltyBps : ℕ} (hcashes : CashesOut env s s' user round position penaltyBps)
    (hordered : s.rounds.Ordered) (hrecorded : Recorded env.ledger.sequence s) :
    ∃ record, CashOutRecorded s s' user round record := by
  have hbook := hordered.active_represented hcashes.active
  have huser : user ∈ s.rounds.participants round.roundId :=
    ((hbook.upDown hcashes.mode).position_iff user).mp ⟨position, hcashes.held⟩
  have hnone := hrecorded.unrecorded _ round (.inl ⟨hcashes.active, rfl⟩) user huser
  have hforfeit := forfeitOf_bounds hcashes.stake_pos hcashes.penalty
  refine ⟨cashOutRecord user position (forfeitOf position.amount penaltyBps), hcashes.active,
    huser, ?_, ?_, ?_, rfl⟩
  · rw [hcashes.outcomes]
    exact recordAll_get_of_mem (by simp) (List.mem_singleton_self _) hnone
  · simp [cashOutRecord, upDownOutcome, Rounds.stakeOf, hcashes.mode, hcashes.held]
  · show _ = _ + (position.amount - forfeitOf position.amount penaltyBps)
    have hkept : 0 ≤ position.amount - forfeitOf position.amount penaltyBps := by omega
    rw [hcashes.vault]
    unfold Vault.pendingOf
    rw [Vault.collectFee_pendingWinnings]
    show (Vault.creditAll _ _ _).pendingOf _ = s.vault.pendingOf user + _
    rw [Vault.creditAll_pendingOf, creditTo_positive hkept]

/-! ## Records stay -/

/-- No call changes a record. -/
theorem Effect.keepsOutcomes {env : Env A} {call : Call A} (heffect : Effect env s call s') :
    KeepsOutcomes s s' := by
  intro key record hget
  cases hending : call.ending s with
  | some ending =>
      rw [(heffect.ends hending).outcomes]
      exact recordAll_kept hget
  | none =>
      by_cases hcash : ∃ user, call = .cashOutEarly user
      · obtain ⟨user, rfl⟩ := hcash
        obtain ⟨round, position, penaltyBps, hcashes⟩ := heffect.of_cashOut
        rw [hcashes.outcomes]
        exact recordAll_kept hget
      · rwa [heffect.same_outcomes hending fun user h => hcash ⟨user, h⟩]

/-- No step changes a record. -/
theorem Chain.Healthy.keepsOutcomes {action : Action A} (hhealthy : chain.Healthy)
    (hstep : Step host chain action chain') : KeepsOutcomes chain.storage chain'.storage := by
  obtain ⟨signers, call, rfl⟩ | ⟨-, meter, hmeter⟩ := hstep.invokes_or_idles
  · exact (hhealthy.effect hstep).keepsOutcomes
  · rw [hmeter]
    exact fun _ _ hget => hget

/-- Over a run, no record changes. -/
theorem keepsOutcomes_of_run {trace : List (Transition (Chain A) (Action A))}
    (hrun : Run (Step host) chain trace chain') (hhealthy : chain.Healthy) :
    KeepsOutcomes chain.storage chain'.storage := by
  refine (hrun.invariant (fun later => later.Healthy ∧
    KeepsOutcomes chain.storage later.storage) ⟨hhealthy, fun _ _ hget => hget⟩ ?_).2
  intro transition _ hstep hbefore
  exact ⟨hstep.healthy hbefore.1, fun key record hget =>
    hbefore.1.keepsOutcomes hstep key record (hbefore.2 key record hget)⟩

/-! ## Every history -/

/-- Whatever ends a round records every participant faithfully, and the records balance. An early
cash-out records who leaves, and no record ever changes. -/
theorem outcomes_faithful (hreachable : Reachable host chain) :
    (∀ signers call chain' ending, Step host chain (.invoke signers call) chain' →
      call.ending chain.storage = some ending →
      EndsFaithfully chain.storage chain'.storage ending) ∧
    (∀ signers user chain', Step host chain (.invoke signers (.cashOutEarly user)) chain' →
      ∃ round record, CashOutRecorded chain.storage chain'.storage user round record) ∧
    ∀ trace later, Run (Step host) chain trace later →
      KeepsOutcomes chain.storage later.storage := by
  have hhealthy := hreachable.healthy
  refine ⟨fun signers call chain' ending hstep hending => ?_, fun signers user chain' hstep => ?_,
    fun trace later hrun => keepsOutcomes_of_run hrun hhealthy⟩
  · have hlive := (Call.endsBy hending).live hhealthy.ordered
    exact (hreachable.ends hstep hending).faithful (hhealthy.ordered.live _ _ hlive).2
      hhealthy.fee_capped (hhealthy.recorded.unrecorded _ _ hlive)
  · obtain ⟨round, position, penaltyBps, hcashes⟩ := (hhealthy.effect hstep).of_cashOut
    exact ⟨round, hcashes.recorded hhealthy.ordered hhealthy.recorded⟩

/-- User 3 wins against user 4, and the refund of user 5 who left stays on record. -/
theorem win_and_loss_recorded : ∃ (chain chain' : Chain ℕ) (ending : Ending),
    Step trialHost chain (.invoke [2] (.resolveRound (trialPayload 1 101 100))) chain' ∧
      (∃ record, RecordedFaithfully chain.storage chain'.storage ending 3 record ∧
        record.outcome = .win) ∧
      (∃ record, RecordedFaithfully chain.storage chain'.storage ending 4 record ∧
        record.outcome = .loss) ∧
      ∃ record, chain'.storage.userRoundOutcome.get (1, 5) = some record ∧
        record.outcome = .refund := by
  obtain ⟨trace, chain, chain', hhistory, hfits⟩ := exists_trial cashedOutRound.dropLast
    (.invoke [2] (.resolveRound (trialPayload 1 101 100)))
    (fun chain _ => decide (
      (((Call.resolveRound (trialPayload 1 101 100)).ending chain.storage).any fun ending =>
        3 ∈ chain.storage.rounds.participants ending.round.roundId ∧
        4 ∈ chain.storage.rounds.participants ending.round.roundId ∧
        ending.won chain.storage.rounds 3 = true ∧
        ending.competed chain.storage.rounds 4 = true ∧
        ending.won chain.storage.rounds 4 = false) ∧
      (chain.storage.userRoundOutcome.get (1, 5)).any fun record : UserRoundOutcome ℕ =>
        record.outcome = .refund)) (by decide +kernel)
  obtain ⟨hsome, hleft⟩ := of_decide_eq_true hfits
  obtain ⟨ending, hending, hresults⟩ := (Option.any_eq_true _ _).mp hsome
  obtain ⟨huser, huser', hwon, hcompeted, hnot⟩ := of_decide_eq_true hresults
  obtain ⟨record, hstored, hrefund⟩ := (Option.any_eq_true _ _).mp hleft
  obtain ⟨hreachable, hstep⟩ := hhistory.last
  obtain ⟨hends, -, hkept⟩ := outcomes_faithful hreachable
  have hrecords := (hends _ _ chain' ending hstep hending).records
  obtain ⟨won, hwins⟩ := hrecords 3 huser
  obtain ⟨lost, hloses⟩ := hrecords 4 huser'
  exact ⟨chain, chain', ending, hstep, ⟨won, hwins, hwins.win.mpr hwon⟩,
    ⟨lost, hloses, hloses.loss.mpr ⟨hcompeted, hnot⟩⟩, record,
    hkept _ chain' (.snoc (.nil chain) hstep) _ record hstored, of_decide_eq_true hrefund⟩

end XelmaMarket
