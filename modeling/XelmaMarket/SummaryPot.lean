import XelmaMarket.Summaries
import XelmaMarket.Arithmetic
import XelmaMarket.Receipts
import XelmaMarket.Script

/-!
# The pot of a summary

The summary event of a round adds its pot up from the storage. Every ending archives the round while
its stakes are stored, except a cancellation, which clears them first: a cancelled Precision round
is summarized without its pot.
-/

namespace XelmaMarket

open Transaction

variable {A : Type}

/-- What the treasury and the insurance fund hold. -/
def Vault.collected (vault : Vault A) : ℤ :=
  vault.treasury + vault.insuranceFund

/-- The summary event of an ending reports the round: its pot is the stakes before the ending, and
its fee is what the ending added to the treasury and the fund. A coverage that the fund pays out
adds nothing. -/
def SummaryReports (s : Storage A) (ending : Ending) (s' : Storage A) : Prop :=
  ∃ event, s'.events = s.events ++ [event] ∧ event.roundId = ending.round.roundId ∧
    event.totalPot = s.rounds.totalStake ending.round.mode ending.round.roundId ∧
    event.feeAmount = max 0 (s'.vault.collected - s.vault.collected)

/-! ## The event -/

section Calls

variable [LinearOrder A] {env : Env A} {s s' : Storage A} {ending : Ending}

/-- Archiving a round publishes the pot it finds, and the fee it is told. -/
theorem archiveRound_publishes (round : Round) (status : RoundArchiveStatus)
    (finalPrice : ℕ) (participants : List A) (feeAmount : ℤ) (confidence : Option ℕ) :
    Ensures (archiveRound round status finalPrice participants feeAmount confidence) env s
      fun _ s' => ∃ event, s'.events = s.events ++ [event] ∧ event.roundId = round.roundId ∧
        event.totalPot = summaryPot s.rounds round ∧ event.feeAmount = feeAmount := by
  simp only [archiveRound, ensures_bind, ensures_ledgerSequence]
  refine (indexParticipants_spec _ _).mono ?_
  rintro _ _ ⟨index, rfl⟩
  simp only [ensures_update, ensures_gets, ensures_pushBack]
  exact fun _ => ⟨_, rfl, rfl, rfl, rfl⟩

/-- An ending publishes the pot of the rounds it archives the round over, and the fee of its
plan. -/
theorem Call.ensures_publishes (hinorder : InOrder s) {call : Call A}
    (hending : call.ending s = some ending) :
    Ensures call.exec env s fun _ s' => ∃ event, s'.events = s.events ++ [event] ∧
      event.roundId = ending.round.roundId ∧
      event.totalPot = summaryPot (ending.roundsArchived s.rounds) ending.round ∧
      event.feeAmount = (ending.plan s.control.settings.terms s.rounds).fee := by
  have harchiving : Archiving env s ending fun log => ∃ event, log.2 = s.events ++ [event] ∧
      event.roundId = ending.round.roundId ∧
      event.totalPot = summaryPot (ending.roundsArchived s.rounds) ending.round ∧
      event.feeAmount = (ending.plan s.control.settings.terms s.rounds).fee := by
    refine ⟨fun s₁ finalPrice confidence hlog hrounds => ?_, fun _ _ hpost => hpost⟩
    have hevents : s₁.events = s.events := congrArg Prod.snd hlog
    rw [← hevents, ← hrounds]
    exact archiveRound_publishes _ _ _ _ _ _
  exact Call.ensures_archiving hinorder hending harchiving

end Calls

/-! ## The pot -/

section Pot

variable {rounds : Rounds A} {round : Round}

/-- A round that is stored is summarized with its stakes. -/
theorem summaryPot_eq (hbook : Represents rounds round)
    (hfits : rounds.totalStake round.mode round.roundId ≤ i128Max) :
    summaryPot rounds round = rounds.totalStake round.mode round.roundId := by
  unfold summaryPot
  cases hmode : round.mode with
  | upDown =>
      rw [hmode] at hfits
      have hup := (hbook.upDown hmode).pool_nonneg .up
      have hdown := (hbook.upDown hmode).pool_nonneg .down
      rw [← (hbook.upDown hmode).pools_eq] at hfits ⊢
      have hnonneg : i128Min ≤ round.poolUp + round.poolDown :=
        le_trans (by decide) (add_nonneg hup hdown)
      exact (congrArg _ (min_eq_right hfits)).trans (max_eq_right hnonneg)
  | precision =>
      rw [hmode] at hfits
      have hsums : AddUpFrom 0 ((rounds.participants round.roundId).map
          (precisionStake rounds round.roundId)) := by
        refine addUpFrom_of_nonneg le_rfl (fun amount hamount => ?_) (by rwa [zero_add])
        obtain ⟨user, huser, rfl⟩ := List.mem_map.mp hamount
        have hstake := hbook.stake_pos huser
        rw [hmode] at hstake
        exact hstake.le
      exact hsums.foldl_addOrKeep.trans (zero_add _)

variable {ending : Ending}

/-- An ending clears the stakes before it archives the round. -/
def Ending.ClearsFirst (ending : Ending) : Prop :=
  (∃ reason, ending.kind = .cancelled reason) ∧ ending.round.mode = .precision

variable [LinearOrder A]

/-- A Precision round that was cleared is summarized without a pot. -/
theorem summaryPot_cleared (hcleared : ending.ClearsFirst) :
    summaryPot (ending.roundsArchived rounds) ending.round = 0 := by
  obtain ⟨⟨reason, hkind⟩, hmode⟩ := hcleared
  have hnobody : (ending.roundsArchived rounds).participants ending.round.roundId = [] := by
    unfold Ending.roundsArchived
    simp only [hkind]
    rw [clearRoundStorage_eq]
    simp [Rounds.participants, Rounds.close, Store.getD]
  unfold summaryPot
  simp only [hmode, hnobody]
  rfl

/-- Every other ending summarizes the round over the stakes. -/
theorem summaryPot_archived (hcleared : ¬ ending.ClearsFirst) :
    summaryPot (ending.roundsArchived rounds) ending.round = summaryPot rounds ending.round := by
  unfold Ending.roundsArchived
  cases hkind : ending.kind with
  | cancelled reason =>
      cases hmode : ending.round.mode with
      | upDown => simp only [summaryPot, hmode]
      | precision => exact absurd ⟨⟨reason, hkind⟩, hmode⟩ hcleared
  | _ => rfl

end Pot

/-! ## The fee -/

section Reports

variable [LinearOrder A] {host : Host A} {chain chain' : Chain A} {signers : List A}
  {call : Call A} {ending : Ending} {s s' : Storage A} {ledger : ℕ}

/-- The fee of an ending is what it adds to the treasury and the fund. -/
theorem Ends.fee_eq (hends : Ends ledger ending s s') (hbook : Represents s.rounds ending.round)
    (hcap : FeeCapped s.control.settings.protocolFeeBps) :
    (ending.plan s.control.settings.terms s.rounds).fee =
      max 0 (s'.vault.collected - s.vault.collected) := by
  have hcollected := hends.collected hbook hcap
  have hfee := (@Ending.plan_sound _ _ _ s.control.settings.terms _ hbook hcap).fee_nonneg
  unfold Vault.collected
  have hpaid := coveragePaid_nonneg (s := s) ending
  by_cases hcovered : ending.isCovered s.control.settings = true
  · have hnone : (ending.plan s.control.settings.terms s.rounds).fee = 0 := by
      unfold Ending.isCovered at hcovered
      unfold Ending.plan
      cases hkind : ending.kind with
      | cancelled reason => rfl
      | _ => simp [hkind] at hcovered
    omega
  · have hzero : s.coveragePaid ending = 0 := if_neg hcovered
    omega

/-- In every reachable chain the summary of an ending reports the round, except where a Precision
round with participants is cancelled. -/
theorem summary_reports_iff (hreachable : Reachable host chain)
    (hstep : Step host chain (.invoke signers call) chain')
    (hending : call.ending chain.storage = some ending) :
    SummaryReports chain.storage ending chain'.storage ↔
      ¬ (ending.ClearsFirst ∧
        chain.storage.rounds.participants ending.round.roundId ≠ []) := by
  have hhealthy : chain.storage.Healthy chain.ledger.sequence := hreachable.healthy
  have hinorder := Storage.Healthy.inOrder hhealthy chain.ledger.sequence_lt
  have hlive := (Call.endsBy hending).live hhealthy.ordered
  obtain ⟨-, hbook⟩ := hhealthy.ordered.live _ _ hlive
  have hfits := hhealthy.bounded.totalStake_le hhealthy.ordered hhealthy.solvent
    hhealthy.paced chain.ledger.sequence_lt hbook
  have hfee := (hreachable.ends hstep hending).fee_eq hbook hhealthy.fee_capped
  obtain ⟨event, hevents, hround, hpot, hcharged⟩ :=
    hstep.ensured (Call.ensures_publishes hinorder hending)
  have hreports : SummaryReports chain.storage ending chain'.storage ↔
      event.totalPot =
        chain.storage.rounds.totalStake ending.round.mode ending.round.roundId := by
    constructor
    · rintro ⟨other, hother, -, htotal, -⟩
      rw [hevents, List.append_cancel_left_eq, List.singleton_inj] at hother
      rw [hother, htotal]
    · exact fun htotal => ⟨event, hevents, hround, htotal, hcharged.trans hfee⟩
  rw [hreports, hpot]
  by_cases hcleared : ending.ClearsFirst
  · rw [summaryPot_cleared hcleared]
    constructor
    · rintro hzero ⟨-, hsome⟩
      exact absurd hzero (hbook.totalStake_pos hsome).ne
    · intro hnot
      have hnobody : chain.storage.rounds.participants ending.round.roundId = [] := by
        by_contra hsome
        exact hnot ⟨hcleared, hsome⟩
      simp [Rounds.totalStake, hnobody]
  · rw [summaryPot_archived hcleared]
    exact iff_of_true (summaryPot_eq hbook hfits) fun h => hcleared h.1

end Reports

/-- A settled Precision round is summarized with its pot of 113. -/
theorem settled_round_reported : ∃ chain chain' : Chain ℕ, ∃ event,
    Step trialHost chain (.invoke [2] (.resolveRound (trialPayload 1 1000 100))) chain' ∧
      chain'.storage.events = chain.storage.events ++ [event] ∧ event.totalPot = 113 := by
  obtain ⟨trace, chain, chain', hhistory, hfits⟩ := exists_trial precisionRound
    (.invoke [2] (.resolveRound (trialPayload 1 1000 100)))
    (fun chain _ => (Call.ending chain.storage (.resolveRound (trialPayload 1 1000 100))).any
      fun ending : Ending => decide (ending.kind.status = .resolved ∧
        chain.storage.rounds.totalStake ending.round.mode ending.round.roundId = 113))
    (by decide +kernel)
  obtain ⟨ending, hending, hround⟩ := (Option.any_eq_true _ _).mp hfits
  obtain ⟨hstatus, htotal⟩ := of_decide_eq_true hround
  obtain ⟨hreachable, hstep⟩ := hhistory.last
  obtain ⟨event, hevents, -, hpot, -⟩ := (summary_reports_iff hreachable hstep hending).mpr
    fun ⟨⟨⟨reason, hcancelled⟩, _⟩, _⟩ => by simp [hcancelled, EndingKind.status] at hstatus
  exact ⟨chain, chain', event, hstep, hevents, hpot.trans htotal⟩

/-- A cancelled Precision round of 113 is summarized with a pot of 0. -/
theorem cancelled_pot_lost : ¬ ∀ (chain chain' : Chain ℕ) signers call ending,
    Reachable trialHost chain → Step trialHost chain (.invoke signers call) chain' →
    call.ending chain.storage = some ending →
    SummaryReports chain.storage ending chain'.storage := by
  intro hclaim
  obtain ⟨trace, chain, chain', hhistory, hfits⟩ := exists_trial precisionRound
    (.invoke [1] (.cancelRound 0))
    (fun chain chain' => (Call.ending chain.storage (.cancelRound 0)).any fun ending : Ending =>
      decide (chain.storage.rounds.totalStake ending.round.mode ending.round.roundId = 113) &&
      decide (∃ event ∈ chain'.storage.events.getLast?, event.totalPot = 0))
    (by decide +kernel)
  obtain ⟨ending, hending, hround⟩ := (Option.any_eq_true _ _).mp hfits
  rw [Bool.and_eq_true] at hround
  obtain ⟨event, hlast, hpot⟩ := of_decide_eq_true hround.2
  obtain ⟨hreachable, hstep⟩ := hhistory.last
  obtain ⟨other, hevents, -, htotal, -⟩ := hclaim chain chain' [1] _ ending hreachable hstep hending
  rw [hevents, List.getLast?_concat, Option.mem_some_iff] at hlast
  rw [of_decide_eq_true hround.1, hlast, hpot] at htotal
  cases htotal

end XelmaMarket
