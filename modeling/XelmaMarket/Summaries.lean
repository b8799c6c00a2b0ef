import XelmaMarket.Archive

/-!
# Round summaries

Every end of a round is published: one summary event with the archive status and the fee, and the
archived record, for as long as it is kept, under the same status.
-/

namespace XelmaMarket

open Transaction

variable {A : Type}

/-- What the archive and the events hold. -/
def Storage.log (s : Storage A) : Archive A × List RoundSummaryEvent :=
  (s.archive, s.events)

instance : Aside (@Storage.log A) where
  vault _ _ := rfl
  rounds _ _ := rfl
  userRoundOutcome _ _ := rfl
  stats _ _ := rfl
  meter _ _ := rfl

/-- A round is summarized: its event is the only new one, and its archived record, unless pruned,
has the same status. -/
structure Summarizes (roundId : ℕ) (status : RoundArchiveStatus) (fee : ℤ) (s s' : Storage A) :
    Prop where
  event : ∃ event, s'.events = s.events ++ [event] ∧ event.roundId = roundId ∧
    event.status = status.value ∧ event.feeAmount = fee
  archived : ∀ summary, s'.archive.archivedRound.get roundId = some summary →
    summary.status = status

variable {env : Env A} {s s' : Storage A}

section Calls

variable [LinearOrder A]

omit [LinearOrder A] in
theorem ensures_same_log {α : Type} (m : ContractM A α) [Keeps Storage.log m] :
    Ensures m env s fun _ s' => s'.log = s.log :=
  @Keeps.ensures _ _ _ _ _ Storage.log _ _ env s

/-- Archiving a round summarizes it. -/
theorem archiveRound_summarizes (round : Round) (status : RoundArchiveStatus) (finalPrice : ℕ)
    (participants : List A) (feeAmount : ℤ) (confidence : Option ℕ) :
    Ensures (archiveRound round status finalPrice participants feeAmount confidence) env s
      fun _ s' => Summarizes round.roundId status feeAmount s s' := by
  simp only [archiveRound, ensures_bind, ensures_ledgerSequence]
  refine (indexParticipants_spec _ _).mono ?_
  rintro _ _ ⟨index, rfl⟩
  simp only [ensures_update, ensures_gets, ensures_pushBack, enforceRetention_eq]
  refine fun _ => ⟨⟨_, rfl, rfl, rfl, rfl⟩, fun summary hsummary => ?_⟩
  simp only [Archive.pruneAll, Store.get_removeAll, Store.get_set_self] at hsummary
  split at hsummary
  · cases hsummary
  · obtain rfl := Option.some.inj hsummary
    rfl

/-- The archive status of an ending. -/
def EndingKind.status : EndingKind → RoundArchiveStatus
  | .resolved _ | .finalized _ => .resolved
  | .fallbackRefund => .fallbackRefund
  | .cancelled _ => .cancelled
  | .voided => .voided

/-- An ending is summarized under its status, with the fee of its plan. -/
def SummarizesEnding (s : Storage A) (ending : Ending) (s' : Storage A) : Prop :=
  Summarizes ending.round.roundId ending.kind.status
    (ending.plan s.control.settings.terms s.rounds).fee s s'

/-- The rounds that an ending archives its round over: a cancellation has cleared the round. -/
def Ending.roundsArchived (ending : Ending) (rounds : Rounds A) : Rounds A :=
  match ending.kind with
  | .cancelled _ =>
      rounds.clearRoundStorage ending.round.roundId (rounds.participants ending.round.roundId)
  | _ => rounds

/-- What holds of the archive and the events once a round is archived after an ending: the round was
archived where they were as before, and a cancellation mark may have followed. -/
structure Archiving (env : Env A) (s : Storage A) (ending : Ending)
    (post : Archive A × List RoundSummaryEvent → Prop) : Prop where
  archives : ∀ s₁ finalPrice confidence, s₁.log = s.log →
    s₁.rounds = ending.roundsArchived s.rounds → Ensures (archiveRound ending.round ending.kind.status finalPrice
      (s.rounds.participants ending.round.roundId)
      (ending.plan s.control.settings.terms s.rounds).fee confidence) env s₁ fun _ s₂ => post s₂.log
  marks : ∀ archive events, post (archive, events) → post ({ archive with
    cancelledRound := archive.cancelledRound.set ending.round.roundId true }, events)

variable {post : Archive A × List RoundSummaryEvent → Prop}

/-- A completed settlement archives its round. -/
theorem completeSettlement_archiving {round : Round} {finalPrice : ℕ} {kind : EndingKind}
    (hbook : Represents s.rounds round) (hcap : FeeCapped s.control.settings.protocolFeeBps)
    (hkind : kind = .resolved finalPrice ∨ kind = .finalized finalPrice)
    (confidence : Option ℕ) (harchiving : Archiving env s ⟨round, kind⟩ post) :
    Ensures (completeSettlement round finalPrice confidence) env s fun _ s' => post s'.log := by
  have hsettle := (settleMode_spec hbook hcap finalPrice).and
    (@ensures_same_log _ env s _ (settleMode round finalPrice) _)
  refine hsettle.bind ?_
  rintro fee s₁ ⟨⟨-, rfl, hexecutes⟩, hlog⟩
  have hrounds : s₁.rounds = s.rounds := hexecutes.rounds
  have harchives := harchiving.archives s₁ finalPrice confidence hlog
  simp only [ensures_bind, ensures_gets, hrounds]
  rcases hkind with rfl | rfl <;>
  · refine (harchives hrounds).mono fun _ s₂ hpost => ?_
    simp only [ensures_updateRounds, ensures_pure]
    exact hpost

/-- Settling the active round archives it, when that ends it. -/
theorem settleRoundWithPrice_archiving {round : Round} {finalPrice : ℕ} {ending : Ending}
    (hactive : s.rounds.activeRound = some round) (hbook : Represents s.rounds round)
    (hcap : FeeCapped s.control.settings.protocolFeeBps) (confidence : Option ℕ)
    (hending : s.resolution finalPrice = some ending) (harchiving : Archiving env s ending post) :
    Ensures (settleRoundWithPrice round finalPrice confidence) env s fun _ s' => post s'.log := by
  simp only [Storage.resolution, hactive] at hending
  simp only [settleRoundWithPrice, ensures_bind, ensures_gets, ensures_ite]
  refine ⟨fun hbelow => ?_, fun habove => ⟨fun hwindow => ?_, fun hnow => ?_⟩⟩
  · rw [if_pos hbelow] at hending
    cases hending
    refine (harchiving.archives s finalPrice confidence rfl rfl).mono fun _ s₁ hpost => ?_
    exact (ensures_same_log _).mono fun _ s' hlog => hlog.symm ▸ hpost
  · rw [if_neg habove, if_pos hwindow] at hending
    cases hending
  · rw [if_neg habove, if_neg hnow] at hending
    cases hending
    refine (completeSettlement_archiving hbook hcap (.inl rfl) _ harchiving).mono ?_
    exact fun _ s' hpost => (ensures_pure _).mpr hpost

/-- A cancellation clears the active round, archives it and marks it. -/
theorem cancelRound_archiving {round : Round} {reason : ℕ}
    (hactive : s.rounds.activeRound = some round) (hbook : Represents s.rounds round)
    (hfits : s.rounds.totalStake round.mode round.roundId ≤ i128Max)
    (harchiving : Archiving env s ⟨round, .cancelled reason⟩ post) :
    Ensures (XelmaMarket.cancelRound reason) env s fun _ s' => post s'.log := by
  simp only [cancelRound, ensures_bind, ensures_onControl, requireSupportedSchema, ensures_gets,
    ensures_reject, ensures_pure, authorizedAdmin, readActiveRound, ensures_orError,
    ensures_requireAuth, hactive, Option.some.injEq]
  intro _ _ _ _ other hround
  subst hround
  refine ((cancelStakes_spec hbook hfits).and (ensures_same_log _)).mono ?_
  rintro tally s₁ ⟨⟨htally, hsettles⟩, hfirst⟩
  have hfund : s₁.vault.insuranceFund = s.vault.insuranceFund := by
    rw [hsettles.vault]
    simp
  have hpay : Ensures
      (onlyIf (s.control.settings.isCoverageEligible reason = true ∧ tally.1 ≠ [])
        (payCoverage (s.rounds.participants round.roundId) tally)) env s₁ fun _ s₂ =>
          s₂.log = s₁.log ∧ s₂.rounds = s₁.rounds := by
    refine (ensures_same_log _).and ?_
    rw [ensures_onlyIf, htally]
    refine ⟨?_, fun _ => rfl⟩
    rintro ⟨heligible, -⟩
    refine (payCoverage_spec hbook heligible hsettles.control hfund).mono ?_
    rintro _ s₂ rfl
    rfl
  refine hpay.mono ?_
  rintro _ s₂ ⟨hsecond, hrounds⟩
  simp only [ensures_updateRounds]
  rw [hrounds, hsettles.rounds]
  let cleared := s.rounds.clearRoundStorage round.roundId (s.rounds.participants round.roundId)
  have harchives := harchiving.archives { s₂ with rounds := cleared } 0 none
    (hsecond.trans hfirst) rfl
  refine harchives.mono fun _ s₃ hpost => ?_
  simp only [ensures_update]
  exact harchiving.marks _ _ hpost

/-- A void archives the staged round. -/
theorem voidRound_archiving {roundId : ℕ} {pending : PendingDisputeSettlement}
    (hpending : s.rounds.pendingDisputes.get roundId = some pending)
    (hid : pending.round.roundId = roundId) (hbook : Represents s.rounds pending.round)
    (harchiving : Archiving env s ⟨pending.round, .voided⟩ post) :
    Ensures (XelmaMarket.voidRound roundId) env s fun _ s' => post s'.log := by
  subst hid
  simp only [voidRound, ensures_bind, ensures_onControl, requireSupportedSchema, ensures_gets,
    ensures_reject, ensures_pure, ensureNotPaused, policyGate, readPendingDispute,
    ensures_orError, ensures_ledgerSequence, hpending, Option.some.injEq]
  rintro - - _ rfl -
  refine ((voidStakes_spec hbook).and (ensures_same_log _)).mono ?_
  rintro _ s₁ ⟨hsettles, hlog⟩
  refine (harchiving.archives s₁ _ _ hlog hsettles.rounds).mono fun _ s₂ hpost => ?_
  simp only [removePendingDispute, ensures_updateRounds]
  exact hpost

/-- A finalization archives the staged round. -/
theorem finalizeRound_archiving {roundId : ℕ} {pending : PendingDisputeSettlement}
    (hpending : s.rounds.pendingDisputes.get roundId = some pending)
    (hbook : Represents s.rounds pending.round)
    (hcap : FeeCapped s.control.settings.protocolFeeBps)
    (harchiving : Archiving env s ⟨pending.round, .finalized pending.finalPrice⟩ post) :
    Ensures (XelmaMarket.finalizeRound roundId) env s fun _ s' => post s'.log := by
  simp only [finalizeRound, ensures_bind, ensures_onControl, requireSupportedSchema, ensures_gets,
    ensures_reject, ensures_pure, ensureNotPaused, policyGate, readPendingDispute,
    ensures_orError, ensures_ledgerSequence, hpending, Option.some.injEq]
  rintro - - _ rfl -
  refine (completeSettlement_archiving hbook hcap (.inr rfl) _ harchiving).mono fun _ s₁ hpost => ?_
  simp only [removePendingDispute, ensures_updateRounds]
  exact hpost

/-- A call that ends a round archives it. -/
theorem Call.ensures_archiving (hinorder : InOrder s) {call : Call A} {ending : Ending}
    (hending : call.ending s = some ending) (harchiving : Archiving env s ending post) :
    Ensures call.exec env s fun _ s' => post s'.log := by
  have hbook : ∀ {round}, s.rounds.activeRound = some round → Represents s.rounds round :=
    fun hactive => hinorder.represents _ _ (.inl ⟨hactive, rfl⟩)
  cases call with
  | resolveRound payload =>
      refine resolveRound_checked payload fun round s₁ hchecked _ _ => ?_
      obtain ⟨config, armed, feed, rfl⟩ := hchecked.oracle
      exact settleRoundWithPrice_archiving (s := s.withOracle config armed feed) hchecked.active
        (hbook hchecked.active) hinorder.fee_capped _ hending
        ⟨harchiving.archives, harchiving.marks⟩
  | resolveRoundMulti payload =>
      obtain ⟨median, hmedian, hresolved⟩ := Option.bind_eq_some_iff.mp hending
      refine resolveRoundMulti_checked payload fun round median' s₁ hchecked hmedian' _ => ?_
      obtain ⟨config, armed, feed, rfl⟩ := hchecked.oracle
      rw [hmedian'] at hmedian
      obtain rfl := Option.some.inj hmedian
      exact settleRoundWithPrice_archiving (s := s.withOracle config armed feed) hchecked.active
        (hbook hchecked.active) hinorder.fee_capped _ hresolved
        ⟨harchiving.archives, harchiving.marks⟩
  | cancelRound reason =>
      obtain ⟨round, hactive, rfl⟩ := Option.map_eq_some_iff.mp hending
      exact cancelRound_archiving hactive (hbook hactive) (hinorder.stakes_fit _ hactive)
        harchiving
  | voidRound roundId =>
      obtain ⟨pending, hpending, rfl⟩ := Option.map_eq_some_iff.mp hending
      exact voidRound_archiving hpending (hinorder.pending_id _ _ hpending)
        (hinorder.represents roundId pending.round (.inr ⟨pending, hpending, rfl⟩)) harchiving
  | finalizeRound roundId =>
      obtain ⟨pending, hpending, rfl⟩ := Option.map_eq_some_iff.mp hending
      exact finalizeRound_archiving hpending
        (hinorder.represents roundId pending.round (.inr ⟨pending, hpending, rfl⟩))
        hinorder.fee_capped harchiving
  | _ => cases hending

/-- A call that ends a round summarizes it. -/
theorem Call.ensures_summarizes (hinorder : InOrder s) {call : Call A} {ending : Ending}
    (hending : call.ending s = some ending) :
    Ensures call.exec env s fun _ s' => SummarizesEnding s ending s' := by
  let post (log : Archive A × List RoundSummaryEvent) : Prop :=
    (∃ event, log.2 = s.events ++ [event] ∧ event.roundId = ending.round.roundId ∧
      event.status = ending.kind.status.value ∧
      event.feeAmount = (ending.plan s.control.settings.terms s.rounds).fee) ∧
    ∀ summary, log.1.archivedRound.get ending.round.roundId = some summary →
      summary.status = ending.kind.status
  have harchiving : Archiving env s ending post := by
    refine ⟨fun s₁ finalPrice confidence hlog _ => ?_, fun _ _ hpost => hpost⟩
    refine (archiveRound_summarizes _ _ _ _ _ _).mono fun _ s₂ hsummarizes => ?_
    have hevents : s₁.events = s.events := congrArg Prod.snd hlog
    exact ⟨hevents ▸ hsummarizes.event, hsummarizes.archived⟩
  exact (Call.ensures_archiving hinorder hending harchiving).mono fun _ s' hpost =>
    ⟨hpost.1, hpost.2⟩

end Calls

/-- A successful invocation that ends a round on a healthy chain summarizes it. -/
theorem Chain.Healthy.summarizes [LinearOrder A] {host : Host A} {chain chain' : Chain A}
    {signers : List A} {call : Call A} {ending : Ending} (hhealthy : chain.Healthy)
    (hstep : Step host chain (.invoke signers call) chain')
    (hending : call.ending chain.storage = some ending) :
    SummarizesEnding chain.storage ending chain'.storage :=
  hstep.ensured (Call.ensures_summarizes
    (Storage.Healthy.inOrder hhealthy chain.ledger.sequence_lt) hending)

end XelmaMarket
