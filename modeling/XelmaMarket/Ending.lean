import XelmaMarket.Contract
import XelmaMarket.PrecisionPayout

/-!
# The ends of a round

A round ends in one of five ways. `Call.ending` says which call ends which round how, and `Ends`
says what that does to the storage: the plan is carried out, a cancellation may pay a coverage,
and everything the round stored goes.
-/

namespace XelmaMarket

open Transaction

variable {A : Type}

/-! ## Ways to end a round -/

/-- How a round ends: resolved at once or finalized after its dispute window, refunded below the
minimum of participants, cancelled, or voided. -/
inductive EndingKind where
  | resolved (finalPrice : ℕ)
  | finalized (finalPrice : ℕ)
  | fallbackRefund
  | cancelled (reason : ℕ)
  | voided
  deriving DecidableEq

/-- The end of a round: the round record the settlement uses and the way it ends. -/
structure Ending where
  round : Round
  kind : EndingKind
  deriving DecidableEq

section LinearAddress

variable [LinearOrder A]

/-- The plan of an ending. -/
def Ending.plan (ending : Ending) (terms : Terms) (rounds : Rounds A) : Plan A :=
  let participants := rounds.participants ending.round.roundId
  match ending.kind with
  | .resolved finalPrice | .finalized finalPrice => terms.plan rounds ending.round finalPrice
  | .fallbackRefund => ⟨0, rounds.refundRecords ending.round (fun _ => 0) .refund participants⟩
  | .cancelled _ => ⟨0, rounds.refundRecords ending.round (fun _ => 0) .void participants⟩
  | .voided =>
      ⟨0, rounds.refundRecords ending.round (revealedPrice rounds ending.round.roundId) .void
        participants⟩

/-- How the active round ends when it is settled at a price; a round that is staged into its
dispute window does not end. -/
def Storage.resolution (s : Storage A) (finalPrice : ℕ) : Option Ending :=
  match s.rounds.activeRound with
  | none => none
  | some round =>
      if s.control.settings.belowMinimum (s.rounds.participants round.roundId).length then
        some ⟨round, .fallbackRefund⟩
      else if s.control.settings.getDisputeLedgers > 0 then
        none
      else
        some ⟨round, .resolved finalPrice⟩

omit [LinearOrder A] in
/-- The price a resolving call settles at. -/
def Call.price : Call A → Option ℕ
  | .resolveRound payload => some payload.price
  | .resolveRoundMulti payload => (medianPrice payload.prices).toOption
  | _ => none

/-- The end a call brings to a round, when it succeeds. -/
def Call.ending (s : Storage A) (call : Call A) : Option Ending :=
  match call with
  | .resolveRound payload => s.resolution payload.price
  | .resolveRoundMulti payload => (medianPrice payload.prices).toOption.bind s.resolution
  | .cancelRound reason => s.rounds.activeRound.map fun round => ⟨round, .cancelled reason⟩
  | .voidRound roundId =>
      (s.rounds.pendingDisputes.get roundId).map fun pending => ⟨pending.round, .voided⟩
  | .finalizeRound roundId =>
      (s.rounds.pendingDisputes.get roundId).map fun pending =>
        ⟨pending.round, .finalized pending.finalPrice⟩
  | _ => none

/-! ## Coverage -/

/-- The coverage a stake asks for at the configured rate. -/
def Settings.coverageOfStake (settings : Settings) (stake : ℤ) : ℤ :=
  stake * settings.insuranceCoverageBps / bpsDenominator

/-- The coverage all stakes of a round ask for. -/
def Storage.coverageRequested (s : Storage A) (round : Round) : ℤ :=
  ((s.rounds.participants round.roundId).map fun user =>
    s.control.settings.coverageOfStake (s.rounds.stakeOf round.mode round.roundId user)).sum

/-- Whether the end of a round pays a coverage: a cancellation for an eligible reason does. -/
def Ending.isCovered (ending : Ending) (settings : Settings) : Bool :=
  match ending.kind with
  | .cancelled reason => settings.isCoverageEligible reason
  | _ => false

/-- What the fund pays at the end of a round: what is asked for, as far as the fund goes. -/
def Storage.coveragePaid (s : Storage A) (ending : Ending) : ℤ :=
  if ending.isCovered s.control.settings then
    max 0 (min (s.coverageRequested ending.round) s.vault.insuranceFund)
  else
    0

/-- A participant's share of what the fund paid. -/
def Storage.coverageOf (s : Storage A) (ending : Ending) (user : A) : ℤ :=
  Apportion.share (s.coveragePaid ending)
    (s.rounds.totalStake ending.round.mode ending.round.roundId)
    (s.rounds.stakeOf ending.round.mode ending.round.roundId user)

/-- The coverage credits: the participants' shares, as far as they are positive. -/
def Storage.coverageCredits (s : Storage A) (ending : Ending) : List (A × ℤ) :=
  ((s.rounds.participants ending.round.roundId).map fun user =>
    (user, s.coverageOf ending user)).filter fun credit => 0 < credit.2

/-! ## Cleanup -/

/-- The position keys of the participants of a round. -/
def Rounds.stakeKeys (rounds : Rounds A) (roundId : ℕ) : List (ℕ × A) :=
  (rounds.participants roundId).map fun user => (roundId, user)

/-- The rounds without the stakes and the participant list of a round. -/
def Rounds.close (rounds : Rounds A) (roundId : ℕ) : Rounds A :=
  { rounds with
    roundParticipants := rounds.roundParticipants.remove roundId
    position := rounds.position.removeAll (rounds.stakeKeys roundId)
    precisionPosition := rounds.precisionPosition.removeAll (rounds.stakeKeys roundId)
    precisionCommitment := rounds.precisionCommitment.removeAll (rounds.stakeKeys roundId) }

/-- The rounds after an ending. Every ending but a void drops the active round, whichever it is;
the endings of a staged round drop its staged settlement. -/
def Ending.roundsAfter (ending : Ending) (rounds : Rounds A) : Rounds A :=
  let closed := rounds.close ending.round.roundId
  match ending.kind with
  | .resolved _ | .fallbackRefund | .cancelled _ => { closed with activeRound := none }
  | .finalized _ =>
      { closed with
        activeRound := none
        pendingDisputes := closed.pendingDisputes.remove ending.round.roundId }
  | .voided =>
      { closed with pendingDisputes := closed.pendingDisputes.remove ending.round.roundId }

/-- What the end of a round does to the storage. -/
structure Ends (ledger : ℕ) (ending : Ending) (s s' : Storage A) : Prop where
  vault : s'.vault =
    (((s.vault.collectFee s.control.settings.insuranceSplitBps
      (ending.plan s.control.settings.terms s.rounds).fee).creditAll ledger
      (creditsOf (ending.plan s.control.settings.terms s.rounds).records)).payFromFund
      (s.coveragePaid ending)).creditAll ledger (s.coverageCredits ending)
  outcomes : s'.userRoundOutcome = recordAll s.userRoundOutcome ending.round.roundId
    (ending.plan s.control.settings.terms s.rounds).records
  rounds : s'.rounds = ending.roundsAfter s.rounds
  stats : s'.stats = s.stats.countAll (ending.plan s.control.settings.terms s.rounds).records

omit [LinearOrder A] in
theorem coverageCredits_eq_nil {s : Storage A} {ending : Ending}
    (hzero : s.coveragePaid ending = 0) : s.coverageCredits ending = [] := by
  simp [Storage.coverageCredits, Storage.coverageOf, hzero, Apportion.share]

/-- An ending without a coverage carries out its plan and nothing else. -/
theorem Ends.of_executes {ledger : ℕ} {ending : Ending} {s s₁ s' : Storage A}
    (huncovered : ending.isCovered s.control.settings = false)
    (hexecutes : Executes ledger ending.round.roundId
      (ending.plan s.control.settings.terms s.rounds) s s₁)
    (hrounds : s'.rounds = ending.roundsAfter s.rounds)
    (hrest : s'.vault = s₁.vault ∧ s'.userRoundOutcome = s₁.userRoundOutcome ∧
      s'.stats = s₁.stats) : Ends ledger ending s s' := by
  obtain ⟨hvault, houtcomes, hstats⟩ := hrest
  have hzero : s.coveragePaid ending = 0 := by simp [Storage.coveragePaid, huncovered]
  constructor
  · rw [coverageCredits_eq_nil hzero, hzero, hvault, hexecutes.vault]
    rfl
  · exact houtcomes.trans hexecutes.outcomes
  · exact hrounds
  · exact hstats.trans hexecutes.stats

/-! ## The cleanup functions -/

section Cleanup

variable (rounds : Rounds A) (roundId : ℕ) (users : List A)

theorem foldl_clearUserPositions :
    users.foldl (fun rest user => rest.clearUserPositions roundId user) rounds =
      { rounds with
        position := rounds.position.removeAll (users.map fun user => (roundId, user))
        precisionPosition :=
          rounds.precisionPosition.removeAll (users.map fun user => (roundId, user))
        precisionCommitment :=
          rounds.precisionCommitment.removeAll (users.map fun user => (roundId, user)) } := by
  induction users generalizing rounds with
  | nil => rfl
  | cons user rest ih =>
      rw [List.foldl_cons, ih]
      rfl

theorem clearDisputeRoundStorage_eq :
    rounds.clearDisputeRoundStorage roundId (rounds.participants roundId) =
      rounds.close roundId := by
  unfold Rounds.clearDisputeRoundStorage
  rw [foldl_clearUserPositions]
  rfl

theorem clearRoundStorage_eq :
    rounds.clearRoundStorage roundId (rounds.participants roundId) =
      { rounds.close roundId with activeRound := none } := by
  unfold Rounds.clearRoundStorage
  rw [clearDisputeRoundStorage_eq]

theorem foldl_clearModePositions (mode : RoundMode) :
    users.foldl (fun rest user => rest.clearModePositions mode roundId user) rounds =
      match mode with
      | .upDown =>
          { rounds with
            position := rounds.position.removeAll (users.map fun user => (roundId, user)) }
      | .precision =>
          { rounds with
            precisionPosition :=
              rounds.precisionPosition.removeAll (users.map fun user => (roundId, user))
            precisionCommitment :=
              rounds.precisionCommitment.removeAll (users.map fun user => (roundId, user)) } := by
  induction users generalizing rounds with
  | nil => cases mode <;> rfl
  | cons user rest ih =>
      rw [List.foldl_cons, ih]
      cases mode <;> rfl

/-- The mode-scoped cleanup finds nothing left after the full one. -/
theorem clearModeStorage_close (mode : RoundMode) :
    (rounds.close roundId).clearModeStorage mode roundId (rounds.participants roundId) =
      rounds.close roundId := by
  unfold Rounds.clearModeStorage
  rw [foldl_clearModePositions]
  cases mode <;> simp [Rounds.close, Rounds.stakeKeys]

end Cleanup

/-! ## Archiving -/

variable {env : Env A} {s : Storage A}

/-- Archiving a round touches the archive and the events only. -/
theorem archiveRound_spec (round : Round) (status : RoundArchiveStatus) (finalPrice : ℕ)
    (participants : List A) (feeAmount : ℤ) (confidence : Option ℕ) :
    Ensures (archiveRound round status finalPrice participants feeAmount confidence) env s
      fun _ s' => ∃ archive events, s' = { s with archive := archive, events := events } := by
  have hindex : Ensures (indexParticipants round.roundId participants) env s fun _ s' =>
      ∃ archive, s' = { s with archive := archive } := by
    refine ensures_forEach (fun _ s' => ∃ archive, s' = { s with archive := archive }) ?_
      ⟨s.archive, rfl⟩
    rintro user rest _ ⟨archive, rfl⟩
    simp only [ensures_bind, ensures_gets, ensures_pushBack, ensures_update]
    exact fun _ => ⟨_, rfl⟩
  simp only [archiveRound, ensures_bind, ensures_ledgerSequence]
  refine hindex.mono ?_
  rintro _ s₁ ⟨archive, rfl⟩
  simp only [ensures_update, ensures_gets, ensures_pushBack]
  exact fun _ => ⟨_, _, rfl⟩

/-! ## Coverage payments -/

/-- The loop rule for plain credits. -/
theorem credits_forEach {α : Type} {items : List α} {body : α → ContractM A PUnit}
    (credits : α → List (A × ℤ))
    (hbody : ∀ a ∈ items, ∀ s, Ensures (body a) env s fun _ s' =>
      s' = { s with vault := s.vault.creditAll env.ledger.sequence (credits a) }) :
    Ensures (forEach items body) env s fun _ s' =>
      s' = { s with vault := s.vault.creditAll env.ledger.sequence (items.flatMap credits) } := by
  induction items generalizing s with
  | nil => simp
  | cons a rest ih =>
      simp only [ensures_forEach_cons]
      refine (hbody a (by simp) s).mono ?_
      rintro _ s₁ rfl
      refine (ih fun b hb => hbody b (List.mem_cons_of_mem _ hb)).mono ?_
      rintro _ s₂ rfl
      simp [Vault.creditAll_append]

omit [LinearOrder A] in
/-- The credits the loop over the coverage makes are the positive shares. -/
theorem shareCredits_eq (participants : List A) (share : A → ℤ) :
    participants.zipIdx.flatMap (fun entry =>
        if 0 < share entry.1 then [(entry.1, share entry.1)] else []) =
      (participants.map fun user => (user, share user)).filter fun credit => 0 < credit.2 := by
  rw [flatMap_zipIdx participants fun user => if 0 < share user then [(user, share user)] else []]
  induction participants with
  | nil => rfl
  | cons user rest ih => by_cases hpos : 0 < share user <;> simp [hpos, ih]

/-- Distributing a coverage credits every positive share. -/
theorem distributeCoverage_spec {participants : List A} {stake : A → ℤ} {distributed total : ℤ}
    (hstake : ∀ user ∈ participants, 0 < stake user) (hdistributed : 0 ≤ distributed) :
    Ensures (distributeCoverage participants (participants.map stake, total) distributed) env s
      fun _ s' => s' = { s with
        vault := s.vault.creditAll env.ledger.sequence
          ((participants.map fun user =>
            (user, Apportion.share distributed total (stake user))).filter
            fun credit => 0 < credit.2) } := by
  rw [← shareCredits_eq]
  refine credits_forEach _ ?_
  intro entry hentry s₁
  have hamount : (participants.map stake).getD entry.2 0 = stake entry.1 :=
    getD_map_of_mem_zipIdx hentry stake 0
  have hpos := hstake entry.1 (List.fst_mem_of_mem_zipIdx hentry)
  simp only [hamount, ensures_onlyIf, ensures_bind, ensures_liftM, checked_eq_ok, divide_eq_ok]
  refine ⟨?_, fun hneg => absurd hpos hneg⟩
  rintro - product ⟨rfl, -, -⟩ coverage ⟨hdiv, -, -, -⟩
  rw [Int.tdiv_eq_ediv_of_nonneg (mul_nonneg hdistributed hpos.le), mul_comm] at hdiv
  have hshare : coverage = Apportion.share distributed total (stake entry.1) := hdiv.symm
  rw [← hshare]
  constructor
  · intro hcoverage
    refine (accumulatePending_spec entry.1 coverage).mono ?_
    rintro _ s₂ rfl
    simp [show 0 < coverage from hcoverage]
  · intro hcoverage
    simp [show ¬ 0 < coverage from hcoverage]

omit [LinearOrder A] in
/-- The coverage the stakes ask for is added up. -/
theorem totalCoverage_spec {stakes : List ℤ} (hstakes : ∀ stake ∈ stakes, 0 < stake)
    (hbps : 0 < s.control.settings.insuranceCoverageBps) :
    Ensures (totalCoverage stakes) env s fun requested s' =>
      requested = (stakes.map s.control.settings.coverageOfStake).sum ∧ s' = s := by
  suffices h : ∀ start, Ensures (foldEach stakes start fun total stake => do
      let coverage ← calculateCoverageAmount stake
      let extended ← payoutAdd total coverage
      return extended) env s fun requested s' =>
        requested = start + (stakes.map s.control.settings.coverageOfStake).sum ∧ s' = s by
    unfold totalCoverage
    simpa only [zero_add] using h 0
  induction stakes with
  | nil =>
      intro start
      simp
  | cons stake rest ih =>
      intro start
      have hpos := hstakes stake (by simp)
      have hne : ¬ (s.control.settings.insuranceCoverageBps = 0 ∨ stake ≤ 0) := by omega
      simp only [ensures_foldEach_cons, calculateCoverageAmount, ensures_bind, ensures_gets,
        if_neg hne, ensures_liftM, checked_eq_ok, divide_eq_ok, payoutAdd_eq_ok]
      rintro product ⟨rfl, -, -⟩ coverage ⟨hdiv, -, -, -⟩ total ⟨rfl, -, -⟩
      rw [Int.tdiv_eq_ediv_of_nonneg (mul_nonneg hpos.le (by omega))] at hdiv
      refine (ih (fun other hother => hstakes other (List.mem_cons_of_mem _ hother))
        (start + coverage)).mono ?_
      rintro requested s' ⟨rfl, rfl⟩
      refine ⟨?_, rfl⟩
      rw [List.map_cons, List.sum_cons, ← hdiv, ← add_assoc]
      rfl

omit [LinearOrder A] in
/-- The fund pays what is asked for, as far as it goes. -/
theorem deductInsuranceCoverage_spec (requested : ℤ) :
    Ensures (deductInsuranceCoverage requested) env s fun distributed s' =>
      distributed = max 0 (min requested s.vault.insuranceFund) ∧
      s' = { s with vault := s.vault.payFromFund distributed } := by
  simp only [deductInsuranceCoverage, ensures_bind, ensures_gets, ensures_ite, ensures_pure,
    ensures_liftM, checked_eq_ok, setInsuranceFund, ensures_updateVault]
  constructor
  · intro hempty
    have hmin : min requested s.vault.insuranceFund ≤ 0 := by
      rw [min_le_iff]
      exact hempty
    exact ⟨(max_eq_left hmin).symm, by simp [Vault.payFromFund]⟩
  · rintro hfull balance ⟨rfl, -, -⟩
    have hmin : 0 < min requested s.vault.insuranceFund := by
      rw [lt_min_iff]
      omega
    refine ⟨(max_eq_right hmin.le).symm, ?_⟩
    unfold Vault.payFromFund
    rw [if_neg (not_le.mpr hmin)]

/-- Tallied stakes that add up in range are all in the total. -/
theorem foldlM_tally {stakes : List ℤ} (hstakes : ∀ stake ∈ stakes, 0 ≤ stake)
    (hfits : stakes.sum ≤ i128Max) {tally : StakeTally}
    (htally : stakes.foldlM (fun tally stake => Except.ok (StakeTally.add tally stake))
      (([], 0) : StakeTally) = Except.ok (ε := Failure) tally) :
    tally = (stakes, stakes.sum) := by
  suffices h : ∀ (start : StakeTally), 0 ≤ start.2 → start.2 + stakes.sum ≤ i128Max →
      stakes.foldlM (fun tally stake => Except.ok (StakeTally.add tally stake)) start =
        Except.ok (ε := Failure) tally →
      tally = (start.1 ++ stakes, start.2 + stakes.sum) by
    simpa using h ([], 0) le_rfl (by simpa using hfits) htally
  clear htally hfits
  induction stakes with
  | nil =>
      intro start _ _ h
      cases h
      simp
  | cons stake rest ih =>
      intro start hstart hfits h
      have hpos := hstakes stake (by simp)
      have hrest : 0 ≤ rest.sum :=
        List.sum_nonneg fun x hx => hstakes x (List.mem_cons_of_mem _ hx)
      rw [List.sum_cons] at hfits
      have hkeep : addOrKeep start.2 stake = start.2 + stake := by
        unfold addOrKeep
        rw [if_pos]
        unfold i128Min
        omega
      rw [List.foldlM_cons] at h
      have hnext := ih (fun x hx => hstakes x (List.mem_cons_of_mem _ hx))
        (StakeTally.add start stake) (by simp [StakeTally.add, hkeep]; omega)
        (by simp [StakeTally.add, hkeep]; omega) h
      rw [hnext]
      simp [StakeTally.add, hkeep, add_assoc]

/-! ## The settlements -/

/-- The arithmetic of a settlement at a price is in range. -/
def Computes (terms : Terms) (rounds : Rounds A) (round : Round) (finalPrice : ℕ) : Prop :=
  let participants := sortAddresses (rounds.participants round.roundId)
  match round.mode with
  | .upDown => ¬ round.refundsAt finalPrice → participants ≠ [] →
      UpDownComputes terms rounds round (round.winningSide finalPrice) participants
  | .precision => PrecisionComputes terms rounds round.roundId finalPrice participants

/-- Settling a round in its mode carries out the plan of its price. -/
theorem settleMode_spec {round : Round} (hbook : Represents s.rounds round)
    (hcap : FeeCapped s.control.settings.protocolFeeBps) (finalPrice : ℕ) :
    Ensures (settleMode round finalPrice) env s fun fee s' =>
      Computes s.control.settings.terms s.rounds round finalPrice ∧
      fee = (s.control.settings.terms.plan s.rounds round finalPrice).fee ∧
      Executes env.ledger.sequence round.roundId
        (s.control.settings.terms.plan s.rounds round finalPrice) s s' := by
  unfold settleMode Terms.plan Computes
  cases hmode : round.mode with
  | upDown =>
      simp only [ensures_map]
      exact resolveUpdownMode_spec hbook hmode hcap finalPrice
  | precision =>
      simp only [ensures_map]
      exact resolvePrecisionMode_spec hbook hmode hcap finalPrice

/-- A completed settlement carries out the plan, closes the round and drops the active round. -/
theorem completeSettlement_spec {round : Round} (hbook : Represents s.rounds round)
    (hcap : FeeCapped s.control.settings.protocolFeeBps) (finalPrice : ℕ)
    (confidence : Option ℕ) :
    Ensures (completeSettlement round finalPrice confidence) env s fun result s' =>
      result.1 = (s.control.settings.terms.plan s.rounds round finalPrice).fee ∧
      Computes s.control.settings.terms s.rounds round finalPrice ∧
      Ends env.ledger.sequence ⟨round, .resolved finalPrice⟩ s s' := by
  unfold completeSettlement
  refine (settleMode_spec hbook hcap finalPrice).bind ?_
  rintro fee s₁ ⟨hcomputes, rfl, hexecutes⟩
  have hrounds : s₁.rounds = s.rounds := hexecutes.rounds
  simp only [ensures_bind, ensures_gets]
  refine (archiveRound_spec _ _ _ _ _ _).mono ?_
  rintro _ s₂ ⟨archive, events, rfl⟩
  simp only [ensures_updateRounds, ensures_pure, hrounds, clearDisputeRoundStorage_eq,
    clearModeStorage_close]
  exact ⟨trivial, hcomputes, .of_executes rfl hexecutes rfl ⟨rfl, rfl, rfl⟩⟩

/-- A refund below the minimum of participants carries out its plan and closes the round. -/
theorem refundUnderThreshold_spec {round : Round} (hbook : Represents s.rounds round) :
    Ensures (refundUnderThreshold round (s.rounds.participants round.roundId)) env s fun _ s' =>
      Ends env.ledger.sequence ⟨round, .fallbackRefund⟩ s s' := by
  have hrefund : Ensures (refundStakesUnderThreshold round (s.rounds.participants round.roundId))
      env s fun _ s' => Settles env.ledger.sequence round.roundId
        (s.rounds.refundRecords round (fun _ => 0) .refund
          (s.rounds.participants round.roundId)) s s' := by
    unfold refundStakesUnderThreshold Rounds.refundRecords
    cases hmode : round.mode with
    | upDown =>
        exact (refundPositions_spec (by decide) addNothing () (fun _ => 0)
          fun user huser => (hbook.upDown hmode).position huser).mono fun _ _ h => h.2
    | precision =>
        refine (refundPredictions_spec (by decide) (fun _ _ => 0) addNothing ()
          fun user huser => ?_).mono fun _ _ h => h.2
        have := hbook.stake_pos huser
        rwa [hmode] at this
  simp only [refundUnderThreshold, ensures_bind]
  refine hrefund.mono ?_
  intro _ s₁ hsettles
  have hrounds : s₁.rounds = s.rounds := hsettles.rounds
  simp only [ensures_updateRounds, hrounds, clearRoundStorage_eq]
  exact .of_executes rfl hsettles rfl ⟨rfl, rfl, rfl⟩

/-- Voiding the stakes of a staged round refunds them. -/
theorem voidStakes_spec {round : Round} (hbook : Represents s.rounds round) :
    Ensures (voidStakes round.mode round.roundId (s.rounds.participants round.roundId)) env s
      fun _ s' => Settles env.ledger.sequence round.roundId
        (s.rounds.refundRecords round (revealedPrice s.rounds round.roundId) .void
          (s.rounds.participants round.roundId)) s s' := by
  unfold voidStakes Rounds.refundRecords
  cases hmode : round.mode with
  | upDown =>
      exact (refundPositions_spec (by decide) payoutAdd 0 _
        fun user huser => (hbook.upDown hmode).position huser).mono fun _ _ h => h.2
  | precision =>
      refine (refundPredictions_spec (by decide) _ payoutAdd 0
        fun user huser => ?_).mono fun _ _ h => h.2
      have := hbook.stake_pos huser
      rwa [hmode] at this

/-- A void refunds the staged round under the id and closes it. -/
theorem voidRound_spec {roundId : ℕ} {pending : PendingDisputeSettlement}
    (hpending : s.rounds.pendingDisputes.get roundId = some pending)
    (hid : pending.round.roundId = roundId) (hbook : Represents s.rounds pending.round) :
    Ensures (voidRound roundId) env s fun _ s' =>
      env.ledger.sequence < pending.deadlineLedger ∧
      Ends env.ledger.sequence ⟨pending.round, .voided⟩ s s' := by
  subst hid
  simp only [voidRound, ensures_bind, ensures_onControl, requireSupportedSchema, ensures_gets,
    ensures_reject, ensures_pure, ensureNotPaused, policyGate, readPendingDispute,
    ensures_orError, ensures_ledgerSequence, hpending, Option.some.injEq]
  rintro - - _ rfl hdeadline
  refine (voidStakes_spec hbook).mono ?_
  intro _ s₁ hsettles
  refine (archiveRound_spec _ _ _ _ _ _).mono ?_
  rintro _ s₂ ⟨archive, events, rfl⟩
  have hrounds : s₁.rounds = s.rounds := hsettles.rounds
  simp only [removePendingDispute, ensures_updateRounds, hrounds, clearDisputeRoundStorage_eq]
  exact ⟨by omega, .of_executes rfl hsettles rfl ⟨rfl, rfl, rfl⟩⟩

/-- Finalizing settles the staged round under the id at its staged price. -/
theorem finalizeRound_spec {roundId : ℕ} {pending : PendingDisputeSettlement}
    (hpending : s.rounds.pendingDisputes.get roundId = some pending)
    (hid : pending.round.roundId = roundId) (hbook : Represents s.rounds pending.round)
    (hcap : FeeCapped s.control.settings.protocolFeeBps) :
    Ensures (finalizeRound roundId) env s fun _ s' =>
      pending.deadlineLedger ≤ env.ledger.sequence ∧
      Computes s.control.settings.terms s.rounds pending.round pending.finalPrice ∧
      Ends env.ledger.sequence ⟨pending.round, .finalized pending.finalPrice⟩ s s' := by
  subst hid
  simp only [finalizeRound, ensures_bind, ensures_onControl, requireSupportedSchema, ensures_gets,
    ensures_reject, ensures_pure, ensureNotPaused, policyGate, readPendingDispute,
    ensures_orError, ensures_ledgerSequence, hpending, Option.some.injEq]
  rintro - - _ rfl hdeadline
  refine (completeSettlement_spec hbook hcap _ _).mono ?_
  rintro _ s₁ ⟨-, hcomputes, hends⟩
  simp only [removePendingDispute, ensures_updateRounds]
  refine ⟨by omega, hcomputes, ?_⟩
  constructor
  · exact hends.vault
  · exact hends.outcomes
  · simp only [hends.rounds]
    rfl
  · exact hends.stats

/-! ## Cancelling -/

/-- Cancelling the stakes of a round refunds them and tallies them. -/
theorem cancelStakes_spec {round : Round} (hbook : Represents s.rounds round)
    (hfits : s.rounds.totalStake round.mode round.roundId ≤ i128Max) :
    Ensures (cancelStakes round (s.rounds.participants round.roundId)) env s fun tally s' =>
      tally = ((s.rounds.participants round.roundId).map
        (s.rounds.stakeOf round.mode round.roundId),
        s.rounds.totalStake round.mode round.roundId) ∧
      Settles env.ledger.sequence round.roundId
        (s.rounds.refundRecords round (fun _ => 0) .void
          (s.rounds.participants round.roundId)) s s' := by
  have htally : ∀ tally,
      ((s.rounds.participants round.roundId).map
        (s.rounds.stakeOf round.mode round.roundId)).foldlM
        (fun tally stake => Except.ok (StakeTally.add tally stake)) (([], 0) : StakeTally) =
          Except.ok (ε := Failure) tally →
      tally = ((s.rounds.participants round.roundId).map
        (s.rounds.stakeOf round.mode round.roundId),
        s.rounds.totalStake round.mode round.roundId) := by
    intro tally h
    refine foldlM_tally ?_ hfits h
    intro x hx
    obtain ⟨user, hmem, rfl⟩ := List.mem_map.mp hx
    exact (hbook.stake_pos hmem).le
  unfold cancelStakes
  cases hmode : round.mode with
  | upDown =>
      rw [hmode] at htally
      refine (refundPositions_spec (by decide) _ _ (fun _ => 0)
        fun user huser => (hbook.upDown hmode).position huser).mono ?_
      rintro tally s' ⟨hfold, hsettles⟩
      refine ⟨htally tally hfold, ?_⟩
      rw [Rounds.refundRecords, hmode]
      exact hsettles
  | precision =>
      rw [hmode] at htally
      have hloop : Ensures (cancelPredictions round.roundId
          (s.rounds.participants round.roundId)) env s fun tally s' =>
            (s.rounds.participants round.roundId).foldlM (fun tally user => Except.ok
              (StakeTally.add tally (s.rounds.stakeOf .precision round.roundId user)))
              (([], 0) : StakeTally) = Except.ok (ε := Failure) tally ∧
            Settles env.ledger.sequence round.roundId
              ((s.rounds.participants round.roundId).flatMap fun user =>
                [s.rounds.outcomeRecord .precision round.roundId 0 user
                  (s.rounds.stakeOf .precision round.roundId user) .void]) s s' := by
        refine settles_foldEach _ _ fun user huser tally s₁ hrounds _ => ?_
        have hpos : precisionStake s.rounds round.roundId user > 0 := by
          have := hbook.stake_pos huser
          rwa [hmode] at this
        simp only [ensures_bind, ensures_gets, hrounds, ensures_onlyIf, hpos, not_true,
          false_implies, and_true, true_implies, ensures_pure]
        have hcredit := @creditOutcome_spec _ _ env s₁ round.roundId
          (s.rounds.outcomeRecord .precision round.roundId 0 user
            (s.rounds.stakeOf .precision round.roundId user) .void)
          (by simp [UserRoundOutcome.counts])
        simp only [creditOutcome, ensures_bind] at hcredit
        exact hcredit.mono fun _ _ h => h.mono fun _ _ h => ⟨rfl, h⟩
      refine hloop.mono ?_
      rintro tally s' ⟨hfold, hsettles⟩
      refine ⟨htally tally (by rwa [List.foldlM_map]), ?_⟩
      rw [Rounds.refundRecords, hmode, List.map_eq_flatMap]
      exact hsettles

/-- Paying the coverage of an eligible cancellation takes what the fund pays out of it and
credits the shares. -/
theorem payCoverage_spec {round : Round} {reason : ℕ} {s₁ : Storage A}
    (hbook : Represents s.rounds round) (heligible : s.control.settings.isCoverageEligible reason)
    (hcontrol : s₁.control = s.control)
    (hfund : s₁.vault.insuranceFund = s.vault.insuranceFund) :
    Ensures (payCoverage (s.rounds.participants round.roundId)
        ((s.rounds.participants round.roundId).map (s.rounds.stakeOf round.mode round.roundId),
          s.rounds.totalStake round.mode round.roundId)) env s₁ fun _ s' =>
      s' = { s₁ with
        vault := (s₁.vault.payFromFund (s.coveragePaid ⟨round, .cancelled reason⟩)).creditAll
          env.ledger.sequence (s.coverageCredits ⟨round, .cancelled reason⟩) } := by
  have hbps : 0 < s₁.control.settings.insuranceCoverageBps := by
    rw [hcontrol]
    simp only [Settings.isCoverageEligible, Bool.and_eq_true, decide_eq_true_eq] at heligible
    exact heligible.2
  have hpaid : s.coveragePaid ⟨round, .cancelled reason⟩ =
      max 0 (min (s.coverageRequested round) s.vault.insuranceFund) := by
    simp [Storage.coveragePaid, Ending.isCovered, heligible]
  have hnone : s.coveragePaid ⟨round, .cancelled reason⟩ = 0 →
      s.coverageCredits ⟨round, .cancelled reason⟩ = [] := coverageCredits_eq_nil
  have hstakes : ∀ user ∈ s.rounds.participants round.roundId,
      0 < s.rounds.stakeOf round.mode round.roundId user := fun user huser =>
    hbook.stake_pos huser
  unfold payCoverage
  refine (totalCoverage_spec (fun x hx => ?_) hbps).bind ?_
  · obtain ⟨user, hmem, rfl⟩ := List.mem_map.mp hx
    exact hstakes user hmem
  rintro requested s₂ ⟨rfl, rfl⟩
  have hrequested : (((s.rounds.participants round.roundId).map
      (s.rounds.stakeOf round.mode round.roundId)).map
      s₂.control.settings.coverageOfStake).sum = s.coverageRequested round := by
    rw [hcontrol, List.map_map]
    rfl
  rw [hrequested]
  simp only [ensures_onlyIf, ensures_bind]
  constructor
  · intro hpos
    refine (deductInsuranceCoverage_spec _).mono ?_
    rintro distributed s₃ ⟨hdistributed, rfl⟩
    rw [hfund, ← hpaid] at hdistributed
    subst hdistributed
    constructor
    · rintro ⟨hpaidPos, htotal⟩
      exact distributeCoverage_spec hstakes hpaidPos.le
    · intro hnot
      have hempty : s.coverageCredits ⟨round, .cancelled reason⟩ = [] := by
        by_cases hzero : s.coveragePaid ⟨round, .cancelled reason⟩ = 0
        · exact hnone hzero
        · have hpaidPos : s.coveragePaid ⟨round, .cancelled reason⟩ > 0 := by
            have : 0 ≤ s.coveragePaid ⟨round, .cancelled reason⟩ := hpaid ▸ le_max_left _ _
            omega
          have hnobody : s.rounds.participants round.roundId = [] := by
            by_contra hne
            exact hnot ⟨hpaidPos, hbook.totalStake_pos hne⟩
          simp [Storage.coverageCredits, hnobody]
      simp [hempty]
  · intro hneg
    have hmin : min (s.coverageRequested round) s.vault.insuranceFund ≤ 0 :=
      (min_le_left _ _).trans (not_lt.mp hneg)
    have hzero : s.coveragePaid ⟨round, .cancelled reason⟩ = 0 := by
      rw [hpaid]
      exact max_eq_left hmin
    simp [hnone hzero, hzero, Vault.payFromFund]

/-- A cancellation refunds the active round, pays the coverage of an eligible reason and closes
the round. -/
theorem cancelRound_spec {round : Round} (hactive : s.rounds.activeRound = some round)
    (hbook : Represents s.rounds round)
    (hfits : s.rounds.totalStake round.mode round.roundId ≤ i128Max) (reason : ℕ) :
    Ensures (cancelRound reason) env s fun _ s' =>
      Ends env.ledger.sequence ⟨round, .cancelled reason⟩ s s' := by
  simp only [cancelRound, ensures_bind, ensures_onControl, requireSupportedSchema, ensures_gets,
    ensures_reject, ensures_pure, authorizedAdmin, readActiveRound, ensures_orError,
    ensures_requireAuth, hactive, Option.some.injEq]
  rintro - _ - - _ rfl
  refine (cancelStakes_spec hbook hfits).mono ?_
  rintro tally s₁ ⟨rfl, hsettles⟩
  have hrounds : s₁.rounds = s.rounds := hsettles.rounds
  have hcontrol : s₁.control = s.control := hsettles.control
  have hfund : s₁.vault.insuranceFund = s.vault.insuranceFund := by
    rw [hsettles.vault]
    simp
  have hclose : ∀ vault, s₁.vault = s.vault.creditAll env.ledger.sequence
        (creditsOf (s.rounds.refundRecords round (fun _ => 0) .void
          (s.rounds.participants round.roundId))) →
      vault = (s₁.vault.payFromFund (s.coveragePaid ⟨round, .cancelled reason⟩)).creditAll
        env.ledger.sequence (s.coverageCredits ⟨round, .cancelled reason⟩) →
      Ensures (do
        updateRounds (·.clearRoundStorage round.roundId (s.rounds.participants round.roundId))
        archiveRound round .cancelled 0 (s.rounds.participants round.roundId) 0 none
        updateRounds fun rounds =>
          { rounds with roundParticipants := rounds.roundParticipants.remove round.roundId }
        update fun s =>
          { s with archive :=
            { s.archive with
              cancelledRound := s.archive.cancelledRound.set round.roundId true } }
        updateRounds (·.removeActiveRound)) env { s₁ with vault := vault } fun _ s' =>
          Ends env.ledger.sequence ⟨round, .cancelled reason⟩ s s' := by
    rintro vault hvault rfl
    simp only [ensures_bind, ensures_updateRounds, hrounds, clearRoundStorage_eq]
    refine (archiveRound_spec _ _ _ _ _ _).mono ?_
    rintro _ s₂ ⟨archive, events, rfl⟩
    simp only [ensures_update]
    constructor
    · simp only [hvault]
      rfl
    · exact hsettles.outcomes
    · simp [Rounds.removeActiveRound, Ending.roundsAfter, Rounds.close]
    · exact hsettles.stats
  simp only [ensures_bind] at hclose
  simp only [ensures_onlyIf]
  constructor
  · rintro ⟨heligible, -⟩
    refine (@payCoverage_spec _ _ _ _ _ reason _ hbook heligible hcontrol hfund).mono ?_
    rintro _ s₂ rfl
    exact hclose _ hsettles.vault rfl
  · intro hnot
    refine hclose s₁.vault hsettles.vault ?_
    have hzero : s.coveragePaid ⟨round, .cancelled reason⟩ = 0 := by
      by_cases heligible : s.control.settings.isCoverageEligible reason = true
      · have hnobody : s.rounds.participants round.roundId = [] := by
          by_contra hne
          exact hnot ⟨heligible, by simpa using hne⟩
        have hmin : min (s.coverageRequested round) s.vault.insuranceFund ≤ 0 :=
          (min_le_left _ _).trans (by simp [Storage.coverageRequested, hnobody])
        unfold Storage.coveragePaid Ending.isCovered
        rw [if_pos heligible]
        exact max_eq_left hmin
      · simp [Storage.coveragePaid, Ending.isCovered, heligible]
    rw [coverageCredits_eq_nil hzero, hzero]
    rfl

end LinearAddress

end XelmaMarket
