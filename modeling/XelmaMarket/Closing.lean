import XelmaMarket.Archive
import XelmaMarket.Settling

/-!
# Endings that get through

A settlement at a price, a refund, a void and a cancellation with its coverage get through when the
arithmetic of the round is in range and its plan can be settled. What else can go wrong is a vector
at its largest length.
-/

namespace XelmaMarket

open Transaction

variable {A : Type} [LinearOrder A] {permitted : Failure → Prop} {env : Env A}
  {s s' : Storage A}

/-! ## Ending a round -/

section Archive

/-- There is room for a round in the archive: no vector it is appended to is full, if a trap is not
permitted. -/
def Archive.HasRoom [DecidableEq A] (permitted : Failure → Prop) (archive : Archive A)
    (participants : List A) : Prop :=
  permitted .trap ∨
    participants.Nodup ∧ archive.ids.length < maxVecLength ∧
      ∀ user ∈ participants, (archive.userArchivedRoundIds.getD user []).length < maxVecLength

omit [LinearOrder A] in
/-- Indexing the participants fails only at a full vector. -/
theorem failsOnly_indexParticipants [DecidableEq A] (roundId : ℕ) {participants : List A}
    (hroom : s.archive.HasRoom permitted participants) :
    FailsOnly permitted (indexParticipants roundId participants) env s fun _ s' =>
      s'.archive.ids = s.archive.ids := by
  induction participants generalizing s with
  | nil => exact rfl
  | cons user rest ih =>
      simp only [indexParticipants, forEach, failsOnly_bind, failsOnly_gets, failsOnly_pushBack,
        failsOnly_update]
      refine ⟨fun hfull => hroom.resolve_right fun h => ?_, fun _ => ?_⟩
      · exact absurd (h.2.2 user List.mem_cons_self) (not_lt.mpr hfull)
      · refine FailsOnly.mono (ih ?_) fun _ s₁ hids => hids
        refine hroom.imp_right ?_
        rintro ⟨hnodup, hids, hindexes⟩
        obtain ⟨hfresh, hnodup⟩ := List.nodup_cons.mp hnodup
        refine ⟨hnodup, hids, fun other hother => ?_⟩
        have hdiffer : other ≠ user := fun hsame => hfresh (hsame ▸ hother)
        simp only [Store.getD, Store.get_set_of_ne _ _ hdiffer]
        exact hindexes other (List.mem_cons_of_mem _ hother)

omit [LinearOrder A] in
/-- Archiving a round fails only at a full vector. -/
theorem failsOnly_archiveRound [DecidableEq A] (round : Round) (status : RoundArchiveStatus)
    (finalPrice : ℕ) {participants : List A} (feeAmount : ℤ) (confidence : Option ℕ)
    (hroom : s.archive.HasRoom permitted participants) :
    FailsOnly permitted (archiveRound round status finalPrice participants feeAmount confidence)
      env s fun _ _ => True := by
  simp only [archiveRound, failsOnly_bind, failsOnly_ledgerSequence]
  refine FailsOnly.mono (failsOnly_indexParticipants _ hroom) fun _ s₁ hids => ?_
  simp only [failsOnly_update, failsOnly_gets, failsOnly_pushBack]
  refine ⟨fun hfull => hroom.resolve_right fun h => ?_, fun _ => trivial⟩
  have hshort := h.2.1
  rw [← hids] at hshort
  exact absurd hshort (not_lt.mpr hfull)

end Archive

section Endings

variable {round : Round} {finalPrice : ℕ}

/-- A settlement in either mode returns when its arithmetic is in range and its plan can be
settled. -/
theorem failsOnly_settleMode (hready : FeeReady s) (hbook : Represents s.rounds round)
    (hcap : FeeCapped s.control.settings.protocolFeeBps)
    (hlimit : (s.control.settings.terms.plan s.rounds round finalPrice).fee ≤ supplyLimit)
    (hcomputes : Computes s.control.settings.terms s.rounds round finalPrice)
    (hcan : s.CanSettle permitted
      (s.control.settings.terms.plan s.rounds round finalPrice).records) :
    FailsOnly permitted (settleMode round finalPrice) env s fun _ _ => True := by
  unfold settleMode
  unfold Terms.plan at hlimit hcan
  unfold Computes at hcomputes
  cases hmode : round.mode with
  | upDown =>
      simp only [hmode] at hlimit hcomputes hcan
      rw [failsOnly_map]
      exact failsOnly_resolveUpdownMode hready hbook hmode hcap hlimit hcomputes hcan
  | precision =>
      simp only [hmode] at hlimit hcomputes hcan
      rw [failsOnly_map]
      exact failsOnly_resolvePrecisionMode hready hbook hmode hcap hlimit hcomputes hcan

/-- A settlement at a price is completed when its arithmetic is in range and its plan can be
settled. -/
theorem failsOnly_completeSettlement
    (harchive : s.archive.HasRoom permitted (s.rounds.participants round.roundId))
    (hready : FeeReady s) (hbook : Represents s.rounds round) (hcap : FeeCapped s.control.settings.protocolFeeBps)
    (hlimit : (s.control.settings.terms.plan s.rounds round finalPrice).fee ≤ supplyLimit)
    (hcomputes : Computes s.control.settings.terms s.rounds round finalPrice)
    (hcan : s.CanSettle permitted
      (s.control.settings.terms.plan s.rounds round finalPrice).records)
    (confidence : Option ℕ) :
    FailsOnly permitted (completeSettlement round finalPrice confidence) env s
      fun _ _ => True := by
  have hkeeps := (@ensures_same_archive _ env s _ (settleMode round finalPrice) _).and
    (settleMode_spec hbook hcap finalPrice)
  refine ((failsOnly_settleMode hready hbook hcap hlimit hcomputes hcan).and hkeeps).bind ?_
  rintro fee s₁ ⟨-, hsame, -, -, hexecutes⟩
  rw [← hsame, ← show s₁.rounds = s.rounds from hexecutes.rounds] at harchive
  simp only [failsOnly_bind, failsOnly_gets]
  refine FailsOnly.mono (failsOnly_archiveRound _ _ _ _ _ harchive) fun _ s₂ _ => ?_
  simp only [failsOnly_updateRounds, failsOnly_pure]

/-- A refund below the minimum of participants returns when there is room for the stakes. -/
theorem failsOnly_refundUnderThreshold (hbook : Represents s.rounds round)
    (hcan : s.CanSettle permitted (s.rounds.refundRecords round (fun _ => 0) .refund
      (s.rounds.participants round.roundId))) :
    FailsOnly permitted (refundUnderThreshold round (s.rounds.participants round.roundId)) env s
      fun _ _ => True := by
  have hadds : ∀ stakes : List ℤ, stakes.foldlM addNothing () = .ok () := by
    intro stakes
    induction stakes with
    | nil => rfl
    | cons stake rest ih => exact ih
  have hrefund : FailsOnly permitted
      (refundStakesUnderThreshold round (s.rounds.participants round.roundId)) env s
      fun _ _ => True := by
    unfold refundStakesUnderThreshold
    unfold Rounds.refundRecords at hcan
    cases hmode : round.mode with
    | upDown =>
        rw [hmode] at hcan
        exact FailsOnly.mono (failsOnly_refundPositions (by decide) (fun _ => 0)
          (fun user huser => (hbook.upDown hmode).position huser) (hadds _) hcan) fun _ _ _ => trivial
    | precision =>
        rw [hmode] at hcan
        refine FailsOnly.mono (failsOnly_refundPredictions (by decide) (fun _ _ => 0)
          (fun user huser => ?_) (hadds _) hcan) fun _ _ _ => trivial
        have := hbook.stake_pos huser
        rwa [hmode] at this
  refine hrefund.bind fun _ s₁ _ => ?_
  rw [failsOnly_updateRounds]
  trivial

/-- A voided round is refunded when its stakes add up and there is room for them. -/
theorem failsOnly_voidStakes (hbook : Represents s.rounds round)
    (hfits : s.rounds.totalStake round.mode round.roundId ≤ i128Max)
    (hcan : s.CanSettle permitted (s.rounds.refundRecords round
      (revealedPrice s.rounds round.roundId) .void (s.rounds.participants round.roundId))) :
    FailsOnly permitted (voidStakes round.mode round.roundId
      (s.rounds.participants round.roundId)) env s fun _ _ => True := by
  have hadds := @foldlM_payoutAdd ((s.rounds.participants round.roundId).map
    (s.rounds.stakeOf round.mode round.roundId)) 0 le_rfl (fun amount hamount => by
      obtain ⟨user, hmem, rfl⟩ := List.mem_map.mp hamount
      exact (hbook.stake_pos hmem).le) (by rw [zero_add]; exact hfits)
  unfold voidStakes
  unfold Rounds.refundRecords at hcan
  cases hmode : round.mode with
  | upDown =>
      rw [hmode] at hcan hadds
      exact FailsOnly.mono (failsOnly_refundPositions (by decide) _
        (fun user huser => (hbook.upDown hmode).position huser) hadds hcan) fun _ _ _ => trivial
  | precision =>
      rw [hmode] at hcan hadds
      refine FailsOnly.mono (failsOnly_refundPredictions (by decide) _
        (fun user huser => ?_) hadds hcan) fun _ _ _ => trivial
      have := hbook.stake_pos huser
      rwa [hmode] at this

variable {roundId : ℕ} {pending : PendingDisputeSettlement}

section Staged

variable (harchive : s.archive.HasRoom permitted (s.rounds.participants pending.round.roundId))
  (hschema : FailsOnly permitted (onControl requireSupportedSchema) env s fun _ s' => s' = s)
  (hrunning : FailsOnly permitted (onControl ensureNotPaused) env s fun _ s' => s' = s)
  (hpending : s.rounds.pendingDisputes.get roundId = some pending)
  (hbook : Represents s.rounds pending.round)
include harchive hschema hrunning hpending hbook

/-- A staged round is voided when its stakes add up and there is room for them. -/
theorem failsOnly_voidRound (hid : pending.round.roundId = roundId)
    (hopen : permitted (.err .roundNotCancellable) ∨
      env.ledger.sequence < pending.deadlineLedger)
    (hfits : s.rounds.totalStake pending.round.mode pending.round.roundId ≤ i128Max)
    (hcan : s.CanSettle permitted (s.rounds.refundRecords pending.round
      (revealedPrice s.rounds pending.round.roundId) .void
        (s.rounds.participants pending.round.roundId))) :
    FailsOnly permitted (voidRound roundId) env s fun _ _ => True := by
  subst hid
  refine hschema.bind ?_
  rintro _ _ rfl
  refine hrunning.bind ?_
  rintro _ _ rfl
  simp only [readPendingDispute, failsOnly_bind, failsOnly_gets, failsOnly_orError, hpending,
    reduceCtorEq, false_implies, true_and, Option.some.injEq, forall_eq', failsOnly_ledgerSequence,
    failsOnly_reject]
  refine ⟨fun hclosed => hopen.resolve_right (by omega), fun _ => ?_⟩
  refine FailsOnly.mono ((failsOnly_voidStakes hbook hfits hcan).and (ensures_same_archive _))
    fun _ s₁ hsame => ?_
  rw [← hsame.2] at harchive
  refine FailsOnly.mono (failsOnly_archiveRound _ _ _ _ _ harchive) fun _ s₂ _ => ?_
  simp only [removePendingDispute, failsOnly_updateRounds]

end Staged

end Endings

/-! ## Cancelling -/

section Cancel

variable {round : Round} {reason : ℕ}

/-- A cancelled round is refunded when there is room for the stakes. -/
theorem failsOnly_cancelStakes (hbook : Represents s.rounds round)
    (hcan : s.CanSettle permitted (s.rounds.refundRecords round (fun _ => 0) .void
      (s.rounds.participants round.roundId))) :
    FailsOnly permitted (cancelStakes round (s.rounds.participants round.roundId)) env s
      fun _ _ => True := by
  have hadds : ∀ (stakes : List ℤ) (tally : StakeTally), ∃ total,
      stakes.foldlM (fun tally stake => Except.ok (StakeTally.add tally stake)) tally =
        Except.ok (ε := Failure) total := by
    intro stakes
    induction stakes with
    | nil => exact fun tally => ⟨tally, rfl⟩
    | cons stake rest ih => exact fun tally => ih _
  unfold cancelStakes
  unfold Rounds.refundRecords at hcan
  cases hmode : round.mode with
  | upDown =>
      rw [hmode] at hcan
      obtain ⟨total, htotal⟩ := hadds ((s.rounds.participants round.roundId).map
        (s.rounds.stakeOf .upDown round.roundId)) ([], 0)
      exact FailsOnly.mono (failsOnly_refundPositions (by decide) (fun _ => 0)
        (fun user huser => (hbook.upDown hmode).position huser) htotal hcan) fun _ _ _ => trivial
  | precision =>
      rw [hmode, List.map_eq_flatMap] at hcan
      obtain ⟨total, htotal⟩ := hadds ((s.rounds.participants round.roundId).map
        (s.rounds.stakeOf .precision round.roundId)) ([], 0)
      rw [List.foldlM_map] at htotal
      refine FailsOnly.mono (@failsOnly_foldEach_settles _ _ _ _ _ env.ledger.sequence
        round.roundId _ _ _ _ _ _ _ (fun user hmem acc next s₁ hrounds _ hroom hnext => ?_) hcan _
        htotal) fun _ _ _ => trivial
      have hpos : precisionStake s.rounds round.roundId user > 0 := by
        have := hbook.stake_pos hmem
        rwa [hmode] at this
      have hcredit := @failsOnly_creditOutcome _ _ permitted env s₁ round.roundId
        (s.rounds.outcomeRecord .precision round.roundId 0 user
          (s.rounds.stakeOf .precision round.roundId user) .void) hroom
        (by simp [UserRoundOutcome.counts])
      simp only [creditOutcome, failsOnly_bind] at hcredit
      simp only [failsOnly_bind, failsOnly_gets, hrounds, failsOnly_onlyIf, hpos, not_true,
        false_implies, and_true, true_implies, failsOnly_pure]
      refine hcredit.mono fun _ s₂ h => h.mono fun _ s₃ hsettles => ?_
      exact ⟨Except.ok.inj hnext, hsettles⟩

omit [LinearOrder A] in
/-- The coverage the stakes ask for adds up when they fit together. -/
theorem failsOnly_totalCoverage {stakes : List ℤ} (hstakes : ∀ stake ∈ stakes, 0 ≤ stake)
    (hrate : s.control.settings.insuranceCoverageBps ≤ maxInsuranceCoverageBps)
    (hfits : stakes.sum ≤ supplyLimit) :
    FailsOnly permitted (totalCoverage stakes) env s fun _ s' => s' = s := by
  have hbps : (s.control.settings.insuranceCoverageBps : ℤ) ≤ 10000 := by exact_mod_cast hrate
  have hroom : supplyLimit * 10000 ≤ i128Max := by decide
  suffices h : ∀ start, 0 ≤ start → start + stakes.sum ≤ supplyLimit →
      FailsOnly permitted (foldEach stakes start fun total stake => do
        let coverage ← calculateCoverageAmount stake
        let extended ← payoutAdd total coverage
        return extended) env s fun _ s' => s' = s by
    exact h 0 le_rfl (by omega)
  clear hfits
  induction stakes with
  | nil => exact fun _ _ _ => rfl
  | cons stake rest ih =>
      intro start hstart hsum
      have hstake := hstakes stake List.mem_cons_self
      have hrest : ∀ other ∈ rest, 0 ≤ other :=
        fun other hmem => hstakes other (List.mem_cons_of_mem _ hmem)
      have hnonneg := List.sum_nonneg hrest
      rw [List.sum_cons] at hsum
      have hcoverage : FailsOnly permitted (calculateCoverageAmount stake) env s
          fun coverage s' => 0 ≤ coverage ∧ coverage ≤ stake ∧ s' = s := by
        have hproduct : 0 ≤ stake * (s.control.settings.insuranceCoverageBps : ℤ) :=
          mul_nonneg hstake (by omega)
        have hmul : stake * (s.control.settings.insuranceCoverageBps : ℤ) ≤ stake * 10000 :=
          mul_le_mul_of_nonneg_left hbps hstake
        have hrange : stake * (s.control.settings.insuranceCoverageBps : ℤ) ≤ i128Max := by omega
        simp only [calculateCoverageAmount, failsOnly_bind, failsOnly_gets, failsOnly_ite,
          failsOnly_pure, failsOnly_liftM, checked_of_fits hproduct hrange, yields_ok,
          divide_of_fits hproduct hrange (show 0 < bpsDenominator by decide)]
        refine ⟨fun _ => ⟨le_rfl, hstake, trivial⟩, fun _ => ⟨?_, ?_, trivial⟩⟩
        · exact Int.ediv_nonneg hproduct (by decide)
        · unfold bpsDenominator
          omega
      simp only [foldEach, failsOnly_bind]
      refine hcoverage.mono ?_
      rintro coverage _ ⟨hpos, hle, rfl⟩
      have hadd : payoutAdd start coverage = .ok (start + coverage) :=
        payoutAdd_of_fits (by omega) (by omega)
      rw [failsOnly_liftM, hadd, yields_ok]
      exact ih hrest (start + coverage) (by omega) (by omega)

omit [LinearOrder A] in
/-- The fund pays what is asked for, as far as it goes. -/
theorem failsOnly_deductInsuranceCoverage {requested : ℤ}
    (hfund : s.vault.insuranceFund ≤ i128Max) :
    FailsOnly permitted (deductInsuranceCoverage requested) env s fun distributed s' =>
      distributed = max 0 (min requested s.vault.insuranceFund) ∧
      s' = { s with vault := s.vault.payFromFund distributed } := by
  refine FailsOnly.ensuring ?_ (deductInsuranceCoverage_spec requested)
  simp only [deductInsuranceCoverage, failsOnly_bind, failsOnly_gets, failsOnly_ite,
    failsOnly_pure, failsOnly_liftM, setInsuranceFund, failsOnly_updateVault]
  refine ⟨fun _ => trivial, fun hpays => ?_⟩
  have hmin : 0 < min requested s.vault.insuranceFund := by
    rw [lt_min_iff]
    omega
  have hle := min_le_right requested s.vault.insuranceFund
  rw [checked_of_fits (by omega) (by omega), yields_ok]
  trivial

/-- The loop rule for plain credits. -/
theorem failsOnly_forEach_credits {α : Type} {items : List α} {body : α → ContractM A PUnit}
    (credits : α → List (A × ℤ))
    (hbody : ∀ a ∈ items, ∀ s : Storage A, s.HasRoom permitted (credits a) →
      FailsOnly permitted (body a) env s fun _ s' =>
        s' = { s with vault := s.vault.creditAll env.ledger.sequence (credits a) })
    (hroom : s.HasRoom permitted (items.flatMap credits)) :
    FailsOnly permitted (forEach items body) env s fun _ _ => True := by
  induction items generalizing s with
  | nil => trivial
  | cons a rest ih =>
      rw [List.flatMap_cons] at hroom
      refine (hbody a List.mem_cons_self s hroom.take).bind ?_
      rintro _ s₁ rfl
      exact ih (fun b hmem => hbody b (List.mem_cons_of_mem _ hmem)) (hroom.after rfl rfl)

/-- The coverage is distributed when the products fit and there is room for the shares. -/
theorem failsOnly_distributeCoverage {participants : List A} {stake : A → ℤ}
    {distributed total : ℤ} (hstake : ∀ user ∈ participants, 0 < stake user)
    (hdistributed : 0 ≤ distributed) (htotal : 0 < total)
    (hproducts : ∀ user ∈ participants, distributed * stake user ≤ i128Max)
    (hroom : s.HasRoom permitted ((participants.map fun user =>
      (user, Apportion.share distributed total (stake user))).filter
        fun credit => 0 < credit.2)) :
    FailsOnly permitted (distributeCoverage participants (participants.map stake, total)
      distributed) env s fun _ _ => True := by
  rw [← shareCredits_eq] at hroom
  refine failsOnly_forEach_credits _ (fun entry hentry s₁ hroom => ?_) hroom
  have huser := List.fst_mem_of_mem_zipIdx hentry
  have hamount : (participants.map stake).getD entry.2 0 = stake entry.1 :=
    getD_map_of_mem_zipIdx hentry stake 0
  have hproduct : 0 ≤ distributed * stake entry.1 := mul_nonneg hdistributed (hstake _ huser).le
  have hshare : distributed * stake entry.1 / total =
      Apportion.share distributed total (stake entry.1) := by
    rw [mul_comm]
    rfl
  simp only [hamount, failsOnly_onlyIf, hstake _ huser, gt_iff_lt, true_implies, not_true,
    false_implies, and_true, failsOnly_bind, failsOnly_liftM,
    checked_of_fits hproduct (hproducts _ huser), yields_ok,
    divide_of_fits hproduct (hproducts _ huser) htotal, hshare]
  constructor
  · intro hpos
    rw [if_pos hpos] at hroom ⊢
    exact failsOnly_accumulatePending hroom
  · intro hzero
    simp [hzero]

/-- The coverage of an eligible cancellation is paid when its arithmetic is in range and there is
room for its credits. -/
theorem failsOnly_payCoverage {s₁ : Storage A} (hbook : Represents s.rounds round)
    (heligible : s.control.settings.isCoverageEligible reason)
    (hcontrol : s₁.control = s.control)
    (hfund : s₁.vault.insuranceFund = s.vault.insuranceFund)
    (hrate : s.control.settings.insuranceCoverageBps ≤ maxInsuranceCoverageBps)
    (hfits : s.rounds.totalStake round.mode round.roundId ≤ supplyLimit)
    (hlimit : s.vault.insuranceFund ≤ i128Max)
    (hproducts : ∀ user ∈ s.rounds.participants round.roundId,
      s.coveragePaid ⟨round, .cancelled reason⟩ *
        s.rounds.stakeOf round.mode round.roundId user ≤ i128Max)
    (hroom : s₁.HasRoom permitted (s.coverageCredits ⟨round, .cancelled reason⟩)) :
    FailsOnly permitted (payCoverage (s.rounds.participants round.roundId)
        ((s.rounds.participants round.roundId).map (s.rounds.stakeOf round.mode round.roundId),
          s.rounds.totalStake round.mode round.roundId)) env s₁ fun _ _ => True := by
  have hstakes : ∀ user ∈ s.rounds.participants round.roundId,
      0 < s.rounds.stakeOf round.mode round.roundId user := fun user huser =>
    hbook.stake_pos huser
  have hbps : 0 < s₁.control.settings.insuranceCoverageBps := by
    rw [hcontrol]
    simp only [Settings.isCoverageEligible, Bool.and_eq_true, decide_eq_true_eq] at heligible
    exact heligible.2
  have hpaid : s.coveragePaid ⟨round, .cancelled reason⟩ =
      max 0 (min (s.coverageRequested round) s.vault.insuranceFund) := by
    simp [Storage.coveragePaid, Ending.isCovered, heligible]
  have htotal : FailsOnly permitted (totalCoverage ((s.rounds.participants round.roundId).map
      (s.rounds.stakeOf round.mode round.roundId))) env s₁ fun _ s' => s' = s₁ := by
    refine failsOnly_totalCoverage (fun stake hstake => ?_) (by rwa [hcontrol]) hfits
    obtain ⟨user, hmem, rfl⟩ := List.mem_map.mp hstake
    exact (hstakes user hmem).le
  unfold payCoverage
  refine (htotal.and (totalCoverage_spec (fun stake hstake => ?_) hbps)).bind ?_
  · obtain ⟨user, hmem, rfl⟩ := List.mem_map.mp hstake
    exact hstakes user hmem
  rintro requested s₂ ⟨rfl, rfl, -⟩
  have hrequested : (((s.rounds.participants round.roundId).map
      (s.rounds.stakeOf round.mode round.roundId)).map
      s₂.control.settings.coverageOfStake).sum = s.coverageRequested round := by
    rw [hcontrol, List.map_map]
    rfl
  rw [hrequested]
  simp only [failsOnly_onlyIf, failsOnly_bind]
  refine ⟨fun _ => ?_, fun _ => trivial⟩
  refine FailsOnly.mono (failsOnly_deductInsuranceCoverage (by rwa [hfund])) ?_
  rintro distributed s₃ ⟨hdistributed, rfl⟩
  rw [hfund, ← hpaid] at hdistributed
  subst hdistributed
  refine ⟨fun hpositive => ?_, fun _ => trivial⟩
  obtain ⟨hpaidPos, htotalPos⟩ := hpositive
  refine failsOnly_distributeCoverage hstakes hpaidPos.le htotalPos hproducts ?_
  refine ⟨hroom.nonneg, fun user => ?_, fun user => ?_, hroom.capped.imp_right
    fun hcapped cap hcap user huser => ?_⟩
  all_goals rw [show ∀ vault : Vault A, ∀ amount, (vault.payFromFund amount).pendingOf user =
    vault.pendingOf user from fun vault amount => by unfold Vault.payFromFund; split <;> rfl]
  · exact hroom.pending user
  · exact hroom.fits user
  · exact hcapped cap hcap user huser

omit [LinearOrder A] in
/-- The records of a refund are not counted and credit the participants, who are distinct. -/
theorem Storage.HasRoom.canSettle_void [LinearOrder A] (hbook : Represents s.rounds round)
    {price : A → ℕ} (hroom : s.HasRoom permitted (creditsOf (s.rounds.refundRecords round price
      .void (s.rounds.participants round.roundId)))) :
    s.CanSettle permitted (s.rounds.refundRecords round price .void
      (s.rounds.participants round.roundId)) where
  room := hroom
  distinct := by
    rw [Rounds.refundRecords, List.map_map]
    simpa [Function.comp_def] using hbook.nodup
  counts record hmem hcounts := by
    have houtcome := (mem_refundRecords hmem).1
    rw [UserRoundOutcome.counts, houtcome] at hcounts
    simp at hcounts

/-- A cancellation gets through when its stakes and the products of its coverage are in range and
there is room for its refunds and its coverage. -/
theorem failsOnly_cancelRound
    (harchive : s.archive.HasRoom permitted (s.rounds.participants round.roundId))
    (hschema : FailsOnly permitted (onControl requireSupportedSchema) env s fun _ s' => s' = s)
    (hadmin : FailsOnly permitted (onControl authorizedAdmin) env s fun _ s' => s' = s)
    (hactive : s.rounds.activeRound = some round) (hbook : Represents s.rounds round)
    (hrate : s.control.settings.insuranceCoverageBps ≤ maxInsuranceCoverageBps)
    (hfits : s.rounds.totalStake round.mode round.roundId ≤ supplyLimit)
    (hlimit : s.vault.insuranceFund ≤ i128Max)
    (hproducts : ∀ user ∈ s.rounds.participants round.roundId,
      s.coveragePaid ⟨round, .cancelled reason⟩ *
        s.rounds.stakeOf round.mode round.roundId user ≤ i128Max)
    (hroom : s.HasRoom permitted (creditsOf (s.rounds.refundRecords round (fun _ => 0) .void
      (s.rounds.participants round.roundId)) ++ s.coverageCredits ⟨round, .cancelled reason⟩)) :
    FailsOnly permitted (cancelRound reason) env s fun _ _ => True := by
  refine hschema.bind fun _ s₁ hsame => ?_
  rw [hsame]
  refine hadmin.bind fun _ s₂ hsame => ?_
  rw [hsame]
  simp only [readActiveRound, failsOnly_bind, failsOnly_gets, failsOnly_orError, hactive,
    reduceCtorEq, false_implies, true_and, Option.some.injEq, forall_eq']
  refine ((failsOnly_cancelStakes hbook (hroom.take.canSettle_void hbook)).and
    ((cancelStakes_spec hbook (hfits.trans (by decide))).and (ensures_same_archive _))).mono ?_
  rintro tally s₁ ⟨-, ⟨rfl, hsettles⟩, hsame⟩
  have hclose : ∀ s₂ : Storage A, s₂.archive = s.archive → FailsOnly permitted (do
      updateRounds (·.clearRoundStorage round.roundId (s.rounds.participants round.roundId))
      archiveRound round .cancelled 0 (s.rounds.participants round.roundId) 0 none
      updateRounds fun rounds =>
        { rounds with roundParticipants := rounds.roundParticipants.remove round.roundId }
      update fun s =>
        { s with archive :=
          { s.archive with
            cancelledRound := s.archive.cancelledRound.set round.roundId true } }
      updateRounds (·.removeActiveRound)) env s₂ fun _ _ => True := by
    intro s₂ hsame
    rw [← hsame] at harchive
    simp only [failsOnly_bind, failsOnly_updateRounds]
    refine FailsOnly.mono (failsOnly_archiveRound _ _ _ _ _ harchive) fun _ s₃ _ => ?_
    simp only [failsOnly_update]
  simp only [failsOnly_bind] at hclose
  simp only [failsOnly_onlyIf]
  refine ⟨fun hcovered => ?_, fun _ => hclose s₁ hsame⟩
  have heligible := hcovered.1
  have hfund : s₁.vault.insuranceFund = s.vault.insuranceFund := by
    rw [hsettles.vault]
    simp
  refine FailsOnly.mono ((failsOnly_payCoverage hbook heligible hsettles.control hfund hrate hfits
    hlimit hproducts (hroom.after hsettles.control hsettles.vault)).and (ensures_same_archive _))
    fun _ s₂ hpaid => hclose s₂ (hpaid.2.trans hsame)

end Cancel

end XelmaMarket
