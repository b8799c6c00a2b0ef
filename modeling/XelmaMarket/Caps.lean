import XelmaMarket.Lib.Follows
import XelmaMarket.Custody
import XelmaMarket.Timelock

/-!
# The cap on pending winnings

Every credit is checked against the cap in force, so a call that raises a user's pending winnings
leaves them within it. What was pending before the cap was lowered may stay above it, and then the
user cannot be credited at all.
-/

namespace XelmaMarket

open Transaction

variable {A : Type}

/-! ## Credits within the cap -/

/-- The cap stays as it is, and pending winnings that change end within it. -/
structure Storage.CapKept [DecidableEq A] (s s' : Storage A) : Prop where
  cap : s'.control.settings.maxPendingWinnings = s.control.settings.maxPendingWinnings
  pending : ∀ cap, s.control.settings.maxPendingWinnings = some cap → ∀ user,
    s'.vault.pendingOf user = s.vault.pendingOf user ∨ s'.vault.pendingOf user ≤ cap

/-- What the cap is about: its value and the pending winnings. -/
def Storage.capView (s : Storage A) : Option ℤ × Store A ℤ :=
  (s.control.settings.maxPendingWinnings, s.vault.pendingWinnings)

section CapKept

variable [DecidableEq A] {α : Type} {s s' : Storage A}

theorem Storage.CapKept.of_view (hview : s'.capView = s.capView) : s.CapKept s' := by
  obtain ⟨hcap, hpending⟩ := Prod.mk.inj hview
  refine ⟨hcap, fun _ _ user => .inl ?_⟩
  unfold Vault.pendingOf
  rw [hpending]

instance : IsPreorder (Storage A) Storage.CapKept where
  refl _ := .of_view rfl
  trans first middle last hfirst hlast := by
    refine ⟨hlast.cap.trans hfirst.cap, fun cap hcap user => ?_⟩
    rcases hlast.pending cap (hfirst.cap.trans hcap) user with hsame | hbelow
    · rw [hsame]
      exact hfirst.pending cap hcap user
    · exact .inr hbelow

/-- What leaves the cap and the pending winnings alone. -/
theorem follows_of_keeps (m : ContractM A α) [hkeeps : Keeps Storage.capView m] :
    Follows Storage.CapKept m :=
  .of_keeps hkeeps fun _ _ => .of_view

instance (m : ControlM A α) [Keeps id m] : Follows Storage.CapKept (onControl m) :=
  follows_of_keeps _

instance (m : StatsM A α) : Follows Storage.CapKept (onStats m) :=
  have : Keeps (fun _ => PUnit.unit) m := ⟨fun _ _ _ _ _ => rfl⟩
  .of_keeps (@Keeps.of_zoom _ _ _ _ _ _ _ _ Storage.capView (fun _ => PUnit.unit) _ _
    fun _ _ _ => rfl) fun _ _ => .of_view

instance (f : Rounds A → Rounds A) : Follows Storage.CapKept (updateRounds f) :=
  .of_update fun _ => .of_view rfl

instance (condition : Prop) [Decidable condition] (error : ContractError) :
    Follows Storage.CapKept (reject condition error : ContractM A PUnit) :=
  inferInstanceAs (Follows _ (failIf condition (Failure.err error)))

instance (value : Option α) (error : ContractError) :
    Follows Storage.CapKept (orError value error : ContractM A α) :=
  inferInstanceAs (Follows _ (orFail value (Failure.err error)))

instance : Follows Storage.CapKept (ledgerSequence : ContractM A ℕ) :=
  inferInstanceAs (Follows _ (asks _))

instance (address : A) : Follows Storage.CapKept (requireAuth address : ContractM A PUnit) :=
  ⟨fun env s => (@ensures_requireAuth _ _ env s _ address _).mpr fun _ => .of_view rfl⟩

/-- A credit ends within the cap. -/
instance (user : A) (amount : ℤ) : Follows Storage.CapKept (accumulatePending user amount) := by
  refine ⟨fun env s => ?_⟩
  simp only [accumulatePending, ensures_bind, ensures_gets, ensures_liftM, payoutAdd_eq_ok,
    ensures_onSome, ensures_reject, ensures_ledgerSequence, ensures_updateVault]
  rintro total ⟨rfl, -, -⟩
  have hcredited : ∀ other, other ≠ user →
      Store.getD (s.vault.pendingWinnings.set user (s.vault.pendingOf user + amount)) other 0 =
        s.vault.pendingOf other := fun other hother => by
    simp [Store.getD, Store.get_set_of_ne _ _ hother, Vault.pendingOf]
  refine ⟨fun cap hcap hbelow => ⟨rfl, fun other hother user' => ?_⟩, fun hnone => ⟨rfl, ?_⟩⟩
  · obtain rfl := Option.some.inj (hcap.symm.trans hother)
    by_cases huser : user' = user
    · subst huser
      right
      simpa [Vault.pendingOf, Store.getD] using not_lt.mp hbelow
    · exact .inl (hcredited user' huser)
  · intro cap hcap
    rw [hnone] at hcap
    cases hcap

instance (roundId : ℕ) (record : UserRoundOutcome A) :
    Follows Storage.CapKept (persistUserOutcome roundId record) := by
  have : Follows Storage.CapKept (update fun s : Storage A =>
      { s with userRoundOutcome := s.userRoundOutcome.set (roundId, record.user) record } :
      ContractM A PUnit) := .of_update fun _ => .of_view rfl
  unfold persistUserOutcome
  infer_instance

instance (roundId : ℕ) (record : UserRoundOutcome A) :
    Follows Storage.CapKept (creditOutcome roundId record) := by
  unfold creditOutcome
  infer_instance

/-- Collecting a fee leaves what is pending alone. -/
instance (fee : ℤ) : Follows Storage.CapKept (collectProtocolFee fee : ContractM A PUnit) := by
  have : ∀ value, Keeps Storage.capView (setInsuranceFund value : ContractM A PUnit) :=
    fun _ => .of_update fun _ => rfl
  have : ∀ value, Keeps Storage.capView (setTreasury value : ContractM A PUnit) :=
    fun _ => .of_update fun _ => rfl
  have : Keeps Storage.capView (readTreasury : ContractM A ℤ) := by
    have : ∀ entry : Option (TreasuryEntry A), Keeps Storage.capView
        (match entry with
          | none => pure 0
          | some (.amount value) => pure value
          | some (.address _) => fail .trap : ContractM A ℤ) := by
      intro entry
      split <;> infer_instance
    unfold readTreasury
    infer_instance
  have : Keeps Storage.capView (collectInsuranceFee fee : ContractM A ℤ) := by
    unfold collectInsuranceFee
    infer_instance
  have : Keeps Storage.capView (collectProtocolFee fee : ContractM A PUnit) := by
    unfold collectProtocolFee
    infer_instance
  exact follows_of_keeps _

end CapKept

/-! ## Settlements -/

section Settlements

variable [LinearOrder A]

instance (round : Round) (status : RoundArchiveStatus) (finalPrice : ℕ) (participants : List A)
    (fee : ℤ) (confidence : Option ℕ) : Follows Storage.CapKept
      (archiveRound round status finalPrice participants fee confidence) :=
  ⟨fun _ _ => (archiveRound_spec round status finalPrice participants fee confidence).mono
    fun _ _ ⟨_, _, hs'⟩ => hs' ▸ .of_view rfl⟩

instance {β : Type} (roundId : ℕ) (outcome : UserOutcomeType) (addUp : β → ℤ → Except Failure β)
    (initial : β) (participants : List A) : Follows Storage.CapKept
      (refundPositions roundId outcome addUp initial participants) := by
  unfold refundPositions
  have : ∀ (total : β) (user : A) (stored : Option UserPosition), Follows Storage.CapKept
      (match stored with
        | none => pure total
        | some position => do
            let extended ← addUp total position.amount
            creditOutcome roundId (upDownOutcome user position position.amount outcome)
            return extended : ContractM A β) := by
    intro total user stored
    split <;> infer_instance
  infer_instance

instance {β : Type} (roundId : ℕ) (outcome : UserOutcomeType) (price : Rounds A → A → ℕ)
    (addUp : β → ℤ → Except Failure β) (initial : β) (participants : List A) :
    Follows Storage.CapKept
      (refundPredictions roundId outcome price addUp initial participants) := by
  unfold refundPredictions
  infer_instance

instance (roundId : ℕ) (winningSide : BetSide) (winningPool totalDistributable : ℤ) (user : A) :
    Follows Storage.CapKept
      (recordWinning roundId winningSide winningPool totalDistributable user) := by
  unfold recordWinning
  infer_instance

instance (roundId : ℕ) (participants : List A) (winningSide : BetSide)
    (winningPool losingPool : ℤ) : Follows Storage.CapKept
      (recordWinningsIndexed roundId participants winningSide winningPool losingPool) := by
  unfold recordWinningsIndexed applyProtocolFeeUpdown
  infer_instance

instance (round : Round) (finalPrice : ℕ) :
    Follows Storage.CapKept (resolveUpdownMode round finalPrice : ContractM A _) := by
  have : ∀ (direction : PriceDirection) (participants : List A), Follows Storage.CapKept
      (match direction with
        | .unchanged => do
            recordRefundsIndexed round.roundId participants
            return (false, 0)
        | .up => do
            let feeAmount ← recordWinningsIndexed round.roundId participants .up
              round.poolUp round.poolDown
            return (false, feeAmount)
        | .down => do
            let feeAmount ← recordWinningsIndexed round.roundId participants .down
              round.poolDown round.poolUp
            return (false, feeAmount) : ContractM A (Bool × ℤ)) := by
    intro direction participants
    unfold recordRefundsIndexed
    cases direction <;> infer_instance
  have : ∀ (policy : OneSidedPolicy) (participants : List A),
      Follows Storage.CapKept (applyOneSidedPolicy round policy participants) := by
    intro policy participants
    unfold applyOneSidedPolicy recordRefundsIndexed
    cases policy <;> infer_instance
  unfold resolveUpdownMode
  dsimp only
  infer_instance

instance (roundId : ℕ) (winners : List (PrecisionPrediction A)) (payouts : List ℤ) :
    Follows Storage.CapKept (payPrecisionWinners roundId winners payouts) := by
  unfold payPrecisionWinners
  dsimp only
  infer_instance

instance (roundId : ℕ) (participants : List A) (scan : PrecisionScan A) :
    Follows Storage.CapKept (recordPrecisionLosers roundId participants scan) := by
  unfold recordPrecisionLosers
  infer_instance

instance (roundId : ℕ) (participants : List A) (scan : PrecisionScan A) :
    Follows Storage.CapKept (refundUnrevealed roundId participants scan) := by
  unfold refundUnrevealed
  dsimp only
  infer_instance

instance (totalPot winnerStakes : ℤ) : Follows Storage.CapKept
    (applyProtocolFeePrecision totalPot winnerStakes : ContractM A _) := by
  unfold applyProtocolFeePrecision
  infer_instance

instance (roundId finalPrice : ℕ) :
    Follows Storage.CapKept (resolvePrecisionMode roundId finalPrice : ContractM A _) := by
  unfold resolvePrecisionMode
  dsimp only
  repeat' first | infer_instance | split | refine .bind inferInstance fun _ => ?_

instance (round : Round) (finalPrice : ℕ) (confidence : Option ℕ) :
    Follows Storage.CapKept (completeSettlement round finalPrice confidence : ContractM A _) := by
  unfold completeSettlement settleMode
  refine .bind ?_ fun _ => inferInstance
  split <;> infer_instance

instance (round : Round) (finalPrice : ℕ) (confidence : Option ℕ) :
    Follows Storage.CapKept (settleRoundWithPrice round finalPrice confidence : ContractM A _) := by
  have : ∀ participants : List A,
      Follows Storage.CapKept (refundUnderThreshold round participants) := by
    intro participants
    unfold refundUnderThreshold refundStakesUnderThreshold
    cases round.mode <;> infer_instance
  unfold settleRoundWithPrice stageSettlement
  infer_instance

instance (roundId : ℕ) (error : ContractError) :
    Follows Storage.CapKept (readPendingDispute roundId error : ContractM A _) := by
  unfold readPendingDispute
  infer_instance

instance (roundId : ℕ) : Follows Storage.CapKept (voidRound roundId : ContractM A _) := by
  have : ∀ (mode : RoundMode) (participants : List A),
      Follows Storage.CapKept (voidStakes mode roundId participants) := by
    intro mode participants
    unfold voidStakes
    cases mode <;> infer_instance
  unfold voidRound removePendingDispute ensureNotPaused
  repeat first | infer_instance | refine .bind inferInstance fun _ => ?_

instance (roundId : ℕ) : Follows Storage.CapKept (finalizeRound roundId : ContractM A _) := by
  unfold finalizeRound removePendingDispute ensureNotPaused
  infer_instance

instance (participants : List A) (tally : StakeTally) :
    Follows Storage.CapKept (payCoverage participants tally) := by
  have : Follows Storage.CapKept (totalCoverage tally.1 : ContractM A ℤ) := by
    unfold totalCoverage calculateCoverageAmount
    infer_instance
  have : ∀ requested, Keeps Storage.capView (deductInsuranceCoverage requested : ContractM A ℤ) := by
    intro requested
    have : ∀ value, Keeps Storage.capView (setInsuranceFund value : ContractM A PUnit) :=
      fun _ => .of_update fun _ => rfl
    unfold deductInsuranceCoverage
    infer_instance
  have : ∀ requested, Follows Storage.CapKept (deductInsuranceCoverage requested : ContractM A ℤ) :=
    fun _ => follows_of_keeps _
  have : ∀ distributed, Follows Storage.CapKept
      (distributeCoverage participants tally distributed) := by
    intro distributed
    unfold distributeCoverage
    dsimp only
    infer_instance
  unfold payCoverage
  infer_instance

instance (error : ContractError) :
    Follows Storage.CapKept (readActiveRound error : ContractM A Round) := by
  unfold readActiveRound
  infer_instance

instance (reason : ℕ) : Follows Storage.CapKept (cancelRound reason : ContractM A _) := by
  have : ∀ roundId : ℕ, Follows Storage.CapKept (update fun s : Storage A =>
      { s with archive :=
        { s.archive with cancelledRound := s.archive.cancelledRound.set roundId true } }
      : ContractM A PUnit) :=
    fun _ => .of_update fun _ => .of_view rfl
  have : ∀ (round : Round) (participants : List A),
      Follows Storage.CapKept (cancelStakes round participants) := by
    intro round participants
    have : Follows Storage.CapKept (cancelPredictions round.roundId participants) := by
      unfold cancelPredictions
      infer_instance
    unfold cancelStakes
    cases round.mode <;> infer_instance
  unfold cancelRound
  repeat first | infer_instance | refine .bind inferInstance fun _ => ?_

instance (user : A) : Follows Storage.CapKept (cashOutEarly user) := by
  have : ∀ round, Follows Storage.CapKept (setActiveRound round : ContractM A PUnit) := by
    intro round
    unfold setActiveRound
    infer_instance
  unfold cashOutEarly ensureNormalMode
  dsimp only
  repeat first | infer_instance | refine .bind inferInstance fun _ => ?_

end Settlements

/-! ## Calls that credit -/

section Calls

variable [LinearOrder A] {env : Env A} {s s' : Storage A} {call : Call A} {user : A}

/-- A settlement that passed its checks credits within the cap. -/
theorem Checked.capKept {round : Round} {startLedger : ℕ} {s₁ : Storage A}
    (hchecked : Checked env s round startLedger s₁) (finalPrice : ℕ) (confidence : Option ℕ) :
    Ensures (settleRoundWithPrice round finalPrice confidence) env s₁
      fun _ s' => s.CapKept s' := by
  obtain ⟨config, armed, feed, rfl⟩ := hchecked.oracle
  have hsettles := (inferInstance : Follows Storage.CapKept
    (settleRoundWithPrice round finalPrice confidence : ContractM A _)).ensures env
      (s.withOracle config armed feed)
  exact hsettles.mono fun _ s' hkept => ⟨hkept.cap, hkept.pending⟩

/-- What ends a round credits within the cap. -/
theorem Call.ensures_capKept {ending : Ending} (hending : call.ending s = some ending) :
    Ensures call.exec env s fun _ s' => s.CapKept s' := by
  cases call with
  | resolveRound payload =>
      exact resolveRound_checked payload fun _ _ hchecked _ _ => hchecked.capKept _ _
  | resolveRoundMulti payload =>
      exact resolveRoundMulti_checked payload fun _ _ _ hchecked _ _ => hchecked.capKept _ _
  | cancelRound reason =>
      exact @Follows.ensures _ _ _ _ _ (XelmaMarket.cancelRound reason) _ env s
  | voidRound roundId =>
      exact @Follows.ensures _ _ _ _ _ (XelmaMarket.voidRound roundId) _ env s
  | finalizeRound roundId =>
      exact @Follows.ensures _ _ _ _ _ (XelmaMarket.finalizeRound roundId) _ env s
  | _ => cases hending

/-- Claims raise nobody's pending winnings. -/
theorem claimAll_pendingOf_le (vault : Vault A) (hsolvent : vault.Solvent) (users : List A) :
    (users.foldl Vault.claim vault).pendingOf user ≤ vault.pendingOf user := by
  rcases claimAll_pendingOf vault users user with hsame | hzero
  · exact hsame.le
  · rw [hzero]
    exact hsolvent.pendingOf_nonneg user

/-- A call that raises a user's pending winnings is a cash-out or ends a round. -/
theorem Effect.credits (hsolvent : s.vault.Solvent) (heffect : Effect env s call s')
    (hraised : s.vault.pendingOf user < s'.vault.pendingOf user) :
    (∃ other, call = .cashOutEarly other) ∨ ∃ ending, call.ending s = some ending := by
  have hlowered : ¬ s'.vault.pendingOf user ≤ s.vault.pendingOf user := not_le.mpr hraised
  have hsame : s'.vault.pendingWinnings ≠ s.vault.pendingWinnings := by
    intro hentries
    exact hlowered (by simp [Vault.pendingOf, hentries])
  cases heffect with
  | quiet _ _ hmarket => exact absurd (by rw [hmarket.vault]) hsame
  | mint _ _ _ _ hvault | treasuryAddress _ _ _ _ _ _ _ hvault | payFee _ _ _ _ _ _ hvault
  | payFund _ _ _ _ _ _ hvault | topUp _ _ _ _ _ _ hvault | openRound _ _ _ _ _ _ _ _ hvault
  | stake _ _ _ _ _ _ _ _ _ _ _ hvault | reveal _ _ _ _ _ _ _ _ _ _ hvault
  | stage _ _ _ _ _ _ _ _ _ hvault => exact absurd (by rw [hvault] <;> rfl) hsame
  | reclaim other admin _ _ _ _ _ _ _ _ hvault =>
      refine absurd ?_ hlowered
      have hpending := hsolvent.pendingOf_nonneg user
      rw [hvault]
      unfold Vault.pendingOf at hpending ⊢
      simp only [Vault.deposit, Vault.clearPending, Store.getD_remove]
      split
      · exact hpending
      · exact le_rfl
  | claim _ users _ _ _ hvault =>
      exact absurd (hvault ▸ claimAll_pendingOf_le _ hsolvent users) hlowered
  | cashOut _ other => exact .inl ⟨other, rfl⟩
  | ending _ ending _ hending => exact .inr ⟨ending, hending⟩

end Calls

/-! ## Over whole histories -/

section History

variable [LinearOrder A] {host : Host A} {chain chain' start : Chain A} {action : Action A}
  {user : A} {trace : List (Transition (Chain A) (Action A))}

/-- A step that raises a user's pending winnings leaves them within the cap in force. -/
theorem Step.credited_within_cap (hstep : Step host chain action chain')
    (hhealthy : chain.Healthy) {cap : ℤ} (hcap : chain.settings.maxPendingWinnings = some cap)
    (hraised : RaisesPending ⟨chain, action, chain'⟩ user) :
    chain'.storage.vault.pendingOf user ≤ cap := by
  have hraises : chain.storage.vault.pendingOf user < chain'.storage.vault.pendingOf user := hraised
  obtain ⟨signers, call, rfl⟩ | ⟨-, meter, hsame⟩ := hstep.invokes_or_idles
  · have hkept : chain.storage.CapKept chain'.storage := by
      rcases (hhealthy.effect hstep).credits (Storage.Healthy.solvent hhealthy) hraises with
        ⟨other, rfl⟩ | ⟨ending, hending⟩
      · exact hstep.ensured (@Follows.ensures _ _ _ _ _ (cashOutEarly other) _ _ _)
      · exact hstep.ensured (Call.ensures_capKept hending)
    exact (hkept.pending cap hcap user).resolve_left hraises.ne'
  · rw [hsame] at hraises
    exact absurd hraises (lt_irrefl _)

/-- Along every run from a reachable chain, what raises a user's pending winnings while a cap is in
force leaves them within it. When each step is taken under a cap of at most a bound, pending winnings
stay within the bound, or at or below what they were at the start. -/
theorem pending_winnings_capped (hreachable : Reachable host start)
    (hrun : Run (Step host) start trace chain) :
    (∀ transition ∈ trace, ∀ cap user,
      transition.before.settings.maxPendingWinnings = some cap →
      RaisesPending transition user → transition.after.storage.vault.pendingOf user ≤ cap) ∧
    ∀ bound, (∀ transition ∈ trace, ∃ cap ≤ bound,
      transition.before.settings.maxPendingWinnings = some cap) →
      ∀ user, chain.storage.vault.pendingOf user ≤
        max (start.storage.vault.pendingOf user) bound := by
  refine ⟨fun transition hmem cap user hcap hraised => ?_, fun bound hcaps user => ?_⟩
  · obtain ⟨earlier, later, -, hearlier, hstep, -⟩ := hrun.around hmem
    exact hstep.credited_within_cap (healthy_of_run hearlier hreachable.healthy) hcap hraised
  · refine (hrun.invariant (fun chain => chain.Healthy ∧
      chain.storage.vault.pendingOf user ≤ max (start.storage.vault.pendingOf user) bound)
      ⟨hreachable.healthy, le_max_left _ _⟩ fun transition hmem hstep hbefore => ?_).2
    refine ⟨hstep.healthy hbefore.1, ?_⟩
    by_cases hraised : RaisesPending transition user
    · obtain ⟨cap, hbelow, hcap⟩ := hcaps transition hmem
      exact (hstep.credited_within_cap hbefore.1 hcap hraised).trans
        (hbelow.trans (le_max_right _ _))
    · exact (not_lt.mp hraised).trans hbefore.2

end History

/-- Under a cap of 50 two users bet in a round. -/
def cappedMarket : List (Action ℕ) := scheduledCap 50 ++ [
  .invoke [5] (.control (.applyScheduledChanges .maxPendingWinnings)),
  .invoke [1] (.createRound 100 (some 0)),
  .invoke [3] (.placeBet 3 40 .up),
  .invoke [4] (.placeBet 4 30 .down)]

/-- The cancellation of their round refunds a stake of 40, and nobody is left with more than 50. -/
theorem refunded_within_cap : ∃ start chain : Chain ℕ, ∃ trace, Reachable trialHost start ∧
    Run (Step trialHost) start trace chain ∧
    (∃ transition ∈ trace, RaisesPending transition 3) ∧
    ∀ user, chain.storage.vault.pendingOf user ≤ max (start.storage.vault.pendingOf user) 50 := by
  obtain ⟨earlier, start, chain, hhistory, hfits⟩ := exists_trial cappedMarket
    (.invoke [1] (.cancelRound 0)) (fun start chain =>
      decide (start.settings.maxPendingWinnings = some 50 ∧
        start.storage.vault.pendingOf 3 < chain.storage.vault.pendingOf 3)) (by decide +kernel)
  obtain ⟨hcap, hraised⟩ := of_decide_eq_true hfits
  obtain ⟨hreachable, hstep⟩ := hhistory.last
  have hrun : Run (Step trialHost) start [⟨start, .invoke [1] (.cancelRound 0), chain⟩] chain :=
    .snoc (.nil start) hstep
  refine ⟨start, chain, _, hreachable, hrun,
    ⟨⟨start, _, chain⟩, List.mem_singleton_self _, hraised⟩, ?_⟩
  refine (pending_winnings_capped hreachable hrun).2 50 fun transition hmem => ?_
  obtain rfl := List.mem_singleton.mp hmem
  exact ⟨50, le_rfl, hcap⟩

end XelmaMarket
