import XelmaMarket.Caps
import XelmaMarket.MoneyPaths
import XelmaMarket.Participation

/-!
# Recovery

A live round can always be brought to its end by whoever may end it: in a history that writes no
address under the treasury key and mints no more than 63 bits hold, a cancellation, a void and a
finalization fail for the cap on pending winnings only, and only when a credit would exceed it.
-/

namespace XelmaMarket

open Transaction

variable {A : Type} [LinearOrder A]

/-! ## Room in the archive -/

section ArchiveRoom

variable {env : Env A} {s : Storage A} {host : Host A} {chain chain' : Chain A}
  {action : Action A} {trace : List (Transition (Chain A) (Action A))} {roundId : ℕ}
  {round : Round}

/-- A created round ends at a ledger there is. -/
theorem createRound_endLedger (startPrice : ℕ) (mode : Option ℕ) :
    Ensures (createRound startPrice mode) env s fun _ s' =>
      ∀ round, s'.rounds.activeRound = some round → round.endLedger < 2 ^ 32 := by
  simp only [createRound, assertNoActiveRound, ensures_bind, ensures_onControl,
    ensures_requireSupportedSchema, ensures_reject, ensures_orError, ensures_authorizedAdmin,
    ensureNotPaused, ensures_policyGate, ensures_gets, ensures_ledgerSequence, ensures_liftM,
    checkedUint_eq_ok, ensures_ledgerTimestamp, ensures_updateRounds]
  rintro _ _ _ roundMode _ admin _ _ _ _ _ roundId ⟨rfl, -⟩ betEnd ⟨rfl, -⟩ finish ⟨rfl, hends⟩
    round hround
  obtain rfl := Option.some.inj hround
  exact hends

/-- A call that creates a round gives it an end ledger there is. -/
theorem Call.ensures_endLedger {call : Call A}
    (hcall : (∃ startPrice mode, call = .createRound startPrice mode) ∨
      call = .createNextFromTemplate) :
    Ensures call.exec env s fun _ s' =>
      ∀ round, s'.rounds.activeRound = some round → round.endLedger < 2 ^ 32 := by
  rcases hcall with ⟨startPrice, mode, rfl⟩ | rfl
  · exact createRound_endLedger startPrice mode
  · simp only [Call.exec, discardResult, XelmaMarket.createNextFromTemplate, adminGate,
      ensures_bind, ensures_onControl, ensures_requireSupportedSchema, ensures_authorizedAdmin,
      ensureNotPaused, ensures_policyGate, ensures_pure, ensures_gets, ensures_orError]
    intro _ _ _ _ _ template _
    exact createRound_endLedger _ _

/-- A call that opens a round creates it. -/
theorem Effect.creates {call : Call A} {s' : Storage A} (hordered : s.rounds.Ordered)
    (heffect : Effect env s call s')
    (hnew : s'.rounds.lastRoundId.getD 0 ≠ s.rounds.lastRoundId.getD 0) :
    (∃ startPrice mode, call = .createRound startPrice mode) ∨ call = .createNextFromTemplate := by
  cases heffect with
  | openRound _ _ _ hcall => exact hcall
  | quiet _ _ hsame => exact absurd (by rw [hsame.rounds]) hnew
  | mint _ _ _ _ _ hsame | treasuryAddress _ _ _ _ _ _ _ _ hsame | payFee _ _ _ _ _ _ _ hsame
  | payFund _ _ _ _ _ _ _ hsame | topUp _ _ _ _ _ _ _ hsame
  | reclaim _ _ _ _ _ _ _ _ _ _ _ hsame | claim _ _ _ _ _ _ hsame =>
      exact absurd (by rw [hsame.rounds]) hnew
  | stake _ round user amount _ hround _ _ hamount _ hplaced =>
      refine absurd ?_ hnew
      rw [(hplaced.joined (hordered.active_represented hround) hround hamount.1).last]
  | reveal _ _ _ _ _ _ _ _ _ _ _ hrounds | cashOut _ _ _ _ _ _ _ _ _ _ _ _ hrounds
  | stage _ _ _ _ _ _ _ _ _ _ hrounds => exact absurd (by rw [hrounds]; rfl) hnew
  | ending _ ending _ _ hends =>
      exact absurd (by rw [hends.rounds, roundsAfter_last]) hnew

/-- The number of the last round leaves room below the length of a vector. -/
theorem Step.last_lt (hstep : Step host chain action chain') (hhealthy : chain.Healthy)
    (htimed : chain'.Timed) (hlast : chain.storage.rounds.lastRoundId.getD 0 + 1 < 2 ^ 32) :
    chain'.storage.rounds.lastRoundId.getD 0 + 1 < 2 ^ 32 := by
  have hstored : chain.storage.Healthy chain.ledger.sequence := hhealthy
  rcases hstep.created_cases hhealthy with hsame | ⟨round, hid, hstart, hrounds⟩
  · rwa [hsame]
  · obtain ⟨signers, call, rfl⟩ | ⟨-, meter, hidle⟩ := hstep.invokes_or_idles
    · have hactive : chain'.storage.rounds.activeRound = some round := by rw [hrounds]; rfl
      have hnew : chain'.storage.rounds.lastRoundId.getD 0 ≠
          chain.storage.rounds.lastRoundId.getD 0 := by
        simp only [hrounds, Rounds.openRound, Option.getD_some]
        omega
      have hends := hstep.ensured (Call.ensures_endLedger
        ((hhealthy.effect hstep).creates hstored.ordered hnew)) round hactive
      have hwindows := htimed.rounds.windows round.roundId round (.inl ⟨hactive, rfl⟩)
      have hpaced := (Storage.Healthy.paced (hstep.healthy hhealthy)).last_le
      -- the round takes two ledgers at least, and at most one was opened at each before it
      unfold Round.WindowsOrdered at hwindows
      omega
    · rw [hidle]
      exact hlast

theorem History.last_lt (hhistory : History host trace chain) :
    chain.storage.rounds.lastRoundId.getD 0 + 1 < 2 ^ 32 := by
  obtain ⟨ledger, hrun⟩ := hhistory
  refine hrun.invariant_of_trace (fun _ chain =>
    chain.storage.rounds.lastRoundId.getD 0 + 1 < 2 ^ 32) ?_
    fun earlier transition hearlier hstep hlast => ?_
  · simp [Chain.genesis, Storage.empty]
  · have hbefore : History host earlier transition.before := ⟨ledger, hearlier⟩
    have hafter : History host (earlier ++ [transition]) transition.after :=
      ⟨ledger, .snoc hearlier hstep⟩
    exact hstep.last_lt hbefore.healthy hafter.timed hlast

omit [LinearOrder A] in
/-- Distinct rounds that are over are fewer than the rounds opened, while one is live. -/
theorem length_le_last {rounds : Rounds A} {ids : List ℕ} (hnodup : ids.Nodup)
    (hover : ∀ id ∈ ids, rounds.Over id) (hlive : rounds.IsLive roundId round)
    (hknown : roundId ≤ rounds.lastRoundId.getD 0) : ids.length ≤ rounds.lastRoundId.getD 0 := by
  have hsubset : ids ⊆ (List.range (rounds.lastRoundId.getD 0 + 1)).erase roundId := by
    intro id hid
    have hdiffer : id ≠ roundId := by
      rintro rfl
      exact (hover id hid).not_live round hlive
    exact (List.mem_erase_of_ne hdiffer).mpr
      (List.mem_range.mpr (Nat.lt_succ_of_le (hover id hid).known))
  have hlength := (List.subperm_of_subset hnodup hsubset).length_le
  rwa [List.length_erase_of_mem (List.mem_range.mpr (Nat.lt_succ_of_le hknown)),
    List.length_range] at hlength

/-- There is room in the archive for every live round. -/
theorem History.archive_room (hhistory : History host trace chain)
    (hlive : chain.storage.rounds.IsLive roundId round) {permitted : Failure → Prop} :
    chain.storage.archive.HasRoom permitted (chain.storage.rounds.participants roundId) := by
  have hordered := hhistory.healthy.ordered
  have hknown := hordered.live_known hlive
  have hlast := hhistory.last_lt
  have hkept := Reachable.archiveKept ⟨trace, hhistory⟩
  obtain ⟨rfl, hbook⟩ := hordered.live roundId round hlive
  have hroom : ∀ ids : List ℕ, ids.Nodup → (∀ id ∈ ids, chain.storage.rounds.Over id) →
      ids.length < maxVecLength := by
    intro ids hnodup hover
    have hlength := length_le_last hnodup hover hlive hknown
    unfold maxVecLength
    omega
  refine .inr ⟨hbook.nodup, hroom _ hkept.nodup hkept.gone, fun user _ => ?_⟩
  refine hroom _ (List.nodup_iff_count_le_one.mpr fun id => ?_) fun id hid => ?_
  · exact (hhistory.attests user id).once
  · exact (hhistory.attests user id).listed hid

end ArchiveRoom

/-! ## What an ending credits -/

section Credits

variable {s s' : Storage A} {ending : Ending} {ledger : ℕ} {credits : List (A × ℤ)}

/-- What an ending credits: its plan and its coverage. -/
def Storage.creditsAt (s : Storage A) (ending : Ending) : List (A × ℤ) :=
  creditsOf (ending.plan s.control.settings.terms s.rounds).records ++ s.coverageCredits ending

/-- Everybody credited stays within the cap on pending winnings, when there is one. -/
def Storage.WithinCap (s : Storage A) (credits : List (A × ℤ)) : Prop :=
  ∀ cap, s.control.settings.maxPendingWinnings = some cap →
    ∀ user ∈ credits.map (·.1), s.vault.pendingOf user + creditTo credits user ≤ cap

/-- An ending adds its credits to the pending winnings. -/
theorem Ends.pendingOf_eq (hends : Ends ledger ending s s') (user : A) :
    s'.vault.pendingOf user = s.vault.pendingOf user + creditTo (s.creditsAt ending) user := by
  have hpaid : ∀ vault : Vault A, ∀ amount,
      (vault.payFromFund amount).pendingOf user = vault.pendingOf user := fun vault amount => by
    unfold Vault.pendingOf
    rw [Vault.payFromFund_pendingWinnings]
  have hcollected : ∀ vault : Vault A, ∀ split amount,
      (vault.collectFee split amount).pendingOf user = vault.pendingOf user :=
    fun vault split amount => by
      unfold Vault.pendingOf
      rw [Vault.collectFee_pendingWinnings]
  rw [hends.vault, Vault.creditAll_pendingOf, hpaid, Vault.creditAll_pendingOf, hcollected,
    Storage.creditsAt, creditTo_append, add_assoc]

/-- The failure for the cap on pending winnings, unless the credits stay within it. -/
def CapExceeded (s : Storage A) (credits : List (A × ℤ)) (failure : Failure) : Prop :=
  failure = .err .pendingWinningsCapExceeded ∧ ¬ s.WithinCap credits

omit [LinearOrder A] in
theorem mayCredit_of_capExceeded [LinearOrder A] (s : Storage A) (credits : List (A × ℤ)) :
    s.MayCredit (CapExceeded s credits) credits := by
  by_cases hwithin : s.WithinCap credits
  · exact .inr hwithin
  · exact .inl ⟨rfl, hwithin⟩

end Credits

/-! ## Endings that cannot be blocked -/

section Recovery

variable {permitted : Failure → Prop} {env : Env A} {s : Storage A} {host : Host A}
  {chain : Chain A} {trace : List (Transition (Chain A) (Action A))} {signers : List A}
  {call : Call A} {ending : Ending} {roundId : ℕ} {pending : PendingDisputeSettlement}

omit [LinearOrder A] in
theorem failsOnly_supportedSchema (hschema : SchemaSupported s.control.settings.schemaVersion) :
    FailsOnly permitted (onControl requireSupportedSchema) env s fun _ s' => s' = s := by
  simp only [requireSupportedSchema, failsOnly_onControl, failsOnly_bind, failsOnly_gets,
    failsOnly_reject, failsOnly_pure]
  refine ⟨fun hunsupported => ?_, fun _ => trivial⟩
  unfold SchemaSupported at hschema
  omega

theorem failsOnly_signedAdmin {admin : A} (hadmin : s.control.governance.admin = some admin)
    (hsigned : admin ∈ env.signers) :
    FailsOnly permitted (onControl authorizedAdmin) env s fun _ s' => s' = s := by
  simp only [authorizedAdmin, failsOnly_onControl, failsOnly_bind, failsOnly_gets,
    failsOnly_orError, hadmin, failsOnly_requireAuth, failsOnly_pure, reduceCtorEq, false_implies,
    true_and, Option.some.injEq, forall_eq']
  exact ⟨fun hmissing => absurd hsigned hmissing, fun _ => trivial⟩

omit [LinearOrder A] in
theorem failsOnly_running (hmode : s.control.settings.currentMode ≠ .fullyPaused) :
    FailsOnly permitted (onControl ensureNotPaused) env s fun _ s' => s' = s := by
  simp only [ensureNotPaused, policyGate, failsOnly_onControl, failsOnly_bind, failsOnly_gets,
    failsOnly_reject]
  exact ⟨fun hpaused => absurd hpaused hmode, fun _ => trivial⟩

/-- A call that ends a round can be relied on: it succeeds when what it credits stays within the
cap on pending winnings, it leaves everybody it gives something within it, and it fails for the cap
alone. -/
structure Recovers (host : Host A) (chain : Chain A) (signers : List A) (call : Call A)
    (ending : Ending) : Prop where
  ends : call.ending chain.storage = some ending
  succeeds : chain.storage.WithinCap (chain.storage.creditsAt ending) →
    ∃ chain', Step host chain (.invoke signers call) chain'
  capped : ∀ chain', Step host chain (.invoke signers call) chain' → ∀ cap user,
    chain.settings.maxPendingWinnings = some cap →
    0 < creditTo (chain.storage.creditsAt ending) user →
    chain.storage.vault.pendingOf user + creditTo (chain.storage.creditsAt ending) user ≤ cap
  fails : ∀ failure, call.exec ⟨host, chain.ledger, signers⟩ chain.storage = .error failure →
    failure = .err .pendingWinningsCapExceeded

/-- A call that fails for the cap only recovers its round. -/
theorem Recovers.of_failsOnly (hhealthy : chain.Healthy)
    (hending : call.ending chain.storage = some ending)
    (hfails : FailsOnly (CapExceeded chain.storage (chain.storage.creditsAt ending)) call.exec
      ⟨host, chain.ledger, signers⟩ chain.storage fun _ _ => True) :
    Recovers host chain signers call ending where
  ends := hending
  succeeds hwithin := by
    obtain ⟨_, storage, hrun, -⟩ := hfails.returns fun _ hexceeded => hexceeded.2 hwithin
    exact ⟨_, .invoke chain signers call storage hrun⟩
  capped chain' hstep cap user hcap hcredited := by
    have hpending := (Chain.Healthy.ends hhealthy hstep hending).pendingOf_eq user
    have hraised : RaisesPending ⟨chain, .invoke signers call, chain'⟩ user := by
      show chain.storage.vault.pendingOf user < chain'.storage.vault.pendingOf user
      omega
    have hbelow := hstep.credited_within_cap hhealthy hcap hraised
    omega
  fails failure hrun := (hfails.error hrun).1

/-- A finalization gets through from the deadline on. -/
theorem Storage.InRange.finalizes (hrange : s.InRange env.ledger)
    (hpending : s.rounds.pendingDisputes.get roundId = some pending)
    (hschema : SchemaSupported s.control.settings.schemaVersion)
    (hmode : s.control.settings.currentMode ≠ .fullyPaused)
    (hdeadline : pending.deadlineLedger ≤ env.ledger.sequence)
    (hcounts : ∀ user, s.stats.CanCount user)
    (harchive : s.archive.HasRoom permitted (s.rounds.participants pending.round.roundId))
    (hcapped : s.MayCredit permitted (creditsOf
      (s.control.settings.terms.plan s.rounds pending.round pending.finalPrice).records)) :
    FailsOnly permitted (XelmaMarket.finalizeRound roundId) env s fun _ _ => True := by
  have hbook := (hrange.healthy.ordered.staged_represented hpending).2
  refine (failsOnly_supportedSchema hschema).guard fun _ => (failsOnly_running hmode).guard fun _ => ?_
  simp only [readPendingDispute, failsOnly_bind, failsOnly_gets, failsOnly_orError, hpending,
    reduceCtorEq, false_implies, true_and, Option.some.injEq, forall_eq', failsOnly_ledgerSequence,
    failsOnly_reject]
  refine ⟨fun hearly => absurd hdeadline (not_le.mpr hearly), fun _ => ?_⟩
  refine FailsOnly.mono (hrange.settles hbook (fun user _ => hcounts user) harchive hcapped _)
    fun _ s₁ _ => ?_
  simp only [removePendingDispute, failsOnly_updateRounds]

omit [LinearOrder A] in
/-- Only a cancellation credits a coverage. -/
theorem creditsAt_of_plan [LinearOrder A]
    (huncovered : ending.isCovered s.control.settings = false) :
    s.creditsAt ending = creditsOf (ending.plan s.control.settings.terms s.rounds).records := by
  rw [Storage.creditsAt, coverageCredits_eq_nil (by simp [Storage.coveragePaid, huncovered]),
    List.append_nil]

section History

variable (hhistory : History host trace chain)
  (hsets : ∀ transition ∈ trace, ¬ SetsTreasury transition)
  (hminted : totalMinted trace ≤ 2 ^ 63 - 1)
include hhistory hsets hminted

/-- The administrator can cancel the active round. -/
theorem History.recovers_cancel {round : Round} {admin : A} {reason : ℕ}
    (hactive : chain.storage.rounds.activeRound = some round)
    (hadmin : chain.governance.admin = some admin) (hsigned : admin ∈ signers) :
    Recovers host chain signers (.cancelRound reason) ⟨round, .cancelled reason⟩ := by
  have hrange := hhistory.inRange hsets hminted
  have hending : (Call.cancelRound reason).ending chain.storage =
      some ⟨round, .cancelled reason⟩ := by simp [Call.ending, hactive]
  refine .of_failsOnly hhistory.healthy hending ?_
  exact @Storage.InRange.cancels _ _ _ ⟨host, chain.ledger, signers⟩ _ _ hrange reason hactive
    (hhistory.archive_room (.inl ⟨hactive, rfl⟩))
    (failsOnly_supportedSchema hhistory.timelockKept.schema)
    (failsOnly_signedAdmin hadmin hsigned) (mayCredit_of_capExceeded _ _)

/-- Anyone can void a staged round before its deadline. -/
theorem History.recovers_void
    (hpending : chain.storage.rounds.pendingDisputes.get roundId = some pending)
    (hmode : chain.settings.currentMode ≠ .fullyPaused)
    (hopen : chain.ledger.sequence < pending.deadlineLedger) :
    Recovers host chain signers (.voidRound roundId) ⟨pending.round, .voided⟩ := by
  have hrange := hhistory.inRange hsets hminted
  have hending : (Call.voidRound roundId).ending chain.storage =
      some ⟨pending.round, .voided⟩ := by simp [Call.ending, hpending]
  have hlive : chain.storage.rounds.IsLive roundId pending.round := .inr ⟨pending, hpending, rfl⟩
  obtain ⟨hid, hbook⟩ := hhistory.healthy.ordered.staged_represented hpending
  have hsmall := hrange.totalStake_le hbook
  have hroom : productLimit ≤ i128Max := by decide
  refine .of_failsOnly hhistory.healthy hending ?_
  rw [creditsAt_of_plan rfl]
  exact @failsOnly_voidRound _ _ _ ⟨host, chain.ledger, signers⟩ _ _ _
    (hid ▸ hhistory.archive_room hlive) (failsOnly_supportedSchema hhistory.timelockKept.schema)
    (failsOnly_running hmode) hpending hbook hid (.inr hopen) (by omega)
    (@Storage.InRange.canSettle_void _ _ _ ⟨host, chain.ledger, signers⟩ _ _ hrange hbook _
      (mayCredit_of_capExceeded _ _))

/-- Anyone can finalize a staged round from its deadline on. -/
theorem History.recovers_finalize
    (hpending : chain.storage.rounds.pendingDisputes.get roundId = some pending)
    (hmode : chain.settings.currentMode ≠ .fullyPaused)
    (hdeadline : pending.deadlineLedger ≤ chain.ledger.sequence) :
    Recovers host chain signers (.finalizeRound roundId)
      ⟨pending.round, .finalized pending.finalPrice⟩ := by
  have hrange := hhistory.inRange hsets hminted
  have hending : (Call.finalizeRound roundId).ending chain.storage =
      some ⟨pending.round, .finalized pending.finalPrice⟩ := by simp [Call.ending, hpending]
  have hlive : chain.storage.rounds.IsLive roundId pending.round := .inr ⟨pending, hpending, rfl⟩
  obtain ⟨hid, hbook⟩ := hhistory.healthy.ordered.staged_represented hpending
  refine .of_failsOnly hhistory.healthy hending ?_
  rw [creditsAt_of_plan rfl]
  exact @Storage.InRange.finalizes _ _ _ ⟨host, chain.ledger, signers⟩ _ _ _ hrange hpending
    hhistory.timelockKept.schema hmode hdeadline (hhistory.canCount_of_staged hpending)
    (hid ▸ hhistory.archive_room hlive) (mayCredit_of_capExceeded _ _)

/-- In a history that writes no address under the treasury key and mints less than `2 ^ 63`, the
administrator can always cancel the active round, and as long as the contract is not fully paused
anyone can void a staged round before its deadline and finalize it from then on: no participant can
keep a round from its end, except by pending winnings that leave no room under the cap. -/
theorem rounds_recoverable :
    (∀ round admin signers reason, chain.storage.rounds.activeRound = some round →
      chain.governance.admin = some admin → admin ∈ signers →
      Recovers host chain signers (.cancelRound reason) ⟨round, .cancelled reason⟩) ∧
    (∀ roundId pending signers, chain.storage.rounds.pendingDisputes.get roundId = some pending →
      chain.settings.currentMode ≠ .fullyPaused →
      chain.ledger.sequence < pending.deadlineLedger →
      Recovers host chain signers (.voidRound roundId) ⟨pending.round, .voided⟩) ∧
    ∀ roundId pending signers, chain.storage.rounds.pendingDisputes.get roundId = some pending →
      chain.settings.currentMode ≠ .fullyPaused →
      pending.deadlineLedger ≤ chain.ledger.sequence →
      Recovers host chain signers (.finalizeRound roundId)
        ⟨pending.round, .finalized pending.finalPrice⟩ :=
  ⟨fun _ _ _ _ hactive hadmin hsigned =>
      hhistory.recovers_cancel hsets hminted hactive hadmin hsigned,
    fun _ _ _ hpending hmode hopen => hhistory.recovers_void hsets hminted hpending hmode hopen,
    fun _ _ _ hpending hmode hdeadline =>
      hhistory.recovers_finalize hsets hminted hpending hmode hdeadline⟩

end History

end Recovery

/-- A trial run without proposals is a history that mints little. -/
theorem exists_small_history (actions : List (Action ℕ)) (fits : Chain ℕ → Bool)
    (hnone : ∀ signers executor proposalId,
      Action.invoke signers (.executeGovProposal executor proposalId) ∉ actions)
    (hshort : initialAmount * actions.length ≤ 2 ^ 63 - 1)
    (htrial : ((Chain.genesis (ledgerAt 1)).performAll trialHost actions).any fits = true) :
    ∃ trace chain, History trialHost trace chain ∧
      (∀ transition ∈ trace, ¬ SetsTreasury transition) ∧ totalMinted trace ≤ 2 ^ 63 - 1 ∧
      fits chain = true := by
  obtain ⟨trace, chain, hhistory, hlabels, hfits⟩ := exists_trial_history actions fits htrial
  have hlength : trace.length = actions.length := by rw [← hlabels, List.length_map]
  refine ⟨trace, chain, hhistory, notSetsTreasury_of_labels hlabels hnone, ?_, hfits⟩
  exact hhistory.totalMinted_le.trans (hlength ▸ hshort)

/-- With round 1 staged and round 2 active, the administrator can cancel round 2 and anyone can void
round 1. -/
theorem overlapping_rounds_recoverable : ∃ chain : Chain ℕ, Reachable trialHost chain ∧
    (∃ round chain', chain.storage.rounds.activeRound = some round ∧
      Step trialHost chain (.invoke [1] (.cancelRound 0)) chain') ∧
    ∃ pending chain', chain.storage.rounds.pendingDisputes.get 1 = some pending ∧
      Step trialHost chain (.invoke [] (.voidRound 1)) chain' := by
  obtain ⟨trace, chain, hhistory, hsets, hminted, hfits⟩ := exists_small_history overlappingRounds
    (fun chain => decide (chain.storage.rounds.activeRound.isSome = true ∧
      (chain.storage.rounds.pendingDisputes.get 1).any
        (fun pending => chain.ledger.sequence < pending.deadlineLedger) = true ∧
      chain.governance.admin = some 1 ∧ chain.settings.currentMode ≠ .fullyPaused ∧
      chain.settings.maxPendingWinnings = none))
    (by simp [overlappingRounds, trialSetup]) (by decide) (by decide +kernel)
  obtain ⟨hactive, hstaged, hadmin, hmode, hcap⟩ := of_decide_eq_true hfits
  obtain ⟨round, hround⟩ := Option.isSome_iff_exists.mp hactive
  obtain ⟨pending, hpending, hopen⟩ := (Option.any_eq_true _ _).mp hstaged
  have hwithin : ∀ credits, chain.storage.WithinCap credits := by
    intro credits cap hset
    exact absurd (hset.symm.trans hcap) (by simp)
  obtain ⟨hcancel, hvoid, -⟩ := rounds_recoverable hhistory hsets hminted
  obtain ⟨cancelled, hcancelled⟩ :=
    (hcancel round 1 [1] 0 hround hadmin (by simp)).succeeds (hwithin _)
  obtain ⟨voided, hvoided⟩ :=
    (hvoid 1 pending [] hpending hmode (of_decide_eq_true hopen)).succeeds (hwithin _)
  exact ⟨chain, ⟨trace, hhistory⟩, ⟨round, cancelled, hround, hcancelled⟩,
    pending, voided, hpending, hvoided⟩

end XelmaMarket
