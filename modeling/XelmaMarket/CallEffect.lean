import XelmaMarket.ControlEffect

/-!
# The effect of every call

The calls that mint, open rounds, move fees and funds, pay claims or end rounds, and from all of
them the inversion `Call.effect`: a successful call has one of the effects.
-/

namespace XelmaMarket

open Transaction

variable {A : Type} [LinearOrder A] {env : Env A} {s : Storage A}

omit [LinearOrder A] in
theorem SameMarket.refl (s : Storage A) : SameMarket s s :=
  ⟨rfl, rfl, rfl⟩

/-! ## Minting and opening rounds -/

/-- The mint counters change when the limits let a mint through. -/
theorem mintNew_spec (user : A) :
    Ensures (mintNew user) env s fun _ s' =>
      s'.vault = { s.vault with balance := s.vault.balance.set user initialAmount } ∧
      SameRounds s s' := by
  have hlimit : ∀ s : Storage A, Ensures enforceMintLimit env s fun _ s' =>
      ∃ meter, s' = { s with meter := meter } := by
    intro s
    simp only [enforceMintLimit, ensures_bind, ensures_ledgerSequence, ensures_gets,
      ensures_onSome, ensures_onlyIf, ensures_reject, ensures_update]
    exact ⟨fun _ _ => ⟨fun _ _ => ⟨_, rfl⟩, fun _ => ⟨_, rfl⟩⟩, fun _ => ⟨_, rfl⟩⟩
  have hbudget : ∀ s : Storage A, Ensures enforceEpochBudget env s fun _ s' =>
      ∃ meter, s' = { s with meter := meter } := by
    intro s
    simp only [enforceEpochBudget, ensures_bind, ensures_ledgerSequence, ensures_gets,
      ensures_onlyIf, ensures_liftM, ensures_reject, ensures_update]
    exact ⟨fun _ _ _ _ => ⟨_, rfl⟩, fun _ => ⟨_, rfl⟩⟩
  simp only [mintNew, setBalance, ensures_bind]
  refine (hlimit s).mono ?_
  rintro _ _ ⟨meter, rfl⟩
  refine (hbudget _).mono ?_
  rintro _ _ ⟨meter', rfl⟩
  simp only [ensures_updateVault, ensures_pure]
  exact ⟨trivial, rfl, rfl, rfl⟩

/-- A mint gives a new user the initial amount, and a known user nothing. -/
theorem mintInitial_effect (user : A) :
    Ensures (mintInitial user) env s fun _ s' => Effect env s (.mintInitial user) s' := by
  simp only [mintInitial, ensures_bind, ensures_requireAuth, ensures_onControl,
    ensures_requireSupportedSchema, ensureNormalMode, ensures_policyGate,
    ensures_enforceAccessControl, ensures_gets]
  intro hsigner _ _ _ _
  cases hbalance : s.vault.balance.get user with
  | some balance =>
      simp only [ensures_pure]
      refine .quiet _ _ (.refl s) ?_ rfl (by simp) fun _ => rfl
      rintro other h
      cases h
      exact ⟨balance, hbalance⟩
  | none =>
      refine (mintNew_spec user).mono ?_
      rintro _ s' ⟨hvault, hsame⟩
      refine .mint user s' hbalance hsigner ?_ hsame
      rw [hvault]
      simp [Vault.deposit, Vault.balanceOf, Store.getD, hbalance]

/-- What opening a round does: there is no active one, the new one has the next id and no stakes,
and no round started in this ledger before. -/
structure Opens (env : Env A) (s : Storage A) (round : Round) (s' : Storage A) : Prop where
  active : s.rounds.activeRound = none
  id : round.roundId = s.rounds.lastRoundId.getD 0 + 1
  pools : round.poolUp = 0 ∧ round.poolDown = 0
  start : round.startLedger = env.ledger.sequence ∧
    s.rounds.roundStartLedger.get round.startLedger = none
  windows : OpensFor s.control.settings round
  stats : s'.stats = s.stats
  vault : s'.vault = s.vault
  rounds : s'.rounds = s.rounds.openRound round
  outcomes : s'.userRoundOutcome = s.userRoundOutcome

/-- Creating a round opens it under the next id, once a ledger. -/
theorem createRound_spec (startPrice : ℕ) (mode : Option ℕ) :
    Ensures (createRound startPrice mode) env s fun _ s' => ∃ round, Opens env s round s' := by
  simp only [createRound, assertNoActiveRound, ensures_bind, ensures_onControl,
    ensures_requireSupportedSchema, ensures_reject, ensures_orError, ensures_authorizedAdmin,
    ensureNotPaused, ensures_policyGate, ensures_gets, ensures_ledgerSequence, ensures_liftM,
    checkedUint_eq_ok, ensures_ledgerTimestamp, ensures_updateRounds]
  rintro _ _ _ roundMode _ admin _ _ _ hactive hreused roundId ⟨rfl, -⟩ betEnd ⟨rfl, -⟩ finish
    ⟨rfl, -⟩
  refine ⟨_, not_isSome_eq_true.mp hactive, ?_, ?_, ⟨rfl, ?_⟩, ⟨rfl, rfl⟩, rfl, rfl, rfl, rfl⟩
  · rfl
  · exact ⟨rfl, rfl⟩
  · simpa [Store.has] using hreused

/-- The calls that create a round open it. -/
theorem Call.ensures_opens {call : Call A}
    (hcall : (∃ startPrice mode, call = .createRound startPrice mode) ∨
      call = .createNextFromTemplate) :
    Ensures call.exec env s fun _ s' => ∃ round, Opens env s round s' := by
  rcases hcall with ⟨startPrice, mode, rfl⟩ | rfl
  · exact createRound_spec startPrice mode
  · simp only [Call.exec, discardResult, XelmaMarket.createNextFromTemplate, adminGate,
      ensures_bind, ensures_onControl, ensures_requireSupportedSchema, ensures_authorizedAdmin,
      ensureNotPaused, ensures_policyGate, ensures_pure, ensures_gets, ensures_orError]
    intro _ _ _ _ _ template _
    exact createRound_spec _ _

/-- A call that opens a round has that effect. -/
theorem createRound_effect {call : Call A}
    (hcall : (∃ startPrice mode, call = .createRound startPrice mode) ∨
      call = .createNextFromTemplate) :
    Ensures call.exec env s fun _ s' => Effect env s call s' := by
  refine (Call.ensures_opens hcall).mono ?_
  rintro _ s' ⟨round, hopens⟩
  exact .openRound _ round s' hcall hopens.active hopens.id hopens.pools hopens.start hopens.vault
    hopens.rounds hopens.outcomes hopens.windows hopens.stats

/-! ## Fees and funds -/

omit [LinearOrder A] in
/-- A fee withdrawal moves an amount from the treasury to the recipient. -/
theorem executeWithdrawFee_spec [DecidableEq A] (recipient : A) (amount : ℤ) :
    Ensures (executeWithdrawFee recipient amount) env s fun _ s' =>
      (0 < amount ∧ amount ≤ s.vault.treasury) ∧
      s' = { s with vault := { s.vault.deposit recipient amount with
        protocolFeeTreasury := some (.amount (s.vault.treasury - amount)) } } := by
  simp only [executeWithdrawFee, ensures_bind, ensures_reject]
  intro hpos
  refine readTreasury_spec.mono ?_
  rintro current _ ⟨rfl, rfl⟩
  simp only [setTreasury, setBalance, ensures_liftM, checked_eq_ok, ensures_updateVault,
    ensures_gets, payoutAdd_eq_ok, ensures_pure]
  rintro hcovered _ ⟨rfl, -, -⟩ _ ⟨rfl, -, -⟩
  exact ⟨by omega, rfl⟩

omit [LinearOrder A] in
/-- A fund withdrawal moves an amount from the fund to the recipient. -/
theorem executeWithdrawInsuranceFund_spec [DecidableEq A] (recipient : A) (amount : ℤ) :
    Ensures (executeWithdrawInsuranceFund recipient amount) env s fun _ s' =>
      (0 < amount ∧ amount ≤ s.vault.insuranceFund) ∧
      s' = { s with vault := { s.vault.deposit recipient amount with
        insFundBal := some (s.vault.insuranceFund - amount) } } := by
  simp only [executeWithdrawInsuranceFund, setInsuranceFund, setBalance, ensures_bind,
    ensures_reject, ensures_gets, ensures_liftM, checked_eq_ok, ensures_updateVault,
    payoutAdd_eq_ok, ensures_pure]
  rintro hpos hcovered _ ⟨rfl, -, -⟩ _ ⟨rfl, -, -⟩
  exact ⟨by omega, rfl⟩

theorem topUpInsuranceFund_effect (amount : ℤ) :
    Ensures (topUpInsuranceFund amount) env s fun _ s' =>
      Effect env s (.topUpInsuranceFund amount) s' := by
  simp only [topUpInsuranceFund, setBalance, setInsuranceFund, ensures_bind, ensures_onControl,
    ensures_authorizedAdmin, ensureNotPaused, ensures_policyGate, ensures_reject, ensures_gets,
    ensures_liftM, checked_eq_ok, ensures_updateVault]
  rintro admin hadmin hsigner _ hpos hcovered _ ⟨rfl, -, -⟩ _ ⟨rfl, -, -⟩
  exact .topUp admin amount _ hadmin hsigner (by omega) rfl ⟨rfl, rfl, rfl⟩

theorem reclaimExpiredPendingWinnings_effect (user : A) :
    Ensures (reclaimExpiredPendingWinnings user) env s fun _ s' =>
      Effect env s (.reclaimExpiredPendingWinnings user) s' := by
  simp only [reclaimExpiredPendingWinnings, adminGate, setBalance, ensures_bind,
    ensures_onControl, ensures_requireSupportedSchema, ensures_authorizedAdmin, ensureNotPaused,
    ensures_policyGate, ensures_pure, ensures_reject, ensures_gets, ensures_orError,
    ensures_ledgerSequence, ensures_updateVault, ensures_liftM, payoutAdd_eq_ok]
  rintro _ admin hadmin hsigner _ hexpiry _ updatedAt hupdated hexpired _ ⟨rfl, -, -⟩
  have hset : s.control.settings.pendingWinningsExpiry =
      some (s.control.settings.pendingWinningsExpiry.getD 0) := by
    cases h : s.control.settings.pendingWinningsExpiry with
    | none => simp [h] at hexpiry
    | some expiry => rfl
  exact .reclaim user admin _ updatedAt _ hadmin hsigner ⟨hset, hexpiry⟩ hupdated (by omega) rfl
    ⟨rfl, rfl, rfl⟩

/-! ## Claims -/

theorem claimPending_spec (user : A) :
    Ensures (claimPending user) env s fun _ s' =>
      s' = { s with vault := s.vault.claim user } := by
  simp only [claimPending, setBalance, ensures_bind, ensures_gets, ensures_ite, ensures_pure,
    ensures_liftM, payoutAdd_eq_ok, ensures_updateVault]
  constructor
  · intro hzero
    simp [Vault.claim, hzero]
  · rintro hne _ ⟨rfl, -, -⟩
    simp only [Vault.claim, if_neg hne]

theorem claimWinnings_effect (user : A) :
    Ensures (claimWinnings user) env s fun _ s' => Effect env s (.claimWinnings user) s' := by
  simp only [claimWinnings, ensures_bind, ensures_onControl, ensures_requireSupportedSchema,
    ensures_requireAuth, ensureNotPaused, ensures_policyGate]
  intro _ hsigner _
  refine (claimPending_spec user).mono ?_
  rintro _ s' rfl
  exact .claim _ [user] _ (.inl ⟨user, rfl, rfl⟩) (by simpa using hsigner) rfl
    ⟨rfl, rfl, rfl⟩

/-- The loop of a batch claim claims for every user, who must have authorised it. -/
theorem claimEach_spec (users : List A) (amounts : List ℤ) :
    Ensures (foldEach users amounts fun amounts user => do
        requireAuth user
        let amount ← claimPending user
        return amounts ++ [amount]) env s fun _ s' =>
      (∀ user ∈ users, user ∈ env.signers) ∧
      s' = { s with vault := users.foldl Vault.claim s.vault } := by
  induction users generalizing s amounts with
  | nil => simp
  | cons user rest ih =>
      simp only [ensures_foldEach_cons, ensures_bind, ensures_requireAuth, ensures_pure]
      intro hsigner
      refine (claimPending_spec user).mono ?_
      rintro amount _ rfl
      refine (ih _).mono ?_
      rintro _ s' ⟨hsigners, rfl⟩
      exact ⟨by simpa using ⟨hsigner, hsigners⟩, rfl⟩

theorem claimMany_effect (users : List A) :
    Ensures (claimMany users) env s fun _ s' => Effect env s (.claimMany users) s' := by
  simp only [claimMany, ensures_bind, ensures_onControl, ensures_requireSupportedSchema,
    ensureNotPaused, ensures_policyGate, ensures_reject]
  intro _ _ _ _
  refine (claimEach_spec users []).mono ?_
  rintro _ s' ⟨hsigners, rfl⟩
  exact .claim _ users _ (.inr rfl) hsigners rfl ⟨rfl, rfl, rfl⟩

/-! ## Governance -/

/-- What performing the action of a proposal does to the accounts. -/
def Performed (action : GovAction A) (vault vault' : Vault A) : Prop :=
  match action with
  | .withdrawProtocolFee recipient amount =>
      (0 < amount ∧ amount ≤ vault.treasury) ∧
      vault' = { vault.deposit recipient amount with
        protocolFeeTreasury := some (.amount (vault.treasury - amount)) }
  | .withdrawInsuranceFund recipient amount =>
      (0 < amount ∧ amount ≤ vault.insuranceFund) ∧
      vault' = { vault.deposit recipient amount with
        insFundBal := some (vault.insuranceFund - amount) }
  | .setTreasuryAddress treasury =>
      vault' = { vault with protocolFeeTreasury := some (.address treasury) }
  | _ => vault' = vault

/-- Performing the action of a proposal moves value or changes the administration, as the action
says; the rounds are as they were. -/
theorem performGovAction_spec (action : GovAction A) :
    Ensures (performGovAction action) env s fun _ s' =>
      Performed action s.vault s'.vault ∧ SameRounds s s' ∧
        s'.control = s.control.enact action ∧ action.Valid := by
  cases action with
  | withdrawProtocolFee recipient amount =>
      simp only [performGovAction, ensures_bind, ensures_pure]
      refine (executeWithdrawFee_spec recipient amount).mono ?_
      rintro _ s' ⟨hamount, rfl⟩
      exact ⟨⟨hamount, rfl⟩, ⟨rfl, rfl, rfl⟩, rfl, trivial⟩
  | withdrawInsuranceFund recipient amount =>
      simp only [performGovAction, ensures_bind, ensures_pure]
      refine (executeWithdrawInsuranceFund_spec recipient amount).mono ?_
      rintro _ s' ⟨hamount, rfl⟩
      exact ⟨⟨hamount, rfl⟩, ⟨rfl, rfl, rfl⟩, rfl, trivial⟩
  | setTreasuryAddress treasury =>
      simp only [performGovAction, ensures_updateVault]
      exact ⟨rfl, ⟨rfl, rfl, rfl⟩, rfl, trivial⟩
  | pauseProtocol | unpauseProtocol =>
      simp only [performGovAction, ensures_onControl]
      refine (setMode_spec _).mono ?_
      rintro _ _ rfl
      exact ⟨rfl, ⟨rfl, rfl, rfl⟩, rfl, trivial⟩
  | setProtocolFeeBps bps =>
      simp only [performGovAction, ensures_onControl, ensures_bind]
      refine (validateConfigPayload_spec (.protocolFeeBps bps)).mono ?_
      rintro _ _ ⟨rfl, hvalid⟩
      rw [ensures_updateSettings]
      exact ⟨rfl, ⟨rfl, rfl, rfl⟩, rfl, hvalid⟩
  | setAdmin newAdmin | setOracle newOracle =>
      simp only [performGovAction, ensures_onControl, ensures_updateGovernance]
      exact ⟨rfl, ⟨rfl, rfl, rfl⟩, rfl, trivial⟩
  | setInsuranceSplitBps bps | setInsuranceCoverageBps bps =>
      simp only [performGovAction, XelmaMarket.setInsuranceSplitBps,
        XelmaMarket.setInsuranceCoverageBps, ensureNotPaused, ensures_onControl, ensures_bind,
        ensures_authorizedAdmin, ensures_policyGate, ensures_reject, ensures_updateSettings]
      exact fun _ _ _ _ hvalid => ⟨rfl, ⟨rfl, rfl, rfl⟩, rfl, not_lt.mp hvalid⟩

/-- What executing a stored proposal needs and does. -/
structure ExecutesProposal (env : Env A) (s : Storage A) (executor : A) (proposalId : ℕ)
    (proposal : GovProposal A) (s' : Storage A) : Prop where
  signer : executor ∈ env.signers
  authorized : s.control.governance.isAuthorizedGovUser executor = true
  stored : s.control.governance.govProposal.get proposalId = some proposal
  live : env.ledger.sequence ≤ proposal.expiresAtLedger
  approved : proposal.status = .approved
  valid : proposal.action.Valid
  performed : Performed proposal.action s.vault s'.vault
  market : SameRounds s s'
  control : s'.control = (s.control.enact proposal.action).withProposal proposalId
    { proposal with status := .executed }

/-- A successful execution performs the action of an approved proposal that has not expired. -/
theorem execute_spec (executor : A) (proposalId : ℕ) :
    Ensures (execute executor proposalId) env s fun _ s' =>
      ∃ proposal, ExecutesProposal env s executor proposalId proposal s' := by
  simp only [execute, setGovProposal, readGovProposal, ensures_bind, ensures_onControl,
    ensures_governanceGate, ensures_gets, ensures_orError, ensures_ledgerSequence,
    ensures_reject, ensures_updateGovernance]
  intro _ hsigner hauthorized proposal hproposal hlive happroved
  refine (performGovAction_spec (s := s) proposal.action).mono ?_
  rintro _ s₁ ⟨hperformed, hsame, hcontrol, hvalid⟩
  exact ⟨proposal, hsigner, hauthorized, hproposal, not_lt.mp hlive, not_not.mp happroved, hvalid,
    hperformed, ⟨hsame.rounds, hsame.outcomes, hsame.stats⟩, by rw [← hcontrol]; rfl⟩

/-- An executed proposal pays out a fee or the fund, writes a treasury address, or leaves the
accounts alone. -/
theorem execute_effect (executor : A) (proposalId : ℕ) :
    Ensures (execute executor proposalId) env s fun _ s' =>
      Effect env s (.executeGovProposal executor proposalId) s' := by
  refine (execute_spec executor proposalId).mono ?_
  rintro _ s' ⟨proposal, hexecutes⟩
  have hperformed := hexecutes.performed
  cases haction : proposal.action with
  | withdrawProtocolFee recipient amount =>
      rw [haction] at hperformed
      exact .payFee _ recipient amount _ (.inr ⟨executor, proposalId, rfl⟩) hperformed.1
        hperformed.2 hexecutes.market
  | withdrawInsuranceFund recipient amount =>
      rw [haction] at hperformed
      exact .payFund _ recipient amount _ (.inr ⟨executor, proposalId, rfl⟩) hperformed.1
        hperformed.2 hexecutes.market
  | setTreasuryAddress treasury =>
      rw [haction] at hperformed
      exact .treasuryAddress executor treasury proposalId proposal _ hexecutes.stored haction
        hperformed hexecutes.market
  | pauseProtocol | unpauseProtocol | setProtocolFeeBps _ | setAdmin _ | setOracle _
  | setInsuranceSplitBps _ | setInsuranceCoverageBps _ =>
      rw [haction] at hperformed
      exact .quiet _ _ ⟨hperformed, hexecutes.market.rounds, hexecutes.market.outcomes⟩ (by simp)
        rfl nofun fun _ => hexecutes.market.stats

/-! ## The inversion -/

/-- A settlement that ends a round ends the active one, and stages none. -/
theorem resolution_active {finalPrice : ℕ} {ending : Ending}
    (hresolution : s.resolution finalPrice = some ending) :
    s.rounds.activeRound = some ending.round ∧
      (ending.roundsAfter s.rounds).activeRound = none ∧
      (ending.roundsAfter s.rounds).pendingDisputes = s.rounds.pendingDisputes := by
  unfold Storage.resolution at hresolution
  cases hactive : s.rounds.activeRound with
  | none => simp [hactive] at hresolution
  | some round =>
      simp only [hactive] at hresolution
      split at hresolution
      · obtain rfl := Option.some.inj hresolution
        exact ⟨rfl, rfl, rfl⟩
      · split at hresolution
        · cases hresolution
        · obtain rfl := Option.some.inj hresolution
          exact ⟨rfl, rfl, rfl⟩

/-- A settlement ends the active round or stages it. -/
theorem Settled.effect {call : Call A} {round : Round} {finalPrice : ℕ} {s' : Storage A}
    (hsettled : Settled env s round finalPrice s') (hprice : call.price = some finalPrice)
    (hended : round.endLedger ≤ env.ledger.sequence)
    (hending : call.ending s = s.resolution finalPrice) : Effect env s call s' := by
  cases hresolution : s.resolution finalPrice with
  | some ending =>
      refine .ending call ending s' (hending.trans hresolution)
        (hsettled.ends ending hresolution) fun _ => ?_
      have hactive := (resolution_active hresolution).1
      rwa [Option.some.inj (hactive.symm.trans hsettled.active)]
  | none =>
      obtain ⟨pending, hfinal, hround, hdeadline, hvault, hrounds, houtcomes, hstats⟩ :=
        hsettled.staged hresolution
      exact .stage call round pending s' (by rw [hprice, hfinal]) hsettled.active hround
        hdeadline (hending.trans hresolution) hvault hrounds houtcomes hended hstats

omit [LinearOrder A] in
/-- A call that changes the administration only leaves the accounts and the rounds alone. -/
theorem ensures_onControl_same {α : Type} (m : ControlM A α) :
    Ensures (onControl m) env s fun _ s' => SameMarket s s' ∧ s'.stats = s.stats := by
  rw [ensures_onControl]
  exact fun _ _ _ => ⟨⟨rfl, rfl, rfl⟩, rfl⟩

omit [LinearOrder A] in
theorem migrationGate_same [DecidableEq A] (fromVersion : ℕ) :
    Ensures (migrationGate fromVersion) env s fun _ s' => s' = s := by
  simp [migrationGate, ensureNotPaused]

/-- What a successful call did is one of the effects. -/
theorem Call.ensures_effect (hinorder : InOrder s) (call : Call A) :
    Ensures call.exec env s fun _ s' => Effect env s call s' := by
  cases call with
  | control call =>
      refine (ensures_onControl_same call.exec).mono fun _ s' hsame => ?_
      exact .quiet _ s' hsame.1 (by simp) rfl (by simp) fun _ => hsame.2
  | migrateSchemaV1ToV2 dryRun | migrateSchemaV2ToV3 dryRun =>
      simp only [Call.exec, XelmaMarket.migrateSchemaV1ToV2, XelmaMarket.migrateSchemaV2ToV3,
        ensures_bind]
      refine (migrationGate_same _).mono ?_
      rintro _ _ rfl
      simp only [ensures_onlyIf, ensures_onControl, ensures_updateSettings]
      exact ⟨fun _ => .quiet _ _ ⟨rfl, rfl, rfl⟩ (by simp) rfl (by simp) fun _ => rfl,
        fun _ => .quiet _ _ (.refl _) (by simp) rfl (by simp) fun _ => rfl⟩
  | executeGovProposal executor proposalId => exact execute_effect executor proposalId
  | withdrawProtocolFee recipient amount =>
      simp only [Call.exec, discardResult, XelmaMarket.withdrawProtocolFee, ensures_bind,
        ensures_onControl, ensures_requireSupportedSchema, ensures_authorizedAdmin, ensures_gets,
        ensures_reject, ensureNotPaused, ensures_policyGate, ensures_pure]
      intro _ _ _ _ _ _
      refine (executeWithdrawFee_spec recipient amount).mono ?_
      rintro _ s' ⟨hamount, rfl⟩
      exact .payFee _ recipient amount _ (.inl rfl) hamount rfl ⟨rfl, rfl, rfl⟩
  | topUpInsuranceFund amount => exact topUpInsuranceFund_effect amount
  | withdrawInsuranceFund recipient amount =>
      simp only [Call.exec, discardResult, XelmaMarket.withdrawInsuranceFund, ensures_bind,
        ensures_onControl, ensures_authorizedAdmin, ensures_gets, ensures_reject, ensureNotPaused,
        ensures_policyGate, ensures_pure]
      intro _ _ _ _ _
      refine (executeWithdrawInsuranceFund_spec recipient amount).mono ?_
      rintro _ s' ⟨hamount, rfl⟩
      exact .payFund _ recipient amount _ (.inl rfl) hamount rfl ⟨rfl, rfl, rfl⟩
  | reclaimExpiredPendingWinnings user =>
      simp only [Call.exec, discardResult, ensures_bind, ensures_pure]
      exact reclaimExpiredPendingWinnings_effect user
  | resetLeaderboardSeason =>
      simp only [Call.exec, discardResult, XelmaMarket.resetLeaderboardSeason, ensures_bind,
        ensures_onControl, ensures_onStats, ensures_pure]
      intro _ control _ _ stats _
      exact .quiet _ _ ⟨rfl, rfl, rfl⟩ (by simp) rfl (by simp) (absurd rfl)
  | mintInitial user =>
      simp only [Call.exec, discardResult, ensures_bind, ensures_pure]
      exact mintInitial_effect user
  | createRound startPrice mode => exact createRound_effect (.inl ⟨startPrice, mode, rfl⟩)
  | createNextFromTemplate => exact createRound_effect (.inr rfl)
  | placeBet user amount side => exact placeBet_effect user amount side
  | placePrecisionPrediction user amount predictedPrice =>
      exact placePrecisionPrediction_effect user amount predictedPrice (.inl rfl)
  | predictPrice user guessedPrice amount =>
      exact placePrecisionPrediction_effect user amount guessedPrice (.inr rfl)
  | commitPrediction user hash amount => exact commitPrediction_effect user hash amount
  | revealPrediction user predictedPrice salt =>
      exact revealPrediction_effect user predictedPrice salt
  | cashOutEarly user => exact cashOutEarly_effect user
  | resolveRound payload =>
      refine (Call.ensures_settled hinorder rfl).mono ?_
      rintro _ s' ⟨round, finalPrice, -, hended, hprice, hsettled⟩
      exact hsettled.effect hprice hended (by obtain rfl := Option.some.inj hprice; rfl)
  | resolveRoundMulti payload =>
      refine (Call.ensures_settled hinorder rfl).mono ?_
      rintro _ s' ⟨round, finalPrice, -, hended, hprice, hsettled⟩
      have hmedian : (medianPrice payload.prices).toOption = some finalPrice := hprice
      exact hsettled.effect hprice hended (by simp [Call.ending, hmedian])
  | cancelRound reason =>
      cases hactive : s.rounds.activeRound with
      | none =>
          simp [Call.exec, XelmaMarket.cancelRound, readActiveRound, hactive]
      | some round =>
          refine (cancelRound_spec hactive
            (hinorder.represents round.roundId round (.inl ⟨hactive, rfl⟩))
            (hinorder.stakes_fit round hactive) reason).mono fun _ s' hends => ?_
          exact .ending _ _ s' (by simp [Call.ending, hactive]) hends (by simp [Call.price])
  | voidRound roundId =>
      cases hpending : s.rounds.pendingDisputes.get roundId with
      | none =>
          simp [Call.exec, XelmaMarket.voidRound, readPendingDispute, hpending, ensureNotPaused]
      | some pending =>
          refine (voidRound_spec hpending (hinorder.pending_id roundId pending hpending)
            (hinorder.represents roundId pending.round
              (.inr ⟨pending, hpending, rfl⟩))).mono fun _ s' hends => ?_
          exact .ending _ _ s' (by simp [Call.ending, hpending]) hends.2 (by simp [Call.price])
  | finalizeRound roundId =>
      cases hpending : s.rounds.pendingDisputes.get roundId with
      | none =>
          simp [Call.exec, XelmaMarket.finalizeRound, readPendingDispute, hpending,
            ensureNotPaused]
      | some pending =>
          refine (finalizeRound_spec hpending (hinorder.pending_id roundId pending hpending)
            (hinorder.represents roundId pending.round (.inr ⟨pending, hpending, rfl⟩))
            hinorder.fee_capped).mono fun _ s' hends => ?_
          exact .ending _ _ s' (by simp [Call.ending, hpending]) hends.2.2 (by simp [Call.price])
  | claimWinnings user =>
      simp only [Call.exec, discardResult, ensures_bind, ensures_pure]
      exact claimWinnings_effect user
  | claimMany users =>
      simp only [Call.exec, discardResult, ensures_bind, ensures_pure]
      exact claimMany_effect users

/-- A successful call has its effect. -/
theorem Call.effect (hinorder : InOrder s) {call : Call A} {s' : Storage A}
    (hrun : call.exec env s = .ok (⟨⟩, s')) : Effect env s call s' :=
  (Call.ensures_effect hinorder call).elim hrun

end XelmaMarket
